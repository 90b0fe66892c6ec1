import ScriptSandbox.Proofs.Source.Extents
import ScriptSandbox.Proofs.Source.StringBodies

/-!
Strings that are not formatted. Such a string is one lexeme without fields, whatever stands in it: the
reader stops at the closing quotes, as a quote inside is hidden by a backslash.
-/

namespace ScriptSandbox

open Lexeme

/-- Some characters can stand between the quotes of a string: each stands for itself or is hidden by a
backslash before it. -/
inductive LiteralBody (d : Delimiter) : List Char → Prop
  | nil : LiteralBody d []
  | hidden {c body} : LiteralBody d body → LiteralBody d ('\\' :: c :: body)
  | plain {c body} : c ≠ '\\' → c ≠ d.quote → d.stops c = false → LiteralBody d body →
      LiteralBody d (c :: body)

/-- A word that may stand before a string that is not formatted, in whatever case. -/
def IsPlainPrefix (word : List Char) : Prop :=
  word.map Char.toLower ∈ [[], ['r'], ['u'], ['b'], ['b', 'r'], ['r', 'b']]

instance (word : List Char) : Decidable (IsPlainPrefix word) :=
  inferInstanceAs (Decidable (_ ∈ _))

theorem IsPlainPrefix.known {c : Char} {word : List Char} (h : IsPlainPrefix (c :: word)) :
    (c :: word).map Char.toLower ∈ stringPrefixes ∧
      ((c :: word).map Char.toLower).contains 'f' = false := by
  have hprefixes : ∀ lower ∈ [[], ['r'], ['u'], ['b'], ['b', 'r'], ['r', 'b']], lower ≠ [] →
      lower ∈ stringPrefixes ∧ lower.contains 'f' = false := by decide
  exact hprefixes _ h (by simp)

/-- A string as it is written. -/
structure StringLiteral where
  word : List Char
  delimiter : Delimiter
  body : List Char
  isPlainPrefix : IsPlainPrefix word
  isQuote_quote : isQuote delimiter.quote = true
  literalBody : LiteralBody delimiter body

def Lexeme.Delimiter.quotes (d : Delimiter) : List Char :=
  List.replicate d.length d.quote

def StringLiteral.text (s : StringLiteral) : List Char :=
  s.word ++ (s.delimiter.quotes ++ s.body ++ s.delimiter.quotes)

namespace Lexeme

theorem Delimiter.quotes_eq (d : Delimiter) :
    d.quotes = d.quote :: List.replicate (d.length - 1) d.quote := by
  unfold quotes length
  cases d.triple <;> rfl

theorem Delimiter.quotes_append (d : Delimiter) (text : List Char) :
    d.quotes ++ text = d.quote :: (List.replicate (d.length - 1) d.quote ++ text) := by
  rw [quotes_eq, List.cons_append]

theorem classify_quote {quote : Char} (h : isQuote quote = true) (lenient : Bool) (p : Position)
    (rest : List Char) : classify lenient p quote rest = stringKind quote false p rest := by
  rcases eq_or_of_isQuote h with rfl | rfl <;> simp +decide only [classify, ↓reduceIte]

theorem stringExtent_literal {d : Delimiter} (hquote : isQuote d.quote = true) {body : List Char}
    (h : LiteralBody d body) (p : Position) (n : Nat) (rest : List Char) :
    stringExtent d false p n [] (body ++ d.quotes ++ rest) =
      some (n + body.length + d.length, []) := by
  induction h generalizing p n with
  | nil =>
      have hslash : d.quote ≠ '\\' := by
        rcases eq_or_of_isQuote hquote with h | h <;> rw [h] <;> decide
      have hstops : d.stops d.quote = false := by
        simp [Delimiter.stops, isLineEnd_of_isQuote hquote]
      have hbegins : d.begins (d.quotes ++ rest) = true :=
        List.isPrefixOf_iff_prefix.2 (List.prefix_append d.quotes rest)
      rw [List.nil_append]
      rw [d.quotes_eq, List.cons_append] at hbegins ⊢
      rw [stringExtent_begins hslash (ne_true_of_eq_false hstops) hbegins]
      rfl
  | @hidden c body _ ih =>
      simp only [List.cons_append, stringExtent_hidden, ih, List.length_cons]
      simp only [Option.some.injEq, Prod.mk.injEq, and_true]
      omega
  | @plain c body hslash hne hstops _ ih =>
      have hbegins : d.begins (c :: (body ++ d.quotes ++ rest)) = false := by
        unfold Delimiter.begins
        rw [← Delimiter.quotes, d.quotes_eq]
        simp [List.isPrefixOf, hne.symm]
      rw [List.append_assoc] at hbegins ih
      simp [hslash, hstops, hbegins, ih, Nat.add_comm, Nat.add_left_comm]

theorem isPrefixOf_literal {d : Delimiter} {body rest : List Char} (hquote : isQuote d.quote = true)
    (h : LiteralBody d body) (hrest : ∀ c ∈ rest.head?, isQuote c = false) :
    [d.quote, d.quote].isPrefixOf
      (List.replicate (d.length - 1) d.quote ++ body ++ d.quotes ++ rest) = d.triple := by
  obtain ⟨quote, triple⟩ := d
  cases triple with
  | true => simp [Delimiter.length, List.isPrefixOf, List.replicate]
  | false =>
      cases h with
      | nil =>
          cases rest with
          | nil => simp [Delimiter.length, Delimiter.quotes, List.isPrefixOf]
          | cons e rest =>
              have hne := ne_of_isQuote hquote (hrest e rfl)
              simp [Delimiter.length, Delimiter.quotes, List.isPrefixOf, hne.symm]
      | hidden =>
          have hne : quote ≠ '\\' := by
            rcases eq_or_of_isQuote hquote with rfl | rfl <;> decide
          simp [Delimiter.length, List.isPrefixOf, hne]
      | plain _ hne => simp [Delimiter.length, List.isPrefixOf, hne.symm]

theorem stringKind_literal {d : Delimiter} {body rest : List Char} (hquote : isQuote d.quote = true)
    (h : LiteralBody d body) (hrest : ∀ c ∈ rest.head?, isQuote c = false) (p : Position) :
    stringKind d.quote false p
        (List.replicate (d.length - 1) d.quote ++ body ++ d.quotes ++ rest) =
      (.string [], d.length - 1 + body.length + d.length) := by
  refine stringKind_of_stringExtent (isPrefixOf_literal hquote h hrest) ?_
  have hextent (p : Position) := stringExtent_literal hquote h p (d.length - 1) rest
  rw [List.append_assoc] at hextent
  rw [List.append_assoc, List.append_assoc, List.drop_left' (by simp)]
  exact hextent _

end Lexeme

namespace StringLiteral

variable {rest : List Char}

/-- A string that is not formatted begins with one lexeme, which is the whole of it. -/
theorem classify_eq (s : StringLiteral) {c : Char} {inner : List Char} (htext : s.text = c :: inner)
    (hrest : ∀ c ∈ rest.head?, isQuote c = false) (p : Position) :
    classify false p c (inner ++ rest) = (.string [], inner.length) := by
  obtain ⟨word, d, body, hword, hquote, hbody⟩ := s
  unfold text at htext
  dsimp only at htext
  rw [List.append_assoc, d.quotes_append] at htext
  cases word with
  | nil =>
      obtain ⟨rfl, rfl⟩ := List.cons.inj htext
      rw [classify_quote hquote, ← List.append_assoc, stringKind_literal hquote hbody hrest]
      simp [Delimiter.quotes, Nat.add_assoc]
  | cons e word =>
      rw [List.cons_append] at htext
      obtain ⟨rfl, rfl⟩ := List.cons.inj htext
      obtain ⟨hknown, hformatted⟩ := hword.known
      rw [List.append_assoc, List.cons_append, classify_prefixed hknown hquote, hformatted,
        ← List.append_assoc (List.replicate _ _), stringKind_literal hquote hbody hrest]
      simp only [List.length_append, List.length_cons, List.length_replicate, Delimiter.quotes,
        Prod.mk.injEq, true_and]
      omega

/-- A string that is not formatted is one lexeme, and the rest is read behind it. -/
theorem split_eq (s : StringLiteral) (hrest : ∀ c ∈ rest.head?, isQuote c = false) (p : Position) :
    split false p [] (s.text ++ rest) =
      ⟨.string [], s.text, p⟩ :: split false (p.after s.text) [] rest := by
  obtain ⟨c, inner, htext⟩ : ∃ c inner, s.text = c :: inner := by
    refine List.exists_cons_of_ne_nil ?_
    simp [text, s.delimiter.quotes_eq]
  rw [htext, List.cons_append, split_cons, s.classify_eq htext hrest]
  dsimp only
  rw [List.take_left, List.drop_left]

end StringLiteral

end ScriptSandbox
