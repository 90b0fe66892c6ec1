import Mathlib.Data.List.Basic
import Mathlib.Data.List.Find
import ScriptSandbox.Proofs.Source.Extents

/-!
Where a text can be cut. No lexeme goes on over a line feed but strings and breaks of lines, so when
a text ends in a line feed and nothing in it is broken, it has the same lexemes whatever follows it.
-/

namespace ScriptSandbox

def EndsInFeed (text : List Char) : Prop :=
  ∀ c ∈ text.getLast?, c = '\n'

namespace EndsInFeed

variable {text rest : List Char} {c : Char}

theorem suffix (h : EndsInFeed text) (hrest : rest <:+ text) : EndsInFeed rest :=
  fun c hc => h c (mem_getLast?_of_suffix hrest hc)

theorem tail (h : EndsInFeed (c :: rest)) : EndsInFeed rest :=
  h.suffix (List.suffix_cons c rest)

theorem mem (h : EndsInFeed text) (hne : text ≠ []) : '\n' ∈ text := by
  have hlast := h (text.getLast hne) (List.getLast?_eq_some_getLast hne)
  rw [← hlast]
  exact List.getLast_mem hne

theorem mem_tail (h : EndsInFeed (c :: rest)) (hc : c ≠ '\n') : '\n' ∈ rest := by
  rcases List.mem_cons.1 (h.mem (by simp)) with heq | hmem
  · exact absurd heq.symm hc
  · exact hmem

end EndsInFeed

namespace Lexeme

section Feed

variable {text : List Char} (htext : '\n' ∈ text) (more : List Char)
include htext

/-- What holds of characters up to a line feed at most is not changed by what follows the line
feed. -/
theorem takeWhile_append_of_feed {keep : Char → Bool} (hkeep : keep '\n' = false) :
    (text ++ more).takeWhile keep = text.takeWhile keep ∧
      (text.takeWhile keep).length < text.length := by
  obtain ⟨before, after, rfl⟩ := List.append_of_mem htext
  have hle := (List.takeWhile_prefix (l := before) keep).length_le
  rw [List.append_assoc, List.cons_append, takeWhile_append_cons hkeep, takeWhile_append_cons hkeep,
    List.length_append, List.length_cons]
  exact ⟨rfl, by omega⟩

theorem isPrefixOf_append_of_feed {lead : List Char} (hlead : '\n' ∉ lead) :
    lead.isPrefixOf (text ++ more) = lead.isPrefixOf text := by
  obtain ⟨before, after, rfl⟩ := List.append_of_mem htext
  rw [List.append_assoc, List.cons_append, isPrefixOf_append_cons hlead,
    isPrefixOf_append_cons hlead]

omit more in
theorem length_lt_of_isPrefixOf {lead : List Char} (hlead : '\n' ∉ lead)
    (h : lead.isPrefixOf text = true) : lead.length < text.length := by
  have hbegins := List.isPrefixOf_iff_prefix.1 h
  refine Nat.lt_of_le_of_ne hbegins.length_le fun heq => hlead ?_
  rwa [hbegins.eq_of_length heq]

end Feed

/-- A string that is closed in a text is closed there whatever follows, and not by the line feed. -/
theorem stringExtent_append {d : Delimiter} {formatted : Bool} {p : Position} {n length : Nat}
    {fields found : List Field} {text : List Char} (hquote : d.quote ≠ '\n')
    (htext : EndsInFeed text) (more : List Char)
    (h : stringExtent d formatted p n fields text = some (length, found)) :
    stringExtent d formatted p n fields (text ++ more) = some (length, found) ∧
      length < n + text.length := by
  obtain ⟨lead, rest, rfl, rfl⟩ := stringExtent_ends h
  have hlast : rest ≠ [] := by
    rintro rfl
    have hreplicate := List.getLast?_replicate (a := d.quote) (n := d.length)
    rw [if_neg (Nat.ne_of_gt d.length_pos)] at hreplicate
    exact hquote (htext d.quote (by simp [List.getLast?_append, hreplicate]))
  have hpos := List.length_pos_iff.2 hlast
  rw [← List.append_nil (lead ++ _ ++ rest)] at h
  simp only [List.length_append, List.length_replicate]
  exact ⟨stringExtent_swap h (by simp only [List.length_append, List.length_replicate]; omega) more,
    by omega⟩

/-! ### Lexemes -/

/-- What is found at the beginning of `n` characters is broken, or it is the same as what is found
when more follows. Then it ends before the characters do, or with them if it ends the line. -/
def Kept (n : Nat) (found found' : LexemeKind × Nat) : Prop :=
  (∃ problem, found.1 = .broken problem) ∨ found' = found ∧
    (found.2 < n ∨ found.2 = n ∧ (found.1 = .lineBreak ∨ found.1 = .continuation))

theorem kept_of_lt {n : Nat} {found found' : LexemeKind × Nat} (heq : found' = found)
    (hlength : found.2 < n) : Kept n found found' :=
  .inr ⟨heq, .inl hlength⟩

theorem kept_of_le {n : Nat} {found found' : LexemeKind × Nat} (heq : found' = found)
    (hkind : found.1 = .lineBreak ∨ found.1 = .continuation) (hlength : found.2 ≤ n) :
    Kept n found found' :=
  .inr ⟨heq, (Nat.lt_or_eq_of_le hlength).imp id fun h => ⟨h, hkind⟩⟩

theorem Kept.shift {n i : Nat} {found found' : LexemeKind × Nat} (h : Kept n found found') :
    Kept (i + n) (found.1, i + found.2) (found'.1, i + found'.2) := by
  rcases h with hbroken | ⟨rfl, hends⟩
  · exact .inl hbroken
  · refine .inr ⟨rfl, ?_⟩
    rwa [Nat.add_lt_add_iff_left, Nat.add_left_cancel_iff]

theorem ne_feed_of_isQuote {quote : Char} (h : isQuote quote = true) : quote ≠ '\n' := by
  rintro rfl
  cases h

theorem stringKind_append {quote : Char} (hquote : isQuote quote = true) (formatted : Bool)
    (p : Position) {text : List Char} (htext : EndsInFeed text) (hne : text ≠ []) (more : List Char) :
    Kept text.length (stringKind quote formatted p text)
      (stringKind quote formatted p (text ++ more)) := by
  by_cases hbroken : ∃ problem, (stringKind quote formatted p text).1 = .broken problem
  · exact .inl hbroken
  obtain ⟨d, length, fields, rfl, hquotes, hextent⟩ :=
    exists_stringExtent fun problem h => hbroken ⟨problem, h⟩
  have hquote' := ne_feed_of_isQuote hquote
  have hfeed : '\n' ∉ [d.quote, d.quote] := by
    simp [hquote'.symm]
  have hopening := Nat.le_of_lt (lt_length_of_stringExtent_drop hextent)
  obtain ⟨hfound, hlength⟩ := stringExtent_append hquote'
    (htext.suffix (List.drop_suffix (d.length - 1) text)) more hextent
  have hsame : stringKind d.quote formatted p (text ++ more) = (.string fields, length) := by
    refine stringKind_of_stringExtent ?_ ?_
    · rw [isPrefixOf_append_of_feed (htext.mem hne) more hfeed, hquotes]
    · rwa [List.take_append_of_le_length hopening, List.drop_append_of_le_length hopening]
  rw [stringKind_of_stringExtent hquotes hextent, hsame]
  rw [List.length_drop] at hlength
  refine kept_of_lt rfl ?_
  dsimp only
  omega

theorem numberLength_append (hexadecimal : Bool) (previous : Char) {text : List Char}
    (htext : '\n' ∈ text) (more : List Char) :
    numberLength hexadecimal previous (text ++ more) = numberLength hexadecimal previous text ∧
      numberLength hexadecimal previous text < text.length := by
  have hlength : numberLength hexadecimal previous text < text.length := by
    by_contra hlong
    rw [← List.take_of_length_le (Nat.not_lt.1 hlong)] at htext
    cases goesOnNumber_of_mem htext
  have hswap := numberLength_swap (x := []) (by rwa [List.append_nil]) more
  rw [List.append_nil] at hswap
  exact ⟨hswap, hlength⟩

theorem not_mem_operator {operator : List Char} (h : operator ∈ operators) : '\n' ∉ operator :=
  (show ∀ operator ∈ operators, '\n' ∉ operator by decide) operator h

theorem find?_operators_append {text : List Char} (htext : '\n' ∈ text) (more : List Char) :
    operators.find? (·.isPrefixOf (text ++ more)) = operators.find? (·.isPrefixOf text) :=
  List.find?_congr fun _ hoperator =>
    isPrefixOf_append_of_feed htext more (not_mem_operator hoperator)

theorem classify_backslash_append {p : Position} {rest : List Char}
    (htext : EndsInFeed ('\\' :: rest)) (more : List Char) :
    Kept rest.length (classify false p '\\' rest) (classify false p '\\' (rest ++ more)) := by
  simp +decide only [classify, ↓reduceIte]
  split
  · exact kept_of_le rfl (.inr rfl) (by simp)
  · exact kept_of_le rfl (.inr rfl) (by simp)
  · rename_i tail hnot
    -- A carriage return is not the last character.
    obtain ⟨d, tail, rfl⟩ := List.exists_cons_of_ne_nil
      (List.ne_nil_of_mem (htext.tail.mem_tail (by decide)))
    have hd : d ≠ '\n' := by
      rintro rfl
      exact hnot tail rfl
    refine kept_of_le ?_ (.inr rfl) (by simp)
    simp [hd]
  · exact .inl ⟨_, rfl⟩

theorem kept_prefixed {quote : Char} (hquote : isQuote quote = true) (formatted : Bool)
    (p : Position) {length : Nat} {rest text : List Char} (hrest : EndsInFeed rest)
    (hafter : rest.drop length = quote :: text) (more : List Char) :
    Kept rest.length ((stringKind quote formatted p text).1,
        length + 1 + (stringKind quote formatted p text).2)
      ((stringKind quote formatted p (text ++ more)).1,
        length + 1 + (stringKind quote formatted p (text ++ more)).2) := by
  have htail : EndsInFeed (quote :: text) := by
    rw [← hafter]
    exact hrest.suffix (List.drop_suffix length rest)
  have hlength : length + 1 + text.length = rest.length := by
    have hdrop := congrArg List.length hafter
    rw [List.length_drop, List.length_cons] at hdrop
    omega
  rw [← hlength]
  have hne := List.ne_nil_of_mem (htail.mem_tail (ne_feed_of_isQuote hquote))
  exact (stringKind_append hquote formatted p htail.tail hne more).shift

/-- A lexeme of a text that ends in a line feed is the same whatever follows the text. -/
theorem classify_append {p : Position} {c : Char} {rest : List Char} (htext : EndsInFeed (c :: rest))
    (more : List Char) :
    Kept rest.length (classify false p c rest) (classify false p c (rest ++ more)) := by
  by_cases hslash : c = '\\'
  · subst hslash
    exact classify_backslash_append htext more
  have hmem (hc : c ≠ '\n') : '\n' ∈ rest := htext.mem_tail hc
  have hhead (hc : c ≠ '\n') : (rest ++ more).head? = rest.head? :=
    List.head?_append_of_ne_nil rest (List.ne_nil_of_mem (hmem hc))
  have hrun {keep : Char → Bool} (kind : LexemeKind) (hc : c ≠ '\n') (hkeep : keep '\n' = false) :
      Kept rest.length (kind, (rest.takeWhile keep).length)
        (kind, ((rest ++ more).takeWhile keep).length) := by
    obtain ⟨heq, hlength⟩ := takeWhile_append_of_feed (hmem hc) more hkeep
    exact kept_of_lt (by rw [heq]) hlength
  unfold classify
  refine ite_rel (R := Kept rest.length) Iff.rfl (fun hgap => ?_) fun _ => ?_
  · refine hrun .blank ?_ rfl
    rintro rfl
    cases hgap
  refine ite_rel (R := Kept rest.length) Iff.rfl (fun hhash => ?_) fun _ => ?_
  · refine hrun .comment ?_ rfl
    rintro rfl
    cases hhash
  refine ite_rel (R := Kept rest.length) Iff.rfl (fun hfeed => ?_) fun hc => ?_
  · exact kept_of_le rfl (.inl rfl) (Nat.zero_le _)
  refine ite_rel (R := Kept rest.length) Iff.rfl (fun hreturn => ?_) fun _ => ?_
  · rw [hhead hc]
    refine kept_of_le rfl (.inl rfl) ?_
    have hpos := List.length_pos_of_mem (hmem hc)
    dsimp only
    split <;> omega
  refine ite_rel (R := Kept rest.length) Iff.rfl (fun hbackslash => absurd hbackslash hslash) fun _ => ?_
  refine ite_rel (R := Kept rest.length) Iff.rfl (fun hquote => ?_) fun _ => ?_
  · exact stringKind_append hquote false p htext.tail (List.ne_nil_of_mem (hmem hc)) more
  rw [hhead hc]
  refine ite_rel (R := Kept rest.length) Iff.rfl (fun hdigit => ?_) fun _ => ?_
  · obtain ⟨heq, hlength⟩ := numberLength_append
      (c == '0' && (rest.head? == some 'x' || rest.head? == some 'X')) c (hmem hc) more
    exact kept_of_lt (Prod.ext rfl heq) hlength
  refine ite_rel (R := Kept rest.length) Iff.rfl (fun hstart => ?_) fun _ => ?_
  · have hfeed : Text.isWordPart '\n' = false := rfl
    obtain ⟨heq, hlength⟩ := takeWhile_append_of_feed (hmem hc) more hfeed
    dsimp only
    rw [heq, List.take_append_of_le_length (Nat.le_of_lt hlength),
      List.drop_append_of_le_length (Nat.le_of_lt hlength)]
    cases hdrop : rest.drop (rest.takeWhile Text.isWordPart).length with
    | nil =>
        have hshort := List.drop_eq_nil_iff.1 hdrop
        omega
    | cons quote text =>
        refine ite_rel (R := Kept rest.length) Iff.rfl (fun hprefixed => ?_) fun _ => kept_of_lt rfl hlength
        rw [Bool.and_eq_true] at hprefixed
        exact kept_prefixed hprefixed.1 _ _ htext.tail hdrop more
  · rw [← List.cons_append, find?_operators_append (List.mem_cons_of_mem _ (hmem hc)) more]
    split
    · rename_i operator hfind
      have hoperator := List.mem_of_find?_eq_some hfind
      have hbegins : operator.isPrefixOf (c :: rest) = true := by simpa using List.find?_some hfind
      have hlength := length_lt_of_isPrefixOf (List.mem_cons_of_mem c (hmem hc))
        (not_mem_operator hoperator) hbegins
      have hpos := List.length_pos_iff.2 (ne_nil_of_mem_operators hoperator)
      refine kept_of_lt rfl ?_
      rw [List.length_cons] at hlength
      dsimp only
      omega
    · exact .inl ⟨_, rfl⟩

def Intact (lexemes : List Lexeme) : Prop :=
  ∀ l ∈ lexemes, ∀ problem, l.kind ≠ .broken problem

/-- A text that ends in a line feed has the same lexemes whatever follows it, and what follows has its
own lexemes. The last lexeme of the text is a line break or continues the line. -/
theorem split_append {p : Position} {text : List Char} (htext : EndsInFeed text)
    (hintact : Intact (split false p [] text)) (more : List Char) :
    split false p [] (text ++ more) = split false p [] text ++ split false (p.after text) [] more ∧
      ∀ l ∈ (split false p [] text).getLast?, l.kind = .lineBreak ∨ l.kind = .continuation := by
  induction p, text using split_induction false with
  | nil p => simp [split]
  | cons p c rest ih =>
      rw [split_cons] at hintact
      obtain ⟨hfirst, hrest⟩ := List.forall_mem_cons.1 hintact
      rcases classify_append (p := p) htext more with ⟨problem, hbroken⟩ | ⟨heq, hends⟩
      · exact absurd hbroken (hfirst problem)
      · rw [List.cons_append, split_cons, split_cons, heq]
        generalize classify false p c rest = found at hends hrest ih
        have hread : found.2 ≤ rest.length := by omega
        obtain ⟨hsplit, hlast⟩ := ih (htext.tail.suffix (List.drop_suffix found.2 rest)) hrest
        refine ⟨?_, ?_⟩
        · rw [List.take_append_of_le_length hread, List.drop_append_of_le_length hread, hsplit,
            ← Position.after_append, List.cons_append, List.take_append_drop]
          rfl
        · cases hmore : rest.drop found.2 with
          | nil =>
              have hend : ¬ found.2 < rest.length := Nat.not_lt.2 (List.drop_eq_nil_iff.1 hmore)
              rw [split]
              rintro l ⟨⟩
              exact (hends.resolve_left hend).2
          | cons d tail =>
              rw [hmore] at hlast
              rw [split_cons] at hlast ⊢
              rw [List.getLast?_cons_cons]
              exact hlast

end Lexeme

end ScriptSandbox
