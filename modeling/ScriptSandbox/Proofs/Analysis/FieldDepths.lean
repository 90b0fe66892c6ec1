import ScriptSandbox.Proofs.Analysis.Fields
import ScriptSandbox.Proofs.Source.Literals

/-!
How deep strings stand in strings. There are four ways to delimit a string, and a field ends where the
delimiter of its string would begin. So the text of a field has one delimiter less than the text that
the string stands in, and after four fields there is none left for a fifth.
-/

namespace ScriptSandbox

open Lexeme

def stringDelimiters : List Delimiter :=
  [⟨'"', false⟩, ⟨'\'', false⟩, ⟨'"', true⟩, ⟨'\'', true⟩]

/-- The quotes of a delimiter stand somewhere in a text. -/
def Lexeme.Delimiter.OccursIn (d : Delimiter) (text : List Char) : Prop :=
  d.quotes <:+: text

instance (d : Delimiter) (text : List Char) : Decidable (d.OccursIn text) :=
  inferInstanceAs (Decidable (_ <:+: _))

def delimitersIn (text : List Char) : Nat :=
  stringDelimiters.countP fun d => d.OccursIn text

/-- Fields inside each other: each is a field of a token in the expression of the field before it, and
the first one of one of the given tokens. Where an expression stands does not matter. -/
inductive FieldChain : List Token → List Field → Prop
  | nil {tokens} : FieldChain tokens []
  | cons {tokens t f chain} (p : Position) : t ∈ tokens → f ∈ t.fields →
      FieldChain (tokenizeFragment f.source p) chain → FieldChain tokens (f :: chain)

/-! ### Delimiters in texts -/

theorem mem_stringDelimiters {d : Delimiter} (h : isQuote d.quote = true) : d ∈ stringDelimiters := by
  obtain ⟨quote, triple⟩ := d
  rcases eq_or_of_isQuote h with hquote | hquote
  · cases triple <;> simp [stringDelimiters, show quote = '"' from hquote]
  · cases triple <;> simp [stringDelimiters, show quote = '\'' from hquote]

theorem delimitersIn_le (text : List Char) : delimitersIn text ≤ 4 :=
  List.countP_le_length

theorem delimitersIn_lt {d : Delimiter} {part text : List Char} (hpart : part <:+: text)
    (hd : d ∈ stringDelimiters) (htext : d.OccursIn text) (hlacks : ¬ d.OccursIn part) :
    delimitersIn part < delimitersIn text := by
  have hmono (e : Delimiter) (h : decide (e.OccursIn part) = true) :
      decide (e.OccursIn text) = true :=
    decide_eq_true ((of_decide_eq_true h).trans hpart)
  obtain ⟨before, after, hsplit⟩ := List.append_of_mem hd
  have hbefore := List.countP_mono_left (l := before) fun e _ => hmono e
  have hafter := List.countP_mono_left (l := after) fun e _ => hmono e
  rw [delimitersIn, delimitersIn, hsplit, List.countP_append, List.countP_append,
    List.countP_cons_of_neg (by simpa using hlacks), List.countP_cons_of_pos (by simpa using htext)]
  omega

namespace Lexeme

theorem not_occursIn_fieldExtent (d : Delimiter) (depth n : Nat) (text : List Char) :
    ¬ d.OccursIn (text.take ((fieldExtent d depth n text).1 - n)) := by
  have hnil : ¬ d.OccursIn [] := by
    simp [Delimiter.OccursIn, d.quotes_eq]
  have hcons {depth n : Nat} {c : Char} {rest : List Char}
      (hgoes : ¬ (d.begins (c :: rest) || d.stops c) = true)
      (h : ¬ d.OccursIn (rest.take ((fieldExtent d depth (n + 1) rest).1 - (n + 1)))) :
      ¬ d.OccursIn ((c :: rest).take ((fieldExtent d depth (n + 1) rest).1 - n)) := by
    have hread := le_fieldExtent d depth (n + 1) rest
    rw [show (fieldExtent d depth (n + 1) rest).1 - n =
      (fieldExtent d depth (n + 1) rest).1 - (n + 1) + 1 by omega, List.take_succ_cons]
    intro hoccurs
    rcases List.infix_cons_iff.1 hoccurs with hbegins | hlater
    · refine hgoes (Bool.or_eq_true_iff.2 (.inl (List.isPrefixOf_iff_prefix.2 ?_)))
      exact hbegins.trans (List.take_prefix (_ + 1) (c :: rest))
    · exact h hlater
  fun_induction fieldExtent d depth n text with
  | case1 => simpa using hnil
  | case2 => simpa using hnil
  | case3 _ _ _ _ hgoes _ ih => exact hcons hgoes ih
  | case4 => simpa using hnil
  | case5 _ _ _ _ hgoes _ _ _ ih => exact hcons hgoes ih
  | case6 _ _ _ _ hgoes _ _ ih => exact hcons hgoes ih

theorem not_occursIn_stringExtent {d : Delimiter} {formatted : Bool} {p : Position} {n length : Nat}
    {fields found : List Field} {text : List Char}
    (h : stringExtent d formatted p n fields text = some (length, found))
    (hfields : ∀ f ∈ fields, ¬ d.OccursIn f.source.toList) :
    ∀ f ∈ found, ¬ d.OccursIn f.source.toList := by
  fun_induction stringExtent d formatted p n fields text generalizing length found with
  | case1 => cases h
  | case2 => cases h
  | case3 p n fields e rest ih => exact ih h hfields
  | case4 => cases h
  | case5 p n fields c rest hslash hstops hbegins =>
      cases h
      simpa using hfields
  | case6 p n fields c rest hslash hstops hbegins hopens hbrace ih => exact ih h hfields
  | case7 p n fields c rest hslash hstops hbegins hopens hbrace fieldLength closed hextent read =>
      rename_i field ih
      refine ih h (List.forall_mem_cons.2 ⟨?_, hfields⟩)
      have hlacks := not_occursIn_fieldExtent d 1 0 rest
      rw [hextent] at hlacks
      simpa [field] using hlacks
  | case8 p n fields c rest hslash hstops hbegins hopens ih => exact ih h hfields

theorem exists_delimiter_of_stringKind {quote : Char} {formatted : Bool} {p : Position}
    {text : List Char} {fields : List Field} (hquote : isQuote quote = true)
    (h : (stringKind quote formatted p text).1 = .string fields) :
    ∃ d ∈ stringDelimiters, d.OccursIn (quote :: text) ∧
      ∀ f ∈ fields, ¬ d.OccursIn f.source.toList := by
  have hends : ∀ problem, (stringKind quote formatted p text).1 ≠ .broken problem := by
    simp [h]
  obtain ⟨d, length, found, rfl, htriple, hextent⟩ := exists_stringExtent hends
  rw [stringKind_of_stringExtent htriple hextent] at h
  cases h
  refine ⟨d, mem_stringDelimiters hquote, ?_, not_occursIn_stringExtent hextent (by simp)⟩
  refine List.IsPrefix.isInfix ?_
  rw [d.quotes_eq, List.cons_prefix_cons]
  refine ⟨rfl, ?_⟩
  cases hkind : d.triple with
  | true =>
      rw [hkind, List.isPrefixOf_iff_prefix] at htriple
      simpa [Delimiter.length, hkind] using htriple
  | false => simp [Delimiter.length, hkind]

/-- A lexeme that is a string is read from a quote on. -/
theorem exists_quote_of_classify {lenient : Bool} {p : Position} {c : Char} {rest : List Char}
    {fields : List Field} (h : (classify lenient p c rest).1 = .string fields) :
    ∃ quote formatted q text, isQuote quote = true ∧ quote :: text <:+ c :: rest ∧
      (stringKind quote formatted q text).1 = .string fields := by
  by_cases hquote : isQuote c = true
  · rw [classify_quote hquote] at h
    exact ⟨c, false, p, rest, hquote, List.suffix_rfl, h⟩
  by_cases hstart : Text.isWordStart c = true
  · rw [(isLetter_of_isWordStart hstart).classify_eq, classifyWord] at h
    split at h
    · rename_i quote text hafter
      split at h
      · rename_i hprefixed
        rw [Bool.and_eq_true] at hprefixed
        refine ⟨quote, _, _, text, hprefixed.1, ?_, h⟩
        rw [← hafter]
        exact (List.drop_suffix _ rest).trans (List.suffix_cons c rest)
      · cases h
    · cases h
  · -- What begins with anything else is no string.
    refine absurd h ?_
    by_cases hslash : c = '\\'
    · subst hslash
      rw [classify_backslash]
      repeat' split
      all_goals simp
    · unfold classify
      rw [if_neg hquote, if_neg hslash, if_neg hstart]
      repeat' split
      all_goals simp

theorem delimitersIn_lt_of_mem_split {lenient : Bool} {p : Position} {text : List Char} {l : Lexeme}
    {fields : List Field} (hl : l ∈ split lenient p [] text) (hkind : l.kind = .string fields) :
    ∀ f ∈ fields, delimitersIn f.source.toList < delimitersIn text := by
  obtain ⟨before, after, htext, -, hshape⟩ := (lexed_split lenient p text).shape_of_mem hl
  rw [hkind] at hshape
  have hdelimiter : ∃ d ∈ stringDelimiters, d.OccursIn text ∧
      ∀ f ∈ fields, ¬ d.OccursIn f.source.toList := by
    revert hkind
    refine forall_mem_split (P := fun l => l.kind = .string fields → _) ?_ l hl
    intro q c rest hsuffix hkind
    obtain ⟨quote, _, _, inner, hquote, hinner, hkind⟩ := exists_quote_of_classify hkind
    obtain ⟨d, hd, hoccurs, hlacks⟩ := exists_delimiter_of_stringKind hquote hkind
    exact ⟨d, hd, hoccurs.trans (hinner.trans hsuffix).isInfix, hlacks⟩
  obtain ⟨d, hd, hoccurs, hlacks⟩ := hdelimiter
  intro f hf
  obtain ⟨lead, more, hlead, -, -⟩ := hshape.standsIn f hf
  refine delimitersIn_lt ⟨before ++ lead, more ++ after, ?_⟩ hd hoccurs (hlacks f hf)
  rw [htext, hlead]
  simp

end Lexeme

/-! ### Fields inside fields -/

section

variable {source : String} {tokens : List Token} {t : Token} {f : Field} {p : Position}

theorem delimitersIn_lt_of_mem_tokenize (h : tokenize source = .ok tokens) (ht : t ∈ tokens)
    (hf : f ∈ t.fields) : delimitersIn f.source.toList < delimitersIn source.toList := by
  obtain ⟨fields, hkind⟩ := Token.kind_of_mem_fields hf
  have hwritten : t.isWritten = true := by rw [Token.isWritten, hkind]
  obtain ⟨l, hl, htoken⟩ := exists_lexeme_of_tokenize h ht hwritten
  exact delimitersIn_lt_of_mem_split hl (kind_of_token? htoken hf) f hf

theorem delimitersIn_lt_of_mem_tokenizeFragment (ht : t ∈ tokenizeFragment source p)
    (hf : f ∈ t.fields) : delimitersIn f.source.toList < delimitersIn source.toList := by
  rcases mem_tokenizeFragment ht with hkind | ⟨l, hl, htoken⟩
  · simp [Token.fields, hkind] at hf
  · exact delimitersIn_lt_of_mem_split hl (kind_of_token? htoken hf) f hf

/-- Each field of a chain uses up one of the delimiters that are left. -/
theorem FieldChain.length_le {chain : List Field} {bound : Nat} (h : FieldChain tokens chain)
    (hbound : ∀ t ∈ tokens, ∀ f ∈ t.fields, delimitersIn f.source.toList < bound) :
    chain.length ≤ bound := by
  induction h generalizing bound with
  | nil => exact Nat.zero_le bound
  | @cons tokens t f chain p ht hf _ ih =>
      have hrest : chain.length ≤ delimitersIn f.source.toList :=
        ih fun u hu g hg => delimitersIn_lt_of_mem_tokenizeFragment hu hg
      exact Nat.lt_of_le_of_lt hrest (hbound t ht f hf)

/-! ### How deep fields are read -/

theorem tokensObservations_congr {inField inField' : Field → List Observation} {before : List Token}
    (h : ∀ t ∈ tokens, ∀ f ∈ t.fields, inField f = inField' f) :
    tokensObservations inField before tokens = tokensObservations inField' before tokens := by
  have htoken (before : List Token) (t : Token) (ht : t ∈ tokens) :
      tokenObservations inField before t = tokenObservations inField' before t := by
    have hfields := h t ht
    unfold Token.fields at hfields
    unfold tokenObservations
    split
    · rename_i fields hkind
      rw [hkind] at hfields
      exact List.flatMap_congr hfields
    all_goals rfl
  induction tokens generalizing before with
  | nil => rfl
  | cons t rest ih =>
      rw [tokensObservations, tokensObservations, htoken before t List.mem_cons_self]
      rw [ih (fun u hu => h u (List.mem_cons_of_mem t hu))
        fun before u hu => htoken before u (List.mem_cons_of_mem t hu)]

/-- A field is read in the same way to all depths that reach a number which falls from each field to
the ones inside it, and which is 0 for fields without tokens only. -/
theorem fieldObservations_eq_of_le (rank : Field → Nat)
    (hinner : ∀ f, ∀ t ∈ tokenizeFragment f.source f.position, ∀ g ∈ t.fields, rank g < rank f)
    (hempty : ∀ f, rank f = 0 → ∀ t ∈ tokenizeFragment f.source f.position, t.kind = .endMarker)
    {m n : Nat} (hm : rank f ≤ m) (hn : rank f ≤ n) :
    fieldObservations m f = fieldObservations n f := by
  have hnone (f : Field) (hf : rank f = 0) (n : Nat) : fieldObservations n f = [] := by
    cases n with
    | zero => rfl
    | succ n =>
        refine List.eq_nil_iff_forall_not_mem.2 fun o ho => ?_
        rw [fieldObservations] at ho
        obtain ⟨before, t, after, htokens, hown⟩ := (mem_tokensObservations _ [] _ o).1 ho
        have hkind := hempty f hf t (by simp [htokens])
        simp [tokenObservations, hkind] at hown
  induction m generalizing f n with
  | zero => rw [hnone f (Nat.le_zero.1 hm), hnone f (Nat.le_zero.1 hm)]
  | succ m ih =>
      cases n with
      | zero => rw [hnone f (Nat.le_zero.1 hn), hnone f (Nat.le_zero.1 hn)]
      | succ n =>
          rw [fieldObservations, fieldObservations]
          refine tokensObservations_congr fun t ht g hg => ?_
          have hlt := hinner f t ht g hg
          exact ih (by omega) (by omega)

/-- To any depth that exceeds the number of delimiters in it, a field is read as to its length. -/
theorem fieldObservations_eq_of_delimitersIn_lt {depth : Nat}
    (h : delimitersIn f.source.toList < depth) :
    fieldObservations f.source.length f = fieldObservations depth f := by
  have hlength : fieldObservations f.source.length f =
      fieldObservations (f.source.length + depth) f :=
    fieldObservations_eq_of_le (fun f => f.source.length)
      (fun _ _ ht _ hg => length_of_mem_fields ht hg) (fun _ hf => kind_of_empty_field hf)
      (Nat.le_refl _) (Nat.le_add_right _ _)
  have hcount : fieldObservations (f.source.length + depth) f = fieldObservations depth f :=
    fieldObservations_eq_of_le (fun f => delimitersIn f.source.toList + 1)
      (fun _ _ ht _ hg => Nat.succ_lt_succ (delimitersIn_lt_of_mem_tokenizeFragment ht hg))
      (fun _ hf => absurd hf (Nat.succ_ne_zero _)) (Nat.le_add_left_of_le h) h
  rw [hlength, hcount]

/-- However a script is nested, fields stand inside each other at most four deep, so that reading the
fields of its tokens to this depth leaves nothing out. -/
theorem length_le_four_of_fieldChain (h : tokenize source = .ok tokens) :
    (∀ chain, FieldChain tokens chain → chain.length ≤ 4) ∧
      ∀ t ∈ tokens, ∀ f ∈ t.fields, fieldObservations f.source.length f = fieldObservations 4 f := by
  have hfewer {t : Token} {f : Field} (ht : t ∈ tokens) (hf : f ∈ t.fields) :
      delimitersIn f.source.toList < 4 :=
    Nat.lt_of_lt_of_le (delimitersIn_lt_of_mem_tokenize h ht hf) (delimitersIn_le _)
  refine ⟨fun chain hchain => ?_, fun t ht f hf => ?_⟩
  · exact hchain.length_le fun t ht f hf => hfewer ht hf
  · exact fieldObservations_eq_of_delimitersIn_lt (hfewer ht hf)

theorem length_le_four_of_fieldChain_all_quotes :
    let innermost := "f'\x7bx\x7d'"
    let inner := "f\"\x7bf'\x7bx\x7d'\x7d\""
    let outer := "f'''\x7bf\"\x7bf'\x7bx\x7d'\x7d\"\x7d'''"
    let source := "f\"\"\"\x7bf'''\x7bf\"\x7bf'\x7bx\x7d'\x7d\"\x7d'''\x7d\"\"\""
    ∃ tokens chain, tokenize source = .ok tokens ∧ FieldChain tokens chain ∧
      chain.map Field.source = [outer, inner, innermost, "x"] ∧ chain.length ≤ 4 := by
  intro innermost inner outer source
  let tokens : List Token := [⟨.string [⟨outer, ⟨1, 5⟩⟩], source, .start⟩,
    ⟨.newline, "\n", ⟨1, 29⟩⟩, ⟨.endMarker, "", ⟨1, 29⟩⟩]
  have htokenize : tokenize source = .ok tokens := by decide +kernel
  have hchain : FieldChain tokens [⟨outer, ⟨1, 5⟩⟩, ⟨inner, ⟨1, 10⟩⟩, ⟨innermost, ⟨1, 13⟩⟩,
      ⟨"x", ⟨1, 16⟩⟩] := by
    refine .cons ⟨1, 5⟩ List.mem_cons_self List.mem_cons_self ?_
    refine .cons (t := ⟨.string [⟨inner, ⟨1, 10⟩⟩], outer, ⟨1, 5⟩⟩) ⟨1, 10⟩ (by decide +kernel)
      List.mem_cons_self ?_
    refine .cons (t := ⟨.string [⟨innermost, ⟨1, 13⟩⟩], inner, ⟨1, 10⟩⟩) ⟨1, 13⟩ (by decide +kernel)
      List.mem_cons_self ?_
    refine .cons (t := ⟨.string [⟨"x", ⟨1, 16⟩⟩], innermost, ⟨1, 13⟩⟩) ⟨1, 16⟩ (by decide +kernel)
      List.mem_cons_self .nil
  exact ⟨_, _, htokenize, hchain, rfl, (length_le_four_of_fieldChain htokenize).1 _ hchain⟩

end

end ScriptSandbox
