import ScriptSandbox.Source.Lexeme

/-!
What lexemes look like. `Shape` says which texts a lexeme of each kind can have and what may follow
it, and `Lexed` cuts a whole text into such lexemes. The reader of scripts finds exactly lexemes of
these shapes, one after another, so what is proved by induction on `Lexed` holds of every script.
-/

namespace ScriptSandbox

/-- A field stands in a text whose first character is at `p`, and not at its very beginning. -/
def Field.StandsIn (f : Field) (p : Position) (text : List Char) : Prop :=
  ∃ before after, text = before ++ f.source.toList ++ after ∧ before ≠ [] ∧
    f.position = p.after before

theorem Field.StandsIn.within {f : Field} {p : Position} {text : List Char}
    (before after : List Char) (h : f.StandsIn (p.after before) text) :
    f.StandsIn p (before ++ text ++ after) := by
  obtain ⟨lead, rest, rfl, hlead, hposition⟩ := h
  refine ⟨before ++ lead, rest ++ after, by simp, by simp [hlead], ?_⟩
  rw [hposition, Position.after_append]

theorem Field.StandsIn.length_lt {f : Field} {p : Position} {text : List Char}
    (h : f.StandsIn p text) : f.source.length < text.length := by
  obtain ⟨before, after, rfl, hbefore, -⟩ := h
  have hpositive := List.length_pos_iff.2 hbefore
  simp only [List.length_append, String.length_toList]
  omega

namespace Lexeme

/-- A lexeme of some kind at `p` can have the text `text` when `after` follows it. -/
inductive Shape (lenient : Bool) (p : Position) : LexemeKind → List Char → List Char → Prop
  | blank {c text after} : isGap c = true → (∀ d ∈ text, isGap d = true) →
      Shape lenient p .blank (c :: text) after
  | comment {text after} : (∀ d ∈ text, isLineEnd d = false) →
      (∀ d ∈ after.head?, isLineEnd d = true) → Shape lenient p .comment ('#' :: text) after
  | lineFeed {after} : Shape lenient p .lineBreak ['\n'] after
  | carriageReturn {after} : after.head? ≠ some '\n' → Shape lenient p .lineBreak ['\r'] after
  | carriageReturnLineFeed {after} : Shape lenient p .lineBreak ['\r', '\n'] after
  | continuation {eol after} : eol ∈ [['\n'], ['\r'], ['\r', '\n']] →
      Shape lenient p .continuation ('\\' :: eol) after
  | number {c text after} : c.isDigit = true ∨ c = '.' → Shape lenient p .number (c :: text) after
  | name {c text after} : Text.isWordStart c = true → (∀ d ∈ text, Text.isWordPart d = true) →
      (∀ d ∈ after.head?, Text.isWordPart d = false) → Shape lenient p .name (c :: text) after
  | string {fields word quote body after} : (∀ d ∈ word, Text.isWordPart d = true) →
      isQuote quote = true → (∀ f ∈ fields, f.StandsIn p (word ++ quote :: body)) →
      Shape lenient p (.string fields) (word ++ quote :: body) after
  | operator {text after} : text ∈ operators → Shape lenient p .operator text after
  | stray {c after} : lenient = true → Shape lenient p .stray [c] after
  | broken {problem c text} : Shape lenient p (.broken problem) (c :: text) []

/-- The lexemes of a text whose first character stands at `p`. -/
inductive Lexed (lenient : Bool) : Position → List Char → List Lexeme → Prop
  | nil {p} : Lexed lenient p [] []
  | cons {p kind text after lexemes} : Shape lenient p kind text after →
      Lexed lenient (p.after text) after lexemes →
      Lexed lenient p (text ++ after) (⟨kind, text, p⟩ :: lexemes)

theorem ne_nil_of_mem_operators {text : List Char} (h : text ∈ operators) : text ≠ [] := by
  rintro rfl
  exact absurd h (by decide)

theorem isWordPart_of_mem_operators :
    ∀ text ∈ operators, ∀ c ∈ text, Text.isWordPart c = false := by
  have hall : (operators.all fun text => text.all fun c => !Text.isWordPart c) = true := by decide
  simpa using hall

theorem Shape.ne_nil {lenient : Bool} {p : Position} {kind : LexemeKind} {text after : List Char}
    (h : Shape lenient p kind text after) : text ≠ [] := by
  cases h with
  | operator hmem => exact ne_nil_of_mem_operators hmem
  | string => simp
  | _ => simp

theorem Shape.standsIn {lenient : Bool} {p : Position} {fields : List Field}
    {text after : List Char} (h : Shape lenient p (.string fields) text after) :
    ∀ f ∈ fields, f.StandsIn p text := by
  cases h with
  | string _ _ hfields => exact hfields

/-! ### Strings -/

theorem eq_or_of_isQuote {quote : Char} (h : isQuote quote = true) : quote = '"' ∨ quote = '\'' := by
  simpa [isQuote] using h

theorem ne_of_isQuote {quote c : Char} (hquote : isQuote quote = true) (hc : isQuote c = false) :
    c ≠ quote := by
  rintro rfl
  rw [hquote] at hc
  cases hc

theorem isLineEnd_of_isQuote {quote : Char} (h : isQuote quote = true) :
    isLineEnd quote = false := by
  rcases eq_or_of_isQuote h with rfl | rfl <;> rfl

theorem isWordPart_of_isQuote {quote : Char} (h : isQuote quote = true) :
    Text.isWordPart quote = false := by
  rcases eq_or_of_isQuote h with rfl | rfl <;> decide

theorem Delimiter.length_le {d : Delimiter} {text : List Char} (h : d.begins text = true) :
    d.length ≤ text.length := by
  have hlength := (List.isPrefixOf_iff_prefix.1 h).length_le
  simpa using hlength

@[simp] theorem Delimiter.begins_single (quote c : Char) (rest : List Char) :
    Delimiter.begins ⟨quote, false⟩ (c :: rest) = (quote == c) := by
  simp [Delimiter.begins, Delimiter.length, List.isPrefixOf]

theorem Delimiter.goes_single {quote c : Char} (h : c ≠ quote ∧ isLineEnd c = false)
    (rest : List Char) :
    ¬ Delimiter.begins ⟨quote, false⟩ (c :: rest) = true ∧ ¬ Delimiter.stops ⟨quote, false⟩ c = true := by
  simp [begins_single, stops, h, h.1.symm]

/-- What a field can go on over: between single quotes neither the quote nor a line end. -/
def Delimiter.goesOver (d : Delimiter) (c : Char) : Bool :=
  d.triple || (d.quote != c && !isLineEnd c)

theorem Delimiter.goesOver_of_not {d : Delimiter} {c : Char} {rest : List Char}
    (h : ¬ (d.begins (c :: rest) || d.stops c) = true) : d.goesOver c = true := by
  obtain ⟨quote, triple⟩ := d
  cases triple with
  | true => rfl
  | false => simpa [begins_single, stops, goesOver, bne] using h

/-- What a field takes up of a text: the characters that it goes on over, and its closing bracket if
that was found. -/
theorem fieldExtent_span (d : Delimiter) (depth n : Nat) (text : List Char) :
    ∃ lead closing rest, text = lead ++ closing ++ rest ∧
      (fieldExtent d depth n text).1 = n + lead.length ∧
      closing.length = (if (fieldExtent d depth n text).2 then 1 else 0) ∧
      (∀ c ∈ closing, isClosing c = true) ∧ ∀ c ∈ lead ++ closing, d.goesOver c = true := by
  have hcons {c : Char} {rest : List Char} {n : Nat} {found : Nat × Bool}
      (hgoes : ¬ (d.begins (c :: rest) || d.stops c) = true)
      (h : ∃ lead closing more, rest = lead ++ closing ++ more ∧ found.1 = n + 1 + lead.length ∧
        closing.length = (if found.2 then 1 else 0) ∧
        (∀ c ∈ closing, isClosing c = true) ∧ ∀ c ∈ lead ++ closing, d.goesOver c = true) :
      ∃ lead closing more, c :: rest = lead ++ closing ++ more ∧ found.1 = n + lead.length ∧
        closing.length = (if found.2 then 1 else 0) ∧
        (∀ c ∈ closing, isClosing c = true) ∧ ∀ c ∈ lead ++ closing, d.goesOver c = true := by
    obtain ⟨lead, closing, more, rfl, hlength, hclosed, hclosing, hover⟩ := h
    refine ⟨c :: lead, closing, more, rfl, ?_, hclosed, hclosing,
      List.forall_mem_cons.2 ⟨d.goesOver_of_not hgoes, hover⟩⟩
    rw [List.length_cons]
    omega
  fun_induction fieldExtent d depth n text with
  | case1 => exact ⟨[], [], [], rfl, rfl, rfl, by simp, by simp⟩
  | case2 _ _ c rest => exact ⟨[], [], c :: rest, rfl, rfl, rfl, by simp, by simp⟩
  | case3 _ _ _ _ hgoes _ ih => exact hcons hgoes ih
  | case4 _ _ c rest hgoes _ hclosing =>
      exact ⟨[], [c], rest, rfl, rfl, rfl, by simpa using hclosing,
        by simpa using d.goesOver_of_not hgoes⟩
  | case5 _ _ _ _ hgoes _ _ _ ih => exact hcons hgoes ih
  | case6 _ _ _ _ hgoes _ _ ih => exact hcons hgoes ih

theorem fieldExtent_le (d : Delimiter) (depth n : Nat) (text : List Char) :
    (fieldExtent d depth n text).1 + (if (fieldExtent d depth n text).2 then 1 else 0) ≤
      n + text.length := by
  obtain ⟨lead, closing, rest, htext, hlength, hclosed, -⟩ := fieldExtent_span d depth n text
  rw [hlength, ← hclosed, htext, List.length_append, List.length_append]
  omega

theorem le_fieldExtent (d : Delimiter) (depth n : Nat) (text : List Char) :
    n ≤ (fieldExtent d depth n text).1 := by
  obtain ⟨lead, _, _, _, hlength, -⟩ := fieldExtent_span d depth n text
  rw [hlength]
  exact Nat.le_add_right n _

/-- Of a string `n` characters and `fields` are read, newest first. It has `length` characters in
all and the fields `found`, and what is not read yet begins the text at `p`. -/
structure StringSpan (p : Position) (n : Nat) (fields : List Field) (text : List Char)
    (length : Nat) (found : List Field) : Prop where
  read_le : n ≤ length
  length_le : length ≤ n + text.length
  fields_standIn : ∃ more, found = fields.reverse ++ more ∧
    ∀ f ∈ more, f.StandsIn p (text.take (length - n))

namespace StringSpan

variable {p : Position} {n length : Nat} {field : Field} {fields found : List Field}
  {lead rest : List Char}

theorem take_append (hread : n + lead.length ≤ length) :
    (lead ++ rest).take (length - n) = lead ++ rest.take (length - (n + lead.length)) := by
  rw [List.take_append, List.take_of_length_le (by omega), Nat.sub_sub]

theorem skip (lead : List Char)
    (h : StringSpan (p.after lead) (n + lead.length) fields rest length found) :
    StringSpan p n fields (lead ++ rest) length found := by
  obtain ⟨hread, hlength, more, rfl, hmore⟩ := h
  refine ⟨by omega, by simp only [List.length_append]; omega, more, rfl, fun f hf => ?_⟩
  rw [take_append hread]
  simpa using (hmore f hf).within lead []

theorem skipField (rest : List Char) (hfield : field.StandsIn p lead)
    (h : StringSpan (p.after lead) (n + lead.length) (field :: fields) rest length found) :
    StringSpan p n fields (lead ++ rest) length found := by
  obtain ⟨hread, hlength, more, rfl, hmore⟩ := h
  refine ⟨by omega, by simp only [List.length_append]; omega, field :: more, by simp, ?_⟩
  rw [take_append hread]
  intro f hf
  rcases List.mem_cons.1 hf with rfl | hf
  · simpa using hfield.within (p := p) [] (rest.take (length - (n + lead.length)))
  · simpa using (hmore f hf).within lead []

end StringSpan

/-- A string takes up a part of the text after its beginning, and its fields stand in that part. -/
theorem stringSpan_of_stringExtent {d : Delimiter} {formatted : Bool} {p : Position}
    {n length : Nat} {fields found : List Field} {text : List Char}
    (h : stringExtent d formatted p n fields text = some (length, found)) :
    StringSpan p n fields text length found := by
  fun_induction stringExtent d formatted p n fields text generalizing length found with
  | case1 => cases h
  | case2 => cases h
  | case3 p n fields e rest ih =>
      -- A backslash and whatever follows it.
      exact (ih h).skip ['\\', e]
  | case4 => cases h
  | case5 p n fields c rest _ _ hbegins =>
      cases h
      have hlength := d.length_le hbegins
      exact ⟨by omega, by omega, [], by simp, by simp⟩
  | case6 p n fields c rest _ _ _ _ hbrace ih =>
      -- Two braces stand for one and open no field.
      obtain ⟨rest, rfl⟩ : ∃ more, rest = '\x7b' :: more := by
        cases rest with
        | nil => cases hbrace
        | cons e more => cases hbrace; exact ⟨more, rfl⟩
      exact (ih h).skip [c, '\x7b']
  | case7 p n fields c rest _ _ _ _ _ fieldLength closed hextent read =>
      -- A field, read with its closing bracket if there is one.
      rename_i field ih
      have hfit := fieldExtent_le d 1 0 rest
      rw [hextent] at hfit
      have hread : fieldLength ≤ read ∧ read ≤ rest.length := by
        dsimp only [read] at hfit ⊢
        cases closed <;> simp at hfit ⊢ <;> omega
      have hlead : (c :: rest.take read).length = 1 + read := by
        rw [List.length_cons, List.length_take]
        omega
      have hfield : field.StandsIn p (c :: rest.take read) := by
        refine ⟨[c], (rest.take read).drop fieldLength, ?_, by simp, rfl⟩
        have hsource : field.source.toList = (rest.take read).take fieldLength := by
          rw [List.take_take, Nat.min_eq_left hread.1]
          simp [field]
        rw [hsource, List.append_assoc, List.take_append_drop, List.singleton_append]
      have hspan := StringSpan.skipField (n := n) (rest.drop read) hfield
        (by rw [hlead, ← Nat.add_assoc]; exact ih h)
      rwa [List.cons_append, List.take_append_drop] at hspan
  | case8 p n fields c rest _ _ _ _ ih => exact (ih h).skip [c]

/-- A string is cut off behind its closing quote, and the rest of the text is broken where there is
none. -/
theorem stringKind_cases (quote : Char) (formatted : Bool) (p : Position) (text : List Char) :
    (∃ fields, (stringKind quote formatted p text).1 = .string fields ∧
      ∀ f ∈ fields, f.StandsIn p (quote :: text.take (stringKind quote formatted p text).2)) ∨
    ∃ problem, (stringKind quote formatted p text).1 = .broken problem ∧
      (stringKind quote formatted p text).2 = text.length := by
  unfold stringKind
  extract_lets d opening
  split
  · rename_i length fields hextent
    refine .inl ⟨fields, rfl, fun f hf => ?_⟩
    obtain ⟨hread, -, more, rfl, hmore⟩ := stringSpan_of_stringExtent hextent
    have hstands := (hmore f (by simpa using hf)).within (p := p) (quote :: text.take opening) []
    have htext : text.take length =
        text.take opening ++ (text.drop opening).take (length - opening) := by
      rw [← List.take_add]
      congr 1
      omega
    rw [htext]
    simpa using hstands
  · exact .inr ⟨_, rfl, rfl⟩

theorem take_length_takeWhile (keep : Char → Bool) (text : List Char) :
    text.take (text.takeWhile keep).length = text.takeWhile keep :=
  (List.prefix_iff_eq_take.1 (List.takeWhile_prefix keep)).symm

theorem drop_length_takeWhile (keep : Char → Bool) (text : List Char) :
    text.drop (text.takeWhile keep).length = text.dropWhile keep := by
  induction text with
  | nil => rfl
  | cons c rest ih =>
      cases hkeep : keep c with
      | true => simpa [hkeep] using ih
      | false => simp [hkeep]

theorem keep_of_mem_takeWhile {keep : Char → Bool} {text : List Char} {c : Char}
    (h : c ∈ text.takeWhile keep) : keep c = true :=
  List.all_eq_true.1 List.all_takeWhile c h

theorem not_keep_of_mem_head?_dropWhile {keep : Char → Bool} {text : List Char} {c : Char}
    (h : c ∈ (text.dropWhile keep).head?) : keep c = false := by
  have hstop := List.head?_dropWhile_not keep text
  rw [Option.mem_def.1 h] at hstop
  simpa using hstop

theorem not_mem_takeWhile {keep : Char → Bool} {c : Char} (text : List Char) (h : keep c = false) :
    c ∉ text.takeWhile keep := by
  intro hmem
  rw [keep_of_mem_takeWhile hmem] at h
  cases h

theorem takeWhile_append_stop {keep : Char → Bool} {text more : List Char}
    (htext : ∀ c ∈ text, keep c = true) (hmore : ∀ c ∈ more.head?, keep c = false) :
    (text ++ more).takeWhile keep = text := by
  rw [List.takeWhile_append_of_pos htext]
  cases more with
  | nil => simp
  | cons c more => simp [hmore c rfl]

theorem numberLength_le (hexadecimal : Bool) (previous : Char) (text : List Char) :
    numberLength hexadecimal previous text ≤ text.length := by
  fun_induction numberLength hexadecimal previous text with
  | case1 => exact Nat.le_refl _
  | case2 _ _ _ _ ih => exact Nat.succ_le_succ ih
  | case3 _ _ _ _ _ ih => exact Nat.succ_le_succ ih
  | case4 => exact Nat.zero_le _

/-- The characters that a number can go on with. -/
def goesOnNumber (c : Char) : Bool :=
  c.isAlphanum || c == '_' || c == '.' || c == '+' || c == '-'

theorem goesOnNumber_of_mem {hexadecimal : Bool} {previous : Char} {text : List Char} {c : Char}
    (h : c ∈ text.take (numberLength hexadecimal previous text)) : goesOnNumber c = true := by
  fun_induction numberLength hexadecimal previous text with
  | case1 => cases h
  | case2 previous d rest hpart ih =>
      rcases List.mem_cons.1 h with rfl | h
      · simp [goesOnNumber, hpart]
      · exact ih h
  | case3 previous d rest _ hsign ih =>
      rcases List.mem_cons.1 h with rfl | h
      · simp only [Bool.and_eq_true] at hsign
        simp only [goesOnNumber, Bool.or_assoc, hsign.1.1, Bool.or_true]
      · exact ih h
  | case4 => cases h

/-- Two choices that depend on the same are related as the branches are. -/
theorem ite_rel {α β : Type} {R : α → β → Prop} {b b' : Prop} [Decidable b] [Decidable b'] {x y : α}
    {u v : β} (hb : b' ↔ b) (hx : b → R x u) (hy : ¬ b → R y v) :
    R (if b then x else y) (if b' then u else v) := by
  by_cases h : b
  · rw [if_pos h, if_pos (hb.2 h)]
    exact hx h
  · rw [if_neg h, if_neg (mt hb.1 h)]
    exact hy h

/-- What is found at the beginning of a text fits there: the kind, and the number of characters
after the first one. -/
def Fits (lenient : Bool) (p : Position) (c : Char) (rest : List Char)
    (found : LexemeKind × Nat) : Prop :=
  Shape lenient p found.1 (c :: rest.take found.2) (rest.drop found.2)

section Fits

variable {lenient : Bool} {p : Position} {c : Char} {rest : List Char}

theorem fits_broken {problem : SyntaxProblem} :
    Fits lenient p c rest (.broken problem, rest.length) := by
  unfold Fits
  simpa using Shape.broken

theorem isWordPart_of_mem_word (h : Text.isWordStart c = true) :
    ∀ d ∈ c :: rest.take (rest.takeWhile Text.isWordPart).length, Text.isWordPart d = true := by
  rw [take_length_takeWhile]
  exact List.forall_mem_cons.2
    ⟨Text.isWordPart_of_isWordStart h, fun d hd => keep_of_mem_takeWhile hd⟩

theorem fits_name (h : Text.isWordStart c = true) :
    Fits lenient p c rest (.name, (rest.takeWhile Text.isWordPart).length) := by
  unfold Fits
  rw [take_length_takeWhile, drop_length_takeWhile]
  exact .name h (fun d hd => keep_of_mem_takeWhile hd)
    fun d hd => not_keep_of_mem_head?_dropWhile hd

theorem fits_operator {operator : List Char}
    (h : operators.find? (·.isPrefixOf (c :: rest)) = some operator) :
    Fits lenient p c rest (.operator, operator.length - 1) := by
  have hmem := List.mem_of_find?_eq_some h
  have hbegins := List.find?_some h
  obtain ⟨more, htext⟩ := List.isPrefixOf_iff_prefix.1 hbegins
  obtain ⟨d, tail, rfl⟩ := List.exists_cons_of_ne_nil (ne_nil_of_mem_operators hmem)
  cases htext
  unfold Fits
  simpa using Shape.operator hmem

theorem stringKind_shape (lenient : Bool) (p : Position) (formatted : Bool) (word : List Char)
    {quote : Char} (text : List Char) (hword : ∀ d ∈ word, Text.isWordPart d = true)
    (hquote : isQuote quote = true) :
    Shape lenient p (stringKind quote formatted (p.after word) text).1
      (word ++ quote :: text.take (stringKind quote formatted (p.after word) text).2)
      (text.drop (stringKind quote formatted (p.after word) text).2) := by
  rcases stringKind_cases quote formatted (p.after word) text with
    ⟨fields, hkind, hfields⟩ | ⟨problem, hkind, hlength⟩
  · rw [hkind]
    refine .string hword hquote fun f hf => ?_
    simpa using (hfields f hf).within word []
  · rw [hkind, hlength, List.drop_length]
    cases word with
    | nil => exact .broken
    | cons c more => exact .broken

theorem take_prefixed {length : Nat} {quote : Char} {text : List Char}
    (hafter : rest.drop length = quote :: text) (n : Nat) :
    rest.take (length + 1 + n) = rest.take length ++ quote :: text.take n := by
  rw [Nat.add_assoc, List.take_add, hafter, Nat.add_comm 1, List.take_succ_cons]

theorem fits_prefixed {length : Nat} {quote : Char} {text : List Char} (formatted : Bool)
    (hword : ∀ d ∈ c :: rest.take length, Text.isWordPart d = true) (hquote : isQuote quote = true)
    (hafter : rest.drop length = quote :: text) :
    Fits lenient p c rest ((stringKind quote formatted (p.after (c :: rest.take length)) text).1,
      length + 1 + (stringKind quote formatted (p.after (c :: rest.take length)) text).2) := by
  have hshape := stringKind_shape lenient p formatted (c :: rest.take length) text hword hquote
  generalize stringKind quote formatted (p.after (c :: rest.take length)) text = found at hshape ⊢
  have hdrop : rest.drop (length + 1 + found.2) = text.drop found.2 := by
    rw [Nat.add_assoc, ← List.drop_drop, hafter, Nat.add_comm 1, List.drop_succ_cons]
  unfold Fits
  rwa [take_prefixed hafter, hdrop]

/-- Every lexeme that is read has one of the shapes. -/
theorem classify_fits (lenient : Bool) (p : Position) (c : Char) (rest : List Char) :
    Fits lenient p c rest (classify lenient p c rest) := by
  unfold classify
  -- Case by case; splitting all of the conditions at once is slow.
  refine iteInduction (motive := Fits lenient p c rest) (fun hgap => ?_) fun _ => ?_
  · unfold Fits
    rw [take_length_takeWhile]
    exact .blank hgap fun d hd => keep_of_mem_takeWhile hd
  refine iteInduction (motive := Fits lenient p c rest) (fun hhash => ?_) fun _ => ?_
  · subst hhash
    unfold Fits
    rw [take_length_takeWhile, drop_length_takeWhile]
    refine .comment (fun d hd => ?_) (fun d hd => ?_)
    · simpa using keep_of_mem_takeWhile hd
    · simpa using not_keep_of_mem_head?_dropWhile hd
  refine iteInduction (motive := Fits lenient p c rest) (fun hfeed => ?_) fun _ => ?_
  · subst hfeed
    exact .lineFeed
  refine iteInduction (motive := Fits lenient p c rest) (fun hreturn => ?_) fun _ => ?_
  · subst hreturn
    split
    · rename_i hnext
      obtain ⟨more, rfl⟩ := List.head?_eq_some_iff.1 hnext
      exact .carriageReturnLineFeed
    · rename_i hnext
      exact .carriageReturn hnext
  refine iteInduction (motive := Fits lenient p c rest) (fun hbackslash => ?_) fun _ => ?_
  · subst hbackslash
    split
    · exact .continuation (by simp)
    · exact .continuation (by simp)
    · exact .continuation (by simp)
    · split
      · rename_i hlenient
        exact .stray hlenient
      · exact fits_broken
  refine iteInduction (motive := Fits lenient p c rest) (fun hquote => ?_) fun _ => ?_
  · exact stringKind_shape lenient p false [] rest (by simp) hquote
  refine iteInduction (motive := Fits lenient p c rest) (fun hdigit => ?_) fun _ => ?_
  · refine .number ?_
    simp only [Bool.or_eq_true, Bool.and_eq_true, beq_iff_eq] at hdigit
    exact hdigit.imp id And.left
  refine iteInduction (motive := Fits lenient p c rest) (fun hstart => ?_) fun _ => ?_
  · extract_lets length word
    split
    · rename_i quote text hafter
      split
      · rename_i hquote
        simp only [Bool.and_eq_true] at hquote
        exact fits_prefixed _ (isWordPart_of_mem_word hstart) hquote.1 hafter
      · exact fits_name hstart
    · exact fits_name hstart
  · split
    · rename_i operator hfind
      exact fits_operator hfind
    · split
      · rename_i hlenient
        exact .stray hlenient
      · exact fits_broken

end Fits

/-- What a backslash continues. -/
theorem classify_backslash (lenient : Bool) (p : Position) (rest : List Char) :
    classify lenient p '\\' rest =
      if rest.head? = some '\n' then (.continuation, 1)
      else if rest.head? = some '\r' then
        (.continuation, if (rest.drop 1).head? = some '\n' then 2 else 1)
      else if lenient then (.stray, 0) else (.broken .strayBackslash, rest.length) := by
  simp +decide only [classify, ↓reduceIte]
  split
  · simp
  · simp
  · rename_i tail hnot
    have hhead : tail.head? ≠ some '\n' := fun h => by
      obtain ⟨more, rfl⟩ := List.head?_eq_some_iff.1 h
      exact hnot more rfl
    simp [hhead]
  · rename_i hfeed _ hreturn
    have hhead : rest.head? ≠ some '\n' := fun h => by
      obtain ⟨more, rfl⟩ := List.head?_eq_some_iff.1 h
      exact hfeed more rfl
    have hhead' : rest.head? ≠ some '\r' := fun h => by
      obtain ⟨more, rfl⟩ := List.head?_eq_some_iff.1 h
      exact hreturn more rfl
    rw [if_neg hhead, if_neg hhead']

/-- The part of `classify` that reads a word, which may be the prefix of a string. -/
def classifyWord (p : Position) (c : Char) (rest : List Char) : LexemeKind × Nat :=
  let length := (rest.takeWhile Text.isWordPart).length
  let word := (c :: rest.take length).map Char.toLower
  match rest.drop length with
  | quote :: text =>
    if isQuote quote && stringPrefixes.contains word then
      let (kind, n) := stringKind quote (word.contains 'f') (p.after (c :: rest.take length)) text
      (kind, length + 1 + n)
    else (.name, length)
  | [] => (.name, length)

theorem split_cons (lenient : Bool) (p : Position) (c : Char) (rest : List Char) :
    split lenient p [] (c :: rest) =
      ⟨(classify lenient p c rest).1, c :: rest.take (classify lenient p c rest).2, p⟩ ::
        split lenient (p.after (c :: rest.take (classify lenient p c rest).2)) []
          (rest.drop (classify lenient p c rest).2) := by
  rw [split, split_eq]
  rfl

/-- What holds of a text when it holds of what follows its first lexeme holds of every text, as each
lexeme has a character. -/
theorem split_induction (lenient : Bool) {motive : Position → List Char → Prop}
    (nil : ∀ p, motive p [])
    (cons : ∀ p c rest, motive (p.after (c :: rest.take (classify lenient p c rest).2))
      (rest.drop (classify lenient p c rest).2) → motive p (c :: rest))
    (p : Position) (text : List Char) : motive p text := by
  induction hlength : text.length using Nat.strongRecOn generalizing p text with
  | ind n ih =>
      cases text with
      | nil => exact nil p
      | cons c rest =>
          refine cons p c rest (ih _ ?_ _ _ rfl)
          simp only [List.length_cons, List.length_drop] at hlength ⊢
          omega

/-- A text is read as lexemes that have the shapes of their kinds. -/
theorem lexed_split (lenient : Bool) (p : Position) (text : List Char) :
    Lexed lenient p text (split lenient p [] text) := by
  induction p, text using split_induction lenient with
  | nil p =>
      rw [split]
      exact .nil
  | cons p c rest ih =>
      rw [split_cons]
      have hlexed := Lexed.cons (classify_fits lenient p c rest) ih
      rwa [List.cons_append, List.take_append_drop] at hlexed

/-- A text is made up of its lexemes. -/
theorem Lexed.text_eq {lenient : Bool} {p : Position} {text : List Char} {lexemes : List Lexeme}
    (h : Lexed lenient p text lexemes) : text = lexemes.flatMap Lexeme.text := by
  induction h with
  | nil => rfl
  | cons _ _ ih => rw [ih, List.flatMap_cons]

/-- What holds of every lexeme that can begin in a text holds of all lexemes that are read from it. -/
theorem forall_mem_split {P : Lexeme → Prop} {lenient : Bool} {p : Position} {text : List Char}
    (h : ∀ p c rest, c :: rest <:+ text →
      P ⟨(classify lenient p c rest).1, c :: rest.take (classify lenient p c rest).2, p⟩) :
    ∀ l ∈ split lenient p [] text, P l := by
  induction p, text using split_induction lenient with
  | nil p => simp [split]
  | cons p c rest ih =>
      have hsuffix : rest.drop (classify lenient p c rest).2 <:+ c :: rest :=
        (List.drop_suffix _ _).trans (List.suffix_cons c rest)
      rw [split_cons]
      exact List.forall_mem_cons.2 ⟨h p c rest List.suffix_rfl,
        ih fun p d more hmore => h p d more (hmore.trans hsuffix)⟩

/-- A lexeme stands behind the ones before it and has the shape of its kind there. -/
theorem Lexed.shape_at {lenient : Bool} {p : Position} {text : List Char}
    {earlier later : List Lexeme} {l : Lexeme} (h : Lexed lenient p text (earlier ++ l :: later)) :
    text = earlier.flatMap Lexeme.text ++ l.text ++ later.flatMap Lexeme.text ∧
      l.position = p.after (earlier.flatMap Lexeme.text) ∧
      Shape lenient l.position l.kind l.text (later.flatMap Lexeme.text) := by
  induction earlier generalizing p text with
  | nil =>
      rw [List.nil_append] at h
      cases h with
      | cons hshape hlexed =>
          rw [hlexed.text_eq] at hshape ⊢
          exact ⟨by simp, rfl, hshape⟩
  | cons m earlier ih =>
      cases h with
      | cons _ hlexed =>
          obtain ⟨rfl, hposition, hshape⟩ := ih hlexed
          refine ⟨by simp, ?_, hshape⟩
          rw [hposition, List.flatMap_cons, Position.after_append]

/-- A lexeme stands in the text at its place and has the shape of its kind there. -/
theorem Lexed.shape_of_mem {lenient : Bool} {p : Position} {text : List Char}
    {lexemes : List Lexeme} (h : Lexed lenient p text lexemes) {l : Lexeme} (hl : l ∈ lexemes) :
    ∃ before after, text = before ++ l.text ++ after ∧ l.position = p.after before ∧
      Shape lenient l.position l.kind l.text after := by
  obtain ⟨earlier, later, rfl⟩ := List.append_of_mem hl
  exact ⟨_, _, h.shape_at⟩

end Lexeme

end ScriptSandbox
