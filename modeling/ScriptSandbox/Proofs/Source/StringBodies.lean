import ScriptSandbox.Proofs.Source.Lexing
import ScriptSandbox.Proofs.Source.Places
import ScriptSandbox.Proofs.Text.Fullwidth

/-!
Reading between the quotes of a formatted string. Whatever stands there is read up to the closing
quote, one step after another: a character that a backslash hides, two braces, a field as far as its
brackets go, or a character for itself. What has been read before and what stands behind the quote
have no part in it.
-/

namespace ScriptSandbox

open Lexeme

/-- How many brackets are open behind a text that begins inside `depth` brackets. Every bracket in
the text counts, and none is closed that is not open. -/
def openBrackets (depth : Nat) : List Char → Option Nat
  | [] => some depth
  | c :: rest =>
    if isOpening c then openBrackets (depth + 1) rest
    else if isClosing c then
      match depth with
      | 0 => none
      | depth + 1 => openBrackets depth rest
    else openBrackets depth rest

/-- A text can stand between two quotes. -/
structure IsBodyText (quote : Char) (body : List Char) : Prop where
  goes_on : ∀ c ∈ body, c ≠ quote ∧ isLineEnd c = false
  last_ne : body.getLast? ≠ some '\\'

theorem IsBodyText.of_append {quote : Char} (lead : List Char) {body : List Char}
    (h : IsBodyText quote (lead ++ body)) : IsBodyText quote body where
  goes_on c hc := h.goes_on c (List.mem_append_right _ hc)
  last_ne hlast := h.last_ne (by rw [List.getLast?_append, hlast]; rfl)

theorem Field.StandsIn.precedes {f : Field} {p : Position} {text : List Char}
    (h : f.StandsIn p text) : p.Precedes f.position := by
  obtain ⟨before, after, -, hbefore, hposition⟩ := h
  rw [hposition]
  exact p.precedes_after hbefore

/-! ### Fields -/

theorem fieldExtent_cons {quote c : Char} (hc : c ≠ quote ∧ isLineEnd c = false) (depth n : Nat)
    (rest : List Char) :
    fieldExtent ⟨quote, false⟩ depth n (c :: rest) =
      if isOpening c then fieldExtent ⟨quote, false⟩ (depth + 1) (n + 1) rest
      else if isClosing c then
        if depth ≤ 1 then (n, true) else fieldExtent ⟨quote, false⟩ (depth - 1) (n + 1) rest
      else fieldExtent ⟨quote, false⟩ depth (n + 1) rest := by
  rw [fieldExtent, if_neg]
  rw [Bool.or_eq_true]
  exact not_or.2 (Delimiter.goes_single hc rest)

theorem fieldExtent_brace {quote : Char} (hquote : isQuote quote = true) (depth n : Nat)
    (rest : List Char) :
    fieldExtent ⟨quote, false⟩ depth n ('\x7d' :: rest) =
      if depth ≤ 1 then (n, true) else fieldExtent ⟨quote, false⟩ (depth - 1) (n + 1) rest :=
  fieldExtent_cons ⟨ne_of_isQuote hquote rfl, rfl⟩ depth n rest

theorem fieldExtent_append {quote : Char} {depth behind n : Nat} {text : List Char}
    (rest : List Char) (hgoes : ∀ c ∈ text, c ≠ quote ∧ isLineEnd c = false)
    (hopen : openBrackets depth text = some behind) :
    fieldExtent ⟨quote, false⟩ (depth + 1) n (text ++ rest) =
      fieldExtent ⟨quote, false⟩ (behind + 1) (n + text.length) rest := by
  induction text generalizing depth n with
  | nil =>
      cases hopen
      rfl
  | cons c text ih =>
      rw [List.forall_mem_cons] at hgoes
      have hlength : n + (c :: text).length = n + 1 + text.length := by
        rw [List.length_cons]
        omega
      rw [List.cons_append, fieldExtent_cons hgoes.1, hlength]
      unfold openBrackets at hopen
      split at hopen
      · rename_i hopening
        rw [if_pos hopening, ih hgoes.2 hopen]
      · rename_i hopening
        rw [if_neg hopening]
        split at hopen
        · rename_i hclosing
          cases depth with
          | zero => cases hopen
          | succ depth =>
              rw [if_pos hclosing, if_neg (by omega), Nat.add_sub_cancel, ih hgoes.2 hopen]
        · rename_i hclosing
          rw [if_neg hclosing, ih hgoes.2 hopen]

theorem fieldExtent_quote (quote : Char) (depth n : Nat) (body rest : List Char) :
    fieldExtent ⟨quote, false⟩ depth n (body ++ quote :: rest) =
      fieldExtent ⟨quote, false⟩ depth n body := by
  induction body generalizing depth n with
  | nil => simp
  | cons c body ih =>
      rw [List.cons_append, fieldExtent, fieldExtent]
      simp only [Delimiter.begins_single, ih]

/-- A field that goes exactly up to a closing brace has closed all of its brackets before. -/
theorem closed_of_fieldExtent {quote : Char} {depth n : Nat} {text rest : List Char}
    (hquote : isQuote quote = true) (hgoes : ∀ c ∈ text, c ≠ quote ∧ isLineEnd c = false)
    (h : (fieldExtent ⟨quote, false⟩ (depth + 1) n (text ++ '\x7d' :: rest)).1 = n + text.length) :
    openBrackets depth text = some 0 := by
  induction text generalizing depth n with
  | nil =>
      cases depth with
      | zero => rfl
      | succ depth =>
          have hle := le_fieldExtent ⟨quote, false⟩ (depth + 1) (n + 1) rest
          rw [List.nil_append, fieldExtent_brace hquote, if_neg (by omega), List.length_nil] at h
          simp only [Nat.add_sub_cancel] at h
          omega
  | cons c text ih =>
      rw [List.forall_mem_cons] at hgoes
      have hlength : n + (c :: text).length = n + 1 + text.length := by
        rw [List.length_cons]
        omega
      rw [List.cons_append, fieldExtent_cons hgoes.1, hlength] at h
      unfold openBrackets
      split
      · rename_i hopening
        rw [if_pos hopening] at h
        exact ih hgoes.2 h
      · rename_i hopening
        rw [if_neg hopening] at h
        split
        · rename_i hclosing
          rw [if_pos hclosing] at h
          cases depth with
          | zero =>
              rw [if_pos (by omega)] at h
              dsimp only at h
              omega
          | succ depth =>
              rw [if_neg (by omega), Nat.add_sub_cancel] at h
              exact ih hgoes.2 h
        · rename_i hclosing
          rw [if_neg hclosing] at h
          exact ih hgoes.2 h

/-! ### Strings -/

/-- A formatted string goes on at `p` with a text up to its closing quote and has these fields
there, whatever was read before and whatever stands behind it. -/
def BodyReads (quote : Char) (p : Position) (body : List Char) (found : List Field) : Prop :=
  ∀ n fields rest, stringExtent ⟨quote, false⟩ true p n fields (body ++ quote :: rest) =
    some (n + body.length + 1, fields.reverse ++ found)

namespace BodyReads

variable {quote c : Char} {p : Position} {body : List Char} {found other : List Field}

theorem unique (h : BodyReads quote p body found) (hother : BodyReads quote p body other) :
    found = other := by
  have heq := (h 0 [] []).symm.trans (hother 0 [] [])
  simpa using heq

theorem precedes (h : BodyReads quote p body found) : ∀ f ∈ found, p.Precedes f.position := by
  obtain ⟨-, -, more, hmore, hstands⟩ := stringSpan_of_stringExtent (h 0 [] [])
  have heq : found = more := by simpa using hmore
  rw [heq]
  exact fun f hf => (hstands f hf).precedes

theorem nil (hquote : isQuote quote = true) (p : Position) : BodyReads quote p [] [] := by
  have hbackslash : quote ≠ '\\' := (ne_of_isQuote hquote rfl).symm
  have hline := isLineEnd_of_isQuote hquote
  intro n fields rest
  simp [hbackslash, Delimiter.stops, hline, Delimiter.length]

theorem hidden (h : BodyReads quote ((p.next '\\').next c) body found) :
    BodyReads quote p ('\\' :: c :: body) found := by
  intro n fields rest
  simp [h (n + 2), Nat.add_comm, Nat.add_left_comm]

theorem plain (hgoes : c ≠ quote ∧ isLineEnd c = false) (hbackslash : c ≠ '\\')
    (hbrace : c ≠ '\x7b') (h : BodyReads quote (p.next c) body found) :
    BodyReads quote p (c :: body) found := by
  intro n fields rest
  obtain ⟨hbegins, hstops⟩ := Delimiter.goes_single hgoes (body ++ quote :: rest)
  simp [hbackslash, hstops, hbegins, hbrace, h (n + 1), Nat.add_comm, Nat.add_left_comm]

theorem doubled (hquote : isQuote quote = true)
    (h : BodyReads quote ((p.next '\x7b').next '\x7b') body found) :
    BodyReads quote p ('\x7b' :: '\x7b' :: body) found := by
  intro n fields rest
  have hbrace : '\x7b' ≠ quote := ne_of_isQuote hquote rfl
  obtain ⟨hbegins, hstops⟩ := Delimiter.goes_single ⟨hbrace, rfl⟩
    ('\x7b' :: (body ++ quote :: rest))
  rw [List.cons_append, List.cons_append,
    stringExtent_doubled (by decide) hstops hbegins rfl List.head?_cons]
  refine (h (n + 2) fields rest).trans ?_
  simp [Nat.add_comm, Nat.add_left_comm]

/-- A field goes as far as its brackets, and behind it the string goes on. -/
theorem field (hquote : isQuote quote = true) {lead : List Char} {length : Nat} {closed : Bool}
    (hhead : (lead ++ body).head? ≠ some '\x7b')
    (hextent : fieldExtent ⟨quote, false⟩ 1 0 (lead ++ body) = (length, closed))
    (hlead : lead.length = if closed then length + 1 else length)
    (h : BodyReads quote (p.after ('\x7b' :: lead)) body found) :
    BodyReads quote p ('\x7b' :: (lead ++ body))
      (⟨String.ofList (lead.take length), p.next '\x7b'⟩ :: found) := by
  intro n fields rest
  have hbrace : quote ≠ '\x7b' := (ne_of_isQuote hquote rfl).symm
  have hnext : (lead ++ body ++ quote :: rest).head? ≠ some '\x7b' := by
    cases hbody : lead ++ body with
    | nil => simpa using hbrace
    | cons c more => simpa [hbody] using hhead
  have hlength : length ≤ lead.length := by
    rw [hlead]
    split <;> omega
  obtain ⟨hbegins, hstops⟩ := Delimiter.goes_single ⟨hbrace.symm, rfl⟩
    (lead ++ body ++ quote :: rest)
  rw [Position.after_cons] at h
  rw [List.cons_append, stringExtent_field (by decide) hstops hbegins rfl hnext
    ((fieldExtent_quote quote 1 0 (lead ++ body) rest).trans hextent), ← hlead, List.append_assoc,
    List.take_left, List.drop_left, List.take_append_of_le_length hlength, h, List.length_cons,
    List.length_append, List.reverse_cons, List.append_assoc, List.singleton_append]
  congr 2
  omega

/-- Where a brace opens a field, the first field begins behind it. -/
theorem exists_field (hquote : isQuote quote = true) (hhead : body.head? ≠ some '\x7b')
    (hrest : ∀ lead rest p, body = lead ++ rest → ∃ found, BodyReads quote p rest found) :
    ∃ found, BodyReads quote p ('\x7b' :: body)
      (⟨String.ofList (body.take (fieldExtent ⟨quote, false⟩ 1 0 body).1), p.next '\x7b'⟩ ::
        found) := by
  have hfit := fieldExtent_le ⟨quote, false⟩ 1 0 body
  cases hextent : fieldExtent ⟨quote, false⟩ 1 0 body with
  | mk length closed =>
      rw [hextent] at hfit
      obtain ⟨lead, rest, rfl, hlead⟩ : ∃ lead rest, body = lead ++ rest ∧
          lead.length = if closed then length + 1 else length := by
        refine ⟨_, _, (List.take_append_drop (if closed then length + 1 else length) body).symm, ?_⟩
        rw [List.length_take, Nat.min_eq_left]
        cases closed <;> simp at hfit ⊢ <;> omega
      obtain ⟨found, hfound⟩ := hrest lead rest (p.after ('\x7b' :: lead)) rfl
      have hlength : length ≤ lead.length := by
        rw [hlead]
        split <;> omega
      rw [List.take_append_of_le_length hlength]
      exact ⟨found, field hquote hhead hextent hlead hfound⟩

/-- A field with closed brackets is read as it is written. -/
theorem closed_field (hquote : isQuote quote = true) {text : List Char}
    (hgoes : ∀ c ∈ text, c ≠ quote ∧ isLineEnd c = false)
    (hhead : text.head? ≠ some '\x7b') (hclosed : openBrackets 0 text = some 0)
    (h : BodyReads quote (p.after ('\x7b' :: (text ++ ['\x7d']))) body found) :
    BodyReads quote p ('\x7b' :: (text ++ ['\x7d'] ++ body))
      (⟨String.ofList text, p.next '\x7b'⟩ :: found) := by
  have hextent : fieldExtent ⟨quote, false⟩ 1 0 (text ++ ['\x7d'] ++ body) =
      (text.length, true) := by
    rw [List.append_assoc, fieldExtent_append _ hgoes hclosed, List.singleton_append,
      fieldExtent_brace hquote]
    simp
  have hopens : (text ++ ['\x7d'] ++ body).head? ≠ some '\x7b' := by
    cases text with
    | nil => simp
    | cons c text => exact hhead
  simpa using field hquote hopens hextent (by simp) h

end BodyReads

/-- Every text that can stand between the quotes is read up to the closing quote. -/
theorem IsBodyText.exists_reads {quote : Char} (hquote : isQuote quote = true) {body : List Char}
    (h : IsBodyText quote body) (p : Position) : ∃ found, BodyReads quote p body found := by
  induction hlength : body.length using Nat.strongRecOn generalizing p body with
  | ind n ih =>
      cases body with
      | nil => exact ⟨[], .nil hquote p⟩
      | cons c body =>
          have hshorter (lead rest : List Char) (p : Position) (hbody : body = lead ++ rest) :
              ∃ found, BodyReads quote p rest found := by
            subst hbody
            refine ih rest.length ?_ (h.of_append (c :: lead)) p rfl
            simp only [List.length_cons, List.length_append] at hlength
            omega
          by_cases hbackslash : c = '\\'
          · subst hbackslash
            cases body with
            | nil => exact absurd rfl h.last_ne
            | cons e body =>
                obtain ⟨found, hfound⟩ := hshorter [e] body ((p.next '\\').next e) rfl
                exact ⟨found, hfound.hidden⟩
          by_cases hbrace : c = '\x7b'
          · subst hbrace
            by_cases hhead : body.head? = some '\x7b'
            · obtain ⟨rest, rfl⟩ := List.head?_eq_some_iff.1 hhead
              obtain ⟨found, hfound⟩ := hshorter ['\x7b'] rest ((p.next '\x7b').next '\x7b') rfl
              exact ⟨found, hfound.doubled hquote⟩
            · obtain ⟨found, hfound⟩ := BodyReads.exists_field hquote hhead hshorter
              exact ⟨_, hfound⟩
          · obtain ⟨found, hfound⟩ := hshorter [] body (p.next c) rfl
            exact ⟨found, hfound.plain (h.goes_on c List.mem_cons_self) hbackslash hbrace⟩

theorem IsBodyText.exists_field {quote : Char} (hquote : isQuote quote = true) {body : List Char}
    (h : IsBodyText quote ('\x7b' :: body)) (hhead : body.head? ≠ some '\x7b') (p : Position) :
    ∃ behind, BodyReads quote p ('\x7b' :: body)
      (⟨String.ofList (body.take (fieldExtent ⟨quote, false⟩ 1 0 body).1), p.next '\x7b'⟩ ::
        behind) := by
  refine BodyReads.exists_field hquote hhead fun lead rest q hbody => ?_
  subst hbody
  exact (h.of_append ('\x7b' :: lead)).exists_reads hquote q

/-! ### Literals -/

/-- A word that is the prefix of a formatted string, in whatever case. -/
def IsFormattedPrefix (word : List Char) : Prop :=
  word.map Char.toLower ∈ [['f'], ['f', 'r'], ['r', 'f']]

instance (word : List Char) : Decidable (IsFormattedPrefix word) :=
  inferInstanceAs (Decidable (_ ∈ _))

theorem eq_or_of_toLower {c d : Char} (h : c.toLower = d) :
    c = d ∨ c.val = d.val - ('a'.val - 'A'.val) := by
  unfold Char.toLower at h
  split at h
  · refine .inr ?_
    rw [← h, UInt32.add_sub_cancel]
  · exact .inl h

/-- The quotes of a string are single ones if no other one follows. -/
theorem BodyReads.stringKind_eq {quote : Char} {p : Position} {body rest : List Char}
    {found : List Field} (h : BodyReads quote (p.next quote) body found)
    (hbody : IsBodyText quote body) (hrest : rest.head? ≠ some quote) :
    stringKind quote true p (body ++ quote :: rest) = (.string found, body.length + 1) := by
  have hsingle : [quote, quote].isPrefixOf (body ++ quote :: rest) = false := by
    cases body with
    | nil =>
        cases rest with
        | nil => simp [List.isPrefixOf]
        | cons d rest =>
            have hne : d ≠ quote := fun heq => hrest (congrArg some heq)
            simp [List.isPrefixOf, hne.symm]
    | cons c body =>
        have hne := (hbody.goes_on c List.mem_cons_self).1
        simp [List.isPrefixOf, hne.symm]
  have hextent := h 0 [] rest
  simp only [Nat.zero_add, List.reverse_nil, List.nil_append] at hextent
  simp [stringKind, hsingle, Delimiter.length, hextent]

/-- A character that begins words begins nothing else. -/
structure IsLetter (c : Char) : Prop where
  not_gap : isGap c = false
  not_quote : isQuote c = false
  not_digit : c.isDigit = false
  not_mark : c ≠ '#' ∧ c ≠ '\n' ∧ c ≠ '\r' ∧ c ≠ '\\' ∧ c ≠ '.'
  starts_word : Text.isWordStart c = true

theorem isLetter_of_isWordStart {c : Char} (h : Text.isWordStart c = true) : IsLetter c := by
  have hne (d : Char) (hmark : Text.IsMark d) (hd : d ≠ '_') : c ≠ d := by
    rintro rfl
    rw [hmark.isWordStart hd] at h
    cases h
  refine ⟨?_, ?_, ?_, ⟨?_, ?_, ?_, ?_, ?_⟩, h⟩
  · simp [isGap, hne ' ' (by decide) (by decide), hne '\t' (by decide) (by decide),
      hne '\x0c' (by decide) (by decide)]
  · simp [isQuote, hne '"' (by decide) (by decide), hne '\'' (by decide) (by decide)]
  · by_contra hdigit
    rw [Bool.not_eq_false] at hdigit
    refine hne c (Text.isMark_of_isDigit hdigit) ?_ rfl
    rintro rfl
    cases hdigit
  all_goals exact hne _ (by decide) (by decide)

theorem IsLetter.classify_eq {c : Char} (h : IsLetter c) (lenient : Bool) (p : Position)
    (rest : List Char) : classify lenient p c rest = classifyWord p c rest := by
  have hmarks := h.not_mark
  unfold classify
  rw [if_neg (by simp [h.not_gap]), if_neg hmarks.1, if_neg hmarks.2.1, if_neg hmarks.2.2.1,
    if_neg hmarks.2.2.2.1, if_neg (by simp [h.not_quote]),
    if_neg (by simp [h.not_digit, hmarks.2.2.2.2]), if_pos h.starts_word]
  rfl

theorem isLetter_of_toLower {c d : Char} (hd : d ∈ ['r', 'u', 'b', 'f']) (h : c.toLower = d) :
    IsLetter c := by
  have hcases : d = 'r' ∨ d = 'u' ∨ d = 'b' ∨ d = 'f' := by simpa using hd
  have hlower (big : Char) (hbig : big.val = d.val - ('a'.val - 'A'.val)) : c = d ∨ c = big :=
    (eq_or_of_toLower h).imp id fun hval => Char.ext (hval.trans hbig.symm)
  apply isLetter_of_isWordStart
  rcases hcases with rfl | rfl | rfl | rfl
  · rcases hlower 'R' rfl with rfl | rfl <;> decide
  · rcases hlower 'U' rfl with rfl | rfl <;> decide
  · rcases hlower 'B' rfl with rfl | rfl <;> decide
  · rcases hlower 'F' rfl with rfl | rfl <;> decide

theorem isLetter_of_mem_prefix {word : List Char} (h : word.map Char.toLower ∈ stringPrefixes) :
    ∀ c ∈ word, IsLetter c := by
  have hletters : ∀ lower ∈ stringPrefixes, ∀ d ∈ lower, d ∈ ['r', 'u', 'b', 'f'] := by
    simp [stringPrefixes]
  exact fun c hc => isLetter_of_toLower (hletters _ h _ (List.mem_map_of_mem hc)) rfl

/-- A string with a prefix begins with the prefix and goes on like any string behind it. -/
theorem classify_prefixed {quote c : Char} {word : List Char}
    (hword : (c :: word).map Char.toLower ∈ stringPrefixes) (hquote : isQuote quote = true)
    (lenient : Bool) (p : Position) (text : List Char) :
    classify lenient p c (word ++ quote :: text) =
      let found := stringKind quote (((c :: word).map Char.toLower).contains 'f')
        (p.after (c :: word)) text
      (found.1, word.length + 1 + found.2) := by
  have hletters := isLetter_of_mem_prefix hword
  have hparts : ∀ d ∈ word, Text.isWordPart d = true := fun d hd =>
    Text.isWordPart_of_isWordStart (hletters d (List.mem_cons_of_mem c hd)).starts_word
  have htake : (word ++ quote :: text).takeWhile Text.isWordPart = word :=
    takeWhile_append_stop hparts (by simpa using isWordPart_of_isQuote hquote)
  have hknown : stringPrefixes.contains ((c :: word).map Char.toLower) = true :=
    List.contains_iff_mem.2 hword
  rw [(hletters c List.mem_cons_self).classify_eq, classifyWord]
  dsimp only
  rw [htake, List.take_left, List.drop_left]
  dsimp only
  rw [hquote, hknown]
  rfl

section

variable {quote c : Char} {p : Position} {word body rest : List Char} {found : List Field}

/-- A formatted string begins with one lexeme. -/
theorem BodyReads.classify_eq (h : BodyReads quote ((p.after (c :: word)).next quote) body found)
    (hword : IsFormattedPrefix (c :: word)) (hquote : isQuote quote = true)
    (hbody : IsBodyText quote body) (hrest : rest.head? ≠ some quote) :
    classify false p c (word ++ quote :: (body ++ quote :: rest)) =
      (.string found, (word ++ quote :: (body ++ [quote])).length) := by
  have hprefixes : ∀ lower ∈ [['f'], ['f', 'r'], ['r', 'f']],
      lower ∈ stringPrefixes ∧ lower.contains 'f' = true := by decide
  obtain ⟨hknown, hformatted⟩ := hprefixes _ hword
  rw [classify_prefixed hknown hquote, hformatted, h.stringKind_eq hbody hrest]
  simp
  omega

/-- A formatted string is one lexeme, and the rest is read behind it. -/
theorem BodyReads.split_eq (h : BodyReads quote (p.after (word ++ [quote])) body found)
    (hword : IsFormattedPrefix word) (hquote : isQuote quote = true)
    (hbody : IsBodyText quote body) (hrest : rest.head? ≠ some quote) :
    split false p [] (word ++ quote :: (body ++ quote :: rest)) =
      ⟨.string found, word ++ quote :: (body ++ [quote]), p⟩ ::
        split false (p.after (word ++ quote :: (body ++ [quote]))) [] rest := by
  cases word with
  | nil => simp [IsFormattedPrefix] at hword
  | cons c word =>
      rw [Position.after_append, Position.after_cons, Position.after_nil] at h
      have hclassify := h.classify_eq hword hquote hbody hrest
      have htext : word ++ quote :: (body ++ quote :: rest) =
          word ++ quote :: (body ++ [quote]) ++ rest := by simp
      rw [htext] at hclassify
      rw [List.cons_append, split_cons, htext, hclassify]
      dsimp only
      rw [List.take_left, List.drop_left]
      rfl

end

end ScriptSandbox
