import ScriptSandbox.Proofs.Source.LineEnds
import ScriptSandbox.Proofs.Source.Moving

/-!
Lexemes of texts with carriage returns. A text in which a carriage return stands before every line feed
has the same lexemes with carriage returns in them. Only a string between single quotes that goes on in
another line is not closed any more.
-/

namespace ScriptSandbox

namespace Lexeme

/-- Whether the text of a string goes on in another line though it stands between single quotes. -/
def isFoldedText (text : List Char) : Bool :=
  match text.dropWhile fun c => !isQuote c with
  | quote :: body => !([quote, quote].isPrefixOf body) && body.contains '\n'
  | [] => false

end Lexeme

def LexemeKind.isString : LexemeKind → Bool
  | .string _ => true
  | _ => false

/-- Whether lexemes of a kind end in the line in which they begin. -/
def LexemeKind.staysInLine : LexemeKind → Bool
  | .blank | .comment | .name | .number | .operator | .stray => true
  | _ => false

def LexemeKind.withReturns : LexemeKind → LexemeKind
  | .string fields => .string (fields.map Field.withReturns)
  | kind => kind

theorem LexemeKind.withReturns_of_isString {kind : LexemeKind} (h : kind.isString = false) :
    kind.withReturns = kind := by
  cases kind <;> first | rfl | cases h

namespace Lexeme

variable {lenient : Bool} {p : Position} {c : Char} {rest text word : List Char}

/-- A string between single quotes that goes on in another line. -/
def isFolded (l : Lexeme) : Bool :=
  l.kind.isString && isFoldedText l.text

def withReturns (l : Lexeme) : Lexeme :=
  ⟨l.kind.withReturns, ScriptSandbox.withReturns l.text, l.position⟩

/-- What is found at the beginning of a text, and what is found there when a carriage return stands
before every line feed. -/
inductive Returned (c : Char) (rest : List Char) : LexemeKind × Nat → LexemeKind × Nat → Prop
  /-- A string that goes on in another line is not closed. -/
  | folded {fields n} : isFoldedText (c :: rest.take n) = true →
      Returned c rest (.string fields, n)
        (.broken (.unterminatedString false), (ScriptSandbox.withReturns rest).length)
  | kept {kind n} : (kind.isString && isFoldedText (c :: rest.take n)) = false →
      (kind.staysInLine = true → '\n' ∉ rest.take n) →
      Returned c rest (kind, n) (kind.withReturns, (ScriptSandbox.withReturns (rest.take n)).length)

theorem returned_of_not_mem {kind : LexemeKind} {n m : Nat} (hkind : kind.staysInLine = true)
    (hfeed : '\n' ∉ rest.take n) (hlength : m = (rest.take n).length) :
    Returned c rest (kind, n) (kind, m) := by
  have hstring : kind.isString = false := by cases kind <;> first | rfl | cases hkind
  have hkept : Returned c rest (kind, n)
      (kind.withReturns, (ScriptSandbox.withReturns (rest.take n)).length) :=
    .kept (by rw [hstring, Bool.false_and]) fun _ => hfeed
  rwa [LexemeKind.withReturns_of_isString hstring, withReturns_of_not_mem hfeed, ← hlength] at hkept

theorem returned_takeWhile {keep : Char → Bool} {kind : LexemeKind} (hkind : kind.staysInLine = true)
    (hreturn : keep '\r' = false) (hfeed : keep '\n' = false) :
    Returned c rest (kind, (rest.takeWhile keep).length)
      (kind, ((ScriptSandbox.withReturns rest).takeWhile keep).length) := by
  refine returned_of_not_mem hkind ?_ ?_
  · rw [take_length_takeWhile]
    exact not_mem_takeWhile rest hfeed
  · rw [takeWhile_withReturns hreturn hfeed, take_length_takeWhile]

theorem returned_broken (problem : SyntaxProblem) :
    Returned c rest (.broken problem, rest.length)
      (.broken problem, (ScriptSandbox.withReturns rest).length) := by
  have hkept : Returned c rest (.broken problem, rest.length)
      (.broken problem, (ScriptSandbox.withReturns (rest.take rest.length)).length) :=
    .kept rfl (by simp [LexemeKind.staysInLine])
  rwa [List.take_length] at hkept

theorem numberLength_withReturns (hexadecimal : Bool) (previous : Char) (text : List Char) :
    numberLength hexadecimal previous (ScriptSandbox.withReturns text) =
      numberLength hexadecimal previous text := by
  fun_induction numberLength hexadecimal previous text with
  | case1 => rfl
  | case2 previous c rest hpart ih =>
      have hc : c ≠ '\n' := by
        rintro rfl
        cases hpart
      simp [hc, numberLength, hpart, ih]
  | case3 previous c rest hpart hsign ih =>
      have hc : c ≠ '\n' := by
        rintro rfl
        cases hsign
      simp [hc, numberLength, hpart, hsign, ih]
  | case4 previous c rest hpart hsign =>
      by_cases hc : c = '\n'
      · subst hc
        rfl
      · simp [hc, numberLength, hpart, hsign]

theorem isFoldedText_quote {quote : Char} (hquote : isQuote quote = true) (body : List Char) :
    isFoldedText (quote :: body) = (!([quote, quote].isPrefixOf body) && body.contains '\n') := by
  simp [isFoldedText, hquote]

theorem isFoldedText_append (hword : ∀ d ∈ word, isQuote d = false) (text : List Char) :
    isFoldedText (word ++ text) = isFoldedText text := by
  unfold isFoldedText
  rw [List.dropWhile_append_of_pos (by simpa using hword)]

theorem take_opening (quote : Char) (text : List Char) :
    text.take (Delimiter.length ⟨quote, [quote, quote].isPrefixOf text⟩ - 1) =
      List.replicate (Delimiter.length ⟨quote, [quote, quote].isPrefixOf text⟩ - 1) quote := by
  cases htriple : [quote, quote].isPrefixOf text with
  | false => rfl
  | true => exact (List.prefix_iff_eq_take.1 (List.isPrefixOf_iff_prefix.1 htriple)).symm

theorem isPrefixOf_take_opening {quote : Char} {n : Nat}
    (h : Delimiter.length ⟨quote, [quote, quote].isPrefixOf text⟩ - 1 ≤ n) :
    [quote, quote].isPrefixOf (text.take n) = [quote, quote].isPrefixOf text := by
  cases htriple : [quote, quote].isPrefixOf text with
  | true =>
      rw [htriple] at h
      exact List.isPrefixOf_iff_prefix.2
        (List.prefix_take_iff.2 ⟨List.isPrefixOf_iff_prefix.1 htriple, h⟩)
  | false =>
      rw [Bool.eq_false_iff] at htriple ⊢
      exact mt (fun h => List.isPrefixOf_iff_prefix.2
        ((List.isPrefixOf_iff_prefix.1 h).trans (List.take_prefix n text))) htriple

/-- A string that is closed is found again, unless it goes on in another line. -/
theorem returned_string {quote : Char} (hquote : isQuote quote = true) {d : Delimiter}
    (hd : d = ⟨quote, [quote, quote].isPrefixOf text⟩) {length : Nat} (hread : d.length - 1 ≤ length)
    (fields : List Field) :
    Returned quote text (.string fields, length)
      (match extentWithReturns d (d.length - 1) (d.length - 1) (text.drop (d.length - 1))
        (length, fields) with
      | some (length, fields) => (.string fields, length)
      | none => (.broken (.unterminatedString d.triple), (ScriptSandbox.withReturns text).length)) := by
  have hopen := take_opening quote text
  rw [← hd] at hopen
  have hfeed : '\n' ∉ List.replicate (d.length - 1) quote :=
    fun hmem => ne_feed_of_isQuote hquote (List.eq_of_mem_replicate hmem).symm
  have htext : text.take length = List.replicate (d.length - 1) quote ++
      (text.drop (d.length - 1)).take (length - (d.length - 1)) := by
    rw [← hopen, ← List.take_add, Nat.add_sub_cancel' hread]
  have hlength : (ScriptSandbox.withReturns (text.take length)).length = d.length - 1 +
      (ScriptSandbox.withReturns ((text.drop (d.length - 1)).take (length - (d.length - 1)))).length := by
    rw [htext, withReturns_append, withReturns_of_not_mem hfeed, List.length_append,
      List.length_replicate]
  have htriple : [quote, quote].isPrefixOf (text.take length) = d.triple := by
    rw [hd] at hread ⊢
    exact isPrefixOf_take_opening hread
  have hfold : isFoldedText (quote :: text.take length) = (!d.triple &&
      ((text.drop (d.length - 1)).take (length - (d.length - 1))).contains '\n') := by
    rw [isFoldedText_quote hquote, htriple, htext, List.contains_append]
    simp [hfeed]
  unfold extentWithReturns
  dsimp only
  rw [← hlength, ← hfold]
  cases hfolded : isFoldedText (quote :: text.take length) with
  | true =>
      rw [hfolded] at hfold
      have hsingle : d.triple = false := by simpa using (Bool.and_eq_true_iff.1 hfold.symm).1
      rw [if_pos rfl, hsingle]
      exact .folded hfolded
  | false =>
      rw [if_neg Bool.false_ne_true]
      exact .kept hfolded (by simp [LexemeKind.staysInLine])

theorem stringKind_withReturns {quote : Char} (hquote : isQuote quote = true) (formatted : Bool)
    (p : Position) (text : List Char) :
    Returned quote text (stringKind quote formatted p text)
      (stringKind quote formatted p (ScriptSandbox.withReturns text)) := by
  have htriple : [quote, quote].isPrefixOf (ScriptSandbox.withReturns text) =
      [quote, quote].isPrefixOf text :=
    isPrefixOf_withReturns (by simp [isLineEnd_of_isQuote hquote])
  have hopen := take_opening quote text
  unfold stringKind
  rw [htriple]
  extract_lets d opening
  have hfeed : '\n' ∉ List.replicate opening quote :=
    fun hmem => ne_feed_of_isQuote hquote (List.eq_of_mem_replicate hmem).symm
  have hreturns : ScriptSandbox.withReturns (text.take opening) = List.replicate opening quote := by
    rw [hopen, withReturns_of_not_mem hfeed]
  have htake := take_withReturns opening text
  have hdrop := drop_withReturns opening text
  rw [hreturns, List.length_replicate] at htake hdrop
  have hextent := stringExtent_withReturns (d := d) hquote formatted
    ((p.next quote).after (List.replicate opening quote)) opening opening [] (text.drop opening)
  rw [List.map_nil] at hextent
  rw [htake, hdrop, hopen, hextent]
  cases hfound : stringExtent d formatted ((p.next quote).after (List.replicate opening quote))
      opening [] (text.drop opening) with
  | none => exact returned_broken _
  | some found => exact returned_string hquote rfl (stringSpan_of_stringExtent hfound).read_le found.2

theorem isQuote_of_isWordPart {d : Char} (h : Text.isWordPart d = true) : isQuote d = false := by
  by_contra hquote
  rw [Bool.not_eq_false] at hquote
  rw [isWordPart_of_isQuote hquote] at h
  cases h

/-- A string is found with its prefix as it is found without. -/
theorem returned_prefixed {length : Nat} {quote : Char} {found found' : LexemeKind × Nat}
    (h : Returned quote text found found') (hafter : rest.drop length = quote :: text)
    (hword : ∀ d ∈ c :: rest.take length, Text.isWordPart d = true) (hquote : isQuote quote = true)
    (hkind : found.1.staysInLine = false) :
    Returned c rest (found.1, length + 1 + found.2) (found'.1, length + 1 + found'.2) := by
  have hfold (n : Nat) : isFoldedText (c :: rest.take (length + 1 + n)) =
      isFoldedText (quote :: text.take n) := by
    rw [take_prefixed hafter, ← List.cons_append,
      isFoldedText_append fun d hd => isQuote_of_isWordPart (hword d hd)]
  have hfeed : '\n' ∉ rest.take length :=
    fun hmem => absurd (hword _ (List.mem_cons_of_mem c hmem)) (by decide)
  have hquote' := ne_feed_of_isQuote hquote
  have hlong : length ≤ rest.length := by
    have hdrop := congrArg List.length hafter
    rw [List.length_drop, List.length_cons] at hdrop
    omega
  have hlength (more : List Char) :
      (ScriptSandbox.withReturns (rest.take length ++ quote :: more)).length =
        length + 1 + (ScriptSandbox.withReturns more).length := by
    rw [withReturns_append, withReturns_of_not_mem hfeed, withReturns_cons hquote', List.length_append,
      List.length_take, Nat.min_eq_left hlong, List.length_cons]
    omega
  cases h with
  | folded hfolded =>
      rw [← hlength, ← hafter, List.take_append_drop]
      exact .folded ((hfold _).trans hfolded)
  | @kept kind n hfolded _ =>
      rw [← hlength, ← take_prefixed hafter]
      refine .kept ?_ fun hstays => ?_
      · rwa [hfold]
      · rw [hkind] at hstays
        cases hstays

@[simp] theorem staysInLine_stringKind (quote : Char) (formatted : Bool) (p : Position)
    (text : List Char) :
    (stringKind quote formatted p text).1.staysInLine = false := by
  rcases stringKind_cases quote formatted p text with ⟨_, hkind, -⟩ | ⟨_, hkind, -⟩
  · rw [hkind]
    rfl
  · rw [hkind]
    rfl

theorem classifyWord_withReturns (hstart : Text.isWordStart c = true) :
    Returned c rest (classifyWord p c rest) (classifyWord p c (ScriptSandbox.withReturns rest)) := by
  have hreturn : Text.isWordPart '\r' = false := by decide
  have hfeed : Text.isWordPart '\n' = false := by decide
  have hname : Returned c rest (.name, (rest.takeWhile Text.isWordPart).length)
      (.name, (rest.takeWhile Text.isWordPart).length) := by
    conv => arg 4; rw [← takeWhile_withReturns hreturn hfeed]
    exact returned_takeWhile rfl hreturn hfeed
  have hword : ∀ d ∈ c :: rest.take (rest.takeWhile Text.isWordPart).length,
      Text.isWordPart d = true := isWordPart_of_mem_word hstart
  have hnone : '\n' ∉ rest.take (rest.takeWhile Text.isWordPart).length :=
    fun hmem => absurd (hword _ (List.mem_cons_of_mem c hmem)) (by decide)
  have htake := take_withReturns (rest.takeWhile Text.isWordPart).length rest
  have hdrop := drop_withReturns (rest.takeWhile Text.isWordPart).length rest
  unfold classifyWord
  rw [takeWhile_withReturns hreturn hfeed]
  have hlength : (rest.take (rest.takeWhile Text.isWordPart).length).length =
      (rest.takeWhile Text.isWordPart).length := by
    rw [take_length_takeWhile]
  generalize (rest.takeWhile Text.isWordPart).length = length
    at hname hword hnone htake hdrop hlength ⊢
  rw [withReturns_of_not_mem hnone, hlength] at htake hdrop
  dsimp only
  rw [htake, hdrop]
  cases hafter : rest.drop length with
  | nil => exact hname
  | cons quote text =>
      by_cases hquote : quote = '\n'
      · subst hquote
        exact hname
      · rw [withReturns_cons hquote]
        refine ite_rel (R := Returned c rest) Iff.rfl (fun hprefixed => ?_) fun _ => hname
        rw [Bool.and_eq_true] at hprefixed
        exact returned_prefixed (stringKind_withReturns hprefixed.1 _ _ text) hafter hword hprefixed.1
          (staysInLine_stringKind _ _ _ text)

theorem isLineEnd_of_mem_operators :
    ∀ operator ∈ operators, ∀ d ∈ operator, isLineEnd d = false := by
  have hall : (operators.all fun operator => operator.all fun d => !isLineEnd d) = true := by
    decide
  simpa using hall

@[simp] theorem find?_operators_withReturns (text : List Char) :
    operators.find? (·.isPrefixOf (ScriptSandbox.withReturns text)) =
      operators.find? (·.isPrefixOf text) :=
  List.find?_congr fun operator hoperator =>
    isPrefixOf_withReturns (isLineEnd_of_mem_operators operator hoperator)

theorem returned_operator {operator : List Char}
    (h : operators.find? (·.isPrefixOf (c :: rest)) = some operator) :
    Returned c rest (.operator, operator.length - 1) (.operator, operator.length - 1) := by
  have hoperator := List.mem_of_find?_eq_some h
  have hbegins := List.find?_some h
  obtain ⟨more, htext⟩ := List.isPrefixOf_iff_prefix.1 hbegins
  obtain ⟨d, tail, rfl⟩ := List.exists_cons_of_ne_nil (ne_nil_of_mem_operators hoperator)
  cases htext
  have hfeed := List.not_mem_of_not_mem_cons (not_mem_operator hoperator)
  exact returned_of_not_mem rfl (by simpa using hfeed) (by simp)

theorem classify_backslash_withReturns (lenient : Bool) (p : Position) (hrest : '\r' ∉ rest) :
    Returned '\\' rest (classify lenient p '\\' rest)
      (classify lenient p '\\' (ScriptSandbox.withReturns rest)) := by
  rw [classify_backslash, classify_backslash]
  by_cases hfeed : rest.head? = some '\n'
  · obtain ⟨rest, rfl⟩ := List.head?_eq_some_iff.1 hfeed
    exact .kept (n := 1) rfl (by simp [LexemeKind.staysInLine])
  · have hreturn : rest.head? ≠ some '\r' := fun h => hrest (List.mem_of_head? h)
    rw [head?_withReturns_of_ne hfeed, if_neg hfeed, if_neg hfeed, if_neg hreturn, if_neg hreturn]
    refine ite_rel (R := Returned '\\' rest) Iff.rfl (fun _ => ?_) fun _ => returned_broken _
    exact returned_of_not_mem rfl (by simp) rfl

/-- A text with carriage returns begins with the same lexeme, or with a string that is not closed. -/
theorem classify_withReturns (lenient : Bool) (p : Position) (hc : c ≠ '\n')
    (htext : '\r' ∉ c :: rest) :
    Returned c rest (classify lenient p c rest)
      (classify lenient p c (ScriptSandbox.withReturns rest)) := by
  obtain ⟨hreturn, hrest⟩ := not_or.1 (mt List.mem_cons.2 htext)
  by_cases hslash : c = '\\'
  · subst hslash
    exact classify_backslash_withReturns lenient p hrest
  unfold classify
  refine ite_rel (R := Returned c rest) Iff.rfl (fun _ => returned_takeWhile rfl rfl rfl) fun _ => ?_
  refine ite_rel (R := Returned c rest) Iff.rfl (fun _ => returned_takeWhile rfl rfl rfl) fun _ => ?_
  refine ite_rel (R := Returned c rest) Iff.rfl (fun h => absurd h hc) fun _ => ?_
  refine ite_rel (R := Returned c rest) Iff.rfl (fun h => absurd h.symm hreturn) fun _ => ?_
  refine ite_rel (R := Returned c rest) Iff.rfl (fun h => absurd h hslash) fun _ => ?_
  refine ite_rel (R := Returned c rest) Iff.rfl
    (fun hquote => stringKind_withReturns hquote false p rest) fun _ => ?_
  have hhead {d : Char} (hd : isLineEnd d = false) :
      ((ScriptSandbox.withReturns rest).head? == some d) = (rest.head? == some d) := by
    rw [Bool.eq_iff_iff, beq_iff_eq, beq_iff_eq, head?_withReturns hd]
  rw [any_head?_withReturns rfl rfl, hhead (d := 'x') rfl, hhead (d := 'X') rfl]
  refine ite_rel (R := Returned c rest) Iff.rfl (fun _ => ?_) fun _ => ?_
  · dsimp only
    rw [numberLength_withReturns]
    refine returned_of_not_mem rfl (fun hmem => absurd (goesOnNumber_of_mem hmem) (by decide)) ?_
    rw [List.length_take, Nat.min_eq_left (numberLength_le _ _ rest)]
  refine ite_rel (R := Returned c rest) Iff.rfl (fun hstart => classifyWord_withReturns hstart)
    fun _ => ?_
  have hfind := find?_operators_withReturns (c :: rest)
  rw [withReturns_cons hc] at hfind
  rw [hfind]
  cases hoperator : operators.find? (·.isPrefixOf (c :: rest)) with
  | some operator => exact returned_operator hoperator
  | none =>
      refine ite_rel (R := Returned c rest) Iff.rfl (fun _ => ?_) fun _ => returned_broken _
      exact returned_of_not_mem rfl (by simp) rfl

/-! ### Texts -/

/-- A text with carriage returns begins with the lexeme that the text begins with, or all of it is
broken. -/
theorem split_withReturns_cons {lenient : Bool} {p : Position} {found : LexemeKind × Nat}
    (htext : '\r' ∉ c :: rest) (hfound : classify lenient p c rest = found) :
    split lenient p [] (ScriptSandbox.withReturns (c :: rest)) =
      if isFolded ⟨found.1, c :: rest.take found.2, p⟩ then
        [⟨.broken (.unterminatedString false), ScriptSandbox.withReturns (c :: rest), p⟩]
      else withReturns ⟨found.1, c :: rest.take found.2, p⟩ ::
        split lenient (p.after (c :: rest.take found.2)) []
          (ScriptSandbox.withReturns (rest.drop found.2)) := by
  by_cases hc : c = '\n'
  · subst hc
    subst hfound
    have hreturn : classify lenient p '\r' ('\n' :: ScriptSandbox.withReturns rest) = (.lineBreak, 1) := rfl
    rw [withReturns_feed, split_cons, hreturn]
    rfl
  · have hreturned := classify_withReturns lenient p hc htext
    rw [hfound] at hreturned
    rw [withReturns_cons hc, split_cons]
    generalize classify lenient p c (ScriptSandbox.withReturns rest) = found' at hreturned ⊢
    cases hreturned with
    | folded hfolded =>
        rw [if_pos (by simp [isFolded, LexemeKind.isString, hfolded])]
        simp [split]
    | kept hfolded =>
        rw [if_neg (by simp [isFolded, hfolded]), take_withReturns, drop_withReturns,
          ← withReturns_cons hc, Position.after_withReturns]
        rfl

theorem feed_not_mem_of_split (htext : '\r' ∉ text) : ∀ l ∈ split lenient p [] text,
    l.kind.staysInLine = true → '\n' ∉ l.text := by
  refine forall_mem_split fun p c rest hsuffix hstays => ?_
  by_cases hc : c = '\n'
  · subst hc
    cases hstays
  · have hreturned := classify_withReturns lenient p hc fun hmem => htext (hsuffix.subset hmem)
    have hrest : '\n' ∉ rest.take (classify lenient p c rest).2 := by
      dsimp only at hstays
      generalize classify lenient p c rest = found at hreturned hstays ⊢
      generalize classify lenient p c (ScriptSandbox.withReturns rest) = found' at hreturned
      cases hreturned with
      | folded => cases hstays
      | kept _ hline => exact hline hstays
    simp [Ne.symm hc, hrest]

/-- A text with carriage returns has the same lexemes with carriage returns, if no string between single
quotes goes on in another line. -/
theorem split_withReturns (htext : '\r' ∉ text)
    (hfolded : ∀ l ∈ split lenient p [] text, l.isFolded = false) :
    split lenient p [] (ScriptSandbox.withReturns text) =
      (split lenient p [] text).map withReturns := by
  induction p, text using split_induction lenient with
  | nil p => simp [split]
  | cons p c rest ih =>
      rw [split_cons] at hfolded
      obtain ⟨hfirst, hlater⟩ := List.forall_mem_cons.1 hfolded
      have hrest : '\r' ∉ rest.drop (classify lenient p c rest).2 :=
        fun hmem => htext (List.mem_cons_of_mem c (List.mem_of_mem_drop hmem))
      rw [split_withReturns_cons htext rfl, split_cons, hfirst, ih hrest hlater]
      rfl

/-- With a string between single quotes that goes on in another line, a text with carriage returns is
broken. -/
theorem exists_broken_of_isFolded (htext : '\r' ∉ text) {l : Lexeme}
    (hl : l ∈ split lenient p [] text) (hfolded : l.isFolded = true) :
    ∃ m ∈ split lenient p [] (ScriptSandbox.withReturns text), m.isBroken = true := by
  induction p, text using split_induction lenient with
  | nil p => simp [split] at hl
  | cons p c rest ih =>
      have hrest : '\r' ∉ rest.drop (classify lenient p c rest).2 :=
        fun hmem => htext (List.mem_cons_of_mem c (List.mem_of_mem_drop hmem))
      rw [split_withReturns_cons htext rfl]
      split
      · exact ⟨_, List.mem_singleton_self _, rfl⟩
      · rename_i hfirst
        rw [split_cons] at hl
        rcases List.mem_cons.1 hl with rfl | hl
        · exact absurd hfolded hfirst
        · obtain ⟨m, hm, hbroken⟩ := ih hrest hl
          exact ⟨m, List.mem_cons_of_mem _ hm, hbroken⟩

end Lexeme

end ScriptSandbox
