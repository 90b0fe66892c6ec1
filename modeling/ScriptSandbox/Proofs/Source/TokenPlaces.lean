import ScriptSandbox.Proofs.Source.PlacedLayouts

/-!
Places inside of a script. A place lies in a text when the text has its line and the line its column.
The tokens of a script begin at such places, and so does whatever keeps a script from having tokens.
-/

namespace ScriptSandbox

@[simp] theorem length_splitOn {α : Type} [BEq α] (a : α) (items : List α) :
    (items.splitOn a).length = items.count a + 1 := by
  unfold List.splitOn
  induction items with
  | nil => rfl
  | cons b rest ih =>
      rw [List.splitOnP_cons_eq_if_modifyHead, List.count_cons]
      split
      · rw [List.length_cons, ih]
      · rw [List.length_modifyHead, ih, Nat.add_zero]

@[simp] theorem head?_splitOn {α : Type} [BEq α] (a : α) (items : List α) :
    (items.splitOn a).head? = some (items.takeWhile (· != a)) := by
  unfold List.splitOn
  induction items with
  | nil => rfl
  | cons b rest ih =>
      rw [List.splitOnP_cons_eq_if_modifyHead, List.takeWhile_cons]
      by_cases h : (b == a) = true
      · simp [h, bne]
      · rw [if_neg h, List.head?_modifyHead, ih]
        simp [h, bne]

theorem length_le_takeWhile_append_iff {α : Type} {keep : α → Bool} {items : List α}
    (more : List α) :
    items.length ≤ ((items ++ more).takeWhile keep).length ↔ ∀ a ∈ items, keep a = true := by
  induction items with
  | nil => simp
  | cons a rest ih =>
      rw [List.cons_append, List.takeWhile_cons, List.forall_mem_cons, ← ih]
      cases keep a with
      | true => simp
      | false => simp

namespace Position

/-- A place lies in a text: the line feeds of the text separate enough lines, and the line of the
place has enough characters. -/
structure LiesIn (p : Position) (text : List Char) : Prop where
  one_le_line : 1 ≤ p.line
  line_le : p.line ≤ text.count '\n' + 1
  column_le : ∃ line, (text.splitOn '\n')[p.line - 1]? = some line ∧ p.column ≤ line.length

/-- The line that a text is cut in goes on from the last line before the cut to the next line
feed. -/
theorem line_at_cut (lead rest : List Char) :
    ((lead ++ rest).splitOn '\n')[lead.count '\n']? =
      some (lastLine lead ++ rest.takeWhile (· != '\n')) := by
  induction lead using List.reverseRecOn generalizing rest with
  | nil => simpa [lastLine, List.head?_eq_getElem?] using head?_splitOn '\n' rest
  | append_singleton lead c ih =>
      rw [List.append_assoc, List.singleton_append]
      by_cases h : c = '\n'
      · subst h
        have hbehind : (lead ++ ['\n']).count '\n' = (lead.splitOn '\n').length := by
          simp [length_splitOn]
        rw [List.splitOn_append_cons_self, hbehind,
          List.getElem?_append_right (Nat.le_refl _), Nat.sub_self, ← List.head?_eq_getElem?,
          head?_splitOn]
        simp [lastLine]
      · have hline := ih (c :: rest)
        simpa [lastLine, h] using hline

theorem liesIn_cut_iff {p : Position} {lead : List Char} (rest : List Char)
    (hline : p.line = (start.after lead).line) :
    p.LiesIn (lead ++ rest) ↔
      p.column ≤ (lastLine lead).length + (rest.takeWhile (· != '\n')).length := by
  rw [start_after, counted] at hline
  dsimp only at hline
  have hcut := line_at_cut lead rest
  have hindex : p.line - 1 = lead.count '\n' := by omega
  constructor
  · rintro ⟨-, -, line, hfound, hcolumn⟩
    rw [hindex, hcut] at hfound
    cases hfound
    rwa [List.length_append] at hcolumn
  · intro hcolumn
    refine ⟨by omega, ?_, _, by rw [hindex, hcut], ?_⟩
    · rw [hline, List.count_append]
      omega
    · rwa [List.length_append]

theorem liesIn_after (lead rest : List Char) : (start.after lead).LiesIn (lead ++ rest) := by
  apply (liesIn_cut_iff rest rfl).2
  rw [start_after]
  exact Nat.le_add_right _ _

theorem LiesIn.margin {p : Position} {text : List Char} (h : p.LiesIn text) :
    (⟨p.line, 0⟩ : Position).LiesIn text := by
  obtain ⟨line, hline, -⟩ := h.column_le
  exact ⟨h.one_le_line, h.line_le, line, hline, Nat.zero_le _⟩

/-- A place is one of some places, and so it corresponds to itself. -/
def Among (P : Position → Prop) (p q : Position) : Prop :=
  p = q ∧ P p

theorem keepsMargin_among {text : List Char} : KeepsMargin (Among fun p => p.LiesIn text) := by
  rintro p _ ⟨rfl, h⟩
  exact ⟨rfl, h.margin⟩

end Position

open Position (Among)

theorem Lexeme.Lexed.like_among {text : List Char} {lexemes : List Lexeme}
    (h : Lexed false .start text lexemes) :
    List.Forall₂ (Lexeme.Like (Among fun p => p.LiesIn text)) lexemes lexemes := by
  refine List.forall₂_same.2 fun l hl => ?_
  obtain ⟨before, after, htext, hposition, hshape⟩ := h.shape_of_mem hl
  have hlies (inner rest : List Char) (hinner : l.text = inner ++ rest) :
      (l.position.after inner).LiesIn text := by
    rw [htext, hposition, hinner, ← Position.after_append]
    simpa using Position.liesIn_after (before ++ inner) (rest ++ after)
  refine ⟨?_, rfl, rfl, hlies [] l.text rfl⟩
  by_cases hstring : ∃ fields, l.kind = .string fields
  · obtain ⟨fields, hkind⟩ := hstring
    rw [hkind] at hshape ⊢
    refine .string (List.forall₂_same.2 fun f hf => ?_)
    obtain ⟨inner, rest, hinner, -, hfield⟩ := hshape.standsIn f hf
    refine ⟨rfl, rfl, ?_⟩
    rw [hfield]
    exact hlies inner (f.source.toList ++ rest) (by rw [hinner, List.append_assoc])
  · exact .other (by simpa using hstring)

section Tokenize

variable {source : String} {tokens : List Token} {t : Token}

theorem answerLike_among_tokenize (source : String) :
    AnswerLike (Among fun p => p.LiesIn source.toList)
      (List.Forall₂ (Token.Like (Among fun p => p.LiesIn source.toList)))
      (tokenize source) (tokenize source) := by
  have hend : (Position.start.after source.toList).LiesIn source.toList := by
    simpa using Position.liesIn_after source.toList []
  exact Layout.run_like_of_keepsMargin Position.keepsMargin_among ⟨rfl, hend⟩
    (lexed_scriptLexemes source).like_among ⟨rfl, .nil, rfl, rfl, rfl⟩ .nil

theorem liesIn_of_tokenize_eq_error {e : SyntaxError} (h : tokenize source = .error e) :
    e.position.LiesIn source.toList := by
  have hlike := answerLike_among_tokenize source
  rw [h] at hlike
  cases hlike with
  | error hplace => exact hplace.2

/-- The tokens of a script lie in the script. -/
theorem liesIn_of_mem_tokenize (h : tokenize source = .ok tokens) (ht : t ∈ tokens) :
    t.position.LiesIn source.toList := by
  have hlike := answerLike_among_tokenize source
  rw [h] at hlike
  cases hlike with
  | ok htokens => exact (List.forall₂_same.1 htokens t ht).position.2

/-- The place behind a token on the line that it begins on. -/
def Token.behind (t : Token) : Position :=
  ⟨t.position.line, t.position.column + t.text.length⟩

/-- The place behind a written token, on the line that it begins on, lies in the script unless the
token goes on over a line feed. -/
theorem behind_liesIn_iff (h : tokenize source = .ok tokens) (ht : t ∈ tokens)
    (hwritten : t.isWritten = true) :
    t.behind.LiesIn source.toList ↔ '\n' ∉ t.text.toList := by
  obtain ⟨l, hl, htoken⟩ := exists_lexeme_of_tokenize h ht hwritten
  obtain ⟨before, after, htext, hposition, -⟩ := (lexed_scriptLexemes source).shape_of_mem hl
  obtain ⟨htokenText, htokenPosition⟩ := Lexeme.token?_eq_some htoken
  have hstart : t.position = Position.start.after before := htokenPosition.trans hposition
  have hown : t.text.toList = l.text := by rw [htokenText, String.toList_ofList]
  have hlength : t.text.length = l.text.length := by rw [htokenText, String.length_ofList]
  have hcolumn : t.position.column = (Position.lastLine before).length := by
    rw [hstart, Position.start_after]
    rfl
  have hline : t.behind.line = (Position.start.after before).line := by
    rw [← hstart]
    rfl
  rw [htext, List.append_assoc, Position.liesIn_cut_iff (l.text ++ after) hline, hown]
  show t.position.column + t.text.length ≤ _ ↔ _
  rw [hcolumn, hlength, Nat.add_le_add_iff_left, length_le_takeWhile_append_iff]
  constructor
  · intro hkeep hfeed
    simpa using hkeep _ hfeed
  · intro hfeed c hc
    rw [bne_iff_ne]
    rintro rfl
    exact hfeed hc

end Tokenize

end ScriptSandbox
