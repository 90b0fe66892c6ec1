import ScriptSandbox.Proofs.Source.TokenStream

/-!
Words in texts. A whole word of a text is read as a name, unless something has begun before it that
words can stand in. Where there are no strings, no comments and no continued lines, that can only be a
number.
-/

namespace ScriptSandbox

/-- A text without quotes, comments and continued lines. -/
structure IsPlain (text : List Char) : Prop where
  no_quote : ∀ c ∈ text, Lexeme.isQuote c = false
  no_hash : '#' ∉ text
  no_backslash : '\\' ∉ text

/-- A word stands in a text behind `before`, and no character around it belongs to it. -/
structure StandsWhole (word before after text : List Char) : Prop where
  text_eq : text = before ++ word ++ after
  starts : ∀ c ∈ before.getLast?, Text.isWordPart c = false
  ends : ∀ c ∈ after.head?, Text.isWordPart c = false

theorem isPlain_iff {text : List Char} : IsPlain text ↔
    (text.all fun c => !Lexeme.isQuote c && c != '#' && c != '\\') = true := by
  constructor
  · rintro ⟨hquote, hhash, hbackslash⟩
    refine List.all_eq_true.2 fun c hc => ?_
    have hhash : c ≠ '#' := fun heq => hhash (heq ▸ hc)
    have hbackslash : c ≠ '\\' := fun heq => hbackslash (heq ▸ hc)
    simp [hquote c hc, hhash, hbackslash]
  · intro h
    have heach (c : Char) (hc : c ∈ text) : Lexeme.isQuote c = false ∧ c ≠ '#' ∧ c ≠ '\\' := by
      simpa [and_assoc] using List.all_eq_true.1 h c hc
    exact ⟨fun c hc => (heach c hc).1, fun hc => (heach _ hc).2.1 rfl,
      fun hc => (heach _ hc).2.2 rfl⟩

instance (text : List Char) : Decidable (IsPlain text) :=
  decidable_of_iff _ isPlain_iff.symm

theorem standsWhole_iff {word before after text : List Char} :
    StandsWhole word before after text ↔ text = before ++ word ++ after ∧
      (before.getLast?.all fun c => !Text.isWordPart c) = true ∧
      (after.head?.all fun c => !Text.isWordPart c) = true := by
  simp only [Option.all_eq_true, Bool.not_eq_true']
  exact ⟨fun ⟨htext, hstarts, hends⟩ => ⟨htext, hstarts, hends⟩,
    fun ⟨htext, hstarts, hends⟩ => ⟨htext, hstarts, hends⟩⟩

instance (word before after text : List Char) : Decidable (StandsWhole word before after text) :=
  decidable_of_iff _ standsWhole_iff.symm

theorem IsPlain.of_append_right {first second : List Char} (h : IsPlain (first ++ second)) :
    IsPlain second where
  no_quote c hc := h.no_quote c (List.mem_append_right _ hc)
  no_hash hc := h.no_hash (List.mem_append_right _ hc)
  no_backslash hc := h.no_backslash (List.mem_append_right _ hc)

theorem IsPlain.of_append_left {first second : List Char} (h : IsPlain (first ++ second)) :
    IsPlain first where
  no_quote c hc := h.no_quote c (List.mem_append_left _ hc)
  no_hash hc := h.no_hash (List.mem_append_left _ hc)
  no_backslash hc := h.no_backslash (List.mem_append_left _ hc)

theorem Text.isWord_iff {name : String} :
    isWord name = true ↔ ∃ c rest, name.toList = c :: rest ∧ isWordStart c = true ∧
      ∀ d ∈ rest, isWordPart d = true := by
  unfold isWord
  cases name.toList with
  | nil => simp
  | cons c rest => simp

theorem Text.isWordPart_of_isWord {name : String} (h : isWord name = true) :
    ∀ c ∈ name.toList, isWordPart c = true := by
  obtain ⟨c, rest, hname, hstart, hparts⟩ := isWord_iff.1 h
  simp only [hname, List.forall_mem_cons]
  exact ⟨isWordPart_of_isWordStart hstart, hparts⟩

theorem Text.ne_nil_of_isWord {name : String} (h : isWord name = true) : name.toList ≠ [] := by
  obtain ⟨c, rest, hname, -, -⟩ := isWord_iff.1 h
  simp [hname]

theorem eq_of_append_eq_append {word other after rest : List Char}
    (hword : ∀ c ∈ word, Text.isWordPart c = true) (hother : ∀ c ∈ other, Text.isWordPart c = true)
    (hafter : ∀ c ∈ after.head?, Text.isWordPart c = false)
    (hrest : ∀ c ∈ rest.head?, Text.isWordPart c = false) (h : word ++ after = other ++ rest) :
    word = other := by
  rw [← Lexeme.takeWhile_append_stop hword hafter, h, Lexeme.takeWhile_append_stop hother hrest]

/-- Whether a word can stand in lexemes of a kind without being read as a name. -/
def LexemeKind.hidesWords : LexemeKind → Bool
  | comment | number | string _ | stray | broken _ => true
  | _ => false

namespace Lexeme

theorem isWordPart_of_isGap {c : Char} (h : isGap c = true) : Text.isWordPart c = false := by
  simp only [isGap, Bool.or_eq_true, beq_iff_eq] at h
  rcases h with (rfl | rfl) | rfl
  · decide
  · decide
  · decide

/-- A lexeme that holds the beginning of a whole word is just that word, or words can stand in it. -/
theorem Shape.name_or_hides {lenient : Bool} {p : Position} {kind : LexemeKind}
    {lead word after middle rest : List Char} {c : Char}
    (h : Shape lenient p kind (lead ++ c :: middle) rest)
    (hwhole : word ++ after = c :: middle ++ rest)
    (hword : ∀ d ∈ word, Text.isWordPart d = true) (hc : Text.isWordPart c = true)
    (hstarts : ∀ d ∈ lead.getLast?, Text.isWordPart d = false)
    (hends : ∀ d ∈ after.head?, Text.isWordPart d = false) :
    kind = .name ∧ lead = [] ∧ word = c :: middle ∨ kind.hidesWords = true := by
  generalize htext : lead ++ c :: middle = text at h
  have hmem : c ∈ text := by simp [← htext]
  have hnot (hnone : ∀ d ∈ text, Text.isWordPart d = false) : False := by
    rw [hnone c hmem] at hc
    cases hc
  cases h with
  | @blank d tail _ hd htail =>
      refine (hnot fun e he => ?_).elim
      rcases List.mem_cons.1 he with rfl | he
      · exact isWordPart_of_isGap hd
      · exact isWordPart_of_isGap (htail e he)
  | lineFeed => exact (hnot (List.forall_mem_singleton.2 (by decide))).elim
  | carriageReturn => exact (hnot (List.forall_mem_singleton.2 (by decide))).elim
  | carriageReturnLineFeed =>
      refine (hnot (List.forall_mem_cons.2 ⟨by decide, ?_⟩)).elim
      exact List.forall_mem_singleton.2 (by decide)
  | continuation heol =>
      refine (hnot (List.forall_mem_cons.2 ⟨by decide, ?_⟩)).elim
      simp only [List.mem_cons, List.not_mem_nil, or_false] at heol
      rcases heol with rfl | rfl | rfl
      · exact List.forall_mem_singleton.2 (by decide)
      · exact List.forall_mem_singleton.2 (by decide)
      · exact List.forall_mem_cons.2 ⟨by decide, List.forall_mem_singleton.2 (by decide)⟩
  | @name d tail _ hd htail hafter =>
      have hparts : ∀ e ∈ d :: tail, Text.isWordPart e = true := by
        simp only [List.forall_mem_cons]
        exact ⟨Text.isWordPart_of_isWordStart hd, htail⟩
      have hlead : lead = [] := by
        by_contra hne
        have hlast := List.getLast?_eq_some_getLast hne
        have hpart := hparts (lead.getLast hne) (by simp [← htext])
        rw [hstarts _ hlast] at hpart
        cases hpart
      subst hlead
      rw [List.nil_append] at htext
      rw [htext] at hwhole ⊢
      exact .inl ⟨rfl, rfl, eq_of_append_eq_append hword hparts hends hafter hwhole⟩
  | operator hoperator => exact (hnot (isWordPart_of_mem_operators _ hoperator)).elim
  | comment | number | string | stray | broken => exact .inr rfl

theorem exists_cut {lexemes : List Lexeme} {before rest : List Char} {c : Char}
    (h : lexemes.flatMap Lexeme.text = before ++ c :: rest) :
    ∃ earlier l later lead middle, lexemes = earlier ++ l :: later ∧
      before = earlier.flatMap Lexeme.text ++ lead ∧ l.text = lead ++ c :: middle ∧
      rest = middle ++ later.flatMap Lexeme.text := by
  induction lexemes generalizing before with
  | nil => simp at h
  | cons l lexemes ih =>
      rw [List.flatMap_cons] at h
      rcases List.append_eq_append_iff.1 h with ⟨more, hbefore, hrest⟩ | ⟨middle, htext, hrest⟩
      · obtain ⟨earlier, m, later, lead, middle, rfl, rfl, htext, rfl⟩ := ih hrest
        exact ⟨l :: earlier, m, later, lead, middle, rfl, by simp [hbefore], htext, rfl⟩
      · cases middle with
        | nil =>
            have hlater : lexemes.flatMap Lexeme.text = [] ++ c :: rest := hrest.symm
            obtain ⟨earlier, m, later, lead, middle, rfl, hlead, hm, rfl⟩ := ih hlater
            refine ⟨l :: earlier, m, later, lead, middle, rfl, ?_, hm, rfl⟩
            rw [List.flatMap_cons, List.append_assoc, ← hlead, htext, List.append_nil, List.append_nil]
        | cons d middle =>
            cases hrest
            exact ⟨[], l, lexemes, before, middle, rfl, rfl, htext, rfl⟩

/-- A whole word of a text is read as a name, or it begins inside a lexeme that words can stand in. -/
theorem Lexed.name_or_hidden {lenient : Bool} {p : Position} {word before after text : List Char}
    {lexemes : List Lexeme} (h : Lexed lenient p text lexemes)
    (hstands : StandsWhole word before after text) (hne : word ≠ [])
    (hword : ∀ d ∈ word, Text.isWordPart d = true) :
    ∃ (earlier : List Lexeme) (l : Lexeme) (later : List Lexeme) (lead : List Char) (c : Char)
      (middle : List Char), lexemes = earlier ++ l :: later ∧
      before = earlier.flatMap Lexeme.text ++ lead ∧ l.text = lead ++ c :: middle ∧
      word.head? = some c ∧
      (l.kind = .name ∧ lead = [] ∧ l.text = word ∨ l.kind.hidesWords = true) := by
  obtain ⟨htext, hstarts, hends⟩ := hstands
  obtain ⟨c, tail, rfl⟩ := List.exists_cons_of_ne_nil hne
  rw [h.text_eq, List.append_assoc] at htext
  obtain ⟨earlier, l, later, lead, middle, rfl, rfl, hl, hrest⟩ := exists_cut htext
  obtain ⟨-, -, hshape⟩ := h.shape_at
  rw [hl] at hshape
  have hstarts' : ∀ d ∈ lead.getLast?, Text.isWordPart d = false := by
    intro d hd
    refine hstarts d ?_
    rw [List.getLast?_append, Option.mem_def.1 hd]
    rfl
  refine ⟨earlier, l, later, lead, c, middle, rfl, rfl, hl, rfl, ?_⟩
  rcases hshape.name_or_hides (congrArg (c :: ·) hrest) hword
    (hword c List.mem_cons_self) hstarts' hends with ⟨hkind, rfl, hsame⟩ | hhides
  · exact .inl ⟨hkind, rfl, by rw [hl, hsame, List.nil_append]⟩
  · exact .inr hhides

theorem classify_stray {lenient : Bool} {p : Position} {c : Char} {rest : List Char} :
    (classify lenient p c rest).1 = .stray → Text.isWordStart c = false := by
  have hstring (formatted : Bool) (p : Position) (quote : Char) (text : List Char) :
      (stringKind quote formatted p text).1 ≠ .stray := by
    rcases stringKind_cases quote formatted p text with ⟨_, hkind, -⟩ | ⟨_, hkind, -⟩
    · simp [hkind]
    · simp [hkind]
  by_cases hslash : c = '\\'
  · intro _
    subst hslash
    decide
  cases hstart : Text.isWordStart c with
  | false => simp
  | true =>
      unfold classify
      simp only [hslash, hstart, if_true, if_false]
      repeat' split
      all_goals simp [hstring]

theorem isWordStart_of_stray {lenient : Bool} {p : Position} {text : List Char} :
    ∀ l ∈ split lenient p [] text, l.kind = .stray → ∀ c ∈ l.text, Text.isWordStart c = false := by
  refine forall_mem_split fun p c rest _ hkind d hd => ?_
  have hfits := classify_fits lenient p c rest
  unfold Fits at hfits
  dsimp only at hkind hd
  rw [hkind] at hfits
  generalize htext : c :: rest.take (classify lenient p c rest).2 = text at hfits hd
  cases hfits with
  | stray =>
      obtain ⟨rfl, -⟩ := List.cons.inj htext
      rw [List.mem_singleton.1 hd]
      exact classify_stray hkind

theorem Lexed.kind_eq_number {p : Position} {text : List Char} {lexemes : List Lexeme}
    (h : Lexed false p text lexemes) (hplain : IsPlain text) {l : Lexeme} (hl : l ∈ lexemes)
    (hintact : ∀ problem, l.kind ≠ .broken problem) (hhides : l.kind.hidesWords = true) :
    l.kind = .number := by
  obtain ⟨before, after, rfl, -, hshape⟩ := h.shape_of_mem hl
  have hown : IsPlain l.text := hplain.of_append_left.of_append_right
  generalize l.kind = kind, l.text = text at hshape hintact hhides hown
  cases hshape with
  | comment => exact absurd List.mem_cons_self hown.no_hash
  | number => rfl
  | @string _ _ quote _ _ _ hquote =>
      have hnone := hown.no_quote quote (by simp)
      rw [hquote] at hnone
      cases hnone
  | stray hlenient => cases hlenient
  | broken => exact absurd rfl (hintact _)
  | _ => cases hhides

/-- A whole word of a plain text is a name, or it begins inside a number. -/
theorem Lexed.name_or_in_number {p : Position} {word before after text : List Char}
    {lexemes : List Lexeme} (h : Lexed false p text lexemes)
    (hkinds : ∀ l ∈ lexemes, ∀ problem, l.kind ≠ .broken problem) (hplain : IsPlain text)
    (hstands : StandsWhole word before after text) (hne : word ≠ [])
    (hword : ∀ d ∈ word, Text.isWordPart d = true) :
    (∃ l ∈ lexemes, l.kind = .name ∧ l.text = word ∧ l.position = p.after before) ∨
      ∃ l ∈ lexemes, l.kind = .number ∧ ∃ lead rest, l.text = lead ++ rest ∧ rest ≠ [] ∧
        l.position.after lead = p.after before := by
  obtain ⟨earlier, l, later, lead, c, middle, rfl, rfl, hl, -, hkind⟩ :=
    h.name_or_hidden hstands hne hword
  obtain ⟨-, hposition, -⟩ := h.shape_at
  have hmem : l ∈ earlier ++ l :: later := by simp
  rw [Position.after_append, ← hposition]
  rcases hkind with ⟨hname, rfl, htext⟩ | hhides
  · exact .inl ⟨l, hmem, hname, htext, rfl⟩
  · exact .inr ⟨l, hmem, h.kind_eq_number hplain hmem (hkinds l hmem) hhides, lead, c :: middle, hl,
      by simp, rfl⟩

end Lexeme

end ScriptSandbox
