import ScriptSandbox.Proofs.Source.Headers
import ScriptSandbox.Proofs.Source.LayoutRuns

/-!
Brackets in order. The open brackets of a state are those that the tokens before it have opened and not
closed, innermost first, and inside of them neither a line ends nor the indentation counts. So in a
script every bracket is closed by its own counterpart, and layout tokens stand outside of brackets.
-/

namespace ScriptSandbox

/-- The brackets of the language with their counterparts. -/
def bracketPairs : List (String × String) :=
  [("(", ")"), ("[", "]"), ("\x7b", "\x7d")]

/-- A bracket is closed by its counterpart. -/
def Token.ClosedBy (opening closing : Token) : Prop :=
  ∃ pair ∈ bracketPairs, opening.isOperator pair.1 = true ∧ closing.isOperator pair.2 = true

/-- Tokens in which every bracket is closed by its counterpart, one pair inside another. -/
inductive Nested : List Token → Prop
  | nil : Nested []
  | other {t rest} : t.opensBracket = false → t.closesBracket = false → Nested rest →
      Nested (t :: rest)
  | bracketed {opening inner closing rest} : opening.ClosedBy closing → Nested inner → Nested rest →
      Nested (opening :: inner ++ closing :: rest)

theorem Nested.append {first second : List Token} (hfirst : Nested first) (hsecond : Nested second) :
    Nested (first ++ second) := by
  induction hfirst with
  | nil => exact hsecond
  | other hopens hcloses _ ih => exact .other hopens hcloses ih
  | @bracketed opening inner closing rest hclosed hinner _ _ ih =>
      rw [List.append_assoc, List.cons_append]
      exact .bracketed hclosed hinner ih

theorem nested_of_plain {tokens : List Token}
    (h : ∀ t ∈ tokens, t.opensBracket = false ∧ t.closesBracket = false) : Nested tokens := by
  induction tokens with
  | nil => exact .nil
  | cons t rest ih =>
      obtain ⟨ht, hrest⟩ := List.forall_mem_cons.1 h
      exact .other ht.1 ht.2 (ih hrest)

namespace Token

variable {t : Token}

theorem text_eq_singleton_iff {c : Char} :
    t.text = String.singleton c ↔ t.text.toList = [c] := by
  simp [← String.toList_inj]

theorem isOperator_singleton_iff {c : Char} :
    t.isOperator (String.singleton c) = true ↔ t.kind = .operator ∧ t.text.toList = [c] := by
  simp [isOperator, text_eq_singleton_iff]

theorem opensBracket_iff_char : t.opensBracket = true ↔
    t.kind = .operator ∧ ∃ c, t.text.toList = [c] ∧ Lexeme.isOpening c = true := by
  have hparen : t.text = "(" ↔ t.text.toList = ['('] :=
    text_eq_singleton_iff (c := '(')
  have hbracket : t.text = "[" ↔ t.text.toList = ['['] :=
    text_eq_singleton_iff (c := '[')
  have hbrace : t.text = "\x7b" ↔ t.text.toList = ['\x7b'] :=
    text_eq_singleton_iff (c := '\x7b')
  rw [opensBracket_iff, hparen, hbracket, hbrace]
  refine and_congr_right fun _ => ?_
  simp only [Lexeme.isOpening, Bool.or_eq_true, beq_iff_eq]
  grind

theorem closesBracket_iff_char : t.closesBracket = true ↔
    t.kind = .operator ∧ ∃ c, t.text.toList = [c] ∧ Lexeme.isClosing c = true := by
  have hparen : t.text = ")" ↔ t.text.toList = [')'] :=
    text_eq_singleton_iff (c := ')')
  have hbracket : t.text = "]" ↔ t.text.toList = [']'] :=
    text_eq_singleton_iff (c := ']')
  have hbrace : t.text = "\x7d" ↔ t.text.toList = ['\x7d'] :=
    text_eq_singleton_iff (c := '\x7d')
  rw [closesBracket_iff, hparen, hbracket, hbrace]
  refine and_congr_right fun _ => ?_
  simp only [Lexeme.isClosing, Bool.or_eq_true, beq_iff_eq]
  grind

end Token

theorem Token.kind_ne_operator_of_isLayout {t : Token} (h : t.isLayout = true) :
    t.kind ≠ .operator := by
  rcases isLayout_iff.1 h with hkind | hkind | hkind
  · simp [hkind]
  · simp [hkind]
  · simp [hkind]

theorem nested_of_isLayout {tokens : List Token} (h : ∀ t ∈ tokens, t.isLayout = true) :
    Nested tokens :=
  nested_of_plain fun t ht =>
    Token.not_bracket_of_kind (Token.kind_ne_operator_of_isLayout (h t ht))

/-- Behind some tokens these brackets are open, innermost first. -/
inductive Pending : List OpenBracket → List Token → Prop
  | nested {tokens} : Nested tokens → Pending [] tokens
  | opened {b outer tokens opening inner} : Pending outer tokens →
      Lexeme.isOpening b.opening = true → opening.isOperator (String.singleton b.opening) = true →
      Nested inner → Pending (b :: outer) (tokens ++ opening :: inner)

namespace Pending

variable {brackets outer : List OpenBracket} {tokens more : List Token} {b : OpenBracket} {t : Token}

theorem nested_of_nil (h : Pending [] tokens) : Nested tokens := by
  cases h with
  | nested h => exact h

theorem append (h : Pending brackets tokens) (hmore : Nested more) :
    Pending brackets (tokens ++ more) := by
  cases h with
  | nested h => exact .nested (h.append hmore)
  | opened houter hopening ht hinner =>
      rw [List.append_assoc, List.cons_append]
      exact .opened houter hopening ht (hinner.append hmore)

theorem close (h : Pending (b :: outer) tokens)
    (ht : t.isOperator (String.singleton (Layout.closing b.opening)) = true) :
    Pending outer (tokens ++ [t]) := by
  cases h with
  | @opened _ _ before opening inner houter hopening hopens hinner =>
      have hclosed : opening.ClosedBy t := by
        simp only [Lexeme.isOpening, Bool.or_eq_true, beq_iff_eq, or_assoc] at hopening
        rcases hopening with hopening | hopening | hopening
        · rw [hopening] at hopens ht
          exact ⟨("(", ")"), by decide, hopens, ht⟩
        · rw [hopening] at hopens ht
          exact ⟨("[", "]"), by decide, hopens, ht⟩
        · rw [hopening] at hopens ht
          exact ⟨("\x7b", "\x7d"), by decide, hopens, ht⟩
      rw [List.append_assoc]
      exact houter.append (.bracketed hclosed hinner .nil)

end Pending

/-- Where a token stands that is not written, no bracket is open. -/
def LayoutOutside (tokens : List Token) : Prop :=
  ∀ before t after, tokens = before ++ t :: after → t.isWritten = false → Nested before

namespace LayoutOutside

variable {tokens more : List Token} {t : Token}

theorem nil : LayoutOutside [] := by
  intro before t after h
  simp at h

theorem concat (h : LayoutOutside tokens) (ht : t.isWritten = false → Nested tokens) :
    LayoutOutside (tokens ++ [t]) := by
  intro before u after heq hu
  rcases cut_of_concat heq with ⟨rfl, rfl⟩ | ⟨rest, hrest, -⟩
  · exact ht hu
  · exact h before u rest hrest hu

theorem append_layout (h : LayoutOutside tokens) (htokens : Nested tokens)
    (hmore : ∀ t ∈ more, t.isLayout = true) : LayoutOutside (tokens ++ more) := by
  induction more using List.reverseRecOn with
  | nil => rwa [List.append_nil]
  | append_singleton more t ih =>
      have hlead : ∀ u ∈ more, u.isLayout = true := fun u hu => hmore u (by simp [hu])
      rw [← List.append_assoc]
      exact (ih hlead).concat fun _ => htokens.append (nested_of_isLayout hlead)

end LayoutOutside

namespace Layout

/-- A bracket is opened, or the innermost one is closed by its counterpart, or the token is none. -/
theorem turnBracket_cases {s s' : Layout} {t : Token} (hkind : t.kind = .operator)
    (h : s.turnBracket t = .ok s') :
    (∃ c, Lexeme.isOpening c = true ∧ t.isOperator (String.singleton c) = true ∧
      s'.brackets = ⟨c, t.position⟩ :: s.brackets) ∨
    (∃ b outer, s.brackets = b :: outer ∧ s'.brackets = outer ∧
      t.isOperator (String.singleton (closing b.opening)) = true) ∨
    t.opensBracket = false ∧ t.closesBracket = false ∧ s'.brackets = s.brackets := by
  simp only [← Bool.not_eq_true, Token.opensBracket_iff_char, Token.closesBracket_iff_char]
  unfold turnBracket at h
  split at h
  · rename_i c hc
    have hsingle := Token.isOperator_singleton_iff.2 ⟨hkind, hc⟩
    split at h
    · rename_i hopening
      cases h
      exact .inl ⟨c, hopening, hsingle, rfl⟩
    · rename_i hopening
      split at h
      · split at h
        · cases h
        · rename_i b outer hbrackets
          split at h
          · rename_i hclosing
            cases h
            exact .inr (.inl ⟨b, outer, hbrackets, rfl, hclosing ▸ hsingle⟩)
          · cases h
      · rename_i hclosing
        cases h
        refine .inr (.inr ⟨?_, ?_, rfl⟩)
        · rintro ⟨-, d, hd, hopens⟩
          cases hc.symm.trans hd
          exact hopening hopens
        · rintro ⟨-, d, hd, hcloses⟩
          cases hc.symm.trans hd
          exact hclosing hcloses
  · rename_i hlong
    cases h
    refine .inr (.inr ⟨?_, ?_, rfl⟩)
    · rintro ⟨-, c, hc, -⟩
      exact hlong c hc
    · rintro ⟨-, c, hc, -⟩
      exact hlong c hc

/-- What a state knows of the brackets before it. -/
structure Encloses (before : List Token) (s : Layout) : Prop where
  pending : Pending s.brackets before
  /-- No line begins inside of brackets. -/
  line_outside : s.lineStart.isSome = true → s.brackets = []
  layout_outside : LayoutOutside before

theorem encloses_initial : Encloses [] {} :=
  ⟨.nested .nil, fun _ => rfl, .nil⟩

namespace Encloses

variable {before more tokens : List Token} {s s' : Layout} {p : Position} {t : Token} {l : Lexeme}

/-- A line that begins is indented outside of brackets. -/
theorem settle (hs : Encloses before s) (h : s.settle p = .ok (more, s')) :
    Encloses (before ++ more) s' := by
  obtain ⟨hstarted, hbrackets⟩ := settle_keeps h
  cases hstart : s.lineStart with
  | none =>
      rw [Layout.settle, hstart] at h
      cases h
      rwa [List.append_nil]
  | some width =>
      have hnone := hs.line_outside (by rw [hstart]; rfl)
      have hlayout := isLayout_of_settle h
      have hnested : Nested before := by
        have hpending := hs.pending
        rw [hnone] at hpending
        exact hpending.nested_of_nil
      refine ⟨?_, by simp [hstarted], hs.layout_outside.append_layout hnested hlayout⟩
      rw [hbrackets]
      exact hs.pending.append (nested_of_isLayout hlayout)

/-- A line ends outside of brackets only. -/
theorem breakLine (hs : Encloses before s) :
    Encloses (before ++ (s.breakLine p).1) (s.breakLine p).2 := by
  by_cases hbrackets : s.brackets = []
  · have hnested : Nested before := by
      have hpending := hs.pending
      rw [hbrackets] at hpending
      exact hpending.nested_of_nil
    have hlayout := isLayout_of_breakLine (s := s) (p := p)
    have hsame : (s.breakLine p).2.brackets = s.brackets := by
      rcases breakLine_cases s p with ⟨heq, -⟩ | ⟨heq, -⟩ | heq
      · rw [heq]
      · rw [heq]
      · rw [heq]
    refine ⟨?_, fun _ => hsame.trans hbrackets, hs.layout_outside.append_layout hnested hlayout⟩
    rw [hsame]
    exact hs.pending.append (nested_of_isLayout hlayout)
  · have hstart : s.lineStart.isSome = false := by
      rw [Bool.eq_false_iff]
      exact fun h => hbrackets (hs.line_outside h)
    have hsame : s.breakLine p = ([], s) := by
      simp [Layout.breakLine, hstart, hbrackets]
    rwa [hsame, List.append_nil]

theorem take (hs : Encloses before s) (hwritten : t.isWritten = true)
    (h : s.take t = .ok (more, s')) : Encloses (before ++ more) s' := by
  obtain ⟨layout, s₁, s₂, hsettle, hbracket, rfl, rfl⟩ := take_eq_ok h
  have hs₁ := hs.settle hsettle
  have hstart := (settle_keeps hsettle).1
  rw [← List.append_assoc]
  have houtside : LayoutOutside (before ++ layout ++ [t]) :=
    hs₁.layout_outside.concat fun hnot => by rw [hwritten] at hnot; cases hnot
  split at hbracket
  · rename_i hkind
    refine ⟨?_, by simp [(turnBracket_eq_ok hbracket).2, hstart], houtside⟩
    rcases turnBracket_cases hkind hbracket with
      ⟨c, hopening, hopens, heq⟩ | ⟨b, outer, hopen, heq, hcloses⟩ | ⟨hopens, hcloses, heq⟩
    · rw [heq]
      exact .opened hs₁.pending hopening hopens .nil
    · rw [heq]
      exact Pending.close (hopen ▸ hs₁.pending) hcloses
    · rw [heq]
      exact hs₁.pending.append (.other hopens hcloses .nil)
  · rename_i hkind
    obtain ⟨hopens, hcloses⟩ := Token.not_bracket_of_kind hkind
    rw [hbracket]
    exact ⟨hs₁.pending.append (.other hopens hcloses .nil), by simp [hstart], houtside⟩

theorem isKept : IsKept Encloses where
  measure hs hstart := ⟨hs.pending, fun h => hs.line_outside (hstart h), hs.layout_outside⟩
  breakLine := breakLine
  settle := settle
  take := take

theorem runs {lexemes : List Lexeme} (hs : Encloses before s) (h : Runs s lexemes tokens s') :
    Encloses (before ++ tokens) s' :=
  isKept.runs hs h

end Encloses

end Layout

/-- In a script every bracket is closed by its counterpart, one pair inside another, and no line ends
and no block begins or ends inside of brackets. -/
theorem nested_of_tokenize {source : String} {tokens : List Token}
    (h : tokenize source = .ok tokens) :
    Nested tokens ∧ ∀ before t after, tokens = before ++ t :: after →
      t.kind = .newline ∨ t.kind = .indent ∨ t.kind = .dedent ∨ t.kind = .endMarker →
        Nested before := by
  obtain ⟨body, s, closing, hruns, hfinish, heq⟩ := Layout.run_eq_ok.1 h
  rw [List.reverse_nil, List.nil_append] at heq
  have hs : s.Encloses body := by
    simpa using Layout.encloses_initial.runs hruns
  have hbody : Nested body := by
    have hpending := hs.pending
    rw [(Layout.finish_closing hfinish).1] at hpending
    exact hpending.nested_of_nil
  obtain ⟨layout, rfl, hlayout⟩ := Layout.finish_eq_ok hfinish
  have hinner : Nested (body ++ layout) := hbody.append (nested_of_isLayout hlayout)
  rw [← List.append_assoc] at heq
  subst heq
  have houtside := (hs.layout_outside.append_layout hbody hlayout).concat
    (t := ⟨.endMarker, "", Position.start.after source.toList⟩) fun _ => hinner
  refine ⟨hinner.append (.other rfl rfl .nil), fun before t after hcut hkind => ?_⟩
  refine houtside before t after hcut ?_
  rcases hkind with hkind | hkind | hkind | hkind
  · simp [Token.isWritten, hkind]
  · simp [Token.isWritten, hkind]
  · simp [Token.isWritten, hkind]
  · simp [Token.isWritten, hkind]

theorem nested_over_lines :
    ∃ tokens, tokenize "if f([\n\x7b'(': x\x7d]): # )\n  y\n" = .ok tokens ∧ Nested tokens ∧
      ∀ before t after, tokens = before ++ t :: after →
        t.kind = .newline ∨ t.kind = .indent ∨ t.kind = .dedent ∨ t.kind = .endMarker →
          Nested before := by
  obtain ⟨tokens, htokenize⟩ : ∃ tokens, tokenize "if f([\n\x7b'(': x\x7d]): # )\n  y\n" = .ok tokens :=
    exists_of_isOk (by decide +kernel)
  exact ⟨tokens, htokenize, nested_of_tokenize htokenize⟩

end ScriptSandbox
