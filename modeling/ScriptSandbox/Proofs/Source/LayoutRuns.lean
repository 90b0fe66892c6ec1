import Mathlib.Data.List.Chain
import ScriptSandbox.Proofs.Source.TokenStream

/-!
The layout of scripts as runs from state to state. What a state knows of the tokens before it is kept
by every step: how deep in indented blocks they end, and that a line has ended where the next one
begins. So a change of indentation always stands at the beginning of a line.
-/

namespace ScriptSandbox

namespace Token

def shiftsDepth (t : Token) : Bool :=
  t.kind == .indent || t.kind == .dedent

/-- How deep in indented blocks the tokens behind `t` stand, when those before it end `depth`
deep. -/
def depthAfter (depth : Nat) (t : Token) : Nat :=
  match t.kind with
  | .indent => depth + 1
  | .dedent => depth - 1
  | _ => depth

theorem isLayout_of_shiftsDepth {t : Token} (h : t.shiftsDepth = true) : t.isLayout = true := by
  simp only [shiftsDepth, Bool.or_eq_true, beq_iff_eq] at h
  exact isLayout_iff.2 (.inr h)

theorem shiftsDepth_of_isWritten {t : Token} (h : t.isWritten = true) : t.shiftsDepth = false := by
  rw [Bool.eq_false_iff]
  intro hshifts
  rw [isWritten_eq_false (isLayout_of_shiftsDepth hshifts)] at h
  cases h

theorem depthAfter_of_shiftsDepth {t : Token} (h : t.shiftsDepth = false) (depth : Nat) :
    t.depthAfter depth = depth := by
  unfold shiftsDepth at h
  unfold depthAfter
  cases hkind : t.kind <;> simp_all

end Token

/-- A place in a list with another element behind it is the last place, or a place in the list. -/
theorem cut_of_concat {α : Type} {items before after : List α} {a b : α}
    (h : items ++ [a] = before ++ b :: after) :
    before = items ∧ b = a ∨ ∃ rest, items = before ++ b :: rest ∧ after = rest ++ [a] := by
  cases after using List.reverseRecOn with
  | nil =>
      obtain ⟨rfl, hlast⟩ := List.append_inj' h rfl
      cases hlast
      exact .inl ⟨rfl, rfl⟩
  | append_singleton rest last =>
      rw [← List.cons_append, ← List.append_assoc] at h
      obtain ⟨rfl, hlast⟩ := List.append_inj' h rfl
      cases hlast
      exact .inr ⟨rest, rfl, rfl⟩

/-- Only at the beginning or behind a layout token does the indentation change. -/
def Tidy (tokens : List Token) : Prop :=
  tokens.IsChain fun t u => u.shiftsDepth = true → t.isLayout = true

theorem tidy_append {first second : List Token} (hfirst : Tidy first) (hsecond : Tidy second)
    (hlast : ∀ t ∈ second.head?, t.shiftsDepth = true → ∀ u ∈ first.getLast?, u.isLayout = true) :
    Tidy (first ++ second) :=
  List.isChain_append.2 ⟨hfirst, hsecond, fun u hu t ht hshifts => hlast t ht hshifts u hu⟩

theorem tidy_of_isLayout {tokens : List Token} (h : ∀ t ∈ tokens, t.isLayout = true) :
    Tidy tokens := by
  induction tokens with
  | nil => exact .nil
  | cons t rest ih =>
      obtain ⟨ht, hrest⟩ := List.forall_mem_cons.1 h
      exact List.isChain_cons.2 ⟨fun _ _ _ => ht, ih hrest⟩

theorem Tidy.isLayout_of_line {first : Token} {rest : List Token} (h : Tidy (first :: rest))
    (hfirst : first.isLayout = false) (hrest : ∀ t ∈ rest, t.kind ≠ .newline) :
    ∀ t ∈ rest, t.isLayout = false := by
  induction rest generalizing first with
  | nil => simp
  | cons u rest ih =>
      obtain ⟨hlink, htail⟩ := List.isChain_cons.1 h
      obtain ⟨hu, hrest⟩ := List.forall_mem_cons.1 hrest
      have hlayout : u.isLayout = false := by
        rw [Bool.eq_false_iff]
        intro hlayout
        have hshifts : u.shiftsDepth = true := by
          simpa [Token.shiftsDepth] using (Token.isLayout_iff.1 hlayout).resolve_left hu
        rw [hlink u rfl hshifts] at hfirst
        cases hfirst
      exact List.forall_mem_cons.2 ⟨hlayout, ih htail hlayout hrest⟩

theorem foldl_depthAfter_of_shiftsDepth {tokens : List Token}
    (h : ∀ t ∈ tokens, t.shiftsDepth = false) (depth : Nat) :
    tokens.foldl Token.depthAfter depth = depth := by
  induction tokens with
  | nil => rfl
  | cons t rest ih =>
      obtain ⟨ht, hrest⟩ := List.forall_mem_cons.1 h
      rw [List.foldl_cons, Token.depthAfter_of_shiftsDepth ht, ih hrest]

theorem foldl_depthAfter_of_dedent {tokens : List Token} (h : ∀ t ∈ tokens, t.kind = .dedent)
    (depth : Nat) : tokens.foldl Token.depthAfter depth = depth - tokens.length := by
  induction tokens generalizing depth with
  | nil => rfl
  | cons t rest ih =>
      obtain ⟨ht, hrest⟩ := List.forall_mem_cons.1 h
      rw [List.foldl_cons, ih hrest, Token.depthAfter, ht, List.length_cons]
      dsimp only
      omega

namespace Layout

/-! ### Steps -/

/-- A line break gives no token inside of brackets and where a line has ended already. -/
theorem breakLine_cases (s : Layout) (p : Position) :
    (s.breakLine p = ([], s) ∧ s.lineStart = none ∧ s.brackets ≠ []) ∨
    (s.breakLine p = ([], { s with lineStart := some 0 }) ∧ (s.lineStart.isSome = true ∨
      ∀ kind ∈ s.newest, kind = .newline ∨ kind = .indent ∨ kind = .dedent)) ∨
    s.breakLine p = ([⟨.newline, "\n", p⟩],
      { s with lineStart := some 0, newest := some .newline }) := by
  unfold breakLine
  split
  · rename_i hstart
    exact .inr (.inl ⟨rfl, .inl hstart⟩)
  · rename_i hstart
    split
    · split
      · rename_i hnewest
        exact .inr (.inl ⟨rfl, .inr (by simp [hnewest])⟩)
      · rename_i hnewest
        exact .inr (.inl ⟨rfl, .inr (by simp [hnewest])⟩)
      · rename_i hnewest
        exact .inr (.inl ⟨rfl, .inr (by simp [hnewest])⟩)
      · rename_i hnewest
        exact .inr (.inl ⟨rfl, .inr (by simp [hnewest])⟩)
      · exact .inr (.inr rfl)
    · rename_i hbrackets
      exact .inl ⟨rfl, by simpa using hstart, by simpa using hbrackets⟩

theorem settle_keeps {s s' : Layout} {p : Position} {tokens : List Token}
    (h : s.settle p = .ok (tokens, s')) : s'.lineStart = none ∧ s'.brackets = s.brackets := by
  cases settles_of_settle h with
  | going hstart => exact ⟨hstart, rfl⟩
  | deeper => exact ⟨rfl, rfl⟩
  | closing => exact ⟨rfl, rfl⟩

theorem turnBracket_eq_ok {s s' : Layout} {t : Token} (h : s.turnBracket t = .ok s') :
    s'.indents = s.indents ∧ s'.lineStart = s.lineStart := by
  unfold turnBracket at h
  split at h
  · split at h
    · cases h
      exact ⟨rfl, rfl⟩
    · split at h
      · split at h
        · cases h
        · split at h
          · cases h
            exact ⟨rfl, rfl⟩
          · cases h
      · cases h
        exact ⟨rfl, rfl⟩
  · cases h
    exact ⟨rfl, rfl⟩

/-- What a state knows of the tokens before it. -/
structure Traces (before : List Token) (s : Layout) : Prop where
  newest_eq : s.newest = before.getLast?.map Token.kind
  line_ended : s.lineStart.isSome = true → ∀ t ∈ before.getLast?, t.isLayout = true
  tidy : Tidy before
  depth_eq : before.foldl Token.depthAfter 0 = s.indents.length
  indents_pos : ∀ width ∈ s.indents, 0 < width

theorem traces_initial : Traces [] {} :=
  ⟨rfl, by simp, .nil, rfl, by simp⟩

namespace Traces

variable {before more : List Token} {s s' : Layout} {p : Position} {t : Token} {l : Lexeme}

theorem kind_mem_newest (hs : Traces before s) (ht : t ∈ before.getLast?) : t.kind ∈ s.newest := by
  rw [hs.newest_eq, Option.mem_def.1 ht]
  rfl

theorem measure {lineStart : Option Nat} (hs : Traces before s)
    (hstart : lineStart.isSome = true → s.lineStart.isSome = true) :
    Traces before { s with lineStart } :=
  ⟨hs.newest_eq, fun h => hs.line_ended (hstart h), hs.tidy, hs.depth_eq, hs.indents_pos⟩

theorem settle (hs : Traces before s) (h : s.settle p = .ok (more, s')) :
    Traces (before ++ more) s' := by
  cases settles_of_settle h with
  | going => rwa [List.append_nil]
  | @deeper width hstart hdeeper =>
      refine ⟨by simp, by simp, ?_, ?_, ?_⟩
      · exact tidy_append hs.tidy (.singleton _) fun _ _ _ => hs.line_ended (by rw [hstart]; rfl)
      · simp [List.foldl_append, hs.depth_eq, Token.depthAfter]
      · exact List.forall_mem_cons.2 ⟨Nat.lt_of_le_of_lt (Nat.zero_le _) hdeeper, hs.indents_pos⟩
  | @closing width closed kept hstart hindents =>
      -- Each dedent closes one of the indentations that are left out.
      have hdedents : ∀ t ∈ closed.map fun _ => (⟨.dedent, "", p⟩ : Token), t.kind = .dedent := by
        intro t ht
        obtain ⟨_, -, rfl⟩ := List.mem_map.1 ht
        rfl
      refine ⟨?_, by simp, ?_, ?_, ?_⟩
      · cases closed using List.reverseRecOn with
        | nil => simpa using hs.newest_eq
        | append_singleton closed width => simp
      · exact tidy_append hs.tidy (tidy_of_isLayout (isLayout_of_settle h)) fun _ _ _ =>
          hs.line_ended (by rw [hstart]; rfl)
      · rw [List.foldl_append, hs.depth_eq, foldl_depthAfter_of_dedent hdedents, hindents]
        simp
      · exact fun w hw => hs.indents_pos w (by simp [hindents, hw])

theorem breakLine (hs : Traces before s) :
    Traces (before ++ (s.breakLine p).1) (s.breakLine p).2 := by
  rcases breakLine_cases s p with ⟨heq, -, -⟩ | ⟨heq, hended⟩ | heq
  · simpa [heq] using hs
  · rw [heq, List.append_nil]
    refine ⟨hs.newest_eq, fun _ t ht => ?_, hs.tidy, hs.depth_eq, hs.indents_pos⟩
    rcases hended with hstart | hnewest
    · exact hs.line_ended hstart t ht
    · exact Token.isLayout_iff.2 (hnewest t.kind (hs.kind_mem_newest ht))
  · rw [heq]
    refine ⟨by simp, by simp [Token.isLayout], ?_, ?_, hs.indents_pos⟩
    · exact tidy_append hs.tidy (.singleton _) (by simp [Token.shiftsDepth])
    · simp [List.foldl_append, hs.depth_eq, Token.depthAfter]

/-- A written token comes behind the layout tokens of its line. -/
theorem take (hs : Traces before s) (hwritten : t.isWritten = true)
    (h : s.take t = .ok (more, s')) : Traces (before ++ more) s' := by
  obtain ⟨layout, s₁, s₂, hsettle, hbracket, rfl, rfl⟩ := take_eq_ok h
  have hs₁ := hs.settle hsettle
  have hsame : s₂.indents = s₁.indents ∧ s₂.lineStart = s₁.lineStart := by
    split at hbracket
    · exact turnBracket_eq_ok hbracket
    · rw [hbracket]
      exact ⟨rfl, rfl⟩
  have hshifts := Token.shiftsDepth_of_isWritten hwritten
  rw [← List.append_assoc]
  refine ⟨by simp, by simp [hsame.2, (settle_keeps hsettle).1], ?_, ?_, ?_⟩
  · exact tidy_append hs₁.tidy (.singleton _) (by simp [hshifts])
  · rw [List.foldl_append, hs₁.depth_eq, List.foldl_cons, List.foldl_nil,
      Token.depthAfter_of_shiftsDepth hshifts, hsame.1]
  · rw [hsame.1]
    exact hs₁.indents_pos

end Traces

/-! ### Runs -/

/-- Reading some lexemes one after another gives tokens and leads from one state to another. -/
inductive Runs : Layout → List Lexeme → List Token → Layout → Prop
  | nil {s} : Runs s [] [] s
  | cons {s l more s₁ rest tokens s₂} : s.step l = .ok (more, s₁) → Runs s₁ rest tokens s₂ →
      Runs s (l :: rest) (more ++ tokens) s₂

/-- What a state knows of the tokens before it, if every part of reading a lexeme keeps it. -/
structure IsKept (Knows : List Token → Layout → Prop) : Prop where
  measure : ∀ {before s} {lineStart : Option Nat}, Knows before s →
    (lineStart.isSome = true → s.lineStart.isSome = true) → Knows before { s with lineStart }
  breakLine : ∀ {before s p}, Knows before s →
    Knows (before ++ (s.breakLine p).1) (s.breakLine p).2
  settle : ∀ {before s p more s'}, Knows before s → s.settle p = .ok (more, s') →
    Knows (before ++ more) s'
  take : ∀ {before s t more s'}, Knows before s → t.isWritten = true → s.take t = .ok (more, s') →
    Knows (before ++ more) s'

namespace IsKept

variable {Knows : List Token → Layout → Prop} {before more tokens : List Token} {s s' : Layout}

theorem step (h : IsKept Knows) (hs : Knows before s) {l : Lexeme}
    (hstep : s.step l = .ok (more, s')) : Knows (before ++ more) s' := by
  cases steps_of_step hstep with
  | blank =>
      rw [List.append_nil]
      exact h.measure hs (by simp)
  | comment => rwa [List.append_nil]
  | lineBreak => exact h.breakLine hs
  | joined _ hsettle => exact h.settle hs hsettle
  | token htoken htake => exact h.take hs (Token.isWritten_of_mem_token? htoken) htake

theorem runs (h : IsKept Knows) (hs : Knows before s) {lexemes : List Lexeme}
    (hruns : Runs s lexemes tokens s') : Knows (before ++ tokens) s' := by
  induction hruns generalizing before with
  | nil => rwa [List.append_nil]
  | cons hstep _ ih =>
      rw [← List.append_assoc]
      exact ih (h.step hs hstep)

end IsKept

theorem Traces.isKept : IsKept Traces :=
  ⟨Traces.measure, Traces.breakLine, Traces.settle, Traces.take⟩

theorem Traces.runs {before tokens : List Token} {s s' : Layout} {lexemes : List Lexeme}
    (hs : Traces before s) (h : Runs s lexemes tokens s') : Traces (before ++ tokens) s' :=
  Traces.isKept.runs hs h

theorem Runs.append {s₁ s₂ s₃ : Layout} {first second : List Lexeme} {tokens more : List Token}
    (hfirst : Runs s₁ first tokens s₂) (hsecond : Runs s₂ second more s₃) :
    Runs s₁ (first ++ second) (tokens ++ more) s₃ := by
  induction hfirst with
  | nil => exact hsecond
  | cons hstep _ ih =>
      rw [List.append_assoc]
      exact .cons hstep (ih hsecond)

theorem Runs.exists_of_append {s s' : Layout} {first second : List Lexeme} {tokens : List Token}
    (h : Runs s (first ++ second) tokens s') : ∃ body s₁ more,
      Runs s first body s₁ ∧ Runs s₁ second more s' ∧ tokens = body ++ more := by
  induction first generalizing s tokens with
  | nil => exact ⟨[], s, tokens, .nil, h, rfl⟩
  | cons l first ih =>
      cases h with
      | @cons _ _ own _ _ _ _ hstep hrest =>
          obtain ⟨body, s₁, more, hfirst, hsecond, rfl⟩ := ih hrest
          exact ⟨own ++ body, s₁, more, .cons hstep hfirst, hsecond, by simp⟩

/-- The tokens of a script are those of its lexemes and those that end it. -/
theorem run_eq_ok {p : Position} {before tokens : List Token} {s : Layout}
    {lexemes : List Lexeme} :
    run p before s lexemes = .ok tokens ↔ ∃ body s' closing, Runs s lexemes body s' ∧
      s'.finish p = .ok closing ∧ tokens = before.reverse ++ body ++ closing := by
  induction lexemes generalizing before s with
  | nil =>
      rw [run, bind_eq_ok]
      constructor
      · rintro ⟨closing, hfinish, h⟩
        exact ⟨[], s, closing, .nil, hfinish, by simpa using (pure_eq_ok.1 h).symm⟩
      · rintro ⟨body, s', closing, hruns, hfinish, rfl⟩
        cases hruns
        exact ⟨closing, hfinish, by simp [pure, Except.pure]⟩
  | cons l rest ih =>
      rw [run, bind_eq_ok]
      constructor
      · rintro ⟨⟨more, s₁⟩, hstep, h⟩
        obtain ⟨body, s', closing, hruns, hfinish, rfl⟩ := ih.1 h
        exact ⟨more ++ body, s', closing, .cons hstep hruns, hfinish, by simp⟩
      · rintro ⟨body, s', closing, hruns, hfinish, rfl⟩
        cases hruns with
        | @cons _ _ more s₁ _ tokens _ hstep hruns =>
            exact ⟨(more, s₁), hstep, ih.2 ⟨tokens, s', closing, hruns, hfinish, by simp⟩⟩

theorem run_before (p : Position) (before : List Token) (s : Layout) (lexemes : List Lexeme) :
    run p before s lexemes = (run p [] s lexemes).map (before.reverse ++ ·) := by
  induction lexemes generalizing before s with
  | nil =>
      rw [run, run]
      cases s.finish p <;> rfl
  | cons l rest ih =>
      rw [run, run]
      cases s.step l with
      | error e => rfl
      | ok found =>
          change run p (found.1.reverse ++ before) found.2 rest =
            (run p (found.1.reverse ++ []) found.2 rest).map _
          rw [ih, ih (found.1.reverse ++ [])]
          cases run p [] found.2 rest <;> simp [Except.map]

theorem Runs.run_append {s s' : Layout} {lexemes : List Lexeme} {body : List Token}
    (h : Runs s lexemes body s') (p : Position) (more : List Lexeme) :
    run p [] s (lexemes ++ more) = (run p [] s' more).map (body ++ ·) := by
  induction h with
  | @nil s =>
      rw [List.nil_append]
      cases run p [] s more <;> rfl
  | @cons s l own s₁ rest tokens s₂ hstep _ ih =>
      rw [List.cons_append, run, hstep]
      change run p (own.reverse ++ []) s₁ (rest ++ more) = _
      rw [run_before, ih]
      cases run p [] s₂ more <;> simp [Except.map]

/-! ### Ends of lines -/

def isQuiet : Option TokenKind → Bool
  | none | some .newline | some .dedent => true
  | _ => false

theorem ne_indent_of_isQuiet {newest : Option TokenKind} (h : isQuiet newest = true) :
    newest ≠ some .indent := by
  rintro rfl
  cases h

theorem breakLine_eq (s : Layout) (p : Position) : s.breakLine p =
    if s.lineStart.isSome then ([], { s with lineStart := some 0 })
    else if s.brackets.isEmpty then
      if isQuiet s.newest || s.newest == some .indent then ([], { s with lineStart := some 0 })
      else ([⟨.newline, "\n", p⟩], { s with lineStart := some 0, newest := some .newline })
    else ([], s) := by
  unfold breakLine
  split
  · rfl
  · split
    · cases s.newest with
      | none => rfl
      | some kind => cases kind <;> rfl
    · rfl

theorem finish_eq {s : Layout} (h : s.brackets = []) (p : Position) : s.finish p =
    .ok ((if isQuiet s.newest then [] else [⟨.newline, "\n", p⟩]) ++
      s.indents.map (fun _ => ⟨.dedent, "", ⟨p.line, 0⟩⟩) ++ [⟨.endMarker, "", p⟩]) := by
  unfold finish
  rw [h]
  cases s.newest with
  | none => rfl
  | some kind => cases kind <;> rfl

theorem finish_closing {s : Layout} {p : Position} {tokens : List Token}
    (h : s.finish p = .ok tokens) :
    s.brackets = [] ∧ ∃ newline dedents : List Token,
      tokens = newline ++ dedents ++ [⟨.endMarker, "", p⟩] ∧
      (∀ t ∈ newline, t.kind = .newline) ∧ (∀ t ∈ dedents, t.kind = .dedent) ∧
      dedents.length = s.indents.length ∧
      (newline = [] → ∀ kind ∈ s.newest, kind = .newline ∨ kind = .dedent) := by
  unfold finish at h
  split at h
  · cases h
  · rename_i hbrackets
    cases h
    refine ⟨List.getLast?_eq_none_iff.1 hbrackets, _, _, rfl, ?_, ?_, by simp, ?_⟩
    · split <;> simp
    · intro t ht
      obtain ⟨_, -, rfl⟩ := List.mem_map.1 ht
      rfl
    · split <;> simp [*]

end Layout

/-- In the tokens of a script the indentation changes at the beginning of lines only. -/
theorem tidy_of_tokenize {source : String} {tokens : List Token}
    (h : tokenize source = .ok tokens) : Tidy tokens := by
  obtain ⟨body, s, closing, hruns, hfinish, rfl⟩ := Layout.run_eq_ok.1 h
  rw [List.reverse_nil, List.nil_append]
  obtain ⟨-, newline, dedents, rfl, hnewline, hdedents, -, hnewest⟩ := Layout.finish_closing hfinish
  have hs : s.Traces body := by
    simpa using Layout.traces_initial.runs hruns
  have hlayout : ∀ t ∈ newline ++ dedents, t.isLayout = true := by
    intro t ht
    rcases List.mem_append.1 ht with ht | ht
    · exact Token.isLayout_iff.2 (.inl (hnewline t ht))
    · exact Token.isLayout_iff.2 (.inr (.inr (hdedents t ht)))
  have hclosing : Tidy (newline ++ dedents ++ [⟨.endMarker, "", Position.start.after source.toList⟩]) :=
    tidy_append (tidy_of_isLayout hlayout) (.singleton _) (by simp [Token.shiftsDepth])
  refine tidy_append hs.tidy hclosing ?_
  -- A dedent stands directly behind the body only when no line end is missing there.
  intro t ht hshifts u hu
  cases newline with
  | cons first rest =>
      cases ht
      simp [Token.shiftsDepth, hnewline] at hshifts
  | nil =>
      have hkind := hnewest rfl u.kind (hs.kind_mem_newest hu)
      exact Token.isLayout_iff.2 (hkind.imp_right .inr)

end ScriptSandbox
