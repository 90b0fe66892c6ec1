import Mathlib.Data.List.TakeWhile
import ScriptSandbox.Proofs.Source.Moving
import ScriptSandbox.Proofs.Source.PlacedLayouts

/-!
The layout of a script below another one. At the beginning of a line the layout goes on as it begins,
but for the blocks that are still open: these end where the first line with tokens begins.
-/

namespace ScriptSandbox

def OpenBracket.down (k : Nat) (b : OpenBracket) : OpenBracket :=
  ⟨b.opening, b.position.down k⟩

theorem Lexeme.like_down (k : Nat) (l : Lexeme) :
    Lexeme.Like (fun p q => q = p.down k) l (l.down k) := by
  obtain ⟨kind, text, p⟩ := l
  refine ⟨?_, rfl, rfl⟩
  cases kind with
  | string fields =>
      refine .string (List.forall₂_map_right_iff.2 (List.forall₂_same.2 fun f _ => ⟨rfl, rfl⟩))
  | _ => exact .other (by simp)

theorem Token.Like.eq_down {R : Position → Position → Prop} {k : Nat}
    (hR : ∀ p q, R p q → q = p.down k) {t u : Token} (h : Token.Like R t u) : u = t.down k := by
  obtain ⟨kind, text, place⟩ := t
  obtain ⟨kind', text', place'⟩ := u
  obtain ⟨hkind, rfl, hplace⟩ := h
  dsimp only at hkind hplace
  rw [hR _ _ hplace]
  cases hkind with
  | string hfields =>
      rw [eq_map_of_forall₂ hfields fun _ _ h => h.eq_down hR]
      rfl
  | other hnone =>
      cases kind with
      | string fields => exact absurd rfl (hnone fields)
      | _ => rfl

namespace Layout

/-! ### Alike states -/

/-- The state `t` goes on like `s`, but `k` lines further down. Of the newest token only its part in
the layout counts. -/
structure Alike (k : Nat) (s t : Layout) : Prop where
  indents_eq : t.indents = s.indents
  brackets_eq : t.brackets = s.brackets.map (OpenBracket.down k)
  lineStart_eq : t.lineStart = s.lineStart
  quiet_eq : isQuiet t.newest = isQuiet s.newest
  indent_eq : (t.newest == some .indent) = (s.newest == some .indent)

theorem alike_iff {k : Nat} {s t : Layout} : Alike k s t ↔ Like (fun p q => q = p.down k) s t := by
  constructor
  · intro h
    refine ⟨h.indents_eq, ?_, h.lineStart_eq, h.quiet_eq, h.indent_eq⟩
    rw [h.brackets_eq, List.forall₂_map_right_iff, List.forall₂_same]
    exact fun _ _ => ⟨rfl, rfl⟩
  · intro h
    refine ⟨h.indents_eq, eq_map_of_forall₂ h.brackets fun b c hlike => ?_, h.lineStart_eq,
      h.quiet_eq, h.indent_eq⟩
    obtain ⟨opening, place⟩ := c
    obtain ⟨rfl, rfl⟩ := hlike
    rfl

namespace Alike

variable {k : Nat} {s s' t : Layout} {p : Position} {tokens : List Token} {l : Lexeme}

/-- Alike states stay alike, and the tokens are as many lines further down. -/
theorem step (h : Alike k s t) (hs : s.step l = .ok (tokens, s')) :
    ∃ t', t.step (l.down k) = .ok (tokens.map (Token.down k), t') ∧ Alike k s' t' := by
  have hlike := (alike_iff.1 h).step (Position.correspondence_down k).keepsMargin (l.like_down k)
  rw [hs] at hlike
  obtain ⟨⟨tokens', t'⟩, ht, htokens, hstate⟩ := hlike.exists_ok
  obtain rfl := eq_map_of_forall₂ htokens fun _ _ h => h.eq_down fun _ _ => id
  exact ⟨t', ht, alike_iff.2 hstate⟩

theorem runs (h : Alike k s t) {lexemes : List Lexeme} (hs : Runs s lexemes tokens s') :
    ∃ t', Runs t (lexemes.map (Lexeme.down k)) (tokens.map (Token.down k)) t' ∧ Alike k s' t' := by
  induction hs generalizing t with
  | nil => exact ⟨t, .nil, h⟩
  | cons hstep _ ih =>
      obtain ⟨t₁, hstep', h₁⟩ := h.step hstep
      obtain ⟨t₂, hruns, h₂⟩ := ih h₁
      rw [List.map_append]
      exact ⟨t₂, .cons hstep' hruns, h₂⟩

theorem finish (h : Alike k s t) (hs : s.finish p = .ok tokens) :
    t.finish (p.down k) = .ok (tokens.map (Token.down k)) := by
  have hlike := (alike_iff.1 h).finish (Position.correspondence_down k).keepsMargin (p := p) rfl
  rw [hs] at hlike
  obtain ⟨tokens', ht, htokens⟩ := hlike.exists_ok
  rw [ht, eq_map_of_forall₂ htokens fun _ _ h => h.eq_down fun _ _ => id]

end Alike

/-! ### Below another script -/

/-- Whether a lexeme can stand in a line without tokens. -/
def isMargin (l : Lexeme) : Bool :=
  match l.kind with
  | .blank | .comment | .lineBreak => true
  | _ => false

@[simp] theorem isMargin_down (k : Nat) (l : Lexeme) : isMargin (l.down k) = isMargin l := by
  unfold isMargin Lexeme.down
  cases l.kind <;> rfl

theorem step_margin (k : Nat) {l : Lexeme} (hl : isMargin l = true) (width : Nat) :
    ∃ width', ∀ indents newest,
      step ⟨indents, [], some width, newest⟩ l = .ok ([], ⟨indents, [], some width', newest⟩) ∧
      step ⟨indents, [], some width, newest⟩ (l.down k) =
        .ok ([], ⟨indents, [], some width', newest⟩) := by
  unfold isMargin at hl
  unfold step Lexeme.down
  cases hkind : l.kind with
  | blank => exact ⟨indentWidth width l.text, fun _ _ => ⟨rfl, rfl⟩⟩
  | comment => exact ⟨width, fun _ _ => ⟨rfl, rfl⟩⟩
  | lineBreak => exact ⟨0, fun _ _ => ⟨rfl, rfl⟩⟩
  | _ =>
      rw [hkind] at hl
      cases hl

theorem settle_of_lineStart {s : Layout} (h : s.lineStart = none) (p : Position) :
    s.settle p = .ok ([], s) := by
  unfold settle
  rw [h]

/-- Before all else a lexeme with a token settles the indentation of its line. -/
theorem step_of_settle {s s₁ : Layout} {l : Lexeme} {layout : List Token} (hl : isMargin l = false)
    (hsettle : s.settle l.position = .ok (layout, s₁)) :
    s.step l = (s₁.step l).map fun found => (layout ++ found.1, found.2) := by
  have hsettled := settle_of_lineStart (settle_keeps hsettle).1 l.position
  have htake (t : Token) (ht : t.position = l.position) :
      s.take t = (s₁.take t).map fun found => (layout ++ found.1, found.2) := by
    unfold take
    rw [ht, hsettle, hsettled]
    simp only [bind, Except.bind]
    split
    · cases s₁.turnBracket t <;> rfl
    · rfl
  have hbare : s.settle l.position =
      (s₁.settle l.position).map fun found => (layout ++ found.1, found.2) := by
    rw [hsettle, hsettled]
    simp [Except.map]
  unfold step
  unfold isMargin at hl
  cases hkind : l.kind with
  | broken problem =>
      simp only [hsettle, hsettled]
      rfl
  | continuation => exact hbare
  | stray => exact hbare
  | name => exact htake _ rfl
  | number => exact htake _ rfl
  | string fields => exact htake _ rfl
  | operator => exact htake _ rfl
  | _ =>
      rw [hkind] at hl
      cases hl

/-- The indentation of the first line of a script that is not indented ends all blocks above it. -/
theorem settle_below {indents : List Nat} (hindents : ∀ width ∈ indents, 0 < width)
    (newest : Option TokenKind) (p : Position) :
    settle ⟨indents, [], some 0, newest⟩ p = .ok (indents.map fun _ => ⟨.dedent, "", p⟩,
      ⟨[], [], none, if indents.isEmpty then newest else some .dedent⟩) := by
  have htake : indents.takeWhile (0 < ·) = indents :=
    List.takeWhile_eq_self_iff.2 fun width hwidth => by simpa using hindents width hwidth
  have hdrop : indents.dropWhile (0 < ·) = [] :=
    List.dropWhile_eq_nil_iff.2 fun width hwidth => by simpa using hindents width hwidth
  unfold settle
  simp [htake, hdrop]

/-- The first line with tokens ends the blocks above it. It is not indented, as no block is open for
it. -/
theorem step_first {k width : Nat} {indents : List Nat} {newest : Option TokenKind} {l : Lexeme}
    {more : List Token} {s₁ : Layout} (hindents : ∀ width ∈ indents, 0 < width)
    (hnewest : indents = [] → isQuiet newest = true) (hl : isMargin l = false)
    (hstep : step ⟨[], [], some width, none⟩ l = .ok (more, s₁))
    (hfirst : ∀ t ∈ more.head?, t.kind ≠ .indent) :
    ∃ t₁, step ⟨indents, [], some width, newest⟩ (l.down k) =
        .ok (indents.map (fun _ => ⟨.dedent, "", l.position.down k⟩) ++ more.map (Token.down k), t₁) ∧
      Alike k s₁ t₁ := by
  rcases Nat.eq_zero_or_pos width with rfl | hwidth
  · have hquiet : isQuiet (if indents.isEmpty then newest else some .dedent) = true := by
      split
      · rename_i hempty
        exact hnewest (List.isEmpty_iff.1 hempty)
      · rfl
    have halike : Alike k ⟨[], [], none, none⟩
        ⟨[], [], none, if indents.isEmpty then newest else some .dedent⟩ :=
      ⟨rfl, rfl, rfl, hquiet, by simpa using ne_indent_of_isQuiet hquiet⟩
    have hsettle : settle ⟨[], [], some 0, none⟩ l.position = .ok ([], ⟨[], [], none, none⟩) :=
      settle_below (by simp) none l.position
    rw [step_of_settle hl hsettle] at hstep
    obtain ⟨⟨own, s₂⟩, hown, heq⟩ := map_eq_ok.1 hstep
    cases heq
    obtain ⟨t₁, hown', halike₁⟩ := halike.step hown
    refine ⟨t₁, ?_, halike₁⟩
    rw [step_of_settle (l := l.down k) ((isMargin_down k l).trans hl)
      (settle_below hindents newest (l.position.down k)), hown']
    rfl
  · have hsettle : settle ⟨[], [], some width, none⟩ l.position =
        .ok ([⟨.indent, "", ⟨l.position.line, 0⟩⟩], ⟨[width], [], none, some .indent⟩) := by
      unfold settle
      simp [hwidth]
    rw [step_of_settle hl hsettle] at hstep
    obtain ⟨_, -, heq⟩ := map_eq_ok.1 hstep
    cases heq
    exact absurd rfl (hfirst _ rfl)

/-- The tokens `below` of a script that stands below another one are its own tokens `alone`, further
down, behind the end of the last line above and of the blocks that are open there. -/
def Below (k : Nat) (indents : List Nat) (alone below : List Token) : Prop :=
  ∃ newline dedents, below = newline ++ dedents ++ alone.map (Token.down k) ∧
    (∀ t ∈ newline, t.kind = .newline) ∧ (∀ t ∈ dedents, t.kind = .dedent) ∧
    dedents.length = indents.length

/-- A script whose first line is not indented has its tokens below another script, too. -/
theorem runs_below {k width : Nat} {indents : List Nat} {newest : Option TokenKind} {p : Position}
    {lexemes : List Lexeme} {body closing : List Token} {s : Layout}
    (hindents : ∀ width ∈ indents, 0 < width) (hnewest : indents = [] → isQuiet newest = true)
    (hruns : Runs ⟨[], [], some width, none⟩ lexemes body s) (hfinish : s.finish p = .ok closing)
    (hfirst : ∀ t ∈ body.head?, t.kind ≠ .indent) :
    ∃ body' closing' t, Runs ⟨indents, [], some width, newest⟩ (lexemes.map (Lexeme.down k)) body' t ∧
      t.finish (p.down k) = .ok closing' ∧
      Below k indents (body ++ closing) (body' ++ closing') := by
  induction lexemes generalizing width body with
  | nil =>
      cases hruns
      rw [finish_eq rfl] at hfinish
      cases hfinish
      have hfinish' := finish_eq (s := ⟨indents, [], some width, newest⟩) rfl (p.down k)
      obtain ⟨-, newline, dedents, hclosing, hnewline, hdedents, hlength, -⟩ := finish_closing hfinish'
      refine ⟨[], _, _, .nil, hfinish', newline, dedents, ?_, hnewline, hdedents, hlength⟩
      exact hclosing
  | cons l rest ih =>
      cases hruns with
      | @cons _ _ more s₁ _ tokens _ hstep hruns =>
      cases hl : isMargin l with
      | true =>
          obtain ⟨width', hmargin⟩ := step_margin k hl width
          rw [(hmargin [] none).1] at hstep
          cases hstep
          obtain ⟨body', closing', t, hruns', hfinish', hbelow⟩ := ih hruns hfirst
          exact ⟨body', closing', t, .cons (hmargin indents newest).2 hruns', hfinish', hbelow⟩
      | false =>
          obtain ⟨t₁, hstep', halike₁⟩ := step_first (k := k) hindents hnewest hl hstep fun t ht =>
            hfirst t (by simp [List.head?_append, Option.mem_def.1 ht])
          obtain ⟨t₂, hruns', halike₂⟩ := halike₁.runs hruns
          refine ⟨_, _, t₂, .cons hstep' hruns', halike₂.finish hfinish, [],
            indents.map fun _ => ⟨.dedent, "", l.position.down k⟩, by simp, by simp, ?_,
            List.length_map _⟩
          intro t ht
          obtain ⟨_, -, rfl⟩ := List.mem_map.1 ht
          rfl

end Layout

end ScriptSandbox
