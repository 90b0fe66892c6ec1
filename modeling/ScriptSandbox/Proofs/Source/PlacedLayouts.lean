import ScriptSandbox.Proofs.Source.LayoutRuns
import ScriptSandbox.Proofs.Source.Placing

/-!
The layout of one text at two places. From states that are alike, lexemes that are alike lead to
tokens that are alike, or to the same problem at places that belong together.
-/

namespace ScriptSandbox

open Lexeme (ite_rel)

variable {R : Position → Position → Prop} {p q : Position}

namespace TokenKind

/-- Two kinds are the same but for the places of fields. -/
inductive Like (R : Position → Position → Prop) : TokenKind → TokenKind → Prop
  | string {fields others} : List.Forall₂ (Field.Like R) fields others →
      Like R (.string fields) (.string others)
  | other {kind} : (∀ fields, kind ≠ .string fields) → Like R kind kind

namespace Like

variable {kind other : TokenKind}

theorem eq_iff (h : TokenKind.Like R kind other) {single : TokenKind}
    (hsingle : ∀ fields, single ≠ .string fields) : other = single ↔ kind = single := by
  cases h with
  | string => simp [(hsingle _).symm]
  | other => rfl

theorem isQuiet_eq (h : TokenKind.Like R kind other) :
    Layout.isQuiet (some other) = Layout.isQuiet (some kind) := by
  cases h <;> rfl

end Like

end TokenKind

/-- Two tokens are the same but for their places. -/
structure Token.Like (R : Position → Position → Prop) (t u : Token) : Prop where
  kind : TokenKind.Like R t.kind u.kind
  text_eq : u.text = t.text
  position : R t.position u.position

theorem Token.like_other {kind : TokenKind} (h : ∀ fields, kind ≠ .string fields) (text : String)
    (hplace : R p q) : Token.Like R ⟨kind, text, p⟩ ⟨kind, text, q⟩ :=
  ⟨.other h, rfl, hplace⟩

structure OpenBracket.Like (R : Position → Position → Prop) (b c : OpenBracket) : Prop where
  opening_eq : c.opening = b.opening
  position : R b.position c.position

/-- Two answers are alike: results that are alike, or one problem at places that belong together. -/
inductive AnswerLike (R : Position → Position → Prop) {α : Type} (S : α → α → Prop) :
    Except SyntaxError α → Except SyntaxError α → Prop
  | ok {a b} : S a b → AnswerLike R S (.ok a) (.ok b)
  | error {p q problem} : R p q → AnswerLike R S (.error ⟨p, problem⟩) (.error ⟨q, problem⟩)

theorem AnswerLike.bind {α β : Type} {S : α → α → Prop} {T : β → β → Prop}
    {x y : Except SyntaxError α} {f g : α → Except SyntaxError β} (h : AnswerLike R S x y)
    (hnext : ∀ a b, S a b → AnswerLike R T (f a) (g b)) : AnswerLike R T (x >>= f) (y >>= g) := by
  cases h with
  | ok hab => exact hnext _ _ hab
  | error hplace => exact .error hplace

theorem AnswerLike.exists_ok {α : Type} {S : α → α → Prop} {a : α} {y : Except SyntaxError α}
    (h : AnswerLike R S (.ok a) y) : ∃ b, y = .ok b ∧ S a b := by
  cases h with
  | ok hab => exact ⟨_, rfl, hab⟩

namespace Layout

/-- Two states go on alike. Of the newest token only its part in the layout counts. -/
structure Like (R : Position → Position → Prop) (s t : Layout) : Prop where
  indents_eq : t.indents = s.indents
  brackets : List.Forall₂ (OpenBracket.Like R) s.brackets t.brackets
  lineStart_eq : t.lineStart = s.lineStart
  quiet_eq : isQuiet t.newest = isQuiet s.newest
  indent_eq : (t.newest == some .indent) = (s.newest == some .indent)

/-- Alike tokens and the states behind them. -/
structure TakenLike (R : Position → Position → Prop) (taken other : List Token × Layout) :
    Prop where
  tokens : List.Forall₂ (Token.Like R) taken.1 other.1
  state : Like R taken.2 other.2

theorem forall₂_map_like {α : Type} {kind : TokenKind} (h : ∀ fields, kind ≠ .string fields)
    (text : String) (hplace : R p q) (items : List α) :
    List.Forall₂ (Token.Like R) (items.map fun _ => ⟨kind, text, p⟩)
      (items.map fun _ => ⟨kind, text, q⟩) := by
  induction items with
  | nil => exact .nil
  | cons _ _ ih => exact .cons (Token.like_other h text hplace) ih

namespace Like

variable {s t : Layout} {a b : Token}

theorem settle (hR : KeepsMargin R) (h : Like R s t) (hplace : R p q) :
    AnswerLike R (TakenLike R) (s.settle p) (t.settle q) := by
  unfold Layout.settle
  rw [h.lineStart_eq, h.indents_eq]
  split
  · exact .ok ⟨.nil, h⟩
  · refine ite_rel (R := AnswerLike R (TakenLike R)) Iff.rfl (fun _ => ?_) fun _ => ?_
    · refine .ok ⟨.cons (Token.like_other (by simp) "" (hR _ _ hplace)) .nil, ?_⟩
      exact ⟨rfl, h.brackets, rfl, rfl, rfl⟩
    · dsimp only
      refine ite_rel (R := AnswerLike R (TakenLike R)) Iff.rfl (fun _ => ?_) fun _ => .error hplace
      refine .ok ⟨forall₂_map_like (by simp) "" hplace _, rfl, h.brackets, rfl, ?_, ?_⟩
      · dsimp only
        split
        · exact h.quiet_eq
        · rfl
      · dsimp only
        split
        · exact h.indent_eq
        · rfl

theorem turnBracket (h : Like R s t) (ht : Token.Like R a b) :
    AnswerLike R (Like R) (s.turnBracket a) (t.turnBracket b) := by
  unfold Layout.turnBracket
  rw [ht.text_eq]
  split
  · rename_i c _
    refine ite_rel (R := AnswerLike R (Like R)) Iff.rfl (fun _ => ?_) fun _ => ?_
    · exact .ok ⟨h.indents_eq, .cons ⟨rfl, ht.position⟩ h.brackets, h.lineStart_eq, h.quiet_eq,
        h.indent_eq⟩
    refine ite_rel (R := AnswerLike R (Like R)) Iff.rfl (fun _ => ?_) fun _ => .ok h
    have hbrackets := h.brackets
    generalize s.brackets = open₁ at hbrackets
    generalize t.brackets = open₂ at hbrackets
    cases hbrackets with
    | nil => exact .error ht.position
    | cons hinnermost houter =>
        dsimp only
        rw [hinnermost.opening_eq]
        refine ite_rel (R := AnswerLike R (Like R)) Iff.rfl (fun _ => ?_) fun _ => .error ht.position
        exact .ok ⟨h.indents_eq, houter, h.lineStart_eq, h.quiet_eq, h.indent_eq⟩
  · exact .ok h

theorem take (hR : KeepsMargin R) (h : Like R s t) (ht : Token.Like R a b) :
    AnswerLike R (TakenLike R) (s.take a) (t.take b) := by
  refine (h.settle hR ht.position).bind fun taken other hsettled => ?_
  obtain ⟨tokens, s₁⟩ := taken
  obtain ⟨others, t₁⟩ := other
  obtain ⟨htokens, h₁⟩ := hsettled
  have hlast {s₂ t₂ : Layout} (h₂ : Like R s₂ t₂) : AnswerLike R (TakenLike R)
      (.ok (tokens ++ [a], { s₂ with newest := some a.kind }))
      (.ok (others ++ [b], { t₂ with newest := some b.kind })) := by
    refine .ok ⟨List.rel_append htokens (.cons ht .nil), h₂.indents_eq, h₂.brackets,
      h₂.lineStart_eq, ht.kind.isQuiet_eq, ?_⟩
    rw [Bool.eq_iff_iff, beq_iff_eq, beq_iff_eq, Option.some_inj, Option.some_inj]
    exact ht.kind.eq_iff (by simp)
  dsimp only
  refine ite_rel (R := AnswerLike R (TakenLike R)) (ht.kind.eq_iff (by simp)) (fun _ => ?_)
    fun _ => hlast h₁
  exact (h₁.turnBracket ht).bind fun _ _ => hlast

theorem breakLine (h : Like R s t) (hplace : R p q) :
    TakenLike R (s.breakLine p) (t.breakLine q) := by
  have hempty : t.brackets.isEmpty = s.brackets.isEmpty := by
    rw [Bool.eq_iff_iff, List.isEmpty_iff_length_eq_zero, List.isEmpty_iff_length_eq_zero,
      h.brackets.length_eq]
  rw [breakLine_eq, breakLine_eq, h.lineStart_eq, hempty, h.quiet_eq, h.indent_eq]
  refine ite_rel (R := TakenLike R) Iff.rfl (fun _ => ?_) fun _ => ?_
  · exact ⟨.nil, h.indents_eq, h.brackets, rfl, h.quiet_eq, h.indent_eq⟩
  refine ite_rel (R := TakenLike R) Iff.rfl (fun _ => ?_) fun _ => ⟨.nil, h⟩
  refine ite_rel (R := TakenLike R) Iff.rfl (fun _ => ?_) fun _ => ?_
  · exact ⟨.nil, h.indents_eq, h.brackets, rfl, h.quiet_eq, h.indent_eq⟩
  · exact ⟨.cons (Token.like_other (by simp) "\n" hplace) .nil, h.indents_eq, h.brackets, rfl, rfl,
      rfl⟩

theorem step (hR : KeepsMargin R) (h : Like R s t) {l m : Lexeme} (hl : Lexeme.Like R l m) :
    AnswerLike R (TakenLike R) (s.step l) (t.step m) := by
  obtain ⟨kind, text, p⟩ := l
  obtain ⟨kind', text', q⟩ := m
  obtain ⟨hkind, htext, hplace⟩ := hl
  dsimp only at hkind htext hplace
  subst htext
  have hother {kind : TokenKind} (hk : ∀ fields, kind ≠ .string fields) :
      AnswerLike R (TakenLike R) (s.take ⟨kind, String.ofList text', p⟩)
        (t.take ⟨kind, String.ofList text', q⟩) :=
    h.take hR (Token.like_other hk _ hplace)
  unfold Layout.step
  cases hkind with
  | string hfields => exact h.take hR ⟨.string hfields, rfl, hplace⟩
  | other hnone =>
      cases kind with
      | blank =>
          refine .ok ⟨.nil, h.indents_eq, h.brackets, ?_, h.quiet_eq, h.indent_eq⟩
          dsimp only
          rw [h.lineStart_eq]
      | comment => exact .ok ⟨.nil, h⟩
      | lineBreak => exact .ok (h.breakLine hplace)
      | continuation => exact h.settle hR hplace
      | stray => exact h.settle hR hplace
      | name => exact hother (by simp)
      | number => exact hother (by simp)
      | string fields => exact absurd rfl (hnone fields)
      | operator => exact hother (by simp)
      | broken problem => exact (h.settle hR hplace).bind fun _ _ _ => .error hplace

theorem finish (hR : KeepsMargin R) (h : Like R s t) (hplace : R p q) :
    AnswerLike R (List.Forall₂ (Token.Like R)) (s.finish p) (t.finish q) := by
  have hbrackets := List.rel_reverse h.brackets
  cases hs : s.brackets.reverse with
  | nil =>
      rw [hs, List.forall₂_nil_left_iff] at hbrackets
      rw [finish_eq (List.reverse_eq_nil_iff.1 hs), finish_eq (List.reverse_eq_nil_iff.1 hbrackets),
        h.quiet_eq, h.indents_eq]
      have hnewline : List.Forall₂ (Token.Like R)
          (if isQuiet s.newest then [] else [⟨.newline, "\n", p⟩])
          (if isQuiet s.newest then [] else [⟨.newline, "\n", q⟩]) :=
        ite_rel Iff.rfl (fun _ => .nil) fun _ => .cons (Token.like_other (by simp) _ hplace) .nil
      have hdedent : ∀ fields, TokenKind.dedent ≠ .string fields := by simp
      have hdedents := forall₂_map_like hdedent "" (hR _ _ hplace) s.indents
      exact .ok (List.rel_append (List.rel_append hnewline hdedents)
        (.cons (Token.like_other (by simp) "" hplace) .nil))
  | cons outermost rest =>
      rw [hs, List.forall₂_cons_left_iff] at hbrackets
      obtain ⟨other, others, hlike, -, ht⟩ := hbrackets
      unfold Layout.finish
      rw [← List.head?_reverse, ← List.head?_reverse, hs, ht]
      dsimp only [List.head?_cons]
      rw [hlike.opening_eq]
      exact .error hlike.position

end Like

/-- From states that are alike, lexemes that are alike come to alike answers. -/
theorem run_like_of_keepsMargin (hR : KeepsMargin R) (hplace : R p q) {lexemes others : List Lexeme}
    (hlexemes : List.Forall₂ (Lexeme.Like R) lexemes others) {s t : Layout} (h : Like R s t)
    {before before' : List Token} (hbefore : List.Forall₂ (Token.Like R) before before') :
    AnswerLike R (List.Forall₂ (Token.Like R)) (run p before s lexemes)
      (run q before' t others) := by
  induction hlexemes generalizing s t before before' with
  | nil =>
      exact (h.finish hR hplace).bind fun _ _ hclosing =>
        .ok (List.rel_append (List.rel_reverse hbefore) hclosing)
  | cons hl _ ih =>
      exact (h.step hR hl).bind fun _ _ htaken =>
        ih htaken.state (List.rel_append (List.rel_reverse htaken.tokens) hbefore)

theorem run_like (hR : Correspondence R) (hplace : R p q) {lexemes others : List Lexeme}
    (hlexemes : List.Forall₂ (Lexeme.Like R) lexemes others) {s t : Layout} (h : Like R s t)
    {before before' : List Token} (hbefore : List.Forall₂ (Token.Like R) before before') :
    AnswerLike R (List.Forall₂ (Token.Like R)) (run p before s lexemes)
      (run q before' t others) :=
  run_like_of_keepsMargin hR.keepsMargin hplace hlexemes h hbefore

end Layout

end ScriptSandbox
