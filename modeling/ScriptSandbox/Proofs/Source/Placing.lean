import Mathlib.Data.List.Forall2
import ScriptSandbox.Proofs.Source.Lexing

/-!
One text at two places. What is read from a text does not depend on the place where it begins: two
readings find the same, and only the places differ. How the places of the two belong together may
be any relation that is kept by going on over a character.
-/

namespace ScriptSandbox

theorem eq_map_of_forall₂ {α β : Type} {S : α → β → Prop} {f : α → β} {items : List α}
    {others : List β} (h : List.Forall₂ S items others) (hS : ∀ a b, S a b → b = f a) :
    others = items.map f := by
  induction h with
  | nil => rfl
  | cons hab _ ih => rw [List.map_cons, ← hS _ _ hab, ← ih]

/-- A relation between places is kept by going on and by going back to the beginning of the line. -/
structure Correspondence (R : Position → Position → Prop) : Prop where
  next : ∀ {p q}, R p q → ∀ c, R (p.next c) (q.next c)
  margin : ∀ {p q}, R p q → R ⟨p.line, 0⟩ ⟨q.line, 0⟩

variable {R : Position → Position → Prop} {p q : Position}

/-- A relation between places is kept by going back to the beginning of the line. -/
def KeepsMargin (R : Position → Position → Prop) : Prop :=
  ∀ p q, R p q → R ⟨p.line, 0⟩ ⟨q.line, 0⟩

theorem Correspondence.keepsMargin (hR : Correspondence R) : KeepsMargin R :=
  fun _ _ => hR.margin

theorem Correspondence.after (hR : Correspondence R) (h : R p q) (text : List Char) :
    R (p.after text) (q.after text) := by
  induction text generalizing p q with
  | nil => exact h
  | cons c rest ih => exact ih (hR.next h c)

/-- Two fields are the same but for their places, which belong together. -/
structure Field.Like (R : Position → Position → Prop) (f g : Field) : Prop where
  source_eq : g.source = f.source
  position : R f.position g.position

namespace LexemeKind

/-- Two kinds are the same but for the places of fields. -/
inductive Like (R : Position → Position → Prop) : LexemeKind → LexemeKind → Prop
  | string {fields others} : List.Forall₂ (Field.Like R) fields others →
      Like R (.string fields) (.string others)
  | other {kind} : (∀ fields, kind ≠ .string fields) → Like R kind kind

end LexemeKind

namespace Lexeme

/-- Two lexemes are the same but for their places. -/
structure Like (R : Position → Position → Prop) (l m : Lexeme) : Prop where
  kind : LexemeKind.Like R l.kind m.kind
  text_eq : m.text = l.text
  position : R l.position m.position

/-- Two strings end alike and have like fields, or none of them ends. -/
def ExtentLike (R : Position → Position → Prop) : Option (Nat × List Field) →
    Option (Nat × List Field) → Prop :=
  Option.Rel fun found found' => found'.1 = found.1 ∧ List.Forall₂ (Field.Like R) found.2 found'.2

theorem stringExtent_like (hR : Correspondence R) (d : Delimiter) (formatted : Bool) (h : R p q)
    (n : Nat) {fields others : List Field} (hfields : List.Forall₂ (Field.Like R) fields others)
    (text : List Char) : ExtentLike R (stringExtent d formatted p n fields text)
      (stringExtent d formatted q n others text) := by
  fun_induction stringExtent d formatted p n fields text generalizing q others with
  | case1 => simpa using .none
  | case2 => simpa using .none
  | case3 p n fields e rest ih => simpa using ih (hR.next (hR.next h '\\') e) hfields
  | case4 p n fields c rest hslash hstops => simpa [hslash, hstops] using .none
  | case5 p n fields c rest hslash hstops hbegins =>
      simpa [hslash, hstops, hbegins] using .some ⟨rfl, List.rel_reverse hfields⟩
  | case6 p n fields c rest hslash hstops hbegins hopens hbrace ih =>
      rw [stringExtent_doubled hslash hstops hbegins hopens hbrace]
      exact ih (hR.after (hR.next h c) (rest.take 1)) hfields
  | case7 p n fields c rest hslash hstops hbegins hopens hbrace fieldLength closed hextent read =>
      rename_i field ih
      rw [stringExtent_field hslash hstops hbegins hopens hbrace hextent]
      exact ih (hR.after (hR.next h c) (rest.take read)) (.cons ⟨rfl, hR.next h c⟩ hfields)
  | case8 p n fields c rest hslash hstops hbegins hopens ih =>
      simpa [hslash, hstops, hbegins, hopens] using ih (hR.next h c) hfields

/-- The same is found with the same number of characters. -/
structure FoundLike (R : Position → Position → Prop) (found found' : LexemeKind × Nat) : Prop where
  kind : LexemeKind.Like R found.1 found'.1
  length_eq : found'.2 = found.2

theorem foundLike_other {kind : LexemeKind} (h : ∀ fields, kind ≠ .string fields) (n : Nat) :
    FoundLike R (kind, n) (kind, n) :=
  ⟨.other h, rfl⟩

theorem stringKind_like (hR : Correspondence R) (quote : Char) (formatted : Bool) (h : R p q)
    (text : List Char) :
    FoundLike R (stringKind quote formatted p text) (stringKind quote formatted q text) := by
  unfold stringKind
  extract_lets d opening
  have hplace := hR.after (hR.next h quote) (text.take opening)
  have hextent := stringExtent_like hR d formatted hplace opening .nil (text.drop opening)
  generalize stringExtent d formatted ((p.next quote).after (text.take opening)) opening []
    (text.drop opening) = found at hextent ⊢
  generalize stringExtent d formatted ((q.next quote).after (text.take opening)) opening []
    (text.drop opening) = found' at hextent ⊢
  cases hextent with
  | none => exact foundLike_other (by simp) _
  | some hfound => exact ⟨.string hfound.2, hfound.1⟩

theorem classify_like (hR : Correspondence R) (lenient : Bool) (h : R p q) (c : Char)
    (rest : List Char) : FoundLike R (classify lenient p c rest) (classify lenient q c rest) := by
  by_cases hslash : c = '\\'
  · subst hslash
    rw [classify_backslash, classify_backslash]
    refine ite_rel (R := FoundLike R) Iff.rfl (fun _ => foundLike_other (by simp) _) fun _ => ?_
    refine ite_rel (R := FoundLike R) Iff.rfl (fun _ => foundLike_other (by simp) _) fun _ => ?_
    exact ite_rel (R := FoundLike R) Iff.rfl (fun _ => foundLike_other (by simp) _)
      fun _ => foundLike_other (by simp) _
  unfold classify
  refine ite_rel (R := FoundLike R) Iff.rfl (fun _ => foundLike_other (by simp) _) fun _ => ?_
  refine ite_rel (R := FoundLike R) Iff.rfl (fun _ => foundLike_other (by simp) _) fun _ => ?_
  refine ite_rel (R := FoundLike R) Iff.rfl (fun _ => foundLike_other (by simp) _) fun _ => ?_
  refine ite_rel (R := FoundLike R) Iff.rfl (fun _ => foundLike_other (by simp) _) fun _ => ?_
  refine ite_rel (R := FoundLike R) Iff.rfl (fun h => absurd h hslash) fun _ => ?_
  refine ite_rel (R := FoundLike R) Iff.rfl (fun _ => stringKind_like hR c false h rest) fun _ => ?_
  refine ite_rel (R := FoundLike R) Iff.rfl (fun _ => foundLike_other (by simp) _) fun _ => ?_
  refine ite_rel (R := FoundLike R) Iff.rfl (fun _ => ?_) fun _ => ?_
  · extract_lets length word
    split
    · rename_i quote text _
      refine ite_rel (R := FoundLike R) Iff.rfl (fun _ => ?_) fun _ => foundLike_other (by simp) _
      obtain ⟨hkind, hlength⟩ := stringKind_like hR quote (word.contains 'f')
        (hR.after h (c :: rest.take length)) text
      exact ⟨hkind, congrArg (length + 1 + ·) hlength⟩
    · exact foundLike_other (by simp) _
  · split
    · exact foundLike_other (by simp) _
    · exact ite_rel (R := FoundLike R) Iff.rfl (fun _ => foundLike_other (by simp) _)
        fun _ => foundLike_other (by simp) _

/-- One text has the same lexemes at two places. -/
theorem split_like (hR : Correspondence R) (lenient : Bool) (h : R p q) (text : List Char) :
    List.Forall₂ (Like R) (split lenient p [] text) (split lenient q [] text) := by
  induction p, text using split_induction lenient generalizing q with
  | nil p =>
      rw [split, split]
      exact .nil
  | cons p c rest ih =>
      obtain ⟨hkind, hlength⟩ := classify_like hR lenient h c rest
      rw [split_cons, split_cons, hlength]
      exact .cons ⟨hkind, rfl, h⟩ (ih (hR.after h _))

end Lexeme

end ScriptSandbox
