import Mathlib.Data.List.Induction
import ScriptSandbox.Source.Position

/-!
Places as counts. The place behind a text at the beginning of a script is known by the line feeds of
the text and the characters after the last of them, and going on always leads to a later place.
-/

namespace ScriptSandbox

namespace Position

def lastLine (text : List Char) : List Char :=
  (text.reverse.takeWhile (· != '\n')).reverse

/-- The place that a text at the beginning of a script ends at, by counting its characters. -/
def counted (text : List Char) : Position :=
  ⟨1 + text.count '\n', (lastLine text).length⟩

theorem start_after (text : List Char) : start.after text = counted text := by
  induction text using List.reverseRecOn with
  | nil => rfl
  | append_singleton text c ih =>
      rw [after_append, ih, after_cons, after_nil]
      by_cases h : c = '\n'
      · subst h
        simp [next, counted, lastLine, Nat.add_assoc]
      · simp [next, counted, lastLine, h]

/-- One place comes before another in a script. -/
def Precedes (p q : Position) : Prop :=
  p.line < q.line ∨ p.line = q.line ∧ p.column < q.column

theorem Precedes.trans {p q r : Position} (hpq : p.Precedes q) (hqr : q.Precedes r) :
    p.Precedes r := by
  unfold Precedes at *
  omega

theorem Precedes.irrefl (p : Position) : ¬ p.Precedes p := by
  unfold Precedes
  omega

theorem precedes_next (p : Position) (c : Char) : p.Precedes (p.next c) := by
  unfold next Precedes
  split
  · exact .inl (Nat.lt_succ_self _)
  · exact .inr ⟨rfl, Nat.lt_succ_self _⟩

theorem precedes_after (p : Position) {text : List Char} (h : text ≠ []) :
    p.Precedes (p.after text) := by
  induction text generalizing p with
  | nil => exact absurd rfl h
  | cons c rest ih =>
      rw [after_cons]
      cases rest with
      | nil => exact p.precedes_next c
      | cons d more => exact (p.precedes_next c).trans (ih (p.next c) (by simp))

theorem eq_of_after_eq {p : Position} {text first second : List Char} (hfirst : first <+: text)
    (hsecond : second <+: text) (h : p.after first = p.after second) : first = second := by
  have hextend {first second : List Char} (hbegins : first <+: second)
      (h : p.after first = p.after second) : first = second := by
    obtain ⟨rest, rfl⟩ := hbegins
    by_contra hne
    have hrest : rest ≠ [] := by simpa using hne
    have hprecedes := (p.after first).precedes_after hrest
    rw [← after_append, ← h] at hprecedes
    exact hprecedes.irrefl
  rcases List.prefix_or_prefix_of_prefix hfirst hsecond with hbegins | hbegins
  · exact hextend hbegins h
  · exact (hextend hbegins h.symm).symm

/-- One place is not behind another in a script. -/
def UpTo (p q : Position) : Prop :=
  p = q ∨ p.Precedes q

theorem UpTo.trans_precedes {p q r : Position} (hpq : p.UpTo q) (hqr : q.Precedes r) :
    p.Precedes r := by
  rcases hpq with rfl | hpq
  · exact hqr
  · exact hpq.trans hqr

theorem Precedes.trans_upTo {p q r : Position} (hpq : p.Precedes q) (hqr : q.UpTo r) :
    p.Precedes r := by
  rcases hqr with rfl | hqr
  · exact hpq
  · exact hpq.trans hqr

theorem UpTo.trans {p q r : Position} (hpq : p.UpTo q) (hqr : q.UpTo r) : p.UpTo r := by
  rcases hpq with rfl | hpq
  · exact hqr
  · exact .inr (hpq.trans_upTo hqr)

theorem upTo_after (p : Position) (text : List Char) : p.UpTo (p.after text) := by
  cases text with
  | nil => exact .inl rfl
  | cons c rest => exact .inr (p.precedes_after (by simp))

/-- A character of a text that begins at `p` stands at `place`. -/
def InText (place p : Position) (text : List Char) : Prop :=
  ∃ lead rest, text = lead ++ rest ∧ rest ≠ [] ∧ p.after lead = place

namespace InText

variable {place p : Position} {text : List Char}

theorem of_ne_nil (h : text ≠ []) : p.InText p text :=
  ⟨[], text, rfl, h, rfl⟩

theorem within (before after : List Char) (h : place.InText (p.after before) text) :
    place.InText p (before ++ text ++ after) := by
  obtain ⟨lead, rest, rfl, hrest, hplace⟩ := h
  exact ⟨before ++ lead, rest ++ after, by simp, by simp [hrest], by rwa [after_append]⟩

theorem upTo (h : place.InText p text) : p.UpTo place := by
  obtain ⟨lead, rest, -, -, rfl⟩ := h
  exact p.upTo_after lead

theorem precedes (h : place.InText p text) : place.Precedes (p.after text) := by
  obtain ⟨lead, rest, rfl, hrest, rfl⟩ := h
  rw [after_append]
  exact precedes_after _ hrest

end InText

end Position

end ScriptSandbox
