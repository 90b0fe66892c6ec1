/-!
Sets of characters given by intervals of code points. A property of characters is a short
description of its ASCII members and a list of intervals above ASCII.
-/

namespace ScriptSandbox.Text

/-- A set of code points, as closed intervals in increasing order. -/
abbrev CodePoints := List (Nat × Nat)

def CodePoints.has (intervals : CodePoints) (c : Char) : Bool :=
  intervals.any fun interval => interval.1 ≤ c.toNat && c.toNat ≤ interval.2

theorem CodePoints.has_iff {intervals : CodePoints} {c : Char} :
    intervals.has c = true ↔ ∃ interval ∈ intervals, interval.1 ≤ c.toNat ∧ c.toNat ≤ interval.2 := by
  simp [has]

end ScriptSandbox.Text
