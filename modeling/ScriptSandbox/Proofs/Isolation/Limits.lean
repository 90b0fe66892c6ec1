import ScriptSandbox.Isolation.Ceilings

/-!
Limits that are lowered. A process that is to run a script asks the system for the limits of the
run, one resource after the other. It never asks for more than its hard limits, so it is never
refused, and no hard limit is raised. The inherited soft limits are not looked at: one that is below
the requested limit, and below its own hard limit, is raised.
-/

namespace ScriptSandbox

/-- A resource of a process that has a limit. -/
inductive Resource
  | addressSpace
  | cpuTime
  | coreSize

def ProcessLimits.of (l : ProcessLimits) : Resource → ResourceLimit
  | .addressSpace => l.addressSpace
  | .cpuTime => l.cpuTime
  | .coreSize => l.coreSize

namespace ResourceLimit

/-- One limit is no higher than another. -/
structure Within (limit bound : ResourceLimit) : Prop where
  soft : limit.soft ≤ bound.soft
  hard : limit.hard ≤ bound.hard

/-- What the system makes of a limit that a process wants to put in the place of its own. It refuses
a soft limit above the hard one, and it refuses to raise the hard one. -/
def replace? (own wanted : ResourceLimit) : Option ResourceLimit :=
  if wanted.soft ≤ wanted.hard ∧ wanted.hard ≤ own.hard then some wanted else none

section

variable (requested inherited : ResourceLimit)

theorem hard_lower_le : (requested.lower inherited).hard ≤ inherited.hard :=
  Nat.min_le_right _ _

theorem soft_lower_le_hard :
    (requested.lower inherited).soft ≤ (requested.lower inherited).hard :=
  Nat.min_le_right _ _

theorem within_lower_requested : (requested.lower inherited).Within requested where
  soft := Nat.min_le_left _ _
  hard := Nat.min_le_left _ _

@[simp] theorem replace?_lower :
    inherited.replace? (requested.lower inherited) = some (requested.lower inherited) :=
  if_pos ⟨soft_lower_le_hard requested inherited, hard_lower_le requested inherited⟩

end

/-- A limit is lowered as a whole unless its soft part is raised, which needs room below the hard
part and a request that goes beyond the soft part. -/
theorem within_lower_inherited_iff {requested inherited : ResourceLimit}
    (hrequested : requested.soft ≤ requested.hard) (hinherited : inherited.soft ≤ inherited.hard) :
    (requested.lower inherited).Within inherited ↔
      requested.soft ≤ inherited.soft ∨ inherited.soft = inherited.hard := by
  have hsoft : (requested.lower inherited).soft = min requested.soft inherited.hard := by
    simp only [lower]
    omega
  constructor
  · intro hwithin
    have hle := hsoft ▸ hwithin.soft
    omega
  · intro hroom
    refine ⟨?_, hard_lower_le requested inherited⟩
    rw [hsoft]
    omega

end ResourceLimit

namespace Ceilings

/-- The limits that a process has after it has asked for those of a run, if all are granted. -/
def enforce? (c : Ceilings) (inherited : ProcessLimits) : Option ProcessLimits := do
  let asked (r : Resource) := (inherited.of r).replace? ((c.requested.of r).lower (inherited.of r))
  let addressSpace ← asked .addressSpace
  let cpuTime ← asked .cpuTime
  let coreSize ← asked .coreSize
  return { addressSpace, cpuTime, coreSize }

/-- No run starts without its limits. -/
@[simp] theorem enforce?_eq (c : Ceilings) (inherited : ProcessLimits) :
    c.enforce? inherited = some (c.apply inherited) := by
  simp only [enforce?, ResourceLimit.replace?_lower]
  rfl

@[simp] theorem of_apply (c : Ceilings) (inherited : ProcessLimits) (r : Resource) :
    (c.apply inherited).of r = (c.requested.of r).lower (inherited.of r) := by
  cases r <;> rfl

theorem soft_requested_le_hard {c : Ceilings} (h : c.cpuSeconds ≤ unlimited) (r : Resource) :
    (c.requested.of r).soft ≤ (c.requested.of r).hard := by
  cases r with
  | addressSpace => exact Nat.le_refl _
  | cpuTime =>
      simp only [ProcessLimits.of, requested]
      omega
  | coreSize => exact Nat.le_refl _

end Ceilings

/-- Whatever limits a process inherits, it gets the limits of its run: none is above the requested
one, and no hard limit is above the inherited one. A limit as a whole is not above the inherited one
exactly where the inherited soft limit is not below the requested one or has no room below its hard
limit. -/
theorem limits_lowered_iff (c : Ceilings) (inherited : ProcessLimits)
    (hword : c.cpuSeconds ≤ unlimited)
    (hinherited : ∀ r, (inherited.of r).soft ≤ (inherited.of r).hard) :
    let limits := c.apply inherited
    c.enforce? inherited = some limits ∧
      ∀ r, (limits.of r).Within (c.requested.of r) ∧ (limits.of r).hard ≤ (inherited.of r).hard ∧
        ((limits.of r).Within (inherited.of r) ↔
          (c.requested.of r).soft ≤ (inherited.of r).soft ∨
            (inherited.of r).soft = (inherited.of r).hard) := by
  refine ⟨c.enforce?_eq inherited, fun r => ?_⟩
  have hrequested := Ceilings.soft_requested_le_hard hword r
  rw [c.of_apply]
  exact ⟨ResourceLimit.within_lower_requested _ _, ResourceLimit.hard_lower_le _ _,
    ResourceLimit.within_lower_inherited_iff hrequested (hinherited r)⟩

/-- Memory has no room below its hard limit, and the soft limit on processor time is above the
requested one. -/
theorem limits_lowered_without_room :
    let inherited : ProcessLimits :=
      ⟨⟨268435456, 268435456⟩, ⟨40, 50⟩, ⟨0, unlimited⟩⟩
    (∀ r, (inherited.of r).soft ≤ (inherited.of r).hard) ∧
      ∀ r, (((⟨512, 30⟩ : Ceilings).apply inherited).of r).Within (inherited.of r) := by
  intro inherited
  have hinherited : ∀ r, (inherited.of r).soft ≤ (inherited.of r).hard := by
    rintro (_ | _ | _) <;> decide
  refine ⟨hinherited, fun r => ?_⟩
  obtain ⟨-, hlimits⟩ := limits_lowered_iff ⟨512, 30⟩ inherited (by decide) hinherited
  refine (hlimits r).2.2.2 ?_
  cases r <;> decide

/-- A process that may take the processor for 10 seconds, and could raise that to 31, may take it
for 30 seconds when it asks for the limits of a run of that length. -/
theorem soft_limit_raised :
    let inherited : ProcessLimits := ⟨⟨unlimited, unlimited⟩, ⟨10, 31⟩, ⟨0, 0⟩⟩
    (∀ r, (inherited.of r).soft ≤ (inherited.of r).hard) ∧
      (⟨512, 30⟩ : Ceilings).enforce? inherited =
        some ⟨⟨536870912, 536870912⟩, ⟨30, 31⟩, ⟨0, 0⟩⟩ ∧
      ¬ (⟨30, 31⟩ : ResourceLimit).Within (inherited.of .cpuTime) := by
  refine ⟨?_, by decide, fun hwithin => ?_⟩
  · rintro (_ | _ | _) <;> decide
  · exact absurd hwithin.soft (by decide)

end ScriptSandbox
