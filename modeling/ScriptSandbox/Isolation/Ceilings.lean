/-!
The limits that the operating system puts on a run. A process can only lower its limits: each limit
has a soft value, which is in force, and a hard value, up to which the soft one can be raised.
-/

namespace ScriptSandbox

/-- The greatest value of a limit, which stands for no limit. -/
def unlimited : Nat := 18446744073709551615

structure Ceilings where
  memoryMb : Nat
  cpuSeconds : Nat
deriving DecidableEq

structure ResourceLimit where
  soft : Nat
  hard : Nat
deriving DecidableEq

structure ProcessLimits where
  /-- Bytes of memory. -/
  addressSpace : ResourceLimit
  /-- Seconds of processor time. At the soft limit the process gets a signal that tells so, at the
  hard limit it is killed. -/
  cpuTime : ResourceLimit
  /-- Bytes of the image that is left behind by a crash. -/
  coreSize : ResourceLimit
deriving DecidableEq

/-- The limit after a process with an inherited limit asks for a requested one. -/
def ResourceLimit.lower (requested inherited : ResourceLimit) : ResourceLimit :=
  let hard := min requested.hard inherited.hard
  ⟨min requested.soft hard, hard⟩

namespace Ceilings

def memoryBytes (c : Ceilings) : Nat :=
  min (c.memoryMb * 1048576) unlimited

/-- The limits that the process of a run asks for. Beyond the soft limit on processor time it has
one more second. -/
def requested (c : Ceilings) : ProcessLimits where
  addressSpace := ⟨c.memoryBytes, c.memoryBytes⟩
  cpuTime := ⟨c.cpuSeconds, min (c.cpuSeconds + 1) unlimited⟩
  coreSize := ⟨0, 0⟩

def apply (c : Ceilings) (inherited : ProcessLimits) : ProcessLimits where
  addressSpace := c.requested.addressSpace.lower inherited.addressSpace
  cpuTime := c.requested.cpuTime.lower inherited.cpuTime
  coreSize := c.requested.coreSize.lower inherited.coreSize

end Ceilings

end ScriptSandbox
