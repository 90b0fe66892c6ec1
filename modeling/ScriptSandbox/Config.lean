import ScriptSandbox.Analysis.Report
import ScriptSandbox.Policy.Tables
import ScriptSandbox.Text.Blank

/-!
The configuration of the sandbox. Every part has a default. `Config.validate` refuses
configurations that would make the sandbox unsafe or of no use.
-/

namespace ScriptSandbox

/-- The least and greatest accepted value of a request's limit, and the value of a request that
names none. -/
structure Bounds where
  min : Nat
  max : Nat
  default : Nat
deriving DecidableEq

def Bounds.contains (b : Bounds) (value : Nat) : Bool :=
  b.min ≤ value && value ≤ b.max

structure RequestBounds where
  timeoutSeconds : Bounds := ⟨1, 300, 30⟩
  memoryMb : Bounds := ⟨64, 2048, 512⟩
  maxCodeChars : Nat := 50000

structure OutputBounds where
  /-- For each of the output streams. -/
  maxStreamBytes : Nat := 1048576
  /-- For the variables that a script leaves behind. -/
  maxLocalsBytes : Nat := 1048576

/-- What separates a run from the sandbox. -/
inductive IsolationMode
  /-- A process with limits set by the operating system. -/
  | process
  /-- A process driven by a thread, with a limit on its time only. -/
  | thread
deriving DecidableEq

structure Runtime where
  interpreter : String := "python3"
  isolation : IsolationMode := .process
  /-- Seconds of processor time granted above the limit on the time of a run. -/
  cpuGraceSeconds : Nat := 1
  scratchDir : Option String := none

structure Config where
  policy : PolicyTables := {}
  requests : RequestBounds := {}
  output : OutputBounds := {}
  complexity : ComplexityLimits := {}
  runtime : Runtime := {}

inductive ConfigFault
  | zeroMinimum (name : String)
  | unordered (name : String) (bounds : Bounds)
  | noCode
  | noOutput
  | noInterpreter

def ConfigFault.message : ConfigFault → String
  | zeroMinimum name => s!"{name}: min must be at least 1"
  | unordered name b =>
    s!"{name}: expected min <= default <= max, got {b.min} / {b.default} / {b.max}"
  | noCode => "limits.max_code_chars must be positive"
  | noOutput => "output.max_stream_bytes must be positive"
  | noInterpreter => "runtime.python must name an interpreter"

def Bounds.check (b : Bounds) (name : String) : Except ConfigFault Unit :=
  if b.min = 0 then .error (.zeroMinimum name)
  else if b.min ≤ b.default ∧ b.default ≤ b.max then .ok ()
  else .error (.unordered name b)

def Config.validate (c : Config) : Except ConfigFault Unit := do
  c.requests.timeoutSeconds.check "limits.timeout_seconds"
  c.requests.memoryMb.check "limits.memory_mb"
  if c.requests.maxCodeChars = 0 then throw .noCode
  if c.output.maxStreamBytes = 0 then throw .noOutput
  if Text.isAllBlank c.runtime.interpreter then throw .noInterpreter

end ScriptSandbox
