import ScriptSandbox.Config
import ScriptSandbox.Json.Value

/-!
Requests to run a script, checked against the configured bounds.
-/

namespace ScriptSandbox

structure ExecutionRequest where
  code : String
  timeoutSeconds : Option Nat := none
  maxMemoryMb : Option Nat := none
  globals : JsonObject := .empty
  captureLocals : Bool := false
  /-- The caller's name for the request. -/
  correlationId : Option String := none

inductive RequestError
  | emptyCode
  | codeTooLong (length max : Nat)
  | timeoutOutOfRange (value : Nat) (bounds : Bounds)
  | memoryOutOfRange (value : Nat) (bounds : Bounds)
deriving DecidableEq

def RequestError.message : RequestError → String
  | emptyCode => "code must not be empty"
  | codeTooLong length max => s!"code is {length} characters long, the maximum is {max}"
  | timeoutOutOfRange value b => s!"timeout_seconds {value} is outside {b.min}..={b.max}"
  | memoryOutOfRange value b => s!"max_memory_mb {value} is outside {b.min}..={b.max}"

structure RunLimits where
  timeoutSeconds : Nat
  memoryMb : Nat
deriving DecidableEq

def ExecutionRequest.codeChars (r : ExecutionRequest) : Nat :=
  r.code.length

/-- The limits of a run, with defaults for those that the request does not name. -/
def ExecutionRequest.resolve (r : ExecutionRequest) (b : RequestBounds) :
    Except RequestError RunLimits :=
  let timeout := r.timeoutSeconds.getD b.timeoutSeconds.default
  let memory := r.maxMemoryMb.getD b.memoryMb.default
  if r.codeChars = 0 then .error .emptyCode
  else if b.maxCodeChars < r.codeChars then .error (.codeTooLong r.codeChars b.maxCodeChars)
  else if !b.timeoutSeconds.contains timeout then
    .error (.timeoutOutOfRange timeout b.timeoutSeconds)
  else if !b.memoryMb.contains memory then .error (.memoryOutOfRange memory b.memoryMb)
  else .ok ⟨timeout, memory⟩

end ScriptSandbox
