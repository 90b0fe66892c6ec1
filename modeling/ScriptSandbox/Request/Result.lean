import ScriptSandbox.Json.Value

/-!
What a caller is told about a run, and how runs can fail. What the submitted script causes is a
result; only a failure of the sandbox itself is a fault.
-/

namespace ScriptSandbox

inductive ErrorKind
  | syntaxInvalid
  | securityError
  | timeoutError
  | memoryLimitError
  | invalidRequest
  | cancelled
  | processCrashed
  | raised (exceptionType : String)
deriving DecidableEq

def ErrorKind.label : ErrorKind → String
  | syntaxInvalid => "SyntaxInvalid"
  | securityError => "SecurityError"
  | timeoutError => "TimeoutError"
  | memoryLimitError => "MemoryLimitError"
  | invalidRequest => "InvalidRequest"
  | cancelled => "Cancelled"
  | processCrashed => "ProcessCrashed"
  | raised exceptionType => exceptionType

/-- Whether a run of this kind was refused before anything was started. -/
def ErrorKind.isPreExecution : ErrorKind → Bool
  | syntaxInvalid | securityError | invalidRequest => true
  | _ => false

/-- A failure of the sandbox, for which the script is not to blame. -/
inductive SandboxFault
  | scratch (cause : String)
  | spawn (program cause : String)
  /-- The child said something that it may not say. -/
  | protocol (detail : String)
  | setup (detail : String)
  /-- The part of the sandbox that watches the child failed. -/
  | worker (detail : String)
deriving DecidableEq

def SandboxFault.message : SandboxFault → String
  | scratch cause => s!"failed to create scratch directory: {cause}"
  | spawn program cause => s!"failed to spawn {program}: {cause}"
  | protocol detail => s!"child protocol error: {detail}"
  | setup detail => s!"child setup failed: {detail}"
  | worker detail => s!"worker failed: {detail}"

/-- The wording of what the operating system said about a fault. -/
def SandboxFault.cause? : SandboxFault → Option String
  | scratch cause => some cause
  | spawn _ cause => some cause
  | _ => none

structure ExecutionResult where
  success : Bool
  stdout : String
  stderr : String
  errorType : Option String
  errorMessage : Option String
  executionTimeSeconds : Double := .ofNat 0
  memoryUsedMb : Option Double := none
  locals : Option JsonObject := none

namespace ExecutionResult

def completed (stdout stderr : String) : ExecutionResult :=
  { success := true, stdout, stderr, errorType := none, errorMessage := none }

def failed (kind : ErrorKind) (message : String) : ExecutionResult :=
  { success := false, stdout := "", stderr := "", errorType := some kind.label,
    errorMessage := some message }

def withOutput (r : ExecutionResult) (stdout stderr : String) : ExecutionResult :=
  { r with stdout, stderr }

def withElapsed (r : ExecutionResult) (seconds : Double) : ExecutionResult :=
  { r with executionTimeSeconds := seconds }

end ExecutionResult

def megabytes (kb : Nat) : Double :=
  (Double.ofNat kb).div (.ofNat 1024)

end ScriptSandbox
