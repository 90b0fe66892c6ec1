import ScriptSandbox.Request.Limits
import ScriptSandbox.Request.Result
import ScriptSandbox.Scope
import ScriptSandbox.Text.Quoted

/-!
What the log tells about a sandbox: how it starts, and the states that the execution of a request
goes through. Refused requests and scripts belong to the audit trail.
-/

namespace ScriptSandbox

structure Failure where
  kind : ErrorKind
  message : String
deriving DecidableEq

inductive ExecutionState
  | received
  | validating
  | rejected
  | validated
  | running
  | cancelled
  | completed
  | timedOut
  | memoryExceeded
  | failed
deriving DecidableEq

def ExecutionState.label : ExecutionState → String
  | received => "RECEIVED"
  | validating => "VALIDATING"
  | rejected => "REJECTED"
  | validated => "VALIDATED"
  | running => "RUNNING"
  | cancelled => "CANCELLED"
  | completed => "COMPLETED"
  | timedOut => "TIMED_OUT"
  | memoryExceeded => "MEMORY_EXCEEDED"
  | failed => "FAILED"

inductive ExecutionEvent
  | received
  | invalidRequest (e : RequestError)
  | analyzing
  | rejected (f : Failure)
  | warned (count : Nat)
  | passed
  | globalDropped (r : RejectedGlobal)
  | started (boundary : String) (limits : RunLimits)
  | faulted (fault : SandboxFault)
  | cancelled
  | modulesMissing (modules : List String)
  | finished (state : ExecutionState) (errorType : Option String)

def ExecutionEvent.state? : ExecutionEvent → Option ExecutionState
  | received => some .received
  | invalidRequest _ => some .rejected
  | analyzing => some .validating
  | rejected _ => some .rejected
  | passed => some .validated
  | started _ _ => some .running
  | cancelled => some .cancelled
  | finished state _ => some state
  | warned _ | globalDropped _ | faulted _ | modulesMissing _ => none

/-- The urgency of an event, its message and what else is told about it. -/
def ExecutionEvent.describe : ExecutionEvent → LogLevel × String × List (String × String)
  | received => (.debug, "Execution requested", [])
  | invalidRequest e => (.warn, "Invalid request", [("error", e.message)])
  | analyzing => (.debug, "Analyzing code", [])
  | rejected f => (.warn, f.message, [("error_type", f.kind.label)])
  | warned count => (.debug, "Analyzer reported warnings", [("warnings", toString count)])
  | passed => (.debug, "Code passed analysis", [])
  | globalDropped r => (.warn, (logEntry r).message, (logEntry r).fields)
  | started boundary limits =>
    (.debug, "Starting isolated run",
      [("boundary", boundary), ("timeout_seconds", toString limits.timeoutSeconds),
        ("memory_mb", toString limits.memoryMb)])
  | faulted fault => (.error, "Sandbox fault", [("error", fault.message)])
  | cancelled => (.debug, "Execution cancelled by caller", [])
  | modulesMissing modules =>
    (.warn, "Preloaded modules are missing from the interpreter",
      [("modules", Text.quotedList modules)])
  | finished _ errorType => (.debug, "Execution finished", [("error_type", errorType.getD "-")])

def ExecutionEvent.isAudit : ExecutionEvent → Bool
  | invalidRequest _ | rejected _ => true
  | _ => false

instance : Loggable ExecutionEvent where
  logEntry e :=
    let (level, message, fields) := e.describe
    { level, message, audit := e.isAudit,
      fields := (e.state?.toList.map fun s => ("state", s.label)) ++ fields }

inductive StartEvent
  /-- Runs have no limits but the one on time. -/
  | degraded
  | policy (w : PolicyWarning)
deriving DecidableEq

instance : Loggable StartEvent where
  logEntry
    | .degraded =>
      { level := .warn,
        message :=
          "Thread isolation enforces the wall-clock timeout only: no memory or CPU ceilings" }
    | .policy w => logEntry w

end ScriptSandbox
