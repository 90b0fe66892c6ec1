import ScriptSandbox.Analysis.Report
import ScriptSandbox.Isolation.Outcome
import ScriptSandbox.Sandbox.Event

/-!
Conclusions: what the caller is told about a script that the analysis forbids, and about a run that
is over.
-/

namespace ScriptSandbox

def Report.rejection? (r : Report) : Option Failure :=
  if r.isSafe then none
  else
    some
      { kind := if r.isSyntaxError then .syntaxInvalid else .securityError
        message :=
          match r.blockingIssue? with
          | some issue => s!"line {issue.position.line}: {issue.finding.message}"
          | none => "code was rejected by static analysis" }

/-- Why a run with these limits was no success, if it was none. -/
def Termination.failure? (limits : RunLimits) : Termination → Option Failure
  | completed => none
  | raised exceptionType message => some ⟨.raised exceptionType, message⟩
  | syntaxInvalid (some line) _ message =>
    some ⟨.syntaxInvalid, s!"line {line}: syntax error: {message}"⟩
  | syntaxInvalid none _ message => some ⟨.syntaxInvalid, s!"syntax error: {message}"⟩
  | timedOut =>
    some ⟨.timeoutError, s!"execution exceeded the {limits.timeoutSeconds} second time limit"⟩
  | cpuLimit => some ⟨.timeoutError, "execution exceeded its CPU time limit"⟩
  | memoryExceeded detail =>
    some ⟨.memoryLimitError,
      s!"execution exceeded the {limits.memoryMb} MB memory limit: {detail}"⟩
  | crashed detail => some ⟨.processCrashed, detail⟩

def Failure.result (f : Failure) : ExecutionResult :=
  .failed f.kind f.message

/-- The result of a run with these limits. The variables that the script left behind are told only
if they are wanted and the script came to its end. -/
def Outcome.result (o : Outcome) (scope : Scope) (captureLocals : Bool) (limits : RunLimits) :
    ExecutionResult :=
  let result :=
    match o.termination.failure? limits with
    | some f => f.result.withOutput o.stdout o.stderr
    | none =>
      { ExecutionResult.completed o.stdout o.stderr with
        locals :=
          if captureLocals then some (scope.sanitizeLocals (o.locals.getD .empty)) else none }
  { result with memoryUsedMb := o.peakKb.map megabytes }

/-- The state in which an execution with a result ends. -/
def ExecutionResult.finalState (r : ExecutionResult) : ExecutionState :=
  match r.errorType with
  | none => .completed
  | some label =>
    if label = ErrorKind.timeoutError.label then .timedOut
    else if label = ErrorKind.memoryLimitError.label then .memoryExceeded
    else .failed

end ScriptSandbox
