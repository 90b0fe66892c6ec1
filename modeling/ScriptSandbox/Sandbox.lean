import ScriptSandbox.Isolation.Launch
import ScriptSandbox.Sandbox.Conclusion

/-!
The sandbox. A request is checked against the bounds, its script is analyzed, and only a script
that passes is run, in a scope that the policy gives. Whatever the script does ends in a result;
only a failure of the sandbox itself is a fault. Where the limits of a run cannot be added up, the
execution breaks off and nobody gets an answer.
-/

namespace ScriptSandbox

/-- A sandbox that is ready for requests. -/
structure Sandbox where
  config : Config
  policy : Policy
  /-- The name of what separates runs from the sandbox. -/
  boundary : String

/-- What becomes of a run after it has started. -/
inductive Course
  | over (o : Outcome)
  | faulted (fault : SandboxFault)
  | cancelled

def Course.ofExcept : Except SandboxFault Outcome → Course
  | .ok o => .over o
  | .error fault => .faulted fault

/-- What comes of a request: what happened, the run that was started, if one was, and the answer. -/
structure Execution where
  events : List ExecutionEvent
  job? : Option Job
  answer : Except SandboxFault ExecutionResult

def Execution.withElapsed (e : Execution) (seconds : Double) : Execution :=
  { e with answer := e.answer.map fun r => r.withElapsed seconds }

/-- An execution that breaks off: what happened before, and why it went no further. -/
structure Breakdown where
  events : List ExecutionEvent
  message : String

/-- The number of processor seconds for a run, in a word of 64 bits. -/
def cpuSeconds (timeoutSeconds graceSeconds : Nat) : Except String Nat :=
  if timeoutSeconds + graceSeconds ≤ unlimited then .ok (timeoutSeconds + graceSeconds)
  else .error "attempt to add with overflow"

/-- What happens when a sandbox with a configuration starts. -/
def Config.startEvents (c : Config) : List StartEvent :=
  (if c.runtime.isolation = .thread then [.degraded] else []) ++
    (Policy.warnings c.policy).map .policy

namespace Sandbox

/-- The sandbox with a configuration, and with something of this name to separate runs from it. -/
def withBoundary (c : Config) (boundary : String) : Sandbox :=
  ⟨c, .ofTables c.policy, boundary⟩

def ofConfig (c : Config) : Sandbox :=
  withBoundary c c.runtime.isolation.label

def validate (s : Sandbox) (code : String) : Report :=
  analyze s.policy s.config.complexity code

def bounds (s : Sandbox) : RequestBounds :=
  s.config.requests

/-- The run for a request with these limits and so many processor seconds. -/
def jobWith (s : Sandbox) (r : ExecutionRequest) (limits : RunLimits) (cpuSeconds : Nat) : Job where
  request :=
    { code := r.code
      scope := s.policy.scope r.globals
      captureLocals := r.captureLocals
      maxStreamBytes := s.config.output.maxStreamBytes
      maxLocalsBytes := s.config.output.maxLocalsBytes }
  timeoutMs := limits.timeoutSeconds * 1000
  ceilings := { memoryMb := limits.memoryMb, cpuSeconds }

def job (s : Sandbox) (r : ExecutionRequest) (limits : RunLimits) : Except String Job :=
  (cpuSeconds limits.timeoutSeconds s.config.runtime.cpuGraceSeconds).map (s.jobWith r limits)

/-- What happens when a script with this report passes. -/
def passingEvents (report : Report) : List ExecutionEvent :=
  (if report.issues.isEmpty then [] else [.warned report.issues.length]) ++ [.passed]

/-- What happens when the scope for a request is made. -/
def scopeEvents (s : Sandbox) (r : ExecutionRequest) : List ExecutionEvent :=
  (s.policy.rejections r.globals).map .globalDropped

/-- What happens when a script with this report has passed and the scope for it is made. -/
def preparingEvents (s : Sandbox) (r : ExecutionRequest) (report : Report) : List ExecutionEvent :=
  [.received, .analyzing] ++ passingEvents report ++ s.scopeEvents r

/-- What happens until a script that passes has started. -/
def startingEvents (s : Sandbox) (r : ExecutionRequest) (limits : RunLimits) (report : Report) :
    List ExecutionEvent :=
  s.preparingEvents r report ++ [.started s.boundary limits]

/-- What comes of a run that has started, after some events. -/
def conclude (r : ExecutionRequest) (limits : RunLimits) (job : Job)
    (before : List ExecutionEvent) : Course → Execution
  | .cancelled =>
    ⟨before ++ [.cancelled], some job,
      .ok (.failed .cancelled "execution cancelled by caller")⟩
  | .faulted fault => ⟨before ++ [.faulted fault], some job, .error fault⟩
  | .over o =>
    let result := o.result job.request.scope r.captureLocals limits
    ⟨before ++
        (if o.unavailableModules.isEmpty then [] else [.modulesMissing o.unavailableModules]) ++
        [.finished result.finalState result.errorType],
      some job, .ok result⟩

/-- Execute a request, where `course` tells what becomes of a run. -/
def execute (s : Sandbox) (r : ExecutionRequest) (course : Job → Course) :
    Except Breakdown Execution :=
  match r.resolve s.config.requests with
  | .error e =>
    .ok ⟨[.received, .invalidRequest e], none, .ok (.failed .invalidRequest e.message)⟩
  | .ok limits =>
    let report := s.validate r.code
    -- Nothing is started for a script that does not pass.
    match report.rejection? with
    | some f => .ok ⟨[.received, .analyzing, .rejected f], none, .ok f.result⟩
    | none =>
      match s.job r limits with
      | .error message => .error ⟨s.preparingEvents r report, message⟩
      | .ok job => .ok (conclude r limits job (s.startingEvents r limits report) (course job))

end Sandbox

end ScriptSandbox
