import ScriptSandbox.Proofs.Sandbox.Paths

/-!
Answers to requests. A request is answered by a fault only if the boundary gave that fault, and by a
result otherwise. A result tells either that the script came to its end or of what kind the failure
is, and it carries what the boundary captured of a run, however the run ended.
-/

namespace ScriptSandbox

def RunConduct.outcome? : RunConduct → Option Outcome
  | ends o => some o
  | fails _ | hangs => none

namespace Moment

/-- What the boundary has done with the run of an execution. It is none if there was no run, or if the
caller gave the run up before. -/
def conduct? (m : Moment) (conduct : Job → RunConduct) : Option RunConduct :=
  if .cancelled ∈ m.states then none else m.jobs.head?.map conduct

def outcome? (m : Moment) (conduct : Job → RunConduct) : Option Outcome :=
  (m.conduct? conduct).bind RunConduct.outcome?

end Moment

/-- A result agrees with itself and with the outcome of the run, if there was one. -/
structure ExecutionResult.Tells (result : ExecutionResult) (captureLocals : Bool)
    (outcome? : Option Outcome) : Prop where
  success_iff : result.success = true ↔ ∃ o ∈ outcome?, o.termination = .completed
  errorType_iff : result.errorType = none ↔ result.success = true
  errorMessage_iff : result.errorMessage = none ↔ result.success = true
  locals_iff : result.locals.isSome = true ↔ result.success = true ∧ captureLocals = true
  stdout_eq : result.stdout = (outcome?.map Outcome.stdout).getD ""
  stderr_eq : result.stderr = (outcome?.map Outcome.stderr).getD ""
  memory_iff : result.memoryUsedMb.isSome = true ↔ ∃ o ∈ outcome?, o.peakKb.isSome = true

/-! ### Results -/

theorem Termination.failure?_eq_none_iff (limits : RunLimits) (t : Termination) :
    t.failure? limits = none ↔ t = .completed := by
  cases t with
  | syntaxInvalid line column message => cases line <;> simp [failure?]
  | _ => simp [failure?]

theorem ExecutionResult.tells_failed (kind : ErrorKind) (message : String) (captureLocals : Bool) :
    (ExecutionResult.failed kind message).Tells captureLocals none := by
  constructor <;> simp [failed]

theorem Outcome.tells_result (o : Outcome) (scope : Scope) (captureLocals : Bool)
    (limits : RunLimits) : (o.result scope captureLocals limits).Tells captureLocals (some o) := by
  have hcompleted := Termination.failure?_eq_none_iff limits o.termination
  unfold result
  cases hfailure : o.termination.failure? limits with
  | none =>
      rw [hfailure] at hcompleted
      constructor <;> simp [ExecutionResult.completed, hcompleted.1 rfl]
  | some f =>
      rw [hfailure] at hcompleted
      have hne : o.termination ≠ .completed := fun heq => by simpa using hcompleted.2 heq
      constructor <;> simp [Failure.result, ExecutionResult.failed, ExecutionResult.withOutput, hne]

/-! ### Executions -/

/-- An execution is answered by the fault that the boundary gave, or by a result that tells of the
outcome that the boundary gave. -/
structure Moment.AnsweredBy (m : Moment) (conduct : Job → RunConduct) (captureLocals : Bool)
    (answer : Except SandboxFault ExecutionResult) : Prop where
  fault_iff : ∀ fault, answer = .error fault ↔ m.conduct? conduct = some (.fails fault)
  tells : ∀ result, answer = .ok result → result.Tells captureLocals (m.outcome? conduct)

namespace Moment.AnsweredBy

variable {m : Moment} {conduct : Job → RunConduct} {captureLocals : Bool}

theorem failed (h : m.conduct? conduct = none) (kind : ErrorKind) (message : String) :
    m.AnsweredBy conduct captureLocals (.ok (.failed kind message)) where
  fault_iff fault := by simp [h]
  tells result hresult := by
    cases hresult
    rw [Moment.outcome?, h]
    exact ExecutionResult.tells_failed kind message captureLocals

theorem faulted {fault : SandboxFault} (h : m.conduct? conduct = some (.fails fault)) :
    m.AnsweredBy conduct captureLocals (.error fault) where
  fault_iff other := by simp [h]
  tells result hresult := by cases hresult

theorem ended {o : Outcome} (h : m.conduct? conduct = some (.ends o)) (scope : Scope)
    (limits : RunLimits) :
    m.AnsweredBy conduct captureLocals (.ok (o.result scope captureLocals limits)) where
  fault_iff fault := by simp [h]
  tells result hresult := by
    cases hresult
    rw [Moment.outcome?, h]
    exact o.tells_result scope captureLocals limits

end Moment.AnsweredBy

namespace Sandbox

variable {s : Sandbox} {r : ExecutionRequest} {conduct : Job → RunConduct} {cancels : Bool}
  {m : Moment}

theorem cancelled_mem_conclude (s : Sandbox) (r : ExecutionRequest) (limits : RunLimits) (job : Job)
    (report : Report) (course : Course) :
    .cancelled ∈ (conclude r limits job (s.startingEvents r limits report) course).events.filterMap
        ExecutionEvent.state? ↔ course = .cancelled := by
  rw [states_conclude, states_startingEvents]
  rcases course with o | fault | -
  · have hfinal : ∀ state ∈ finalStates, state ≠ .cancelled := by decide
    have hne := hfinal _ (o.result job.request.scope r.captureLocals limits).finalState_mem
    simp [statesBehind, hne.symm]
  · simp [statesBehind]
  · simp [statesBehind]

end Sandbox

end ScriptSandbox
