import ScriptSandbox.Proofs.Sandbox.Answers

/-!
Final states. The log of a run that comes to an outcome ends in a state that is read off the name of
the failure, and the name of an exception is for the script to choose. So the state tells how the
run ended, except of scripts that raise an exception with the name of a limit.
-/

namespace ScriptSandbox

namespace Termination

def state : Termination → ExecutionState
  | completed => .completed
  | timedOut | cpuLimit => .timedOut
  | memoryExceeded _ => .memoryExceeded
  | raised _ _ | syntaxInvalid _ _ _ | crashed _ => .failed

/-- An exception was raised that has the name of a limit. -/
def FeignsLimit (t : Termination) : Prop :=
  ∃ name ∈ ["TimeoutError", "MemoryLimitError"], ∃ message, t = .raised name message

/-- The log of runs that end in some way ends in this state. -/
structure EndsIn (t : Termination) (final : ExecutionState) : Prop where
  completed_iff : final = .completed ↔ t = .completed
  timedOut_iff : final = .timedOut ↔
    t = .timedOut ∨ t = .cpuLimit ∨ ∃ message, t = .raised "TimeoutError" message
  memoryExceeded_iff : final = .memoryExceeded ↔
    (∃ detail, t = .memoryExceeded detail) ∨ ∃ message, t = .raised "MemoryLimitError" message
  failed_iff : final = .failed ↔ t.state = .failed ∧ ¬ t.FeignsLimit
  eq_state_iff : final = t.state ↔ ¬ t.FeignsLimit

/-- The name of an exception is the only thing that can mislead. -/
theorem endsIn_state {t : Termination} (h : ∀ name message, t ≠ .raised name message) :
    t.EndsIn t.state := by
  have hfeigns : ¬ t.FeignsLimit := by
    rintro ⟨name, -, message, heq⟩
    exact h name message heq
  constructor
  case failed_iff | eq_state_iff => simp [hfeigns]
  all_goals cases t <;> simp_all [state]

theorem endsIn_raised (name message : String) :
    (raised name message).EndsIn
      (if name = "TimeoutError" then .timedOut
        else if name = "MemoryLimitError" then .memoryExceeded else .failed) := by
  have hfeigns : (raised name message).FeignsLimit ↔
      name = "TimeoutError" ∨ name = "MemoryLimitError" := by
    simp [FeignsLimit]
  by_cases htime : name = "TimeoutError"
  · subst htime
    constructor <;> simp [hfeigns, state]
  · by_cases hmemory : name = "MemoryLimitError"
    · subst hmemory
      constructor <;> simp [hfeigns, state]
    · constructor <;> simp [hfeigns, state, htime, hmemory]

end Termination

theorem Outcome.endsIn_finalState (o : Outcome) (scope : Scope) (captureLocals : Bool)
    (limits : RunLimits) :
    o.termination.EndsIn (o.result scope captureLocals limits).finalState := by
  cases hover : o.termination with
  | raised name message =>
      have hstate : (o.result scope captureLocals limits).finalState =
          if name = "TimeoutError" then .timedOut
          else if name = "MemoryLimitError" then .memoryExceeded else .failed := by
        simp only [result, hover, Termination.failure?]
        rfl
      rw [hstate]
      exact Termination.endsIn_raised name message
  | syntaxInvalid line column message =>
      have hstate : (o.result scope captureLocals limits).finalState = .failed := by
        cases line <;> (simp only [result, hover, Termination.failure?]; rfl)
      rw [hstate]
      exact Termination.endsIn_state (by simp)
  | completed | timedOut | cpuLimit | memoryExceeded detail | crashed detail =>
      simp only [result, hover, Termination.failure?]
      exact Termination.endsIn_state (by simp)

/-! ### Runs -/

theorem RunConduct.outcome?_eq_some_iff {conduct : RunConduct} {o : Outcome} :
    conduct.outcome? = some o ↔ conduct = .ends o := by
  cases conduct <;> simp [outcome?]

theorem Moment.outcome?_eq_some_iff {m : Moment} {conduct : Job → RunConduct} {o : Outcome} :
    m.outcome? conduct = some o ↔
      .cancelled ∉ m.states ∧ ∃ job, m.jobs.head? = some job ∧ conduct job = .ends o := by
  rw [outcome?, conduct?]
  split
  · simp [*]
  · simp [*, Option.bind_eq_some_iff, RunConduct.outcome?_eq_some_iff]

namespace Sandbox

variable {s : Sandbox} {r : ExecutionRequest} {conduct : Job → RunConduct} {cancels : Bool}
  {m : Moment} {o : Outcome}

theorem exists_runs_of_ends {limits : RunLimits} {job : Job}
    (h : r.resolve s.config.requests = .ok limits)
    (hpassed : (s.validate r.code).rejection? = none) (hjob : s.job r limits = .ok job)
    (hends : conduct job = .ends o) :
    ∃ m, s.Runs r conduct cancels m ∧ m.outcome? conduct = some o := by
  have hallows : (conduct job).Allows cancels (.over o) := by
    rw [hends]
    exact .ended
  refine ⟨_, ⟨(reaches_running h hpassed hjob).tail (.settle hallows), fun next hstep => ?_⟩, ?_⟩
  · cases hstep
  refine Moment.outcome?_eq_some_iff.2 ⟨fun hmem => ?_, job, rfl, hends⟩
  have hcourse := (cancelled_mem_conclude s r limits _ (s.validate r.code) (.over o)).1 hmem
  cases hcourse

theorem states_of_execute {job : Job} {answer : Except SandboxFault ExecutionResult}
    {course : Course} (h : s.execute r (fun _ => course) = .ok ⟨m.events, some job, answer⟩)
    (hallows : (conduct job).Allows cancels course) (hends : conduct job = .ends o)
    (hcancelled : .cancelled ∉ m.states) :
    ∃ final, m.states = [.received, .validating, .validated, .running, final] ∧
      o.termination.EndsIn final := by
  obtain ⟨limits, -, -, -, hconclude⟩ := passed_of_execute h rfl
  have hstates := states_conclude r limits job
    (s.startingEvents r limits (s.validate r.code)) course
  rw [← hconclude, states_startingEvents] at hstates
  change m.states = _ at hstates
  rw [hends] at hallows
  cases hallows with
  | ended => exact ⟨_, hstates, o.endsIn_finalState _ _ _⟩
  | cancelled _ =>
      rw [hstates] at hcancelled
      exact absurd (by simp [statesBehind]) hcancelled

theorem states_of_runs (h : s.Runs r conduct cancels m) (houtcome : m.outcome? conduct = some o) :
    ∃ final, m.states = [.received, .validating, .validated, .running, final] ∧
      o.termination.EndsIn final := by
  obtain ⟨hcancelled, job, hhead, hends⟩ := Moment.outcome?_eq_some_iff.1 houtcome
  rcases h.cases with ⟨course, answer, -, hallows, -, hexecute⟩ | ⟨_, -, hjobs, -⟩ | ⟨_, _, hwaits⟩
  · rw [hhead] at hexecute
    exact states_of_execute hexecute (hallows job hhead) hends hcancelled
  · -- Nothing was run, so there is no outcome.
    rw [hjobs] at hhead
    cases hhead
  · -- The execution waits for a run without an end, so there is no outcome.
    rw [hwaits.jobs_eq] at hhead
    cases hhead
    exact absurd (hends.symm.trans hwaits.pending.1) (by simp)

end Sandbox

/-- Every outcome of the boundary is the outcome of a run that nobody gives up. The log of the run
ends in the state for the way in which it ended, unless the script raised an exception with the name
of a limit: then it ends as if the limit had been reached. -/
theorem final_state_of_runs (s : Sandbox) (r : ExecutionRequest) (conduct : Job → RunConduct)
    (cancels : Bool) :
    (∀ limits job o, r.resolve s.config.requests = .ok limits → (s.validate r.code).isSafe = true →
      s.job r limits = .ok job → conduct job = .ends o →
        ∃ m, s.Runs r conduct cancels m ∧ m.outcome? conduct = some o) ∧
    ∀ m o, s.Runs r conduct cancels m → m.outcome? conduct = some o →
      ∃ final, m.states = [.received, .validating, .validated, .running, final] ∧
        o.termination.EndsIn final := by
  refine ⟨fun limits job o hresolve hsafe hjob hends => ?_, fun m o => Sandbox.states_of_runs⟩
  exact Sandbox.exists_runs_of_ends hresolve (Sandbox.rejection?_eq_none_iff.2 hsafe) hjob hends

def Sandbox.small : Sandbox :=
  withBoundary { policy :=
    { allowedModules := ["math"], blockedCalls := ["eval"], blockedAttributes := ["__class__"],
      blockedModuleNames := ["sys"] } } "process"

def Outcome.raising (name : String) : Outcome where
  stdout := ""
  stderr := ""
  locals := none
  termination := .raised name ""
  peakKb := none
  unavailableModules := []

/-- The exception of a missing key is a failure, also where the caller could give the run up. -/
theorem final_state_of_runs_key_error :
    ∃ m, Sandbox.small.Runs { code := "ages[0]", captureLocals := true }
        (fun _ => .ends (.raising "KeyError")) true m ∧
      m.outcome? (fun _ => .ends (.raising "KeyError")) = some (.raising "KeyError") ∧
      m.states = [.received, .validating, .validated, .running, .failed] := by
  obtain ⟨hexists, hfinal⟩ := final_state_of_runs Sandbox.small
    { code := "ages[0]", captureLocals := true } (fun _ => .ends (.raising "KeyError")) true
  obtain ⟨m, hruns, houtcome⟩ := hexists ⟨30, 512⟩ _ _ (by decide) (by decide +kernel) rfl rfl
  obtain ⟨final, hstates, hends⟩ := hfinal m _ hruns houtcome
  have hname : ¬ (Outcome.raising "KeyError").termination.FeignsLimit := by
    simp [Termination.FeignsLimit, Outcome.raising]
  rw [hends.failed_iff.2 ⟨rfl, hname⟩] at hstates
  exact ⟨m, hruns, houtcome, hstates⟩

/-- The exception that scripts raise when something takes too long is logged as if the time of the
run had been over. -/
theorem exception_logged_as_timeout :
    ∃ m, Sandbox.small.Runs { code := "raise TimeoutError" }
        (fun _ => .ends (.raising "TimeoutError")) false m ∧
      m.outcome? (fun _ => .ends (.raising "TimeoutError")) = some (.raising "TimeoutError") ∧
      m.states = [.received, .validating, .validated, .running, .timedOut] := by
  have hresolve : ({ code := "raise TimeoutError" } : ExecutionRequest).resolve
      Sandbox.small.config.requests = .ok ⟨30, 512⟩ := by decide
  have hexists : ∃ m, Sandbox.small.Runs { code := "raise TimeoutError" }
      (fun _ => .ends (.raising "TimeoutError")) false m ∧
        m.outcome? (fun _ => .ends (.raising "TimeoutError")) = some (.raising "TimeoutError") :=
    Sandbox.exists_runs_of_ends hresolve (by decide +kernel) rfl rfl
  obtain ⟨m, hruns, houtcome⟩ := hexists
  obtain ⟨final, hstates, hends⟩ := Sandbox.states_of_runs hruns houtcome
  rw [hends.timedOut_iff.2 (.inr (.inr ⟨_, rfl⟩))] at hstates
  exact ⟨m, hruns, houtcome, hstates⟩

end ScriptSandbox
