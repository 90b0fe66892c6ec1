import ScriptSandbox.Proofs.Analysis.Verdict
import ScriptSandbox.Proofs.Sandbox.Steps

/-!
Paths of executions. The states in the log of an execution are one of three paths, and the boundary is
called once on the path of scripts that pass and never on the others. The run that it is called for is
the one that the request asks for, within the bounds. Only where the time of a run and its grace do not
add up in a word does the execution leave the paths: it breaks off in the middle of the third one.
-/

namespace ScriptSandbox

def finalStates : List ExecutionState :=
  [.completed, .failed, .timedOut, .memoryExceeded]

/-- The states that follow when a run has started. -/
inductive RunConduct.Leads (cancels : Bool) : RunConduct → List ExecutionState → Prop
  | faulted {fault} : Leads cancels (.fails fault) []
  | pending : cancels = false → Leads cancels .hangs []
  | cancelled {conduct} : cancels = true → Leads cancels conduct [.cancelled]
  | ended {o state} : state ∈ finalStates → Leads cancels (.ends o) [state]

/-- The calls of the boundary and the states of an execution that nothing more happens to. -/
inductive ExecutionPath (conduct : Job → RunConduct) (cancels : Bool) :
    List Job → List ExecutionState → Prop
  | refused : ExecutionPath conduct cancels [] [.received, .rejected]
  | rejected : ExecutionPath conduct cancels [] [.received, .validating, .rejected]
  | run {job states} : (conduct job).Leads cancels states →
      ExecutionPath conduct cancels [job]
        ([.received, .validating, .validated, .running] ++ states)

/-- A run is the one that a request asks for: its script unchanged, its limits within the bounds,
and the scope that the policy gives, in which all modules can be imported that the script imports. -/
structure Sandbox.Grants (s : Sandbox) (r : ExecutionRequest) (job : Job) : Prop where
  code_eq : job.request.code = r.code
  timeout_mem : ∃ seconds, s.config.requests.timeoutSeconds.min ≤ seconds ∧
    seconds ≤ s.config.requests.timeoutSeconds.max ∧ job.timeoutMs = seconds * 1000
  memory_mem : s.config.requests.memoryMb.min ≤ job.ceilings.memoryMb ∧
    job.ceilings.memoryMb ≤ s.config.requests.memoryMb.max
  scope_eq : job.request.scope = s.policy.scope r.globals
  imports_subset : ∀ root ∈ (s.validate r.code).imports, root ∈ job.request.scope.allowedImports

/-- A request asks for a run, but its time and the grace do not add up in a word. -/
def Sandbox.Overflows (s : Sandbox) (r : ExecutionRequest) : Prop :=
  ∃ limits, r.resolve s.config.requests = .ok limits ∧ (s.validate r.code).isSafe = true ∧
    unlimited < limits.timeoutSeconds + s.config.runtime.cpuGraceSeconds

/-! ### States -/

theorem ExecutionResult.finalState_mem (result : ExecutionResult) :
    result.finalState ∈ finalStates := by
  unfold finalState
  split
  · decide
  · split
    · decide
    · split <;> decide

namespace Sandbox

variable {s : Sandbox} {r : ExecutionRequest} {conduct : Job → RunConduct} {cancels : Bool}
  {m : Moment}

@[simp] theorem states_preparingEvents (s : Sandbox) (r : ExecutionRequest) (report : Report) :
    (s.preparingEvents r report).filterMap ExecutionEvent.state? =
      [.received, .validating, .validated] := by
  have hwarned : (if report.issues.isEmpty then [] else
      [ExecutionEvent.warned report.issues.length]).filterMap ExecutionEvent.state? = [] := by
    split <;> rfl
  have hdropped : (s.scopeEvents r).filterMap ExecutionEvent.state? = [] := by
    rw [scopeEvents, List.filterMap_map, List.filterMap_eq_nil_iff]
    intro dropped hmem
    rfl
  unfold preparingEvents passingEvents
  simp only [List.filterMap_append, hwarned, hdropped]
  rfl

@[simp] theorem states_startingEvents (s : Sandbox) (r : ExecutionRequest) (limits : RunLimits)
    (report : Report) :
    (s.startingEvents r limits report).filterMap ExecutionEvent.state? =
      [.received, .validating, .validated, .running] := by
  rw [startingEvents, List.filterMap_append, states_preparingEvents]
  rfl

/-- The states that follow when a run has started and has taken its course. -/
def statesBehind (r : ExecutionRequest) (limits : RunLimits) (job : Job) :
    Course → List ExecutionState
  | .over o => [(o.result job.request.scope r.captureLocals limits).finalState]
  | .faulted _ => []
  | .cancelled => [.cancelled]

@[simp] theorem states_conclude (r : ExecutionRequest) (limits : RunLimits) (job : Job)
    (before : List ExecutionEvent) (course : Course) :
    (conclude r limits job before course).events.filterMap ExecutionEvent.state? =
      before.filterMap ExecutionEvent.state? ++ statesBehind r limits job course := by
  rcases course with o | fault | -
  · have hmissing : (if o.unavailableModules.isEmpty then [] else
        [ExecutionEvent.modulesMissing o.unavailableModules]).filterMap
          ExecutionEvent.state? = [] := by
      split <;> rfl
    simp only [conclude, List.filterMap_append, hmissing, List.append_nil]
    rfl
  · simp [conclude, ExecutionEvent.state?, statesBehind]
  · simp [conclude, ExecutionEvent.state?, statesBehind]

theorem exists_leads_of_allows {course : Course} {job : Job}
    (h : (conduct job).Allows cancels course) (limits : RunLimits)
    (before : List ExecutionEvent) :
    ∃ states, (conduct job).Leads cancels states ∧
      (conclude r limits job before course).events.filterMap ExecutionEvent.state? =
        before.filterMap ExecutionEvent.state? ++ states := by
  refine ⟨statesBehind r limits job course, ?_, states_conclude r limits job before course⟩
  generalize conduct job = behaviour at h
  cases h with
  | ended => exact .ended (ExecutionResult.finalState_mem _)
  | faulted => exact .faulted
  | cancelled hcancels => exact .cancelled hcancels

/-! ### Runs -/

theorem rejection?_eq_none_iff {report : Report} :
    report.rejection? = none ↔ report.isSafe = true := by
  unfold Report.rejection?
  split
  · simp [*]
  · simp [*]

theorem within_of_resolve {limits : RunLimits} {b : RequestBounds}
    (h : r.resolve b = .ok limits) :
    (b.timeoutSeconds.min ≤ limits.timeoutSeconds ∧ limits.timeoutSeconds ≤ b.timeoutSeconds.max) ∧
      b.memoryMb.min ≤ limits.memoryMb ∧ limits.memoryMb ≤ b.memoryMb.max := by
  unfold ExecutionRequest.resolve at h
  extract_lets timeout memory at h
  split at h
  · cases h
  split at h
  · cases h
  split at h
  · cases h
  split at h
  · cases h
  rename_i htimeout hmemory
  cases h
  simp only [Bounds.contains, Bool.not_eq_true', Bool.not_eq_false, Bool.and_eq_true,
    decide_eq_true_eq] at htimeout hmemory
  exact ⟨htimeout, hmemory⟩

theorem cpuSeconds_eq_ok_iff {timeout grace seconds : Nat} :
    cpuSeconds timeout grace = .ok seconds ↔
      timeout + grace ≤ unlimited ∧ seconds = timeout + grace := by
  unfold cpuSeconds
  split <;> simp [*, eq_comm]

theorem job_eq_ok_iff {limits : RunLimits} {job : Job} :
    s.job r limits = .ok job ↔
      limits.timeoutSeconds + s.config.runtime.cpuGraceSeconds ≤ unlimited ∧
        job = s.jobWith r limits (limits.timeoutSeconds + s.config.runtime.cpuGraceSeconds) := by
  simp only [Sandbox.job, map_eq_ok, cpuSeconds_eq_ok_iff]
  constructor
  · rintro ⟨_, ⟨hfits, rfl⟩, rfl⟩
    exact ⟨hfits, rfl⟩
  · rintro ⟨hfits, rfl⟩
    exact ⟨_, ⟨hfits, rfl⟩, rfl⟩

theorem job_eq_error_iff {limits : RunLimits} {message : String} :
    s.job r limits = .error message ↔
      unlimited < limits.timeoutSeconds + s.config.runtime.cpuGraceSeconds ∧
        message = "attempt to add with overflow" := by
  rw [Sandbox.job, map_eq_error, cpuSeconds]
  split
  · simp [*]
  · simp [Nat.lt_of_not_le ‹_›, eq_comm]

theorem grants_jobWith {limits : RunLimits} (h : r.resolve s.config.requests = .ok limits)
    (hsafe : (s.validate r.code).isSafe = true) (seconds : Nat) :
    s.Grants r (s.jobWith r limits seconds) where
  code_eq := rfl
  timeout_mem := ⟨limits.timeoutSeconds, (within_of_resolve h).1.1, (within_of_resolve h).1.2, rfl⟩
  memory_mem := (within_of_resolve h).2
  scope_eq := rfl
  imports_subset _ hroot := NameSet.contains_iff.1 (allowsModule_of_isSafe hsafe hroot)

/-- An execution breaks off just where the time of its run and the grace do not add up. -/
theorem execute_eq_error_iff {course : Job → Course} {b : Breakdown} :
    s.execute r course = .error b ↔ s.Overflows r ∧
      b = ⟨s.preparingEvents r (s.validate r.code), "attempt to add with overflow"⟩ := by
  constructor
  · intro h
    obtain ⟨_, -, hexecute⟩ | ⟨limits, hresolve, ⟨_, -, hexecute⟩ |
        ⟨hpassed, ⟨message, hjob, hexecute⟩ | ⟨_, -, hexecute⟩⟩⟩ := execute_cases s r course
    all_goals
      rw [hexecute] at h
      cases h
    obtain ⟨hlarge, rfl⟩ := job_eq_error_iff.1 hjob
    exact ⟨⟨limits, hresolve, rejection?_eq_none_iff.1 hpassed, hlarge⟩, rfl⟩
  · rintro ⟨⟨limits, hresolve, hsafe, hlarge⟩, rfl⟩
    exact execute_of_job_error hresolve (rejection?_eq_none_iff.2 hsafe)
      (job_eq_error_iff.2 ⟨hlarge, rfl⟩) course

theorem not_overflows_of_execute {course : Job → Course} {e : Execution}
    (h : s.execute r course = .ok e) : ¬ s.Overflows r := by
  intro hlarge
  rw [execute_eq_error_iff.2 ⟨hlarge, rfl⟩] at h
  cases h

theorem path_of_execute {course : Course} {e : Execution}
    (h : s.execute r (fun _ => course) = .ok e)
    (hallows : ∀ job ∈ e.job?, (conduct job).Allows cancels course) :
    ExecutionPath conduct cancels e.job?.toList (e.events.filterMap ExecutionEvent.state?) := by
  obtain ⟨_, -, hexecute⟩ | ⟨limits, -, ⟨_, -, hexecute⟩ |
      ⟨-, ⟨_, -, hexecute⟩ | ⟨job, -, hexecute⟩⟩⟩ := execute_cases s r fun _ => course
  all_goals
    rw [hexecute] at h
    cases h
  · exact .refused
  · exact .rejected
  · simp only [job?_conclude] at hallows ⊢
    obtain ⟨states, hleads, hstates⟩ := exists_leads_of_allows (r := r) (hallows _ rfl) limits
      (s.startingEvents r limits (s.validate r.code))
    rw [hstates, states_startingEvents]
    exact .run hleads

theorem calls_of_passed {limits : RunLimits} {job : Job}
    (h : r.resolve s.config.requests = .ok limits)
    (hpassed : (s.validate r.code).rejection? = none) (hjob : s.job r limits = .ok job) :
    ([job] ≠ [] ↔ (∃ limits, r.resolve s.config.requests = .ok limits) ∧
        (s.validate r.code).isSafe = true) ∧
      ∀ own ∈ [job], s.Grants r own := by
  have hsafe := rejection?_eq_none_iff.1 hpassed
  refine ⟨iff_of_true (by simp) ⟨⟨limits, h⟩, hsafe⟩, fun own hown => ?_⟩
  rw [List.mem_singleton.1 hown, (job_eq_ok_iff.1 hjob).2]
  exact grants_jobWith h hsafe _

theorem calls_of_execute {course : Job → Course} {e : Execution}
    (h : s.execute r course = .ok e) :
    (e.job?.toList ≠ [] ↔ (∃ limits, r.resolve s.config.requests = .ok limits) ∧
        (s.validate r.code).isSafe = true) ∧
      ∀ job ∈ e.job?.toList, s.Grants r job := by
  obtain ⟨error, hresolve, hexecute⟩ | ⟨limits, hresolve, ⟨f, hrejected, hexecute⟩ |
      ⟨hpassed, ⟨_, -, hexecute⟩ | ⟨job, hjob, hexecute⟩⟩⟩ := execute_cases s r course
  all_goals
    rw [hexecute] at h
    cases h
  · simp [hresolve]
  · simp [← rejection?_eq_none_iff, hrejected]
  · rw [job?_conclude]
    exact calls_of_passed hresolve hpassed hjob

theorem allows_or_pending (conduct : RunConduct) (cancels : Bool) :
    (∃ course, conduct.Allows cancels course) ∨ conduct = .hangs ∧ cancels = false := by
  cases conduct with
  | ends o => exact .inl ⟨_, .ended⟩
  | fails fault => exact .inl ⟨_, .faulted⟩
  | hangs =>
      cases cancels with
      | true => exact .inl ⟨_, .cancelled rfl⟩
      | false => exact .inr ⟨rfl, rfl⟩

/-- Nothing more happens when an execution has ended or broken off, or when it waits for a run that
never ends and that nobody cancels. -/
theorem stage_of_settled (h : ∀ next, ¬ s.Step r conduct cancels m next) :
    (∃ answer, m.stage = .ended answer) ∨ (∃ message, m.stage = .brokenOff message) ∨
      ∃ limits job, m.stage = .running limits job ∧ conduct job = .hangs ∧ cancels = false := by
  obtain ⟨stage, events, jobs⟩ := m
  cases stage with
  | received =>
      cases hresolve : r.resolve s.config.requests with
      | error e => exact absurd (.refuse hresolve) (h _)
      | ok limits => exact absurd (.resolve hresolve) (h _)
  | resolved limits =>
      cases hrejected : (s.validate r.code).rejection? with
      | some f => exact absurd (.reject hrejected) (h _)
      | none => exact absurd (.pass hrejected) (h _)
  | passed limits =>
      cases hjob : s.job r limits with
      | error message => exact absurd (.breakOff hjob) (h _)
      | ok job => exact absurd (.launch hjob) (h _)
  | running limits job =>
      rcases allows_or_pending (conduct job) cancels with ⟨course, hallows⟩ | hpending
      · exact absurd (.settle hallows) (h _)
      · exact .inr (.inr ⟨limits, job, rfl, hpending⟩)
  | ended answer => exact .inl ⟨answer, rfl⟩
  | brokenOff message => exact .inr (.inl ⟨message, rfl⟩)

/-- An execution waits for a run that never ends and that nobody cancels. -/
structure Waits (s : Sandbox) (r : ExecutionRequest) (conduct : Job → RunConduct) (cancels : Bool)
    (m : Moment) (limits : RunLimits) (job : Job) : Prop where
  stage_eq : m.stage = .running limits job
  pending : conduct job = .hangs ∧ cancels = false
  resolves : r.resolve s.config.requests = .ok limits
  passes : (s.validate r.code).rejection? = none
  job_eq : s.job r limits = .ok job
  events_eq : m.events = s.startingEvents r limits (s.validate r.code)
  jobs_eq : m.jobs = [job]

/-- When nothing more happens, an execution has gone as `Sandbox.execute` says for some course of its
run, or it waits for a run. -/
theorem Runs.cases (h : s.Runs r conduct cancels m) :
    (∃ course answer, m.stage = .ended answer ∧
      (∀ job ∈ m.jobs.head?, (conduct job).Allows cancels course) ∧ m.jobs = m.jobs.head?.toList ∧
      s.execute r (fun _ => course) = .ok ⟨m.events, m.jobs.head?, answer⟩) ∨
    (∃ message, m.stage = .brokenOff message ∧ m.jobs = [] ∧
      ∀ course, s.execute r course = .error ⟨m.events, message⟩) ∨
    ∃ limits job, s.Waits r conduct cancels m limits job := by
  obtain ⟨hreaches, hsettled⟩ := h
  have hsound := sound_of_reaches hreaches
  unfold Sound at hsound
  rcases stage_of_settled hsettled with
    ⟨answer, hstage⟩ | ⟨message, hstage⟩ | ⟨limits, job, hstage, hpending⟩ <;> rw [hstage] at hsound
  · obtain ⟨course, job?, hallows, hexecute, hjobs⟩ := hsound
    have hhead : m.jobs.head? = job? := by rw [hjobs, Option.head?_toList]
    rw [← hhead] at hallows hexecute hjobs
    exact .inl ⟨course, answer, hstage, hallows, hjobs, hexecute⟩
  · obtain ⟨limits, hresolve, hpassed, hjob, hevents, hjobs⟩ := hsound
    refine .inr (.inl ⟨message, hstage, hjobs, fun course => ?_⟩)
    rw [execute_of_job_error hresolve hpassed hjob, hevents]
  · obtain ⟨hresolve, hpassed, hjob, hevents, hjobs⟩ := hsound
    exact .inr (.inr ⟨limits, job, hstage, hpending, hresolve, hpassed, hjob, hevents, hjobs⟩)

theorem reaches_running {limits : RunLimits} {job : Job}
    (h : r.resolve s.config.requests = .ok limits)
    (hpassed : (s.validate r.code).rejection? = none) (hjob : s.job r limits = .ok job) :
    Relation.ReflTransGen (s.Step r conduct cancels) .initial
      ⟨.running limits job, s.startingEvents r limits (s.validate r.code), [job]⟩ :=
  ((Relation.ReflTransGen.single (.resolve h)).tail (.pass hpassed)).tail (.launch hjob)

/-- Every execution comes to a moment after which nothing more happens. -/
theorem exists_runs (s : Sandbox) (r : ExecutionRequest) (conduct : Job → RunConduct)
    (cancels : Bool) : ∃ m, s.Runs r conduct cancels m := by
  have hended {answer events jobs} :
      ∀ next, ¬ s.Step r conduct cancels ⟨.ended answer, events, jobs⟩ next := by
    intro next hstep
    cases hstep
  cases hresolve : r.resolve s.config.requests with
  | error e => exact ⟨_, .single (.refuse hresolve), hended⟩
  | ok limits =>
      have hresolved : Relation.ReflTransGen (s.Step r conduct cancels) .initial _ :=
        .single (.resolve hresolve)
      cases hrejected : (s.validate r.code).rejection? with
      | some f => exact ⟨_, hresolved.tail (.reject hrejected), hended⟩
      | none =>
          cases hjob : s.job r limits with
          | error message =>
              refine ⟨_, (hresolved.tail (.pass hrejected)).tail (.breakOff hjob), ?_⟩
              intro next hstep
              cases hstep
          | ok job =>
              have hrunning : Relation.ReflTransGen (s.Step r conduct cancels) .initial _ :=
                reaches_running hresolve hrejected hjob
              rcases allows_or_pending (conduct job) cancels with
                ⟨course, hallows⟩ | ⟨hhangs, hcancels⟩
              · exact ⟨_, hrunning.tail (.settle hallows), hended⟩
              · refine ⟨_, hrunning, fun next hstep => ?_⟩
                cases hstep with
                | settle hallows =>
                    rw [hhangs] at hallows
                    cases hallows with
                    | cancelled hgivenUp =>
                        rw [hcancels] at hgivenUp
                        cases hgivenUp

/-- Where the time of a run and its grace do not add up, nothing is run and the log ends there. -/
theorem Runs.of_overflows (h : s.Runs r conduct cancels m) (hlarge : s.Overflows r) :
    m.jobs = [] ∧ m.states = [.received, .validating, .validated] ∧
      m.stage = .brokenOff "attempt to add with overflow" := by
  rcases h.cases with ⟨_, _, _, _, _, hexecute⟩ | ⟨message, hstage, hjobs, hbreaks⟩ | ⟨_, _, hwaits⟩
  · exact absurd hlarge (not_overflows_of_execute hexecute)
  · obtain ⟨-, hbreakdown⟩ := execute_eq_error_iff.1 (hbreaks fun _ => .cancelled)
    injection hbreakdown with hevents hmessage
    refine ⟨hjobs, ?_, hmessage ▸ hstage⟩
    rw [Moment.states, hevents, states_preparingEvents]
  · exact absurd hlarge (not_overflows_of_execute
      (execute_of_passed hwaits.resolves hwaits.passes hwaits.job_eq fun _ => .cancelled))

theorem not_executionPath_brokenOff {jobs : List Job} :
    ¬ ExecutionPath conduct cancels jobs [.received, .validating, .validated] := by
  rintro ⟨⟩

end Sandbox

/-- The log of an execution takes one of three paths, and the boundary is called exactly when the
request resolves and its script is safe, once on the path of a run and never on the others, unless the
time of the run and its grace do not add up in a word: then the log ends before the run and the boundary
is not called. The call is for the run that the request asks for, and what ends has gone as
`Sandbox.execute` says. -/
theorem execution_path (s : Sandbox) (r : ExecutionRequest) (conduct : Job → RunConduct)
    (cancels : Bool) :
    (∃ m, s.Runs r conduct cancels m) ∧
    ∀ m, s.Runs r conduct cancels m →
      (ExecutionPath conduct cancels m.jobs m.states ∧
          (m.jobs ≠ [] ↔ (∃ limits, r.resolve s.config.requests = .ok limits) ∧
            (s.validate r.code).isSafe = true) ↔ ¬ s.Overflows r) ∧
      (s.Overflows r → m.jobs = [] ∧ m.states = [.received, .validating, .validated] ∧
        m.stage = .brokenOff "attempt to add with overflow") ∧
      (∀ job ∈ m.jobs, s.Grants r job) ∧
      ∀ answer, m.stage = .ended answer → ∃ course,
        (∀ job ∈ m.jobs, (conduct job).Allows cancels course) ∧
        s.execute r (fun _ => course) = .ok ⟨m.events, m.jobs.head?, answer⟩ := by
  refine ⟨Sandbox.exists_runs s r conduct cancels, fun m hruns => ?_⟩
  rcases hruns.cases with ⟨course, answer, hstage, hallows, hjobs, hexecute⟩ |
    ⟨message, hstage, hjobs, hbreaks⟩ | ⟨limits, job, hwaits⟩
  · -- The execution has ended, as `Sandbox.execute` says for some course of the run.
    have hfits := Sandbox.not_overflows_of_execute hexecute
    have hpath := Sandbox.path_of_execute hexecute hallows
    have hcalls := Sandbox.calls_of_execute hexecute
    rw [← hjobs] at hpath hcalls
    refine ⟨iff_of_true ⟨hpath, hcalls.1⟩ hfits, fun hlarge => absurd hlarge hfits, hcalls.2,
      fun other hover => ?_⟩
    rw [hstage] at hover
    cases hover
    refine ⟨course, fun job hjob => hallows job ?_, hexecute⟩
    rwa [hjobs, Option.mem_toList] at hjob
  · -- The execution has broken off, so it is on no path.
    obtain ⟨hlarge, -⟩ := Sandbox.execute_eq_error_iff.1 (hbreaks fun _ => .cancelled)
    have hbroken := hruns.of_overflows hlarge
    refine ⟨iff_of_false (fun h => ?_) (not_not_intro hlarge), fun _ => hbroken, ?_, ?_⟩
    · rw [hbroken.2.1] at h
      exact Sandbox.not_executionPath_brokenOff h.1
    · simp [hjobs]
    · simp [hstage]
  · -- The execution waits for ever: its log ends where the run has started.
    obtain ⟨hstage, hpending, hresolve, hpassed, hjob, hevents, hjobs⟩ := hwaits
    have hcalls := Sandbox.calls_of_passed hresolve hpassed hjob
    have hfits := Sandbox.not_overflows_of_execute
      (Sandbox.execute_of_passed hresolve hpassed hjob fun _ => .cancelled)
    rw [← hjobs] at hcalls
    have hleads : (conduct job).Leads cancels [] := by
      rw [hpending.1]
      exact .pending hpending.2
    have hpath : ExecutionPath conduct cancels m.jobs m.states := by
      rw [Moment.states, hevents, Sandbox.states_startingEvents, hjobs]
      exact .run hleads
    refine ⟨iff_of_true ⟨hpath, hcalls.1⟩ hfits, fun hlarge => absurd hlarge hfits, hcalls.2,
      fun answer hover => ?_⟩
    rw [hstage] at hover
    cases hover

/-- With the greatest grace of all there is no run for a script that passes, and its log ends where one
would have to start. -/
theorem execution_breaks_off :
    let s := Sandbox.ofConfig { runtime := { cpuGraceSeconds := 18446744073709551615 } }
    let r : ExecutionRequest := { code := "x = 1" }
    ∃ m, s.Runs r (fun _ => .hangs) false m ∧ m.jobs = [] ∧
      m.states = [.received, .validating, .validated] ∧
      (∃ limits, r.resolve s.config.requests = .ok limits) ∧ (s.validate r.code).isSafe = true ∧
      ¬ ExecutionPath (fun _ => .hangs) false m.jobs m.states := by
  intro s r
  have hresolve : r.resolve s.config.requests = .ok ⟨30, 512⟩ := by decide
  have hsafe : (s.validate r.code).isSafe = true := by decide +kernel
  obtain ⟨m, hruns⟩ := s.exists_runs r (fun _ => .hangs) false
  obtain ⟨hjobs, hstates, -⟩ := hruns.of_overflows ⟨_, hresolve, hsafe, by decide⟩
  refine ⟨m, hruns, hjobs, hstates, ⟨_, hresolve⟩, hsafe, ?_⟩
  rw [hstates]
  exact Sandbox.not_executionPath_brokenOff

end ScriptSandbox
