import ScriptSandbox.Proofs.Sandbox.FinalStates

/-!
Kinds of failures. Three kinds stand for scripts that are refused before anything is started. A failure
of such a kind that has called the boundary nevertheless is one of a script that passed the analysis
and was found to be malformed by the child; of all other executions the kind tells whether there was a
run.
-/

namespace ScriptSandbox

/-- Why a run with this course is no success, if it has a result that is none. -/
def Course.failure? (limits : RunLimits) : Course → Option Failure
  | .over o => o.termination.failure? limits
  | .faulted _ => none
  | .cancelled => some ⟨.cancelled, "execution cancelled by caller"⟩

namespace Sandbox

/-- The failure that an execution ends with, if it ends with one. -/
def failure? (s : Sandbox) (r : ExecutionRequest) (course : Job → Course) : Option Failure :=
  match r.resolve s.config.requests with
  | .error e => some ⟨.invalidRequest, e.message⟩
  | .ok limits =>
    match (s.validate r.code).rejection? with
    | some f => some f
    | none =>
      match s.job r limits with
      | .error _ => none
      | .ok job => (course job).failure? limits

/-- An execution has ended with a failure, which is that of a course that its run could take. -/
def FailsWith (s : Sandbox) (r : ExecutionRequest) (conduct : Job → RunConduct) (cancels : Bool)
    (m : Moment) (f : Failure) : Prop :=
  ∃ course answer, m.stage = .ended answer ∧
    (∀ job ∈ m.jobs.head?, (conduct job).Allows cancels course) ∧
    s.execute r (fun _ => course) = .ok ⟨m.events, m.jobs.head?, answer⟩ ∧
    s.failure? r (fun _ => course) = some f

end Sandbox

/-- A result tells of a failure, or of none. -/
structure ExecutionResult.Reports (result : ExecutionResult) (failure? : Option Failure) : Prop where
  errorType_eq : result.errorType = failure?.map (·.kind.label)
  errorMessage_eq : result.errorMessage = failure?.map Failure.message

/-- The child of a run has found that the script is malformed. -/
def Moment.FindsMalformed (m : Moment) (conduct : Job → RunConduct) : Prop :=
  ∃ o line column message, m.outcome? conduct = some o ∧
    o.termination = .syntaxInvalid line column message

/-! ### Kinds -/

theorem Termination.isPreExecution_iff {t : Termination} {limits : RunLimits} {f : Failure}
    (h : t.failure? limits = some f) :
    f.kind.isPreExecution = true ↔ ∃ line column message, t = .syntaxInvalid line column message := by
  cases t with
  | completed => cases h
  | syntaxInvalid line column message =>
      have hkind : f.kind = .syntaxInvalid := by
        cases line with
        | none => cases h; rfl
        | some n => cases h; rfl
      rw [hkind]
      exact iff_of_true rfl ⟨_, _, _, rfl⟩
  | raised | timedOut | cpuLimit | memoryExceeded | crashed =>
      cases h
      simp [ErrorKind.isPreExecution]

theorem Report.isPreExecution_of_rejection? {report : Report} {f : Failure}
    (h : report.rejection? = some f) : f.kind.isPreExecution = true := by
  unfold rejection? at h
  split at h
  · cases h
  · cases h
    dsimp only
    split <;> rfl

namespace Sandbox

variable {s : Sandbox} {r : ExecutionRequest} {conduct : Job → RunConduct} {cancels : Bool}
  {m : Moment} {f : Failure} {limits : RunLimits}

theorem failure?_of_error {e : RequestError} (h : r.resolve s.config.requests = .error e)
    (course : Job → Course) : s.failure? r course = some ⟨.invalidRequest, e.message⟩ := by
  rw [failure?, h]

theorem failure?_of_rejection (h : r.resolve s.config.requests = .ok limits)
    (hrejected : (s.validate r.code).rejection? = some f) (course : Job → Course) :
    s.failure? r course = some f := by
  rw [failure?, h]
  dsimp only
  rw [hrejected]

theorem failure?_of_passed {job : Job} (h : r.resolve s.config.requests = .ok limits)
    (hpassed : (s.validate r.code).rejection? = none) (hjob : s.job r limits = .ok job)
    (course : Job → Course) : s.failure? r course = (course job).failure? limits := by
  rw [failure?, h]
  dsimp only
  rw [hpassed]
  dsimp only
  rw [hjob]

/-! ### Results -/

theorem reports_conclude {job : Job} {before : List ExecutionEvent} {course : Course}
    {result : ExecutionResult} (h : (conclude r limits job before course).answer = .ok result) :
    result.Reports (course.failure? limits) := by
  rcases course with o | fault | -
  · cases h
    rw [Course.failure?, Outcome.result]
    cases o.termination.failure? limits with
    | none => exact ⟨rfl, rfl⟩
    | some f => exact ⟨rfl, rfl⟩
  · cases h
  · cases h
    exact ⟨rfl, rfl⟩

theorem reports_execute {course : Job → Course} {e : Execution} {result : ExecutionResult}
    (h : s.execute r course = .ok e) (hanswer : e.answer = .ok result) :
    result.Reports (s.failure? r course) := by
  obtain ⟨_, hresolve, hexecute⟩ | ⟨limits, hresolve, ⟨f, hrejected, hexecute⟩ |
      ⟨hpassed, ⟨_, -, hexecute⟩ | ⟨job, hjob, hexecute⟩⟩⟩ := execute_cases s r course
  all_goals
    rw [hexecute] at h
    cases h
  · rw [failure?_of_error hresolve]
    cases hanswer
    exact ⟨rfl, rfl⟩
  · rw [failure?_of_rejection hresolve hrejected]
    cases hanswer
    exact ⟨rfl, rfl⟩
  · rw [failure?_of_passed hresolve hpassed hjob]
    exact reports_conclude hanswer

theorem exists_failsWith {result : ExecutionResult} {label : String}
    (h : s.Runs r conduct cancels m) (hstage : m.stage = .ended (.ok result))
    (hlabel : result.errorType = some label) :
    ∃ f, s.FailsWith r conduct cancels m f ∧ f.kind.label = label ∧
      result.errorMessage = some f.message := by
  rcases h.cases with ⟨course, answer, hended, hallows, -, hexecute⟩ | ⟨_, hbroken, -⟩ |
    ⟨_, _, hwaits⟩
  · rw [hstage] at hended
    cases hended
    obtain ⟨htype, hmessage⟩ := reports_execute hexecute rfl
    rw [hlabel] at htype
    obtain ⟨f, hf, hkind⟩ := Option.map_eq_some_iff.1 htype.symm
    rw [hf] at hmessage
    exact ⟨f, ⟨course, _, hstage, hallows, hexecute, hf⟩, hkind, hmessage⟩
  · rw [hstage] at hbroken
    cases hbroken
  · exact absurd (hstage.symm.trans hwaits.stage_eq) (by simp)

/-! ### Calls of the boundary -/

theorem findsMalformed_iff {job : Job} {course : Course} (hjobs : m.jobs.head? = some job)
    (hallows : (conduct job).Allows cancels course)
    (hcancelled : .cancelled ∈ m.states ↔ course = .cancelled)
    (hf : course.failure? limits = some f) :
    m.FindsMalformed conduct ↔ f.kind.isPreExecution = true := by
  unfold Moment.FindsMalformed
  simp only [Moment.outcome?_eq_some_iff, hjobs, hcancelled]
  generalize hconduct : conduct job = behaviour at hallows
  cases hallows with
  | @ended o =>
      rw [Termination.isPreExecution_iff hf]
      constructor
      · rintro ⟨_, line, column, message, ⟨-, _, ⟨⟩, hends⟩, hmalformed⟩
        rw [hconduct] at hends
        cases hends
        exact ⟨line, column, message, hmalformed⟩
      · rintro ⟨line, column, message, hmalformed⟩
        exact ⟨o, line, column, message, ⟨nofun, job, rfl, hconduct⟩, hmalformed⟩
  | faulted => cases hf
  | cancelled _ =>
      cases hf
      simp [ErrorKind.isPreExecution]

/-- A failure is of a kind that stands for no run just where there was none, or where the child has
found that the script is malformed. -/
theorem FailsWith.isPreExecution_iff (h : s.FailsWith r conduct cancels m f) :
    f.kind.isPreExecution = true ↔ m.jobs = [] ∨ m.FindsMalformed conduct := by
  obtain ⟨course, answer, -, hallows, hexecute, hf⟩ := h
  obtain ⟨_, hresolve, hcase⟩ | ⟨limits, hresolve, ⟨g, hrejected, hcase⟩ |
      ⟨hpassed, ⟨_, -, hcase⟩ | ⟨job, hjob, hcase⟩⟩⟩ := execute_cases s r fun _ => course
  all_goals rw [hcase] at hexecute
  · rw [failure?_of_error hresolve] at hf
    cases hf
    injection hexecute with hexecute
    injection hexecute with hevents hjobs hanswer
    exact iff_of_true rfl (.inl (List.head?_eq_none_iff.1 hjobs.symm))
  · rw [failure?_of_rejection hresolve hrejected] at hf
    cases hf
    injection hexecute with hexecute
    injection hexecute with hevents hjobs hanswer
    exact iff_of_true (Report.isPreExecution_of_rejection? hrejected)
      (.inl (List.head?_eq_none_iff.1 hjobs.symm))
  · cases hexecute
  · rw [failure?_of_passed hresolve hpassed hjob] at hf
    injection hexecute with hexecute
    have hjobs : m.jobs.head? = some job := by
      rw [← job?_conclude r limits job (s.startingEvents r limits (s.validate r.code)) course,
        hexecute]
    have hcalled : m.jobs ≠ [] := fun hnone => by
      rw [hnone] at hjobs
      cases hjobs
    have hcancelled := cancelled_mem_conclude s r limits job (s.validate r.code) course
    rw [hexecute] at hcancelled
    rw [findsMalformed_iff hjobs (hallows _ hjobs) hcancelled hf]
    simp [hcalled]

theorem failsWith_of_outcome {o : Outcome} (h : s.Runs r conduct cancels m)
    (houtcome : m.outcome? conduct = some o) (hresolve : r.resolve s.config.requests = .ok limits)
    (hf : o.termination.failure? limits = some f) : s.FailsWith r conduct cancels m f := by
  obtain ⟨hnot, job, hjobs, hends⟩ := Moment.outcome?_eq_some_iff.1 houtcome
  rcases h.cases with ⟨course, answer, hstage, hallows, -, hexecute⟩ | ⟨_, -, hnone, -⟩ |
    ⟨_, _, hwaits⟩
  · refine ⟨course, answer, hstage, hallows, hexecute, ?_⟩
    obtain ⟨limits', hresolve', hpassed, hjob, hconclude⟩ := passed_of_execute hexecute hjobs
    obtain rfl : limits = limits' := Except.ok.inj (hresolve.symm.trans hresolve')
    have hcancelled := cancelled_mem_conclude s r limits job (s.validate r.code) course
    rw [← hconclude] at hcancelled
    have hallows := hallows _ hjobs
    rw [hends] at hallows
    rw [failure?_of_passed hresolve hpassed hjob]
    cases hallows with
    | ended => exact hf
    | cancelled _ => exact absurd (hcancelled.2 rfl) hnot
  · rw [hnone] at hjobs
    cases hjobs
  · rw [hwaits.jobs_eq] at hjobs
    cases hjobs
    exact absurd (hends.symm.trans hwaits.pending.1) (by simp)

end Sandbox

theorem Moment.FindsMalformed.jobs_ne_nil {m : Moment} {conduct : Job → RunConduct}
    (h : m.FindsMalformed conduct) : m.jobs ≠ [] := by
  obtain ⟨o, _, _, _, houtcome, -⟩ := h
  obtain ⟨-, job, hjob, -⟩ := Moment.outcome?_eq_some_iff.1 houtcome
  intro hnone
  rw [hnone] at hjob
  cases hjob

/-- The failure that a result names is one that its execution has ended with, and its kind stands for
scripts that are refused before anything is started just where the boundary was never called or the
child has found that the script is malformed. So the kind tells whether there was a run, unless the
child has found that: then it tells of none, though there was one. -/
theorem isPreExecution_iff_of_runs {s : Sandbox} {r : ExecutionRequest} {conduct : Job → RunConduct}
    {cancels : Bool} {m : Moment} (h : s.Runs r conduct cancels m) :
    (∀ result label, m.stage = .ended (.ok result) → result.errorType = some label →
      ∃ f, s.FailsWith r conduct cancels m f ∧ f.kind.label = label ∧
        result.errorMessage = some f.message) ∧
    ∀ f, s.FailsWith r conduct cancels m f →
      (f.kind.isPreExecution = true ↔ m.jobs = [] ∨ m.FindsMalformed conduct) ∧
      ((f.kind.isPreExecution = true ↔ m.jobs = []) ↔ ¬ m.FindsMalformed conduct) := by
  refine ⟨fun result label hstage hlabel => Sandbox.exists_failsWith h hstage hlabel, fun f hf => ?_⟩
  have hkind := hf.isPreExecution_iff
  refine ⟨hkind, ?_⟩
  rw [hkind]
  constructor
  · intro hagrees hmalformed
    exact hmalformed.jobs_ne_nil (hagrees.1 (.inr hmalformed))
  · intro hnot
    simp [hnot]

/-- An exception of the script is no failure of these kinds, and there was a run. -/
theorem isPreExecution_iff_of_runs_key_error :
    ∃ m f, Sandbox.small.Runs { code := "ages[0]" } (fun _ => .ends (.raising "KeyError")) false m ∧
      Sandbox.small.FailsWith { code := "ages[0]" } (fun _ => .ends (.raising "KeyError")) false m
        f ∧
      f.kind = .raised "KeyError" ∧ m.jobs ≠ [] := by
  have hresolve : ({ code := "ages[0]" } : ExecutionRequest).resolve
      Sandbox.small.config.requests = .ok ⟨30, 512⟩ := by decide
  have hexists : ∃ m, Sandbox.small.Runs { code := "ages[0]" }
      (fun _ => .ends (.raising "KeyError")) false m ∧
        m.outcome? (fun _ => .ends (.raising "KeyError")) = some (.raising "KeyError") :=
    Sandbox.exists_runs_of_ends hresolve (by decide +kernel) rfl rfl
  obtain ⟨m, hruns, houtcome⟩ := hexists
  have hfails := Sandbox.failsWith_of_outcome hruns houtcome hresolve rfl
  refine ⟨m, _, hruns, hfails, rfl, fun hnone => ?_⟩
  have hkind := ((isPreExecution_iff_of_runs hruns).2 _ hfails).1.2 (.inl hnone)
  cases hkind

def Outcome.malformed : Outcome where
  stdout := ""
  stderr := ""
  locals := none
  termination := .syntaxInvalid (some 1) (some 5) "invalid syntax"
  peakKb := none
  unavailableModules := []

/-- A script that passes the analysis is found to be malformed by the child, and the kind of the failure
stands for scripts that are refused before anything is started. -/
theorem refused_kind_behind_run :
    ∃ m f, (Sandbox.ofConfig {}).Runs { code := "x = = 1" } (fun _ => .ends .malformed) false m ∧
      (Sandbox.ofConfig {}).FailsWith { code := "x = = 1" } (fun _ => .ends .malformed) false m f ∧
      f.kind.isPreExecution = true ∧ m.jobs ≠ [] := by
  have hresolve : ({ code := "x = = 1" } : ExecutionRequest).resolve
      (Sandbox.ofConfig {}).config.requests = .ok ⟨30, 512⟩ := by decide
  have hexists : ∃ m, (Sandbox.ofConfig {}).Runs { code := "x = = 1" }
      (fun _ => .ends .malformed) false m ∧
        m.outcome? (fun _ => .ends .malformed) = some .malformed :=
    Sandbox.exists_runs_of_ends hresolve (by decide +kernel) rfl rfl
  obtain ⟨m, hruns, houtcome⟩ := hexists
  refine ⟨m, _, hruns, Sandbox.failsWith_of_outcome hruns houtcome hresolve rfl, rfl, ?_⟩
  exact Moment.FindsMalformed.jobs_ne_nil ⟨_, _, _, _, houtcome, rfl⟩

end ScriptSandbox
