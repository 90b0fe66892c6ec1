import Mathlib.Logic.Relation
import ScriptSandbox.Sandbox

/-!
Executions step by step. A request is resolved, its script is analyzed, and a run is started and
waited for, where the boundary may be done, the caller may give up, or nothing may ever happen
again. Where the limits of the run cannot be added up the execution breaks off instead. At every
moment the log and the calls of the boundary are known from where the execution stands, and what has
ended has gone as `Sandbox.execute` says.
-/

namespace ScriptSandbox

/-- What a boundary does with a run: the run comes to an outcome, or fails, or never ends. -/
inductive RunConduct
  | ends (o : Outcome)
  | fails (fault : SandboxFault)
  | hangs

/-- The courses that a run can take when the caller cancels it or not. Where the boundary is done
and the caller gives up, either can come first. -/
inductive RunConduct.Allows (cancels : Bool) : RunConduct → Course → Prop
  | ended {o} : Allows cancels (.ends o) (.over o)
  | faulted {fault} : Allows cancels (.fails fault) (.faulted fault)
  | cancelled {conduct} : cancels = true → Allows cancels conduct .cancelled

/-- Where an execution stands. -/
inductive Stage
  | received
  | resolved (limits : RunLimits)
  | passed (limits : RunLimits)
  | running (limits : RunLimits) (job : Job)
  | ended (answer : Except SandboxFault ExecutionResult)
  /-- The execution has broken off, and nobody gets an answer. -/
  | brokenOff (message : String)

/-- An execution at some moment: where it stands, what has happened, and the calls of the boundary
so far. -/
structure Moment where
  stage : Stage
  events : List ExecutionEvent
  jobs : List Job

namespace Moment

def initial : Moment :=
  ⟨.received, [.received], []⟩

def states (m : Moment) : List ExecutionState :=
  m.events.filterMap ExecutionEvent.state?

end Moment

namespace Sandbox

variable {s : Sandbox} {r : ExecutionRequest} {conduct : Job → RunConduct} {cancels : Bool}
  {m next : Moment}

/-- One step of an execution. -/
inductive Step (s : Sandbox) (r : ExecutionRequest) (conduct : Job → RunConduct) (cancels : Bool) :
    Moment → Moment → Prop
  | refuse {e events jobs} : r.resolve s.config.requests = .error e →
      Step s r conduct cancels ⟨.received, events, jobs⟩
        ⟨.ended (.ok (.failed .invalidRequest e.message)), events ++ [.invalidRequest e], jobs⟩
  | resolve {limits events jobs} : r.resolve s.config.requests = .ok limits →
      Step s r conduct cancels ⟨.received, events, jobs⟩
        ⟨.resolved limits, events ++ [.analyzing], jobs⟩
  | reject {f limits events jobs} : (s.validate r.code).rejection? = some f →
      Step s r conduct cancels ⟨.resolved limits, events, jobs⟩
        ⟨.ended (.ok f.result), events ++ [.rejected f], jobs⟩
  | pass {limits events jobs} : (s.validate r.code).rejection? = none →
      Step s r conduct cancels ⟨.resolved limits, events, jobs⟩
        ⟨.passed limits, events ++ passingEvents (s.validate r.code), jobs⟩
  | breakOff {message limits events jobs} : s.job r limits = .error message →
      Step s r conduct cancels ⟨.passed limits, events, jobs⟩
        ⟨.brokenOff message, events ++ s.scopeEvents r, jobs⟩
  | launch {limits job events jobs} : s.job r limits = .ok job →
      Step s r conduct cancels ⟨.passed limits, events, jobs⟩
        ⟨.running limits job, events ++ s.scopeEvents r ++ [.started s.boundary limits],
          jobs ++ [job]⟩
  | settle {limits job events jobs course} : (conduct job).Allows cancels course →
      Step s r conduct cancels ⟨.running limits job, events, jobs⟩
        ⟨.ended (conclude r limits job events course).answer,
          (conclude r limits job events course).events, jobs⟩

/-- An execution that goes on until nothing more can happen. -/
def Runs (s : Sandbox) (r : ExecutionRequest) (conduct : Job → RunConduct) (cancels : Bool)
    (m : Moment) : Prop :=
  Relation.ReflTransGen (s.Step r conduct cancels) .initial m ∧
    ∀ next, ¬ s.Step r conduct cancels m next

/-! ### What holds at every moment -/

/-- What has happened and what is known when an execution stands somewhere. When it has ended, it has
gone as an execution with one of the courses that the run could take. -/
def Sound (s : Sandbox) (r : ExecutionRequest) (conduct : Job → RunConduct) (cancels : Bool)
    (m : Moment) : Prop :=
  match m.stage with
  | .received => m.events = [.received] ∧ m.jobs = []
  | .resolved limits =>
      r.resolve s.config.requests = .ok limits ∧ m.events = [.received, .analyzing] ∧ m.jobs = []
  | .passed limits =>
      r.resolve s.config.requests = .ok limits ∧ (s.validate r.code).rejection? = none ∧
        m.events = [.received, .analyzing] ++ passingEvents (s.validate r.code) ∧ m.jobs = []
  | .running limits job =>
      r.resolve s.config.requests = .ok limits ∧ (s.validate r.code).rejection? = none ∧
        s.job r limits = .ok job ∧ m.events = s.startingEvents r limits (s.validate r.code) ∧
        m.jobs = [job]
  | .ended answer =>
      ∃ course job?, (∀ job ∈ job?, (conduct job).Allows cancels course) ∧
        s.execute r (fun _ => course) = .ok ⟨m.events, job?, answer⟩ ∧ m.jobs = job?.toList
  | .brokenOff message =>
      ∃ limits, r.resolve s.config.requests = .ok limits ∧ (s.validate r.code).rejection? = none ∧
        s.job r limits = .error message ∧ m.events = s.preparingEvents r (s.validate r.code) ∧
        m.jobs = []

theorem execute_of_error {e : RequestError} (h : r.resolve s.config.requests = .error e)
    (course : Job → Course) :
    s.execute r course =
      .ok ⟨[.received, .invalidRequest e], none, .ok (.failed .invalidRequest e.message)⟩ := by
  unfold execute
  rw [h]

theorem execute_of_rejection {limits : RunLimits} {f : Failure}
    (h : r.resolve s.config.requests = .ok limits)
    (hrejected : (s.validate r.code).rejection? = some f) (course : Job → Course) :
    s.execute r course = .ok ⟨[.received, .analyzing, .rejected f], none, .ok f.result⟩ := by
  unfold execute
  rw [h]
  dsimp only
  rw [hrejected]

theorem execute_of_job_error {limits : RunLimits} {message : String}
    (h : r.resolve s.config.requests = .ok limits)
    (hpassed : (s.validate r.code).rejection? = none) (hjob : s.job r limits = .error message)
    (course : Job → Course) :
    s.execute r course = .error ⟨s.preparingEvents r (s.validate r.code), message⟩ := by
  unfold execute
  rw [h]
  dsimp only
  rw [hpassed]
  dsimp only
  rw [hjob]

theorem execute_of_passed {limits : RunLimits} {job : Job}
    (h : r.resolve s.config.requests = .ok limits)
    (hpassed : (s.validate r.code).rejection? = none) (hjob : s.job r limits = .ok job)
    (course : Job → Course) :
    s.execute r course =
      .ok (conclude r limits job (s.startingEvents r limits (s.validate r.code)) (course job)) := by
  unfold execute
  rw [h]
  dsimp only
  rw [hpassed]
  dsimp only
  rw [hjob]

@[simp] theorem job?_conclude (r : ExecutionRequest) (limits : RunLimits) (job : Job)
    (before : List ExecutionEvent) (course : Course) :
    (conclude r limits job before course).job? = some job := by
  cases course <;> rfl

/-- What comes of a request: it is refused, its script is rejected, its limits do not add up, or its
run takes its course. -/
theorem execute_cases (s : Sandbox) (r : ExecutionRequest) (course : Job → Course) :
    (∃ e, r.resolve s.config.requests = .error e ∧ s.execute r course =
      .ok ⟨[.received, .invalidRequest e], none, .ok (.failed .invalidRequest e.message)⟩) ∨
    ∃ limits, r.resolve s.config.requests = .ok limits ∧
      ((∃ f, (s.validate r.code).rejection? = some f ∧
        s.execute r course = .ok ⟨[.received, .analyzing, .rejected f], none, .ok f.result⟩) ∨
      (s.validate r.code).rejection? = none ∧
        ((∃ message, s.job r limits = .error message ∧ s.execute r course =
          .error ⟨s.preparingEvents r (s.validate r.code), message⟩) ∨
        ∃ job, s.job r limits = .ok job ∧ s.execute r course =
          .ok (conclude r limits job (s.startingEvents r limits (s.validate r.code))
            (course job)))) := by
  cases hresolve : r.resolve s.config.requests with
  | error e => exact .inl ⟨e, rfl, execute_of_error hresolve course⟩
  | ok limits =>
      refine .inr ⟨limits, rfl, ?_⟩
      cases hrejected : (s.validate r.code).rejection? with
      | some f => exact .inl ⟨f, rfl, execute_of_rejection hresolve hrejected course⟩
      | none =>
          refine .inr ⟨rfl, ?_⟩
          cases hjob : s.job r limits with
          | error message =>
              exact .inl ⟨message, rfl, execute_of_job_error hresolve hrejected hjob course⟩
          | ok job => exact .inr ⟨job, rfl, execute_of_passed hresolve hrejected hjob course⟩

theorem passed_of_execute {course : Job → Course} {e : Execution} {job : Job}
    (h : s.execute r course = .ok e) (hcalled : e.job? = some job) :
    ∃ limits, r.resolve s.config.requests = .ok limits ∧ (s.validate r.code).rejection? = none ∧
      s.job r limits = .ok job ∧
      e = conclude r limits job (s.startingEvents r limits (s.validate r.code)) (course job) := by
  obtain ⟨_, -, hexecute⟩ | ⟨limits, hresolve, ⟨_, -, hexecute⟩ |
      ⟨hpassed, ⟨_, -, hexecute⟩ | ⟨own, hjob, hexecute⟩⟩⟩ := execute_cases s r course
  all_goals
    rw [hexecute] at h
    cases h
  · cases hcalled
  · cases hcalled
  · obtain rfl : own = job := Option.some.inj ((job?_conclude ..).symm.trans hcalled)
    exact ⟨limits, hresolve, hpassed, hjob, rfl⟩

theorem sound_initial : s.Sound r conduct cancels .initial :=
  ⟨rfl, rfl⟩

/-- Every step keeps the log and the calls in order. -/
theorem Step.sound (h : s.Step r conduct cancels m next) (hsound : s.Sound r conduct cancels m) :
    s.Sound r conduct cancels next := by
  cases h with
  | refuse he =>
      -- Nothing is run, so any course will do.
      obtain ⟨rfl, rfl⟩ := hsound
      exact ⟨.cancelled, none, by simp, execute_of_error he _, rfl⟩
  | resolve hlimits =>
      obtain ⟨rfl, rfl⟩ := hsound
      exact ⟨hlimits, rfl, rfl⟩
  | reject hrejected =>
      obtain ⟨hlimits, rfl, rfl⟩ := hsound
      exact ⟨.cancelled, none, by simp, execute_of_rejection hlimits hrejected _, rfl⟩
  | pass hpassed =>
      obtain ⟨hlimits, rfl, rfl⟩ := hsound
      exact ⟨hlimits, hpassed, rfl, rfl⟩
  | breakOff hjob =>
      obtain ⟨hlimits, hpassed, rfl, rfl⟩ := hsound
      exact ⟨_, hlimits, hpassed, hjob, rfl, rfl⟩
  | launch hjob =>
      obtain ⟨hlimits, hpassed, rfl, rfl⟩ := hsound
      exact ⟨hlimits, hpassed, hjob, rfl, rfl⟩
  | @settle limits job events jobs course hallows =>
      obtain ⟨hlimits, hpassed, hjob, rfl, rfl⟩ := hsound
      refine ⟨course, some job, by simpa using hallows, ?_, rfl⟩
      have hcalled := job?_conclude r limits job (s.startingEvents r limits (s.validate r.code)) course
      rw [execute_of_passed hlimits hpassed hjob, ← hcalled]

theorem sound_of_reaches (h : Relation.ReflTransGen (s.Step r conduct cancels) .initial m) :
    s.Sound r conduct cancels m := by
  induction h with
  | refl => exact sound_initial
  | tail _ hstep ih => exact hstep.sound ih

end Sandbox

end ScriptSandbox
