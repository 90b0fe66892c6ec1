import ScriptSandbox.Proofs.Sandbox.Paths

/-!
Processor time. A run is handed over with a limit on processor time that is its time and some grace
together, counted in a word. A configuration is accepted with any grace, so the sum may not fit:
then the execution breaks off, and nothing is handed over.
-/

namespace ScriptSandbox

/-! ### Accepted configurations -/

theorem Bounds.ordered_of_check {b : Bounds} {name : String} (h : b.check name = .ok ()) :
    b.min ≤ b.default ∧ b.default ≤ b.max := by
  unfold check at h
  split at h
  · cases h
  · split at h
    · assumption
    · cases h

theorem Config.ordered_of_validate {c : Config} (h : c.validate = .ok ()) :
    (c.requests.timeoutSeconds.min ≤ c.requests.timeoutSeconds.default ∧
        c.requests.timeoutSeconds.default ≤ c.requests.timeoutSeconds.max) ∧
      (c.requests.memoryMb.min ≤ c.requests.memoryMb.default ∧
        c.requests.memoryMb.default ≤ c.requests.memoryMb.max) ∧
      0 < c.requests.maxCodeChars := by
  unfold validate at h
  obtain ⟨⟨⟩, htimeout, h⟩ := bind_eq_ok.1 h
  obtain ⟨⟨⟩, hmemory, h⟩ := bind_eq_ok.1 h
  refine ⟨Bounds.ordered_of_check htimeout, Bounds.ordered_of_check hmemory, ?_⟩
  refine Nat.pos_of_ne_zero fun hzero => ?_
  rw [if_pos hzero] at h
  cases h

/-- A request for the longest time, with a script that no policy objects to. -/
def RequestBounds.longest (b : RequestBounds) : ExecutionRequest where
  code := "0"
  timeoutSeconds := some b.timeoutSeconds.max

theorem Config.resolve_longest {c : Config} (h : c.validate = .ok ()) :
    c.requests.longest.resolve c.requests =
      .ok ⟨c.requests.timeoutSeconds.max, c.requests.memoryMb.default⟩ := by
  obtain ⟨htimeout, hmemory, hcode⟩ := ordered_of_validate h
  have hchars : c.requests.longest.codeChars = 1 := (by decide : "0".length = 1)
  have hlength : ¬ c.requests.maxCodeChars < 1 := by omega
  have hmax : c.requests.timeoutSeconds.min ≤ c.requests.timeoutSeconds.max := by omega
  unfold ExecutionRequest.resolve
  rw [hchars]
  simp [hlength, RequestBounds.longest, Bounds.contains, hmax, hmemory]

namespace Sandbox

variable {s : Sandbox} {r : ExecutionRequest} {limits : RunLimits} {course : Job → Course}

theorem cpuSeconds_of_execute {e : Execution} {job : Job}
    (h : r.resolve s.config.requests = .ok limits) (hexecute : s.execute r course = .ok e)
    (hcalled : e.job? = some job) :
    job.ceilings.cpuSeconds = limits.timeoutSeconds + s.config.runtime.cpuGraceSeconds := by
  obtain ⟨own, hresolve, -, hjob, -⟩ := passed_of_execute hexecute hcalled
  obtain rfl : limits = own := Except.ok.inj (h.symm.trans hresolve)
  rw [(job_eq_ok_iff.1 hjob).2]
  rfl

/-- A script that passes is handed over with the sum for its limit, or the execution breaks off. -/
theorem exists_job_iff (h : r.resolve s.config.requests = .ok limits)
    (hpassed : (s.validate r.code).rejection? = none) (course : Job → Course) :
    (∃ e job, s.execute r course = .ok e ∧ e.job? = some job) ↔
      limits.timeoutSeconds + s.config.runtime.cpuGraceSeconds ≤ unlimited := by
  constructor
  · rintro ⟨e, job, hexecute, hcalled⟩
    obtain ⟨own, hresolve, -, hjob, -⟩ := passed_of_execute hexecute hcalled
    obtain rfl : limits = own := Except.ok.inj (h.symm.trans hresolve)
    exact (job_eq_ok_iff.1 hjob).1
  · intro hfits
    exact ⟨_, _, execute_of_passed h hpassed (job_eq_ok_iff.2 ⟨hfits, rfl⟩) course,
      job?_conclude ..⟩

theorem overflows_iff (h : r.resolve s.config.requests = .ok limits)
    (hsafe : (s.validate r.code).isSafe = true) :
    s.Overflows r ↔
      unlimited < limits.timeoutSeconds + s.config.runtime.cpuGraceSeconds := by
  simp [Overflows, h, hsafe]

theorem rejection?_validate_zero (s : Sandbox) : (s.validate "0").rejection? = none := by
  have hobserve : observe "0" = .ok [] := by decide +kernel
  rw [rejection?_eq_none_iff]
  unfold validate analyze
  rw [hobserve]
  exact isSafe_report.2 Policy.passes_nil

/-- Every run may take the processor for its whole time and for the grace on top of it. -/
def GrantsGrace (s : Sandbox) : Prop :=
  ∀ r limits course, r.resolve s.config.requests = .ok limits → (s.validate r.code).isSafe = true →
    ∃ e job, s.execute r course = .ok e ∧ e.job? = some job ∧
      job.ceilings.cpuSeconds = limits.timeoutSeconds + s.config.runtime.cpuGraceSeconds

theorem grantsGrace_iff (h : s.config.validate = .ok ()) :
    s.GrantsGrace ↔ s.config.requests.timeoutSeconds.max + s.config.runtime.cpuGraceSeconds ≤
      unlimited := by
  constructor
  · intro hgrants
    have hpassed := rejection?_validate_zero s
    obtain ⟨e, job, hexecute, hcalled, -⟩ := hgrants _ _ (fun _ => .cancelled)
      (Config.resolve_longest h) (rejection?_eq_none_iff.1 hpassed)
    exact (exists_job_iff (Config.resolve_longest h) hpassed _).1 ⟨e, job, hexecute, hcalled⟩
  · intro hfits r limits course hresolve hsafe
    have htimeout := (within_of_resolve hresolve).1.2
    obtain ⟨e, job, hexecute, hcalled⟩ :=
      (exists_job_iff hresolve (rejection?_eq_none_iff.2 hsafe) course).2 (by omega)
    exact ⟨e, job, hexecute, hcalled, cpuSeconds_of_execute hresolve hexecute hcalled⟩

end Sandbox

/-- The limit on processor time that a run is handed over with is the sum of its time and the grace, and
so it is not below the time of the run. For a script that passes there is such a run exactly where the
sum fits a word, and otherwise the execution breaks off. An accepted configuration grants the sum to all
runs exactly where it fits for the longest time that can be asked for. -/
theorem processor_time_iff (s : Sandbox) (hvalid : s.config.validate = .ok ()) :
    (∀ r limits course, r.resolve s.config.requests = .ok limits →
      (∀ e job, s.execute r course = .ok e → e.job? = some job →
        job.ceilings.cpuSeconds = limits.timeoutSeconds + s.config.runtime.cpuGraceSeconds ∧
          limits.timeoutSeconds ≤ job.ceilings.cpuSeconds) ∧
      ((s.validate r.code).isSafe = true →
        ((∃ e job, s.execute r course = .ok e ∧ e.job? = some job) ↔
          limits.timeoutSeconds + s.config.runtime.cpuGraceSeconds ≤ unlimited) ∧
        (s.execute r course =
            .error ⟨s.preparingEvents r (s.validate r.code), "attempt to add with overflow"⟩ ↔
          unlimited < limits.timeoutSeconds + s.config.runtime.cpuGraceSeconds))) ∧
    (s.GrantsGrace ↔
      s.config.requests.timeoutSeconds.max + s.config.runtime.cpuGraceSeconds ≤ unlimited) := by
  refine ⟨fun r limits course hresolve => ⟨fun e job hexecute hcalled => ?_, fun hsafe => ⟨?_, ?_⟩⟩,
    Sandbox.grantsGrace_iff hvalid⟩
  · have hsum := Sandbox.cpuSeconds_of_execute hresolve hexecute hcalled
    exact ⟨hsum, by omega⟩
  · exact Sandbox.exists_job_iff hresolve (Sandbox.rejection?_eq_none_iff.2 hsafe) course
  · rw [Sandbox.execute_eq_error_iff, Sandbox.overflows_iff hresolve hsafe]
    simp

def Config.withGrace (seconds : Nat) : Config where
  runtime := { cpuGraceSeconds := seconds }

theorem Config.validate_withGrace (seconds : Nat) : (withGrace seconds).validate = .ok () := by
  have hinterpreter : Text.isAllBlank "python3" = false := by decide
  unfold validate withGrace
  simp only [hinterpreter]
  rfl

/-- The greatest grace that fits a word together with the longest time of 300 seconds. -/
theorem processor_time_greatest_grace :
    (Sandbox.ofConfig (.withGrace 18446744073709551315)).GrantsGrace ∧
      ¬ (Sandbox.ofConfig (.withGrace 18446744073709551316)).GrantsGrace := by
  have hlast := processor_time_iff (.ofConfig (.withGrace 18446744073709551315))
    (Config.validate_withGrace _)
  have hnext := processor_time_iff (.ofConfig (.withGrace 18446744073709551316))
    (Config.validate_withGrace _)
  exact ⟨hlast.2.2 (by decide), fun hgrants => absurd (hnext.2.1 hgrants) (by decide)⟩

/-- With the greatest grace of all, which is accepted, a run of 30 seconds is never handed over. -/
theorem processor_time_overflows :
    (Config.withGrace 18446744073709551615).validate = .ok () ∧
      ({ code := "0" } : ExecutionRequest).resolve
        (Sandbox.ofConfig (.withGrace 18446744073709551615)).config.requests = .ok ⟨30, 512⟩ ∧
      ∀ course, ∃ events,
        (Sandbox.ofConfig (.withGrace 18446744073709551615)).execute { code := "0" } course =
          .error ⟨events, "attempt to add with overflow"⟩ := by
  have hresolve : ({ code := "0" } : ExecutionRequest).resolve
      (Sandbox.ofConfig (.withGrace 18446744073709551615)).config.requests = .ok ⟨30, 512⟩ := rfl
  exact ⟨Config.validate_withGrace _, hresolve, fun course => ⟨_, Sandbox.execute_of_job_error hresolve
    (Sandbox.rejection?_validate_zero _) (Sandbox.job_eq_error_iff.2 ⟨by decide, rfl⟩) course⟩⟩

end ScriptSandbox
