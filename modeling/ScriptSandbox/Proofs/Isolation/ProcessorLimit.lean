import ScriptSandbox.Proofs.Isolation.Attribution
import ScriptSandbox.Proofs.Isolation.Limits

/-!
The limit on processor time. When a process has used up its soft limit, the system tells it so with
a signal of its own, and when it has used up the hard one, it is killed. A run that dies of this
limit without a word can be told from one that was killed for its memory only if the first signal
comes before the kill, that is if the hard limit is above the soft one. A run asks for one second
between the two, but the hard limit that it inherits may leave no room for it.
-/

namespace ScriptSandbox

namespace ResourceLimit

/-- The signal that a process gets when it has used so many seconds of processor time: a kill from
the hard limit on, and before it a warning from the soft limit on. A limit of the greatest value is
none. -/
def signal? (limit : ResourceLimit) (seconds : Nat) : Option Nat :=
  if limit.hard ≤ seconds ∧ limit.hard < unlimited then some ExitStatus.sigkill
  else if limit.soft ≤ seconds ∧ limit.soft < unlimited then some ExitStatus.sigxcpu
  else none

/-- A process gets to use so many seconds of processor time, one after the other, without a signal
at any second before. -/
inductive Lasts (limit : ResourceLimit) : Nat → Prop
  | start : limit.Lasts 0
  | tick {seconds : Nat} : limit.Lasts seconds → limit.signal? seconds = none →
      limit.Lasts (seconds + 1)

/-- A process under a limit is stopped by a signal, the first one that it gets. -/
structure StopsAt (limit : ResourceLimit) (seconds signal : Nat) : Prop where
  lasts : limit.Lasts seconds
  sent : limit.signal? seconds = some signal

variable {limit : ResourceLimit} {seconds signal : Nat}

theorem signal?_eq_none_iff (h : limit.soft ≤ limit.hard) :
    limit.signal? seconds = none ↔ unlimited ≤ limit.soft ∨ seconds < limit.soft := by
  unfold signal?
  split
  · simp only [reduceCtorEq, false_iff]
    omega
  · split
    · simp only [reduceCtorEq, false_iff]
      omega
    · simp only [true_iff]
      omega

theorem lasts_iff (h : limit.soft ≤ limit.hard) :
    limit.Lasts seconds ↔ unlimited ≤ limit.soft ∨ seconds ≤ limit.soft := by
  constructor
  · intro hlasts
    cases hlasts with
    | start => exact .inr (Nat.zero_le _)
    | tick _ hnone => exact (signal?_eq_none_iff h).1 hnone
  · intro hroom
    induction seconds with
    | zero => exact .start
    | succ seconds ih =>
        exact .tick (ih (by omega)) ((signal?_eq_none_iff h).2 hroom)

theorem signal?_soft (h : limit.soft < unlimited) : limit.signal? limit.soft =
    some (if limit.soft < limit.hard then ExitStatus.sigxcpu else ExitStatus.sigkill) := by
  unfold signal?
  by_cases hgap : limit.soft < limit.hard
  · rw [if_neg (by omega), if_pos ⟨Nat.le_refl _, h⟩, if_pos hgap]
  · rw [if_pos (by omega), if_neg hgap]

/-- Whatever stops a process stops it at its soft limit, and it is a kill just where the hard limit
is no higher. -/
theorem stopsAt_iff (h : limit.soft ≤ limit.hard) :
    limit.StopsAt seconds signal ↔ limit.soft < unlimited ∧ seconds = limit.soft ∧
      signal = if limit.soft < limit.hard then ExitStatus.sigxcpu else ExitStatus.sigkill := by
  constructor
  · rintro ⟨hlasts, hsent⟩
    have hlate : ¬ (unlimited ≤ limit.soft ∨ seconds < limit.soft) := fun hearly => by
      rw [(signal?_eq_none_iff h).2 hearly] at hsent
      cases hsent
    have hlimited : limit.soft < unlimited := by omega
    have hseconds : seconds = limit.soft := by
      have hroom := (lasts_iff h).1 hlasts
      omega
    rw [hseconds, signal?_soft hlimited, Option.some_inj] at hsent
    exact ⟨hlimited, hseconds, hsent.symm⟩
  · rintro ⟨hlimited, rfl, rfl⟩
    exact ⟨(lasts_iff h).2 (.inr (Nat.le_refl _)), signal?_soft hlimited⟩

end ResourceLimit

namespace Ceilings

variable {inherited : ProcessLimits}

/-- The second between the two limits on processor time is there just if the inherited hard limit
leaves room for it. Otherwise both limits are the inherited one. -/
theorem cpuTime_apply (c : Ceilings) (hword : inherited.cpuTime.hard ≤ unlimited) :
    (c.apply inherited).cpuTime =
      if c.cpuSeconds < inherited.cpuTime.hard then ⟨c.cpuSeconds, c.cpuSeconds + 1⟩
      else ⟨inherited.cpuTime.hard, inherited.cpuTime.hard⟩ := by
  simp only [apply, requested, ResourceLimit.lower]
  split
  · rename_i hroom
    rw [ResourceLimit.mk.injEq]
    omega
  · rename_i hfull
    rw [ResourceLimit.mk.injEq]
    omega

theorem cpuTime_gap_iff (c : Ceilings) (hword : inherited.cpuTime.hard ≤ unlimited) :
    (c.apply inherited).cpuTime.soft < (c.apply inherited).cpuTime.hard ↔
      c.cpuSeconds < inherited.cpuTime.hard := by
  rw [c.cpuTime_apply hword]
  split
  · rename_i hroom
    exact iff_of_true (Nat.lt_succ_self _) hroom
  · rename_i hfull
    exact iff_of_false (Nat.lt_irrefl _) hfull

theorem stopsAt_apply_iff (c : Ceilings) (hword : inherited.cpuTime.hard ≤ unlimited)
    {seconds signal : Nat} :
    (c.apply inherited).cpuTime.StopsAt seconds signal ↔
      (c.apply inherited).cpuTime.soft < unlimited ∧
        seconds = (c.apply inherited).cpuTime.soft ∧
        signal = if c.cpuSeconds < inherited.cpuTime.hard then ExitStatus.sigxcpu
          else ExitStatus.sigkill := by
  have hsoft : (c.apply inherited).cpuTime.soft ≤ (c.apply inherited).cpuTime.hard :=
    ResourceLimit.soft_lower_le_hard c.requested.cpuTime inherited.cpuTime
  rw [ResourceLimit.stopsAt_iff hsoft]
  simp only [c.cpuTime_gap_iff hword]

end Ceilings

/-- The interpreter has sent no report, and what it wrote itself does not speak of memory. -/
structure Silent (messages : List ChildMessage) (raw : Buffer) : Prop where
  unreported : reportsOf messages = []
  wordless : memoryPhrases.any (Text.mentions raw.contents) = false

/-- When nothing was said, the signal tells how a run has ended. -/
theorem Silent.termination {messages : List ChildMessage} {raw : Buffer} (h : Silent messages raw)
    (cap : Nat) (status : ExitStatus) :
    ∃ outcome, (messages.foldl Collector.accept (.ofCap cap)).finish (.exited status) raw =
        .ok outcome ∧ outcome.termination = status.termination := by
  have hnone := (Collector.report?_foldl_accept cap messages).trans
    (List.getLast?_eq_none_iff.2 h.unreported)
  obtain ⟨outcome, hok, haccount⟩ := Collector.finish_of_no_report hnone (.exited status) raw
  refine ⟨outcome, hok, ?_⟩
  have htermination := congrArg Account.termination haccount
  simpa [Outcome.account, Ending.termination, h.wordless] using htermination

/-- The soft limit on processor time that a run gets is below its hard limit exactly where the
inherited hard limit is above the requested time. A run that uses the processor without end is
stopped at its soft limit, if there is any, with the signal that tells of it exactly in that case. If
it dies without a word, it is said to have reached its limit on processor time in that case, and to
have been killed for its memory in the other. -/
theorem processor_limit_told_iff (c : Ceilings) (inherited : ProcessLimits)
    (hword : inherited.cpuTime.hard ≤ unlimited) :
    let limit := (c.apply inherited).cpuTime
    (limit.soft < limit.hard ↔ c.cpuSeconds < inherited.cpuTime.hard) ∧
      (∀ seconds signal, limit.StopsAt seconds signal ↔
        limit.soft < unlimited ∧ seconds = limit.soft ∧
          signal = if c.cpuSeconds < inherited.cpuTime.hard then ExitStatus.sigxcpu
            else ExitStatus.sigkill) ∧
      ∀ seconds signal, limit.StopsAt seconds signal →
        ∀ cap messages raw, Silent messages raw →
          ∃ outcome, (messages.foldl Collector.accept (.ofCap cap)).finish
              (.exited (.signal signal)) raw = .ok outcome ∧
            (outcome.termination = .cpuLimit ↔ c.cpuSeconds < inherited.cpuTime.hard) ∧
            (outcome.memoryExceeded = true ↔ inherited.cpuTime.hard ≤ c.cpuSeconds) := by
  intro limit
  refine ⟨c.cpuTime_gap_iff hword, fun _ _ => c.stopsAt_apply_iff hword, ?_⟩
  intro seconds signal hstop cap messages raw hsilent
  obtain ⟨-, -, hsignal⟩ := (c.stopsAt_apply_iff hword).1 hstop
  obtain ⟨outcome, hok, htermination⟩ := hsilent.termination cap (.signal signal)
  refine ⟨outcome, hok, ?_⟩
  rw [Outcome.memoryExceeded, htermination, hsignal]
  by_cases hroom : c.cpuSeconds < inherited.cpuTime.hard
  · simp [hroom, ExitStatus.termination, ExitStatus.sigkill, ExitStatus.sigxcpu]
  · simp [hroom, ExitStatus.termination, Nat.not_lt.1 hroom]

theorem silent_of_nothing (cap : Nat) : Silent [] { cap } where
  unreported := rfl
  wordless := by
    change memoryPhrases.any (Text.mentions "") = false
    decide +kernel

/-- An inherited hard limit of 31 seconds leaves room for a run of 30 seconds. -/
theorem processor_limit_told_with_room :
    let limit := ((⟨512, 30⟩ : Ceilings).apply
      ⟨⟨unlimited, unlimited⟩, ⟨31, 31⟩, ⟨0, 0⟩⟩).cpuTime
    limit.StopsAt 30 ExitStatus.sigxcpu ∧
      ∃ outcome, (Collector.ofCap 8).finish (.exited (.signal ExitStatus.sigxcpu)) { cap := 8 } =
        .ok outcome ∧ outcome.termination = .cpuLimit := by
  intro limit
  obtain ⟨-, hstops, htold⟩ := processor_limit_told_iff ⟨512, 30⟩
    ⟨⟨unlimited, unlimited⟩, ⟨31, 31⟩, ⟨0, 0⟩⟩ (by decide)
  have hstop := (hstops 30 ExitStatus.sigxcpu).2 (by decide)
  obtain ⟨outcome, hok, hlimit, -⟩ := htold _ _ hstop 8 [] { cap := 8 } (silent_of_nothing 8)
  exact ⟨hstop, outcome, hok, hlimit.2 (by decide)⟩

/-- An inherited hard limit of 30 seconds leaves none: a run that has used up its 30 seconds is
killed, and said to have been killed for its memory. -/
theorem processor_limit_taken_for_memory :
    let inherited : ProcessLimits := ⟨⟨unlimited, unlimited⟩, ⟨30, 30⟩, ⟨0, 0⟩⟩
    let limit := ((⟨512, 30⟩ : Ceilings).apply inherited).cpuTime
    1 ≤ inherited.cpuTime.hard ∧ ¬ limit.soft < limit.hard ∧
      limit.StopsAt 30 ExitStatus.sigkill ∧
      ∃ outcome, (Collector.ofCap 8).finish (.exited (.signal ExitStatus.sigkill)) { cap := 8 } =
        .ok outcome ∧ outcome.memoryExceeded = true := by
  intro inherited limit
  have hstop : limit.StopsAt 30 ExitStatus.sigkill :=
    (ResourceLimit.stopsAt_iff (by decide)).2 (by decide)
  obtain ⟨outcome, hok, htermination⟩ :=
    (silent_of_nothing 8).termination 8 (.signal ExitStatus.sigkill)
  refine ⟨by decide, by decide, hstop, outcome, hok, ?_⟩
  rw [Outcome.memoryExceeded, htermination]
  rfl

end ScriptSandbox
