import ScriptSandbox.Proofs.Isolation.MessageOrder
import ScriptSandbox.Proofs.Text.Lowercase

/-!
What a run is said to have ended with. An interpreter that reports has the last word, and the last
report alone tells how the script ended. Only when there is none does it matter how the interpreter
went away and what it wrote itself, in a fixed order of precedence.
-/

namespace ScriptSandbox

structure Account where
  termination : Termination
  locals : Option JsonObject
  peakKb : Option Nat
  unavailableModules : List String

def Outcome.account (o : Outcome) : Account :=
  ⟨o.termination, o.locals, o.peakKb, o.unavailableModules⟩

/-- What a report tells, or the fault of a setup that failed. -/
def ChildReport.account (r : ChildReport) : Except SandboxFault Account :=
  match r.outcome with
  | .completed => .ok ⟨.completed, r.locals, r.peakKb, r.unavailableModules⟩
  | .raised exceptionType message =>
    .ok ⟨.raised exceptionType message, r.locals, r.peakKb, r.unavailableModules⟩
  | .syntaxInvalid line column message =>
    .ok ⟨.syntaxInvalid line column message, r.locals, r.peakKb, r.unavailableModules⟩
  | .memoryExceeded message =>
    .ok ⟨.memoryExceeded message, r.locals, r.peakKb, r.unavailableModules⟩
  | .setupFailed message => .error (.setup message)

/-- What the end of an interpreter without a report comes to, given what it wrote to its error
stream, in small letters: a kill by the sandbox before the words, these before the signal, and last
of all a crash. -/
def Ending.ComesTo (ending : Ending) (lowered : List Char) (t : Termination) : Prop :=
  match ending with
  | .killed => t = .timedOut
  | .exited status =>
    if (∃ phrase ∈ memoryPhrases, phrase.toList <:+: lowered) ∨ status = .signal 9 then
      ∃ detail, t = .memoryExceeded detail
    else if status = .signal 24 then t = .cpuLimit
    else ∃ detail, t = .crashed detail

theorem isPlainPhrase_of_mem :
    ∀ phrase ∈ memoryPhrases, Text.IsPlainPhrase phrase.toList ∧ phrase.toList ≠ [] := by
  have hphrases : ∀ phrase ∈ memoryPhrases, (∀ c ∈ phrase.toList, c.toNat < 128) ∧
      'k' ∉ phrase.toList ∧ phrase.toList.getLast? ≠ some 'i' ∧ phrase.toList ≠ [] := by
    simp [memoryPhrases]
  intro phrase hphrase
  obtain ⟨hascii, hkelvin, hdotted, hne⟩ := hphrases phrase hphrase
  exact ⟨⟨hascii, hkelvin, hdotted⟩, hne⟩

theorem mentions_memory_iff {text : String} {lowered : List Char}
    (h : Text.Lowers text.toList lowered) :
    memoryPhrases.any (Text.mentions text) = true ↔
      ∃ phrase ∈ memoryPhrases, phrase.toList <:+: lowered := by
  rw [List.any_eq_true]
  refine exists_congr fun phrase => and_congr_right fun hphrase => ?_
  obtain ⟨hplain, hne⟩ := isPlainPhrase_of_mem phrase hphrase
  exact Text.mentions_iff h hplain hne

theorem Ending.comesTo_termination (ending : Ending) {lastWords : String} {lowered : List Char}
    (h : Text.Lowers lastWords.toList lowered) :
    ending.ComesTo lowered (ending.termination lastWords) := by
  cases ending with
  | killed => rfl
  | exited status =>
      unfold ComesTo termination
      by_cases hwords : ∃ phrase ∈ memoryPhrases, phrase.toList <:+: lowered
      · simp only [if_pos (Or.inl hwords), if_pos ((mentions_memory_iff h).2 hwords)]
        exact ⟨_, rfl⟩
      · simp only [if_neg (mt (mentions_memory_iff h).1 hwords), hwords, false_or]
        cases status with
        | code n =>
            simp only [ExitStatus.termination, reduceCtorEq, if_false]
            exact ⟨_, rfl⟩
        | signal n =>
            simp only [ExitStatus.termination, ExitStatus.sigkill, ExitStatus.sigxcpu,
              ExitStatus.signal.injEq]
            by_cases hkill : n = 9
            · simp [hkill]
            · by_cases hcpu : n = 24
              · simp [hcpu]
              · simp [hkill, hcpu]

theorem ChildReport.account_termination {r : ChildReport} {a : Account} (h : r.account = .ok a) :
    a.termination ≠ .timedOut ∧ a.termination ≠ .cpuLimit ∧
      ∀ detail, a.termination ≠ .crashed detail := by
  unfold account at h
  split at h <;> cases h <;> simp

theorem Outcome.timedOut_and_memoryExceeded (o : Outcome) :
    ¬ (o.timedOut = true ∧ o.memoryExceeded = true) := by
  unfold timedOut memoryExceeded
  cases o.termination <;> simp

namespace Collector

theorem account_finish_of_report {c : Collector} {r : ChildReport} (h : c.report? = some r)
    (ending : Ending) (raw : Buffer) : (c.finish ending raw).map Outcome.account = r.account := by
  unfold finish ChildReport.account
  cases houtcome : r.outcome <;>
    simp [h, houtcome, ChildOutcome.termination, Except.map, bind, Except.bind, pure, Except.pure,
      Outcome.account]

theorem finish_of_no_report {c : Collector} (h : c.report? = none) (ending : Ending)
    (raw : Buffer) : ∃ outcome, c.finish ending raw = .ok outcome ∧
      outcome.account = ⟨ending.termination raw.contents, none, none, []⟩ := by
  unfold finish
  rw [h]
  exact ⟨_, rfl, rfl⟩

theorem report?_foldl_accept (cap : Nat) (messages : List ChildMessage) :
    (messages.foldl accept (.ofCap cap)).report? = (reportsOf messages).getLast? := by
  rw [foldl_accept]
  simp [ofCap]

end Collector

/-- After some messages, the last report tells all but the output, however the interpreter went away
and whatever it wrote itself. Without a report there are no variables, no peak and no missing modules
and the end of the interpreter counts. So a timeout, the limit on processor time and a crash stand in
an outcome only when nothing was reported, and no outcome is both a timeout and a lack of memory. -/
theorem finish_attribution (cap : Nat) (messages : List ChildMessage) (ending : Ending)
    (raw : Buffer) (lowered : List Char) (h : Text.Lowers raw.contents.toList lowered) :
    let answer := (messages.foldl Collector.accept (.ofCap cap)).finish ending raw
    (∀ r, (reportsOf messages).getLast? = some r → answer.map Outcome.account = r.account) ∧
      (reportsOf messages = [] → ∃ outcome, answer = .ok outcome ∧ outcome.locals = none ∧
        outcome.peakKb = none ∧ outcome.unavailableModules = [] ∧
        ending.ComesTo lowered outcome.termination) ∧
      ∀ outcome, answer = .ok outcome →
        (outcome.termination = .timedOut ∨ outcome.termination = .cpuLimit ∨
          (∃ detail, outcome.termination = .crashed detail) → reportsOf messages = []) ∧
        ¬ (outcome.timedOut = true ∧ outcome.memoryExceeded = true) := by
  intro answer
  have hreport := Collector.report?_foldl_accept cap messages
  have hreported (r : ChildReport) (hr : (reportsOf messages).getLast? = some r) :
      answer.map Outcome.account = r.account :=
    Collector.account_finish_of_report (hreport.trans hr) ending raw
  refine ⟨hreported, fun hnone => ?_, fun outcome houtcome => ⟨fun hends => ?_,
    outcome.timedOut_and_memoryExceeded⟩⟩
  · obtain ⟨outcome, hok, haccount⟩ := Collector.finish_of_no_report
      (hreport.trans (List.getLast?_eq_none_iff.2 hnone)) ending raw
    obtain ⟨stdout, stderr, locals, termination, peakKb, unavailableModules⟩ := outcome
    cases haccount
    exact ⟨_, hok, rfl, rfl, rfl, ending.comesTo_termination h⟩
  · by_contra hne
    -- The account is that of the last report, which does not tell of such ends.
    have haccount := hreported _ (List.getLast?_eq_some_getLast hne)
    rw [houtcome] at haccount
    obtain ⟨htimeout, hcpu, hcrash⟩ := ChildReport.account_termination haccount.symm
    rcases hends with hends | hends | ⟨detail, hends⟩
    · exact htimeout hends
    · exact hcpu hends
    · exact hcrash detail hends

/-- Words in capitals, behind a letter that has more than one character in small letters, count more
than the signal. -/
theorem memoryExceeded_of_abort :
    ∃ outcome, (([.output .stdout "1" false] : List ChildMessage).foldl Collector.accept
        (.ofCap 8)).finish (.exited (.signal 6)) ⟨64, "İMEMORYERROR", false⟩ = .ok outcome ∧
      outcome.locals = none ∧ outcome.memoryExceeded = true := by
  have hlowers : Text.Lowers "İMEMORYERROR".toList
      ('i' :: '\u0307' :: "MEMORYERROR".toList.map Char.toLower) := by
    have hrest : Text.Lowers "MEMORYERROR".toList ("MEMORYERROR".toList.map Char.toLower) :=
      .of_ascii (by simp)
    simpa using Text.Lowers.cons .dotted hrest
  obtain ⟨-, hsilent, -⟩ := finish_attribution 8 [.output .stdout "1" false] (.exited (.signal 6))
    ⟨64, "İMEMORYERROR", false⟩ _ hlowers
  obtain ⟨outcome, hok, hlocals, -, -, hcomes⟩ := hsilent rfl
  refine ⟨outcome, hok, hlocals, ?_⟩
  have hwords : ∃ phrase ∈ memoryPhrases, phrase.toList <:+:
      'i' :: '\u0307' :: "MEMORYERROR".toList.map Char.toLower :=
    ⟨"memoryerror", by simp [memoryPhrases], ['i', '\u0307'], [], by simp⟩
  rw [Ending.ComesTo, if_pos (Or.inl hwords)] at hcomes
  obtain ⟨detail, hdetail⟩ := hcomes
  rw [Outcome.memoryExceeded, hdetail]

end ScriptSandbox
