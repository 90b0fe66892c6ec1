import Mathlib.Logic.Relation
import ScriptSandbox.Isolation.Exchange
import ScriptSandbox.Proofs.Except

/-!
Runs step by step. Several parties have a part in a run: one takes the messages, one reads the error
stream, the interpreter goes away at some time, and in a thread a forwarder puts the messages into a
queue before they are taken. In a process of its own the request is written before the first message is
taken, and where a part of it stays in the pipe nothing else happens until the time is over; a thread
leaves it to a party for which nobody waits. Each party goes on for itself and may wait as long as it
likes, so the steps of a run can come in many orders. All of them lead to one answer, the one of the
boundary: no step changes the answer that is to be expected, and every step leaves less to be done.
-/

namespace ScriptSandbox

/-! ### The parties -/

/-- What goes on behind the messages of a run. -/
structure Background where
  errors : Source
  kept : Kept
  gone : Bool

/-- A step behind the messages: the error stream is read on, or the interpreter goes away. Reading ends
at the first read that gives nothing and at the first failure, except that an interrupted read is tried
again where `retries` says so. -/
inductive Background.Step (retries : Bool) (cap : Nat) : Background → Background → Prop
  | read {data errors kept gone} : data.isEmpty = false →
      Step retries cap ⟨.bytes data :: errors, kept, gone⟩ ⟨errors, kept.add cap data, gone⟩
  | close {data errors kept gone} : data.isEmpty = true →
      Step retries cap ⟨.bytes data :: errors, kept, gone⟩ ⟨[], kept, gone⟩
  | retry {errors kept gone} : retries = true →
      Step retries cap ⟨.failure .interrupted :: errors, kept, gone⟩ ⟨errors, kept, gone⟩
  | giveUp {failure errors kept gone} : (failure = .interrupted → retries = false) →
      Step retries cap ⟨.failure failure :: errors, kept, gone⟩ ⟨[], kept, gone⟩
  | leave {errors kept} : Step retries cap ⟨errors, kept, false⟩ ⟨errors, kept, true⟩

/-- How far a run is. -/
inductive RunStage
  | collecting (c : Collector)
  /-- The messages are over, and the end of the interpreter is awaited. -/
  | awaiting (c : Collector)
  /-- The interpreter is gone in this way, and the reader of the error stream is awaited. -/
  | finishing (c : Collector) (ending : Ending)
  | ended (answer : Except SandboxFault Outcome)

def Kept.buffer (k : Kept) (cap : Nat) : Buffer :=
  let b := Buffer.pushBytes ⟨cap, "", false⟩ k.data
  if k.truncated then b.markTruncated else b

/-- A stage that is left when what it waits for has happened. -/
inductive RunStage.Closes (cap : Nat) (status : ExitStatus) (b : Background) :
    RunStage → RunStage → Prop
  | reap {c} : b.gone = true → Closes cap status b (.awaiting c) (.finishing c (.exited status))
  | finish {c ending} : b.errors = [] → Closes cap status b (.finishing c ending)
      (.ended (c.finish ending (b.kept.buffer cap)))

/-- What a stream of messages has next, and what is left of it: a message, a fault or nothing. -/
inductive Delivers (explain : ByteArray → String) :
    Source → Option (Except SandboxFault ChildMessage) → Source → Prop
  | message {s data rest m} : Frame.next s = .payload data rest →
      ChildMessage.ofPayload explain data = .ok m → Delivers explain s (some (.ok m)) rest
  | malformed {s data rest fault} : Frame.next s = .payload data rest →
      ChildMessage.ofPayload explain data = .error fault →
      Delivers explain s (some (.error fault)) rest
  | failed {s e} : Frame.next s = .failed e →
      Delivers explain s (some (.error (.protocol e.message))) s
  | exhausted {s} : Frame.next s = .ended → Delivers explain s none s

/-- A run in a process of its own at some moment. -/
structure ProcessRun where
  /-- Whether the writing of the request is over. -/
  requested : Bool
  stage : RunStage
  unread : Source
  background : Background

/-- One step of a run in a process of its own. A message is taken as soon as it is read, but none before
the writing of the request is over. If that hangs, the interpreter is killed when the time is over. -/
inductive ProcessRun.Step (explain : ByteArray → String) (cap : Nat) (handover : Handover)
    (status : ExitStatus) : ProcessRun → ProcessRun → Prop
  | request {c unread b} : handover = .ends →
      Step explain cap handover status ⟨false, .collecting c, unread, b⟩
        ⟨true, .collecting c, unread, b⟩
  | expire {c unread b stderr} : handover = .hangs stderr →
      Step explain cap handover status ⟨false, .collecting c, unread, b⟩
        ⟨true, .finishing c .killed, unread, { b with gone := true }⟩
  | accept {c unread m rest b} : Delivers explain unread (some (.ok m)) rest →
      Step explain cap handover status ⟨true, .collecting c, unread, b⟩
        ⟨true, .collecting (c.accept m), rest, b⟩
  | fault {c unread fault rest b} : Delivers explain unread (some (.error fault)) rest →
      Step explain cap handover status ⟨true, .collecting c, unread, b⟩
        ⟨true, .ended (.error fault), rest, b⟩
  | exhausted {c unread rest b} : Delivers explain unread none rest →
      Step explain cap handover status ⟨true, .collecting c, unread, b⟩ ⟨true, .awaiting c, rest, b⟩
  | close {requested stage next unread b} : stage.Closes cap status b next →
      Step explain cap handover status ⟨requested, stage, unread, b⟩ ⟨requested, next, unread, b⟩
  | background {requested stage unread b next} : b.Step false cap next →
      Step explain cap handover status ⟨requested, stage, unread, b⟩ ⟨requested, stage, unread, next⟩

/-- A run that a thread drives at some moment. -/
structure ThreadRun where
  stage : RunStage
  /-- The messages on their way, first the one that is taken next. -/
  queue : List (Except SandboxFault ChildMessage)
  forwarding : Bool
  unread : Source
  background : Background

/-- One step of a run that a thread drives. The forwarder stops at the first fault, which it still puts
into the queue. That there will be nothing in the queue again is seen when it is empty and the forwarder
has stopped. -/
inductive ThreadRun.Step (explain : ByteArray → String) (cap : Nat) (status : ExitStatus) :
    ThreadRun → ThreadRun → Prop
  | forward {stage queue unread item rest b} : Delivers explain unread (some item) rest →
      Step explain cap status ⟨stage, queue, true, unread, b⟩
        ⟨stage, queue ++ [item], item.isOk, rest, b⟩
  | stop {stage queue unread rest b} : Delivers explain unread none rest →
      Step explain cap status ⟨stage, queue, true, unread, b⟩ ⟨stage, queue, false, rest, b⟩
  | accept {c m queue forwarding unread b} :
      Step explain cap status ⟨.collecting c, .ok m :: queue, forwarding, unread, b⟩
        ⟨.collecting (c.accept m), queue, forwarding, unread, b⟩
  | fault {c fault queue forwarding unread b} :
      Step explain cap status ⟨.collecting c, .error fault :: queue, forwarding, unread, b⟩
        ⟨.ended (.error fault), queue, forwarding, unread, b⟩
  | exhausted {c unread b} :
      Step explain cap status ⟨.collecting c, [], false, unread, b⟩ ⟨.awaiting c, [], false, unread, b⟩
  | close {stage next queue forwarding unread b} : stage.Closes cap status b next →
      Step explain cap status ⟨stage, queue, forwarding, unread, b⟩ ⟨next, queue, forwarding, unread, b⟩
  | background {stage queue forwarding unread b next} : b.Step true cap next →
      Step explain cap status ⟨stage, queue, forwarding, unread, b⟩ ⟨stage, queue, forwarding, unread, next⟩

/-! ### Runs to the end -/

section
variable {Moment : Type} {step : Moment → Moment → Prop} {stage : Moment → RunStage}
  {m next start : Moment}

end

/-! ### What a step does -/

variable {explain : ByteArray → String} {s rest : Source} {item : Except SandboxFault ChildMessage}
  {m : ChildMessage} {fault : SandboxFault} {retries : Bool} {cap : Nat} {status : ExitStatus}
  {b nextBackground : Background} {stage nextStage : RunStage}

namespace Delivers

theorem exists_next (explain : ByteArray → String) (s : Source) :
    ∃ item? rest, Delivers explain s item? rest := by
  cases hnext : Frame.next s with
  | payload data rest =>
      cases hmessage : ChildMessage.ofPayload explain data with
      | ok m => exact ⟨_, _, .message hnext hmessage⟩
      | error fault => exact ⟨_, _, .malformed hnext hmessage⟩
  | ended => exact ⟨_, _, .exhausted hnext⟩
  | failed e => exact ⟨_, _, .failed hnext⟩

theorem size_lt (h : Delivers explain s (some (.ok m)) rest) : rest.size < s.size := by
  cases h with
  | message hnext _ => exact Frame.size_of_next hnext

theorem size_le {item? : Option (Except SandboxFault ChildMessage)} (h : Delivers explain s item? rest) :
    rest.size ≤ s.size := by
  cases h with
  | message hnext _ => exact Nat.le_of_lt (Frame.size_of_next hnext)
  | malformed hnext _ => exact Nat.le_of_lt (Frame.size_of_next hnext)
  | failed _ => exact Nat.le_refl _
  | exhausted _ => exact Nat.le_refl _

/-- What is next in a stream is the first item of its queue, and a fault is the last one too. -/
theorem messageQueue_eq (h : Delivers explain s (some item) rest) :
    messageQueue explain s = item :: if item.isOk then messageQueue explain rest else [] := by
  rw [messageQueue]
  cases h with
  | message hnext hmessage => split <;> simp_all [Except.isOk, Except.toBool]
  | malformed hnext hmessage => split <;> simp_all [Except.isOk, Except.toBool]
  | failed hnext => split <;> simp_all [Except.isOk, Except.toBool]

theorem messageQueue_eq_nil (h : Delivers explain s none rest) : messageQueue explain s = [] := by
  rw [messageQueue]
  cases h with
  | exhausted hnext => split <;> simp_all

end Delivers

/-- What is kept of the error stream when all of it has been read. -/
def Background.lastWords (b : Background) (retries : Bool) (cap : Nat) : Buffer :=
  (keepBytes retries cap b.kept b.errors).buffer cap

def Background.left (b : Background) : Nat :=
  b.errors.length + if b.gone then 0 else 1

theorem Background.Step.lastWords_eq (h : b.Step retries cap nextBackground) :
    nextBackground.lastWords retries cap = b.lastWords retries cap := by
  cases h with
  | read hdata => simp [lastWords, keepBytes, hdata]
  | close hdata => simp [lastWords, keepBytes, hdata]
  | retry hretries => simp [lastWords, keepBytes, hretries]
  | @giveUp failure _ _ _ hfailure =>
      cases failure with
      | interrupted => simp [lastWords, keepBytes, hfailure rfl]
      | connectionReset => rfl
  | leave => rfl

theorem Background.Step.left_lt (h : b.Step retries cap nextBackground) :
    nextBackground.left < b.left := by
  cases h <;> simp [left]

theorem Background.exists_step (h : b.errors ≠ []) : ∃ next, b.Step retries cap next := by
  obtain ⟨errors, kept, gone⟩ := b
  cases errors with
  | nil => exact absurd rfl h
  | cons first errors =>
      cases first with
      | bytes data =>
          cases hdata : data.isEmpty with
          | false => exact ⟨_, .read hdata⟩
          | true => exact ⟨_, .close hdata⟩
      | failure failure =>
          by_cases hretry : failure = .interrupted ∧ retries = true
          · obtain ⟨rfl, hretries⟩ := hretry
            exact ⟨_, .retry hretries⟩
          · refine ⟨_, .giveUp fun hfailure => ?_⟩
            exact Bool.eq_false_iff.2 fun hretries => hretry ⟨hfailure, hretries⟩

namespace RunStage

/-- The answer that is to be expected at a stage, from the items that are still to be taken and from
what will be kept of the error stream. -/
def expected (status : ExitStatus) (items : List (Except SandboxFault ChildMessage))
    (lastWords : Buffer) : RunStage → Except SandboxFault Outcome
  | collecting c => do
    let c ← c.acceptAll items
    c.finish (.exited status) lastWords
  | awaiting c => c.finish (.exited status) lastWords
  | finishing c ending => c.finish ending lastWords
  | ended answer => answer

def left : RunStage → Nat
  | collecting _ => 3
  | awaiting _ => 2
  | finishing _ _ => 1
  | ended _ => 0

theorem Closes.expected_eq (h : stage.Closes cap status b nextStage)
    (items : List (Except SandboxFault ChildMessage)) :
    nextStage.expected status items (b.lastWords retries cap) =
      stage.expected status items (b.lastWords retries cap) := by
  cases h with
  | reap => rfl
  | finish herrors => simp [expected, Background.lastWords, herrors, keepBytes]

theorem Closes.left_lt (h : stage.Closes cap status b nextStage) : nextStage.left < stage.left := by
  cases h <;> simp [left]

/-- Besides taking messages a run goes on until it has its answer. -/
theorem goes_on (stage : RunStage) (b : Background) (retries : Bool) (cap : Nat) (status : ExitStatus) :
    (∃ c, stage = .collecting c) ∨ (∃ answer, stage = .ended answer) ∨
      (∃ next, stage.Closes cap status b next) ∨ ∃ next, b.Step retries cap next := by
  cases stage with
  | collecting c => exact .inl ⟨c, rfl⟩
  | awaiting c =>
      obtain ⟨errors, kept, gone⟩ := b
      cases gone with
      | true => exact .inr (.inr (.inl ⟨_, .reap rfl⟩))
      | false => exact .inr (.inr (.inr ⟨_, .leave⟩))
  | finishing c ending =>
      by_cases herrors : b.errors = []
      · exact .inr (.inr (.inl ⟨_, .finish herrors⟩))
      · exact .inr (.inr (.inr (Background.exists_step herrors)))
  | ended answer => exact .inr (.inl ⟨answer, rfl⟩)

end RunStage

/-! ### The two boundaries -/

/-- What an interpreter writes to its error stream itself, in a process of its own. -/
def Conduct.stderrInProcess (c : Conduct) : Source :=
  match c.handover with
  | .ends => c.stderr
  | .hangs stderr => stderr

namespace ProcessRun

variable {handover : Handover} {r next : ProcessRun}

/-- The beginning of a run in which at most `cap` bytes of each stream are kept. -/
def start (c : Conduct) (cap : Nat) : ProcessRun :=
  ⟨false, .collecting (.ofCap cap), c.messages, ⟨c.stderrInProcess, {}, false⟩⟩

/-- The stage that tells what is to be expected. A request of which a part stays in the pipe is as good
as an interpreter that is killed. -/
def prospect (handover : Handover) : Bool → RunStage → RunStage
  | false, .collecting c =>
    match handover with
    | .ends => .collecting c
    | .hangs _ => .finishing c .killed
  | _, stage => stage

def expected (explain : ByteArray → String) (cap : Nat) (handover : Handover) (status : ExitStatus)
    (r : ProcessRun) : Except SandboxFault Outcome :=
  (prospect handover r.requested r.stage).expected status (messageQueue explain r.unread)
    (r.background.lastWords false cap)

def left (r : ProcessRun) : Nat :=
  (if r.requested then 0 else 1) + r.stage.left + r.unread.size + r.background.left

/-- Once the messages are over, what is to be expected does not depend on the request. -/
theorem prospect_of_closes (h : stage.Closes cap status b nextStage) (handover : Handover)
    (requested : Bool) : prospect handover requested stage = stage ∧
      prospect handover requested nextStage = nextStage := by
  cases h <;> cases requested <;> exact ⟨rfl, rfl⟩

theorem Step.expected_eq (h : r.Step explain cap handover status next) :
    next.expected explain cap handover status = r.expected explain cap handover status := by
  cases h with
  | request hends => subst hends; rfl
  | expire hhangs => subst hhangs; rfl
  | accept hnext => simp [expected, prospect, RunStage.expected, hnext.messageQueue_eq,
      Collector.acceptAll, Except.isOk, Except.toBool]
  | fault hnext => simp [expected, prospect, RunStage.expected, hnext.messageQueue_eq,
      Collector.acceptAll, bind, Except.bind]
  | exhausted hnext => simp [expected, prospect, RunStage.expected, hnext.messageQueue_eq_nil,
      Collector.acceptAll, bind, Except.bind]
  | @close requested _ _ _ _ hcloses =>
      obtain ⟨hstage, hnext⟩ := prospect_of_closes hcloses handover requested
      simp only [expected, hstage, hnext]
      exact hcloses.expected_eq _
  | background hstep => rw [expected, expected, hstep.lastWords_eq]

theorem Step.left_lt (h : r.Step explain cap handover status next) : next.left < r.left := by
  cases h with
  | request =>
      simp only [left, Bool.false_eq_true, if_true, if_false]
      omega
  | expire =>
      simp only [left, RunStage.left, Background.left, Bool.false_eq_true, if_true, if_false]
      omega
  | accept hnext =>
      have := hnext.size_lt
      simp only [left, RunStage.left]
      omega
  | fault hnext =>
      have := hnext.size_le
      simp only [left, RunStage.left]
      omega
  | exhausted hnext =>
      have := hnext.size_le
      simp only [left, RunStage.left]
      omega
  | close hcloses =>
      have := hcloses.left_lt
      simp only [left]
      omega
  | background hstep =>
      have := hstep.left_lt
      simp only [left]
      omega

theorem goes_on (r : ProcessRun) (explain : ByteArray → String) (cap : Nat) (handover : Handover)
    (status : ExitStatus) :
    (∃ answer, r.stage = .ended answer) ∨ ∃ next, r.Step explain cap handover status next := by
  obtain ⟨requested, stage, unread, b⟩ := r
  rcases stage.goes_on b false cap status with
    ⟨c, rfl⟩ | hended | ⟨next, hcloses⟩ | ⟨next, hstep⟩
  · cases requested with
    | false =>
        cases handover with
        | ends => exact .inr ⟨_, .request rfl⟩
        | hangs stderr => exact .inr ⟨_, .expire rfl⟩
    | true =>
        obtain ⟨item?, rest, hnext⟩ := Delivers.exists_next explain unread
        cases item? with
        | none => exact .inr ⟨_, .exhausted hnext⟩
        | some item =>
            cases item with
            | ok m => exact .inr ⟨_, .accept hnext⟩
            | error fault => exact .inr ⟨_, .fault hnext⟩
  · exact .inl hended
  · exact .inr ⟨_, .close hcloses⟩
  · exact .inr ⟨_, .background hstep⟩

end ProcessRun

namespace ThreadRun

variable {r next : ThreadRun}

def start (c : Conduct) (cap : Nat) : ThreadRun :=
  ⟨.collecting (.ofCap cap), [], true, c.messages, ⟨c.stderr, {}, false⟩⟩

/-- The items that are still to be taken: the ones in the queue and the ones that the forwarder will
put there. -/
def items (explain : ByteArray → String) (r : ThreadRun) : List (Except SandboxFault ChildMessage) :=
  r.queue ++ if r.forwarding then messageQueue explain r.unread else []

def expected (explain : ByteArray → String) (cap : Nat) (status : ExitStatus) (r : ThreadRun) :
    Except SandboxFault Outcome :=
  r.stage.expected status (r.items explain) (r.background.lastWords true cap)

/-- How much is still to be done. What is read counts twice, as it is forwarded and then taken. -/
def left (r : ThreadRun) : Nat :=
  r.stage.left + r.queue.length + (if r.forwarding then 2 else 0) + 2 * r.unread.size +
    r.background.left

theorem Step.expected_eq (h : r.Step explain cap status next) :
    next.expected explain cap status = r.expected explain cap status := by
  cases h with
  | forward hnext => simp [expected, items, hnext.messageQueue_eq]
  | stop hnext => simp [expected, items, hnext.messageQueue_eq_nil]
  | accept => rfl
  | fault => rfl
  | exhausted => rfl
  | close hcloses => exact hcloses.expected_eq _
  | background hstep => rw [expected, expected, hstep.lastWords_eq]; rfl

theorem Step.left_lt (h : r.Step explain cap status next) : next.left < r.left := by
  cases h with
  | @forward stage queue unread item rest b hnext =>
      cases item with
      | ok m =>
          have := hnext.size_lt
          simp only [left, List.length_append, List.length_singleton, Except.isOk, Except.toBool,
            if_true]
          omega
      | error fault =>
          have := hnext.size_le
          simp only [left, List.length_append, List.length_singleton, Except.isOk, Except.toBool,
            Bool.false_eq_true, if_true, if_false]
          omega
  | stop hnext =>
      have := hnext.size_le
      simp only [left, Bool.false_eq_true, if_true, if_false]
      omega
  | accept =>
      simp only [left, RunStage.left, List.length_cons]
      omega
  | fault =>
      simp only [left, RunStage.left, List.length_cons]
      omega
  | exhausted =>
      simp only [left, RunStage.left]
      omega
  | close hcloses =>
      have := hcloses.left_lt
      simp only [left]
      omega
  | background hstep =>
      have := hstep.left_lt
      simp only [left]
      omega

theorem goes_on (r : ThreadRun) (explain : ByteArray → String) (cap : Nat) (status : ExitStatus) :
    (∃ answer, r.stage = .ended answer) ∨ ∃ next, r.Step explain cap status next := by
  obtain ⟨stage, queue, forwarding, unread, b⟩ := r
  rcases stage.goes_on b true cap status with
    ⟨c, rfl⟩ | hended | ⟨next, hcloses⟩ | ⟨next, hstep⟩
  · cases queue with
    | cons item queue =>
        cases item with
        | ok m => exact .inr ⟨_, .accept⟩
        | error fault => exact .inr ⟨_, .fault⟩
    | nil =>
        -- An empty queue is filled by the forwarder until that stops.
        cases forwarding with
        | false => exact .inr ⟨_, .exhausted⟩
        | true =>
            obtain ⟨item?, rest, hnext⟩ := Delivers.exists_next explain unread
            cases item? with
            | none => exact .inr ⟨_, .stop hnext⟩
            | some item => exact .inr ⟨_, .forward hnext⟩
  · exact .inl hended
  · exact .inr ⟨_, .close hcloses⟩
  · exact .inr ⟨_, .background hstep⟩

end ThreadRun

end ScriptSandbox
