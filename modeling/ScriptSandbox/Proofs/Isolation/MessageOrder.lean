import ScriptSandbox.Isolation.Collector
import ScriptSandbox.Proofs.Capture.Writes
import ScriptSandbox.Proofs.Except

/-!
The order of the messages. A message says something of one output stream or of the end of the script,
and what an outcome has of each of these depends on the messages about it alone. So the outcome is the
same in whatever order messages about different things come. Of the output itself it has the longest
beginning that fits, up to the first message with which the interpreter gives up the stream.
-/

namespace ScriptSandbox

open String (utf8Len)

def framesOf (stream : OutputStream) : List ChildMessage → List (String × Bool)
  | [] => []
  | .output s data overflow :: rest =>
    if s = stream then (data, overflow) :: framesOf stream rest else framesOf stream rest
  | .report _ :: rest => framesOf stream rest

def reportsOf : List ChildMessage → List ChildReport
  | [] => []
  | .output .. :: rest => reportsOf rest
  | .report r :: rest => r :: reportsOf rest

/-- The text of a stream up to the first overflow, with the text that this one comes with. -/
def heard : List (String × Bool) → String
  | [] => ""
  | (data, overflow) :: rest => if overflow then data else data ++ heard rest

/-- What an outcome has of a stream: the whole text if that is at most `cap` bytes and there was no
overflow, or else the longest beginning of at most `cap` bytes with the marker behind it. -/
def Shown (cap : Nat) (frames : List (String × Bool)) (shown : String) : Prop :=
  if (heard frames).utf8ByteSize ≤ cap ∧ ∀ f ∈ frames, f.2 = false then shown = heard frames
  else ∃ lead : String, Longest cap (heard frames).toList lead.toList ∧
    shown = lead ++ truncationMarker

/-- The same messages in another order, in which those about the same thing stay in order. -/
structure Reorders (messages other : List ChildMessage) : Prop where
  stdout : framesOf .stdout other = framesOf .stdout messages
  stderr : framesOf .stderr other = framesOf .stderr messages
  reports : reportsOf other = reportsOf messages

/-! ### One stream -/

namespace Buffer

variable {b : Buffer} {all : List Char}

def hear (b : Buffer) (frames : List (String × Bool)) : Buffer :=
  frames.foldl (fun b f => Collector.append f.1 f.2 b) b

def writesOf (f : String × Bool) : List BufferWrite :=
  .text f.1 :: if f.2 then [.mark] else []

theorem hear_eq_writeAll (b : Buffer) (frames : List (String × Bool)) :
    b.hear frames = b.writeAll (frames.flatMap writesOf) := by
  induction frames generalizing b with
  | nil => rfl
  | cons f frames ih =>
      have hframe : Collector.append f.1 f.2 b = b.writeAll (writesOf f) := by
        unfold Collector.append writesOf
        split <;> rfl
      rw [List.flatMap_cons, writeAll_append, ← hframe]
      exact ih _

@[simp] theorem allWritten_frames (frames : List (String × Bool)) :
    allWritten (frames.flatMap writesOf) = heard frames := by
  induction frames with
  | nil => rfl
  | cons f frames ih =>
      obtain ⟨data, _ | _⟩ := f
      · simpa [writesOf, allWritten, heard] using ih
      · simp [writesOf, allWritten, heard]

theorem mark_mem_frames {frames : List (String × Bool)} :
    .mark ∈ frames.flatMap writesOf ↔ ∃ f ∈ frames, f.2 = true := by
  simp [writesOf, List.mem_flatMap]

@[simp] theorem cap_hear (b : Buffer) (frames : List (String × Bool)) :
    (b.hear frames).cap = b.cap := by
  simp [hear_eq_writeAll]

theorem Holds.hear (h : b.Holds all) (frames : List (String × Bool)) :
    Longest b.cap (all ++ (heard frames).toList) (b.hear frames).text.toList ∧
      ((b.hear frames).truncated = true ↔
        b.cap < utf8Len (all ++ (heard frames).toList) ∨ ∃ f ∈ frames, f.2 = true) := by
  rw [hear_eq_writeAll, ← allWritten_frames, ← mark_mem_frames]
  exact h.writeAll _

theorem shown_hear (cap : Nat) (frames : List (String × Bool)) :
    Shown cap frames (hear { cap } frames).contents := by
  obtain ⟨hlongest, htruncated⟩ := (holds_empty cap).hear frames
  rw [List.nil_append] at hlongest htruncated
  rw [String.utf8Len_toList] at htruncated
  unfold Shown contents
  split
  · rename_i hwhole
    obtain ⟨hfits, hflags⟩ := hwhole
    rw [if_neg fun ht => (htruncated.1 ht).elim (Nat.not_lt.2 hfits)
      fun ⟨f, hf, hflag⟩ => by simp [hflags f hf] at hflag]
    exact String.toList_injective (hlongest.eq_of_size_le (by rwa [String.utf8Len_toList]))
  · rename_i hmissing
    refine ⟨_, hlongest, if_pos (htruncated.2 ?_)⟩
    by_contra hwhole
    rw [not_or, Nat.not_lt] at hwhole
    refine hmissing ⟨hwhole.1, fun f hf => ?_⟩
    exact Bool.eq_false_iff.2 fun hflag => hwhole.2 ⟨f, hf, hflag⟩

end Buffer

/-! ### All messages -/

namespace Collector

/-- A collector hears each stream for itself, and of the reports the last one counts. -/
theorem foldl_accept (c : Collector) (messages : List ChildMessage) :
    messages.foldl accept c = ⟨c.stdout.hear (framesOf .stdout messages),
      c.stderr.hear (framesOf .stderr messages), (reportsOf messages).getLast?.or c.report?⟩ := by
  induction messages generalizing c with
  | nil => rfl
  | cons m messages ih =>
      rw [List.foldl_cons, ih]
      rcases m with ⟨_ | _, data, overflow⟩ | r
      · rfl
      · rfl
      · simp [accept, framesOf, reportsOf, List.getLast?_cons]

/-- An outcome has all that was kept of both streams, and there is one unless the report says that the
script could not even be started. -/
theorem finish_cases (c : Collector) (ending : Ending) (raw : Buffer) :
    (∃ outcome, c.finish ending raw = .ok outcome ∧ outcome.stdout = c.stdout.contents ∧
        outcome.stderr = (c.allStderr raw).contents) ∨
      ∃ r message, c.report? = some r ∧ r.outcome = .setupFailed message ∧
        c.finish ending raw = .error (.setup message) := by
  obtain ⟨stdout, stderr, _ | r⟩ := c
  · exact .inl ⟨_, rfl, rfl, rfl⟩
  · cases houtcome : r.outcome with
    | setupFailed message =>
        refine .inr ⟨r, message, rfl, houtcome, ?_⟩
        simp [finish, houtcome, ChildOutcome.termination, bind, Except.bind]
    | completed | raised | syntaxInvalid | memoryExceeded =>
        left
        simp [finish, houtcome, ChildOutcome.termination, bind, Except.bind, pure, Except.pure]

end Collector

/-- Whatever messages come, the output in the outcome is the whole text of the stream, or the longest
beginning of it that fits with one marker behind it; there is an outcome unless the last report says
that the setup failed. In another order, in which the messages about each stream and the reports stay
in order, the same messages come to the same. -/
theorem finish_of_messages (cap : Nat) (messages : List ChildMessage) (ending : Ending)
    (raw : Buffer) :
    let answer := (messages.foldl Collector.accept (.ofCap cap)).finish ending raw
    ((∃ outcome, answer = .ok outcome ∧ Shown cap (framesOf .stdout messages) outcome.stdout) ∨
      ∃ r message, (reportsOf messages).getLast? = some r ∧ r.outcome = .setupFailed message ∧
        answer = .error (.setup message)) ∧
      ∀ other, Reorders messages other →
        (other.foldl Collector.accept (.ofCap cap)).finish ending raw = answer := by
  intro answer
  constructor
  · have hanswer := (messages.foldl Collector.accept (.ofCap cap)).finish_cases ending raw
    rw [Collector.foldl_accept] at hanswer
    obtain ⟨outcome, hok, hstdout, -⟩ | ⟨r, message, hreport, hfailed, herror⟩ := hanswer
    · refine .inl ⟨outcome, ?_, hstdout ▸ Buffer.shown_hear cap _⟩
      rw [← hok, ← Collector.foldl_accept]
    · refine .inr ⟨r, message, ?_, hfailed, ?_⟩
      · simpa [Collector.ofCap] using hreport
      · rw [← herror, ← Collector.foldl_accept]
  · intro other h
    change _ = Collector.finish _ ending raw
    rw [Collector.foldl_accept, h.stdout, h.stderr, h.reports, ← Collector.foldl_accept]

/-- The message about the error stream comes first or in between. -/
theorem finish_of_reordered_messages :
    let messages : List ChildMessage :=
      [.output .stdout "a" false, .output .stderr "b" false, .output .stdout "c" true]
    let other : List ChildMessage :=
      [.output .stderr "b" false, .output .stdout "a" false, .output .stdout "c" true]
    Reorders messages other ∧
      (other.foldl Collector.accept (.ofCap 8)).finish .killed ⟨8, "d", false⟩ =
        (messages.foldl Collector.accept (.ofCap 8)).finish .killed ⟨8, "d", false⟩ := by
  intro messages other
  have hreorders : Reorders messages other := ⟨rfl, rfl, rfl⟩
  exact ⟨hreorders, (finish_of_messages 8 messages .killed ⟨8, "d", false⟩).2 other hreorders⟩

end ScriptSandbox
