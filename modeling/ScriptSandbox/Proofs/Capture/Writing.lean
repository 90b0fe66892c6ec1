import Mathlib.Logic.Relation
import ScriptSandbox.Capture.Frame

/-!
Writing to a stream. A stream takes what a writer hands to it in pieces of any size, so writers that
hand over the same byte strings may go on in different steps, and wait in between or not. What they
have written in the end is the same. In particular a frame is written in one way only, and a payload
that is too long for a frame leaves the stream as it was.
-/

namespace ScriptSandbox

def joined : List ByteArray → ByteArray
  | [] => .empty
  | data :: rest => data ++ joined rest

@[simp] theorem joined_nil : joined [] = .empty := rfl

@[simp] theorem joined_cons (data : ByteArray) (rest : List ByteArray) :
    joined (data :: rest) = data ++ joined rest := rfl

theorem extract_append_extract {data : ByteArray} {n : Nat} (h : n ≤ data.size) :
    data.extract 0 n ++ data.extract n data.size = data := by
  rw [← ByteArray.extract_eq_extract_append_extract n (Nat.zero_le n) h,
    ByteArray.extract_zero_size]

/-- A writer at work: the byte strings that it has still to hand over, and what the stream has. -/
structure Writing where
  pending : List ByteArray
  written : ByteArray

namespace Writing

/-- One step of a writer. The stream takes some bytes, at least one, from the beginning of the first
byte string, and a byte string of which nothing is left is done with. -/
inductive Step : Writing → Writing → Prop
  | take {data pending written n} : 0 < n → n ≤ data.size →
      Step ⟨data :: pending, written⟩
        ⟨data.extract n data.size :: pending, written ++ data.extract 0 n⟩
  | done {pending written} : Step ⟨.empty :: pending, written⟩ ⟨pending, written⟩

def final (w : Writing) : ByteArray :=
  w.written ++ joined w.pending

theorem Step.final_eq {w next : Writing} (h : w.Step next) : next.final = w.final := by
  cases h with
  | @take data pending written n _ hn =>
      calc (written ++ data.extract 0 n) ++ (data.extract n data.size ++ joined pending)
          = written ++ ((data.extract 0 n ++ data.extract n data.size) ++ joined pending) := by
            simp only [ByteArray.append_assoc]
        _ = written ++ (data ++ joined pending) := by rw [extract_append_extract hn]
  | done => simp [final]

theorem final_eq_of_reaches {w next : Writing} (h : Relation.ReflTransGen Step w next) :
    next.final = w.final := by
  induction h with
  | refl => rfl
  | tail _ hstep ih => rw [hstep.final_eq, ih]

/-- Every writer can come to its end, for instance by handing over each byte string at once. -/
theorem reaches_final (pending : List ByteArray) (written : ByteArray) :
    Relation.ReflTransGen Step ⟨pending, written⟩ ⟨[], written ++ joined pending⟩ := by
  induction pending generalizing written with
  | nil => simpa using Relation.ReflTransGen.refl
  | cons data pending ih =>
      have hdone (written : ByteArray) : Relation.ReflTransGen Step ⟨.empty :: pending, written⟩
          ⟨[], written ++ joined pending⟩ := .head .done (ih written)
      by_cases hsize : data.size = 0
      · cases ByteArray.size_eq_zero_iff.1 hsize
        simpa using hdone written
      · have htake : Step ⟨data :: pending, written⟩ ⟨.empty :: pending, written ++ data⟩ := by
          simpa using
            @Step.take data pending written data.size (Nat.pos_of_ne_zero hsize) (Nat.le_refl _)
        simpa [ByteArray.append_assoc] using (hdone (written ++ data)).head htake

end Writing

namespace Frame

variable {payload before after : ByteArray} {answer : Except FrameError Unit}

def ofPayload (payload : ByteArray) : ByteArray :=
  header payload.size ++ payload

@[simp] theorem encode_of_le (h : payload.size ≤ maxPayload) :
    encode payload = .ok (ofPayload payload) := by
  unfold encode
  rw [if_neg (by unfold maxPayload at h; omega), if_neg (by omega)]
  rfl

theorem encode_of_lt (h : maxPayload < payload.size) : ∃ e, encode payload = .error e := by
  unfold encode
  split
  · exact ⟨_, rfl⟩
  · exact ⟨_, rfl⟩

/-- What becomes of a stream when a writer is given a payload: the payload is refused before anything
is written, or its frame is handed over in two parts, of which the second one is the payload. -/
inductive Writes (payload before : ByteArray) : Except FrameError Unit → ByteArray → Prop
  | refused {e} : encode payload = .error e → Writes payload before (.error e) before
  | sent {frame head after} : encode payload = .ok frame → head ++ payload = frame →
      Relation.ReflTransGen Writing.Step ⟨[head, payload], before⟩ ⟨[], after⟩ →
      Writes payload before (.ok ()) after

theorem writes_iff_of_le (h : payload.size ≤ maxPayload) :
    Writes payload before answer after ↔
      answer = .ok () ∧ after = before ++ ofPayload payload := by
  have hencode := encode_of_le h
  have hjoined (head : ByteArray) : joined [head, payload] = head ++ payload := by simp
  constructor
  · rintro (hrefused | ⟨hsent, hframe, hreaches⟩)
    · rw [hencode] at hrefused
      cases hrefused
    · rw [hencode] at hsent
      cases hsent
      have hfinal := Writing.final_eq_of_reaches hreaches
      rw [Writing.final, Writing.final, hjoined, hframe, joined_nil, ByteArray.append_empty] at hfinal
      exact ⟨rfl, hfinal⟩
  · rintro ⟨rfl, rfl⟩
    have hreaches := Writing.reaches_final [header payload.size, payload] before
    rw [hjoined] at hreaches
    exact .sent hencode rfl hreaches

theorem writes_iff_of_error {e : FrameError} (h : encode payload = .error e) :
    Writes payload before answer after ↔ answer = .error e ∧ after = before := by
  constructor
  · rintro (hrefused | ⟨hsent, -, -⟩)
    · rw [h] at hrefused
      cases hrefused
      exact ⟨rfl, rfl⟩
    · rw [h] at hsent
      cases hsent
  · rintro ⟨rfl, rfl⟩
    exact .refused h

/-- Payloads that are written to a stream one after another, each with success. -/
inductive WritesAll : List ByteArray → ByteArray → ByteArray → Prop
  | nil {data} : WritesAll [] data data
  | cons {first rest start between final} : Writes first start (.ok ()) between →
      WritesAll rest between final → WritesAll (first :: rest) start final

/-- The frames of some payloads one behind another. -/
def stream (payloads : List ByteArray) : ByteArray :=
  joined (payloads.map ofPayload)

@[simp] theorem stream_nil : stream [] = .empty := rfl

@[simp] theorem stream_cons (payload : ByteArray) (payloads : List ByteArray) :
    stream (payload :: payloads) = ofPayload payload ++ stream payloads := rfl

theorem writesAll_iff {payloads : List ByteArray} (h : ∀ p ∈ payloads, p.size ≤ maxPayload) :
    WritesAll payloads before after ↔ after = before ++ stream payloads := by
  induction payloads generalizing before with
  | nil =>
      constructor
      · rintro ⟨⟩
        simp
      · rintro rfl
        simpa using WritesAll.nil
  | cons payload payloads ih =>
      obtain ⟨hfits, hrest⟩ := List.forall_mem_cons.1 h
      have hstream : before ++ stream (payload :: payloads) =
          before ++ ofPayload payload ++ stream payloads := by
        simp [ByteArray.append_assoc]
      rw [hstream]
      constructor
      · rintro (- | ⟨hwrites, hall⟩)
        obtain ⟨-, rfl⟩ := (writes_iff_of_le hfits).1 hwrites
        exact (ih hrest).1 hall
      · rintro rfl
        exact .cons ((writes_iff_of_le hfits).2 ⟨rfl, rfl⟩) ((ih hrest).2 rfl)

end Frame

end ScriptSandbox
