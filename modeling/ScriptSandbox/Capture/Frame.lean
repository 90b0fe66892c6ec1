import ScriptSandbox.Capture.Source

/-!
Frames: payloads in a stream of bytes, each after its length in four bytes, the highest first. A
frame that the stream ends in is no frame, as a writer that is stopped cannot finish its last one.
-/

namespace ScriptSandbox

def maxPayload : Nat := 67108864

inductive FrameError
  /-- The length does not fit into four bytes. -/
  | unwritable (length : Nat)
  | tooLong (length : Nat)
  | unreadable (f : ReadFailure)
deriving DecidableEq

def FrameError.message : FrameError → String
  | unwritable length => s!"Message too large: {length} bytes"
  | tooLong length => s!"Message exceeds max size: {length} > {maxPayload}"
  | unreadable f => f.message

namespace Frame

def header (n : Nat) : ByteArray :=
  ⟨#[UInt8.ofNat (n / 16777216), UInt8.ofNat (n / 65536), UInt8.ofNat (n / 256), UInt8.ofNat n]⟩

def headerValue (bytes : ByteArray) : Nat :=
  bytes.data.foldl (fun n b => n * 256 + b.toNat) 0

def encode (payload : ByteArray) : Except FrameError ByteArray :=
  if 4294967296 ≤ payload.size then .error (.unwritable payload.size)
  else if maxPayload < payload.size then .error (.tooLong payload.size)
  else .ok (header payload.size ++ payload)

inductive Next
  | payload (data : ByteArray) (rest : Source)
  | ended
  | failed (e : FrameError)

def next (s : Source) : Next :=
  match s.readExactly 4 .empty with
  | .ended => .ended
  | .failed f => .failed (.unreadable f)
  | .complete bytes rest =>
    let length := headerValue bytes
    if maxPayload < length then .failed (.tooLong length)
    else
      match rest.readExactly length .empty with
      | .ended => .ended
      | .failed f => .failed (.unreadable f)
      | .complete data rest => .payload data rest

/-- A frame takes bytes out of the stream. -/
theorem size_of_next {s rest : Source} {data : ByteArray} (h : next s = .payload data rest) :
    rest.size < s.size := by
  unfold next at h
  split at h
  · cases h
  · cases h
  · rename_i hheader
    simp only at h
    split at h
    · cases h
    · split at h
      · cases h
      · cases h
      · rename_i hpayload
        cases h
        have := Source.size_of_readExactly hheader
        have := Source.size_of_readExactly hpayload
        omega

/-- The payloads of a stream, after the ones in `read`, which are newest first, and the error that
the stream ends in. -/
def readAll (read : List ByteArray) (s : Source) : List ByteArray × Option FrameError :=
  match _h : next s with
  | .ended => (read.reverse, none)
  | .failed e => (read.reverse, some e)
  | .payload data rest => readAll (data :: read) rest
termination_by s.size
decreasing_by exact size_of_next _h

end Frame

end ScriptSandbox
