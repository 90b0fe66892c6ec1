import ScriptSandbox.Capture.Buffer
import ScriptSandbox.Capture.Source

/-!
Reading a stream to its end while only a bounded beginning of it is kept, so that a writer never
waits for a reader that has enough.
-/

namespace ScriptSandbox

/-- What is kept of a stream, and whether something is missing. -/
structure Kept where
  data : ByteArray := .empty
  truncated : Bool := false

/-- Keep of some bytes what fits into `cap` bytes altogether. -/
def Kept.add (k : Kept) (cap : Nat) (more : ByteArray) : Kept :=
  let room := cap - k.data.size
  ⟨k.data ++ more.extract 0 (min more.size room), k.truncated || decide (room < more.size)⟩

/-- Read a stream to its end, keeping at most `cap` bytes. A failure ends it too, except that an
interrupted read is tried again where `retries` says so. -/
def keepBytes (retries : Bool) (cap : Nat) (k : Kept) : Source → Kept
  | [] => k
  | .bytes data :: rest => if data.isEmpty then k else keepBytes retries cap (k.add cap data) rest
  | .failure .interrupted :: rest => if retries then keepBytes retries cap k rest else k
  | .failure .connectionReset :: _ => k

def drain (retries : Bool) (cap : Nat) (s : Source) : Buffer :=
  let k := keepBytes retries cap {} s
  let b := Buffer.pushBytes ⟨cap, "", false⟩ k.data
  if k.truncated then b.markTruncated else b

end ScriptSandbox
