/-!
Streams of bytes as a reader meets them: one read after another gives some bytes or fails. A read
that gives no bytes tells that the stream is at its end, as does any read after the last one.
-/

namespace ScriptSandbox

inductive ReadFailure
  | interrupted
  | connectionReset
deriving DecidableEq

def ReadFailure.message : ReadFailure → String
  | interrupted => "operation interrupted"
  | connectionReset => "connection reset"

inductive Read
  | bytes (data : ByteArray)
  | failure (f : ReadFailure)

abbrev Source := List Read

namespace Source

/-- How many bytes the reads give, if all of them are done. -/
def size : Source → Nat
  | [] => 0
  | .bytes data :: rest => data.size + size rest
  | .failure _ :: rest => size rest

/-- What comes of reading a number of bytes. -/
inductive Exactly
  | complete (data : ByteArray) (rest : Source)
  /-- The stream ends before there are so many. -/
  | ended
  | failed (f : ReadFailure)

/-- Read `count` more bytes after the ones in `read`, trying again after interruptions. -/
def readExactly (count : Nat) (read : ByteArray) : Source → Exactly
  | [] => if count = 0 then .complete read [] else .ended
  | .bytes data :: rest =>
    if count = 0 then .complete read (.bytes data :: rest)
    else if data.isEmpty then .ended
    else if count < data.size then
      .complete (read ++ data.extract 0 count) (.bytes (data.extract count data.size) :: rest)
    else readExactly (count - data.size) (read ++ data) rest
  | .failure f :: rest =>
    if count = 0 then .complete read (.failure f :: rest)
    else
      match f with
      | .interrupted => readExactly count read rest
      | .connectionReset => .failed f

/-- Bytes that are read are no longer in the stream. -/
theorem size_of_readExactly {count : Nat} {read data : ByteArray} {s rest : Source}
    (h : readExactly count read s = .complete data rest) : rest.size + count = s.size := by
  induction s generalizing count read with
  | nil =>
    unfold readExactly at h
    split at h
    · cases h
      simp [size, *]
    · cases h
  | cons first s ih =>
    cases first with
    | bytes more =>
      unfold readExactly at h
      split at h
      · cases h
        simp [*]
      · split at h
        · cases h
        · split at h
          · cases h
            simp only [size, ByteArray.size_extract]
            omega
          · have := ih h
            simp only [size]
            omega
    | failure f =>
      unfold readExactly at h
      split at h
      · cases h
        simp [*]
      · split at h
        · simpa [size] using ih h
        · cases h

end Source

end ScriptSandbox
