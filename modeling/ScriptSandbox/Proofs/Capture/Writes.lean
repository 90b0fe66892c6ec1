import ScriptSandbox.Proofs.Capture.Bounds

/-!
Buffers that are written to in many parts. Texts, bytes and marks may come in any order and number: a
buffer has the longest beginning that fits of all that is written up to the first mark, and it tells
whether more was written or a mark was set. In how many parts a text is written makes no difference.
-/

namespace ScriptSandbox

open String (utf8Len)

/-- What is done to a buffer. -/
inductive BufferWrite
  | text (s : String)
  | bytes (data : ByteArray)
  /-- Something is missing that was never written to the buffer. -/
  | mark

/-- All that is written up to the first mark. -/
def allWritten : List BufferWrite → String
  | [] => ""
  | .text s :: rest => s ++ allWritten rest
  | .bytes data :: rest => Text.decode data ++ allWritten rest
  | .mark :: _ => ""

namespace Buffer

variable {b : Buffer} {all : List Char}

def write (b : Buffer) : BufferWrite → Buffer
  | .text s => b.push s
  | .bytes data => b.pushBytes data
  | .mark => b.markTruncated

def writeAll (b : Buffer) (writes : List BufferWrite) : Buffer :=
  writes.foldl write b

@[simp] theorem writeAll_cons (b : Buffer) (w : BufferWrite) (writes : List BufferWrite) :
    b.writeAll (w :: writes) = (b.write w).writeAll writes := rfl

@[simp] theorem writeAll_append (b : Buffer) (writes more : List BufferWrite) :
    b.writeAll (writes ++ more) = (b.writeAll writes).writeAll more :=
  List.foldl_append

@[simp] theorem cap_write (b : Buffer) (w : BufferWrite) : (b.write w).cap = b.cap := by
  cases w <;> simp [write, pushBytes, markTruncated]

@[simp] theorem cap_writeAll (b : Buffer) (writes : List BufferWrite) :
    (b.writeAll writes).cap = b.cap := by
  induction writes generalizing b with
  | nil => rfl
  | cons w writes ih => simp [ih]

theorem writeAll_of_truncated (h : b.truncated = true) (writes : List BufferWrite) :
    b.writeAll writes = b := by
  have hpush (s : String) : b.push s = b := if_pos h
  induction writes with
  | nil => rfl
  | cons w writes ih =>
      have hsame : b.write w = b := by
        cases w with
        | text s => exact hpush s
        | bytes data => exact hpush (Text.decode data)
        | mark =>
            obtain ⟨cap, text, truncated⟩ := b
            cases h
            rfl
      rw [writeAll_cons, hsame, ih]

theorem Holds.writeAll (h : b.Holds all) (writes : List BufferWrite) :
    Longest b.cap (all ++ (allWritten writes).toList) (b.writeAll writes).text.toList ∧
      ((b.writeAll writes).truncated = true ↔
        b.cap < utf8Len (all ++ (allWritten writes).toList) ∨ .mark ∈ writes) := by
  induction writes generalizing b all with
  | nil => simpa [allWritten, Buffer.writeAll] using And.intro h.longest h.truncated_iff
  | cons w writes ih =>
      have hpush (s : String) := ih (h.push s)
      simp only [cap_push, List.append_assoc, ← String.toList_append] at hpush
      cases w with
      | text s => simpa [write, allWritten] using hpush s
      | bytes data => simpa [write, pushBytes, allWritten] using hpush (Text.decode data)
      | mark =>
          rw [writeAll_cons, writeAll_of_truncated rfl]
          refine ⟨?_, iff_of_true rfl (.inr List.mem_cons_self)⟩
          simpa [allWritten, write, markTruncated] using h.longest

/-- All that is written up to the first mark and whether there is one determine the buffer. -/
theorem writeAll_eq_of_allWritten {cap : Nat} {writes other : List BufferWrite}
    (hwritten : allWritten other = allWritten writes) (hmark : .mark ∈ other ↔ .mark ∈ writes) :
    writeAll { cap } other = writeAll { cap } writes := by
  obtain ⟨hlongest, htruncated⟩ := (holds_empty cap).writeAll writes
  obtain ⟨hlongest', htruncated'⟩ := (holds_empty cap).writeAll other
  rw [hwritten] at hlongest' htruncated'
  rw [hmark] at htruncated'
  refine Buffer.ext ?_ ?_ ?_
  · simp
  · exact String.toList_injective (hlongest'.unique hlongest)
  · exact Bool.eq_iff_iff.2 (htruncated'.trans htruncated.symm)

end Buffer

theorem allWritten_split (before after : List BufferWrite) (s t : String) :
    allWritten (before ++ .text s :: .text t :: after) =
      allWritten (before ++ .text (s ++ t) :: after) := by
  induction before with
  | nil => simp [allWritten, String.append_assoc]
  | cons w before ih => cases w <;> simp [allWritten, ih]

/-- After any writes a buffer is within its bound, so that there is room to be counted. It has the
longest beginning that fits of all that is written up to the first mark, and it is marked if that is
more or if there was a mark. Texts that are written one after the other can as well be written at
once. -/
theorem bounded_of_writes (cap : Nat) (writes : List BufferWrite) :
    let b := Buffer.writeAll { cap } writes
    b.cap = cap ∧ b.size ≤ cap ∧ Longest cap (allWritten writes).toList b.text.toList ∧
      (b.truncated = true ↔ cap < (allWritten writes).utf8ByteSize ∨ .mark ∈ writes) ∧
      b.contents = b.text ++ (if b.truncated then truncationMarker else "") ∧
      ∀ before s t after, Buffer.writeAll { cap } (before ++ .text s :: .text t :: after) =
        Buffer.writeAll { cap } (before ++ .text (s ++ t) :: after) := by
  intro b
  obtain ⟨hlongest, htruncated⟩ := (Buffer.holds_empty cap).writeAll writes
  rw [List.nil_append] at hlongest htruncated
  rw [String.utf8Len_toList] at htruncated
  refine ⟨Buffer.cap_writeAll { cap } writes, ?_, hlongest, htruncated, ?_, ?_⟩
  · simpa [Buffer.size] using hlongest.size_le
  · rw [Buffer.contents]
    split
    · rfl
    · rw [String.append_empty]
  · intro before s t after
    exact Buffer.writeAll_eq_of_allWritten (allWritten_split before after s t) (by simp)

/-- The second text does not fit, so the room that is left is not used for the third one. -/
example : (Buffer.writeAll { cap := 4 } [.text "aé", .text "€", .text "b"]).contents =
    "aé" ++ truncationMarker := by
  decide +kernel

end ScriptSandbox
