import ScriptSandbox.Text.Utf8

/-!
Texts with a bound on their size. A buffer keeps the longest beginning of what is written to it
that fits, in whole characters, and tells whether something is missing.
-/

namespace ScriptSandbox

/-- Written once at the end of a text of which something is missing. -/
def truncationMarker : String := "\n... [output truncated]"

/-- The longest beginning of a text, in whole characters, of at most `room` bytes. It comes after
the characters in `kept`, which are newest first. -/
def fitting (room : Nat) (kept : List Char) : List Char → List Char
  | [] => kept.reverse
  | c :: rest =>
    if c.utf8Size ≤ room then fitting (room - c.utf8Size) (c :: kept) rest else kept.reverse

/-- A text of at most `cap` bytes, and whether something is missing from it. -/
structure Buffer where
  cap : Nat
  text : String := ""
  truncated : Bool := false

namespace Buffer

def size (b : Buffer) : Nat :=
  b.text.utf8ByteSize

/-- Write a text. Nothing is kept after something is missing. -/
def push (b : Buffer) (s : String) : Buffer :=
  if b.truncated then b
  else if b.size + s.utf8ByteSize ≤ b.cap then { b with text := b.text ++ s }
  else
    { b with
      text := b.text ++ String.ofList (fitting (b.cap - b.size) [] s.toList), truncated := true }

def pushBytes (b : Buffer) (bytes : ByteArray) : Buffer :=
  b.push (Text.decode bytes)

def markTruncated (b : Buffer) : Buffer :=
  { b with truncated := true }

/-- What is kept, with the marker if something is missing. -/
def contents (b : Buffer) : String :=
  if b.truncated then b.text ++ truncationMarker else b.text

end Buffer

end ScriptSandbox
