/-!
Texts from bytes. Where bytes are not UTF-8, each longest piece that could begin a character, and
each byte that could not, stands for one replacement character.
-/

namespace ScriptSandbox.Text

def replacement : Char := '\ufffd'

/-- The bytes that follow the first byte of a character: how many they are, and the least and
greatest value of the first of them. There are none to expect after a byte that begins no
character of several bytes. -/
def continuation (first : UInt8) : Option (Nat × UInt8 × UInt8) :=
  if 0xC2 ≤ first && first ≤ 0xDF then some (1, 0x80, 0xBF)
  else if first == 0xE0 then some (2, 0xA0, 0xBF)
  else if first == 0xED then some (2, 0x80, 0x9F)
  else if 0xE1 ≤ first && first ≤ 0xEF then some (2, 0x80, 0xBF)
  else if first == 0xF0 then some (3, 0x90, 0xBF)
  else if 0xF1 ≤ first && first ≤ 0xF3 then some (3, 0x80, 0xBF)
  else if first == 0xF4 then some (3, 0x80, 0x8F)
  else none

/-- How many of the next `count` bytes go on with a character, the first of them between two
bounds. -/
def continuing (count : Nat) (low high : UInt8) : List UInt8 → Nat
  | [] => 0
  | b :: rest =>
    match count with
    | 0 => 0
    | count + 1 => if low ≤ b && b ≤ high then continuing count 0x80 0xBF rest + 1 else 0

/-- The code point that the bits of some bytes give after `high`. -/
def joinBits (high : Nat) (bytes : List UInt8) : Nat :=
  bytes.foldl (fun n b => n * 64 + b.toNat % 64) high

/-- The character at the start of some bytes, of which `first` is the first, and how many of the
bytes after that belong to it. A missing character stands for bytes that are none. -/
def firstChar (first : UInt8) (rest : List UInt8) : Option Char × Nat :=
  if first < 0x80 then (some (Char.ofNat first.toNat), 0)
  else
    match continuation first with
    | none => (none, 0)
    | some (count, low, high) =>
      let found := continuing count low high rest
      if found = count then
        -- The first byte of `count + 1` has `6 - count` bits of the code point.
        let bits := first.toNat % Nat.pow 2 (6 - count)
        (some (Char.ofNat (joinBits bits (rest.take count))), count)
      else (none, found)

/-- The characters of some bytes, after the ones in `read`, which are newest first. -/
def decodeChars (read : List Char) : List UInt8 → List Char
  | [] => read.reverse
  | first :: rest =>
    let found := firstChar first rest
    decodeChars (found.1.getD replacement :: read) (rest.drop found.2)
termination_by bytes => bytes.length
decreasing_by
  simp only [List.length_drop, List.length_cons]
  omega

def decode (bytes : ByteArray) : String :=
  String.ofList (decodeChars [] bytes.toList)

end ScriptSandbox.Text
