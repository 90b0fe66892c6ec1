import ScriptSandbox.Json.Reading

/-!
Readings of JSON texts. `Json.read` goes through a text once and keeps the containers that are
still open on a stack, so that its work grows with the text and not with the nesting in it.
Containers inside more than 127 others stand for no value, but can be passed over.
-/

namespace ScriptSandbox.Json

def maxDepth : Nat := 127

def isBlank (c : Char) : Bool :=
  c == ' ' || c == '\n' || c == '\t' || c == '\r'

def hexValue? (c : Char) : Option Nat :=
  if c.isDigit then some (c.toNat - 48)
  else if 'a' ≤ c && c ≤ 'f' then some (c.toNat - 87)
  else if 'A' ≤ c && c ≤ 'F' then some (c.toNat - 55)
  else none

/-- The number that four hexadecimal digits at the start of a text give. A text of fewer than four
bytes ends too early. -/
def hexUnit (text : List Char) : Except Misread Nat :=
  match text with
  | a :: b :: c :: d :: _ =>
    match hexValue? a, hexValue? b, hexValue? c, hexValue? d with
    | some a, some b, some c, some d => .ok (((a * 16 + b) * 16 + c) * 16 + d)
    | _, _, _, _ => .error .malformed
  | short => .error (if (String.ofList short).utf8ByteSize < 4 then .endOfText else .malformed)

/-- What an escape other than `\u` stands for. -/
def escapedChar? (c : Char) : Option Char :=
  if c = '"' ∨ c = '\\' ∨ c = '/' then some c
  else if c = 'b' then some '\x08'
  else if c = 'f' then some '\x0c'
  else if c = 'n' then some '\n'
  else if c = 'r' then some '\r'
  else if c = 't' then some '\t'
  else none

/-- The second half of a surrogate pair, if the text goes on with one. -/
def lowSurrogate (text : List Char) : Except Misread (Option Nat) :=
  match text with
  | [] => .error .endOfText
  | '\\' :: rest =>
    match rest with
    | [] => .error .endOfText
    | 'u' :: rest => do
      let unit ← hexUnit rest
      return if 0xDC00 ≤ unit ∧ unit < 0xE000 then some unit else none
    | _ => .ok none
  | _ => .ok none

/-- What follows an opening quote. -/
inductive StringRead
  /-- The string, which is missing if half of a surrogate pair stands alone in it, and how many
  characters it has, the closing quote included. -/
  | complete (s : Option String) (length : Nat)
  /-- The string has a fault. Before the fault, half of a surrogate pair may stand alone. -/
  | broken (fault : Misread) (lone : Bool)

/-- Read on in a string, of which `n` characters are read. The characters they stand for are in
`read`, newest first, and `lone` tells whether half of a surrogate pair stands alone among
them. -/
def readString (n : Nat) (read : List Char) (lone : Bool) (text : List Char) : StringRead :=
  match text with
  | [] => .broken .endOfText lone
  | c :: rest =>
    if c = '"' then .complete (if lone then none else some (String.ofList read.reverse)) (n + 1)
    else if c.toNat < 0x20 then .broken .malformed lone
    else if c ≠ '\\' then readString (n + 1) (c :: read) lone rest
    else
      match rest with
      | [] => .broken .endOfText lone
      | e :: rest =>
        if e ≠ 'u' then
          match escapedChar? e with
          | some d => readString (n + 2) (d :: read) lone rest
          | none => .broken .malformed lone
        else
          match hexUnit rest with
          | .error fault => .broken fault lone
          | .ok unit =>
            if unit < 0xD800 ∨ 0xE000 ≤ unit then
              readString (n + 6) (Char.ofNat unit :: read) lone (rest.drop 4)
            else if 0xDC00 ≤ unit then readString (n + 6) read true (rest.drop 4)
            else
              match lowSurrogate (rest.drop 4) with
              | .error fault => .broken fault lone
              | .ok none => readString (n + 6) read true (rest.drop 4)
              | .ok (some low) =>
                let c := Char.ofNat (0x10000 + (unit - 0xD800) * 0x400 + (low - 0xDC00))
                readString (n + 12) (c :: read) lone (rest.drop 10)
termination_by text.length
decreasing_by all_goals simp_wf; try omega

/-- The significand of some digits after `significand`, and how many digits it takes in. A
significand has 64 bits, and from the first digit that it has no room for no digit is taken. -/
def takeDigits (significand taken : Nat) : List Char → Nat × Nat
  | [] => (significand, taken)
  | c :: rest =>
    let next := significand * 10 + (c.toNat - 48)
    if next < UInt64.size then takeDigits next (taken + 1) rest else (significand, taken)

structure NumberText where
  negative : Bool
  whole : List Char
  fraction : Option (List Char)
  exponent : Option (Option Char × List Char)

def NumberText.length (t : NumberText) : Nat :=
  (if t.negative then 1 else 0) + t.whole.length +
    t.fraction.elim 0 (fun digits => 1 + digits.length) +
    t.exponent.elim 0 (fun parts => 1 + parts.1.elim 0 (fun _ => 1) + parts.2.length)

def NumberText.power (t : NumberText) : Int :=
  match t.exponent with
  | none => 0
  | some (sign, digits) =>
    let n : Nat := digits.foldl (fun n c => n * 10 + (c.toNat - 48)) 0
    if sign = some '-' then -(n : Int) else (n : Int)

/-- The value of a number. There is none for a number out of the range of floating-point. -/
def NumberText.value? (t : NumberText) : Option JsonNumber :=
  let (significand, taken) := takeDigits 0 0 t.whole
  let dropped := t.whole.length - taken
  if t.fraction.isNone && t.exponent.isNone && dropped == 0 &&
      !(t.negative && (significand == 0 || Nat.pow 2 63 < significand)) then
    some (.integer (if t.negative then -(significand : Int) else (significand : Int)))
  else
    let (significand, decimals) := takeDigits significand 0 (t.fraction.getD [])
    let exponent := (dropped : Int) - (decimals : Int) + t.power
    (Double.ofDecimal? t.negative significand exponent).map .double

/-- The digits at the start of a text, of which there must be one, and the text after them. -/
def someDigits (text : List Char) : Except Misread (List Char × List Char) :=
  match text with
  | [] => .error .endOfText
  | c :: _ => if c.isDigit then .ok (text.span Char.isDigit) else .error .malformed

def readFraction (text : List Char) : Except Misread (Option (List Char) × List Char) :=
  match text with
  | '.' :: rest => do
    let (digits, rest) ← someDigits rest
    return (some digits, rest)
  | _ => .ok (none, text)

/-- The exponent of a number: a letter, perhaps a sign, and digits. -/
def readExponent (text : List Char) : Except Misread (Option (Option Char × List Char)) :=
  match text with
  | [] => .ok none
  | c :: rest =>
    if c == 'e' || c == 'E' then do
      let sign := rest.head?.filter fun d => d == '-' || d == '+'
      let (digits, _) ← someDigits (if sign.isSome then rest.drop 1 else rest)
      return some (sign, digits)
    else .ok none

def readNumber (text : List Char) : Except Misread NumberText := do
  let negative := text.head? == some '-'
  let (whole, rest) ← someDigits (if negative then text.drop 1 else text)
  if whole.head? == some '0' && 1 < whole.length then throw .malformed
  let (fraction, rest) ← readFraction rest
  return ⟨negative, whole, fraction, ← readExponent rest⟩

inductive Piece
  /-- A bracket, comma or colon. -/
  | mark (c : Char)
  /-- A string, which is missing if half of a surrogate pair stands alone in it. -/
  | string (s : Option String)
  | scalar (v : Reading)
  /-- A literal or a number in the middle of which the text ends. -/
  | cutOff (inNumber : Bool)
  /-- A string with a fault, and whether half of a surrogate pair stands alone before the fault. -/
  | brokenString (fault : Misread) (lone : Bool)
  /-- The rest of a text that is not JSON. -/
  | foreign

/-- A literal that the rest of a text has to go on with, and how many characters it takes. -/
def literal (v : Reading) (word : String) (rest : List Char) : Piece × Nat :=
  let letters := word.toList
  if letters.isPrefixOf rest then (.scalar v, letters.length)
  else if rest.isPrefixOf letters then (.cutOff false, rest.length)
  else (.foreign, rest.length)

/-- The piece that begins with `c`, and how many characters it has after that. -/
def piece (c : Char) (rest : List Char) : Piece × Nat :=
  if ['[', ']', '\x7b', '\x7d', ',', ':'].contains c then (.mark c, 0)
  else if c = '"' then
    match readString 0 [] false rest with
    | .complete s length => (.string s, length)
    | .broken fault lone => (.brokenString fault lone, rest.length)
  else if c = 'n' then literal .null "ull" rest
  else if c = 't' then literal (.bool true) "rue" rest
  else if c = 'f' then literal (.bool false) "alse" rest
  else if c = '-' || c.isDigit then
    match readNumber (c :: rest) with
    | .error .endOfText => (.cutOff true, rest.length)
    | .error _ => (.foreign, rest.length)
    | .ok text => (.scalar (text.value?.elim (.faulty .malformed none) .number), text.length - 1)
  else (.foreign, rest.length)

/-- The pieces of a text, after the ones in `read`, which are newest first. -/
def pieces (read : List Piece) : List Char → List Piece
  | [] => read.reverse
  | c :: rest =>
    if isBlank c then pieces read rest
    else
      let found := piece c rest
      pieces (found.1 :: read) (rest.drop found.2)
termination_by text => text.length
decreasing_by all_goals simp_wf; try omega

/-- A container whose end is not reached yet, with what it holds so far, newest first. -/
inductive OpenContainer
  | array (items : List Reading)
  /-- Members, and the name of the value that comes next. -/
  | object (members : List (Except Misread String × Reading)) (name : Except Misread String)

namespace OpenContainer

def add (v : Reading) : OpenContainer → OpenContainer
  | array items => array (v :: items)
  | object members name => object ((name, v) :: members) name

/-- The finished container inside `depth` others, with the fault in place of its end. -/
def close (depth : Nat) (stop : Option Misread) (c : OpenContainer) : Reading :=
  if maxDepth ≤ depth then .faulty .malformed stop
  else
    match c with
    | array items => .array items.reverse stop
    | object members _ => .object members.reverse stop

end OpenContainer

/-- What comes next in a text. -/
inductive Expected
  | value
  | firstItem
  | member
  | firstMember
  | colon
  /-- A comma, or the end of the container. -/
  | separator

/-- A place in a text: the containers around it, innermost first, how many they are, and what
comes next. -/
structure Place where
  containers : List OpenContainer := []
  depth : Nat := 0
  expected : Expected := .value

/-- Where the reading of a text stands. -/
inductive Progress
  | finished (v : Reading)
  | going (place : Place)

namespace Place

def enter (p : Place) (c : OpenContainer) (expected : Expected) : Progress :=
  .going ⟨c :: p.containers, p.depth + 1, expected⟩

def add (p : Place) (v : Reading) : Progress :=
  match p.containers with
  | [] => .finished v
  | c :: outer => .going ⟨c.add v :: outer, p.depth, .separator⟩

def leave (p : Place) : Progress :=
  match p.containers with
  | [] => .going p
  | c :: outer => add ⟨outer, p.depth - 1, .separator⟩ (c.close (p.depth - 1) none)

/-- The reading of a text that goes no further inside `depth` containers. -/
def giveUp (fault : Misread) (v : Reading) (depth : Nat) : List OpenContainer → Reading
  | [] => v
  | c :: outer => giveUp fault ((c.add v).close (depth - 1) (some fault)) (depth - 1) outer

/-- The text goes no further, and its fault stands in place of a value. -/
def failValue (p : Place) (fault : Misread) (lone : Bool) : Progress :=
  .finished (giveUp fault (.faulty (if lone then .malformed else fault) (some fault)) p.depth
    p.containers)

/-- The text goes no further, and its fault stands in place of the end of a container. -/
def failEnd (p : Place) (fault : Misread) : Progress :=
  match p.containers with
  | [] => p.failValue fault false
  | c :: outer =>
    .finished (giveUp fault (c.close (p.depth - 1) (some fault)) (p.depth - 1) outer)

/-- The place with the name of the next of the innermost members, or the fault in place of it. -/
def withName (p : Place) (name : Except Misread String) : Place :=
  match p.containers with
  | .object members _ :: outer => { p with containers := .object members name :: outer }
  | _ => p

/-- The text goes no further, and its fault stands in place of a member. -/
def failMember (p : Place) (fault : Misread) (lone : Bool) : Progress :=
  (p.withName (.error (if lone then .malformed else fault))).failValue fault lone

def readValue (p : Place) : Piece → Progress
  | .scalar v => p.add v
  | .string s => p.add (s.elim (.faulty .malformed none) .string)
  | .brokenString fault lone => p.failValue fault lone
  | .cutOff inNumber =>
    .finished (giveUp (.ofCutOff inNumber) (.cutOff inNumber) p.depth p.containers)
  | .foreign => p.failValue .malformed false
  | .mark c =>
    if c = '[' then p.enter (.array []) .firstItem
    else if c = '\x7b' then p.enter (.object [] (.error .malformed)) .firstMember
    else p.failValue .malformed false

/-- Read the name of a member, or what stands in place of one. -/
def readName (p : Place) : Piece → Progress
  | .string s =>
    .going { p.withName (s.elim (.error .malformed) .ok) with expected := .colon }
  | .brokenString fault lone => p.failMember fault lone
  | _ => p.failMember .malformed false

/-- Read a comma or the end of a container, or what stands in place of them. -/
def readSeparator (p : Place) : Piece → Progress
  | .mark ',' =>
    match p.containers with
    | .object .. :: _ => .going { p with expected := .member }
    | _ => .going { p with expected := .value }
  | .mark ']' =>
    match p.containers with
    | .array _ :: _ => p.leave
    | _ => p.failEnd .malformed
  | .mark '\x7d' =>
    match p.containers with
    | .object .. :: _ => p.leave
    | _ => p.failEnd .malformed
  | _ => p.failEnd .malformed

def read (p : Place) (t : Piece) : Progress :=
  match p.expected, t with
  | .firstItem, .mark ']' => p.leave
  | .firstMember, .mark '\x7d' => p.leave
  | .firstItem, t | .value, t => p.readValue t
  | .firstMember, t | .member, t => p.readName t
  | .colon, .mark ':' => .going { p with expected := .value }
  | .colon, _ => p.failValue .malformed false
  | .separator, t => p.readSeparator t

def readEnd (p : Place) : Progress :=
  match p.expected with
  | .value | .colon => p.failValue .endOfText false
  | .member | .firstMember => p.failMember .endOfText false
  | .firstItem | .separator => p.failEnd .endOfText

end Place

/-- Read pieces on from a place. The answer is the reading of the first value and the pieces after
it. -/
def readPieces (p : Place) : List Piece → Reading × List Piece
  | [] =>
    match p.readEnd with
    | .finished v => (v, [])
    | .going _ => (.faulty .endOfText (some .endOfText), [])
  | t :: rest =>
    match p.read t with
    | .finished v => (v, rest)
    | .going p => readPieces p rest

/-- The reading of a text, and whether something stands after its value. -/
def read (text : String) : Reading × Bool :=
  let (v, rest) := readPieces {} (pieces [] text.toList)
  (v, !rest.isEmpty)

end ScriptSandbox.Json
