import ScriptSandbox.Json.Reading

/-!
Typed values from readings of JSON texts. A record is written as an object, in which members that
nobody asks for are passed over, or as the list of its fields. One of several alternatives is
written with a tag that tells which one it is; as the tag may come last, the other members are
first read as plain values.
-/

namespace ScriptSandbox

abbrev Decoder (α : Type) := Reading → Except Misread α

namespace Decoder

/-- The answer when something else stands in place of the value. -/
def refuse {α : Type} : Decoder α
  | .cutOff _ => .error .endOfText
  | .faulty fault _ => .error fault
  | _ => .error .form

def text : Decoder String
  | .string s => .ok s
  | r => refuse r

def boolean : Decoder Bool
  | .bool b => .ok b
  | r => refuse r

def natural : Decoder Nat
  | .number (.integer (.ofNat n)) => .ok n
  | r => refuse r

def double : Decoder Double
  | .number (.integer (.ofNat n)) => .ok (.ofNat n)
  | .number (.integer (.negSucc n)) => .ok ((Double.ofNat (n + 1)).withSign true)
  | .number (.double x) => .ok x
  | r => refuse r

def object : Decoder JsonObject
  | .object members stop => do
    let o ← Reading.valueMembers .empty members
    Reading.unlessFault stop
    return o
  | r => refuse r

def nullable {α : Type} (decode : Decoder α) : Decoder (Option α)
  | .null => .ok none
  | r => (decode r).map some

/-- The values of the items of a list, one after another. -/
def items {α : Type} (decode : Decoder α) : List Reading → Except Misread (List α)
  | [] => .ok []
  | item :: rest => do
    let a ← decode item
    return a :: (← items decode rest)

def list {α : Type} (decode : Decoder α) : Decoder (List α)
  | .array readings stop => do
    let values ← items decode readings
    Reading.unlessFault stop
    return values
  | r => refuse r

/-- A value that was read as a plain value before, so that what is wrong with it is its form. -/
def buffered {α : Type} (decode : Decoder α) : Decoder α := fun r =>
  match decode r with
  | .error .surplus | .error .unnamed => .error .form
  | answer => answer

/-- One of several names. A name may also be written as a member whose value is nothing, which is
`null` or, in a value that was read before, an object without members. -/
def oneOf {α : Type} (readBefore : Bool) (names : List (String × α)) : Decoder α := fun r =>
  let named (name : String) : Except Misread α :=
    match names.lookup name with
    | some a => .ok a
    | none => .error .form
  match r with
  | .string name => named name
  | .object [] stop => do
    Reading.unlessFault stop
    .error .unnamed
  | .object ((.error fault, _) :: _) _ => .error fault
  | .object ((.ok name, v) :: more) stop => do
    let a ← named name
    match v, readBefore with
    | .null, _ | .object [] none, true => pure ()
    | r, _ => refuse r
    if !more.isEmpty then throw .unnamed
    Reading.unlessFault stop
    return a
  | .faulty fault _ => .error fault
  | _ => .error .unnamed

end Decoder

/-- Where a field of a record may be missing. -/
inductive Presence
  | required
  /-- It may be missing in an object, but not in a list. -/
  | optional
  /-- It may be missing, and has a default. -/
  | defaulted
deriving DecidableEq

/-- A field of a record: its name, whether it may be missing, and what is wrong with a reading that
stands for it. -/
structure RecordField where
  name : String
  presence : Presence
  check : Reading → Except Misread Unit

/-- A way to take a record out of a reading: its fields in order, and how it is put together from
their readings. -/
structure RecordDecoder (α : Type) where
  fields : List RecordField
  build : (String → Option Reading) → Except Misread α

namespace RecordDecoder

instance : Functor RecordDecoder where
  map f d := ⟨d.fields, fun get => (d.build get).map f⟩

instance : Seq RecordDecoder where
  seq d e := ⟨d.fields ++ (e ()).fields, fun get => do
    let f ← d.build get
    return f (← (e ()).build get)⟩

def field {α : Type} (presence : Presence) (name : String) (decode : Decoder α)
    (missing : Except Misread α) : RecordDecoder α :=
  ⟨[⟨name, presence, fun r => (decode r).map fun _ => ()⟩], fun get =>
    match get name with
    | some r => decode r
    | none => missing⟩

def required {α : Type} (name : String) (decode : Decoder α) : RecordDecoder α :=
  field .required name decode (.error .form)

def defaulted {α : Type} (name : String) (decode : Decoder α) (default : α) : RecordDecoder α :=
  field .defaulted name decode (.ok default)

/-- A field that may be `null`, and missing in an object. -/
def optional {α : Type} (name : String) (decode : Decoder α) : RecordDecoder (Option α) :=
  field .optional name decode.nullable (.ok none)

/-- Go through members in the order of the text, of which the names in `seen` came before. -/
def checkMembers (fields : List RecordField) (seen : List String) :
    List (Except Misread String × Reading) → Except Misread Unit
  | [] => .ok ()
  | (.error fault, _) :: _ => .error fault
  | (.ok name, r) :: rest =>
    match fields.find? (·.name == name) with
    | none => do
      r.skip
      checkMembers fields seen rest
    | some f => do
      if seen.contains name then throw .form
      f.check r
      checkMembers fields (name :: seen) rest

/-- Go through the items of a list, which stand for the fields in order. -/
def checkItems (stop : Option Misread) : List RecordField → List Reading → Except Misread Unit
  | [], [] => Reading.unlessFault stop
  | [], _ :: _ => .error .surplus
  | f :: fields, [] => do
    Reading.unlessFault stop
    if f.presence = .defaulted then checkItems stop fields [] else throw .form
  | f :: fields, item :: rest => do
    f.check item
    checkItems stop fields rest

def memberNamed (members : List (Except Misread String × Reading)) (name : String) :
    Option Reading :=
  (members.find? (·.1.toOption == some name)).map (·.2)

def itemNamed (fields : List RecordField) (items : List Reading) (name : String) :
    Option Reading :=
  ((fields.zip items).find? (·.1.name == name)).map (·.2)

def decode {α : Type} (d : RecordDecoder α) : Decoder α
  | .object members stop => do
    checkMembers d.fields [] members
    Reading.unlessFault stop
    d.build (memberNamed members)
  | .array items stop => do
    checkItems stop d.fields items
    d.build (itemNamed d.fields items)
  | r => Decoder.refuse r

end RecordDecoder

namespace Decoder

/-- The alternative that a tag names. Where alternatives may be named by their index, a natural
number does so. -/
def alternative {α : Type} (byIndex : Bool) (alternatives : List (String × Decoder α)) :
    Decoder (Decoder α) := fun r =>
  let found : Option (Decoder α) → Except Misread (Decoder α)
    | some d => .ok d
    | none => .error .form
  match r with
  | .string name => found (alternatives.lookup name)
  | .number (.integer (.ofNat n)) =>
    if byIndex then found (alternatives[n]?.map (·.2)) else .error .form
  | r => refuse r

/-- Go through members in the order of the text to find the tag. The answer is the alternative it
names, and the other members. -/
def findTag {α : Type} (tag : String) (byIndex : Bool) (alternatives : List (String × Decoder α))
    (found : Option (Decoder α)) : List (Except Misread String × Reading) →
    Except Misread (Option (Decoder α) × List (Except Misread String × Reading))
  | [] => .ok (found, [])
  | (.error fault, _) :: _ => .error fault
  | (.ok name, r) :: rest =>
    if name = tag then
      if found.isSome then .error .form
      else do
        let d ← alternative byIndex alternatives r
        findTag tag byIndex alternatives (some d) rest
    else do
      let _ ← r.value
      let (d, others) ← findTag tag byIndex alternatives found rest
      return (d, (.ok name, r) :: others)

/-- One of several alternatives, of which a member named `tag` tells which one it is. In a list the
first item is the tag. -/
def tagged {α : Type} (tag : String) (byIndex : Bool) (alternatives : List (String × Decoder α)) :
    Decoder α
  | .object members stop => do
    let (found, others) ← findTag tag byIndex alternatives none members
    Reading.unlessFault stop
    match found with
    | some d => d.buffered (.object others none)
    | none => .error .form
  | .array [] stop => do
    Reading.unlessFault stop
    .error .form
  | .array (first :: rest) stop => do
    let d ← alternative byIndex alternatives first
    let _ ← Reading.valueItems rest
    Reading.unlessFault stop
    d.buffered (.array rest none)
  | r => refuse r

/-- An alternative without fields, whatever other members there are. -/
def fieldless {α : Type} (a : α) : Decoder α
  | .array (_ :: _) _ => .error .form
  | _ => .ok a

end Decoder

end ScriptSandbox
