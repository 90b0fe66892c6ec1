import ScriptSandbox.Json.Value

/-!
JSON texts as they are read from left to right. A `Reading` holds what a text says, in the order
of the text and with repeated members, up to the place where it stops being JSON. So who takes a
value out of it meets the faults of the text and the faults of the value in the order in which
they stand there, and faults in parts that nobody wants can be passed over.
-/

namespace ScriptSandbox

inductive Misread
  /-- The text is not JSON, or a part of it stands for no value. -/
  | malformed
  | endOfText
  /-- The value is not of the form that is asked for. -/
  | form
  /-- A list has more items than are asked for. -/
  | surplus
  /-- Instead of the name of an alternative there is something else than a text. -/
  | unnamed
deriving DecidableEq

inductive Reading
  | null
  | bool (b : Bool)
  | number (n : JsonNumber)
  | string (s : String)
  /-- A list, and the fault that stands in place of its next item or its end. -/
  | array (items : List Reading) (stop : Option Misread)
  /-- Members, and the fault that stands in place of their end. In place of the last member or of
  its name a fault may stand as well. -/
  | object (members : List (Except Misread String × Reading)) (stop : Option Misread)
  /-- A literal or a number in the middle of which the text ends. -/
  | cutOff (inNumber : Bool)
  /-- A part that stands for no value, and the fault that is met when it is passed over. -/
  | faulty (fault : Misread) (skipped : Option Misread)

/-- The fault that is met when a literal or a number that the text ends in is passed over. Where a
number needs a digit, the end of the text is a wrong character like any other. -/
def Misread.ofCutOff (inNumber : Bool) : Misread :=
  if inNumber then .malformed else .endOfText

namespace Reading

def unlessFault : Option Misread → Except Misread Unit
  | none => .ok ()
  | some fault => .error fault

mutual

def skip : Reading → Except Misread Unit
  | .array items stop => do
    skipItems items
    unlessFault stop
  | .object members stop => do
    skipMembers members
    unlessFault stop
  | .cutOff inNumber => .error (.ofCutOff inNumber)
  | .faulty _ skipped => unlessFault skipped
  | _ => .ok ()

def skipItems : List Reading → Except Misread Unit
  | [] => .ok ()
  | item :: rest => do
    skip item
    skipItems rest

def skipMembers : List (Except Misread String × Reading) → Except Misread Unit
  | [] => .ok ()
  | (_, value) :: rest => do
    skip value
    skipMembers rest

end

mutual

/-- The value of a text. Of members with the same name the last one counts. -/
def value : Reading → Except Misread NormalJson
  | .null => .ok ⟨.null, .null⟩
  | .bool b => .ok ⟨.bool b, .bool b⟩
  | .number n => .ok ⟨.number n, .number n⟩
  | .string s => .ok ⟨.string s, .string s⟩
  | .array items stop => do
    let items ← valueItems items
    unlessFault stop
    return ⟨.array (items.map (·.value)), .array fun v hv => by
      obtain ⟨item, _, rfl⟩ := List.mem_map.1 hv
      exact item.normal⟩
  | .object members stop => do
    let o ← valueMembers .empty members
    unlessFault stop
    return ⟨.object o.members, .object o.increasing o.normal⟩
  | .cutOff _ => .error .endOfText
  | .faulty fault _ => .error fault

def valueItems : List Reading → Except Misread (List NormalJson)
  | [] => .ok []
  | item :: rest => do
    let item ← value item
    return item :: (← valueItems rest)

def valueMembers (o : JsonObject) :
    List (Except Misread String × Reading) → Except Misread JsonObject
  | [] => .ok o
  | (.error fault, _) :: _ => .error fault
  | (.ok name, v) :: rest => do
    let v ← value v
    valueMembers (o.insert name v) rest

end

mutual

def ofJson : Json → Reading
  | .null => .null
  | .bool b => .bool b
  | .number n => .number n
  | .string s => .string s
  | .array items => .array (ofItems items) none
  | .object members => .object (ofMembers members) none

def ofItems : List Json → List Reading
  | [] => []
  | item :: rest => ofJson item :: ofItems rest

def ofMembers : List (String × Json) → List (Except Misread String × Reading)
  | [] => []
  | (name, v) :: rest => (.ok name, ofJson v) :: ofMembers rest

end

end Reading

end ScriptSandbox
