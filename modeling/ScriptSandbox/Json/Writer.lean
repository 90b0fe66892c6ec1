import ScriptSandbox.Json.Value
import ScriptSandbox.Number.Decimal

/-!
Texts of JSON values: `Json.compact` without any blanks, and `Json.pretty` with one item a line,
indented by two spaces for each level.
-/

namespace ScriptSandbox

namespace Json

def hexDigit (n : Nat) : Char :=
  if n < 10 then Char.ofNat (48 + n) else Char.ofNat (87 + n)

def escaped (c : Char) : List Char :=
  if c = '"' then ['\\', '"']
  else if c = '\\' then ['\\', '\\']
  else if c = '\n' then ['\\', 'n']
  else if c = '\r' then ['\\', 'r']
  else if c = '\t' then ['\\', 't']
  else if c = '\x08' then ['\\', 'b']
  else if c = '\x0c' then ['\\', 'f']
  else if c.toNat < 0x20 then
    ['\\', 'u', '0', '0', hexDigit (c.toNat / 16), hexDigit (c.toNat % 16)]
  else [c]

def stringText (s : String) : String :=
  "\"" ++ String.ofList (s.toList.flatMap escaped) ++ "\""

def numberText : JsonNumber → String
  | .integer n => toString n
  | .double x => if x.isFinite then x.text else "null"

/-- What stands between the items of a list. -/
structure Spacing where
  /-- After an opening bracket or a comma, at a level. -/
  before : Nat → String
  /-- Before a closing bracket that is not empty, at a level. -/
  after : Nat → String
  afterColon : String

def Spacing.compact : Spacing := ⟨fun _ => "", fun _ => "", ""⟩

def Spacing.newLine (level : Nat) : String :=
  "\n" ++ String.ofList (List.replicate (2 * level) ' ')

def Spacing.pretty : Spacing := ⟨fun level => newLine (level + 1), newLine, " "⟩

mutual

/-- The text of a value at a level, as a list of texts. -/
def texts (spacing : Spacing) (level : Nat) : Json → List String
  | .null => ["null"]
  | .bool true => ["true"]
  | .bool false => ["false"]
  | .number n => [numberText n]
  | .string s => [stringText s]
  | .array [] => ["[]"]
  | .array (item :: rest) =>
    ["[", spacing.before level] ++ texts spacing (level + 1) item ++
      itemTexts spacing level rest ++ [spacing.after level, "]"]
  | .object [] => ["\x7b\x7d"]
  | .object (member :: rest) =>
    ["\x7b", spacing.before level] ++ memberText spacing level member ++
      memberTexts spacing level rest ++ [spacing.after level, "\x7d"]

/-- The texts of the items after the first one, with the commas before them. -/
def itemTexts (spacing : Spacing) (level : Nat) : List Json → List String
  | [] => []
  | item :: rest =>
    [",", spacing.before level] ++ texts spacing (level + 1) item ++
      itemTexts spacing level rest

def memberText (spacing : Spacing) (level : Nat) : String × Json → List String
  | (name, value) =>
    [stringText name, ":", spacing.afterColon] ++ texts spacing (level + 1) value

/-- The texts of the members after the first one, with the commas before them. -/
def memberTexts (spacing : Spacing) (level : Nat) : List (String × Json) → List String
  | [] => []
  | member :: rest =>
    [",", spacing.before level] ++ memberText spacing level member ++
      memberTexts spacing level rest

end

def write (spacing : Spacing) (v : Json) : String :=
  String.join (v.texts spacing 0)

def compact (v : Json) : String :=
  v.write .compact

def pretty (v : Json) : String :=
  v.write .pretty

end Json

end ScriptSandbox
