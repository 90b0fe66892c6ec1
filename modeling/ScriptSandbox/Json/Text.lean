import ScriptSandbox.Json.Decoder
import ScriptSandbox.Json.Reader

/-!
Typed values from JSON texts.
-/

namespace ScriptSandbox

inductive MisreadCategory
  | malformed
  | endOfText
  | form
deriving DecidableEq

def Misread.category : Misread → MisreadCategory
  | .malformed | .surplus | .unnamed => .malformed
  | .endOfText => .endOfText
  | .form => .form

/-- The value in a text, after which nothing may stand. -/
def Decoder.ofText {α : Type} (decode : Decoder α) (text : String) : Except Misread α := do
  let (reading, more) := Json.read text
  let a ← decode reading
  if more then throw .malformed
  return a

def Json.ofText (text : String) : Except Misread Json :=
  Decoder.ofText (fun r => r.value.map (·.value)) text

end ScriptSandbox
