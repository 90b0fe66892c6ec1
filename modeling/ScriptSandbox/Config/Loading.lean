import ScriptSandbox.Config.Decoding
import ScriptSandbox.Json.Text

/-!
Configurations from JSON texts, from files and from a variable of the environment. What is loaded
is also validated.
-/

namespace ScriptSandbox

inductive ConfigTextError
  | misread (fault : Misread)
  | invalid (fault : ConfigFault)

def ConfigTextError.message : ConfigTextError → String
  | misread _ => "Failed to parse JSON"
  | invalid fault => fault.message

inductive ConfigError
  | fileMissing (path : String)
  | fileUnreadable (path : String)
  | inFile (path : String) (e : ConfigTextError)
  | variableUnreadable
  | inVariable (e : ConfigTextError)

def configVariable : String := "FACTOR_SANDBOX_CONFIG"

/-- What there is to say about an error, the most general first. -/
def ConfigError.messages : ConfigError → List String
  | fileMissing path | fileUnreadable path => [s!"Failed to read config file {path}"]
  | inFile path e => [s!"Invalid config file {path}", e.message]
  | variableUnreadable => [s!"{configVariable} is not valid unicode"]
  | inVariable e => [s!"Failed to parse {configVariable}", e.message]

namespace Config

def ofText (text : String) : Except ConfigTextError Config := do
  let c ← (Config.decoder.decode.ofText text).mapError .misread
  c.validate.mapError .invalid
  return c

/-- The configuration in a file with these contents, if there is one. -/
def ofFile (path : String) : Option ByteArray → Except ConfigError Config
  | none => .error (.fileMissing path)
  | some contents =>
    match String.fromUTF8? contents with
    | none => .error (.fileUnreadable path)
    | some text => (ofText text).mapError (.inFile path)

/-- The configuration in the variable with this value. Without the variable it is the default. -/
def ofVariable : Option ByteArray → Except ConfigError Config
  | none => .ok {}
  | some value =>
    match String.fromUTF8? value with
    | none => .error .variableUnreadable
    | some text => (ofText text).mapError .inVariable

end Config

end ScriptSandbox
