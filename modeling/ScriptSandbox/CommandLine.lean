import ScriptSandbox.CommandLine.Arguments
import ScriptSandbox.Config.Loading

/-!
The command line of the sandbox. Arguments are read to an invocation; from an invocation and the
files that it names follows the action to take: to end with some output, to execute a request and
then end, or to serve clients.
-/

namespace ScriptSandbox

structure Exit where
  stdout : String := ""
  /-- What went wrong, the most general first. -/
  failure : List String := []
  breakdown? : Option String := none
  code : Nat := 0
deriving DecidableEq

namespace Exit

def stderr (e : Exit) : String :=
  match e.failure with
  | [] => (e.breakdown?.map (· ++ "\n")).getD ""
  | [message] => "Error: " ++ message ++ "\n"
  | message :: causes =>
    "Error: " ++ message ++ "\n\nCaused by:\n" ++
      String.join (causes.map fun cause => "    " ++ cause ++ "\n")

def failed (failure : List String) : Exit :=
  { failure, code := 1 }

def printed (value : Json) (ok : Bool) : Exit :=
  { stdout := value.pretty ++ "\n", code := if ok then 0 else 1 }

def ofExecution : Except Breakdown Execution → Exit
  | .error breakdown => { breakdown? := some breakdown.message, code := 101 }
  | .ok e =>
    match e.answer with
    | .ok r => printed r.toJson r.success
    | .error fault => failed (fault.message :: fault.cause?.toList)

end Exit

inductive Command
  | serve (stdio : Bool)
  | validate (file : String)
  | run (file : String) (timeoutSeconds memoryMb : Option Nat) (locals : Bool)
    (globals : Option String)
  | limits
deriving DecidableEq

structure Invocation where
  configPath? : Option String
  logLevel : String
  command : Command
deriving DecidableEq

def CommandLine.Parsed.command? (p : CommandLine.Parsed) : Option Command :=
  let number (name : String) : Option Nat := (p.given.value? name).bind CommandLine.count?
  let flag (name : String) : Bool := (p.given.value? name).isSome
  match p.command.name, p.given.file? with
  | "serve", _ => some (.serve (flag "stdio"))
  | "validate", some file => some (.validate file)
  | "run", some file =>
    some <| .run file (number "timeout") (number "memory-mb") (flag "locals")
      (p.given.value? "globals")
  | "limits", _ => some .limits
  | _, _ => none

def Invocation.ofArguments (arguments : List String) : Except Exit Invocation :=
  match CommandLine.parseArguments arguments with
  | .error (.show text) => .error { stdout := text }
  | .error .misuse => .error { code := 2 }
  | .ok p =>
    match p.command? with
    | some command => .ok ⟨p.given.value? "config", (p.given.value? "log-level").getD "info", command⟩
    | none => .error { code := 2 }

/-- What the program finds around it. -/
structure Surroundings where
  /-- The contents of files. A file that is not among them does not exist. -/
  files : List (String × ByteArray)
  stdin : ByteArray
  setting? : Option ByteArray

inductive Action
  | finish (e : Exit)
  | execute (s : Sandbox) (r : ExecutionRequest)
  | serve (s : Sandbox)

namespace Invocation

def stdinPath : String := "-"

def script? (i : Invocation) : Option String :=
  match i.command with
  | .validate file => some file
  | .run file _ _ _ _ => some file
  | .serve _ | .limits => none

def paths (i : Invocation) : List String :=
  i.configPath?.toList ++ i.script?.toList.filter (· != stdinPath)

def readsStdin (i : Invocation) : Bool :=
  i.script? == some stdinPath

def loadConfig (i : Invocation) (s : Surroundings) : Except ConfigError Config :=
  match i.configPath? with
  | some path => Config.ofFile path (s.files.lookup path)
  | none => Config.ofVariable s.setting?

def readScript (s : Surroundings) (path : String) : Except String String :=
  if path = stdinPath then
    match String.fromUTF8? s.stdin with
    | some code => .ok code
    | none => .error "Failed to read code from stdin"
  else
    match (s.files.lookup path).bind String.fromUTF8? with
    | some code => .ok code
    | none => .error s!"Failed to read {path}"

def readGlobals : Option String → Except String JsonObject
  | none => .ok .empty
  | some text =>
    match Decoder.ofText Reading.value text with
    | .error _ => .error "--globals is not valid JSON"
    | .ok ⟨.object members, normal⟩ => .ok (.ofNormal members normal)
    | .ok _ => .error "--globals must be a JSON object"

/-- The action for an invocation that has a configuration. -/
def actionWith (i : Invocation) (s : Surroundings) (sandbox : Sandbox) : Except String Action :=
  match i.command with
  | .serve stdio =>
    if stdio then .ok (.serve sandbox) else .error "Only --stdio mode is currently supported"
  | .validate file => do
    let code ← readScript s file
    let report := sandbox.validate code
    return .finish (.printed report.toJson report.isSafe)
  | .run file timeoutSeconds maxMemoryMb captureLocals globals => do
    let code ← readScript s file
    let globals ← readGlobals globals
    return .execute sandbox
      { code, timeoutSeconds, maxMemoryMb, globals, captureLocals, correlationId := none }
  | .limits => .ok (.finish (.printed sandbox.bounds.toJson true))

def action (i : Invocation) (s : Surroundings) : Action :=
  match i.loadConfig s with
  | .error e => .finish (.failed ("Failed to load configuration" :: e.messages))
  | .ok c =>
    match i.actionWith s (.ofConfig c) with
    | .ok action => action
    | .error message => .finish (.failed [message])

end Invocation

end ScriptSandbox
