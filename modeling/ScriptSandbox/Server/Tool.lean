import ScriptSandbox.Analysis.Encoding
import ScriptSandbox.Json.Writer
import ScriptSandbox.Request.Decoding
import ScriptSandbox.Request.Encoding
import ScriptSandbox.Sandbox

/-!
The tools that a sandbox offers to clients of the Model Context Protocol: executing a script,
analyzing it without running it, and telling the bounds on requests. Replies are texts.
-/

namespace ScriptSandbox

def programName : String := "factor-sandbox"

def programVersion : String := "0.1.0"

/-- The version of the protocol that the server speaks. -/
def protocolVersion : String := "2024-11-05"

/-- What clients are told about a sandbox. The modules are named as they are configured. -/
def Sandbox.instructions (s : Sandbox) : String :=
  "Run user-authored Python factor code in a restricted sandbox.\nImportable modules: " ++
    Text.quotedList s.config.policy.allowedModules ++
    "\n\nUse 'validate' to check code, 'execute' to run it and 'get_limits' for the accepted " ++
    "timeout and memory bounds."

structure ToolParameter where
  name : String
  description : String
  required : Bool := false

structure Tool where
  name : String
  description : String
  parameters : List ToolParameter

def tools : List Tool :=
  [{ name := "execute"
     description :=
      "Run Python factor code in a restricted sandbox. Returns stdout, stderr, " ++
        "error_type/error_message on failure and optionally the resulting variables."
     parameters :=
      [⟨"code", "Python source of the factor to run", true⟩,
        ⟨"timeout_seconds", "Wall-clock limit in seconds (see get_limits for bounds)", false⟩,
        ⟨"max_memory_mb", "Memory limit in MB (see get_limits for bounds)", false⟩,
        ⟨"globals", "Variables injected into the code's namespace", false⟩,
        ⟨"capture_locals", "Return the JSON-serializable variables the code defined", false⟩,
        ⟨"correlation_id", "Caller's identifier for audit logs", false⟩] },
    { name := "get_limits"
      description := "Report the min, max and default timeout_seconds and max_memory_mb."
      parameters := [] },
    { name := "validate"
      description :=
        "Check Python factor code against the sandbox's import whitelist and call blacklist " ++
          "without running it."
      parameters := [⟨"code", "Python source to analyze without running it", true⟩] }]

namespace ToolArguments

open RecordDecoder Decoder

/-- The arguments for executing a script are those of a request, where the variables may be
`null`. -/
def execute : RecordDecoder ExecutionRequest :=
  (fun code timeout memory globals captureLocals correlationId =>
      ⟨code, timeout, memory, globals.getD .empty, captureLocals, correlationId⟩)
    <$> required "code" text
    <*> defaulted "timeout_seconds" natural.nullable none
    <*> defaulted "max_memory_mb" natural.nullable none
    <*> defaulted "globals" object.nullable none
    <*> defaulted "capture_locals" boolean false
    <*> defaulted "correlation_id" text.nullable none

def validate : RecordDecoder String :=
  required "code" text

end ToolArguments

inductive Reply
  | report (r : Report)
  | bounds (b : RequestBounds)
  | result (r : ExecutionResult)
  | fault (f : SandboxFault)

def Reply.isError : Reply → Bool
  | report _ | bounds _ => false
  | result r => !r.success
  | fault _ => true

def Reply.text : Reply → String
  | report r => r.toJson.pretty
  | bounds b => b.toJson.pretty
  | result r => r.toJson.pretty
  | fault f => "Sandbox error: " ++ f.message

inductive CallError
  | unknownTool
  | invalidArguments
deriving DecidableEq

def Execution.reply (e : Execution) : Reply :=
  match e.answer with
  | .ok r => .result r
  | .error f => .fault f

def decodeArguments {α : Type} (d : RecordDecoder α) (arguments : JsonObject) :
    Except CallError α :=
  (d.decode (.ofJson arguments.toJson)).mapError fun _ => .invalidArguments

/-- Call a tool, where `course` tells what becomes of a run. An execution that breaks off gets no
reply. -/
def Sandbox.call (s : Sandbox) (course : Job → Course) (tool : String) (arguments : JsonObject) :
    Except CallError (Except Breakdown Reply) :=
  match tool with
  | "execute" => do
    let request ← decodeArguments ToolArguments.execute arguments
    return (s.execute request course).map Execution.reply
  | "validate" => do
    let code ← decodeArguments ToolArguments.validate arguments
    return .ok (.report (s.validate code))
  | "get_limits" => .ok (.ok (.bounds s.bounds))
  | _ => .error .unknownTool

end ScriptSandbox
