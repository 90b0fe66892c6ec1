import ScriptSandbox.Child.Message

/-!
The messages between the sandbox and its child as JSON values.
-/

namespace ScriptSandbox

def Preload.toJson (p : Preload) : Json :=
  .object [("alias", .string p.name), ("module", .string p.module)]

/-- A scope as a value. What was left out of it is not told. -/
def Scope.toJson (s : Scope) : Json :=
  .object
    [("builtins", .ofStrings s.builtins),
      ("modules", .array (s.modules.map Preload.toJson)),
      ("allowed_imports", .ofStrings s.allowedImports),
      ("globals", s.globals.toJson)]

def ChildRequest.toJson (r : ChildRequest) : Json :=
  .object
    [("code", .string r.code),
      ("namespace", r.scope.toJson),
      ("capture_locals", .bool r.captureLocals),
      ("max_stream_bytes", .ofNat r.maxStreamBytes),
      ("max_locals_bytes", .ofNat r.maxLocalsBytes)]

def OutputStream.label : OutputStream → String
  | stdout => "stdout"
  | stderr => "stderr"

def ChildOutcome.toJson : ChildOutcome → Json
  | completed => .object [("status", .string "completed")]
  | raised exceptionType message =>
    .object
      [("status", .string "raised"), ("exc_type", .string exceptionType),
        ("message", .string message)]
  | syntaxInvalid line column message =>
    .object
      [("status", .string "syntax_invalid"), ("line", .ofOption .ofNat line),
        ("column", .ofOption .ofNat column), ("message", .string message)]
  | memoryExceeded message =>
    .object [("status", .string "memory_exceeded"), ("message", .string message)]
  | setupFailed message =>
    .object [("status", .string "setup_failed"), ("message", .string message)]

def ChildMessage.toJson : ChildMessage → Json
  | output stream data overflow =>
    .object
      [("type", .string "output"), ("stream", .string stream.label), ("data", .string data),
        ("overflow", .bool overflow)]
  | report r =>
    .object
      [("type", .string "report"), ("outcome", r.outcome.toJson),
        ("locals", .ofOption JsonObject.toJson r.locals),
        ("peak_rss_kb", .ofOption .ofNat r.peakKb),
        ("unavailable_modules", .ofStrings r.unavailableModules)]

end ScriptSandbox
