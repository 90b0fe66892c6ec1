import ScriptSandbox.Child.Message
import ScriptSandbox.Config.Decoding

/-!
The messages between the sandbox and its child from JSON.
-/

namespace ScriptSandbox

open RecordDecoder Decoder

def Scope.decoder : RecordDecoder Scope :=
  (fun builtins modules allowedImports globals => ⟨builtins, modules, allowedImports, globals, []⟩)
    <$> required "builtins" text.list
    <*> required "modules" Preload.decoder.decode.list
    <*> required "allowed_imports" text.list
    <*> required "globals" object

def ChildRequest.decoder : RecordDecoder ChildRequest :=
  ChildRequest.mk
    <$> required "code" text
    <*> required "namespace" Scope.decoder.decode
    <*> required "capture_locals" boolean
    <*> required "max_stream_bytes" natural
    <*> required "max_locals_bytes" natural

def OutputStream.decoder : Decoder OutputStream :=
  oneOf true [("stdout", .stdout), ("stderr", .stderr)]

def ChildOutcome.decoder : Decoder ChildOutcome :=
  tagged "status" true
    [("completed", fieldless .completed),
      ("raised", RecordDecoder.decode <|
        ChildOutcome.raised <$> required "exc_type" text <*> required "message" text),
      ("syntax_invalid", RecordDecoder.decode <|
        ChildOutcome.syntaxInvalid
          <$> defaulted "line" natural.nullable none
          <*> defaulted "column" natural.nullable none
          <*> required "message" text),
      ("memory_exceeded", RecordDecoder.decode <|
        ChildOutcome.memoryExceeded <$> required "message" text),
      ("setup_failed", RecordDecoder.decode <|
        ChildOutcome.setupFailed <$> required "message" text)]

def ChildReport.decoder : RecordDecoder ChildReport :=
  ChildReport.mk
    <$> required "outcome" ChildOutcome.decoder
    <*> defaulted "locals" object.nullable none
    <*> defaulted "peak_rss_kb" natural.nullable none
    <*> defaulted "unavailable_modules" text.list []

def ChildMessage.decoder : Decoder ChildMessage :=
  tagged "type" false
    [("output", RecordDecoder.decode <|
        ChildMessage.output
          <$> required "stream" OutputStream.decoder
          <*> required "data" text
          <*> defaulted "overflow" boolean false),
      ("report", fun r => (ChildReport.decoder.decode r).map .report)]

end ScriptSandbox
