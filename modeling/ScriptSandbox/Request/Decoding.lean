import ScriptSandbox.Json.Decoder
import ScriptSandbox.Request.Limits
import ScriptSandbox.Request.Result

/-!
Requests and results from JSON.
-/

namespace ScriptSandbox

open RecordDecoder Decoder

def ExecutionRequest.decoder : RecordDecoder ExecutionRequest :=
  ExecutionRequest.mk
    <$> required "code" text
    <*> defaulted "timeout_seconds" natural.nullable none
    <*> defaulted "max_memory_mb" natural.nullable none
    <*> defaulted "globals" object .empty
    <*> defaulted "capture_locals" boolean false
    <*> defaulted "correlation_id" text.nullable none

def ExecutionResult.decoder : RecordDecoder ExecutionResult :=
  ExecutionResult.mk
    <$> required "success" boolean
    <*> required "stdout" text
    <*> required "stderr" text
    <*> optional "error_type" text
    <*> optional "error_message" text
    <*> required "execution_time_seconds" double
    <*> optional "memory_used_mb" double
    <*> optional "locals_dict" object

end ScriptSandbox
