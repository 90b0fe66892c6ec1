import ScriptSandbox.Request.Limits
import ScriptSandbox.Request.Result

/-!
Requests, results and bounds as JSON values.
-/

namespace ScriptSandbox

def Bounds.toJson (b : Bounds) : Json :=
  .object [("min", .ofNat b.min), ("max", .ofNat b.max), ("default", .ofNat b.default)]

def RequestBounds.toJson (b : RequestBounds) : Json :=
  .object [("timeout", b.timeoutSeconds.toJson), ("memory_mb", b.memoryMb.toJson)]

def ExecutionRequest.toJson (r : ExecutionRequest) : Json :=
  .object
    [("code", .string r.code),
      ("timeout_seconds", .ofOption .ofNat r.timeoutSeconds),
      ("max_memory_mb", .ofOption .ofNat r.maxMemoryMb),
      ("globals", r.globals.toJson),
      ("capture_locals", .bool r.captureLocals),
      ("correlation_id", .ofOption .string r.correlationId)]

def ExecutionResult.toJson (r : ExecutionResult) : Json :=
  .object
    [("success", .bool r.success),
      ("stdout", .string r.stdout),
      ("stderr", .string r.stderr),
      ("error_type", .ofOption .string r.errorType),
      ("error_message", .ofOption .string r.errorMessage),
      ("execution_time_seconds", .number (.double r.executionTimeSeconds)),
      ("memory_used_mb", .ofOption (fun x => .number (.double x)) r.memoryUsedMb),
      ("locals_dict", .ofOption JsonObject.toJson r.locals)]

end ScriptSandbox
