import ScriptSandbox.Json.Value
import ScriptSandbox.Scope

/-!
What the sandbox and the interpreter that it starts say to one another. The sandbox sends one
`ChildRequest`. The interpreter, its child, answers with the output of the script and at last with
a report.
-/

namespace ScriptSandbox

/-- What the child is asked to do. -/
structure ChildRequest where
  code : String
  scope : Scope
  captureLocals : Bool
  /-- For each output stream, the bytes after which the child sends no more. -/
  maxStreamBytes : Nat
  /-- The bytes that the variables sent back may take. -/
  maxLocalsBytes : Nat

inductive OutputStream
  | stdout
  | stderr
deriving DecidableEq

/-- How a script ended, as seen by the child. -/
inductive ChildOutcome
  | completed
  | raised (exceptionType message : String)
  | syntaxInvalid (line column : Option Nat) (message : String)
  | memoryExceeded (message : String)
  | setupFailed (message : String)
deriving DecidableEq

/-- The last message of the child. -/
structure ChildReport where
  outcome : ChildOutcome
  locals : Option JsonObject
  peakKb : Option Nat
  unavailableModules : List String

inductive ChildMessage
  /-- Something that the script wrote. After an overflow the child sends no more of the stream. -/
  | output (stream : OutputStream) (data : String) (overflow : Bool)
  | report (r : ChildReport)

end ScriptSandbox
