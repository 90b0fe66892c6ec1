import ScriptSandbox.Capture.Frame
import ScriptSandbox.Child.Encoding
import ScriptSandbox.Isolation.Ceilings
import ScriptSandbox.Isolation.Exchange
import ScriptSandbox.Json.Writer

/-!
Jobs, and the start of an interpreter for a job. An interpreter has a new directory for itself, sees
only the variables that are set for it, and reads its request from its standard input.
-/

namespace ScriptSandbox

structure Job where
  request : ChildRequest
  timeoutMs : Nat
  ceilings : Ceilings

structure Launch where
  program : String
  arguments : List String
  /-- All variables of the environment. -/
  environment : List (String × String)
  directory : String
  /-- Whether it leads a group of processes, so that whatever it starts is killed with it. -/
  ownGroup : Bool
  /-- The limits that it is put under before it starts. -/
  ceilings? : Option Ceilings
  input : ByteArray

/-- The machine that runs are made on. Where it fails, it tells why. -/
structure Host where
  harness : String
  searchPath? : Option String
  /-- Make a directory inside a given one, or wherever directories for a while are made. -/
  makeDirectory : Option String → Except String String
  start : Launch → Except String Conduct
  /-- What the decoder says about a payload that is no message. -/
  explain : ByteArray → String

/-- The text of a request, as a frame. A request that is too long for a frame is not sent. -/
def ChildRequest.input (r : ChildRequest) : ByteArray :=
  match Frame.encode r.toJson.compact.toUTF8 with
  | .ok frame => frame
  | .error _ => .empty

namespace Host

/-- The arguments of an interpreter: it is cut off from its user, writes no compiled files and
holds nothing back. -/
def arguments (h : Host) : List String :=
  ["-I", "-B", "-u", "-c", h.harness]

/-- The variables of an interpreter with a directory. It shall start no threads of its own, which
would count against its memory. -/
def environment (h : Host) (directory : String) : List (String × String) :=
  [("HOME", directory), ("TMPDIR", directory), ("PYTHONIOENCODING", "utf-8"),
      ("OPENBLAS_NUM_THREADS", "1"), ("OMP_NUM_THREADS", "1"), ("MKL_NUM_THREADS", "1"),
      ("NUMEXPR_NUM_THREADS", "1"), ("MALLOC_ARENA_MAX", "2")] ++
    h.searchPath?.toList.map fun path => ("PATH", path)

end Host

namespace Runtime

/-- The start of an interpreter for a job in a directory. Limits are for a process of its own. -/
def launch (r : Runtime) (host : Host) (job : Job) (directory : String) : Launch where
  program := r.interpreter
  arguments := host.arguments
  environment := host.environment directory
  directory := directory
  ownGroup := r.isolation == .process
  ceilings? := if r.isolation == .process then some job.ceilings else none
  input := job.request.input

def isolate (r : Runtime) (host : Host) (job : Job) : Except SandboxFault Outcome := do
  let directory ← (host.makeDirectory r.scratchDir).mapError .scratch
  let conduct ← (host.start (r.launch host job directory)).mapError (.spawn r.interpreter)
  conduct.outcome host.explain job.request.maxStreamBytes r.isolation

end Runtime

def IsolationMode.label : IsolationMode → String
  | process => "process"
  | thread => "thread"

end ScriptSandbox
