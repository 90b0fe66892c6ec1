import ScriptSandbox.Capture.Buffer
import ScriptSandbox.Isolation.Outcome
import ScriptSandbox.Request.Result

/-!
The messages of an interpreter put together to an outcome. Each output stream is kept in a buffer
of its own, and of several reports the last one counts.
-/

namespace ScriptSandbox

/-- What the messages so far amount to. -/
structure Collector where
  stdout : Buffer
  stderr : Buffer
  report? : Option ChildReport := none

namespace Collector

def ofCap (cap : Nat) : Collector :=
  { stdout := { cap }, stderr := { cap } }

def append (data : String) (overflow : Bool) (b : Buffer) : Buffer :=
  if overflow then (b.push data).markTruncated else b.push data

def accept (c : Collector) : ChildMessage → Collector
  | .output .stdout data overflow => { c with stdout := append data overflow c.stdout }
  | .output .stderr data overflow => { c with stderr := append data overflow c.stderr }
  | .report r => { c with report? := some r }

/-- The error stream of the script, followed by what the interpreter wrote there itself. -/
def allStderr (c : Collector) (raw : Buffer) : Buffer :=
  append raw.contents raw.truncated c.stderr

end Collector

/-- What an interpreter says about the end of a script. -/
def ChildOutcome.termination : ChildOutcome → Except SandboxFault Termination
  | completed => .ok .completed
  | raised exceptionType message => .ok (.raised exceptionType message)
  | syntaxInvalid line column message => .ok (.syntaxInvalid line column message)
  | memoryExceeded message => .ok (.memoryExceeded message)
  | setupFailed message => .error (.setup message)

/-- The outcome of a run, from the messages of the interpreter, the way it went away and what it
wrote to the error stream itself. -/
def Collector.finish (c : Collector) (ending : Ending) (raw : Buffer) :
    Except SandboxFault Outcome := do
  let stdout := c.stdout.contents
  let stderr := (c.allStderr raw).contents
  match c.report? with
  | some r =>
    return ⟨stdout, stderr, r.locals, ← r.outcome.termination, r.peakKb, r.unavailableModules⟩
  | none => return ⟨stdout, stderr, none, ending.termination raw.contents, none, []⟩

end ScriptSandbox
