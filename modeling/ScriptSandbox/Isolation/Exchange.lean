import ScriptSandbox.Capture.Drain
import ScriptSandbox.Capture.Frame
import ScriptSandbox.Child.Decoding
import ScriptSandbox.Config
import ScriptSandbox.Isolation.Collector
import ScriptSandbox.Json.Text

/-!
The exchange with an interpreter: the request is written, its messages are read until their stream
ends, and then its end is awaited. In a process of its own no message is read before the request is
written, and each one is taken as soon as it is read. A thread leaves the writing to another one for
which nobody waits, and puts the messages into a queue, from which they are taken; its last item may
be a fault.
-/

namespace ScriptSandbox

/-- How an interpreter means to end. -/
inductive Departure
  | exits (status : ExitStatus)
  /-- It stays until it is killed, and its streams stay open as long. -/
  | stays
deriving DecidableEq

/-- How the writing of a request goes as long as no message is read. -/
inductive Handover
  /-- The interpreter takes it, or nobody is left who could. -/
  | ends
  /-- A part of it stays in the pipe, which somebody keeps open, perhaps the interpreter, which waits
  for its messages to be read. When it is killed it has written this to its error stream. -/
  | hangs (stderr : Source)

/-- What an interpreter does, as far as the sandbox can see it. -/
structure Conduct where
  handover : Handover := .ends
  messages : Source
  /-- What it writes to its error stream itself. -/
  stderr : Source
  departure : Departure

def Departure.ending : Departure → Ending
  | exits status => .exited status
  | stays => .killed

/-- What is wrong with a payload that is no message, in the decoder's words. -/
def malformedFrame (detail : String) : SandboxFault :=
  .protocol s!"malformed frame: {detail}"

section
variable (explain : ByteArray → String)

def ChildMessage.ofPayload (payload : ByteArray) : Except SandboxFault ChildMessage :=
  match String.fromUTF8? payload with
  | none => .error (malformedFrame (explain payload))
  | some text => (ChildMessage.decoder.ofText text).mapError fun _ => malformedFrame (explain payload)

def Collector.readAll (c : Collector) (s : Source) : Except SandboxFault Collector :=
  match _h : Frame.next s with
  | .ended => .ok c
  | .failed e => .error (.protocol e.message)
  | .payload data rest =>
    match ChildMessage.ofPayload explain data with
    | .error fault => .error fault
    | .ok message => Collector.readAll (c.accept message) rest
termination_by s.size
decreasing_by exact Frame.size_of_next _h

/-- The queue of the messages in a stream. It ends with the first fault. -/
def messageQueue (s : Source) : List (Except SandboxFault ChildMessage) :=
  match _h : Frame.next s with
  | .ended => []
  | .failed e => [.error (.protocol e.message)]
  | .payload data rest =>
    match ChildMessage.ofPayload explain data with
    | .error fault => [.error fault]
    | .ok message => .ok message :: messageQueue rest
termination_by s.size
decreasing_by exact Frame.size_of_next _h

def Collector.acceptAll (c : Collector) :
    List (Except SandboxFault ChildMessage) → Except SandboxFault Collector
  | [] => .ok c
  | .error fault :: _ => .error fault
  | .ok message :: rest => (c.accept message).acceptAll rest

/-- The outcome of a run in a process of its own, keeping so many bytes of each stream. While a part
of the request stays in the pipe no message is read, until the time is over. -/
def Conduct.outcomeInProcess (c : Conduct) (cap : Nat) : Except SandboxFault Outcome :=
  match c.handover with
  | .hangs stderr => (Collector.ofCap cap).finish .killed (drain false cap stderr)
  | .ends => do
    let collector ← (Collector.ofCap cap).readAll explain c.messages
    collector.finish c.departure.ending (drain false cap c.stderr)

/-- The outcome of a run that a thread drives, keeping so many bytes of each stream. -/
def Conduct.outcomeInThread (c : Conduct) (cap : Nat) : Except SandboxFault Outcome := do
  let collector ← (Collector.ofCap cap).acceptAll (messageQueue explain c.messages)
  collector.finish c.departure.ending (drain true cap c.stderr)

def Conduct.outcome (c : Conduct) (cap : Nat) : IsolationMode → Except SandboxFault Outcome
  | .process => c.outcomeInProcess explain cap
  | .thread => c.outcomeInThread explain cap

end

end ScriptSandbox
