import ScriptSandbox.Child.Message
import ScriptSandbox.Text.Phrase

/-!
How runs end. An interpreter that reports tells itself how the script ended. If it dies without a
report, its last words and the manner of its death have to tell.
-/

namespace ScriptSandbox

inductive Termination
  | completed
  | raised (exceptionType message : String)
  | syntaxInvalid (line column : Option Nat) (message : String)
  | timedOut
  | cpuLimit
  | memoryExceeded (detail : String)
  | crashed (detail : String)
deriving DecidableEq

structure Outcome where
  stdout : String
  stderr : String
  locals : Option JsonObject
  termination : Termination
  peakKb : Option Nat
  unavailableModules : List String

namespace Outcome

def timedOut (o : Outcome) : Bool :=
  o.termination == .timedOut || o.termination == .cpuLimit

def memoryExceeded (o : Outcome) : Bool :=
  match o.termination with
  | .memoryExceeded _ => true
  | _ => false

/-- The class and the message of the exception that the script raised. -/
def exception? (o : Outcome) : Option (String × String) :=
  match o.termination with
  | .raised exceptionType message => some (exceptionType, message)
  | _ => none

end Outcome

inductive ExitStatus
  | code (n : UInt8)
  | signal (n : Nat)
deriving DecidableEq

inductive Ending
  | exited (status : ExitStatus)
  /-- The sandbox killed it, because the time was over. -/
  | killed
deriving DecidableEq

namespace ExitStatus

def signalNames : List String :=
  ["SIGHUP", "SIGINT", "SIGQUIT", "SIGILL", "SIGTRAP", "SIGABRT", "SIGBUS", "SIGFPE", "SIGKILL",
    "SIGUSR1", "SIGSEGV", "SIGUSR2", "SIGPIPE", "SIGALRM", "SIGTERM", "SIGSTKFLT", "SIGCHLD",
    "SIGCONT", "SIGSTOP", "SIGTSTP", "SIGTTIN", "SIGTTOU", "SIGURG", "SIGXCPU", "SIGXFSZ",
    "SIGVTALRM", "SIGPROF", "SIGWINCH", "SIGIO", "SIGPWR", "SIGSYS"]

/-- The name of a signal, or its number if it has none. -/
def signalName (n : Nat) : String :=
  match ("" :: signalNames)[n]? with
  | none | some "" => s!"signal {n}"
  | some name => name

def sigkill : Nat := 9

/-- The signal that a process gets at its soft limit on processor time. -/
def sigxcpu : Nat := 24

/-- What a death without a report means. The soft limit on processor time comes before the hard
one, so a process that the sandbox did not kill was killed for its memory. -/
def termination : ExitStatus → Termination
  | code n => .crashed s!"child exited with status {n.toNat} without reporting"
  | signal n =>
    if n = sigkill then .memoryExceeded "killed by the operating system"
    else if n = sigxcpu then .cpuLimit
    else .crashed ("child terminated by " ++ signalName n)

end ExitStatus

/-- What an interpreter writes when it runs out of memory, in small letters. -/
def memoryPhrases : List String :=
  ["memoryerror", "cannot allocate memory", "out of memory", "memory allocation failed",
    "too many memory regions", "std::bad_alloc"]

/-- What the end of an interpreter without a report means, given its last words. Lack of memory
often ends in an abort, so the words count more than the signal. -/
def Ending.termination (ending : Ending) (lastWords : String) : Termination :=
  match ending with
  -- The sandbox kills for one reason only.
  | killed => .timedOut
  | exited status =>
    if memoryPhrases.any (Text.mentions lastWords) then
      .memoryExceeded "interpreter ran out of memory"
    else status.termination

end ScriptSandbox
