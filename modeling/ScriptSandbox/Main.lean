import ScriptSandbox.Server.Session

/-!
The program. It reads what an invocation names, takes the action that follows, and prints what
comes of it.
-/

namespace ScriptSandbox.Program

def host : Host where
  harness := ""
  searchPath? := none
  makeDirectory _ := .ok "."
  start _ := .error "interpreters cannot be started here"
  explain _ := "not a message"

def course (s : Sandbox) (job : Job) : Course :=
  .ofExcept (s.config.runtime.isolate host job)

partial def readAll (input : IO.FS.Stream) (read : ByteArray) : IO ByteArray := do
  let more ← input.read 65536
  if more.isEmpty then return read
  readAll input (read ++ more)

def readFile (path : String) : IO (Option (String × ByteArray)) := do
  try
    return some (path, ← IO.FS.readBinFile path)
  catch _ => return none

def showLog {α : Type} [Loggable α] (level : String) (events : List α) : IO Unit := do
  for entry in events.map logEntry do
    if entry.isShownAt level then IO.eprintln entry.line

def finish (e : Exit) : IO UInt32 := do
  IO.print e.stdout
  IO.eprint e.stderr
  return e.code.toUInt32

partial def serve (s : Sandbox) (input output : IO.FS.Stream) (opened : Bool) : IO UInt32 := do
  let line ← input.getLine
  if line.isEmpty then finish (Session.ending opened)
  else
    if let some answer := Session.respond s (course s) line then
      output.putStr (answer.compact ++ "\n")
      output.flush
    serve s input output (opened || Session.isOpening line)

def secondsSince (start : Nat) : IO Double := do
  return (Double.ofNat ((← IO.monoNanosNow) - start)).div (.ofNat 1000000000)

def run (i : Invocation) : IO UInt32 := do
  let input ← IO.getStdin
  let files ← i.paths.filterMapM readFile
  let stdin ← if i.readsStdin then readAll input .empty else pure .empty
  let setting? := (← IO.getEnv configVariable).map String.toUTF8
  match i.action { files, stdin, setting? } with
  | .finish e => finish e
  | .serve s =>
    showLog i.logLevel s.config.startEvents
    serve s input (← IO.getStdout) false
  | .execute s r =>
    showLog i.logLevel s.config.startEvents
    let start ← IO.monoNanosNow
    let e := s.execute r (course s)
    showLog i.logLevel (match e with | .ok e => e.events | .error breakdown => breakdown.events)
    let seconds ← secondsSince start
    finish (.ofExecution (e.map fun e => e.withElapsed seconds))

end ScriptSandbox.Program

def main (arguments : List String) : IO UInt32 := do
  match ScriptSandbox.Invocation.ofArguments arguments with
  | .error e => ScriptSandbox.Program.finish e
  | .ok i => ScriptSandbox.Program.run i
