/-!
Entries of the log: a message with named fields, all of them texts.
-/

namespace ScriptSandbox

inductive LogLevel
  | debug
  | warn
  | error
deriving DecidableEq

def LogLevel.label : LogLevel → String
  | debug => "DEBUG"
  | warn => "WARN"
  | error => "ERROR"

structure LogEntry where
  level : LogLevel
  audit : Bool := false
  message : String
  fields : List (String × String) := []
deriving DecidableEq

/-- The levels by name, the least urgent first. A level is of a greater rank than those before. -/
def levelNames : List String :=
  ["TRACE", "DEBUG", "INFO", "WARN", "ERROR"]

/-- The rank of the level with a name, or of the usual one. -/
def levelRank (name : String) : Nat :=
  (levelNames.idxOf? (name.map Char.toUpper)).getD 2

/-- Whether an entry is shown where only levels from the named one on are. -/
def LogEntry.isShownAt (e : LogEntry) (level : String) : Bool :=
  levelRank level ≤ levelRank e.level.label

def LogEntry.line (e : LogEntry) : String :=
  e.level.label ++ " " ++ e.message ++
    String.join (e.fields.map fun f => " " ++ f.1 ++ "=" ++ f.2)

/-- Something that is worth an entry. -/
class Loggable (α : Type) where
  logEntry : α → LogEntry

export Loggable (logEntry)

end ScriptSandbox
