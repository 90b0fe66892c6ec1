import ScriptSandbox.Server.Tool

/-!
The grammar of the command line, and the help pages that it gives. A line consists of options for
the whole program, the name of a command, and options and an operand for the command.
-/

namespace ScriptSandbox.CommandLine

inductive ValueForm
  | text
  /-- A text that is not empty. -/
  | path
  /-- A natural number of at most 64 bits. -/
  | count
deriving DecidableEq

/-- An option, written as `--name`, and followed by a value if it takes one. -/
structure OptionSpec where
  name : String
  about : String
  value? : Option ValueForm := none

structure CommandSpec where
  name : String
  about : String
  options : List OptionSpec := []
  takesFile : Bool := false

/-- The options for the whole program, which may also stand after the name of a command. -/
def globalOptions : List OptionSpec :=
  [⟨"log-level", "Log level (trace, debug, info, warn, error) [default: info]", some .text⟩,
    ⟨"config", "JSON configuration file; overrides FACTOR_SANDBOX_CONFIG", some .path⟩]

def commands : List CommandSpec :=
  [{ name := "serve"
     about := "Serve the sandbox as an MCP server"
     options := [⟨"stdio", "Run in stdio mode (for MCP clients)", none⟩] },
    { name := "validate"
      about := "Statically analyze a file (\"-\" for stdin) and print the report"
      takesFile := true },
    { name := "run"
      about := "Validate and run a file (\"-\" for stdin) and print the result"
      options :=
        [⟨"timeout", "Wall-clock limit in seconds", some .count⟩,
          ⟨"memory-mb", "Memory limit in MB", some .count⟩,
          ⟨"locals", "Include the variables the code defined", none⟩,
          ⟨"globals", "JSON object of variables to inject", some .text⟩]
      takesFile := true },
    { name := "limits", about := "Print the accepted timeout and memory bounds" }]

def helpCommand : String := "help"

/-- An entry of a help page: what is written, and what it means. -/
abbrev HelpEntry := String × String

def spaces (n : Nat) : String :=
  String.ofList (List.replicate n ' ')

/-- A paragraph of a help page, in which the meanings stand below one another. -/
def helpSection (title : String) (entries : List HelpEntry) : String :=
  let width := (entries.map (·.1.length)).foldl max 0
  let line (e : HelpEntry) : String := "  " ++ e.1 ++ spaces (width - e.1.length) ++ "  " ++ e.2
  "\n" ++ title ++ ":\n" ++ String.join (entries.map fun e => line e ++ "\n")

/-- The entry of an option. The name of its value is its own name in capitals. -/
def OptionSpec.helpEntry (o : OptionSpec) : HelpEntry :=
  let name := o.name.toList.map fun c => if c = '-' then '_' else c.toUpper
  ("    --" ++ o.name ++ (if o.value?.isSome then " <" ++ String.ofList name ++ ">" else ""),
    o.about)

/-- The entries of a list of options and of the options for the whole program. Options of the same
place in the two lists stand together in the order of their names. -/
def mergedEntries : List OptionSpec → List OptionSpec → List HelpEntry
  | [], others => others.map OptionSpec.helpEntry
  | own, [] => own.map OptionSpec.helpEntry
  | o :: own, g :: others =>
    (if o.name < g.name then [o.helpEntry, g.helpEntry] else [g.helpEntry, o.helpEntry]) ++
      mergedEntries own others

def helpEntry : HelpEntry := ("-h, --help", "Print help")

def versionEntry : HelpEntry := ("-V, --version", "Print version")

def helpCommandEntry : HelpEntry :=
  (helpCommand, "Print this message or the help of the given subcommand(s)")

def CommandSpec.help (c : CommandSpec) : String :=
  c.about ++ "\n\nUsage: " ++ programName ++ " " ++ c.name ++ " [OPTIONS]" ++
    (if c.takesFile then " <FILE>\n" ++ helpSection "Arguments" [("<FILE>", "")] else "\n") ++
    helpSection "Options" (mergedEntries c.options globalOptions ++ [helpEntry])

def programHelp : String :=
  "Restricted sandbox for user-authored Python factor code\n\nUsage: " ++ programName ++
    " [OPTIONS] <COMMAND>\n" ++
    helpSection "Commands" (commands.map (fun c => (c.name, c.about)) ++ [helpCommandEntry]) ++
    helpSection "Options" (mergedEntries [] globalOptions ++ [helpEntry, versionEntry])

/-- The help page of the command that shows help pages. -/
def helpCommandHelp : String :=
  helpCommandEntry.2 ++ "\n\nUsage: " ++ programName ++ " " ++ helpCommand ++ " [COMMAND]...\n" ++
    helpSection "Arguments" [("[COMMAND]...", "Print help for the subcommand(s)")]

def versionText : String :=
  programName ++ " " ++ programVersion ++ "\n"

end ScriptSandbox.CommandLine
