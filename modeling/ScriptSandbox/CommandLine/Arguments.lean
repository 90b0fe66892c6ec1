import ScriptSandbox.CommandLine.Grammar

/-!
Arguments read from left to right according to the grammar of the command line. The first argument
that breaks the grammar or asks for help decides.
-/

namespace ScriptSandbox.CommandLine

inductive Stop
  /-- A text is asked for. -/
  | show (text : String)
  | misuse
deriving DecidableEq

structure Given where
  options : List (String × String) := []
  file? : Option String := none
deriving DecidableEq

/-- The number of seconds or megabytes in a text. A plus sign may stand before the digits. -/
def count? (text : String) : Option Nat :=
  let digits :=
    match text.toList with
    | '+' :: digits => digits
    | digits => digits
  if digits.isEmpty || !digits.all Char.isDigit then none
  else
    let n := digits.foldl (fun n d => n * 10 + (d.toNat - '0'.toNat)) 0
    if n ≤ unlimited then some n else none

def ValueForm.admits (value : String) : ValueForm → Bool
  | text => true
  | path => !value.isEmpty
  | count => (count? value).isSome

namespace Given

def value? (g : Given) (name : String) : Option String :=
  g.options.lookup name

/-- Take an option, which must not have been given before. -/
def set (g : Given) (name value : String) : Except Stop Given :=
  if (g.value? name).isSome then .error .misuse
  else .ok { g with options := g.options ++ [(name, value)] }

def setValue (g : Given) (name : String) (form : ValueForm) (value : String) : Except Stop Given :=
  if form.admits value then g.set name value else .error .misuse

def setFile (takesFile : Bool) (g : Given) (path : String) : Except Stop Given :=
  if takesFile && g.file?.isNone && ValueForm.path.admits path then
    .ok { g with file? := some path }
  else .error .misuse

end Given

inductive Argument
  /-- The sign that only operands follow. -/
  | separator
  /-- An option with a long name, and a value if one is attached with an equals sign. -/
  | long (name : String) (attached? : Option String)
  | short (letter : Char)
  | operand (text : String)

/-- The argument in a text. A single dash is an operand. -/
def Argument.ofText (text : String) : Argument :=
  match text.toList with
  | ['-', '-'] => .separator
  | '-' :: '-' :: body =>
    .long (String.ofList (body.takeWhile (· != '=')))
      (match body.dropWhile (· != '=') with
        | [] => none
        | _ :: value => some (String.ofList value))
  | '-' :: letter :: _ => .short letter
  | _ => .operand text

/-- Texts that options ask for: the help page, and the version where it is told. -/
structure Pages where
  help : String
  version? : Option String := none

def Pages.ask (p : Pages) (isHelp isVersion : Bool) : Stop :=
  if isHelp then .show p.help
  else if isVersion then
    match p.version? with
    | some version => .show version
    | none => .misuse
  else .misuse

inductive Step
  | took (g : Given)
  /-- The next argument is the value of an option. -/
  | wants (name : String) (form : ValueForm)
  | onlyOperands
  | operand (text : String)

def step (options : List OptionSpec) (pages : Pages) (g : Given) (text : String) :
    Except Stop Step :=
  match Argument.ofText text with
  | .separator => .ok .onlyOperands
  | .operand text => .ok (.operand text)
  | .short letter => .error (pages.ask (letter == 'h') (letter == 'V'))
  | .long name attached? =>
    match options.find? (·.name == name), attached? with
    | some ⟨_, _, some form⟩, some value => (g.setValue name form value).map .took
    | some ⟨_, _, some form⟩, none => .ok (.wants name form)
    | some ⟨_, _, none⟩, none => (g.set name "").map .took
    | some ⟨_, _, none⟩, some _ => .error .misuse
    | none, none => .error (pages.ask (name == "help") (name == "version"))
    | none, some _ => .error .misuse

/-- The value that an argument gives, which is no option. -/
def valueOf (text : String) : Except Stop String :=
  match Argument.ofText text with
  | .operand text => .ok text
  | _ => .error .misuse

def readCommand (options : List OptionSpec) (takesFile : Bool) (pages : Pages) (g : Given) :
    List String → Except Stop Given
  | [] => .ok g
  | text :: rest =>
    match step options pages g text with
    | .error stop => .error stop
    | .ok (.took g) => readCommand options takesFile pages g rest
    | .ok .onlyOperands => rest.foldlM (Given.setFile takesFile) g
    | .ok (.operand path) =>
      match g.setFile takesFile path with
      | .error stop => .error stop
      | .ok g => readCommand options takesFile pages g rest
    | .ok (.wants name form) =>
      match rest with
      | [] => .error .misuse
      | value :: rest =>
        match valueOf value >>= g.setValue name form with
        | .error stop => .error stop
        | .ok g => readCommand options takesFile pages g rest

/-- Read the options for the whole program up to the name of a command. -/
def readProgram (options : List OptionSpec) (pages : Pages) (g : Given) :
    List String → Except Stop (Given × String × List String)
  | [] => .error .misuse
  | text :: rest =>
    match step options pages g text with
    | .error stop => .error stop
    | .ok (.took g) => readProgram options pages g rest
    | .ok .onlyOperands => .error .misuse
    | .ok (.operand command) => .ok (g, command, rest)
    | .ok (.wants name form) =>
      match rest with
      | [] => .error .misuse
      | value :: rest =>
        match valueOf value >>= g.setValue name form with
        | .error stop => .error stop
        | .ok g => readProgram options pages g rest

/-- The help page that the help command shows for some names. -/
def helpFor : List String → Stop
  | [] => .show programHelp
  | [name] =>
    if name = helpCommand then .show helpCommandHelp
    else
      match commands.find? (·.name == name) with
      | some c => .show c.help
      | none => .misuse
  | _ => .misuse

/-- A command with its options. Those for the whole program count most where they stand after the
name of the command. -/
structure Parsed where
  command : CommandSpec
  given : Given

def parseArguments (arguments : List String) : Except Stop Parsed := do
  let (program, name, rest) ←
    readProgram globalOptions ⟨programHelp, some versionText⟩ {} arguments
  if name = helpCommand then throw (helpFor rest)
  match commands.find? (·.name == name) with
  | none => throw .misuse
  | some c =>
    let g ← readCommand (c.options ++ globalOptions) c.takesFile ⟨c.help, none⟩ {} rest
    if c.takesFile && g.file?.isNone then throw .misuse
    return ⟨c, { g with options := g.options ++ program.options }⟩

end ScriptSandbox.CommandLine
