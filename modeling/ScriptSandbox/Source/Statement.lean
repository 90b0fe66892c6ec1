import ScriptSandbox.Source.Token

/-!
The statements of a script: imports, other lines, and blocks that hold statements of their own.
This is not the whole grammar of the language. It keeps what an analysis of imports, calls and
nesting needs, and leaves expressions as the tokens they are made of.
-/

namespace ScriptSandbox

/-- What a line that opens no block says. -/
inductive LineForm
  /-- `import a.b, c as d`, with the dotted names of the modules. -/
  | importModules (modules : List String)
  /-- `from .a import b`, with the module if one is named and the number of leading dots. -/
  | importFrom (module? : Option String) (level : Nat)
  | plain
deriving DecidableEq

inductive Statement
  /-- A statement on a line of its own, or one of several between semicolons. -/
  | line (form : LineForm) (position : Position) (tokens : List Token)
  /-- A block, named by the first word of its header. The header ends before its colon. -/
  | block (keyword : String) (position : Position) (header : List Token) (body : List Statement)

namespace Statement

def position : Statement → Position
  | line _ p _ => p
  | block _ p _ _ => p

/-- The tokens of the statement itself, without those of a block's body. -/
def tokens : Statement → List Token
  | line _ _ tokens => tokens
  | block _ _ header _ => header

section

variable {form : LineForm} {p : Position} {keyword : String} {own : List Token}
  {inside : List Statement}

@[simp] theorem position_line : (line form p own).position = p := rfl

@[simp] theorem position_block : (block keyword p own inside).position = p := rfl

@[simp] theorem tokens_line : (line form p own).tokens = own := rfl

@[simp] theorem tokens_block : (block keyword p own inside).tokens = own := rfl

end

def body : Statement → List Statement
  | line .. => []
  | block _ _ _ body => body

end Statement

end ScriptSandbox
