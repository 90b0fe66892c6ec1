import ScriptSandbox.Source.Position

/-!
The ways in which a script can fail to have tokens or statements, each with its message.
-/

namespace ScriptSandbox

inductive SyntaxProblem
  | strayBackslash
  | unterminatedString (triple : Bool)
  | invalidCharacter (c : Char)
  | unindent
  | mismatchedBracket (closing opening : Char)
  | unmatchedBracket (closing : Char)
  | neverClosed (opening : Char)
  | unexpectedIndent
  | missingColon
  | missingBlock (keyword : String) (line : Nat)
  | invalidSyntax
deriving DecidableEq

def SyntaxProblem.message : SyntaxProblem → String
  | strayBackslash => "unexpected character after line continuation character"
  | unterminatedString false => "unterminated string literal"
  | unterminatedString true => "unterminated triple-quoted string literal"
  | invalidCharacter c => s!"invalid character '{c}'"
  | unindent => "unindent does not match any outer indentation level"
  | mismatchedBracket closing opening =>
    s!"closing parenthesis '{closing}' does not match opening parenthesis '{opening}'"
  | unmatchedBracket closing => s!"unmatched '{closing}'"
  | neverClosed opening => s!"'{opening}' was never closed"
  | unexpectedIndent => "unexpected indent"
  | missingColon => "expected ':'"
  | missingBlock keyword line =>
    s!"expected an indented block after '{keyword}' statement on line {line}"
  | invalidSyntax => "invalid syntax"

structure SyntaxError where
  position : Position
  problem : SyntaxProblem
deriving DecidableEq

def SyntaxError.message (e : SyntaxError) : String :=
  e.problem.message

def SyntaxError.display (e : SyntaxError) : String :=
  s!"line {e.position.line}, column {e.position.column}: {e.message}"

end ScriptSandbox
