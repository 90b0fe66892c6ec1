import ScriptSandbox.Source.Position

/-!
The tokens of a Python script: names, numbers, strings and operators, and the layout tokens that
stand for line ends and for changes of indentation.
-/

namespace ScriptSandbox

/-- The reserved words of the language. None of them can be called or bound. -/
def keywords : List String :=
  ["False", "None", "True", "and", "as", "assert", "async", "await", "break", "class",
    "continue", "def", "del", "elif", "else", "except", "finally", "for", "from", "global",
    "if", "import", "in", "is", "lambda", "nonlocal", "not", "or", "pass", "raise", "return",
    "try", "while", "with", "yield"]

def isKeyword (text : String) : Bool :=
  keywords.contains text

/-- An expression inside a formatted string, with the place of its first character. -/
structure Field where
  source : String
  position : Position
deriving DecidableEq

/-- What a token is. A string carries its replacement fields in order. -/
inductive TokenKind
  | name
  | number
  | string (fields : List Field)
  | operator
  | newline
  | indent
  | dedent
  | endMarker
deriving DecidableEq

/-- A token, the text it was read from and the place of its first character. -/
structure Token where
  kind : TokenKind
  text : String
  position : Position
deriving DecidableEq

namespace Token

def isOperator (t : Token) (text : String) : Bool :=
  t.kind == .operator && t.text == text

def isWord (t : Token) (text : String) : Bool :=
  t.kind == .name && t.text == text

def isIdentifier (t : Token) : Bool :=
  t.kind == .name && !isKeyword t.text

section

variable {t : Token} {text : String}

theorem isOperator_iff : t.isOperator text = true ↔ t.kind = .operator ∧ t.text = text := by
  simp [isOperator]

theorem isWord_iff : t.isWord text = true ↔ t.kind = .name ∧ t.text = text := by
  simp [isWord]

theorem isIdentifier_iff : t.isIdentifier = true ↔ t.kind = .name ∧ isKeyword t.text = false := by
  simp [isIdentifier]

theorem kind_of_isWord (h : t.isWord text = true) : t.kind = .name :=
  (isWord_iff.1 h).1

theorem kind_of_isIdentifier (h : t.isIdentifier = true) : t.kind = .name :=
  (isIdentifier_iff.1 h).1

@[simp] theorem isOperator_of_name (h : t.kind = .name) (text : String) :
    t.isOperator text = false := by
  simp [isOperator, h]

theorem isOperator_of_ne {other : String} (h : t.isOperator text = true) (hne : text ≠ other) :
    t.isOperator other = false := by
  simp [isOperator, (isOperator_iff.1 h).2, hne]

theorem isWord_of_isOperator (h : t.isOperator text = true) (word : String) :
    t.isWord word = false := by
  simp [isWord, (isOperator_iff.1 h).1]

end

/-- Whether a token stands for the layout of lines and blocks. -/
def isLayout (t : Token) : Bool :=
  match t.kind with
  | .newline | .indent | .dedent => true
  | _ => false

theorem isLayout_iff {t : Token} :
    t.isLayout = true ↔ t.kind = .newline ∨ t.kind = .indent ∨ t.kind = .dedent := by
  unfold isLayout
  cases t.kind <;> simp

end Token

end ScriptSandbox
