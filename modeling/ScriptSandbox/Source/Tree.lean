import ScriptSandbox.Source.Statement
import ScriptSandbox.Source.SyntaxError

/-!
Statements from tokens. The tokens of a logical line are first read by themselves: they hold
statements between semicolons, or the header of a block with or without statements after its
colon. `parse` then nests the lines by the layout tokens between them.
-/

namespace ScriptSandbox

def blockKeywords : List String :=
  ["if", "elif", "else", "for", "while", "try", "except", "finally", "with", "def", "class",
    "async"]

/-- The words that open a block only on a line that ends in a colon. -/
def softBlockKeywords : List String :=
  ["match", "case"]

/-- Names joined by dots at the start of some tokens, and the tokens after them. -/
def dottedName : List Token → Option (String × List Token)
  | [] => none
  | name :: rest =>
    if name.isIdentifier then
      match rest with
      | dot :: more =>
        if dot.isOperator "." then
          (dottedName more).map fun found => (name.text ++ "." ++ found.1, found.2)
        else some (name.text, rest)
      | [] => some (name.text, [])
    else none

theorem length_dottedName {tokens rest : List Token} {name : String}
    (h : dottedName tokens = some (name, rest)) : rest.length < tokens.length := by
  fun_induction dottedName tokens generalizing name rest with
  | case1 => simp at h
  | case2 t hid dot more hdot ih =>
    obtain ⟨⟨inner, after⟩, found, eq⟩ := Option.map_eq_some_iff.1 h
    cases eq
    have := ih found
    simp only [List.length_cons]
    omega
  | case3 t hid dot more hdot => cases h; simp
  | case4 t hid => cases h; simp
  | case5 t rest hid => simp at h

def refuse (t : Token) : SyntaxError :=
  ⟨t.position, .invalidSyntax⟩

/-- The rest of an item of an import after its name: `as` and an alias may follow. -/
def skipAlias : List Token → Except SyntaxError (List Token)
  | [] => .ok []
  | t :: rest =>
    if t.isWord "as" then
      match rest with
      | bound :: more => if bound.isIdentifier then .ok more else .error (refuse t)
      | [] => .error (refuse t)
    else .ok (t :: rest)

/-- An alias is passed over where one follows, and nothing else is. -/
theorem skipAlias_eq_ok_iff {tokens rest : List Token} : skipAlias tokens = .ok rest ↔
    (∃ word bound, tokens = word :: bound :: rest ∧ word.isWord "as" = true ∧
      bound.isIdentifier = true) ∨
    tokens = rest ∧ ∀ t ∈ rest.head?, t.isWord "as" = false := by
  constructor
  · intro h
    unfold skipAlias at h
    split at h
    · cases h
      exact .inr ⟨rfl, by simp⟩
    · rename_i word more
      split at h
      · rename_i has
        split at h
        · rename_i bound more
          split at h
          · rename_i hbound
            cases h
            exact .inl ⟨word, bound, rfl, has, hbound⟩
          · cases h
        · cases h
      · rename_i has
        cases h
        exact .inr ⟨rfl, by simpa using has⟩
  · rintro (⟨word, bound, rfl, has, hbound⟩ | ⟨rfl, hrest⟩)
    · simp [skipAlias, has, hbound]
    · cases tokens with
      | nil => rfl
      | cons t rest => simp [skipAlias, hrest t rfl]

theorem length_skipAlias {tokens rest : List Token} (h : skipAlias tokens = .ok rest) :
    rest.length ≤ tokens.length := by
  rcases skipAlias_eq_ok_iff.1 h with ⟨word, bound, rfl, -⟩ | ⟨rfl, -⟩
  · simp only [List.length_cons]
    omega
  · exact Nat.le_refl _

/-- The module names in the items of an import, which are separated by commas. What is missing is
refused at `first`, the word that begins the import. -/
def importItems (first : Token) (tokens : List Token) : Except SyntaxError (List String) :=
  match _hname : dottedName tokens with
  | none => .error (refuse (tokens.headD first))
  | some (name, rest) =>
    match _halias : skipAlias rest with
    | .error e => .error e
    | .ok [] => .ok [name]
    | .ok (t :: more) =>
      if t.isOperator "," then (importItems first more).map (name :: ·)
      else .error (refuse t)
termination_by tokens.length
decreasing_by
  have := length_dottedName _hname
  have := length_skipAlias _halias
  simp only [List.length_cons] at this
  omega

/-- An import whose first token, the word `import`, is `first`. -/
def parseImport (first : Token) (rest : List Token) : Except SyntaxError LineForm :=
  (importItems first rest).map .importModules

/-- The number of dots before a module name, and the tokens after them. -/
def leadingDots : List Token → Nat × List Token
  | [] => (0, [])
  | t :: rest =>
    if t.isOperator "." then ((leadingDots rest).1 + 1, (leadingDots rest).2)
    else if t.isOperator "..." then ((leadingDots rest).1 + 3, (leadingDots rest).2)
    else (0, t :: rest)

/-- An import whose first token, the word `from`, is `first`. -/
def parseImportFrom (first : Token) (rest : List Token) : Except SyntaxError LineForm :=
  let (level, rest) := leadingDots rest
  let (module?, rest) :=
    match dottedName rest with
    | some (name, rest) => (some name, rest)
    | none => (none, rest)
  let next := rest.headD first
  if (module?.isNone && level == 0) || !next.isWord "import" then .error (refuse next)
  else .ok (.importFrom module? level)

def semicolonSegments : List Token → List (List Token)
  | [] => [[]]
  | t :: rest =>
    if t.isOperator ";" then [] :: semicolonSegments rest
    else
      match semicolonSegments rest with
      | [] => [[t]]
      | segment :: more => (t :: segment) :: more

/-- The statement whose tokens these are. A block cannot begin here. -/
def lineStatement (first : Token) (rest : List Token) : Except SyntaxError Statement := do
  if first.kind = .name ∧ blockKeywords.contains first.text then throw (refuse first)
  let form ←
    if first.isWord "import" then parseImport first rest
    else if first.isWord "from" then parseImportFrom first rest
    else pure .plain
  return .line form first.position (first :: rest)

/-- The statements between semicolons. Nothing between two semicolons is no statement. -/
def lineStatements (tokens : List Token) : Except SyntaxError (List Statement) :=
  (semicolonSegments tokens).filterMapM fun
    | [] => pure none
    | first :: rest => some <$> lineStatement first rest

def opensBlock : List Token → Bool
  | [] => false
  | first :: rest =>
    first.kind == .name &&
      (blockKeywords.contains first.text ||
        (softBlockKeywords.contains first.text && 2 ≤ rest.length &&
          rest.getLast?.any (·.isOperator ":") &&
          !rest.head?.any fun t => t.isOperator "=" || t.isOperator "."))

/-- Look for the colon that ends a block's header, inside `depth` brackets and after `lambdas`
lambdas whose colons are still to come. It is the first colon outside brackets that belongs to no
lambda; the answer is its index, counted from `index`. -/
def findHeaderColon (index depth lambdas : Nat) : List Token → Option Nat
  | [] => none
  | t :: rest =>
    if t.kind = .operator then
      if t.text = "(" ∨ t.text = "[" ∨ t.text = "\x7b" then
        findHeaderColon (index + 1) (depth + 1) lambdas rest
      else if t.text = ")" ∨ t.text = "]" ∨ t.text = "\x7d" then
        findHeaderColon (index + 1) (depth - 1) lambdas rest
      else if t.text = ":" ∧ depth = 0 then
        if lambdas = 0 then some index else findHeaderColon (index + 1) depth (lambdas - 1) rest
      else findHeaderColon (index + 1) depth lambdas rest
    else if depth = 0 ∧ t.isWord "lambda" then
      findHeaderColon (index + 1) depth (lambdas + 1) rest
    else findHeaderColon (index + 1) depth lambdas rest

/-- The index of the colon that ends the header of a block. -/
def headerColon (tokens : List Token) : Option Nat :=
  findHeaderColon 0 0 0 tokens

inductive LogicalLine
  | statements (statements : List Statement)
  /-- A block header with the place and word it begins with. Its body follows as a block. -/
  | header (keyword : String) (position : Position) (tokens : List Token)

def logicalLine (first : Token) (rest : List Token) : Except SyntaxError LogicalLine := do
  let tokens := first :: rest
  if !opensBlock tokens then
    return .statements (← lineStatements tokens)
  match headerColon tokens with
  | none =>
    -- The missing colon is reported behind the last token of the line.
    let last := rest.getLast?.getD first
    let ending : Position := ⟨last.position.line, last.position.column + last.text.length⟩
    throw ⟨ending, .missingColon⟩
  | some colon =>
    let header := tokens.take colon
    let body := tokens.drop (colon + 1)
    if body.isEmpty then
      return .header first.text first.position header
    else
      return .statements [.block first.text first.position header (← lineStatements body)]

def Token.isInLine (t : Token) : Bool :=
  t.kind != .newline && t.kind != .endMarker

def afterLine (tokens : List Token) : List Token :=
  match tokens.dropWhile Token.isInLine with
  | t :: rest => if t.kind = .newline then rest else t :: rest
  | [] => []

theorem length_afterLine (tokens : List Token) : (afterLine tokens).length ≤ tokens.length := by
  have shorter : (tokens.dropWhile Token.isInLine).length ≤ tokens.length :=
    (List.dropWhile_sublist _).length_le
  unfold afterLine
  split
  · rename_i h
    rw [h, List.length_cons] at shorter
    split
    · omega
    · simpa using shorter
  · simp

/-- A block whose end is not reached yet, with the statements before it, newest first. -/
structure OpenBlock where
  keyword : String
  position : Position
  header : List Token
  before : List Statement

/-- The blocks around the next statement, and the statements before it in the innermost one. -/
structure Nesting where
  blocks : List OpenBlock := []
  /-- The statements of the innermost block, newest first. -/
  statements : List Statement := []

namespace Nesting

def add (s : Nesting) (more : List Statement) : Nesting :=
  { s with statements := more.reverse ++ s.statements }

def enter (s : Nesting) (keyword : String) (position : Position) (header : List Token) : Nesting :=
  ⟨⟨keyword, position, header, s.statements⟩ :: s.blocks, []⟩

def leave (s : Nesting) : Nesting :=
  match s.blocks with
  | [] => s
  | b :: outer => ⟨outer, .block b.keyword b.position b.header s.statements.reverse :: b.before⟩

/-- The statements of the script when all blocks of `blocks` end, of which the innermost holds
`statements`, newest first. -/
def closeAll (statements : List Statement) : List OpenBlock → List Statement
  | [] => statements.reverse
  | b :: outer =>
    closeAll (.block b.keyword b.position b.header statements.reverse :: b.before) outer

end Nesting

/-- The statements of a script of which the tokens before are nested as in `s`. -/
def nest (s : Nesting) (tokens : List Token) : Except SyntaxError (List Statement) :=
  match tokens with
  | [] => .ok (Nesting.closeAll s.statements s.blocks)
  | t :: rest =>
    match t.kind with
    | .endMarker => .ok (Nesting.closeAll s.statements s.blocks)
    | .dedent => nest s.leave rest
    | .newline => nest s rest
    | .indent => .error ⟨t.position, .unexpectedIndent⟩
    | _ =>
      have := length_afterLine rest
      match logicalLine t (rest.takeWhile Token.isInLine) with
      | .error e => .error e
      | .ok (.statements line) => nest (s.add line) (afterLine rest)
      | .ok (.header keyword position header) =>
        -- A header at the end of its line must have a block below it.
        match hbelow : afterLine rest with
        | [] => .error ⟨⟨t.position.line + 1, 0⟩, .missingBlock t.text t.position.line⟩
        | next :: below =>
          if next.kind = .indent then nest (s.enter keyword position header) below
          else .error ⟨next.position, .missingBlock t.text t.position.line⟩
termination_by tokens.length
decreasing_by
  all_goals simp only [List.length_cons]
  all_goals try rw [hbelow, List.length_cons] at this
  all_goals omega

def parse (tokens : List Token) : Except SyntaxError (List Statement) :=
  nest {} tokens

end ScriptSandbox
