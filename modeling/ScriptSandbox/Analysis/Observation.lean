import ScriptSandbox.Source.Layout
import ScriptSandbox.Source.Statement
import ScriptSandbox.Policy.Module

/-!
What can be noticed in a script without a policy: its imports, the names it mentions, the calls it
makes and how its blocks nest. Observations are in the order of the text. The expressions inside
formatted strings are observed like the rest of the script.
-/

namespace ScriptSandbox

/-- Something that a script does, with the place where it says so. -/
inductive Observation
  /-- A module is imported; known by its root. -/
  | importOf (root : String) (position : Position)
  | relativeImport (position : Position)
  /-- A block stands inside others; with itself they are `depth` blocks. -/
  | block (depth : Nat) (position : Position)
  /-- The flow of control can go two ways. -/
  | branch
  | name (text : String) (position : Position)
  /-- The target at the end of a chain of names is called. -/
  | call (chain : List String) (position : Position)
deriving DecidableEq

def branchKeywords : List String :=
  ["if", "elif", "for", "while", "except", "and", "or"]

/-- The longest chain of names joined by dots at the end of some tokens, which are given from the
last to the first. The answer is the chain in the order of the text, and the tokens before it,
again from the last to the first. -/
def dottedTail : List Token → List Token × List Token
  | [] => ([], [])
  | [name] => ([name], [])
  | [name, dot] => ([name], [dot])
  | name :: dot :: inner :: outer =>
    if dot.isOperator "." && inner.isIdentifier then
      let found := dottedTail (inner :: outer)
      (found.1 ++ [name], found.2)
    else ([name], dot :: inner :: outer)

/-- The names of the target that a parenthesis calls, given the tokens before the parenthesis from
the last to the first. There is none after something else than a name, and none where a function
or class is being defined. -/
def callChain (before : List Token) : Option (List Token) :=
  if before.head?.any Token.isIdentifier then
    let (chain, outer) := dottedTail before
    if outer.head?.any fun t => t.isWord "def" || t.isWord "class" then none else some chain
  else none

/-- What a single token shows, given what a replacement field shows and the tokens before, from
the last to the first. -/
def tokenObservations (inField : Field → List Observation) (before : List Token) (t : Token) :
    List Observation :=
  match t.kind with
  | .string fields => fields.flatMap inField
  | .name =>
    if branchKeywords.contains t.text then [.branch] else [.name t.text t.position]
  | .operator =>
    -- A parenthesis calls what stands before it, if that is a chain of names.
    if t.text = "(" then
      match callChain before with
      | some chain => [.call (chain.map Token.text) ((chain.head?.getD t).position)]
      | none => []
    else []
  | _ => []

/-- What some tokens show after the tokens `before`, which go from the last to the first. -/
def tokensObservations (inField : Field → List Observation) (before : List Token) :
    List Token → List Observation
  | [] => []
  | t :: rest =>
    tokenObservations inField before t ++ tokensObservations inField (t :: before) rest

/-- What a replacement field shows, down to fields inside `depth` fields. -/
def fieldObservations : Nat → Field → List Observation
  | 0, _ => []
  | depth + 1, f =>
    tokensObservations (fieldObservations depth) [] (tokenizeFragment f.source f.position)

/-- What the tokens of a statement show. A field is shorter than the field that it stands in, so
the length of a field bounds how deep fields stand in it. -/
def observeTokens (tokens : List Token) : List Observation :=
  tokensObservations (fun f => fieldObservations f.source.length f) [] tokens

def LineForm.observations (p : Position) : LineForm → List Observation
  | .importModules modules => modules.map fun path => .importOf (moduleRoot path) p
  | .importFrom module? level =>
    if 0 < level then [.relativeImport p]
    else module?.toList.map fun path => .importOf (moduleRoot path) p
  | .plain => []

/-- Whether the tokens of a line are looked at. The names in an `import` are module names and
aliases, and the form of the line says all about them. -/
def LineForm.showsTokens : LineForm → Bool
  | .importModules _ => false
  | _ => true

mutual

/-- What a statement inside `depth` blocks shows. -/
def Statement.observations (depth : Nat) : Statement → List Observation
  | .line form p tokens =>
    form.observations p ++ (if form.showsTokens then observeTokens tokens else [])
  | .block keyword p header body =>
    (if keyword = "case" then [.branch] else []) ++ .block (depth + 1) p ::
      (observeTokens header ++ blockObservations (depth + 1) body)

/-- What the statements inside `depth` blocks show. -/
def blockObservations (depth : Nat) : List Statement → List Observation
  | [] => []
  | s :: rest => s.observations depth ++ blockObservations depth rest

end

end ScriptSandbox
