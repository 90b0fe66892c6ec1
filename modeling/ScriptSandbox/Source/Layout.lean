import ScriptSandbox.Source.Lexeme

/-!
Tokens from lexemes. Reading a script line by line, `Layout` keeps the indentations of the open
blocks and the open brackets, and decides where layout tokens stand. Inside brackets neither line
breaks nor indentation count, and a line without tokens leaves no trace.

`tokenize` reads a whole script. `tokenizeFragment` reads an expression that stands inside one:
it has no layout, and a fragment without lexemes has no tokens either.
-/

namespace ScriptSandbox

/-- A bracket that waits for its closing counterpart. -/
structure OpenBracket where
  opening : Char
  position : Position

/-- The state between two lexemes. -/
structure Layout where
  /-- The indentations of the open blocks, innermost first. The outermost block has none. -/
  indents : List Nat := []
  brackets : List OpenBracket := []
  /-- At the start of a logical line, the indentation measured so far. -/
  lineStart : Option Nat := some 0
  newest : Option TokenKind := none

namespace Layout

/-- The width of an indentation that begins with `width` columns and goes on with `text`. A tab
goes to the next multiple of eight, and a form feed starts anew. -/
def indentWidth (width : Nat) (text : List Char) : Nat :=
  text.foldl (fun w c => if c = ' ' then w + 1 else if c = '\t' then (w / 8 + 1) * 8 else 0) width

def closing (opening : Char) : Char :=
  if opening = '(' then ')' else if opening = '[' then ']' else '\x7d'

/-- Turn the indentation of a line that begins at `p` into layout tokens. -/
def settle (s : Layout) (p : Position) : Except SyntaxError (List Token × Layout) :=
  match s.lineStart with
  | none => .ok ([], s)
  | some width =>
    if s.indents.headD 0 < width then
      .ok ([⟨.indent, "", ⟨p.line, 0⟩⟩],
        { s with indents := width :: s.indents, lineStart := none, newest := some .indent })
    else
      -- Deeper blocks end here, and the line has to stand as deep as one that goes on.
      let closed := s.indents.takeWhile (width < ·)
      let kept := s.indents.dropWhile (width < ·)
      if kept.headD 0 = width then
        .ok (closed.map fun _ => ⟨.dedent, "", p⟩,
          { s with
            indents := kept, lineStart := none,
            newest := if closed.isEmpty then s.newest else some .dedent })
      else .error ⟨p, .unindent⟩

def turnBracket (s : Layout) (t : Token) : Except SyntaxError Layout :=
  match t.text.toList with
  | [c] =>
    if Lexeme.isOpening c then
      .ok { s with brackets := ⟨c, t.position⟩ :: s.brackets }
    else if Lexeme.isClosing c then
      match s.brackets with
      | [] => .error ⟨t.position, .unmatchedBracket c⟩
      | innermost :: outer =>
        if closing innermost.opening = c then .ok { s with brackets := outer }
        else .error ⟨t.position, .mismatchedBracket c innermost.opening⟩
    else .ok s
  | _ => .ok s

def take (s : Layout) (t : Token) : Except SyntaxError (List Token × Layout) := do
  let (tokens, s) ← s.settle t.position
  let s ← if t.kind = .operator then s.turnBracket t else pure s
  return (tokens ++ [t], { s with newest := some t.kind })

/-- Take a line break at `p`. -/
def breakLine (s : Layout) (p : Position) : List Token × Layout :=
  if s.lineStart.isSome then ([], { s with lineStart := some 0 })
  else if s.brackets.isEmpty then
    match s.newest with
    -- A line without tokens ends nothing.
    | none | some .newline | some .indent | some .dedent => ([], { s with lineStart := some 0 })
    | _ => ([⟨.newline, "\n", p⟩], { s with lineStart := some 0, newest := some .newline })
  else ([], s)

/-- Take one lexeme: the tokens it gives and the state after it. -/
def step (s : Layout) (l : Lexeme) : Except SyntaxError (List Token × Layout) :=
  let token (kind : TokenKind) : Token := ⟨kind, String.ofList l.text, l.position⟩
  match l.kind with
  | .blank => .ok ([], { s with lineStart := s.lineStart.map (indentWidth · l.text) })
  | .comment => .ok ([], s)
  | .lineBreak => .ok (s.breakLine l.position)
  | .continuation | .stray => s.settle l.position
  | .name => s.take (token .name)
  | .number => s.take (token .number)
  | .string fields => s.take (token (.string fields))
  | .operator => s.take (token .operator)
  | .broken problem => do
    let _ ← s.settle l.position
    .error ⟨l.position, problem⟩

/-- End the script at `p`: the last line and all blocks are closed. -/
def finish (s : Layout) (p : Position) : Except SyntaxError (List Token) :=
  match s.brackets.getLast? with
  | some outermost => .error ⟨outermost.position, .neverClosed outermost.opening⟩
  | none =>
    let newline : List Token :=
      match s.newest with
      | none | some .newline | some .dedent => []
      | _ => [⟨.newline, "\n", p⟩]
    .ok (newline ++ s.indents.map (fun _ => ⟨.dedent, "", ⟨p.line, 0⟩⟩) ++ [⟨.endMarker, "", p⟩])

/-- The tokens of the lexemes that follow, up to the end of the script at `p`. The tokens before
are in `tokens`, newest first. -/
def run (p : Position) (tokens : List Token) (s : Layout) :
    List Lexeme → Except SyntaxError (List Token)
  | [] => do return tokens.reverse ++ (← s.finish p)
  | l :: rest => do
    let (more, s) ← s.step l
    run p (more.reverse ++ tokens) s rest

end Layout

def tokenize (source : String) : Except SyntaxError (List Token) :=
  let text := source.toList
  Layout.run (Position.start.after text) [] {} (Lexeme.split false .start [] text)

def Lexeme.token? (l : Lexeme) : Option Token :=
  let token (kind : TokenKind) : Token := ⟨kind, String.ofList l.text, l.position⟩
  match l.kind with
  | .name => some (token .name)
  | .number => some (token .number)
  | .string fields => some (token (.string fields))
  | .operator => some (token .operator)
  | _ => none

/-- The tokens of an expression that stands at `p` inside a script. -/
def tokenizeFragment (source : String) (p : Position) : List Token :=
  let text := source.toList
  let lexemes := Lexeme.split true p [] text
  let broken := lexemes.any fun l => match l.kind with | .broken _ => true | _ => false
  if broken then []
  else lexemes.filterMap Lexeme.token? ++ [⟨.endMarker, "", p.after text⟩]

end ScriptSandbox
