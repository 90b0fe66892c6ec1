import ScriptSandbox.Source.SyntaxError
import ScriptSandbox.Source.Token
import ScriptSandbox.Text.Word

/-!
The lexemes of a script: the pieces that its text falls into before lines and blocks are looked
at. Lexemes cover the whole text, blanks and comments included, so nothing of a script is lost
between them.

A text that is not a script of its own, such as the expression in a formatted string, is read
leniently: what begins no token is passed over.
-/

namespace ScriptSandbox

inductive LexemeKind
  | blank
  | comment
  | lineBreak
  | continuation
  | name
  | number
  | string (fields : List Field)
  | operator
  /-- A character that begins nothing, passed over by a lenient reading. -/
  | stray
  /-- The rest of a text that has no lexemes. -/
  | broken (problem : SyntaxProblem)
deriving DecidableEq

/-- A piece of a script, with the place of its first character. -/
structure Lexeme where
  kind : LexemeKind
  text : List Char
  position : Position

/-- The operators, longer ones before those they begin with. -/
def operators : List (List Char) :=
  ["**=", "//=", ">>=", "<<=", "...", "->", ":=", "==", "!=", "<=", ">=", "**", "//", "<<",
    ">>", "+=", "-=", "*=", "/=", "%=", "&=", "|=", "^=", "@=", "+", "-", "*", "/", "%", "@",
    "&", "|", "^", "~", "<", ">", ",", ":", ".", ";", "=", "(", ")", "[", "]", "\x7b",
    "\x7d"].map String.toList

/-- The words that may stand directly before a string, in lower case. -/
def stringPrefixes : List (List Char) :=
  ["r", "u", "b", "f", "br", "rb", "fr", "rf"].map String.toList

namespace Lexeme

/-- Whether a character separates tokens inside a line. -/
def isGap (c : Char) : Bool :=
  c == ' ' || c == '\t' || c == '\x0c'

def isLineEnd (c : Char) : Bool :=
  c == '\n' || c == '\r'

def isQuote (c : Char) : Bool :=
  c == '"' || c == '\''

def isOpening (c : Char) : Bool :=
  c == '(' || c == '[' || c == '\x7b'

def isClosing (c : Char) : Bool :=
  c == ')' || c == ']' || c == '\x7d'

/-- How many characters go on a number after the character `previous` of it. A sign belongs to
the number after the letter of an exponent, which a hexadecimal number does not have. -/
def numberLength (hexadecimal : Bool) (previous : Char) : List Char → Nat
  | [] => 0
  | c :: rest =>
    if c.isAlphanum || c == '_' || c == '.' then
      numberLength hexadecimal c rest + 1
    else if (c == '+' || c == '-') && !hexadecimal && (previous == 'e' || previous == 'E') then
      numberLength hexadecimal c rest + 1
    else 0

/-- What delimits a string: a quote, written once or three times. -/
structure Delimiter where
  quote : Char
  triple : Bool

def Delimiter.length (d : Delimiter) : Nat :=
  if d.triple then 3 else 1

def Delimiter.begins (d : Delimiter) (text : List Char) : Bool :=
  (List.replicate d.length d.quote).isPrefixOf text

/-- Whether a character ends the line that a string on one line has to close in. -/
def Delimiter.stops (d : Delimiter) (c : Char) : Bool :=
  isLineEnd c && !d.triple

/-- The length of a replacement field that goes on inside `depth` brackets, of which `n`
characters are read, and whether its closing bracket was found. The end of the string ends the
field as well. -/
def fieldExtent (d : Delimiter) (depth n : Nat) : List Char → Nat × Bool
  | [] => (n, false)
  | c :: rest =>
    if d.begins (c :: rest) || d.stops c then (n, false)
    else if isOpening c then fieldExtent d (depth + 1) (n + 1) rest
    else if isClosing c then
      if depth ≤ 1 then (n, true) else fieldExtent d (depth - 1) (n + 1) rest
    else fieldExtent d depth (n + 1) rest

/-- How many characters a string has up to its end, delimiter included, and its replacement
fields. Of the string `n` characters are read; the next one stands at `p`. -/
def stringExtent (d : Delimiter) (formatted : Bool) (p : Position) (n : Nat)
    (fields : List Field) : List Char → Option (Nat × List Field)
  | [] => none
  | c :: rest =>
    if c = '\\' then
      match rest with
      | [] => none
      | e :: rest => stringExtent d formatted ((p.next c).next e) (n + 2) fields rest
    else if d.stops c then none
    else if d.begins (c :: rest) then some (n + d.length, fields.reverse)
    else if formatted && c == '\x7b' then
      -- Two braces stand for one and open no field.
      if rest.head? = some '\x7b' then
        stringExtent d formatted ((p.next c).after (rest.take 1)) (n + 2) fields (rest.drop 1)
      else
        let (length, closed) := fieldExtent d 1 0 rest
        let read := if closed then length + 1 else length
        let field := ⟨String.ofList (rest.take length), p.next c⟩
        stringExtent d formatted ((p.next c).after (rest.take read)) (n + 1 + read)
          (field :: fields) (rest.drop read)
    else stringExtent d formatted (p.next c) (n + 1) fields rest
termination_by text => text.length
decreasing_by all_goals simp_wf; try omega

/-! What a field does at its next character, and what a string does, branch by branch. -/

section FieldBranches

variable {d : Delimiter} {depth n : Nat} {c : Char} {rest : List Char}

@[simp] theorem fieldExtent_nil : fieldExtent d depth n [] = (n, false) := rfl

@[simp] theorem fieldExtent_ends (hends : (d.begins (c :: rest) || d.stops c) = true) :
    fieldExtent d depth n (c :: rest) = (n, false) := by
  rw [fieldExtent, if_pos hends]

variable (hgoes : ¬ (d.begins (c :: rest) || d.stops c) = true)
include hgoes

@[simp] theorem fieldExtent_opening (hopening : isOpening c = true) :
    fieldExtent d depth n (c :: rest) = fieldExtent d (depth + 1) (n + 1) rest := by
  rw [fieldExtent, if_neg hgoes, if_pos hopening]

variable (hopening : ¬ isOpening c = true)
include hopening

@[simp] theorem fieldExtent_closing (hclosing : isClosing c = true) :
    fieldExtent d depth n (c :: rest) =
      if depth ≤ 1 then (n, true) else fieldExtent d (depth - 1) (n + 1) rest := by
  rw [fieldExtent, if_neg hgoes, if_neg hopening, if_pos hclosing]

@[simp] theorem fieldExtent_plain (hclosing : ¬ isClosing c = true) :
    fieldExtent d depth n (c :: rest) = fieldExtent d depth (n + 1) rest := by
  rw [fieldExtent, if_neg hgoes, if_neg hopening, if_neg hclosing]

end FieldBranches

section Branches

variable {d : Delimiter} {formatted : Bool} {p : Position} {n : Nat} {fields : List Field}
  {c : Char} {rest : List Char}

@[simp] theorem stringExtent_nil : stringExtent d formatted p n fields [] = none := by
  rw [stringExtent]

@[simp] theorem stringExtent_backslash : stringExtent d formatted p n fields ['\\'] = none := by
  rw [stringExtent, if_pos rfl]

@[simp] theorem stringExtent_hidden (e : Char) (rest : List Char) :
    stringExtent d formatted p n fields ('\\' :: e :: rest) =
      stringExtent d formatted ((p.next '\\').next e) (n + 2) fields rest := by
  rw [stringExtent, if_pos rfl]

@[simp] theorem stringExtent_stops (hslash : c ≠ '\\') (hstops : d.stops c = true) :
    stringExtent d formatted p n fields (c :: rest) = none := by
  rw [stringExtent.eq_def]
  simp [hslash, hstops]

section Goes

variable (hslash : c ≠ '\\') (hstops : ¬ d.stops c = true)
include hslash hstops

@[simp] theorem stringExtent_begins (hbegins : d.begins (c :: rest) = true) :
    stringExtent d formatted p n fields (c :: rest) = some (n + d.length, fields.reverse) := by
  rw [stringExtent.eq_def]
  simp [hslash, hstops, hbegins]

variable (hbegins : ¬ d.begins (c :: rest) = true)
include hbegins

theorem stringExtent_doubled (hopens : (formatted && c == '\x7b') = true)
    (hhead : rest.head? = some '\x7b') :
    stringExtent d formatted p n fields (c :: rest) =
      stringExtent d formatted ((p.next c).after (rest.take 1)) (n + 2) fields (rest.drop 1) := by
  rw [stringExtent.eq_def]
  simp [hslash, hstops, hbegins, hopens, hhead]

/-- A brace opens a field, and behind the field the string goes on. -/
theorem stringExtent_field {length : Nat} {closed : Bool} (hopens : (formatted && c == '\x7b') = true)
    (hhead : ¬ rest.head? = some '\x7b') (hextent : fieldExtent d 1 0 rest = (length, closed)) :
    stringExtent d formatted p n fields (c :: rest) =
      stringExtent d formatted
        ((p.next c).after (rest.take (if closed then length + 1 else length)))
        (n + 1 + if closed then length + 1 else length)
        (⟨String.ofList (rest.take length), p.next c⟩ :: fields)
        (rest.drop (if closed then length + 1 else length)) := by
  rw [stringExtent.eq_def]
  simp [hslash, hstops, hbegins, hopens, hhead, hextent]

@[simp] theorem stringExtent_plain (hopens : ¬ (formatted && c == '\x7b') = true) :
    stringExtent d formatted p n fields (c :: rest) =
      stringExtent d formatted (p.next c) (n + 1) fields rest := by
  rw [stringExtent.eq_def]
  simp only [hslash, hstops, hbegins, hopens, if_false, Bool.false_eq_true]

end Goes

end Branches

/-- The kind of a string and how many characters it has after its opening quote, which stands
at `p` and is followed by `text`. -/
def stringKind (quote : Char) (formatted : Bool) (p : Position) (text : List Char) :
    LexemeKind × Nat :=
  let d : Delimiter := ⟨quote, [quote, quote].isPrefixOf text⟩
  let opening := d.length - 1
  match stringExtent d formatted ((p.next quote).after (text.take opening)) opening []
      (text.drop opening) with
  | some (length, fields) => (.string fields, length)
  | none => (.broken (.unterminatedString d.triple), text.length)

/-- The kind of the lexeme that a text begins with, and how many characters it has after the
first. The first character is `c` and stands at `p`. -/
def classify (lenient : Bool) (p : Position) (c : Char) (rest : List Char) : LexemeKind × Nat :=
  if isGap c then (.blank, (rest.takeWhile isGap).length)
  else if c = '#' then (.comment, (rest.takeWhile fun d => !isLineEnd d).length)
  else if c = '\n' then (.lineBreak, 0)
  else if c = '\r' then (.lineBreak, if rest.head? = some '\n' then 1 else 0)
  else if c = '\\' then
    match rest with
    | '\n' :: _ => (.continuation, 1)
    | '\r' :: '\n' :: _ => (.continuation, 2)
    | '\r' :: _ => (.continuation, 1)
    | _ => if lenient then (.stray, 0) else (.broken .strayBackslash, rest.length)
  else if isQuote c then stringKind c false p rest
  else if c.isDigit || (c == '.' && (rest.head?.any Char.isDigit)) then
    let hexadecimal := c == '0' && (rest.head? == some 'x' || rest.head? == some 'X')
    (.number, numberLength hexadecimal c rest)
  else if Text.isWordStart c then
    let length := (rest.takeWhile Text.isWordPart).length
    let word := (c :: rest.take length).map Char.toLower
    match rest.drop length with
    | quote :: text =>
      -- The word may be the prefix of a string, which is one lexeme with it.
      if isQuote quote && stringPrefixes.contains word then
        let (kind, n) := stringKind quote (word.contains 'f') (p.after (c :: rest.take length)) text
        (kind, length + 1 + n)
      else (.name, length)
    | [] => (.name, length)
  else
    -- The first operator that fits is the longest one, as the longer ones come first.
    match operators.find? (·.isPrefixOf (c :: rest)) with
    | some operator => (.operator, operator.length - 1)
    | none => if lenient then (.stray, 0) else (.broken (.invalidCharacter c), rest.length)

/-- The lexemes of a text whose first character stands at `p`, after the ones in `read`, which
are newest first. -/
def split (lenient : Bool) (p : Position) (read : List Lexeme) : List Char → List Lexeme
  | [] => read.reverse
  | c :: rest =>
    let found := classify lenient p c rest
    let text := c :: rest.take found.2
    split lenient (p.after text) (⟨found.1, text, p⟩ :: read) (rest.drop found.2)
termination_by text => text.length
decreasing_by
  simp only [List.length_drop, List.length_cons]
  omega

theorem split_eq (lenient : Bool) (p : Position) (read : List Lexeme) (text : List Char) :
    split lenient p read text = read.reverse ++ split lenient p [] text := by
  induction h : text.length using Nat.strongRecOn generalizing p read text with
  | ind n ih =>
    cases text with
    | nil => simp [split]
    | cons c rest =>
      have shorter : (rest.drop (classify lenient p c rest).2).length < n := by
        simp only [List.length_cons, List.length_drop] at h ⊢
        omega
      rw [split, ih _ shorter _ _ _ rfl]
      conv => rhs; rw [split]
      rw [ih _ shorter _ [_] _ rfl]
      simp

end Lexeme

end ScriptSandbox
