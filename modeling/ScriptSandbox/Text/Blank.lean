/-!
Blank text and lines. A blank character is one with the Unicode property White_Space, and a line
ends at a line feed, a carriage return before it included.
-/

namespace ScriptSandbox.Text

def isBlank (c : Char) : Bool :=
  let n := c.toNat
  (9 ≤ n && n ≤ 13) || n == 0x20 || n == 0x85 || n == 0xA0 || n == 0x1680 ||
    (0x2000 ≤ n && n ≤ 0x200A) || n == 0x2028 || n == 0x2029 || n == 0x202F || n == 0x205F ||
    n == 0x3000

def isAllBlank (text : String) : Bool :=
  text.toList.all isBlank

/-- A text cut at its line feeds. The piece after the last line feed is left out when it is
empty, so a final line feed ends the last line and begins none. -/
def lineTexts (text : List Char) : List (List Char) :=
  go [] [] text
where
  /-- `line` and `lines` hold what was read, newest first. -/
  go (lines : List (List Char)) (line : List Char) : List Char → List (List Char)
    | [] => (if line.isEmpty then lines else line.reverse :: lines).reverse
    | c :: rest =>
      if c = '\n' then go (line.reverse :: lines) [] rest else go lines (c :: line) rest

end ScriptSandbox.Text
