import ScriptSandbox.Text.Alphabetic
import ScriptSandbox.Text.Numeric

/-!
Words: the texts that can be names in a script. A word begins with an alphabetic character or an
underscore and goes on with alphabetic or numeric characters and underscores.
-/

namespace ScriptSandbox.Text

def isWordStart (c : Char) : Bool :=
  isAlphabetic c || c == '_'

def isWordPart (c : Char) : Bool :=
  isAlphabetic c || isNumeric c || c == '_'

def isWord (text : String) : Bool :=
  match text.toList with
  | [] => false
  | c :: rest => isWordStart c && rest.all isWordPart

theorem isWordPart_of_isWordStart {c : Char} (h : isWordStart c = true) : isWordPart c = true := by
  simp only [isWordStart, Bool.or_eq_true] at h
  simp only [isWordPart, Bool.or_eq_true]
  rcases h with h | h
  · exact .inl (.inl h)
  · exact .inr h

end ScriptSandbox.Text
