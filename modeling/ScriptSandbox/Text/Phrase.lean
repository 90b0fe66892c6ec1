/-!
Phrases in texts.
-/

namespace ScriptSandbox.Text

def occursIn (phrase : List Char) : List Char → Bool
  | [] => phrase.isEmpty
  | c :: rest => phrase.isPrefixOf (c :: rest) || occursIn phrase rest

/-- Whether a phrase in small letters from `a` to `z` stands in a text in which any letters may be
capitals. -/
def mentions (text phrase : String) : Bool :=
  occursIn phrase.toList (text.toList.map Char.toLower)

end ScriptSandbox.Text
