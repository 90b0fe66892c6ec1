/-!
Modules that a script can import, named by dotted paths. What a policy says about a module it says
about its root, the part before the first dot.
-/

namespace ScriptSandbox

def dotted (text : List Char) : List (List Char) :=
  match text with
  | [] => [[]]
  | c :: rest =>
    if c = '.' then [] :: dotted rest
    else
      match dotted rest with
      | [] => [[c]]
      | piece :: more => (c :: piece) :: more

def moduleRoot (path : String) : String :=
  String.ofList (path.toList.takeWhile (· != '.'))

/-- A module bound to a name before a script runs. -/
structure Preload where
  name : String
  module : String
deriving DecidableEq

def Preload.root (p : Preload) : String :=
  moduleRoot p.module

end ScriptSandbox
