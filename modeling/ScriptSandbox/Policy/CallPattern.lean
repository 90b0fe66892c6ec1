import ScriptSandbox.Policy.Module

/-!
Patterns for calls. A call is known by the chain of names before its parenthesis, and a pattern
speaks of the last names of the chain: `eval` matches `eval(…)` and `x.eval(…)`, `os.system`
matches `os.system(…)`. The segment `*` matches any name, and a segment that ends in `*` matches
the names that begin like it.
-/

namespace ScriptSandbox

structure CallPattern where
  text : String
deriving DecidableEq

namespace CallPattern

def segments (p : CallPattern) : List String :=
  (dotted p.text.toList).map String.ofList

def segmentMatches (segment name : String) : Bool :=
  let text := segment.toList
  if text.getLast? = some '*' then text.dropLast.isPrefixOf name.toList
  else segment == name

def isBare (p : CallPattern) : Bool :=
  !p.text.toList.contains '.' && !p.text.toList.contains '*'

def matchesChain (p : CallPattern) (chain : List String) : Bool :=
  let segments := p.segments
  segments.length ≤ chain.length &&
    (segments.zip (chain.drop (chain.length - segments.length))).all fun pair =>
      segmentMatches pair.1 pair.2

end CallPattern

end ScriptSandbox
