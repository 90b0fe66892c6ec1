import ScriptSandbox.Source.SyntaxError
import ScriptSandbox.NameSet

/-!
What an analysis finds fault with. An issue is critical, so that the script is not run, or a mere
warning.
-/

namespace ScriptSandbox

/-- The fault found. -/
inductive Finding
  | malformed (problem : SyntaxProblem)
  | relativeImport
  | forbiddenImport (root : String) (allowed : NameSet)
  | forbiddenCall (target pattern : String)
  | blockedAttribute (name : String)
  | blockedModule (name : String)
  | deepNesting (depth limit : Nat)
  | manyBranches (complexity limit : Nat)

inductive IssueKind
  | malformed
  | forbiddenImport
  | forbiddenCall
  | forbiddenAttribute
  | complexity
deriving DecidableEq

def IssueKind.label : IssueKind → String
  | malformed => "syntax"
  | forbiddenImport => "forbidden_import"
  | forbiddenCall => "forbidden_call"
  | forbiddenAttribute => "forbidden_attribute"
  | complexity => "complexity"

namespace Finding

def kind : Finding → IssueKind
  | malformed _ => .malformed
  | relativeImport | forbiddenImport .. => .forbiddenImport
  | forbiddenCall .. => .forbiddenCall
  | blockedAttribute _ | blockedModule _ => .forbiddenAttribute
  | deepNesting .. | manyBranches .. => .complexity

def isCritical (f : Finding) : Bool :=
  f.kind != .complexity

def message : Finding → String
  | malformed problem => s!"syntax error: {problem.message}"
  | relativeImport => "relative imports are not allowed"
  | forbiddenImport root _ => s!"import of module '{root}' is not allowed"
  | forbiddenCall target pattern =>
    if pattern = target then s!"call to '{target}' is not allowed"
    else s!"call to '{target}' is not allowed (matches '{pattern}')"
  | blockedAttribute name => s!"access to '{name}' is not allowed"
  | blockedModule name => s!"reference to module '{name}' is not allowed"
  | deepNesting depth limit => s!"nesting depth {depth} exceeds limit of {limit}"
  | manyBranches complexity limit =>
    s!"cyclomatic complexity {complexity} exceeds limit of {limit}"

def suggestion? : Finding → Option String
  | forbiddenImport _ allowed => some ("Allowed modules: " ++ ", ".intercalate allowed.toList)
  | blockedModule _ => some "Only whitelisted modules may be used"
  | deepNesting .. => some "Move nested logic into helper functions"
  | manyBranches .. => some "Split the code into smaller functions"
  | _ => none

end Finding

structure Issue where
  finding : Finding
  position : Position

def Issue.isCritical (i : Issue) : Bool :=
  i.finding.isCritical

end ScriptSandbox
