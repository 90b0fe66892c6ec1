import ScriptSandbox.Analysis.Report
import ScriptSandbox.Json.Value

/-!
Reports as JSON values.
-/

namespace ScriptSandbox

def Verdict.label : Verdict → String
  | safe => "SAFE"
  | warning => "WARNING"
  | dangerous => "DANGEROUS"

def Issue.toJson (i : Issue) : Json :=
  .object <|
    [("kind", .string i.finding.kind.label),
      ("severity", .string (if i.isCritical then "critical" else "warning")),
      ("line", .ofNat i.position.line),
      ("column", .ofNat i.position.column),
      ("message", .string i.finding.message)] ++
    i.finding.suggestion?.toList.map fun s => ("suggestion", .string s)

def Complexity.toJson (c : Complexity) : Json :=
  .object
    [("lines_of_code", .ofNat c.linesOfCode),
      ("cyclomatic_complexity", .ofNat c.cyclomatic),
      ("nesting_depth", .ofNat c.nestingDepth)]

def Report.members (r : Report) : List (String × Json) :=
  [("status", .string r.verdict.label),
    ("is_safe", .bool r.isSafe),
    ("issues", .array (r.issues.map Issue.toJson)),
    ("imports", .ofStrings r.imports.toList),
    ("forbidden_imports", .ofStrings r.forbiddenImports.toList),
    ("function_calls", .ofStrings r.functionCalls.toList),
    ("dangerous_calls", .ofStrings r.dangerousCalls.toList),
    ("complexity", r.complexity.toJson)]

def Report.toJson (r : Report) : Json :=
  .object r.members

end ScriptSandbox
