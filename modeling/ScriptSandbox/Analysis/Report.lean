import ScriptSandbox.Analysis.Issue
import ScriptSandbox.Analysis.Observation
import ScriptSandbox.Policy
import ScriptSandbox.Source.Tree
import ScriptSandbox.Text.Blank

/-!
The report of an analysis. A script is observed without a policy, and the policy then judges each
observation by itself. Nothing here runs the script. Only uses that the text shows are found:
a name that a script puts together while it runs is not seen.
-/

namespace ScriptSandbox

/-- The thresholds above which a script is called complex. -/
structure ComplexityLimits where
  maxNestingDepth : Nat := 6
  maxCyclomaticComplexity : Nat := 50

/-- How complex a script is. -/
structure Complexity where
  /-- The lines that are neither blank nor only a comment. -/
  linesOfCode : Nat
  /-- One more than the places where control can go two ways. -/
  cyclomatic : Nat
  nestingDepth : Nat
deriving DecidableEq

inductive Verdict
  | safe
  | warning
  | dangerous
deriving DecidableEq

structure Report where
  issues : List Issue
  imports : NameSet
  forbiddenImports : NameSet
  functionCalls : NameSet
  dangerousCalls : NameSet
  complexity : Complexity

namespace Report

/-- The first issue that keeps the script from running. -/
def blockingIssue? (r : Report) : Option Issue :=
  r.issues.find? Issue.isCritical

/-- A critical issue makes a script dangerous, any other issue deserves a warning. -/
def verdict (r : Report) : Verdict :=
  if r.issues.any Issue.isCritical then .dangerous
  else if r.issues.isEmpty then .safe
  else .warning

def isSafe (r : Report) : Bool :=
  r.verdict != .dangerous

def isSyntaxError (r : Report) : Bool :=
  r.issues.any fun i => i.finding.kind == .malformed

end Report

def dottedChain (chain : List String) : String :=
  ".".intercalate chain

def Policy.judge (p : Policy) : Observation → Option Issue
  | .importOf root position =>
    if p.allowsModule root then none else some ⟨.forbiddenImport root p.allowedModules, position⟩
  | .relativeImport position => some ⟨.relativeImport, position⟩
  | .name text position =>
    if p.blocksAttribute text then some ⟨.blockedAttribute text, position⟩
    else if p.blocksModuleName text then some ⟨.blockedModule text, position⟩
    else none
  | .call chain position =>
    (p.blockedCall chain).map fun pattern =>
      ⟨.forbiddenCall (dottedChain chain) pattern.text, position⟩
  | .block .. | .branch => none

/-- The lines of a script that hold more than blanks and a comment. -/
def linesOfCode (source : String) : Nat :=
  (Text.lineTexts source.toList).countP fun line =>
    (line.dropWhile Text.isBlank).head?.any (· != '#')

/-- The deepest block among some observations: how many blocks stand inside one another there, and
where. The first of several counts. Without blocks it is the script itself. -/
def deepestBlock (observations : List Observation) : Nat × Position :=
  observations.foldl
    (fun deepest o =>
      match o with
      | .block depth p => if deepest.1 < depth then (depth, p) else deepest
      | _ => deepest)
    (0, .start)

/-- The ways for control to flow through a script: one, and one more for each branch. -/
def cyclomaticComplexity (observations : List Observation) : Nat :=
  1 + observations.countP (· == .branch)

/-- The warnings about a script that is deeper or has more branches than the thresholds allow. -/
def complexityIssues (limits : ComplexityLimits) (observations : List Observation) : List Issue :=
  let (depth, deepest) := deepestBlock observations
  let complexity := cyclomaticComplexity observations
  (if limits.maxNestingDepth < depth then
    [⟨.deepNesting depth limits.maxNestingDepth, deepest⟩] else []) ++
  (if limits.maxCyclomaticComplexity < complexity then
    [⟨.manyBranches complexity limits.maxCyclomaticComplexity, .start⟩] else [])

def importedRoots (observations : List Observation) : List String :=
  observations.filterMap fun
    | .importOf root _ => some root
    | _ => none

def calledChains (observations : List Observation) : List (List String) :=
  observations.filterMap fun
    | .call chain _ => some chain
    | _ => none

def observe (source : String) : Except SyntaxError (List Observation) := do
  return blockObservations 0 (← parse (← tokenize source))

/-- The report on a script that gives these observations. -/
def report (p : Policy) (limits : ComplexityLimits) (source : String)
    (observations : List Observation) : Report where
  issues := observations.filterMap p.judge ++ complexityIssues limits observations
  imports := .ofList (importedRoots observations)
  forbiddenImports := .ofList ((importedRoots observations).filter fun r => !p.allowsModule r)
  functionCalls := .ofList ((calledChains observations).map dottedChain)
  dangerousCalls :=
    .ofList (((calledChains observations).filter fun c => (p.blockedCall c).isSome).map dottedChain)
  complexity :=
    ⟨linesOfCode source, cyclomaticComplexity observations, (deepestBlock observations).1⟩

def Report.ofSyntaxError (source : String) (e : SyntaxError) : Report where
  issues := [⟨.malformed e.problem, e.position⟩]
  imports := .empty
  forbiddenImports := .empty
  functionCalls := .empty
  dangerousCalls := .empty
  complexity := ⟨linesOfCode source, 0, 0⟩

def analyze (p : Policy) (limits : ComplexityLimits) (source : String) : Report :=
  match observe source with
  | .ok observations => report p limits source observations
  | .error e => .ofSyntaxError source e

end ScriptSandbox
