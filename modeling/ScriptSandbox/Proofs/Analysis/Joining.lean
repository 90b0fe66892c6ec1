import ScriptSandbox.Proofs.Analysis.CallChains
import ScriptSandbox.Proofs.Analysis.Verdict
import ScriptSandbox.Proofs.Source.Joining

/-!
The report on one script behind another. What is observed in a statement is the same wherever it
stands, as many lines further down, so the report on both scripts puts together the reports on each:
sets are united, counts are added, and the deeper nesting counts.
-/

namespace ScriptSandbox

/-! ### Observations further down -/

def Observation.down (k : Nat) : Observation → Observation
  | .importOf root p => .importOf root (p.down k)
  | .relativeImport p => .relativeImport (p.down k)
  | .block depth p => .block depth (p.down k)
  | .branch => .branch
  | .name text p => .name text (p.down k)
  | .call chain p => .call chain (p.down k)

section Down

variable {k : Nat}

theorem tokenObservations_down {inField : Field → List Observation}
    (hfields : ∀ f, inField (f.down k) = (inField f).map (Observation.down k)) (before : List Token)
    (t : Token) : tokenObservations inField (before.map (Token.down k)) (t.down k) =
      (tokenObservations inField before t).map (Observation.down k) := by
  unfold tokenObservations
  rw [Token.kind_down, Token.text_down]
  cases t.kind with
  | string fields =>
      simp only [TokenKind.down, List.map_flatMap, List.flatMap_map, hfields]
  | name =>
      dsimp only [TokenKind.down]
      split <;> rfl
  | operator =>
      dsimp only [TokenKind.down]
      split
      · rw [show callChain (before.map (Token.down k)) =
          (callChain before).map (List.map (Token.down k)) from (TokenChange.down k).callChain_map before]
        cases callChain before with
        | none => rfl
        | some chain => cases chain <;> simp [Observation.down, Function.comp_def]
      · rfl
  | _ => rfl

theorem tokensObservations_down {inField : Field → List Observation}
    (hfields : ∀ f, inField (f.down k) = (inField f).map (Observation.down k))
    (before tokens : List Token) :
    tokensObservations inField (before.map (Token.down k)) (tokens.map (Token.down k)) =
      (tokensObservations inField before tokens).map (Observation.down k) := by
  induction tokens generalizing before with
  | nil => rfl
  | cons t rest ih =>
      rw [List.map_cons, tokensObservations, tokenObservations_down hfields, ← List.map_cons, ih,
        tokensObservations, List.map_append]

@[simp] theorem fieldObservations_down (depth : Nat) (f : Field) :
    fieldObservations depth (f.down k) = (fieldObservations depth f).map (Observation.down k) := by
  induction depth generalizing f with
  | zero => rfl
  | succ depth ih =>
      have htokens := tokensObservations_down ih [] (tokenizeFragment f.source f.position)
      rw [← tokenizeFragment_down] at htokens
      exact htokens

@[simp] theorem observeTokens_down (tokens : List Token) :
    observeTokens (tokens.map (Token.down k)) = (observeTokens tokens).map (Observation.down k) :=
  tokensObservations_down (fun f => fieldObservations_down f.source.length f) [] tokens

@[simp] theorem LineForm.observations_down (form : LineForm) (p : Position) :
    form.observations (p.down k) = (form.observations p).map (Observation.down k) := by
  cases form with
  | importModules modules => simp [observations, Observation.down]
  | importFrom module? level =>
      simp only [observations]
      split
      · rfl
      · cases module? <;> rfl
  | plain => rfl

mutual

@[simp] theorem Statement.observations_down (depth : Nat) (s : Statement) :
    (s.down k).observations depth = (s.observations depth).map (Observation.down k) := by
  cases s with
  | line form p tokens =>
      rw [Statement.down, Statement.observations, Statement.observations, List.map_append,
        LineForm.observations_down, observeTokens_down]
      split <;> rfl
  | block keyword p header body =>
      rw [Statement.down, Statement.observations, Statement.observations, observeTokens_down,
        blockObservations_down (depth + 1) body]
      split <;> simp [Observation.down]

@[simp] theorem blockObservations_down (depth : Nat) (statements : List Statement) :
    blockObservations depth (statements.map (Statement.down k)) =
      (blockObservations depth statements).map (Observation.down k) := by
  cases statements with
  | nil => rfl
  | cons s rest =>
      rw [List.map_cons, blockObservations, blockObservations, List.map_append,
        Statement.observations_down depth s, blockObservations_down depth rest]

end

end Down

@[simp] theorem blockObservations_append (depth : Nat) (statements others : List Statement) :
    blockObservations depth (statements ++ others) =
      blockObservations depth statements ++ blockObservations depth others := by
  induction statements with
  | nil => simp [blockObservations]
  | cons s rest ih => rw [List.cons_append, blockObservations, blockObservations, ih, List.append_assoc]

/-! ### Parts of a report -/

def Issue.down (k : Nat) (i : Issue) : Issue :=
  ⟨i.finding, i.position.down k⟩

@[simp] theorem Policy.judge_down (p : Policy) (k : Nat) (o : Observation) :
    p.judge (o.down k) = (p.judge o).map (Issue.down k) := by
  cases o with
  | importOf root position =>
      simp only [Observation.down, judge]
      split <;> rfl
  | relativeImport position => rfl
  | block depth position => rfl
  | branch => rfl
  | name text position =>
      simp only [Observation.down, judge]
      split
      · rfl
      · split <;> rfl
  | call chain position =>
      simp only [Observation.down, judge, Option.map_map]
      rfl

@[simp] theorem filter_isCritical_issues (p : Policy) (limits : ComplexityLimits) (source : String)
    (observations : List Observation) :
    (report p limits source observations).issues.filter Issue.isCritical =
      observations.filterMap p.judge := by
  have hcritical : (observations.filterMap p.judge).filter Issue.isCritical =
      observations.filterMap p.judge := by
    refine List.filter_eq_self.2 fun i hi => ?_
    obtain ⟨o, -, hjudge⟩ := List.mem_filterMap.1 hi
    exact Policy.isCritical_of_judge hjudge
  have hwarning : (complexityIssues limits observations).filter Issue.isCritical = [] := by
    refine List.filter_eq_nil_iff.2 fun i hi => ?_
    simp [isCritical_of_mem_complexityIssues hi]
  rw [report, List.filter_append, hcritical, hwarning, List.append_nil]

def Observation.blockDepth : Observation → Nat
  | .block depth _ => depth
  | _ => 0

theorem deepestBlock_eq (observations : List Observation) :
    (deepestBlock observations).1 = (observations.map Observation.blockDepth).foldr max 0 := by
  have hfold (deepest : Nat × Position) :
      (observations.foldl
        (fun deepest o =>
          match o with
          | .block depth p => if deepest.1 < depth then (depth, p) else deepest
          | _ => deepest)
        deepest).1 = max deepest.1 ((observations.map Observation.blockDepth).foldr max 0) := by
    induction observations generalizing deepest with
    | nil => simp
    | cons o rest ih =>
        rw [List.foldl_cons, ih, List.map_cons, List.foldr_cons, ← Nat.max_assoc]
        congr 1
        cases o with
        | block depth p =>
            dsimp only [Observation.blockDepth]
            split <;> simp <;> omega
        | _ => simp [Observation.blockDepth]
  exact (hfold (0, .start)).trans (Nat.zero_max _)

theorem foldr_max_append (first second : List Nat) :
    (first ++ second).foldr max 0 = max (first.foldr max 0) (second.foldr max 0) := by
  induction first with
  | nil => simp
  | cons n rest ih => rw [List.cons_append, List.foldr_cons, List.foldr_cons, ih, Nat.max_assoc]

section Parts

variable (first second : List Observation) (k : Nat)

theorem filterMap_judge_append (p : Policy) :
    (first ++ second.map (Observation.down k)).filterMap p.judge =
      first.filterMap p.judge ++ (second.filterMap p.judge).map (Issue.down k) := by
  have hjudge : p.judge ∘ Observation.down k = fun o => (p.judge o).map (Issue.down k) :=
    funext (p.judge_down k)
  rw [List.filterMap_append, List.filterMap_map, hjudge, List.map_filterMap]

@[simp] theorem importedRoots_append : importedRoots (first ++ second.map (Observation.down k)) =
    importedRoots first ++ importedRoots second := by
  unfold importedRoots
  rw [List.filterMap_append, List.filterMap_map]
  congr 2
  funext o
  cases o <;> rfl

@[simp] theorem calledChains_append : calledChains (first ++ second.map (Observation.down k)) =
    calledChains first ++ calledChains second := by
  unfold calledChains
  rw [List.filterMap_append, List.filterMap_map]
  congr 2
  funext o
  cases o <;> rfl

@[simp] theorem cyclomaticComplexity_append :
    cyclomaticComplexity (first ++ second.map (Observation.down k)) =
      cyclomaticComplexity first + cyclomaticComplexity second - 1 := by
  have hbranch : (fun o : Observation => o == .branch) ∘ Observation.down k = (· == .branch) := by
    funext o
    cases o <;> rfl
  unfold cyclomaticComplexity
  rw [List.countP_append, List.countP_map, hbranch]
  omega

@[simp] theorem deepestBlock_append : (deepestBlock (first ++ second.map (Observation.down k))).1 =
    max (deepestBlock first).1 (deepestBlock second).1 := by
  have hdepth : Observation.blockDepth ∘ Observation.down k = Observation.blockDepth := by
    funext o
    cases o <;> rfl
  rw [deepestBlock_eq, deepestBlock_eq, deepestBlock_eq, List.map_append, List.map_map, hdepth,
    foldr_max_append]

end Parts

theorem lineTexts_go_eq (lines : List (List Char)) (line text : List Char) :
    Text.lineTexts.go lines line text = lines.reverse ++ Text.lineTexts.go [] line text := by
  induction text generalizing lines line with
  | nil =>
      unfold Text.lineTexts.go
      split <;> simp
  | cons c rest ih =>
      unfold Text.lineTexts.go
      split
      · rw [ih, ih [line.reverse]]
        simp
      · exact ih lines (c :: line)

theorem lineTexts_go_append {lines : List (List Char)} {line text : List Char}
    (htext : EndsInFeed text) (hline : text = [] → line = []) (more : List Char) :
    Text.lineTexts.go lines line (text ++ more) =
      Text.lineTexts.go lines line text ++ Text.lineTexts more := by
  induction text generalizing lines line with
  | nil =>
      rw [hline rfl, List.nil_append, lineTexts_go_eq]
      simp [Text.lineTexts.go, Text.lineTexts]
  | cons c rest ih =>
      rw [List.cons_append, Text.lineTexts.go, Text.lineTexts.go]
      split
      · exact ih htext.tail fun _ => rfl
      · rename_i hc
        exact ih htext.tail fun hnil => absurd hnil (List.ne_nil_of_mem (htext.mem_tail hc))

theorem linesOfCode_append {first : String} (h : EndsLine first.toList) (second : String) :
    linesOfCode (first ++ second) = linesOfCode first + linesOfCode second := by
  unfold linesOfCode Text.lineTexts
  rw [String.toList_append, lineTexts_go_append h.endsInFeed (fun _ => rfl), List.countP_append]
  rfl

/-! ### The report on both scripts -/

/-- The report `both` puts together two reports, of which the second is about a script `k` lines
further down. -/
structure Report.Joins (k : Nat) (first second both : Report) : Prop where
  imports : ∀ root, root ∈ both.imports ↔ root ∈ first.imports ∨ root ∈ second.imports
  forbiddenImports : ∀ root, root ∈ both.forbiddenImports ↔
    root ∈ first.forbiddenImports ∨ root ∈ second.forbiddenImports
  functionCalls : ∀ target, target ∈ both.functionCalls ↔
    target ∈ first.functionCalls ∨ target ∈ second.functionCalls
  dangerousCalls : ∀ target, target ∈ both.dangerousCalls ↔
    target ∈ first.dangerousCalls ∨ target ∈ second.dangerousCalls
  linesOfCode : both.complexity.linesOfCode =
    first.complexity.linesOfCode + second.complexity.linesOfCode
  cyclomatic : both.complexity.cyclomatic =
    first.complexity.cyclomatic + second.complexity.cyclomatic - 1
  nestingDepth : both.complexity.nestingDepth =
    max first.complexity.nestingDepth second.complexity.nestingDepth
  criticalIssues : both.issues.filter Issue.isCritical =
    first.issues.filter Issue.isCritical ++
      (second.issues.filter Issue.isCritical).map (Issue.down k)
  isSafe : both.isSafe = true ↔ first.isSafe = true ∧ second.isSafe = true

theorem Report.isSafe_iff_filter {r : Report} :
    r.isSafe = true ↔ r.issues.filter Issue.isCritical = [] := by
  rw [isSafe_iff, List.filter_eq_nil_iff]
  simp

theorem report_append (p : Policy) (limits : ComplexityLimits) {first : String}
    (hline : EndsLine first.toList) (second : String) (observations others : List Observation)
    (k : Nat) :
    Report.Joins k (report p limits first observations) (report p limits second others)
      (report p limits (first ++ second) (observations ++ others.map (Observation.down k))) := by
  have hcritical : (report p limits (first ++ second) (observations ++
      others.map (Observation.down k))).issues.filter Issue.isCritical =
        (report p limits first observations).issues.filter Issue.isCritical ++
          ((report p limits second others).issues.filter Issue.isCritical).map (Issue.down k) := by
    simp only [filter_isCritical_issues, filterMap_judge_append]
  have hroots := importedRoots_append observations others k
  have hchains := calledChains_append observations others k
  refine
    { imports := fun root => ?_
      forbiddenImports := fun root => ?_
      functionCalls := fun target => ?_
      dangerousCalls := fun target => ?_
      linesOfCode := linesOfCode_append hline second
      cyclomatic := cyclomaticComplexity_append observations others k
      nestingDepth := deepestBlock_append observations others k
      criticalIssues := hcritical
      isSafe := ?_ }
  · simp only [report, hroots, NameSet.mem_ofList, List.mem_append]
  · simp only [report, hroots, List.filter_append, NameSet.mem_ofList, List.mem_append]
  · simp only [report, hchains, List.map_append, NameSet.mem_ofList, List.mem_append]
  · simp only [report, hchains, List.filter_append, List.map_append, NameSet.mem_ofList,
      List.mem_append]
  · rw [Report.isSafe_iff_filter, hcritical, List.append_eq_nil_iff, List.map_eq_nil_iff,
      Report.isSafe_iff_filter, Report.isSafe_iff_filter]

/-- Behind a script that ends its last line another script is analyzed as it is by itself. Both
together are accepted when each of them is, and their report puts together the reports on each. -/
theorem analyze_append (p : Policy) (limits : ComplexityLimits) {first second : String}
    (hfirst : ∃ tokens statements, tokenize first = .ok tokens ∧ parse tokens = .ok statements)
    (hsecond : ∃ tokens statements, tokenize second = .ok tokens ∧ parse tokens = .ok statements)
    (hline : EndsLine first.toList) :
    (∃ tokens statements, tokenize (first ++ second) = .ok tokens ∧ parse tokens = .ok statements) ∧
      Report.Joins (first.toList.count '\n') (analyze p limits first) (analyze p limits second)
        (analyze p limits (first ++ second)) := by
  obtain ⟨tokens, statements, htokenize, hparse⟩ := hfirst
  obtain ⟨more, others, htokenize', hparse'⟩ := hsecond
  have hscript : Script first tokens statements := ⟨htokenize, hparse⟩
  obtain ⟨joined, hboth⟩ := hscript.append ⟨htokenize', hparse'⟩ hline
  refine ⟨⟨joined, _, hboth.tokenize_eq, hboth.parse_eq⟩, ?_⟩
  rw [analyze_of_parse htokenize hparse, analyze_of_parse htokenize' hparse',
    analyze_of_parse hboth.tokenize_eq hboth.parse_eq, blockObservations_append,
    blockObservations_down]
  exact report_append p limits hline second _ _ _

/-- The second script ends the block that the first one leaves open, behind an indented comment. -/
theorem analyze_append_open_block :
    let first := "if x:\n  eval(y)\n"
    let second := " # z\nimport os\nf'\x7bexec(1)\x7d'"
    (∃ tokens statements, tokenize first = .ok tokens ∧ parse tokens = .ok statements) ∧
    (∃ tokens statements, tokenize second = .ok tokens ∧ parse tokens = .ok statements) ∧
    EndsLine first.toList ∧
    (∃ tokens statements, tokenize (first ++ second) = .ok tokens ∧ parse tokens = .ok statements) ∧
    Report.Joins 2 (analyze (.ofTables {}) {} first) (analyze (.ofTables {}) {} second)
      (analyze (.ofTables {}) {} (first ++ second)) := by
  intro first second
  have haccepted {source : String} (h : (observe source).isOk = true) :
      ∃ tokens statements, tokenize source = .ok tokens ∧ parse tokens = .ok statements := by
    obtain ⟨_, hobserve⟩ := exists_of_isOk h
    obtain ⟨tokens, statements, htokenize, hparse, -⟩ := observe_eq_ok.1 hobserve
    exact ⟨tokens, statements, htokenize, hparse⟩
  have hfirst := haccepted (show (observe first).isOk = true by decide +kernel)
  have hsecond := haccepted (show (observe second).isOk = true by decide +kernel)
  have hlast : "if x:\n  eval(y)".toList.getLast? = some ')' := by decide
  have hline : EndsLine first.toList := by
    refine .inr ⟨"if x:\n  eval(y)".toList, by decide, ?_⟩
    rw [hlast]
    rintro c ⟨⟩
    decide
  have hcount : first.toList.count '\n' = 2 := by decide
  have hjoins := analyze_append (.ofTables {}) {} hfirst hsecond hline
  rw [hcount] at hjoins
  exact ⟨hfirst, hsecond, hline, hjoins⟩

end ScriptSandbox
