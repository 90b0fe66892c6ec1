import ScriptSandbox.Analysis.Report
import ScriptSandbox.Proofs.Except
import ScriptSandbox.Proofs.Source.Pieces

/-!
Safe scripts. A script is safe when it can be observed and its policy objects to no observation;
how complex it is has no part in this. The observations of a tree of statements are those of its
statements one by one, at whatever depth they stand.
-/

namespace ScriptSandbox

namespace Policy

variable {p : Policy}

/-- A policy objects to none of some observations. -/
def Passes (p : Policy) (observations : List Observation) : Prop :=
  ∀ o ∈ observations, p.judge o = none

theorem passes_nil : p.Passes [] := by
  intro o ho
  cases ho

theorem passes_cons {o : Observation} {observations : List Observation} :
    p.Passes (o :: observations) ↔ p.judge o = none ∧ p.Passes observations :=
  List.forall_mem_cons

theorem passes_append {first second : List Observation} :
    p.Passes (first ++ second) ↔ p.Passes first ∧ p.Passes second :=
  List.forall_mem_append

theorem passes_flatMap {α : Type} {f : α → List Observation} {items : List α} :
    p.Passes (items.flatMap f) ↔ ∀ a ∈ items, p.Passes (f a) :=
  List.forall_mem_flatMap

theorem judge_name_eq_none {name : String} {position : Position} :
    p.judge (.name name position) = none ↔
      p.blocksAttribute name = false ∧ p.blocksModuleName name = false := by
  simp only [judge]
  split
  · simp [*]
  · split <;> simp [*]

/-- What a policy objects to, and the issue that it raises. -/
inductive ObjectsTo (p : Policy) : Observation → Issue → Prop
  | forbiddenImport {root position} : p.allowsModule root = false →
      ObjectsTo p (.importOf root position) ⟨.forbiddenImport root p.allowedModules, position⟩
  | relativeImport {position} :
      ObjectsTo p (.relativeImport position) ⟨.relativeImport, position⟩
  | blockedAttribute {name position} : p.blocksAttribute name = true →
      ObjectsTo p (.name name position) ⟨.blockedAttribute name, position⟩
  | blockedModule {name position} : p.blocksAttribute name = false → p.blocksModuleName name = true →
      ObjectsTo p (.name name position) ⟨.blockedModule name, position⟩
  | forbiddenCall {chain position pattern} : p.blockedCall chain = some pattern →
      ObjectsTo p (.call chain position) ⟨.forbiddenCall (dottedChain chain) pattern.text, position⟩

theorem judge_eq_some_iff {o : Observation} {i : Issue} : p.judge o = some i ↔ p.ObjectsTo o i := by
  constructor
  · intro h
    cases o with
    | importOf root position =>
        simp only [judge] at h
        split at h
        · cases h
        · rename_i hroot
          cases h
          exact .forbiddenImport (Bool.eq_false_iff.2 hroot)
    | relativeImport position =>
        cases h
        exact .relativeImport
    | block depth position => cases h
    | branch => cases h
    | name text position =>
        simp only [judge] at h
        split at h
        · rename_i hattribute
          cases h
          exact .blockedAttribute hattribute
        · rename_i hattribute
          split at h
          · rename_i hmodule
            cases h
            exact .blockedModule (Bool.eq_false_iff.2 hattribute) hmodule
          · cases h
    | call chain position =>
        obtain ⟨pattern, hpattern, rfl⟩ := Option.map_eq_some_iff.1 h
        exact .forbiddenCall hpattern
  · intro h
    cases h with
    | forbiddenImport hroot => simp [judge, hroot]
    | relativeImport => rfl
    | blockedAttribute hattribute => simp [judge, hattribute]
    | blockedModule hattribute hmodule => simp [judge, hattribute, hmodule]
    | forbiddenCall hpattern => simp [judge, hpattern]

/-- Whatever a policy objects to keeps a script from running. -/
theorem isCritical_of_judge {o : Observation} {i : Issue} (h : p.judge o = some i) :
    i.isCritical = true := by
  cases judge_eq_some_iff.1 h with
  | forbiddenImport => rfl
  | relativeImport => rfl
  | blockedAttribute => rfl
  | blockedModule => rfl
  | forbiddenCall => rfl

end Policy

theorem kind_of_mem_complexityIssues {limits : ComplexityLimits} {observations : List Observation}
    {i : Issue} (h : i ∈ complexityIssues limits observations) : i.finding.kind = .complexity := by
  rcases List.mem_append.1 h with h | h
  · split at h
    · cases List.mem_singleton.1 h
      rfl
    · cases h
  · split at h
    · cases List.mem_singleton.1 h
      rfl
    · cases h

theorem isCritical_of_mem_complexityIssues {limits : ComplexityLimits}
    {observations : List Observation} {i : Issue}
    (h : i ∈ complexityIssues limits observations) : i.isCritical = false := by
  simp [Issue.isCritical, Finding.isCritical, kind_of_mem_complexityIssues h]

theorem Report.verdict_eq_dangerous_iff {r : Report} :
    r.verdict = .dangerous ↔ ∃ i ∈ r.issues, i.isCritical = true := by
  unfold verdict
  rw [← List.any_eq_true]
  split
  · simp [*]
  · split <;> simp [*]

theorem Report.isSafe_iff {r : Report} :
    r.isSafe = true ↔ ∀ i ∈ r.issues, i.isCritical = false := by
  unfold isSafe
  rw [bne_iff_ne, ne_eq, verdict_eq_dangerous_iff]
  simp

/-- The thresholds of complexity have no part in whether a script is safe. -/
theorem isSafe_report {p : Policy} {limits : ComplexityLimits} {source : String}
    {observations : List Observation} :
    (report p limits source observations).isSafe = true ↔ p.Passes observations := by
  rw [Report.isSafe_iff]
  constructor
  · intro h o ho
    by_contra hjudge
    obtain ⟨i, hi⟩ := Option.ne_none_iff_exists'.1 hjudge
    have hmem : i ∈ observations.filterMap p.judge := List.mem_filterMap.2 ⟨o, ho, hi⟩
    have hharmless := h i (List.mem_append_left _ hmem)
    rw [Policy.isCritical_of_judge hi] at hharmless
    cases hharmless
  · intro h i hi
    rcases List.mem_append.1 hi with hi | hi
    · obtain ⟨o, ho, hjudge⟩ := List.mem_filterMap.1 hi
      rw [h o ho] at hjudge
      cases hjudge
    · exact isCritical_of_mem_complexityIssues hi

theorem observe_eq_ok {source : String} {observations : List Observation} :
    observe source = .ok observations ↔
      ∃ tokens statements, tokenize source = .ok tokens ∧ parse tokens = .ok statements ∧
        blockObservations 0 statements = observations := by
  unfold observe
  simp only [bind_eq_ok, pure_eq_ok]
  constructor
  · rintro ⟨tokens, htokens, statements, hparse, rfl⟩
    exact ⟨tokens, statements, htokens, hparse, rfl⟩
  · rintro ⟨tokens, statements, htokens, hparse, rfl⟩
    exact ⟨tokens, htokens, statements, hparse, rfl⟩

/-- The report on a script is about what its statements show. -/
theorem analyze_of_parse {source : String} {tokens : List Token} {statements : List Statement}
    (htokenize : tokenize source = .ok tokens) (hparse : parse tokens = .ok statements) (p : Policy)
    (limits : ComplexityLimits) :
    analyze p limits source = report p limits source (blockObservations 0 statements) := by
  unfold analyze
  rw [observe_eq_ok.2 ⟨tokens, statements, htokenize, hparse, rfl⟩]

/-- A script is safe when it has a tree whose observations the policy lets pass. -/
theorem isSafe_analyze {p : Policy} {limits : ComplexityLimits} {source : String} :
    (analyze p limits source).isSafe = true ↔
      ∃ tokens statements, tokenize source = .ok tokens ∧ parse tokens = .ok statements ∧
        p.Passes (blockObservations 0 statements) := by
  have hobserved : (analyze p limits source).isSafe = true ↔
      ∃ observations, observe source = .ok observations ∧ p.Passes observations := by
    unfold analyze
    cases observe source with
    | error e =>
        constructor
        · intro h
          cases Report.isSafe_iff.1 h _ (List.mem_singleton.2 rfl)
        · rintro ⟨observations, hobserve, -⟩
          cases hobserve
    | ok observations => simpa using isSafe_report
  rw [hobserved]
  constructor
  · rintro ⟨observations, hobserve, hpasses⟩
    obtain ⟨tokens, statements, htokens, hparse, rfl⟩ := observe_eq_ok.1 hobserve
    exact ⟨tokens, statements, htokens, hparse, hpasses⟩
  · rintro ⟨tokens, statements, htokens, hparse, hpasses⟩
    exact ⟨_, observe_eq_ok.2 ⟨tokens, statements, htokens, hparse, rfl⟩, hpasses⟩

theorem allowsModule_of_isSafe {p : Policy} {limits : ComplexityLimits} {source : String}
    (h : (analyze p limits source).isSafe = true) {root : String}
    (hroot : root ∈ (analyze p limits source).imports) : p.allowsModule root = true := by
  unfold analyze at h hroot
  cases hobserve : observe source with
  | error e =>
      simp only [hobserve] at hroot
      exact absurd hroot NameSet.not_mem_empty
  | ok observations =>
      simp only [hobserve] at h hroot
      obtain ⟨o, ho, himport⟩ := List.mem_filterMap.1 (NameSet.mem_ofList.1 hroot)
      have hjudge := isSafe_report.1 h o ho
      cases o with
      | importOf other position =>
          cases himport
          simp only [Policy.judge] at hjudge
          split at hjudge
          · assumption
          · cases hjudge
      | _ => cases himport

/-! ### Trees -/

def Observation.isBlock : Observation → Bool
  | block .. => true
  | _ => false

theorem Policy.judge_of_isBlock {p : Policy} {o : Observation} (h : o.isBlock = true) :
    p.judge o = none := by
  cases o with
  | block => rfl
  | _ => cases h

def Statement.ownObservations : Statement → List Observation
  | line form p tokens =>
      form.observations p ++ if form.showsTokens then observeTokens tokens else []
  | block keyword _ header _ =>
      (if keyword = "case" then [.branch] else []) ++ observeTokens header

mutual

theorem Statement.mem_observations {o : Observation} (ho : o.isBlock = false) (depth : Nat)
    (s : Statement) : o ∈ s.observations depth ↔ ∃ inner ∈ s.flatten, o ∈ inner.ownObservations := by
  cases s with
  | line form position tokens =>
      simp [Statement.observations, Statement.ownObservations]
  | block keyword position header body =>
      have hblock : o ≠ .block (depth + 1) position := by
        rintro rfl
        cases ho
      have hbody := mem_blockObservations ho (depth + 1) body
      simp [Statement.observations, Statement.ownObservations, hblock, hbody,
        or_assoc]

theorem mem_blockObservations {o : Observation} (ho : o.isBlock = false) (depth : Nat)
    (statements : List Statement) :
    o ∈ blockObservations depth statements ↔
      ∃ s ∈ flattenAll statements, o ∈ s.ownObservations := by
  cases statements with
  | nil => simp [blockObservations]
  | cons s rest =>
      simp only [blockObservations, flattenAll, List.mem_append, or_and_right, exists_or]
      rw [Statement.mem_observations ho depth s, mem_blockObservations ho depth rest]

end

/-- A line of this form imports a module with this root. -/
def LineForm.Imports (root : String) : LineForm → Prop
  | importModules modules => ∃ path ∈ modules, moduleRoot path = root
  | importFrom module? level => level = 0 ∧ ∃ path ∈ module?, moduleRoot path = root
  | plain => False

/-- A line of this form imports from a package that it stands in. -/
def LineForm.IsRelative : LineForm → Prop
  | importFrom _ level => 0 < level
  | _ => False

/-- The form of a line shows what it imports, at the place of the line. -/
theorem LineForm.cases_of_mem {form : LineForm} {position : Position} {o : Observation}
    (h : o ∈ form.observations position) :
    (∃ root, o = .importOf root position ∧ form.Imports root) ∨
      o = .relativeImport position ∧ form.IsRelative := by
  cases form with
  | importModules modules =>
      obtain ⟨path, hpath, rfl⟩ := List.mem_map.1 h
      exact .inl ⟨_, rfl, path, hpath, rfl⟩
  | importFrom module? level =>
      simp only [observations] at h
      split at h
      · rename_i hlevel
        cases List.mem_singleton.1 h
        exact .inr ⟨rfl, hlevel⟩
      · rename_i hlevel
        obtain ⟨path, hpath, rfl⟩ := List.mem_map.1 h
        exact .inl ⟨_, rfl, Nat.eq_zero_of_not_pos hlevel, path, Option.mem_toList.1 hpath, rfl⟩
  | plain => cases h

/-- Whatever a statement shows by itself is a branch, or shown by the form of a line or by its own
tokens. -/
theorem Statement.cases_of_mem {s : Statement} {o : Observation} (h : o ∈ s.ownObservations) :
    o = .branch ∨ (∃ form p tokens, s = .line form p tokens ∧ o ∈ form.observations p) ∨
      o ∈ observeTokens s.tokens := by
  cases s with
  | line form p tokens =>
      rcases List.mem_append.1 h with h | h
      · exact .inr (.inl ⟨form, p, tokens, rfl, h⟩)
      · split at h
        · exact .inr (.inr h)
        · cases h
  | block keyword p header body =>
      rcases List.mem_append.1 h with h | h
      · split at h
        · exact .inl (List.mem_singleton.1 h)
        · cases h
      · exact .inr (.inr h)

/-- Whatever a tree shows is a block or a branch, or shown by the form of a line in it or by the own
tokens of a statement. -/
theorem cases_of_mem_blockObservations {o : Observation} {depth : Nat} {statements : List Statement}
    (h : o ∈ blockObservations depth statements) :
    o.isBlock = true ∨ o = .branch ∨
      (∃ form p tokens, .line form p tokens ∈ flattenAll statements ∧ o ∈ form.observations p) ∨
      ∃ s ∈ flattenAll statements, o ∈ observeTokens s.tokens := by
  cases hblock : o.isBlock with
  | true => exact .inl rfl
  | false =>
      obtain ⟨s, hs, hown⟩ := (mem_blockObservations hblock depth statements).1 h
      rcases s.cases_of_mem hown with hbranch | ⟨form, p, tokens, rfl, hform⟩ | htokens
      · exact .inr (.inl hbranch)
      · exact .inr (.inr (.inl ⟨form, p, tokens, hs, hform⟩))
      · exact .inr (.inr (.inr ⟨s, hs, htokens⟩))

/-- A policy allows what a line of this form imports: nothing relative, and only modules with
allowed roots. -/
def LineForm.ImportsAllowed (p : Policy) : LineForm → Prop
  | importModules modules => ∀ path ∈ modules, p.allowsModule (moduleRoot path) = true
  | importFrom module? level =>
      level = 0 ∧ ∀ path ∈ module?, p.allowsModule (moduleRoot path) = true
  | plain => True

theorem LineForm.passes_observations {p : Policy} {form : LineForm} {position : Position} :
    p.Passes (form.observations position) ↔ form.ImportsAllowed p := by
  have hroot (path : String) : p.judge (.importOf (moduleRoot path) position) = none ↔
      p.allowsModule (moduleRoot path) = true := by
    simp [Policy.judge]
  cases form with
  | importModules modules => simp [observations, Policy.Passes, ImportsAllowed, hroot]
  | importFrom module? level =>
      by_cases hlevel : 0 < level
      · have hne : level ≠ 0 := Nat.ne_of_gt hlevel
        simp [observations, Policy.Passes, ImportsAllowed, Policy.judge, hlevel, hne]
      · have hzero : level = 0 := Nat.eq_zero_of_not_pos hlevel
        simp [observations, Policy.Passes, ImportsAllowed, hroot, hzero]
  | plain => simp [observations, ImportsAllowed, Policy.passes_nil]

namespace Statement

/-- A policy allows what a statement by itself imports. -/
def ImportsAllowed (p : Policy) : Statement → Prop
  | line form _ _ => form.ImportsAllowed p
  | block .. => True

/-- Whether the own tokens of a statement are looked at. -/
def showsTokens : Statement → Bool
  | line form _ _ => form.showsTokens
  | block .. => true

/-- A policy lets a statement pass, whatever stands in its body. -/
def Passes (p : Policy) (s : Statement) : Prop :=
  s.ImportsAllowed p ∧ (s.showsTokens = true → p.Passes (observeTokens s.tokens))

theorem passes_ownObservations {p : Policy} {s : Statement} :
    p.Passes s.ownObservations ↔ s.Passes p := by
  cases s with
  | line form position tokens =>
      rw [ownObservations, Policy.passes_append, LineForm.passes_observations]
      cases hshows : form.showsTokens with
      | true => simp [Passes, ImportsAllowed, showsTokens, hshows]
      | false => simp [Passes, ImportsAllowed, showsTokens, hshows, Policy.passes_nil]
  | block keyword position header body =>
      have hcase : p.Passes (if keyword = "case" then [.branch] else []) := by
        intro o ho
        split at ho
        · cases List.mem_singleton.1 ho
          rfl
        · cases ho
      rw [ownObservations, Policy.passes_append]
      simp [Passes, ImportsAllowed, showsTokens, hcase]

end Statement

theorem passes_blockObservations {p : Policy} {depth : Nat} {statements : List Statement} :
    p.Passes (blockObservations depth statements) ↔ ∀ s ∈ flattenAll statements, s.Passes p := by
  simp only [← Statement.passes_ownObservations]
  -- The depths of blocks are observed in the tree only, and no policy objects to them.
  constructor
  · intro h s hs o ho
    cases hblock : o.isBlock with
    | true => exact Policy.judge_of_isBlock hblock
    | false => exact h o ((mem_blockObservations hblock depth statements).2 ⟨s, hs, ho⟩)
  · intro h o ho
    cases hblock : o.isBlock with
    | true => exact Policy.judge_of_isBlock hblock
    | false =>
        obtain ⟨s, hs, hown⟩ := (mem_blockObservations hblock depth statements).1 ho
        exact h s hs o hown

end ScriptSandbox
