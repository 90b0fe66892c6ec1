import Mathlib.Data.List.TFAE
import Mathlib.Tactic.TFAE
import ScriptSandbox.Proofs.Analysis.ImportPlaces
import ScriptSandbox.Proofs.Sandbox.Paths

/-!
What a report says in several ways. Its verdict, its issues, its sets of names and whether it tells of a
syntax error come from one list of observations or from one error, so each of them can be told from the
others. For the targets of calls this needs that a target is spelled without a doubt: no name has a dot
in it, so the names of a chain can be read back from the target.
-/

namespace ScriptSandbox

/-! ### Targets -/

/-- The names in a target, which dots join. -/
def targetChain (target : String) : List String :=
  (dotted target.toList).map String.ofList

@[simp] theorem dotted_of_no_dot {text : List Char} (h : '.' ∉ text) : dotted text = [text] := by
  induction text with
  | nil => rfl
  | cons c text ih =>
      rw [dotted, if_neg (List.ne_of_not_mem_cons h).symm, ih (List.not_mem_of_not_mem_cons h)]

@[simp] theorem dotted_append_dot {text : List Char} (h : '.' ∉ text) (rest : List Char) :
    dotted (text ++ '.' :: rest) = text :: dotted rest := by
  induction text with
  | nil => simp [dotted]
  | cons c text ih =>
      rw [List.cons_append, dotted, if_neg (List.ne_of_not_mem_cons h).symm,
        ih (List.not_mem_of_not_mem_cons h)]

theorem targetChain_dottedChain {chain : List String} (hne : chain ≠ [])
    (h : ∀ name ∈ chain, '.' ∉ name.toList) : targetChain (dottedChain chain) = chain := by
  induction chain with
  | nil => exact absurd rfl hne
  | cons first rest ih =>
      obtain ⟨hfirst, hrest⟩ := List.forall_mem_cons.1 h
      cases rest with
      | nil => simp [targetChain, dottedChain, dotted_of_no_dot hfirst]
      | cons second rest =>
          have htail := ih (by simp) hrest
          rw [targetChain, dottedChain] at htail ⊢
          rw [String.intercalate_cons_cons, String.toList_append, String.toList_append,
            List.append_assoc, show ".".toList = ['.'] from rfl, List.singleton_append,
            dotted_append_dot hfirst, List.map_cons, String.ofList_toList, htail]

example : targetChain "os.path.join" = ["os", "path", "join"] := by decide +kernel

/-- A call is of some names without dots, which its target spells. -/
def Observation.Spelled : Observation → Prop
  | call chain _ => chain ≠ [] ∧ ∀ name ∈ chain, '.' ∉ name.toList
  | _ => True

theorem spelled_of_mem_tokensObservations {inField : Field → List Observation} {tokens : List Token}
    (hnames : ∀ t ∈ tokens, t.kind = .name → '.' ∉ t.text.toList)
    (hfields : ∀ f, ∀ o ∈ inField f, o.Spelled) :
    ∀ o ∈ tokensObservations inField [] tokens, o.Spelled := by
  refine forall_mem_tokensObservations trivial (fun _ _ _ => trivial)
    (fun first rest hspec => ⟨by simp, fun name hname => ?_⟩) fun _ _ f _ => hfields f
  obtain ⟨t, ht, rfl⟩ := List.mem_map.1 hname
  obtain ⟨hmem, hkind⟩ := hspec t ht
  exact hnames t hmem hkind

theorem spelled_of_mem_fieldObservations (depth : Nat) (f : Field) :
    ∀ o ∈ fieldObservations depth f, o.Spelled := by
  induction depth generalizing f with
  | zero => simp [fieldObservations]
  | succ depth ih =>
      refine spelled_of_mem_tokensObservations (fun t ht hname => ?_) ih
      rcases mem_tokenizeFragment ht with hkind | ⟨l, hl, htoken⟩
      · rw [hname] at hkind
        cases hkind
      · exact (Lexeme.lexed_split true f.position f.source.toList).dot_not_mem_of_name hl htoken hname

theorem LineForm.spelled_of_mem {form : LineForm} {position : Position} {o : Observation}
    (h : o ∈ form.observations position) : o.Spelled := by
  rcases LineForm.cases_of_mem h with ⟨root, rfl, -⟩ | ⟨rfl, -⟩
  · trivial
  · trivial

theorem Script.spelled_of_mem {source : String} {tokens : List Token} {statements : List Statement}
    (h : Script source tokens statements) :
    ∀ o ∈ blockObservations 0 statements, o.Spelled := by
  have hown {s : Statement} (hs : s ∈ flattenAll statements) :
      ∀ o ∈ observeTokens s.tokens, o.Spelled := by
    obtain ⟨before, after, heq, -⟩ := h.tokens_eq_of_mem hs
    refine spelled_of_mem_tokensObservations (fun t ht hname => ?_)
      fun f => spelled_of_mem_fieldObservations _ f
    exact dot_not_mem_of_name h.tokenize_eq (by simp [heq, ht]) hname
  intro o ho
  rcases cases_of_mem_blockObservations ho with hblock | rfl | ⟨form, position, line, -, ho⟩ | ⟨s, hs, ho⟩
  · cases o with
    | block => trivial
    | _ => cases hblock
  · trivial
  · exact LineForm.spelled_of_mem ho
  · exact hown hs o ho

/-! ### Reports -/

/-- A report on a script hangs together. -/
structure Report.Coherent (p : Policy) (source : String) (r : Report) : Prop where
  /-- These are ways to say that the script may run. -/
  safe : [r.isSafe = true, r.verdict ≠ .dangerous, ∀ i ∈ r.issues, i.isCritical = false,
    r.blockingIssue? = none, r.rejection? = none].TFAE
  clean : r.verdict = .safe ↔ r.issues = []
  forbidden : ∀ root, root ∈ r.forbiddenImports ↔ root ∈ r.imports ∧ p.allowsModule root = false
  dangerous : ∀ target, target ∈ r.dangerousCalls ↔
    target ∈ r.functionCalls ∧ (p.blockedCall (targetChain target)).isSome = true
  malformed : r.isSyntaxError = true ↔ (∃ e, tokenize source = .error e) ∨
    ∃ tokens e, tokenize source = .ok tokens ∧ parse tokens = .error e
  /-- There is nothing but the error to tell of a script without a tree. -/
  alone : r.isSyntaxError = true → (∃ i, r.issues = [i]) ∧ r.imports = .empty ∧
    r.forbiddenImports = .empty ∧ r.functionCalls = .empty ∧ r.dangerousCalls = .empty
  /-- Warnings are about complexity and come last. -/
  warnings : ∃ critical warnings, r.issues = critical ++ warnings ∧
    (∀ i ∈ critical, i.isCritical = true) ∧
      ∀ i ∈ warnings, i.isCritical = false ∧ i.finding.kind = .complexity

namespace Report

theorem safe_tfae (r : Report) : [r.isSafe = true, r.verdict ≠ .dangerous,
    ∀ i ∈ r.issues, i.isCritical = false, r.blockingIssue? = none, r.rejection? = none].TFAE := by
  tfae_have 1 ↔ 2 := by simp [isSafe]
  tfae_have 1 ↔ 3 := isSafe_iff
  tfae_have 3 ↔ 4 := by simp [blockingIssue?]
  tfae_have 1 ↔ 5 := Sandbox.rejection?_eq_none_iff.symm
  tfae_finish

theorem verdict_eq_safe_iff {r : Report} : r.verdict = .safe ↔ r.issues = [] := by
  unfold verdict
  constructor
  · intro h
    split at h
    · cases h
    split at h
    · exact List.isEmpty_iff.1 (by assumption)
    · cases h
  · intro h
    simp [h]

theorem isSyntaxError_iff {r : Report} :
    r.isSyntaxError = true ↔ ∃ i ∈ r.issues, i.finding.kind = .malformed := by
  simp [isSyntaxError]

end Report

theorem Policy.kind_ne_malformed_of_judge {p : Policy} {o : Observation} {i : Issue}
    (h : p.judge o = some i) : i.finding.kind ≠ .malformed := by
  cases judge_eq_some_iff.1 h with
  | forbiddenImport => simp [Finding.kind]
  | relativeImport => simp [Finding.kind]
  | blockedAttribute => simp [Finding.kind]
  | blockedModule => simp [Finding.kind]
  | forbiddenCall => simp [Finding.kind]

variable {p : Policy} {limits : ComplexityLimits} {source target : String}
  {observations : List Observation}

@[simp] theorem isSyntaxError_report :
    (report p limits source observations).isSyntaxError = false := by
  rw [← Bool.not_eq_true, Report.isSyntaxError_iff]
  rintro ⟨i, hi, hkind⟩
  rcases List.mem_append.1 hi with hi | hi
  · obtain ⟨o, -, hjudge⟩ := List.mem_filterMap.1 hi
    exact Policy.kind_ne_malformed_of_judge hjudge hkind
  · rw [kind_of_mem_complexityIssues hi] at hkind
    cases hkind

theorem targetChain_of_mem_calledChains (h : ∀ o ∈ observations, o.Spelled) {chain : List String}
    (hchain : chain ∈ calledChains observations) : targetChain (dottedChain chain) = chain := by
  obtain ⟨o, ho, hcall⟩ := List.mem_filterMap.1 hchain
  cases o with
  | call other position =>
      cases hcall
      obtain ⟨hne, hnames⟩ := h _ ho
      exact targetChain_dottedChain hne hnames
  | _ => cases hcall

theorem mem_dangerousCalls_iff (h : ∀ o ∈ observations, o.Spelled) :
    target ∈ (report p limits source observations).dangerousCalls ↔
      target ∈ (report p limits source observations).functionCalls ∧
        (p.blockedCall (targetChain target)).isSome = true := by
  simp only [report, NameSet.mem_ofList, List.mem_map, List.mem_filter]
  constructor
  · rintro ⟨chain, ⟨hchain, hblocked⟩, rfl⟩
    refine ⟨⟨chain, hchain, rfl⟩, ?_⟩
    rwa [targetChain_of_mem_calledChains h hchain]
  · rintro ⟨⟨chain, hchain, rfl⟩, hblocked⟩
    rw [targetChain_of_mem_calledChains h hchain] at hblocked
    exact ⟨chain, ⟨hchain, hblocked⟩, rfl⟩

theorem Script.coherent_report {tokens : List Token} {statements : List Statement}
    (h : Script source tokens statements) (p : Policy) (limits : ComplexityLimits) :
    (report p limits source (blockObservations 0 statements)).Coherent p source where
  safe := Report.safe_tfae _
  clean := Report.verdict_eq_safe_iff
  forbidden root := by simp [report]
  dangerous target := mem_dangerousCalls_iff h.spelled_of_mem
  malformed := by
    rw [isSyntaxError_report]
    simp [h.tokenize_eq, h.parse_eq]
  alone herror := by
    rw [isSyntaxError_report] at herror
    cases herror
  warnings := by
    refine ⟨_, _, rfl, fun i hi => ?_, fun i hi =>
      ⟨isCritical_of_mem_complexityIssues hi, kind_of_mem_complexityIssues hi⟩⟩
    obtain ⟨o, -, hjudge⟩ := List.mem_filterMap.1 hi
    exact Policy.isCritical_of_judge hjudge

theorem coherent_ofSyntaxError {e : SyntaxError} (h : observe source = .error e) (p : Policy) :
    (Report.ofSyntaxError source e).Coherent p source where
  safe := Report.safe_tfae _
  clean := Report.verdict_eq_safe_iff
  forbidden root := by simp [Report.ofSyntaxError]
  dangerous target := by simp [Report.ofSyntaxError]
  malformed := by
    refine iff_of_true rfl ?_
    unfold observe at h
    cases htokenize : tokenize source with
    | error e => exact .inl ⟨e, rfl⟩
    | ok tokens =>
        cases hparse : parse tokens with
        | error e => exact .inr ⟨tokens, e, rfl, hparse⟩
        | ok statements => simp [htokenize, hparse, bind, Except.bind, pure, Except.pure] at h
  alone _ := ⟨⟨_, rfl⟩, rfl, rfl, rfl, rfl⟩
  warnings := ⟨_, [], (List.append_nil _).symm, by simp [Report.ofSyntaxError, Issue.isCritical,
    Finding.isCritical, Finding.kind], by simp⟩

/-- Every report hangs together, for every policy, all thresholds and every script. -/
theorem coherent_analyze (p : Policy) (limits : ComplexityLimits) (source : String) :
    (analyze p limits source).Coherent p source := by
  cases hobserve : observe source with
  | error e =>
      have hreport : analyze p limits source = .ofSyntaxError source e := by
        simp [analyze, hobserve]
      exact hreport ▸ coherent_ofSyntaxError hobserve p
  | ok observations =>
      obtain ⟨tokens, statements, htokenize, hparse, -⟩ := observe_eq_ok.1 hobserve
      rw [analyze_of_parse htokenize hparse]
      exact Script.coherent_report ⟨htokenize, hparse⟩ p limits

end ScriptSandbox
