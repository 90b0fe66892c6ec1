import ScriptSandbox.Proofs.Analysis.Fields
import ScriptSandbox.Proofs.Analysis.Joining
import ScriptSandbox.Proofs.Source.BlockDepths
import ScriptSandbox.Proofs.Source.Closings
import ScriptSandbox.Proofs.Source.StatementOrder

/-!
The nesting depth that a report tells. It is the greatest number of blocks around a place of the script,
which the layout tokens tell up to one, and the warning about it stands at the first block that is as
deep.
-/

namespace ScriptSandbox

/-! ### Enclosed statements -/

/-- Around a statement there are `n` blocks, of which the outermost is one of some statements. -/
inductive EnclosedIn : Nat → List Statement → Statement → Prop
  | outermost {statements s} : s ∈ statements → EnclosedIn 0 statements s
  | inside {n statements keyword p header body s} :
      .block keyword p header body ∈ statements → EnclosedIn n body s →
      EnclosedIn (n + 1) statements s

theorem EnclosedIn.mono {n : Nat} {statements others : List Statement} {s : Statement}
    (h : EnclosedIn n statements s) (hsubset : statements ⊆ others) : EnclosedIn n others s := by
  cases h with
  | outermost hmem => exact .outermost (hsubset hmem)
  | inside hmem hinner => exact .inside (hsubset hmem) hinner

mutual

/-- A statement that stands `depth` deep and all statements inside it, in the order of the text, each
with its depth. -/
def Statement.placed (depth : Nat) : Statement → List (Nat × Statement)
  | .line form p tokens => [(depth, .line form p tokens)]
  | .block keyword p header body =>
    (depth, .block keyword p header body) :: placedAll (depth + 1) body

def placedAll (depth : Nat) : List Statement → List (Nat × Statement)
  | [] => []
  | s :: rest => s.placed depth ++ placedAll depth rest

end

mutual

theorem enclosedIn_of_mem_placed {depth n : Nat} {s u : Statement} (h : (n, u) ∈ s.placed depth) :
    ∃ k, n = depth + k ∧ EnclosedIn k [s] u := by
  cases s with
  | line form p tokens =>
      rw [Statement.placed, List.mem_singleton] at h
      cases h
      exact ⟨0, rfl, .outermost (List.mem_singleton_self _)⟩
  | block keyword p header body =>
      rw [Statement.placed] at h
      rcases List.mem_cons.1 h with heq | h
      · cases heq
        exact ⟨0, rfl, .outermost (List.mem_singleton_self _)⟩
      · obtain ⟨k, rfl, hinner⟩ := enclosedIn_of_mem_placedAll h
        exact ⟨k + 1, by omega, .inside (List.mem_singleton_self _) hinner⟩

theorem enclosedIn_of_mem_placedAll {depth n : Nat} {statements : List Statement} {u : Statement}
    (h : (n, u) ∈ placedAll depth statements) :
    ∃ k, n = depth + k ∧ EnclosedIn k statements u := by
  cases statements with
  | nil => cases h
  | cons s rest =>
      rw [placedAll] at h
      rcases List.mem_append.1 h with h | h
      · obtain ⟨k, hk, hfirst⟩ := enclosedIn_of_mem_placed h
        exact ⟨k, hk, hfirst.mono (by simp)⟩
      · obtain ⟨k, hk, hrest⟩ := enclosedIn_of_mem_placedAll h
        exact ⟨k, hk, hrest.mono (List.subset_cons_self s rest)⟩

end

theorem placed_subset_placedAll {s : Statement} {statements : List Statement} (h : s ∈ statements)
    (depth : Nat) : s.placed depth ⊆ placedAll depth statements := by
  induction statements with
  | nil => cases h
  | cons first rest ih =>
      rw [placedAll]
      rcases List.mem_cons.1 h with rfl | h
      · exact List.subset_append_left _ _
      · exact fun item hitem => List.mem_append_right _ (ih h hitem)

theorem EnclosedIn.mem_placedAll {n : Nat} {statements : List Statement} {s : Statement}
    (h : EnclosedIn n statements s) (depth : Nat) : (depth + n, s) ∈ placedAll depth statements := by
  induction h generalizing depth with
  | @outermost statements s hmem =>
      apply placed_subset_placedAll hmem
      cases s with
      | line => simp [Statement.placed]
      | block => simp [Statement.placed]
  | @inside n statements keyword p header body s hmem _ ih =>
      apply placed_subset_placedAll hmem
      have hinner := ih (depth + 1)
      rw [Nat.add_assoc, Nat.add_comm 1] at hinner
      exact List.mem_cons_of_mem _ hinner

theorem mem_placedAll_iff {n : Nat} {statements : List Statement} {s : Statement} :
    (n, s) ∈ placedAll 0 statements ↔ EnclosedIn n statements s := by
  constructor
  · intro h
    obtain ⟨k, rfl, hencloses⟩ := enclosedIn_of_mem_placedAll h
    rwa [Nat.zero_add]
  · intro h
    simpa using h.mem_placedAll 0

mutual

@[simp] theorem Statement.map_position_placed (depth : Nat) (s : Statement) :
    (s.placed depth).map (fun item => item.2.position) = s.flatten.map Statement.position := by
  cases s with
  | line => rfl
  | block keyword p header body =>
      rw [Statement.placed, Statement.flatten, List.map_cons, List.map_cons,
        map_position_placedAll (depth + 1) body]
      rfl

@[simp] theorem map_position_placedAll (depth : Nat) (statements : List Statement) :
    (placedAll depth statements).map (fun item => item.2.position) =
      (flattenAll statements).map Statement.position := by
  cases statements with
  | nil => rfl
  | cons s rest =>
      rw [placedAll, flattenAll, List.map_append, List.map_append, s.map_position_placed depth,
        map_position_placedAll depth rest]

end

mutual

theorem Statement.reach_le_iff (depth bound : Nat) (s : Statement) :
    s.reach depth ≤ bound ↔
      depth ≤ bound ∧ ∀ item ∈ s.placed depth, item.2.isBlock = true → item.1 < bound := by
  cases s with
  | line form p tokens => simp [Statement.reach, Statement.placed, Statement.isBlock]
  | block keyword p header body =>
      rw [Statement.reach, reachAll_le_iff (depth + 1) bound body, Statement.placed,
        List.forall_mem_cons]
      simp only [Statement.isBlock, forall_const]
      constructor
      · rintro ⟨hdepth, hbody⟩
        exact ⟨Nat.le_of_lt hdepth, hdepth, hbody⟩
      · rintro ⟨-, hdepth, hbody⟩
        exact ⟨hdepth, hbody⟩

theorem reachAll_le_iff (depth bound : Nat) (statements : List Statement) :
    reachAll depth statements ≤ bound ↔
      depth ≤ bound ∧
        ∀ item ∈ placedAll depth statements, item.2.isBlock = true → item.1 < bound := by
  cases statements with
  | nil => simp [reachAll, placedAll]
  | cons s rest =>
      rw [reachAll, placedAll, List.forall_mem_append, Nat.max_le, s.reach_le_iff depth bound,
        reachAll_le_iff depth bound rest]
      constructor
      · rintro ⟨⟨hdepth, hs⟩, -, hrest⟩
        exact ⟨hdepth, hs, hrest⟩
      · rintro ⟨hdepth, hs, hrest⟩
        exact ⟨⟨hdepth, hs⟩, hdepth, hrest⟩

end

/-! ### Observed blocks -/

/-- What is observed of the depth of a statement that stands in `n` blocks. -/
def depthObservation? (item : Nat × Statement) : Option Observation :=
  if item.2.isBlock then some (.block (item.1 + 1) item.2.position) else none

theorem isBlock_of_mem_tokensObservations {inField : Field → List Observation}
    (hfields : ∀ f, ∀ o ∈ inField f, o.isBlock = false) (tokens : List Token) :
    ∀ o ∈ tokensObservations inField [] tokens, o.isBlock = false :=
  forall_mem_tokensObservations rfl (fun _ _ _ => rfl) (fun _ _ _ => rfl) fun _ _ f _ => hfields f

theorem isBlock_of_mem_fieldObservations (depth : Nat) (f : Field) :
    ∀ o ∈ fieldObservations depth f, o.isBlock = false := by
  induction depth generalizing f with
  | zero => simp [fieldObservations]
  | succ depth ih => exact isBlock_of_mem_tokensObservations ih _

@[simp] theorem filter_isBlock_observeTokens (tokens : List Token) :
    (observeTokens tokens).filter Observation.isBlock = [] := by
  refine List.filter_eq_nil_iff.2 fun o ho => ?_
  have hnone := isBlock_of_mem_tokensObservations
    (fun f => isBlock_of_mem_fieldObservations f.source.length f) tokens o ho
  simp [hnone]

@[simp] theorem LineForm.filter_isBlock_observations (form : LineForm) (p : Position) :
    (form.observations p).filter Observation.isBlock = [] := by
  cases form with
  | importModules modules => simp [observations, Observation.isBlock]
  | importFrom module? level =>
      simp only [observations]
      split
      · rfl
      · cases module? <;> rfl
  | plain => rfl

mutual

@[simp] theorem Statement.filter_isBlock_observations (depth : Nat) (s : Statement) :
    (s.observations depth).filter Observation.isBlock =
      (s.placed depth).filterMap depthObservation? := by
  cases s with
  | line form p tokens =>
      rw [Statement.observations, List.filter_append, form.filter_isBlock_observations]
      split
      · rw [filter_isBlock_observeTokens]
        rfl
      · rfl
  | block keyword p header body =>
      have hcase : (if keyword = "case" then [Observation.branch] else []).filter
          Observation.isBlock = [] := by
        split <;> rfl
      have hbody := filter_isBlock_blockObservations (depth + 1) body
      rw [Statement.observations, List.filter_append, hcase, List.nil_append,
        List.filter_cons_of_pos rfl, List.filter_append, filter_isBlock_observeTokens,
        List.nil_append, hbody]
      rfl

@[simp] theorem filter_isBlock_blockObservations (depth : Nat) (statements : List Statement) :
    (blockObservations depth statements).filter Observation.isBlock =
      (placedAll depth statements).filterMap depthObservation? := by
  cases statements with
  | nil => rfl
  | cons s rest =>
      rw [blockObservations, placedAll, List.filter_append, List.filterMap_append,
        s.filter_isBlock_observations depth, filter_isBlock_blockObservations depth rest]

end

/-! ### The deepest block -/

theorem deepestBlock_concat (observations : List Observation) (o : Observation) :
    deepestBlock (observations ++ [o]) =
      match o with
      | .block depth p =>
        if (deepestBlock observations).1 < depth then (depth, p) else deepestBlock observations
      | _ => deepestBlock observations := by
  unfold deepestBlock
  refine List.foldl_append.trans ?_
  cases o <;> rfl

theorem deepestBlock_le_iff {observations : List Observation} {bound : Nat} :
    (deepestBlock observations).1 ≤ bound ↔ ∀ o ∈ observations, o.blockDepth ≤ bound := by
  rw [deepestBlock_eq]
  induction observations with
  | nil => simp
  | cons o rest ih => rw [List.map_cons, List.foldr_cons, Nat.max_le, ih, List.forall_mem_cons]

theorem exists_of_deepestBlock {observations : List Observation} {depth : Nat} {p : Position}
    (h : deepestBlock observations = (depth, p)) (hdepth : 0 < depth) :
    ∃ before after, observations = before ++ .block depth p :: after ∧
      ∀ o ∈ before, o.blockDepth < depth := by
  induction observations using List.reverseRecOn with
  | nil =>
      cases h
      cases hdepth
  | append_singleton observations o ih =>
      have later (h : deepestBlock observations = (depth, p)) :
          ∃ before after, observations ++ [o] = before ++ .block depth p :: after ∧
            ∀ o ∈ before, o.blockDepth < depth := by
        obtain ⟨before, after, rfl, hbefore⟩ := ih h
        exact ⟨before, after ++ [o], by simp, hbefore⟩
      rw [deepestBlock_concat] at h
      split at h
      · split at h
        · rename_i hdeeper
          cases h
          exact ⟨observations, [], rfl,
            fun o ho => Nat.lt_of_le_of_lt (deepestBlock_le_iff.1 (Nat.le_refl _) o ho) hdeeper⟩
        · exact later h
      · exact later h

theorem mem_depthObservations {n : Nat} {statements : List Statement} {o : Observation} :
    o ∈ blockObservations n statements ∧ o.isBlock = true ↔
      ∃ item ∈ placedAll n statements, depthObservation? item = some o := by
  rw [← List.mem_filter, filter_isBlock_blockObservations, List.mem_filterMap]

theorem depthObservation?_eq_some {item : Nat × Statement} {o : Observation} :
    depthObservation? item = some o ↔
      item.2.isBlock = true ∧ o = .block (item.1 + 1) item.2.position := by
  unfold depthObservation?
  split
  · rename_i hblock
    simp [hblock, eq_comm]
  · rename_i hblock
    simp [hblock]

/-- The report tells how deep the statements reach. -/
theorem deepestBlock_eq_reachAll (statements : List Statement) :
    (deepestBlock (blockObservations 0 statements)).1 = reachAll 0 statements := by
  apply eq_of_forall_ge_iff
  intro bound
  rw [deepestBlock_le_iff, reachAll_le_iff]
  constructor
  · intro h
    refine ⟨Nat.zero_le _, fun item hitem hblock => ?_⟩
    have hobserved := (mem_depthObservations (o := .block (item.1 + 1) item.2.position)).2
      ⟨item, hitem, depthObservation?_eq_some.2 ⟨hblock, rfl⟩⟩
    exact h _ hobserved.1
  · rintro ⟨-, h⟩ o ho
    cases hblock : o.isBlock with
    | true =>
        obtain ⟨item, hitem, hobservation⟩ := mem_depthObservations.1 ⟨ho, hblock⟩
        obtain ⟨hisBlock, rfl⟩ := depthObservation?_eq_some.1 hobservation
        exact h item hitem hisBlock
    | false =>
        cases o with
        | block => cases hblock
        | _ => exact Nat.zero_le _

theorem Script.pairwise_placedAll {source : String} {tokens : List Token}
    {statements : List Statement} (h : Script source tokens statements) :
    (placedAll 0 statements).Pairwise fun item later =>
      item.2.position.Precedes later.2.position := by
  have hpositions := List.pairwise_map.2 h.pairwise_position
  rw [← map_position_placedAll 0, List.pairwise_map] at hpositions
  exact hpositions

/-- A block is the first one in the text among those that `n` blocks enclose. -/
structure FirstEnclosed (statements : List Statement) (n : Nat) (s : Statement) : Prop where
  isBlock : s.isBlock = true
  enclosedIn : EnclosedIn n statements s
  first : ∀ u, u.isBlock = true → EnclosedIn n statements u → u = s ∨ s.position.Precedes u.position

/-- The deepest block of a script is the first one that as many blocks enclose. -/
theorem Script.firstEnclosed_of_deepestBlock {source : String} {tokens : List Token}
    {statements : List Statement} (h : Script source tokens statements) {n : Nat} {p : Position}
    (hdeepest : deepestBlock (blockObservations 0 statements) = (n + 1, p)) :
    ∃ s, FirstEnclosed statements n s ∧ s.position = p := by
  obtain ⟨before, after, hcut, hbefore⟩ := exists_of_deepestBlock hdeepest n.succ_pos
  have hfilter := filter_isBlock_blockObservations 0 statements
  rw [hcut, List.filter_append, List.filter_cons_of_pos rfl] at hfilter
  obtain ⟨earlier, later, hplaced, hearlier, hlater⟩ := List.filterMap_eq_append_iff.1 hfilter.symm
  obtain ⟨skipped, ⟨m, s⟩, rest, rfl, hskipped, hs, -⟩ := List.filterMap_eq_cons_iff.1 hlater
  obtain ⟨hblock, heq⟩ := depthObservation?_eq_some.1 hs
  obtain ⟨rfl, rfl⟩ : n = m ∧ p = s.position := by simpa using heq
  have hpairwise := h.pairwise_placedAll
  rw [hplaced] at hpairwise
  refine ⟨s, ⟨hblock, ?_, fun u hu hencloses => ?_⟩, rfl⟩
  · rw [← mem_placedAll_iff, hplaced]
    simp
  · have hobservation : depthObservation? (n, u) = some (.block (n + 1) u.position) :=
      depthObservation?_eq_some.2 ⟨hu, rfl⟩
    have hmem := mem_placedAll_iff.2 hencloses
    rw [hplaced] at hmem
    rcases List.mem_append.1 hmem with hmem | hmem
    · -- What is observed before the deepest block is not as deep.
      have hobserved : .block (n + 1) u.position ∈ before := by
        apply List.mem_of_mem_filter
        rw [← hearlier]
        exact List.mem_filterMap.2 ⟨(n, u), hmem, hobservation⟩
      exact absurd (hbefore _ hobserved) (Nat.lt_irrefl _)
    · rcases List.mem_append.1 hmem with hmem | hmem
      · rw [hskipped _ hmem] at hobservation
        cases hobservation
      · rcases List.mem_cons.1 hmem with heq | hmem
        · cases heq
          exact .inl rfl
        · have hlast := (List.pairwise_append.1 (List.pairwise_append.1 hpairwise).2.1).2.1
          exact .inr ((List.pairwise_cons.1 hlast).1 (n, u) hmem)

/-! ### The report -/

/-- An issue tells that blocks nest too deep. -/
def Issue.tellsDepth (i : Issue) : Bool :=
  match i.finding with
  | .deepNesting .. => true
  | _ => false

theorem filter_tellsDepth_report (p : Policy) (limits : ComplexityLimits) (source : String)
    (observations : List Observation) :
    (report p limits source observations).issues.filter Issue.tellsDepth =
      if limits.maxNestingDepth < (deepestBlock observations).1 then
        [⟨.deepNesting (deepestBlock observations).1 limits.maxNestingDepth,
          (deepestBlock observations).2⟩]
      else [] := by
  have hjudged : (observations.filterMap p.judge).filter Issue.tellsDepth = [] := by
    refine List.filter_eq_nil_iff.2 fun i hi hdepth => ?_
    obtain ⟨o, -, hjudge⟩ := List.mem_filterMap.1 hi
    have hcritical := Policy.isCritical_of_judge hjudge
    unfold Issue.tellsDepth at hdepth
    unfold Issue.isCritical Finding.isCritical Finding.kind at hcritical
    split at hdepth
    · rename_i hfinding
      rw [hfinding] at hcritical
      cases hcritical
    · cases hdepth
  have hbranches : (if limits.maxCyclomaticComplexity < cyclomaticComplexity observations then
      [(⟨.manyBranches (cyclomaticComplexity observations) limits.maxCyclomaticComplexity, .start⟩ :
        Issue)] else []).filter Issue.tellsDepth = [] := by
    split <;> rfl
  rw [report, List.filter_append, hjudged, List.nil_append, complexityIssues, List.filter_append,
    hbranches, List.append_nil]
  split <;> rfl

/-- The greatest balance `D` of indentations that a beginning of the tokens has tells the nesting depth:
it is `D` or one more. When it is above the threshold, the one warning about it stands at the first
block in the text that is enclosed by one block less. -/
theorem nestingDepth_of_layout {source : String} {tokens : List Token} {statements : List Statement}
    (htokenize : tokenize source = .ok tokens) (hparse : parse tokens = .ok statements) (p : Policy)
    (limits : ComplexityLimits) :
    (∃ D : Int, IsGreatest {n : Int | ∃ before, before <+: tokens ∧ blockBalance before = n} D ∧
      (((analyze p limits source).complexity.nestingDepth : Int) = D ∨
        ((analyze p limits source).complexity.nestingDepth : Int) = D + 1)) ∧
    (limits.maxNestingDepth < (analyze p limits source).complexity.nestingDepth →
      ∃ s, FirstEnclosed statements ((analyze p limits source).complexity.nestingDepth - 1) s ∧
        (analyze p limits source).issues.filter Issue.tellsDepth =
          [⟨.deepNesting (analyze p limits source).complexity.nestingDepth limits.maxNestingDepth,
            s.position⟩]) := by
  have h : Script source tokens statements := ⟨htokenize, hparse⟩
  have hnesting : (report p limits source
      (blockObservations 0 statements)).complexity.nestingDepth =
        (deepestBlock (blockObservations 0 statements)).1 := rfl
  rw [analyze_of_parse htokenize hparse p limits, filter_tellsDepth_report, hnesting]
  constructor
  · obtain ⟨hpeak, hsucc⟩ := reach_of_script h
    refine ⟨_, isGreatest_peak htokenize, ?_⟩
    rw [deepestBlock_eq_reachAll]
    omega
  · intro hdepth
    rw [if_pos hdepth]
    obtain ⟨n, hn⟩ := Nat.exists_eq_succ_of_ne_zero (Nat.ne_of_gt (Nat.zero_lt_of_lt hdepth))
    obtain ⟨s, hfirst, hposition⟩ := h.firstEnclosed_of_deepestBlock (Prod.ext hn rfl)
    refine ⟨s, ?_, by rw [hposition]⟩
    rw [hn, Nat.succ_sub_one]
    exact hfirst

/-- Two blocks with their bodies on their lines stand in one block: the first of them is warned about. -/
theorem nestingDepth_of_layout_one_line :
    let limits : ComplexityLimits := { maxNestingDepth := 1 }
    let source := "if a:\n  if b: c\n  while d: e\n"
    ∃ tokens statements, tokenize source = .ok tokens ∧ parse tokens = .ok statements ∧
      (∃ D : Int, IsGreatest {n : Int | ∃ before, before <+: tokens ∧ blockBalance before = n} D ∧
        (2 = D ∨ 2 = D + 1)) ∧
      ∃ s, FirstEnclosed statements 1 s ∧ s.position = ⟨2, 2⟩ ∧
        (analyze (.ofTables {}) limits source).issues.filter Issue.tellsDepth =
          [⟨.deepNesting 2 1, s.position⟩] := by
  intro limits source
  obtain ⟨statements, hscript⟩ : ∃ statements, (tokenize source >>= parse) = .ok statements :=
    exists_of_isOk (by decide +kernel)
  obtain ⟨tokens, htokenize, hparse⟩ := bind_eq_ok.1 hscript
  have hdepth : (analyze (.ofTables {}) limits source).complexity.nestingDepth = 2 := by
    decide +kernel
  have hplace : ((analyze (.ofTables {}) limits source).issues.filter Issue.tellsDepth).map
      Issue.position = [⟨2, 2⟩] := by
    decide +kernel
  obtain ⟨hbalance, hwarning⟩ := nestingDepth_of_layout htokenize hparse (.ofTables {}) limits
  rw [hdepth] at hbalance hwarning
  obtain ⟨s, hfirst, hissues⟩ := hwarning (by decide)
  refine ⟨tokens, statements, htokenize, hparse, hbalance, s, hfirst, ?_, hissues⟩
  rw [hissues] at hplace
  simpa using hplace

end ScriptSandbox
