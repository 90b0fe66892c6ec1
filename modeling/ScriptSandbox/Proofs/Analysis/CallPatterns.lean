import Mathlib.Data.List.Forall2
import ScriptSandbox.Proofs.Analysis.Coherence
import ScriptSandbox.Proofs.Policy.Agreement

/-!
Patterns for calls. A pattern speaks of the end of a chain of names, so it still matches when the
chain is reached by a longer way. What is called through a module within reach is exempt from the
patterns for plain names. So a longer way frees a call just where it begins at such a module and no
other pattern matches. Of the patterns that refuse a call the first configured one is told.
-/

namespace ScriptSandbox

/-! ### Segments -/

theorem dotted_ne_nil (text : List Char) : dotted text ≠ [] := by
  unfold dotted
  split
  · exact List.cons_ne_nil _ _
  · split
    · exact List.cons_ne_nil _ _
    · split <;> exact List.cons_ne_nil _ _

theorem dot_not_mem_of_mem_dotted {text piece : List Char} (h : piece ∈ dotted text) :
    '.' ∉ piece := by
  fun_induction dotted text generalizing piece with
  | case1 =>
      rw [List.mem_singleton.1 h]
      exact List.not_mem_nil
  | case2 rest ih =>
      rcases List.mem_cons.1 h with rfl | h
      · exact List.not_mem_nil
      · exact ih h
  | case3 c rest hdot hnone ih => exact absurd hnone (dotted_ne_nil rest)
  | case4 c rest hdot first more hpieces ih =>
      rw [hpieces] at ih
      rcases List.mem_cons.1 h with rfl | h
      · exact List.not_mem_cons_of_ne_of_not_mem (fun heq => hdot heq.symm) (ih (.head _))
      · exact ih (.tail _ h)

@[simp] theorem dottedChain_dotted (text : List Char) :
    dottedChain ((dotted text).map String.ofList) = String.ofList text := by
  fun_induction dotted text with
  | case1 => rfl
  | case2 rest ih =>
      obtain ⟨first, more, hpieces⟩ := List.exists_cons_of_ne_nil (dotted_ne_nil rest)
      rw [hpieces, dottedChain] at ih
      rw [hpieces, dottedChain, List.map_cons, List.map_cons, String.intercalate_cons_cons,
        ← List.map_cons, ih]
      apply String.toList_inj.1
      simp
  | case3 c rest hdot hnone ih => exact absurd hnone (dotted_ne_nil rest)
  | case4 c rest hdot first more hpieces ih =>
      rw [hpieces] at ih
      have hlonger (tail : String) (htail : String.ofList first ++ tail = String.ofList rest) :
          String.ofList (c :: first) ++ tail = String.ofList (c :: rest) := by
        apply String.toList_inj.1
        simpa using String.toList_inj.2 htail
      cases more with
      | nil =>
          have heq : String.ofList first = String.ofList rest := by simpa [dottedChain] using ih
          rw [String.ofList_inj.1 heq]
          simp [dottedChain]
      | cons second more =>
          rw [dottedChain, List.map_cons, List.map_cons, String.intercalate_cons_cons,
            String.append_assoc] at ih ⊢
          exact hlonger _ ih

namespace CallPattern

/-- The segments of a pattern: dots join them to its text, and there is no dot inside. -/
structure HasSegments (p : CallPattern) (segments : List String) : Prop where
  ne_nil : segments ≠ []
  no_dot : ∀ segment ∈ segments, '.' ∉ segment.toList
  text_eq : dottedChain segments = p.text

theorem hasSegments_iff {p : CallPattern} {segments : List String} :
    p.HasSegments segments ↔ segments = p.segments := by
  constructor
  · rintro ⟨hne, hdot, htext⟩
    have hread := targetChain_dottedChain hne hdot
    rw [htext] at hread
    exact hread.symm
  · rintro rfl
    refine ⟨?_, ?_, ?_⟩
    · simpa [segments] using dotted_ne_nil p.text.toList
    · intro segment hsegment
      obtain ⟨piece, hpiece, rfl⟩ := List.mem_map.1 hsegment
      rw [String.toList_ofList]
      exact dot_not_mem_of_mem_dotted hpiece
    · rw [segments, dottedChain_dotted, String.ofList_toList]

/-- A segment of a pattern covers a name: it is the name, or a star, or a star behind the beginning
of the name. -/
inductive Covers : String → String → Prop
  | same (name : String) : Covers name name
  | star (name : String) : Covers "*" name
  | beginning {stem name : String} : stem.toList <+: name.toList → Covers (stem ++ "*") name

theorem segmentMatches_iff {segment name : String} :
    segmentMatches segment name = true ↔ Covers segment name := by
  unfold segmentMatches
  dsimp only
  constructor
  · intro h
    split at h
    · rename_i hstar
      obtain ⟨stem, hstem⟩ := List.getLast?_eq_some_iff.1 hstar
      rw [hstem, List.dropLast_concat, List.isPrefixOf_iff_prefix] at h
      have heq : segment = String.ofList stem ++ "*" := by
        apply String.toList_inj.1
        simp [hstem]
      rw [heq]
      apply Covers.beginning
      rwa [String.toList_ofList]
    · rw [eq_of_beq h]
      exact .same name
  · intro h
    cases h with
    | same =>
        split
        · exact List.isPrefixOf_iff_prefix.2 (List.dropLast_prefix _)
        · exact BEq.rfl
    | star => rfl
    | beginning hstem => simpa [List.isPrefixOf_iff_prefix] using hstem

/-- A chain ends in as many names as a pattern has segments, and the segments cover them. -/
def Matches (p : CallPattern) (chain : List String) : Prop :=
  ∃ front tail segments, chain = front ++ tail ∧ p.HasSegments segments ∧
    List.Forall₂ Covers segments tail

theorem matchesChain_iff {p : CallPattern} {chain : List String} :
    p.matchesChain chain = true ↔ p.Matches chain := by
  have hall (tail : List String) :
      ((p.segments.zip tail).all fun pair => segmentMatches pair.1 pair.2) = true ↔
        ∀ {segment name}, (segment, name) ∈ p.segments.zip tail → Covers segment name := by
    rw [List.all_eq_true]
    constructor
    · intro h segment name hmem
      exact segmentMatches_iff.1 (h (segment, name) hmem)
    · rintro h ⟨segment, name⟩ hmem
      exact segmentMatches_iff.2 (h hmem)
  unfold matchesChain
  dsimp only
  rw [Bool.and_eq_true, decide_eq_true_iff, hall]
  constructor
  · rintro ⟨hlength, hcovers⟩
    refine ⟨_, _, p.segments, (List.take_append_drop (chain.length - p.segments.length) chain).symm,
      hasSegments_iff.2 rfl, List.forall₂_iff_zip.2 ⟨?_, hcovers⟩⟩
    rw [List.length_drop]
    omega
  · rintro ⟨front, tail, segments, rfl, hsegments, hcovers⟩
    obtain rfl := hasSegments_iff.1 hsegments
    obtain ⟨hlength, hzip⟩ := List.forall₂_iff_zip.1 hcovers
    have hfront : (front ++ tail).length - p.segments.length = front.length := by
      rw [List.length_append]
      omega
    rw [hfront, List.drop_left, List.length_append]
    exact ⟨by omega, hzip⟩

theorem Matches.append {p : CallPattern} {chain : List String} (h : p.Matches chain)
    (lead : List String) : p.Matches (lead ++ chain) := by
  obtain ⟨front, tail, segments, rfl, hsegments, hcovers⟩ := h
  exact ⟨lead ++ front, tail, segments, by simp, hsegments, hcovers⟩

theorem Matches.ne_nil {p : CallPattern} {chain : List String} (h : p.Matches chain) :
    chain ≠ [] := by
  obtain ⟨front, tail, segments, rfl, hsegments, hcovers⟩ := h
  intro hnil
  rw [(List.append_eq_nil_iff.1 hnil).2] at hcovers
  cases hcovers
  exact hsegments.ne_nil rfl

/-- The pattern is a plain name. -/
def IsPlainName (p : CallPattern) : Prop :=
  p.HasSegments [p.text] ∧ '*' ∉ p.text.toList

theorem isBare_iff {p : CallPattern} : p.isBare = true ↔ p.IsPlainName := by
  have hsingle : p.HasSegments [p.text] ↔ '.' ∉ p.text.toList := by
    constructor
    · intro h
      exact h.no_dot p.text (.head _)
    · intro hdot
      exact ⟨List.cons_ne_nil _ _, by simpa using hdot, by simp [dottedChain]⟩
  rw [IsPlainName, hsingle]
  simp [isBare]

end CallPattern

/-! ### The pattern that refuses a call -/

namespace Policy

variable {p : Policy} {chain lead : List String} {pattern : CallPattern}

/-- A name is that of an allowed module, or a module is preloaded under it. -/
def Reaches (p : Policy) (name : String) : Prop :=
  name ∈ p.allowedModules ∨ ∃ m ∈ p.preloaded, m.name = name

theorem isModuleName_iff {name : String} : p.isModuleName name = true ↔ p.Reaches name := by
  rw [isModuleName, Bool.or_eq_true, isAlias_iff, allowsModule, NameSet.contains_iff]
  exact .rfl

/-- A call through a module within reach is exempt from the patterns that are plain names. -/
def Exempts (p : Policy) (chain : List String) (pattern : CallPattern) : Prop :=
  (∃ first second rest, chain = first :: second :: rest ∧ p.Reaches first) ∧ pattern.IsPlainName

/-- A pattern refuses a call that it matches and that is not exempt from it. -/
def Refuses (p : Policy) (pattern : CallPattern) (chain : List String) : Prop :=
  pattern.Matches chain ∧ ¬ p.Exempts chain pattern

theorem reachesThroughModule_iff : p.reachesThroughModule chain = true ↔
    ∃ first second rest, chain = first :: second :: rest ∧ p.Reaches first := by
  unfold reachesThroughModule
  match chain with
  | [] => simp
  | [name] => simp
  | first :: second :: rest => simp [isModuleName_iff]

theorem refuses_iff :
    (!(p.reachesThroughModule chain && pattern.isBare) && pattern.matchesChain chain) = true ↔
      p.Refuses pattern chain := by
  rw [Bool.and_eq_true, Bool.not_eq_true', ← Bool.not_eq_true, Bool.and_eq_true,
    reachesThroughModule_iff, CallPattern.isBare_iff, CallPattern.matchesChain_iff, and_comm]
  exact .rfl

theorem isSome_blockedCall_iff :
    (p.blockedCall chain).isSome = true ↔ ∃ pattern ∈ p.blockedCalls, p.Refuses pattern chain := by
  rw [blockedCall, List.find?_isSome]
  simp only [refuses_iff]

theorem blockedCall_eq_some_iff : p.blockedCall chain = some pattern ↔
    ∃ before after, p.blockedCalls = before ++ pattern :: after ∧ p.Refuses pattern chain ∧
      ∀ earlier ∈ before, ¬ p.Refuses earlier chain := by
  rw [blockedCall, List.find?_eq_some_iff_append, refuses_iff]
  constructor
  · rintro ⟨hrefuses, before, after, hcalls, hbefore⟩
    refine ⟨before, after, hcalls, hrefuses, fun earlier hearlier => ?_⟩
    rw [← refuses_iff]
    exact Bool.not_iff_not.1 (hbefore earlier hearlier)
  · rintro ⟨before, after, hcalls, hrefuses, hbefore⟩
    refine ⟨hrefuses, before, after, hcalls, fun earlier hearlier => ?_⟩
    have hnot := hbefore earlier hearlier
    rw [← refuses_iff] at hnot
    exact Bool.not_iff_not.2 hnot

/-- A longer way frees a call just where it begins at a module within reach and only plain names
match. -/
theorem isSome_blockedCall_append (hlead : lead ≠ []) (h : (p.blockedCall chain).isSome = true) :
    (p.blockedCall (lead ++ chain)).isSome = true ↔
      ¬ ((∃ first ∈ lead.head?, p.Reaches first) ∧
        ∀ pattern ∈ p.blockedCalls, pattern.Matches (lead ++ chain) → pattern.IsPlainName) := by
  obtain ⟨own, hown, hmatches, -⟩ := isSome_blockedCall_iff.1 h
  obtain ⟨first, between, rfl⟩ := List.exists_cons_of_ne_nil hlead
  obtain ⟨name, rest, rfl⟩ := List.exists_cons_of_ne_nil hmatches.ne_nil
  -- With the way before it a call has at least two names.
  have hthrough : (∃ one other more, first :: between ++ name :: rest = one :: other :: more ∧
      p.Reaches one) ↔ ∃ one ∈ (first :: between).head?, p.Reaches one := by
    cases between with
    | nil => simp
    | cons second between => simp
  rw [isSome_blockedCall_iff]
  constructor
  · rintro ⟨pattern, hpattern, hmatch, hexempt⟩ ⟨hreaches, hplain⟩
    exact hexempt ⟨hthrough.2 hreaches, hplain pattern hpattern hmatch⟩
  · intro hnot
    by_cases hreaches : ∃ one ∈ (first :: between).head?, p.Reaches one
    · have hother : ¬ ∀ pattern ∈ p.blockedCalls,
          pattern.Matches (first :: between ++ name :: rest) → pattern.IsPlainName :=
        fun hplain => hnot ⟨hreaches, hplain⟩
      push Not at hother
      obtain ⟨pattern, hpattern, hmatch, hplain⟩ := hother
      exact ⟨pattern, hpattern, hmatch, fun hexempt => hplain hexempt.2⟩
    · exact ⟨own, hown, hmatches.append _, fun hexempt => hreaches (hthrough.1 hexempt.1)⟩

end Policy

/-- Whatever is configured: the pattern that is told for a call is the first configured one that
matches and that the call is not exempt from; a call that is refused stays refused on a longer way,
unless that begins at a module within reach and only plain names match; and a pattern matches the
chains that end in names which its segments cover. -/
theorem calls_refused (t : PolicyTables) :
    let policy := Policy.ofTables t
    (∀ chain pattern, policy.blockedCall chain = some pattern ↔
      ∃ before after, t.blockedCalls = before ++ pattern.text :: after ∧
        policy.Refuses pattern chain ∧ ∀ text ∈ before, ¬ policy.Refuses ⟨text⟩ chain) ∧
    (∀ lead chain, lead ≠ [] → (policy.blockedCall chain).isSome = true →
      ((policy.blockedCall (lead ++ chain)).isSome = true ↔
        ¬ ((∃ first ∈ lead.head?, policy.Reaches first) ∧
          ∀ text ∈ t.blockedCalls, CallPattern.Matches ⟨text⟩ (lead ++ chain) →
            CallPattern.IsPlainName ⟨text⟩))) ∧
    ∀ (pattern : CallPattern) (chain : List String),
      pattern.matchesChain chain = true ↔ pattern.Matches chain := by
  intro policy
  have hcalls : policy.blockedCalls = t.blockedCalls.map CallPattern.mk := rfl
  refine ⟨fun chain pattern => ?_, fun lead chain hlead h => ?_, fun pattern chain =>
    CallPattern.matchesChain_iff⟩
  · rw [Policy.blockedCall_eq_some_iff, hcalls]
    constructor
    · rintro ⟨before, after, hmap, hrefuses, hbefore⟩
      obtain ⟨texts, rest, hparts, rfl, hrest⟩ := List.map_eq_append_iff.1 hmap
      obtain ⟨text, others, rfl, rfl, rfl⟩ := List.map_eq_cons_iff.1 hrest
      exact ⟨texts, others, hparts, hrefuses, fun one hone =>
        hbefore ⟨one⟩ (List.mem_map_of_mem hone)⟩
    · rintro ⟨before, after, hparts, hrefuses, hbefore⟩
      refine ⟨before.map .mk, after.map .mk, by simp [hparts], hrefuses, fun earlier hearlier => ?_⟩
      obtain ⟨text, htext, rfl⟩ := List.mem_map.1 hearlier
      exact hbefore text htext
  · rw [Policy.isSome_blockedCall_append hlead h, hcalls, List.forall_mem_map]

/-- Through a preloaded module `eval` is refused by the pattern for the module only, and through
another module it is not refused. -/
theorem calls_refused_through_alias :
    let t : PolicyTables :=
      { allowedModules := ["numpy", "re"], preloaded := [⟨"np", "numpy"⟩]
        blockedCalls := ["eval", "np.ev*"] }
    let policy := Policy.ofTables t
    policy.blockedCall ["eval"] = some ⟨"eval"⟩ ∧
      policy.blockedCall (["np"] ++ ["eval"]) = some ⟨"np.ev*"⟩ ∧
      ¬ ((∃ first ∈ ["np"].head?, policy.Reaches first) ∧
        ∀ text ∈ t.blockedCalls, CallPattern.Matches ⟨text⟩ (["np"] ++ ["eval"]) →
          CallPattern.IsPlainName ⟨text⟩) ∧
      (∃ first ∈ ["re"].head?, policy.Reaches first) ∧
        ∀ text ∈ t.blockedCalls, CallPattern.Matches ⟨text⟩ (["re"] ++ ["eval"]) →
          CallPattern.IsPlainName ⟨text⟩ := by
  intro t policy
  have heval : policy.blockedCall ["eval"] = some ⟨"eval"⟩ := by decide +kernel
  have halias : policy.blockedCall (["np"] ++ ["eval"]) = some ⟨"np.ev*"⟩ := by decide +kernel
  have hmodule : policy.blockedCall (["re"] ++ ["eval"]) = none := by decide +kernel
  have hlonger (name : String) := (calls_refused t).2.1 [name] ["eval"] (List.cons_ne_nil _ _)
    (by rw [heval]; rfl)
  refine ⟨heval, halias, (hlonger "np").1 (by rw [halias]; rfl), ?_⟩
  have hfree := mt (hlonger "re").2 (by rw [hmodule]; simp)
  exact not_not.1 hfree

end ScriptSandbox
