import Mathlib.Data.List.Basic
import ScriptSandbox.Proofs.Analysis.Verdict
import ScriptSandbox.Proofs.Policy.Agreement

/-!
Tightened tables. Tables that allow and preload no more modules and block no less make a policy that
is at least as strict: whatever it lets pass, the policy of the looser tables lets pass too. The
tables act on one another, since a module that is no longer allowed takes its aliases with it, but
each of these effects makes the policy stricter as well.
-/

namespace ScriptSandbox

namespace PolicyTables

/-- Some tables are at least as strict as others, table by table and as sets. -/
structure Tightens (strict loose : PolicyTables) : Prop where
  allowedModules : strict.allowedModules ⊆ loose.allowedModules
  preloaded : strict.preloaded ⊆ loose.preloaded
  blockedCalls : loose.blockedCalls ⊆ strict.blockedCalls
  blockedAttributes : loose.blockedAttributes ⊆ strict.blockedAttributes
  blockedModuleNames : loose.blockedModuleNames ⊆ strict.blockedModuleNames

namespace Tightens

variable {strict loose : PolicyTables} {name : String}

/-! ### Modules within reach -/

theorem mem_allowedRoots (h : strict.Tightens loose) (hname : name ∈ strict.allowedRoots) :
    name ∈ loose.allowedRoots := by
  rw [allowedRoots, NameSet.mem_ofList] at hname ⊢
  exact List.map_subset _ h.allowedModules hname

theorem allowedPreloads_subset (h : strict.Tightens loose) :
    strict.allowedPreloads ⊆ loose.allowedPreloads := by
  intro preload hpreload
  obtain ⟨hmem, hroot⟩ := List.mem_filter.1 hpreload
  refine List.mem_filter.2 ⟨h.preloaded hmem, ?_⟩
  exact NameSet.contains_iff.2 (h.mem_allowedRoots (NameSet.contains_iff.1 hroot))

theorem allowsModule (h : strict.Tightens loose)
    (hname : (Policy.ofTables strict).allowsModule name = true) :
    (Policy.ofTables loose).allowsModule name = true :=
  NameSet.contains_iff.2 (h.mem_allowedRoots (NameSet.contains_iff.1 hname))

theorem isAlias (h : strict.Tightens loose)
    (hname : (Policy.ofTables strict).isAlias name = true) :
    (Policy.ofTables loose).isAlias name = true := by
  obtain ⟨preload, hpreload, hbound⟩ := List.any_eq_true.1 hname
  exact List.any_eq_true.2 ⟨preload, h.allowedPreloads_subset hpreload, hbound⟩

theorem isModuleName (h : strict.Tightens loose)
    (hname : (Policy.ofTables strict).isModuleName name = true) :
    (Policy.ofTables loose).isModuleName name = true := by
  simp only [Policy.isModuleName, Bool.or_eq_true] at hname ⊢
  exact hname.imp h.allowsModule h.isAlias

theorem reachesThroughModule (h : strict.Tightens loose) {chain : List String}
    (hchain : (Policy.ofTables strict).reachesThroughModule chain = true) :
    (Policy.ofTables loose).reachesThroughModule chain = true := by
  simp only [Policy.reachesThroughModule, Bool.and_eq_true] at hchain ⊢
  refine ⟨hchain.1, ?_⟩
  cases chain with
  | nil => exact hchain.2
  | cons name rest => exact h.isModuleName hchain.2

/-! ### What is blocked -/

theorem blocksAttribute (h : strict.Tightens loose)
    (hname : (Policy.ofTables loose).blocksAttribute name = true) :
    (Policy.ofTables strict).blocksAttribute name = true := by
  simp only [Policy.blocksAttribute, Policy.ofTables, NameSet.contains_iff,
    NameSet.mem_ofList] at hname ⊢
  exact h.blockedAttributes hname

theorem blocksModuleName (h : strict.Tightens loose)
    (hname : (Policy.ofTables loose).blocksModuleName name = true) :
    (Policy.ofTables strict).blocksModuleName name = true := by
  rw [Policy.blocksModuleName, NameSet.contains_iff, Policy.mem_blockedModuleNames_ofTables,
    Bool.eq_false_iff] at hname ⊢
  exact ⟨h.blockedModuleNames hname.1, mt h.isModuleName hname.2⟩

/-- A pattern that refuses a call in the looser tables refuses it in the stricter ones: it is there
too, and the call passes through a module there only if it does so here. -/
theorem blockedCall (h : strict.Tightens loose) {chain : List String}
    (hchain : (Policy.ofTables strict).blockedCall chain = none) :
    (Policy.ofTables loose).blockedCall chain = none := by
  rw [Policy.blockedCall, List.find?_eq_none] at hchain ⊢
  intro pattern hpattern hmatches
  have hmem : pattern ∈ (Policy.ofTables strict).blockedCalls :=
    List.map_subset _ h.blockedCalls hpattern
  refine hchain pattern hmem ?_
  simp only [Bool.and_eq_true, Bool.not_eq_true', Bool.eq_false_iff, ne_eq] at hmatches ⊢
  exact ⟨mt (And.imp_left h.reachesThroughModule) hmatches.1, hmatches.2⟩

/-! ### Verdicts -/

theorem judge (h : strict.Tightens loose) {o : Observation}
    (ho : (Policy.ofTables strict).judge o = none) : (Policy.ofTables loose).judge o = none := by
  cases o with
  | importOf root position =>
      have hallows {p : Policy} :
          p.judge (.importOf root position) = none ↔ p.allowsModule root = true := by
        simp [Policy.judge]
      exact hallows.2 (h.allowsModule (hallows.1 ho))
  | relativeImport position => cases ho
  | block depth position => rfl
  | branch => rfl
  | name text position =>
      simp only [Policy.judge_name_eq_none, Bool.eq_false_iff] at ho ⊢
      exact ⟨mt h.blocksAttribute ho.1, mt h.blocksModuleName ho.2⟩
  | call chain position =>
      rw [Policy.judge, Option.map_eq_none_iff] at ho ⊢
      exact h.blockedCall ho

end Tightens

end PolicyTables

/-- A script that is safe by some tables is safe by all looser ones, so tightening the tables never
makes a dangerous script safe. The thresholds of complexity have no part in it. -/
theorem isSafe_of_tightens {strict loose : PolicyTables} {limits other : ComplexityLimits}
    {source : String} (h : strict.Tightens loose)
    (hsafe : (analyze (.ofTables strict) limits source).isSafe = true) :
    (analyze (.ofTables loose) other source).isSafe = true := by
  obtain ⟨tokens, statements, htokenize, hparse, hpasses⟩ := isSafe_analyze.1 hsafe
  exact isSafe_analyze.2
    ⟨tokens, statements, htokenize, hparse, fun o ho => h.judge (hpasses o ho)⟩

/-- The call passes through a module by both tables, so that the pattern `eval` does not refuse it. -/
theorem isSafe_of_tightens_import :
    let loose : PolicyTables :=
      ⟨["math", "re"], [⟨"m", "math"⟩], ["eval"], ["__class__"], ["os", "m"], []⟩
    let strict : PolicyTables :=
      ⟨["math"], [], ["eval", "m.sqrt"], ["__class__"], ["os", "m", "re"], []⟩
    let source := "import math\nmath.eval()\n"
    strict.Tightens loose ∧ (analyze (.ofTables strict) {} source).isSafe = true ∧
      (analyze (.ofTables loose) ⟨0, 0⟩ source).isSafe = true := by
  intro loose strict source
  have htightens : strict.Tightens loose := by
    constructor <;> decide
  have hsafe : (analyze (.ofTables strict) {} source).isSafe = true := by
    decide +kernel
  exact ⟨htightens, hsafe, isSafe_of_tightens htightens hsafe⟩

end ScriptSandbox
