import Mathlib.Data.List.Perm.Basic
import ScriptSandbox.Proofs.Policy.Agreement
import ScriptSandbox.Scope

/-!
Names that belong to the sandbox. Whatever tables are configured and whatever variables a caller
brings, a scope splits the variables into those that it keeps, with their values, and those that it
rejects, and it keeps none whose name a script could not say or would take for something of the
sandbox. So what a scope offers under the name of a builtin or of a preloaded module comes from the
policy alone, and a builtin that must never be exposed comes from nowhere.
-/

namespace ScriptSandbox

/-- The names that a caller cannot bind under some tables: no script could say them as variables, or
they belong to the sandbox. -/
inductive PolicyTables.Withholds (t : PolicyTables) (name : String) : Prop
  | unspeakable : Text.isWord name = false → t.Withholds name
  | keyword : name ∈ keywords → t.Withholds name
  | dunder : ['_', '_'] <+: name.toList → t.Withholds name
  | neverExposed : name ∈ neverExposed → t.Withholds name
  | builtin : name ∈ t.builtins → t.Withholds name
  /-- A preloaded module whose root may not be imported is not bound, and takes no name. -/
  | preloaded {m : Preload} : m ∈ t.preloaded →
      moduleRoot m.module ∈ t.allowedModules.map moduleRoot → m.name = name → t.Withholds name
  /-- Only a pattern for plain names takes a name. -/
  | blockedCall : name ∈ t.blockedCalls → '.' ∉ name.toList → '*' ∉ name.toList → t.Withholds name

/-- A scope splits a caller's variables into the ones that it keeps and the ones that it rejects, and
rejects those with a withheld name. -/
structure Scope.Splits (s : Scope) (globals : JsonObject) (withheld : String → Prop) : Prop where
  names_perm : (s.globals.names ++ s.rejectedGlobals).Perm globals.names
  names_nodup : (s.globals.names ++ s.rejectedGlobals).Nodup
  kept_iff : ∀ m, m ∈ s.globals.members ↔ m ∈ globals.members ∧ ¬ withheld m.1
  rejected_iff : ∀ name, name ∈ s.rejectedGlobals ↔ name ∈ globals.names ∧ withheld name
  rejected_increasing : s.rejectedGlobals.Pairwise (· < ·)

/-! ### Names of variables -/

namespace JsonObject

variable {o : JsonObject}

theorem names_increasing (o : JsonObject) : o.names.Pairwise (· < ·) :=
  List.pairwise_map.2 o.increasing

theorem names_nodup (o : JsonObject) : o.names.Nodup := by
  refine o.names_increasing.imp fun {name other} hlt heq => ?_
  subst heq
  exact String.lt_irrefl name hlt

@[simp] theorem names_filter (o : JsonObject) (keep : String → Bool) :
    (o.filter keep).names = o.names.filter keep := by
  rw [names, names, List.filter_map]
  rfl

@[simp] theorem mem_members_filter {keep : String → Bool} {m : String × Json} :
    m ∈ (o.filter keep).members ↔ m ∈ o.members ∧ keep m.1 = true :=
  List.mem_filter

end JsonObject

/-! ### Reserved names -/

namespace Policy

variable {t : PolicyTables} {name : String}

theorem withholds_of_bound
    (h : name ∈ (ofTables t).builtins ∨ ∃ m ∈ (ofTables t).preloaded, m.name = name) :
    t.Withholds name := by
  rcases h with hmem | ⟨m, hmem, hname⟩
  · exact .builtin (mem_builtins_ofTables.1 hmem).1
  · obtain ⟨hlisted, hroot⟩ := mem_preloaded_ofTables.1 hmem
    exact .preloaded hlisted hroot hname

theorem isReserved_ofTables_iff : (ofTables t).isReserved name = true ↔
    name ∈ (ofTables t).builtins ∨ (∃ m ∈ (ofTables t).preloaded, m.name = name) ∨
      name ∈ neverExposed ∨
      name ∈ t.blockedCalls ∧ '.' ∉ name.toList ∧ '*' ∉ name.toList := by
  have hcall : ((ofTables t).blockedCalls.any fun pattern =>
      pattern.isBare && pattern.text == name) = true ↔
        name ∈ t.blockedCalls ∧ '.' ∉ name.toList ∧ '*' ∉ name.toList := by
    simp only [ofTables, List.any_eq_true, List.mem_map, Bool.and_eq_true, beq_iff_eq]
    constructor
    · rintro ⟨pattern, ⟨text, hmem, rfl⟩, hbare, rfl⟩
      exact ⟨hmem, by simpa [CallPattern.isBare] using hbare⟩
    · rintro ⟨hmem, hbare⟩
      exact ⟨⟨name⟩, ⟨name, hmem, rfl⟩, by simpa [CallPattern.isBare] using hbare, rfl⟩
  rw [isReserved, Bool.or_eq_true, Bool.or_eq_true, Bool.or_eq_true, hcall, isAlias_iff,
    List.contains_iff_mem, List.contains_iff_mem, or_assoc, or_assoc]

theorem rejection?_eq_none_iff {p : Policy} : p.rejection? name = none ↔
    Text.isWord name = true ∧ isKeyword name = false ∧ ¬ ['_', '_'] <+: name.toList ∧
      p.isReserved name = false := by
  rw [← List.isPrefixOf_iff_prefix, Bool.not_eq_true]
  unfold rejection?
  cases Text.isWord name <;> cases isKeyword name <;>
    cases ['_', '_'].isPrefixOf name.toList <;> cases p.isReserved name <;> simp

/-- A policy rejects just the names that its tables withhold. -/
theorem rejection?_ofTables_eq_none_iff :
    (ofTables t).rejection? name = none ↔ ¬ t.Withholds name := by
  rw [rejection?_eq_none_iff, ← Bool.not_eq_true (isReserved _ _), isReserved_ofTables_iff,
    ← Bool.not_eq_true (isKeyword _)]
  constructor
  · rintro ⟨hword, hkeyword, hdunder, hreserved⟩ hwithheld
    cases hwithheld with
    | unspeakable hother => simp [hword] at hother
    | keyword hmem => exact hkeyword (List.contains_iff_mem.2 hmem)
    | dunder hbegins => exact hdunder hbegins
    | neverExposed hmem => exact hreserved (.inr (.inr (.inl hmem)))
    | builtin hmem =>
        by_cases hnever : name ∈ neverExposed
        · exact hreserved (.inr (.inr (.inl hnever)))
        · exact hreserved (.inl (mem_builtins_ofTables.2 ⟨hmem, hnever⟩))
    | preloaded hmem hroot hname =>
        exact hreserved (.inr (.inl ⟨_, mem_preloaded_ofTables.2 ⟨hmem, hroot⟩, hname⟩))
    | blockedCall hmem hdot hstar => exact hreserved (.inr (.inr (.inr ⟨hmem, hdot, hstar⟩)))
  · intro hfree
    refine ⟨?_, fun hkeyword => hfree (.keyword (List.contains_iff_mem.1 hkeyword)),
      fun hbegins => hfree (.dunder hbegins), ?_⟩
    · by_contra hword
      exact hfree (.unspeakable (Bool.eq_false_iff.2 hword))
    · rintro (hmem | halias | hmem | ⟨hmem, hdot, hstar⟩)
      · exact hfree (withholds_of_bound (.inl hmem))
      · exact hfree (withholds_of_bound (.inr halias))
      · exact hfree (.neverExposed hmem)
      · exact hfree (.blockedCall hmem hdot hstar)

theorem perm_names_scope (p : Policy) (globals : JsonObject) :
    ((p.scope globals).globals.names ++ (p.scope globals).rejectedGlobals).Perm globals.names := by
  simpa [scope] using
    List.filter_append_perm (fun name => (p.rejection? name).isNone) globals.names

theorem splits_scope_ofTables (t : PolicyTables) (globals : JsonObject) :
    ((ofTables t).scope globals).Splits globals t.Withholds where
  names_perm := perm_names_scope _ globals
  names_nodup := (perm_names_scope _ globals).nodup_iff.2 globals.names_nodup
  kept_iff m := by
    rw [← rejection?_ofTables_eq_none_iff, scope, JsonObject.mem_members_filter,
      Option.isNone_iff_eq_none]
  rejected_iff name := by
    rw [scope, List.mem_filter, Option.isSome_iff_ne_none, ne_eq, rejection?_ofTables_eq_none_iff,
      not_not]
  rejected_increasing := globals.names_increasing.filter _

end Policy

theorem Scope.Splits.not_mem_names {s : Scope} {globals : JsonObject} {withheld : String → Prop}
    {name : String} (h : s.Splits globals withheld) (hname : withheld name) :
    name ∉ s.globals.names := by
  intro hmem
  obtain ⟨m, hm, rfl⟩ := List.mem_map.1 hmem
  exact ((h.kept_iff m).1 hm).2 hname

/-- A scope keeps none of a caller's variables under a name that the tables withhold, so the names of
builtins and of preloaded modules are bound by the policy only. Builtins that must never be exposed
are neither exposed nor bound by the caller, whatever is configured. -/
theorem withheld_names_protected (t : PolicyTables) (globals : JsonObject) :
    let scope := (Policy.ofTables t).scope globals
    scope.Splits globals t.Withholds ∧
    (∀ name, name ∈ scope.builtins ∨ (∃ m ∈ scope.modules, m.name = name) →
      name ∉ scope.globals.names) ∧
    ∀ name ∈ neverExposed, name ∉ scope.builtins ∧ name ∉ scope.globals.names := by
  intro scope
  have hsplits : scope.Splits globals t.Withholds := Policy.splits_scope_ofTables t globals
  refine ⟨hsplits, fun name hbound => ?_, fun name hnever => ⟨fun hmem => ?_, ?_⟩⟩
  · exact hsplits.not_mem_names (Policy.withholds_of_bound hbound)
  · exact (Policy.mem_builtins_ofTables.1 hmem).2 hnever
  · exact hsplits.not_mem_names (.neverExposed hnever)

-- A preload that is left out frees its name, and neither `os.*` nor `read_*` takes one.
example :
    let t : PolicyTables :=
      ⟨["math.fsum"], [⟨"m", "math"⟩, ⟨"o", "os"⟩], ["eval", "os.*", "read_*"], [], [], ["open", "len"]⟩
    ["len", "m", "eval", "open", "dir", "__x", "class", "2x", "o", "os", "read_"].filter (fun name =>
      ((Policy.ofTables t).rejection? name).isNone) = ["o", "os", "read_"] := by
  decide +kernel

end ScriptSandbox
