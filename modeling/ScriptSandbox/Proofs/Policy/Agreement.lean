import Mathlib.Data.List.Induction
import Mathlib.Data.List.Sort
import Mathlib.Data.List.TakeWhile
import ScriptSandbox.Policy

/-!
Tables that agree. A policy filters the configured tables against one another: builtins that must
never be exposed go, a preloaded module stays only with its root, and a module within reach is not
blocked by name. The order of these steps matters, since a preload that goes takes its name with
it. What comes out are tables that agree with one another, and these are just the tables that a
policy takes over as they are.
-/

namespace ScriptSandbox

/-! ### Names in the order in which they come -/

structure FirstOccurrences (names all : List String) : Prop where
  mem_iff : ∀ name, name ∈ names ↔ name ∈ all
  inOrder : names.Pairwise fun one other => all.idxOf one < all.idxOf other

theorem eraseDups_concat (names : List String) (name : String) :
    (names ++ [name]).eraseDups =
      if name ∈ names then names.eraseDups else names.eraseDups ++ [name] := by
  rw [List.eraseDups_append]
  by_cases hmem : name ∈ names <;> simp [List.removeAll, hmem, List.eraseDups_cons]

namespace FirstOccurrences

variable {names all : List String} {name : String}

theorem nodup (h : FirstOccurrences names all) : names.Nodup := by
  refine h.inOrder.imp fun {one other} hlt heq => ?_
  subst heq
  exact Nat.lt_irrefl _ hlt

theorem inOrder_append (h : FirstOccurrences names all) (rest : List String) :
    names.Pairwise fun one other => (all ++ rest).idxOf one < (all ++ rest).idxOf other := by
  refine h.inOrder.imp_of_mem fun {one other} hone hother hlt => ?_
  rwa [List.idxOf_append_of_mem ((h.mem_iff one).1 hone),
    List.idxOf_append_of_mem ((h.mem_iff other).1 hother)]

theorem append_old (h : FirstOccurrences names all) (hold : name ∈ all) :
    FirstOccurrences names (all ++ [name]) where
  mem_iff other := by
    rw [h.mem_iff, List.mem_append, List.mem_singleton]
    exact ⟨.inl, fun hother => hother.elim id fun heq => heq ▸ hold⟩
  inOrder := h.inOrder_append [name]

theorem append_new (h : FirstOccurrences names all) (hnew : name ∉ all) :
    FirstOccurrences (names ++ [name]) (all ++ [name]) where
  mem_iff other := by rw [List.mem_append, List.mem_append, h.mem_iff]
  inOrder := by
    refine List.pairwise_append.2 ⟨h.inOrder_append [name], List.pairwise_singleton _ _, ?_⟩
    intro one hone other hother
    have hone : one ∈ all := (h.mem_iff one).1 hone
    have hlt : all.idxOf one < all.length := List.idxOf_lt_length_of_mem hone
    rw [List.mem_singleton.1 hother, List.idxOf_append_of_mem hone, List.idxOf_append, if_neg hnew]
    omega

end FirstOccurrences

theorem firstOccurrences_eraseDups (all : List String) :
    FirstOccurrences all.eraseDups all := by
  induction all using List.reverseRecOn with
  | nil => exact ⟨fun _ => .rfl, .nil⟩
  | append_singleton all name ih =>
      rw [eraseDups_concat]
      split
      · rename_i hold
        exact ih.append_old hold
      · rename_i hnew
        exact ih.append_new hnew

theorem eraseDups_eq_self_iff {names : List String} : names.eraseDups = names ↔ names.Nodup := by
  constructor
  · intro heq
    exact heq ▸ (firstOccurrences_eraseDups names).nodup
  · intro h
    induction names using List.reverseRecOn with
    | nil => rfl
    | append_singleton names name ih =>
        obtain ⟨hnames, -, hapart⟩ := List.nodup_append.1 h
        have hnew : name ∉ names := fun hmem => hapart name hmem name (.head _) rfl
        rw [eraseDups_concat, if_neg hnew, ih hnames]

/-! ### Sets of names -/

namespace NameSet

theorem eq_of_mem_iff {s t : NameSet} (h : ∀ name, name ∈ s ↔ name ∈ t) : s = t := by
  obtain ⟨names, hnames⟩ := s
  obtain ⟨others, hothers⟩ := t
  have heq : names = others := hnames.eq_of_mem_iff hothers h
  subst heq
  rfl

@[simp] theorem ofList_toList (s : NameSet) : ofList s.toList = s :=
  eq_of_mem_iff fun _ => mem_ofList

end NameSet

/-! ### Roots -/

theorem dot_not_mem_moduleRoot (path : String) : '.' ∉ (moduleRoot path).toList := by
  intro hdot
  rw [moduleRoot, String.toList_ofList] at hdot
  simpa using List.mem_takeWhile_imp hdot

theorem moduleRoot_eq_self_iff {path : String} : moduleRoot path = path ↔ '.' ∉ path.toList := by
  constructor
  · intro heq
    exact heq ▸ dot_not_mem_moduleRoot path
  · intro hdot
    have hall : ∀ c ∈ path.toList, (c != '.') = true := fun c hc => bne_iff_ne.2 fun heq =>
      hdot (heq ▸ hc)
    rw [moduleRoot, List.takeWhile_eq_self_iff.2 hall, String.ofList_toList]

/-! ### Policies -/

namespace Policy

/-- What becomes of configured tables in a policy, one table after the other. -/
structure MadeOf (p : Policy) (t : PolicyTables) : Prop where
  /-- The builtins that may be exposed, each once and in the order in which they first occur. -/
  builtins : FirstOccurrences p.builtins (t.builtins.filter (· ∉ neverExposed))
  allowed_iff : ∀ root,
    root ∈ p.allowedModules ↔ ∃ path ∈ t.allowedModules, moduleRoot path = root
  preloaded_iff : ∀ m, m ∈ p.preloaded ↔ m ∈ t.preloaded ∧ m.root ∈ p.allowedModules
  blocked_iff : ∀ name, name ∈ p.blockedModuleNames ↔
    name ∈ t.blockedModuleNames ∧ name ∉ p.allowedModules ∧ ∀ m ∈ p.preloaded, m.name ≠ name

/-- The tables of a policy agree with one another. -/
structure Agrees (p : Policy) : Prop where
  /-- No builtin that must never be exposed is exposed. -/
  builtins_apart : ∀ name ∈ p.builtins, name ∉ neverExposed
  builtins_nodup : p.builtins.Nodup
  /-- Modules are allowed by their roots. -/
  allowed_roots : ∀ root ∈ p.allowedModules, '.' ∉ root.toList
  /-- What is preloaded could be imported as well. -/
  preloaded_allowed : ∀ m ∈ p.preloaded, m.root ∈ p.allowedModules
  /-- No module within reach is blocked by its name. -/
  blocked_apart : ∀ name ∈ p.blockedModuleNames,
    name ∉ p.allowedModules ∧ ∀ m ∈ p.preloaded, m.name ≠ name

def tables (p : Policy) : PolicyTables where
  allowedModules := p.allowedModules.toList
  preloaded := p.preloaded
  blockedCalls := p.blockedCalls.map CallPattern.text
  blockedAttributes := p.blockedAttributes.toList
  blockedModuleNames := p.blockedModuleNames.toList
  builtins := p.builtins

variable {t : PolicyTables} {p : Policy} {name : String}

theorem mem_builtins_ofTables :
    name ∈ (ofTables t).builtins ↔ name ∈ t.builtins ∧ name ∉ neverExposed := by
  simp [ofTables, List.mem_eraseDups]

theorem mem_preloaded_ofTables {m : Preload} :
    m ∈ (ofTables t).preloaded ↔
      m ∈ t.preloaded ∧ moduleRoot m.module ∈ t.allowedModules.map moduleRoot := by
  simp [ofTables, PolicyTables.allowedPreloads, PolicyTables.allowedRoots, Preload.root]

theorem isAlias_iff : p.isAlias name = true ↔ ∃ m ∈ p.preloaded, m.name = name := by
  simp [isAlias]

theorem isModuleName_eq_false_iff : p.isModuleName name = false ↔
    name ∉ p.allowedModules ∧ ∀ m ∈ p.preloaded, m.name ≠ name := by
  simp [isModuleName, allowsModule, isAlias, Bool.eq_false_iff]

theorem mem_blockedModuleNames_ofTables : name ∈ (ofTables t).blockedModuleNames ↔
    name ∈ t.blockedModuleNames ∧ (ofTables t).isModuleName name = false := by
  rw [isModuleName, Bool.or_eq_false_iff]
  simp [ofTables, allowsModule, isAlias]

theorem madeOf_ofTables (t : PolicyTables) : (ofTables t).MadeOf t where
  builtins := by
    have hbuiltins : (ofTables t).builtins = (t.builtins.filter (· ∉ neverExposed)).eraseDups := by
      simp [ofTables]
    rw [hbuiltins]
    exact firstOccurrences_eraseDups _
  allowed_iff root := by simp [ofTables, PolicyTables.allowedRoots]
  preloaded_iff m := by simp [ofTables, PolicyTables.allowedPreloads]
  blocked_iff name := by
    rw [mem_blockedModuleNames_ofTables, isModuleName_eq_false_iff]

theorem MadeOf.agrees (h : p.MadeOf t) : p.Agrees where
  builtins_apart name hname := by
    have hkept := (h.builtins.mem_iff name).1 hname
    exact of_decide_eq_true (List.mem_filter.1 hkept).2
  builtins_nodup := h.builtins.nodup
  allowed_roots root hroot := by
    obtain ⟨path, -, rfl⟩ := (h.allowed_iff root).1 hroot
    exact dot_not_mem_moduleRoot path
  preloaded_allowed m hm := ((h.preloaded_iff m).1 hm).2
  blocked_apart name hname := ((h.blocked_iff name).1 hname).2

theorem agrees_ofTables (t : PolicyTables) : (ofTables t).Agrees :=
  (madeOf_ofTables t).agrees

/-- Nothing is left out, and no warning is given, just where the configured tables ask for nothing
that they do not allow. -/
theorem warnings_eq_nil_iff : warnings t = [] ↔
    (∀ name ∈ t.builtins, name ∉ neverExposed) ∧ ∀ m ∈ t.preloaded, m.root ∈ t.allowedRoots := by
  simp [warnings, List.filter_eq_nil_iff]

namespace Agrees

theorem allowedRoots_tables (h : p.Agrees) : p.tables.allowedRoots = p.allowedModules := by
  refine NameSet.eq_of_mem_iff fun root => ?_
  rw [PolicyTables.allowedRoots, NameSet.mem_ofList, List.mem_map]
  constructor
  · rintro ⟨name, hname, rfl⟩
    rwa [moduleRoot_eq_self_iff.2 (h.allowed_roots name hname)]
  · intro hroot
    exact ⟨root, hroot, moduleRoot_eq_self_iff.2 (h.allowed_roots root hroot)⟩

theorem allowedPreloads_tables (h : p.Agrees) : p.tables.allowedPreloads = p.preloaded := by
  rw [PolicyTables.allowedPreloads, h.allowedRoots_tables]
  exact List.filter_eq_self.2 fun m hm => NameSet.contains_iff.2 (h.preloaded_allowed m hm)

theorem builtins_tables (h : p.Agrees) : (ofTables p.tables).builtins = p.builtins := by
  have hkept : (p.builtins.filter fun name => !neverExposed.contains name) = p.builtins :=
    List.filter_eq_self.2 fun name hname => by simpa using h.builtins_apart name hname
  rw [ofTables, tables, hkept, eraseDups_eq_self_iff.2 h.builtins_nodup]

theorem blockedModuleNames_tables (h : p.Agrees) :
    (ofTables p.tables).blockedModuleNames = p.blockedModuleNames := by
  refine NameSet.eq_of_mem_iff fun name => ?_
  rw [mem_blockedModuleNames_ofTables, isModuleName_eq_false_iff]
  simp only [ofTables, h.allowedRoots_tables, h.allowedPreloads_tables]
  exact ⟨fun hname => hname.1, fun hname => ⟨hname, h.blocked_apart name hname⟩⟩

theorem ofTables_tables (h : p.Agrees) : ofTables p.tables = p := by
  have hcalls : (p.blockedCalls.map CallPattern.text).map CallPattern.mk = p.blockedCalls := by
    rw [List.map_map]
    exact List.map_id _
  calc
    ofTables p.tables = {
        allowedModules := p.tables.allowedRoots
        preloaded := p.tables.allowedPreloads
        blockedCalls := (p.blockedCalls.map CallPattern.text).map CallPattern.mk
        blockedAttributes := .ofList p.blockedAttributes.toList
        blockedModuleNames := (ofTables p.tables).blockedModuleNames
        builtins := (ofTables p.tables).builtins } := rfl
    _ = p := by
      rw [h.allowedRoots_tables, h.allowedPreloads_tables, hcalls, NameSet.ofList_toList,
        h.blockedModuleNames_tables, h.builtins_tables]

theorem warnings_tables (h : p.Agrees) : warnings p.tables = [] := by
  rw [warnings_eq_nil_iff, h.allowedRoots_tables]
  exact ⟨h.builtins_apart, h.preloaded_allowed⟩

end Agrees

/-- The tables that a policy takes over as they are are those that agree. -/
theorem ofTables_tables_iff : ofTables p.tables = p ↔ p.Agrees :=
  ⟨fun heq => heq ▸ agrees_ofTables p.tables, Agrees.ofTables_tables⟩

end Policy

/-- Whatever is configured, a policy exposes the builtins that may be exposed, allows the roots of
the configured modules, preloads what could be imported and blocks the names of what is out of
reach. So its tables agree with one another, and the policy of these tables is the same policy, with
nothing to warn of. -/
theorem tables_agree (t : PolicyTables) :
    let policy := Policy.ofTables t
    policy.MadeOf t ∧ policy.Agrees ∧
      Policy.ofTables policy.tables = policy ∧ Policy.warnings policy.tables = [] := by
  intro policy
  have hmade : policy.MadeOf t := Policy.madeOf_ofTables t
  have hagrees : policy.Agrees := hmade.agrees
  exact ⟨hmade, hagrees, Policy.ofTables_tables_iff.2 hagrees, hagrees.warnings_tables⟩

-- A preload that is left out no longer keeps its name from being blocked.
example :
    let t : PolicyTables :=
      ⟨["os.path"], [⟨"p", "os.path"⟩, ⟨"s", "sys"⟩], [], [], ["s", "p", "os"], ["len", "open"]⟩
    (Policy.ofTables t).blockedModuleNames.toList = ["s"] ∧
      Policy.warnings t = [.refusedBuiltin "open", .skippedPreload "sys"] := by
  decide +kernel

end ScriptSandbox
