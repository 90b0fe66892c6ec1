import ScriptSandbox.Proofs.Scope.Protection

/-!
What a script leaves behind. The test that a variable has to pass to be given back looks at the
caller's variables before it looks at the names that the sandbox binds itself, so by itself it would
let a builtin through that has the name of a caller's variable. There is none: a scope keeps no
variable under such a name. Hence what is given back depends on the policy alone.
-/

namespace ScriptSandbox

/-- A name that a policy binds itself, to a builtin or to a preloaded module. -/
def Policy.Binds (p : Policy) (name : String) : Prop :=
  name ∈ p.builtins ∨ ∃ m ∈ p.preloaded, m.name = name

instance (p : Policy) : DecidablePred p.Binds :=
  fun _ => inferInstanceAs (Decidable (_ ∨ _))

/-! ### Restrictions -/

namespace JsonObject

theorem eq_of_members_eq {o other : JsonObject} (h : o.members = other.members) : o = other := by
  cases o
  cases other
  cases h
  rfl

theorem filter_congr {o : JsonObject} {keep test : String → Bool}
    (h : ∀ name ∈ o.names, keep name = test name) : o.filter keep = o.filter test :=
  eq_of_members_eq (List.filter_congr fun m hm => h m.1 (List.mem_map_of_mem hm))

@[simp] theorem filter_filter_self (o : JsonObject) (keep : String → Bool) :
    (o.filter keep).filter keep = o.filter keep := by
  refine eq_of_members_eq (List.filter_eq_self.2 fun m hm => ?_)
  exact (mem_members_filter.1 hm).2

theorem contains_iff {o : JsonObject} {name : String} :
    o.contains name = true ↔ name ∈ o.names := by
  simp [contains, names]

end JsonObject

/-! ### Leftovers -/

theorem head?_ne_underscore_iff {text : List Char} :
    (text.head? != some '_') = true ↔ ¬ ['_'] <+: text := by
  rw [bne_iff_ne, ne_eq, not_iff_not]
  cases text with
  | nil => simp
  | cons c rest =>
      rw [List.head?_cons, Option.some_inj, List.cons_prefix_cons]
      exact ⟨fun heq => ⟨heq.symm, List.nil_prefix⟩, fun hprefix => hprefix.1.symm⟩

namespace Scope

theorem provides_iff {p : Policy} {globals : JsonObject} {name : String} :
    (p.scope globals).provides name = true ↔
      p.Binds name ∨ name ∈ (p.scope globals).globals.names := by
  rw [provides, Bool.or_eq_true, Bool.or_eq_true, JsonObject.contains_iff]
  simp [Policy.scope, Policy.Binds]

theorem sanitizeLocals_idem (s : Scope) (locals : JsonObject) :
    s.sanitizeLocals (s.sanitizeLocals locals) = s.sanitizeLocals locals :=
  locals.filter_filter_self _

end Scope

namespace Policy

variable {t : PolicyTables} {globals : JsonObject} {name : String}

theorem not_binds_of_kept (h : name ∈ ((ofTables t).scope globals).globals.names) :
    ¬ (ofTables t).Binds name := fun hbinds =>
  (splits_scope_ofTables t globals).not_mem_names (withholds_of_bound hbinds) h

theorem sanitizeLocals_scope (t : PolicyTables) (globals locals : JsonObject) :
    ((ofTables t).scope globals).sanitizeLocals locals =
      locals.filter fun name => ¬ ['_'] <+: name.toList ∧ ¬ (ofTables t).Binds name := by
  refine JsonObject.filter_congr fun name _ => ?_
  rw [Bool.eq_iff_iff, Bool.and_eq_true, head?_ne_underscore_iff, decide_eq_true_iff,
    Bool.or_eq_true, JsonObject.contains_iff, Bool.not_eq_true', ← Bool.not_eq_true,
    Scope.provides_iff]
  refine and_congr_right fun _ => ⟨?_, fun hfree => ?_⟩
  · rintro (hkept | hfree)
    · exact not_binds_of_kept hkept
    · exact fun hbinds => hfree (.inl hbinds)
  · by_cases hkept : name ∈ ((ofTables t).scope globals).globals.names
    · exact .inl hkept
    · exact .inr fun hprovided => hprovided.elim hfree hkept

end Policy

/-- In the scope that some tables give to a script with a caller's variables, what is given back of
the variables that the script leaves behind are those that are not private and whose names the
policy does not bind, with their values. So a variable of the caller that is not private is given
back with the value that it has by then, nothing is given back under the name of a builtin or of a
preloaded module, and cleaning up once more changes nothing. -/
theorem leftovers_given_back (t : PolicyTables) (globals locals : JsonObject) :
    let policy := Policy.ofTables t
    let scope := policy.scope globals
    let given := scope.sanitizeLocals locals
    (given = locals.filter fun name => ¬ ['_'] <+: name.toList ∧ ¬ policy.Binds name) ∧
      (∀ m ∈ locals.members, m.1 ∈ scope.globals.names →
        (m ∈ given.members ↔ ¬ ['_'] <+: m.1.toList)) ∧
      (∀ name, name ∈ scope.builtins ∨ (∃ m ∈ scope.modules, m.name = name) →
        name ∉ given.names) ∧
      scope.sanitizeLocals given = given := by
  intro policy scope given
  have hgiven := Policy.sanitizeLocals_scope t globals locals
  refine ⟨hgiven, fun m hm hkept => ?_, fun name hbinds hname => ?_,
    scope.sanitizeLocals_idem locals⟩
  · have hfree : ¬ policy.Binds m.1 := Policy.not_binds_of_kept hkept
    simp only [given, scope, policy, hgiven, JsonObject.mem_members_filter, decide_eq_true_iff]
    exact ⟨fun h => h.2.1, fun h => ⟨hm, h, hfree⟩⟩
  · simp only [given, scope, policy, hgiven, JsonObject.names_filter, List.mem_filter,
      decide_eq_true_iff] at hname
    exact hname.2.2 hbinds

-- The caller's private variable is kept in the scope, but not given back.
example :
    let t : PolicyTables := ⟨["numpy"], [⟨"np", "numpy"⟩], [], [], [], ["len"]⟩
    let number (n : Int) : NormalJson := ⟨.number (.integer n), .number _⟩
    let scope := (Policy.ofTables t).scope
      ((JsonObject.empty.insert "w" (number 5)).insert "_w" (number 1))
    let locals := (((JsonObject.empty.insert "w" (number 10)).insert "_w" (number 2)).insert
      "np" (number 0)).insert "x" (number 3)
    scope.globals.names = ["_w", "w"] ∧ (scope.sanitizeLocals locals).names = ["w", "x"] := by
  decide +kernel

end ScriptSandbox
