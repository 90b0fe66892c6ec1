/-!
Computations that can fail. One that succeeds consists of parts that succeed, so a success is taken
apart step by step.
-/

namespace ScriptSandbox

variable {ε α β : Type}

theorem bind_eq_ok {x : Except ε α} {f : α → Except ε β} {b : β} :
    (x >>= f) = .ok b ↔ ∃ a, x = .ok a ∧ f a = .ok b := by
  cases x with
  | error e => simp [bind, Except.bind]
  | ok a => simp [bind, Except.bind]

theorem map_eq_ok {x : Except ε α} {f : α → β} {b : β} :
    x.map f = .ok b ↔ ∃ a, x = .ok a ∧ f a = b := by
  cases x with
  | error e => simp [Except.map]
  | ok a => simp [Except.map]

theorem bind_eq_error {x : Except ε α} {f : α → Except ε β} {e : ε} :
    (x >>= f) = .error e ↔ x = .error e ∨ ∃ a, x = .ok a ∧ f a = .error e := by
  cases x with
  | error e => simp [bind, Except.bind]
  | ok a => simp [bind, Except.bind]

theorem map_eq_error {x : Except ε α} {f : α → β} {e : ε} :
    x.map f = .error e ↔ x = .error e := by
  cases x with
  | error e => simp [Except.map]
  | ok a => simp [Except.map]

theorem pure_eq_ok {a b : α} : (pure a : Except ε α) = .ok b ↔ a = b := by
  simp [pure, Except.pure]

theorem exists_of_isOk {x : Except ε α} (h : x.isOk = true) : ∃ a, x = .ok a := by
  cases x with
  | error e => cases h
  | ok a => exact ⟨a, rfl⟩

/-- When a selection from some items succeeds, it is made for each of them, and what it finds is in
the result. -/
theorem exists_of_filterMapM {f : α → Except ε (Option β)} {items : List α} {found : List β} {a : α}
    (h : items.filterMapM f = .ok found) (ha : a ∈ items) :
    ∃ own, f a = .ok own ∧ ∀ b ∈ own, b ∈ found := by
  induction items generalizing found with
  | nil => cases ha
  | cons first rest ih =>
      rw [List.filterMapM_cons] at h
      obtain ⟨own, hown, h⟩ := bind_eq_ok.1 h
      cases own with
      | none =>
          rcases List.mem_cons.1 ha with rfl | ha
          · exact ⟨none, hown, by simp⟩
          · exact ih h ha
      | some b =>
          obtain ⟨more, hmore, h⟩ := bind_eq_ok.1 h
          cases pure_eq_ok.1 h
          rcases List.mem_cons.1 ha with rfl | ha
          · exact ⟨some b, hown, by simp⟩
          · obtain ⟨own, hother, hmem⟩ := ih hmore ha
            exact ⟨own, hother, fun c hc => List.mem_cons_of_mem _ (hmem c hc)⟩

/-- What a selection finds is found for one of the items. -/
theorem exists_of_mem_filterMapM {f : α → Except ε (Option β)} {items : List α} {found : List β}
    {b : β} (h : items.filterMapM f = .ok found) (hb : b ∈ found) :
    ∃ a ∈ items, f a = .ok (some b) := by
  induction items generalizing found with
  | nil =>
      cases pure_eq_ok.1 h
      cases hb
  | cons first rest ih =>
      rw [List.filterMapM_cons] at h
      obtain ⟨own, hown, h⟩ := bind_eq_ok.1 h
      cases own with
      | none =>
          obtain ⟨a, ha, hfound⟩ := ih h hb
          exact ⟨a, List.mem_cons_of_mem _ ha, hfound⟩
      | some c =>
          obtain ⟨more, hmore, h⟩ := bind_eq_ok.1 h
          cases pure_eq_ok.1 h
          rcases List.mem_cons.1 hb with rfl | hb
          · exact ⟨first, List.mem_cons_self, hown⟩
          · obtain ⟨a, ha, hfound⟩ := ih hmore hb
            exact ⟨a, List.mem_cons_of_mem _ ha, hfound⟩

theorem exists_error_of_filterMapM {f : α → Except ε (Option β)} {items : List α} {e : ε}
    (h : items.filterMapM f = .error e) : ∃ a ∈ items, f a = .error e := by
  induction items with
  | nil => cases h
  | cons first rest ih =>
      rw [List.filterMapM_cons] at h
      rcases bind_eq_error.1 h with hfirst | ⟨own, -, hrest⟩
      · exact ⟨first, List.mem_cons_self, hfirst⟩
      · have hfailed : rest.filterMapM f = .error e := by
          cases own with
          | none => exact hrest
          | some b =>
              rcases bind_eq_error.1 hrest with hfailed | ⟨_, -, hpure⟩
              · exact hfailed
              · cases hpure
        obtain ⟨a, ha, herror⟩ := ih hfailed
        exact ⟨a, List.mem_cons_of_mem _ ha, herror⟩

end ScriptSandbox
