import ScriptSandbox.Source.Lexeme

/-!
Letters in full width. The language takes a name with such letters for the name with the letters of
ASCII in their place. They are letters as well, and no other character of the grammar.
-/

namespace ScriptSandbox.Text

def spell (wide : Bool) (c : Char) : Char :=
  if wide && c.isAlpha then Char.ofNat (c.toNat + 0xFEE0) else c

variable {c d : Char} {wide : Bool}

theorem toNat_of_isAlpha (h : c.isAlpha = true) :
    0x41 ≤ c.toNat ∧ c.toNat ≤ 0x5A ∨ 0x61 ≤ c.toNat ∧ c.toNat ≤ 0x7A := by
  have hcases : c.isUpper = true ∨ c.isLower = true := Bool.or_eq_true_iff.1 h
  rcases hcases with hupper | hlower
  · obtain ⟨hfirst, hlast⟩ := of_decide_eq_true hupper
    exact .inl ⟨UInt32.le_iff_toNat_le.1 hfirst, UInt32.le_iff_toNat_le.1 hlast⟩
  · obtain ⟨hfirst, hlast⟩ := Bool.and_eq_true_iff.1 hlower
    have hfirst : 'a'.val ≤ c.val := of_decide_eq_true hfirst
    have hlast : c.val ≤ 'z'.val := of_decide_eq_true hlast
    exact .inr ⟨UInt32.le_iff_toNat_le.1 hfirst, UInt32.le_iff_toNat_le.1 hlast⟩

def IsFullwidth (c : Char) : Prop :=
  0xFF21 ≤ c.toNat ∧ c.toNat ≤ 0xFF3A ∨ 0xFF41 ≤ c.toNat ∧ c.toNat ≤ 0xFF5A

theorem spell_cases (wide : Bool) (c : Char) :
    spell wide c = c ∨ c.isAlpha = true ∧ IsFullwidth (spell wide c) := by
  unfold spell
  split
  · rename_i h
    rw [Bool.and_eq_true] at h
    have hrange := toNat_of_isAlpha h.2
    have hvalid : (c.toNat + 0xFEE0).isValidChar := .inr (by omega)
    refine .inr ⟨h.2, ?_⟩
    rw [IsFullwidth, Char.ofNat, dif_pos hvalid]
    change (0xFF21 ≤ c.toNat + 0xFEE0 ∧ c.toNat + 0xFEE0 ≤ 0xFF3A) ∨
      (0xFF41 ≤ c.toNat + 0xFEE0 ∧ c.toNat + 0xFEE0 ≤ 0xFF5A)
    omega
  · exact .inl rfl

@[simp] theorem spell_false (c : Char) : spell false c = c := rfl

theorem IsFullwidth.isAlphabetic (h : IsFullwidth c) : isAlphabetic c = true := by
  have hascii : ¬ c.toNat < 0x80 := by
    unfold IsFullwidth at h
    omega
  rw [Text.isAlphabetic, if_neg hascii, CodePoints.has_iff]
  rcases h with h | h
  · exact ⟨(0xff21, 0xff3a), by decide, h⟩
  · exact ⟨(0xff41, 0xff5a), by decide, h⟩

theorem spell_of_letters {test : Char → Bool} (hascii : ∀ c, c.isAlpha = true → test c = true)
    (hwide : ∀ c, IsFullwidth c → test c = true) (wide : Bool) (c : Char) :
    test (spell wide c) = test c := by
  rcases spell_cases wide c with heq | ⟨halpha, hfull⟩
  · rw [heq]
  · rw [hascii c halpha, hwide _ hfull]

@[simp] theorem isWordStart_spell (wide : Bool) (c : Char) :
    isWordStart (spell wide c) = isWordStart c :=
  spell_of_letters (fun c h => by simp [isWordStart, isAlphabetic_of_isAlpha h])
    (fun c h => by simp [isWordStart, h.isAlphabetic]) wide c

@[simp] theorem isWordPart_spell (wide : Bool) (c : Char) :
    isWordPart (spell wide c) = isWordPart c :=
  spell_of_letters (fun c h => by simp [isWordPart, isAlphabetic_of_isAlpha h])
    (fun c h => by simp [isWordPart, h.isAlphabetic]) wide c

def IsMark (d : Char) : Prop :=
  d.isAlpha = false ∧ d.toNat < 0x80

instance (d : Char) : Decidable (IsMark d) :=
  inferInstanceAs (Decidable (_ ∧ _))

theorem spell_eq_iff (hd : IsMark d) : spell wide c = d ↔ c = d := by
  rcases spell_cases wide c with heq | ⟨halpha, hfull⟩
  · rw [heq]
  · refine iff_of_false ?_ ?_
    · intro h
      have hsmall := hd.2
      rw [← h] at hsmall
      unfold IsFullwidth at hfull
      omega
    · rintro rfl
      rw [hd.1] at halpha
      cases halpha

@[simp] theorem beq_spell (hd : IsMark d) : (spell wide c == d) = (c == d) := by
  rw [Bool.eq_iff_iff, beq_iff_eq, beq_iff_eq, spell_eq_iff hd]

theorem spell_of_marks {test : Char → Bool} (h : ∀ d, test d = true → IsMark d) (wide : Bool) (c : Char) :
    test (spell wide c) = test c := by
  rw [Bool.eq_iff_iff]
  rcases spell_cases wide c with heq | ⟨halpha, hfull⟩
  · rw [heq]
  · refine iff_of_false (fun htrue => ?_) fun htrue => ?_
    · have hsmall := (h _ htrue).2
      unfold IsFullwidth at hfull
      omega
    · rw [(h _ htrue).1] at halpha
      cases halpha

theorem isMark_of_isDigit (h : d.isDigit = true) : IsMark d := by
  have hrange : 0x30 ≤ d.toNat ∧ d.toNat ≤ 0x39 := by
    simpa [Char.isDigit, UInt32.le_iff_toNat_le] using h
  refine ⟨Bool.eq_false_iff.2 fun halpha => ?_, by omega⟩
  have := toNat_of_isAlpha halpha
  omega

theorem IsMark.isWordStart (h : IsMark d) (hne : d ≠ '_') : isWordStart d = false := by
  rw [Text.isWordStart, isAlphabetic, if_pos h.2, h.1, Bool.false_or]
  exact beq_false_of_ne hne

end ScriptSandbox.Text
