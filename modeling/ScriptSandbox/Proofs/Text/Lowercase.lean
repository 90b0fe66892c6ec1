import Mathlib.Data.List.Infix
import ScriptSandbox.Text.Phrase

/-!
Small letters outside of ASCII. `Text.mentions` makes small letters of the capitals of ASCII only,
and yet it finds what there is to find: only two other characters have letters of ASCII in their
small form, and the phrases that are looked for keep clear of both.
-/

namespace ScriptSandbox.Text

theorem occursIn_iff {phrase text : List Char} : occursIn phrase text = true ↔ phrase <:+: text := by
  induction text with
  | nil => simp [occursIn]
  | cons c text ih => simp [occursIn, ih, List.infix_cons_iff]

/-- A character is written as some others in small letters. Outside of ASCII, a sign for the Kelvin
becomes a letter of ASCII, and an `I` with a dot becomes one with the dot behind it. -/
inductive LowersTo : Char → List Char → Prop
  | ascii {c} : c.toNat < 128 → LowersTo c [c.toLower]
  | kelvin : LowersTo '\u212A' ['k']
  | dotted : LowersTo '\u0130' ['i', '\u0307']
  | other {c d word} : 128 ≤ c.toNat → c ≠ '\u212A' → c ≠ '\u0130' →
      (∀ e ∈ d :: word, 128 ≤ e.toNat) → LowersTo c (d :: word)

/-- A text is written as another one in small letters. What becomes of a character outside of ASCII
may depend on its neighbours. -/
inductive Lowers : List Char → List Char → Prop
  | nil : Lowers [] []
  | cons {c word text lowered} : LowersTo c word → Lowers text lowered →
      Lowers (c :: text) (word ++ lowered)

/-- A phrase in small letters of ASCII in which none of them can come from elsewhere. -/
structure IsPlainPhrase (phrase : List Char) : Prop where
  ascii : ∀ c ∈ phrase, c.toNat < 128
  kelvin : 'k' ∉ phrase
  dotted : phrase.getLast? ≠ some 'i'

variable {c : Char} {phrase word text lowered : List Char}

theorem IsPlainPhrase.tail (h : IsPlainPhrase (c :: phrase)) : IsPlainPhrase phrase where
  ascii := fun d hd => h.ascii d (List.mem_cons_of_mem _ hd)
  kelvin := fun hmem => h.kelvin (List.mem_cons_of_mem _ hmem)
  dotted := fun hlast => h.dotted (by
    rw [List.getLast?_cons, hlast]
    rfl)

theorem toLower_eq_self (h : 128 ≤ c.toNat) : c.toLower = c := by
  unfold Char.toLower
  split
  · rename_i hcapital
    have hle : c.toNat ≤ 'Z'.toNat := UInt32.le_iff_toNat_le.1 hcapital.2
    have hZ : 'Z'.toNat = 90 := rfl
    omega
  · rfl

theorem LowersTo.ne_nil (h : LowersTo c word) : word ≠ [] := by
  cases h <;> simp

theorem Lowers.of_ascii (h : ∀ c ∈ text, c.toNat < 128) : Lowers text (text.map Char.toLower) := by
  induction text with
  | nil => exact .nil
  | cons c text ih =>
      obtain ⟨hc, htext⟩ := List.forall_mem_cons.1 h
      exact .cons (.ascii hc) (ih htext)

theorem LowersTo.tail (h : LowersTo c word) : ∀ d ∈ word.tail, 128 ≤ d.toNat := by
  cases h with
  | ascii => simp
  | kelvin => simp
  | dotted => simp
  | other _ _ _ hword => exact fun d hd => hword d (List.mem_cons_of_mem _ hd)

/-- A plain phrase begins both texts or none. -/
theorem Lowers.isPrefix_iff (h : Lowers text lowered) (hplain : IsPlainPhrase phrase) :
    phrase <+: lowered ↔ phrase <+: text.map Char.toLower := by
  induction h generalizing phrase with
  | nil => rfl
  | @cons c word text lowered hword _ ih =>
      cases phrase with
      | nil => simp
      | cons x phrase =>
          have hx := hplain.ascii x List.mem_cons_self
          have hne {d : Char} (hd : 128 ≤ d.toNat) : x ≠ d := by
            rintro rfl
            omega
          rw [List.map_cons, List.cons_prefix_cons]
          cases hword with
          | ascii hc => rw [List.singleton_append, List.cons_prefix_cons, ih hplain.tail]
          | kelvin =>
              have hk : x ≠ 'k' := fun hk => hplain.kelvin (hk ▸ List.mem_cons_self)
              simp [List.cons_prefix_cons, hk, toLower_eq_self (c := '\u212A') (by decide),
                hne (d := '\u212A') (by decide)]
          | dotted =>
              rw [toLower_eq_self (c := '\u0130') (by decide)]
              simp only [hne (d := '\u0130') (by decide), false_and, iff_false]
              rw [List.cons_append, List.cons_prefix_cons]
              rintro ⟨rfl, hrest⟩
              -- After the letter the phrase would end, or go on with the dot.
              cases phrase with
              | nil => exact hplain.dotted rfl
              | cons y phrase =>
                  have hy := hplain.ascii y (by simp)
                  rw [List.cons_append, List.cons_prefix_cons] at hrest
                  rw [hrest.1] at hy
                  exact absurd hy (by decide)
          | other hc _ _ hword =>
              rw [toLower_eq_self hc, List.cons_append, List.cons_prefix_cons]
              simp [hne hc, hne (hword _ List.mem_cons_self)]

theorem infix_append_iff (hc : c.toNat < 128) (hword : ∀ d ∈ word, 128 ≤ d.toNat) :
    c :: phrase <:+: word ++ text ↔ c :: phrase <:+: text := by
  induction word with
  | nil => rfl
  | cons d word ih =>
      obtain ⟨hd, hword⟩ := List.forall_mem_cons.1 hword
      rw [List.cons_append, List.infix_cons_iff, or_iff_right, ih hword]
      intro hprefix
      rw [(List.cons_prefix_cons.1 hprefix).1] at hc
      omega

/-- A plain phrase stands in both texts or in none. -/
theorem Lowers.isInfix_iff (h : Lowers text lowered) (hplain : IsPlainPhrase phrase)
    (hne : phrase ≠ []) : phrase <:+: lowered ↔ phrase <:+: text.map Char.toLower := by
  obtain ⟨x, phrase, rfl⟩ := List.exists_cons_of_ne_nil hne
  induction h with
  | nil => rfl
  | @cons c word text lowered hword htext ih =>
      have hprefix := (Lowers.cons hword htext).isPrefix_iff hplain
      obtain ⟨d, word, rfl⟩ := List.exists_cons_of_ne_nil hword.ne_nil
      have htail : ∀ e ∈ word, 128 ≤ e.toNat := hword.tail
      rw [List.map_cons] at hprefix ⊢
      rw [List.cons_append] at hprefix ⊢
      rw [List.infix_cons_iff, List.infix_cons_iff, hprefix,
        infix_append_iff (hplain.ascii x List.mem_cons_self) htail, ih]

theorem mentions_iff {text phrase : String} (h : Lowers text.toList lowered)
    (hplain : IsPlainPhrase phrase.toList) (hne : phrase.toList ≠ []) :
    mentions text phrase = true ↔ phrase.toList <:+: lowered := by
  rw [h.isInfix_iff hplain hne]
  exact occursIn_iff

end ScriptSandbox.Text
