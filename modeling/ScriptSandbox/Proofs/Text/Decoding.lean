import Mathlib
import ScriptSandbox.Text.Utf8

/-!
Decoding the beginning of a byte string. A character takes as many bytes as it is read from, and a
replacement character no fewer, so a text is never smaller than its bytes. The text of the first bytes
is a beginning of the whole text, but for a character that the cut goes through: it is replaced, and no
character of one byte stands there in the whole text.
-/

namespace ScriptSandbox

theorem toList_eq_data_toList (bytes : ByteArray) : bytes.toList = bytes.data.toList := by
  have hloop (i : Nat) (read : List UInt8) :
      ByteArray.toList.loop bytes i read = read.reverse ++ bytes.data.toList.drop i := by
    fun_induction ByteArray.toList.loop bytes i read with
    | case1 i read h ih =>
        have hi : i < bytes.data.toList.length := by simpa using h
        rw [ih, List.drop_eq_getElem_cons hi]
        simp [ByteArray.get!, h]
    | case2 i read h =>
        rw [List.drop_eq_nil_of_le (by simpa using Nat.le_of_not_lt h), List.append_nil]
  rw [ByteArray.toList, hloop, List.reverse_nil, List.nil_append, List.drop_zero]

@[simp] theorem length_toList (bytes : ByteArray) : bytes.toList.length = bytes.size := by
  rw [toList_eq_data_toList, Array.length_toList, ByteArray.size_data]

@[simp] theorem toList_extract_zero (bytes : ByteArray) (n : Nat) :
    (bytes.extract 0 n).toList = bytes.toList.take n := by
  rw [toList_eq_data_toList, toList_eq_data_toList, ByteArray.data_extract, Array.toList_extract,
    List.extract_eq_take_drop, List.drop_zero, Nat.sub_zero]

namespace Text

open String (utf8Len)

/-! ### The size of a character -/

theorem toNat_ofNat {n : Nat} (h : n < 0xD800 ∨ 0xDFFF < n ∧ n < 0x110000) :
    (Char.ofNat n).toNat = n := by
  rw [Char.ofNat, dif_pos h]
  rfl

theorem utf8Size_ofNat {n : Nat} (h : n < 0xD800 ∨ 0xDFFF < n ∧ n < 0x110000) :
    (Char.ofNat n).utf8Size =
      if n ≤ 0x7F then 1 else if n ≤ 0x7FF then 2 else if n ≤ 0xFFFF then 3 else 4 := by
  have hval : (Char.ofNat n).val.toNat = n := toNat_ofNat h
  simp only [Char.utf8Size, UInt32.le_iff_toNat_le, hval]
  rfl

/-! ### One character -/

variable {count n : Nat} {low high first : UInt8} {bytes rest : List UInt8} {c : Char}

theorem continuing_le : continuing count low high bytes ≤ count := by
  induction bytes generalizing count low high with
  | nil =>
      rw [continuing]
      exact Nat.zero_le count
  | cons b bytes ih =>
      cases count with
      | zero => exact Nat.le_refl _
      | succ count =>
          rw [continuing]
          split
          · exact Nat.succ_le_succ ih
          · exact Nat.zero_le _

theorem continuing_le_length : continuing count low high bytes ≤ bytes.length := by
  induction bytes generalizing count low high with
  | nil =>
      rw [continuing]
      exact Nat.zero_le _
  | cons b bytes ih =>
      cases count with
      | zero => exact Nat.zero_le _
      | succ count =>
          rw [continuing]
          split
          · exact Nat.succ_le_succ ih
          · exact Nat.zero_le _

@[simp] theorem continuing_take :
    continuing count low high (bytes.take n) = min n (continuing count low high bytes) := by
  induction bytes generalizing count low high n with
  | nil => simp [continuing]
  | cons b bytes ih =>
      cases n with
      | zero => simp [continuing]
      | succ n =>
          cases count with
          | zero => simp [continuing]
          | succ count =>
              rw [List.take_succ_cons, continuing, continuing]
              split
              · rw [ih, Nat.succ_min_succ]
              · rw [Nat.min_zero]

theorem exists_of_continuing (h : continuing (count + 1) low high bytes = count + 1) :
    ∃ b rest, bytes = b :: rest ∧ low.toNat ≤ b.toNat ∧ b.toNat ≤ high.toNat ∧
      continuing count 0x80 0xBF rest = count := by
  cases bytes with
  | nil => cases h
  | cons b rest =>
      rw [continuing] at h
      split at h
      · rename_i hb
        rw [Bool.and_eq_true, decide_eq_true_iff, decide_eq_true_iff, UInt8.le_iff_toNat_le,
          UInt8.le_iff_toNat_le] at hb
        exact ⟨b, rest, rfl, hb.1, hb.2, Nat.succ.inj h⟩
      · cases h

theorem continuation_cases (h : continuation first = some (count, low, high)) :
    count = 1 ∧ 0xC2 ≤ first.toNat ∧ first.toNat ≤ 0xDF ∧ low.toNat = 0x80 ∧ high.toNat = 0xBF ∨
    count = 2 ∧ (first.toNat = 0xE0 ∧ low.toNat = 0xA0 ∧ high.toNat = 0xBF ∨
      first.toNat = 0xED ∧ low.toNat = 0x80 ∧ high.toNat = 0x9F ∨
      0xE1 ≤ first.toNat ∧ first.toNat ≤ 0xEF ∧ first.toNat ≠ 0xED ∧ low.toNat = 0x80 ∧
        high.toNat = 0xBF) ∨
    count = 3 ∧ (first.toNat = 0xF0 ∧ low.toNat = 0x90 ∧ high.toNat = 0xBF ∨
      0xF1 ≤ first.toNat ∧ first.toNat ≤ 0xF3 ∧ low.toNat = 0x80 ∧ high.toNat = 0xBF ∨
      first.toNat = 0xF4 ∧ low.toNat = 0x80 ∧ high.toNat = 0x8F) := by
  simp only [continuation, Bool.and_eq_true, decide_eq_true_eq, beq_iff_eq, UInt8.le_iff_toNat_le,
    ← UInt8.toNat_inj] at h
  split at h
  · rename_i hfirst
    cases h
    exact .inl ⟨rfl, hfirst.1, hfirst.2, rfl, rfl⟩
  split at h
  · rename_i hfirst
    cases h
    exact .inr (.inl ⟨rfl, .inl ⟨hfirst, rfl, rfl⟩⟩)
  split at h
  · rename_i hfirst
    cases h
    exact .inr (.inl ⟨rfl, .inr (.inl ⟨hfirst, rfl, rfl⟩)⟩)
  split at h
  · rename_i hnot hfirst
    cases h
    exact .inr (.inl ⟨rfl, .inr (.inr ⟨hfirst.1, hfirst.2, hnot, rfl, rfl⟩)⟩)
  split at h
  · rename_i hfirst
    cases h
    exact .inr (.inr ⟨rfl, .inl ⟨hfirst, rfl, rfl⟩⟩)
  split at h
  · rename_i hfirst
    cases h
    exact .inr (.inr ⟨rfl, .inr (.inl ⟨hfirst.1, hfirst.2, rfl, rfl⟩)⟩)
  split at h
  · rename_i hfirst
    cases h
    exact .inr (.inr ⟨rfl, .inr (.inr ⟨hfirst, rfl, rfl⟩)⟩)
  · cases h

theorem utf8Size_joinBits (h : continuation first = some (count, low, high))
    (hfound : continuing count low high rest = count) :
    (Char.ofNat (joinBits (first.toNat % Nat.pow 2 (6 - count)) (rest.take count))).utf8Size =
      count + 1 := by
  rcases continuation_cases h with ⟨rfl, hfirst⟩ | ⟨rfl, hfirst⟩ | ⟨rfl, hfirst⟩
  · obtain ⟨b, rest, rfl, hb, hb', -⟩ := exists_of_continuing hfound
    simp only [joinBits, List.take_succ_cons, List.take_zero, List.foldl_cons, List.foldl_nil,
      show Nat.pow 2 (6 - 1) = 32 from rfl]
    rw [utf8Size_ofNat (by omega), if_neg (by omega), if_pos (by omega)]
  · obtain ⟨b, rest, rfl, hb, hb', hfound⟩ := exists_of_continuing hfound
    obtain ⟨b₂, rest, rfl, -, -, -⟩ := exists_of_continuing hfound
    simp only [joinBits, List.take_succ_cons, List.take_zero, List.foldl_cons, List.foldl_nil,
      show Nat.pow 2 (6 - 2) = 16 from rfl]
    rw [utf8Size_ofNat (by omega), if_neg (by omega), if_neg (by omega), if_pos (by omega)]
  · obtain ⟨b, rest, rfl, hb, hb', hfound⟩ := exists_of_continuing hfound
    obtain ⟨b₂, rest, rfl, -, -, hfound⟩ := exists_of_continuing hfound
    obtain ⟨b₃, rest, rfl, -, -, -⟩ := exists_of_continuing hfound
    simp only [joinBits, List.take_succ_cons, List.take_zero, List.foldl_cons, List.foldl_nil,
      show Nat.pow 2 (6 - 3) = 8 from rfl]
    rw [utf8Size_ofNat (by omega), if_neg (by omega), if_neg (by omega), if_neg (by omega)]

@[simp] theorem utf8Size_replacement : replacement.utf8Size = 3 := rfl

theorem firstChar_le_length : (firstChar first rest).2 ≤ rest.length := by
  unfold firstChar
  split
  · exact Nat.zero_le _
  split
  · exact Nat.zero_le _
  rename_i count low high _
  have hle : continuing count low high rest ≤ rest.length := continuing_le_length
  simp only
  split
  · rename_i hfound
    rwa [hfound] at hle
  · exact hle

theorem firstChar_lt_size :
    (firstChar first rest).2 < ((firstChar first rest).1.getD replacement).utf8Size := by
  unfold firstChar
  split
  · exact Char.utf8Size_pos _
  split
  · exact Char.utf8Size_pos _
  rename_i count low high hcontinuation
  simp only
  split
  · rename_i hfound
    rw [Option.getD_some, utf8Size_joinBits hcontinuation hfound]
    exact Nat.lt_succ_self count
  · rename_i hfound
    have hle : continuing count low high rest ≤ count := continuing_le
    have hcount : count ≤ 3 := by
      rcases continuation_cases hcontinuation with h | h | h
      · omega
      · omega
      · omega
    rw [Option.getD_none, utf8Size_replacement]
    omega

/-- Where the bytes of a character are all there, the ones behind them do not count. -/
theorem firstChar_take (h : (firstChar first rest).2 ≤ n) :
    firstChar first (rest.take n) = firstChar first rest := by
  unfold firstChar at h ⊢
  split
  · rfl
  split
  · rfl
  rename_i hascii _ count low high hcontinuation
  simp only [if_neg hascii, hcontinuation] at h
  have hsame : continuing count low high (rest.take n) = continuing count low high rest := by
    rw [continuing_take, Nat.min_eq_right]
    split at h
    · rename_i hfound
      rwa [hfound]
    · exact h
  simp only [hsame]
  split
  · rename_i hfound
    rw [if_pos hfound] at h
    rw [List.take_take, Nat.min_eq_left h]
  · rfl

/-- Where bytes of a character are cut off, the ones that are left make none. -/
theorem firstChar_take_of_lt (h : n < (firstChar first rest).2) :
    firstChar first (rest.take n) = (none, n) := by
  unfold firstChar at h ⊢
  split
  · rename_i hascii
    simp only [if_pos hascii] at h
    omega
  rename_i hascii
  simp only [if_neg hascii] at h
  split
  · rename_i hcontinuation
    simp only [hcontinuation] at h
    omega
  rename_i count low high hcontinuation
  simp only [hcontinuation] at h
  have hle : continuing count low high rest ≤ count := continuing_le
  have hfound : n < continuing count low high rest := by
    split at h
    · rename_i hfound
      rwa [hfound]
    · exact h
  have hleft : continuing count low high (rest.take n) = n := by
    rw [continuing_take, Nat.min_eq_left (Nat.le_of_lt hfound)]
  simp only [hleft]
  rw [if_neg (by omega)]

/-! ### A byte string -/

/-- Byte strings are gone through by characters. -/
@[elab_as_elim]
theorem charInduction {motive : List UInt8 → Prop} (nil : motive [])
    (cons : ∀ first rest, motive (rest.drop (firstChar first rest).2) → motive (first :: rest))
    (bytes : List UInt8) : motive bytes := by
  induction hlength : bytes.length using Nat.strongRecOn generalizing bytes with
  | ind length ih =>
      cases bytes with
      | nil => exact nil
      | cons first rest =>
          refine cons first rest (ih _ ?_ _ rfl)
          rw [← hlength, List.length_drop, List.length_cons]
          omega

theorem decodeChars_eq (read : List Char) (bytes : List UInt8) :
    decodeChars read bytes = read.reverse ++ decodeChars [] bytes := by
  induction bytes using charInduction generalizing read with
  | nil => simp [decodeChars]
  | cons first rest ih =>
      rw [decodeChars, decodeChars, ih, ih [_]]
      simp

@[simp] theorem decodeChars_nil : decodeChars [] [] = [] := by
  rw [decodeChars, List.reverse_nil]

theorem decodeChars_cons (first : UInt8) (rest : List UInt8) :
    decodeChars [] (first :: rest) = (firstChar first rest).1.getD replacement ::
      decodeChars [] (rest.drop (firstChar first rest).2) := by
  rw [decodeChars, decodeChars_eq, List.reverse_singleton, List.singleton_append]

theorem length_le_utf8Len (bytes : List UInt8) :
    bytes.length ≤ utf8Len (decodeChars [] bytes) := by
  induction bytes using charInduction with
  | nil => exact Nat.zero_le _
  | cons first rest ih =>
      have hle := @firstChar_le_length first rest
      have hsize := @firstChar_lt_size first rest
      rw [decodeChars_cons, String.utf8Len_cons, List.length_cons]
      rw [List.length_drop] at ih
      omega

/-- The text of the first bytes is a beginning of the whole text, or one with a replacement character
in the place of a larger character. -/
theorem decodeChars_take (n : Nat) (bytes : List UInt8) :
    ∃ lead : List Char, lead <+: decodeChars [] bytes ∧
      (decodeChars [] (bytes.take n) = lead ∨
        decodeChars [] (bytes.take n) = lead ++ [replacement] ∧
          ∀ (c : Char) (rest : List Char), decodeChars [] bytes = lead ++ c :: rest →
            1 < c.utf8Size) := by
  induction bytes using charInduction generalizing n with
  | nil => exact ⟨[], List.nil_prefix, .inl (by rw [List.take_nil, decodeChars_nil])⟩
  | cons first rest ih =>
      cases n with
      | zero => exact ⟨[], List.nil_prefix, .inl (by rw [List.take_zero, decodeChars_nil])⟩
      | succ n =>
          rw [List.take_succ_cons, decodeChars_cons, decodeChars_cons]
          have hsize := @firstChar_lt_size first rest
          by_cases hn : (firstChar first rest).2 ≤ n
          · obtain ⟨lead, hlead, hcut⟩ := ih (n - (firstChar first rest).2)
            rw [firstChar_take hn, List.drop_take]
            refine ⟨(firstChar first rest).1.getD replacement :: lead,
              List.cons_prefix_cons.2 ⟨rfl, hlead⟩, ?_⟩
            rcases hcut with hcut | ⟨hcut, hlarge⟩
            · exact .inl (by rw [hcut])
            · refine .inr ⟨by rw [hcut, List.cons_append], fun c more h => ?_⟩
              rw [List.cons_append] at h
              exact hlarge c more (List.cons.inj h).2
          -- The cut goes through the first character.
          · have hlt := Nat.lt_of_not_le hn
            have hnone : (rest.take n).drop n = [] :=
              List.drop_eq_nil_of_le (List.length_take_le n rest)
            rw [firstChar_take_of_lt hlt, Option.getD_none, hnone, decodeChars_nil]
            refine ⟨[], List.nil_prefix, .inr ⟨by rw [List.nil_append], fun c more h => ?_⟩⟩
            rw [List.nil_append] at h
            rw [← (List.cons.inj h).1]
            omega

end Text

end ScriptSandbox
