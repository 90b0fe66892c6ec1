import ScriptSandbox.Proofs.Text.Decoding

/-!
The bytes of texts. They are decoded to the text that they are the bytes of, whatever follows, and of a
character some of whose bytes are cut off one replacement character is left.
-/

namespace ScriptSandbox.Text

open String (utf8EncodeChar)

variable {count n : Nat} {low high first b : UInt8} {rest : List UInt8} {c : Char}

/-! ### One character -/

/-- The second byte of a character of several bytes is between the bounds that the first one sets. -/
def Continues (count : Nat) (first b : UInt8) : Prop :=
  ∃ low high, continuation first = some (count, low, high) ∧ low ≤ b ∧ b ≤ high

theorem continues_one (hfirst : 0xC2 ≤ first.toNat) (hfirst' : first.toNat ≤ 0xDF)
    (hb : 0x80 ≤ b.toNat) (hb' : b.toNat ≤ 0xBF) : Continues 1 first b := by
  refine ⟨0x80, 0xBF, ?_, hb, hb'⟩
  rw [continuation, if_pos]
  simpa [UInt8.le_iff_toNat_le] using And.intro hfirst hfirst'

theorem continues_two (hfirst : 0xE0 ≤ first.toNat) (hfirst' : first.toNat ≤ 0xEF)
    (hb : 0x80 ≤ b.toNat) (hb' : b.toNat ≤ 0xBF) (hleast : first.toNat = 0xE0 → 0xA0 ≤ b.toNat)
    (hgreatest : first.toNat = 0xED → b.toNat ≤ 0x9F) : Continues 2 first b := by
  by_cases hlow : first = 0xE0
  · subst hlow
    exact ⟨0xA0, 0xBF, rfl, hleast rfl, hb'⟩
  by_cases hhigh : first = 0xED
  · subst hhigh
    exact ⟨0x80, 0x9F, rfl, hb, hgreatest rfl⟩
  refine ⟨0x80, 0xBF, ?_, hb, hb'⟩
  simp only [← UInt8.toNat_inj, UInt8.reduceToNat] at hlow hhigh
  simp only [continuation, Bool.and_eq_true, decide_eq_true_eq, beq_iff_eq, UInt8.le_iff_toNat_le,
    ← UInt8.toNat_inj, UInt8.reduceToNat]
  rw [if_neg (by omega), if_neg hlow, if_neg hhigh, if_pos (by omega)]

theorem continues_three (hfirst : 0xF0 ≤ first.toNat) (hfirst' : first.toNat ≤ 0xF4)
    (hb : 0x80 ≤ b.toNat) (hb' : b.toNat ≤ 0xBF) (hleast : first.toNat = 0xF0 → 0x90 ≤ b.toNat)
    (hgreatest : first.toNat = 0xF4 → b.toNat ≤ 0x8F) : Continues 3 first b := by
  by_cases hlow : first = 0xF0
  · subst hlow
    exact ⟨0x90, 0xBF, rfl, hleast rfl, hb'⟩
  by_cases hhigh : first = 0xF4
  · subst hhigh
    exact ⟨0x80, 0x8F, rfl, hb, hgreatest rfl⟩
  refine ⟨0x80, 0xBF, ?_, hb, hb'⟩
  simp only [← UInt8.toNat_inj, UInt8.reduceToNat] at hlow hhigh
  simp only [continuation, Bool.and_eq_true, decide_eq_true_eq, beq_iff_eq, UInt8.le_iff_toNat_le,
    ← UInt8.toNat_inj, UInt8.reduceToNat]
  rw [if_neg (by omega), if_neg (by omega), if_neg (by omega), if_neg (by omega), if_neg hlow,
    if_pos (by omega)]

theorem continuing_append {tail : List UInt8}
    (htail : ∀ b ∈ tail, 0x80 ≤ b.toNat ∧ b.toNat ≤ 0xBF) :
    continuing tail.length 0x80 0xBF (tail ++ rest) = tail.length := by
  induction tail with
  | nil => cases rest <;> rfl
  | cons b tail ih =>
      obtain ⟨hb, htail⟩ := List.forall_mem_cons.1 htail
      rw [List.cons_append, List.length_cons, continuing, ih htail, if_pos]
      simpa [UInt8.le_iff_toNat_le] using hb

theorem firstChar_of_continues (tail : List UInt8) (bits : Nat)
    (h : Continues (tail.length + 1) first b)
    (htail : ∀ b ∈ tail, 0x80 ≤ b.toNat ∧ b.toNat ≤ 0xBF)
    (hbits : Nat.pow 2 (5 - tail.length) = bits)
    (hchar : joinBits (first.toNat % bits) (b :: tail) = c.toNat) (rest : List UInt8) :
    firstChar first (b :: tail ++ rest) = (some c, (b :: tail).length) := by
  obtain ⟨low, high, hcontinuation, hlow, hhigh⟩ := h
  have hlarge : ¬ first < 0x80 := by
    have hsmall : (0x80 : UInt8).toNat = 0x80 := rfl
    rw [UInt8.lt_iff_toNat_lt, hsmall]
    rcases continuation_cases hcontinuation with h | h | h <;> omega
  have hfound : continuing (tail.length + 1) low high (b :: tail ++ rest) = tail.length + 1 := by
    rw [List.cons_append, continuing, if_pos (by simp [hlow, hhigh]), continuing_append htail]
  rw [firstChar, if_neg hlarge, hcontinuation]
  dsimp only
  rw [if_pos hfound, ← List.length_cons (a := b), List.take_left, List.length_cons,
    Nat.add_sub_add_right 5 1, hbits, hchar, Char.ofNat_toNat]

/-- The bytes of a character are read as the character, whatever follows. -/
theorem firstChar_utf8EncodeChar (c : Char) : ∃ first tail, utf8EncodeChar c = first :: tail ∧
    ∀ rest, firstChar first (tail ++ rest) = (some c, tail.length) := by
  have hvalid : c.toNat < 0xD800 ∨ 0xDFFF < c.toNat ∧ c.toNat < 0x110000 := c.valid
  have hbyte (n : Nat) (h : n < 256) : (UInt8.ofNat n).toNat = n := UInt8.toNat_ofNat_of_lt' h
  have htail (n : Nat) : (UInt8.ofNat (n % 64 + 128)).toNat = n % 64 + 128 := hbyte _ (by omega)
  have hcontinues (n : Nat) : 0x80 ≤ (UInt8.ofNat (n % 64 + 128)).toNat ∧
      (UInt8.ofNat (n % 64 + 128)).toNat ≤ 0xBF := by
    rw [htail]
    omega
  unfold utf8EncodeChar
  rw [Char.toNat_val]
  dsimp only
  split
  · rename_i hone
    refine ⟨_, _, rfl, fun rest => ?_⟩
    have hsmall : UInt8.ofNat c.toNat < 0x80 := by
      rw [UInt8.lt_iff_toNat_lt, hbyte _ (by omega)]
      exact Nat.lt_succ_of_le hone
    rw [firstChar, if_pos hsmall, hbyte _ (by omega), Char.ofNat_toNat]
    rfl
  split
  · have hfirst := hbyte (c.toNat / 64 % 32 + 192) (by omega)
    have hsecond := hcontinues c.toNat
    have hbounds : Continues 1 (UInt8.ofNat (c.toNat / 64 % 32 + 192))
        (UInt8.ofNat (c.toNat % 64 + 128)) :=
      continues_one (by omega) (by omega) hsecond.1 hsecond.2
    refine ⟨_, _, rfl, firstChar_of_continues [] 32 hbounds (by simp) rfl ?_⟩
    simp only [joinBits, List.foldl_cons, List.foldl_nil, hfirst, htail]
    omega
  split
  · have hfirst := hbyte (c.toNat / 4096 % 16 + 224) (by omega)
    have hsecond := hcontinues (c.toNat / 64)
    have hbounds : Continues 2 (UInt8.ofNat (c.toNat / 4096 % 16 + 224))
        (UInt8.ofNat (c.toNat / 64 % 64 + 128)) :=
      continues_two (by omega) (by omega) hsecond.1 hsecond.2
        (by rw [hfirst, htail]; omega) (by rw [hfirst, htail]; omega)
    refine ⟨_, _, rfl, firstChar_of_continues [_] 16 hbounds ?_ rfl ?_⟩
    · simpa using hcontinues c.toNat
    · simp only [joinBits, List.foldl_cons, List.foldl_nil, hfirst, htail]
      omega
  · have hfirst := hbyte (c.toNat / 262144 % 8 + 240) (by omega)
    have hsecond := hcontinues (c.toNat / 4096)
    have hbounds : Continues 3 (UInt8.ofNat (c.toNat / 262144 % 8 + 240))
        (UInt8.ofNat (c.toNat / 4096 % 64 + 128)) :=
      continues_three (by omega) (by omega) hsecond.1 hsecond.2
        (by rw [hfirst, htail]; omega) (by rw [hfirst, htail]; omega)
    refine ⟨_, _, rfl, firstChar_of_continues [_, _] 8 hbounds ?_ rfl ?_⟩
    · simpa using And.intro (hcontinues (c.toNat / 64)) (hcontinues c.toNat)
    · simp only [joinBits, List.foldl_cons, List.foldl_nil, hfirst, htail]
      omega

/-! ### A text -/

@[simp] theorem decodeChars_utf8EncodeChar (c : Char) (bytes : List UInt8) :
    decodeChars [] (utf8EncodeChar c ++ bytes) = c :: decodeChars [] bytes := by
  obtain ⟨first, tail, hbytes, hread⟩ := firstChar_utf8EncodeChar c
  rw [hbytes, List.cons_append, decodeChars_cons, hread, Option.getD_some, List.drop_left]

/-- The bytes of some characters are read as the characters, whatever follows. -/
@[simp] theorem decodeChars_utf8Encode (chars : List Char) (bytes : List UInt8) :
    decodeChars [] (chars.flatMap utf8EncodeChar ++ bytes) = chars ++ decodeChars [] bytes := by
  induction chars with
  | nil => rfl
  | cons c chars ih =>
      rw [List.flatMap_cons, List.append_assoc, decodeChars_utf8EncodeChar, ih, List.cons_append]

theorem decodeChars_take_utf8EncodeChar (hpos : 0 < n) (hlt : n < c.utf8Size) :
    decodeChars [] ((utf8EncodeChar c).take n) = [replacement] := by
  obtain ⟨first, tail, hbytes, hread⟩ := firstChar_utf8EncodeChar c
  obtain ⟨n, rfl⟩ := Nat.exists_eq_add_of_lt hpos
  have hwhole := hread []
  rw [List.append_nil] at hwhole
  have hlength := String.length_utf8EncodeChar c
  rw [hbytes, List.length_cons] at hlength
  have hcut : n < (firstChar first tail).2 := by
    rw [hwhole]
    dsimp only
    omega
  rw [hbytes, Nat.zero_add, List.take_succ_cons, decodeChars_cons, firstChar_take_of_lt hcut,
    Option.getD_none, List.drop_eq_nil_of_le (List.length_take_le n tail), decodeChars_nil]

theorem length_utf8Encode (chars : List Char) :
    (chars.flatMap utf8EncodeChar).length = String.utf8Len chars := by
  induction chars with
  | nil => rfl
  | cons c chars ih =>
      rw [List.flatMap_cons, List.length_append, ih, String.length_utf8EncodeChar,
        String.utf8Len_cons, Nat.add_comm]

/-- Where the bytes of a text are cut within a character, a replacement character stands for it. -/
theorem decodeChars_take_utf8Encode {lead rest : List Char} (hle : String.utf8Len lead ≤ n)
    (hlt : n < String.utf8Len lead + c.utf8Size) :
    decodeChars [] (((lead ++ c :: rest).flatMap utf8EncodeChar).take n) =
      lead ++ if n = String.utf8Len lead then [] else [replacement] := by
  obtain ⟨k, rfl⟩ := Nat.exists_eq_add_of_le hle
  have hk : k < c.utf8Size := Nat.lt_of_add_lt_add_left hlt
  rw [List.flatMap_append, List.flatMap_cons, ← length_utf8Encode, List.take_length_add_append,
    List.take_append_of_le_length (by rw [String.length_utf8EncodeChar]; exact hk.le),
    decodeChars_utf8Encode]
  congr 1
  split
  · rename_i hzero
    rw [Nat.add_eq_left.1 hzero, List.take_zero, decodeChars_nil]
  · rename_i hpos
    exact decodeChars_take_utf8EncodeChar (Nat.pos_of_ne_zero fun h => hpos (by rw [h]; rfl)) hk

theorem toList_toUTF8 (s : String) : s.toUTF8.toList = s.toList.flatMap utf8EncodeChar := by
  rw [toList_eq_data_toList, String.toUTF8_eq_toByteArray]
  conv => lhs; rw [← String.ofList_toList (s := s), String.toByteArray_ofList, List.utf8Encode]
  rw [List.data_toByteArray]

end ScriptSandbox.Text
