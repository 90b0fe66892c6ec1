import ScriptSandbox.Capture.Drain
import ScriptSandbox.Proofs.Text.Decoding

/-!
What bounded texts have of the texts that are written to them. A buffer has the longest beginning that
fits, however the text comes in parts, and of a stream that is read to its end just the first bytes
count. Where they end within a character, what is kept may end in a replacement character.
-/

namespace ScriptSandbox

open String (utf8Len)

/-- The longest beginning of a text, in whole characters, of at most `room` bytes. -/
structure Longest (room : Nat) (chars kept : List Char) : Prop where
  begins : kept <+: chars
  size_le : utf8Len kept ≤ room
  /-- The character after it does not fit. -/
  next : ∀ c rest, chars = kept ++ c :: rest → room < utf8Len kept + c.utf8Size

theorem fitting_eq (room : Nat) (read chars : List Char) :
    fitting room read chars = read.reverse ++ fitting room [] chars := by
  induction chars generalizing room read with
  | nil => simp [fitting]
  | cons c chars ih =>
      rw [fitting, fitting]
      split
      · rw [ih, ih _ [c]]
        simp
      · simp

theorem longest_fitting (room : Nat) (chars : List Char) :
    Longest room chars (fitting room [] chars) := by
  induction chars generalizing room with
  | nil => exact ⟨List.prefix_rfl, Nat.zero_le room, fun c rest h => by cases h⟩
  | cons c chars ih =>
      rw [fitting]
      split
      · rename_i hfits
        obtain ⟨hbegins, hsize, hnext⟩ := ih (room - c.utf8Size)
        rw [fitting_eq, List.reverse_singleton, List.singleton_append]
        refine ⟨List.cons_prefix_cons.2 ⟨rfl, hbegins⟩, ?_, fun d rest h => ?_⟩
        · rw [String.utf8Len_cons]
          omega
        · have := hnext d rest (List.cons.inj h).2
          rw [String.utf8Len_cons]
          omega
      · rename_i hfits
        refine ⟨List.nil_prefix, Nat.zero_le room, fun d rest h => ?_⟩
        rw [List.reverse_nil, List.nil_append] at h
        rw [← (List.cons.inj h).1, List.reverse_nil, String.utf8Len_nil]
        omega

namespace Longest

variable {room : Nat} {chars kept lead more : List Char}

theorem prefix_of_size_le (h : Longest room chars kept) (hlead : lead <+: chars)
    (hsize : utf8Len lead ≤ room) : lead <+: kept := by
  rcases List.prefix_or_prefix_of_prefix hlead h.begins with hshort | ⟨rest, rfl⟩
  · exact hshort
  · cases rest with
    | nil => exact (List.append_nil kept).symm ▸ List.prefix_rfl
    | cons c rest =>
        obtain ⟨behind, rfl⟩ := hlead
        have hnext := h.next c (rest ++ behind) (by simp)
        rw [String.utf8Len_append, String.utf8Len_cons] at hsize
        omega

theorem eq_of_size_le (h : Longest room chars kept) (hsize : utf8Len chars ≤ room) :
    kept = chars :=
  h.begins.eq_of_length_le (h.prefix_of_size_le List.prefix_rfl hsize).length_le

theorem unique {other : List Char} (h : Longest room chars kept)
    (hother : Longest room chars other) : kept = other := by
  have hle := hother.prefix_of_size_le h.begins h.size_le
  have hge := h.prefix_of_size_le hother.begins hother.size_le
  exact hle.eq_of_length_le hge.length_le

theorem of_next {c : Char} {rest : List Char} (hle : utf8Len kept ≤ room)
    (hlt : room < utf8Len kept + c.utf8Size) : Longest room (kept ++ c :: rest) kept where
  begins := List.prefix_append kept (c :: rest)
  size_le := hle
  next d behind h := by
    rw [List.append_cancel_left_eq, List.cons.injEq] at h
    rw [← h.1]
    exact hlt

/-- Behind the longest beginning of a text that does not fit there is a character that does not fit. -/
theorem exists_next (h : Longest room chars kept) (hlt : room < utf8Len chars) :
    ∃ c rest, chars = kept ++ c :: rest ∧ room < utf8Len kept + c.utf8Size := by
  obtain ⟨behind, rfl⟩ := h.begins
  cases behind with
  | nil =>
      rw [List.append_nil] at hlt
      exact absurd h.size_le (Nat.not_le.2 hlt)
  | cons c rest => exact ⟨c, rest, rfl, h.next c rest rfl⟩

theorem of_size_le (hsize : utf8Len chars ≤ room) : Longest room chars chars where
  begins := List.prefix_rfl
  size_le := hsize
  next c rest h := absurd (congrArg List.length h) (by simp)

theorem append_of_lt (h : Longest room chars kept) (hlt : room < utf8Len chars) :
    Longest room (chars ++ more) kept where
  begins := h.begins.trans (List.prefix_append chars more)
  size_le := h.size_le
  next c rest heq := by
    obtain ⟨behind, rfl⟩ := h.begins
    cases behind with
    | nil =>
        rw [List.append_nil] at hlt
        exact absurd h.size_le (Nat.not_le.2 hlt)
    | cons d behind =>
        rw [List.append_assoc, List.cons_append] at heq
        obtain ⟨rfl, -⟩ := List.cons.inj (List.append_cancel_left heq)
        exact h.next d behind rfl

/-- After a text that fits, the rest of the room is for what comes behind it. -/
theorem append_of_le (h : Longest (room - utf8Len lead) chars kept) (hle : utf8Len lead ≤ room) :
    Longest room (lead ++ chars) (lead ++ kept) where
  begins := (List.prefix_append_right_inj lead).2 h.begins
  size_le := by
    have := h.size_le
    rw [String.utf8Len_append]
    omega
  next c rest heq := by
    rw [List.append_assoc] at heq
    have := h.next c rest (List.append_cancel_left heq)
    rw [String.utf8Len_append]
    omega

end Longest

attribute [ext] Buffer

namespace Buffer

/-- A buffer to which these characters were written. -/
structure Holds (b : Buffer) (all : List Char) : Prop where
  longest : Longest b.cap all b.text.toList
  truncated_iff : b.truncated = true ↔ b.cap < utf8Len all

variable {b : Buffer} {all : List Char}

theorem holds_empty (cap : Nat) : Holds { cap } [] :=
  ⟨.of_size_le (Nat.zero_le cap), by simp⟩

theorem Holds.eq_of_not_truncated (h : b.Holds all) (htruncated : b.truncated = false) :
    b.text.toList = all := by
  refine h.longest.eq_of_size_le (Nat.le_of_not_lt fun hlt => ?_)
  rw [h.truncated_iff.2 hlt] at htruncated
  cases htruncated

@[simp] theorem cap_push (b : Buffer) (s : String) : (b.push s).cap = b.cap := by
  unfold push
  split
  · rfl
  split
  · rfl
  · rfl

theorem Holds.push (h : b.Holds all) (s : String) : (b.push s).Holds (all ++ s.toList) := by
  by_cases htruncated : b.truncated = true
  · have hlt := h.truncated_iff.1 htruncated
    rw [Buffer.push, if_pos htruncated]
    refine ⟨h.longest.append_of_lt hlt, iff_of_true htruncated ?_⟩
    rw [String.utf8Len_append]
    omega
  have hall := h.eq_of_not_truncated (Bool.eq_false_iff.2 htruncated)
  have hsize : b.size = utf8Len all := by rw [size, ← hall, String.utf8Len_toList]
  have hle : utf8Len all ≤ b.cap := hall ▸ h.longest.size_le
  have htotal : utf8Len (all ++ s.toList) = b.size + s.utf8ByteSize := by
    rw [String.utf8Len_append, String.utf8Len_toList, hsize]
  rw [Buffer.push, if_neg htruncated]
  split
  · rename_i hfits
    refine ⟨?_, iff_of_false htruncated ?_⟩
    · rw [String.toList_append, hall]
      exact .of_size_le (by rwa [htotal])
    · rw [htotal]
      exact Nat.not_lt.2 hfits
  · rename_i hfits
    refine ⟨?_, iff_of_true rfl ?_⟩
    · rw [String.toList_append, hall, String.toList_ofList, hsize]
      exact (longest_fitting _ _).append_of_le hle
    · rw [htotal]
      exact Nat.lt_of_not_le hfits

end Buffer

/-- What is to be kept of a text: all of it if that is at most `cap` bytes, or else a beginning of at
most `cap` bytes with the marker. -/
def KeptTo (cap : Nat) (all kept : String) : Prop :=
  if all.utf8ByteSize ≤ cap then kept = all
  else ∃ lead : String, lead.toList <+: all.toList ∧ lead.utf8ByteSize ≤ cap ∧
    kept = lead ++ truncationMarker

theorem Buffer.Holds.keptTo {b : Buffer} {all : String} (h : b.Holds all.toList) :
    KeptTo b.cap all b.contents := by
  have hiff := h.truncated_iff
  rw [String.utf8Len_toList] at hiff
  unfold KeptTo Buffer.contents
  split
  · rename_i hfits
    have hwhole : b.truncated = false := Bool.eq_false_iff.2 fun ht => Nat.not_lt.2 hfits (hiff.1 ht)
    rw [if_neg (by simp [hwhole])]
    exact String.toList_injective (h.eq_of_not_truncated hwhole)
  · rename_i hfits
    rw [if_pos (hiff.2 (Nat.lt_of_not_le hfits))]
    exact ⟨b.text, h.longest.begins, by simpa using h.longest.size_le, rfl⟩

/-! ### A stream read to its end -/

/-- The bytes that a stream gives before it ends. -/
def Source.arriving (retries : Bool) : Source → ByteArray
  | [] => .empty
  | .bytes data :: rest => if data.isEmpty then .empty else data ++ arriving retries rest
  | .failure .interrupted :: rest => if retries then arriving retries rest else .empty
  | .failure .connectionReset :: _ => .empty

/-- What is kept of some bytes. -/
def Kept.ofBytes (cap : Nat) (all : ByteArray) : Kept :=
  ⟨all.extract 0 cap, decide (cap < all.size)⟩

variable {retries : Bool} {cap : Nat}

@[simp] theorem Kept.add_ofBytes (all more : ByteArray) :
    (ofBytes cap all).add cap more = ofBytes cap (all ++ more) := by
  have hroom : cap - (all.extract 0 cap).size = cap - all.size := by
    rw [ByteArray.size_extract]
    omega
  have hmin (n : Nat) : more.extract 0 (min more.size n) = more.extract 0 n := by
    rcases Nat.le_total more.size n with hle | hle
    · rw [Nat.min_eq_left hle, ← Nat.max_eq_left hle, ByteArray.extract_zero_size,
        ByteArray.extract_zero_max_size]
    · rw [Nat.min_eq_right hle]
  unfold Kept.add ofBytes
  simp only [hroom, Kept.mk.injEq]
  constructor
  · rw [hmin, ByteArray.extract_append, Nat.zero_sub]
  · rw [ByteArray.size_append, ← Bool.decide_or, decide_eq_decide]
    omega

theorem keepBytes_eq (all : ByteArray) (s : Source) :
    keepBytes retries cap (.ofBytes cap all) s = .ofBytes cap (all ++ s.arriving retries) := by
  induction s generalizing all with
  | nil => rw [keepBytes, Source.arriving, ByteArray.append_empty]
  | cons read s ih =>
      rcases read with data | (- | -)
      · rw [keepBytes, Source.arriving]
        split
        · rw [ByteArray.append_empty]
        · rw [Kept.add_ofBytes, ih, ByteArray.append_assoc]
      · rw [keepBytes, Source.arriving]
        split
        · exact ih all
        · rw [ByteArray.append_empty]
      · rw [keepBytes, Source.arriving, ByteArray.append_empty]

theorem keepBytes_eq_ofBytes (retries : Bool) (cap : Nat) (s : Source) :
    keepBytes retries cap {} s = .ofBytes cap (s.arriving retries) := by
  have hempty : ({} : Kept) = .ofBytes cap .empty := by
    simp [Kept.ofBytes, ByteArray.extract_eq_empty_iff.2]
  rw [hempty, keepBytes_eq, ByteArray.empty_append]

/-- What is kept is the longest beginning of the text of the first bytes. -/
theorem drain_spec (retries : Bool) (cap : Nat) (s : Source) :
    Longest cap (Text.decodeChars [] ((s.arriving retries).toList.take cap))
      (drain retries cap s).text.toList ∧
    ((drain retries cap s).truncated = true ↔ cap < (s.arriving retries).toList.length ∨
      cap < utf8Len (Text.decodeChars [] ((s.arriving retries).toList.take cap))) := by
  have hholds := (Buffer.holds_empty cap).push
    (Text.decode ((s.arriving retries).extract 0 cap))
  rw [List.nil_append, Text.decode, String.toList_ofList, toList_extract_zero] at hholds
  obtain ⟨hlongest, htruncated⟩ := hholds
  rw [Buffer.cap_push] at hlongest htruncated
  rw [length_toList]
  unfold drain
  simp only [keepBytes_eq_ofBytes, Kept.ofBytes, Buffer.pushBytes, Text.decode, toList_extract_zero,
    decide_eq_true_eq]
  split
  · rename_i hlt
    exact ⟨hlongest, iff_of_true rfl (.inl hlt)⟩
  · rename_i hle
    exact ⟨hlongest, htruncated.trans (by simp [hle])⟩

theorem whole_of_drain {s : Source} (h : (drain retries cap s).truncated = false) :
    (drain retries cap s).text.toList = Text.decodeChars [] (s.arriving retries).toList ∧
      utf8Len (Text.decodeChars [] (s.arriving retries).toList) ≤ cap := by
  obtain ⟨hlongest, htruncated⟩ := drain_spec retries cap s
  rw [h, Bool.false_eq_true, false_iff, not_or, Nat.not_lt, Nat.not_lt] at htruncated
  rw [List.take_of_length_le htruncated.1] at hlongest htruncated
  exact ⟨hlongest.eq_of_size_le htruncated.2, htruncated.2⟩

theorem lt_of_drain {s : Source} (h : (drain retries cap s).truncated = true) :
    cap < utf8Len (Text.decodeChars [] (s.arriving retries).toList) := by
  have hle := Text.length_le_utf8Len (s.arriving retries).toList
  by_cases hbytes : cap < (s.arriving retries).toList.length
  · omega
  · have hmissing := ((drain_spec retries cap s).2.1 h).resolve_left hbytes
    rwa [List.take_of_length_le (Nat.le_of_not_lt hbytes)] at hmissing

/-! ### Texts cut within a character -/

section
variable {bytes : List UInt8} {kept lead rest : List Char} {c : Char}

theorem Longest.short_begins (h : Longest cap (Text.decodeChars [] (bytes.take cap)) kept)
    (hlead : lead <+: kept) (hlt : utf8Len lead < cap) : lead <+: Text.decodeChars [] bytes := by
  obtain ⟨whole, hwhole, hcut⟩ := Text.decodeChars_take cap bytes
  have hbegins := hlead.trans h.begins
  rcases hcut with hcut | ⟨hcut, -⟩
  · rw [hcut] at hbegins
    exact hbegins.trans hwhole
  rw [hcut, List.prefix_concat_iff] at hbegins
  rcases hbegins with hall | hshort
  -- All of the text is smaller than the room, so no byte is cut off.
  · have hle := Text.length_le_utf8Len (bytes.take cap)
    rw [hcut, ← hall, List.length_take] at hle
    exact ⟨[], by rw [List.append_nil, hall, ← hcut, List.take_of_length_le (by omega)]⟩
  · exact hshort.trans hwhole

/-- Where there is room left behind what is kept, the next character takes several bytes. -/
theorem Longest.next_large (h : Longest cap (Text.decodeChars [] (bytes.take cap)) kept)
    (hmissing : cap < bytes.length ∨ cap < utf8Len (Text.decodeChars [] (bytes.take cap)))
    (hlt : utf8Len kept < cap) (hnext : Text.decodeChars [] bytes = kept ++ c :: rest) :
    1 < c.utf8Size := by
  obtain ⟨behind, hbehind⟩ := h.begins
  cases behind with
  | nil =>
      have hle := Text.length_le_utf8Len (bytes.take cap)
      rw [List.append_nil] at hbehind
      rw [← hbehind] at hmissing hle
      rw [List.length_take] at hle
      omega
  | cons d behind =>
      have hd := h.next d behind hbehind.symm
      have hsame (hbegins : kept ++ [d] <+: Text.decodeChars [] bytes) : 1 < c.utf8Size := by
        rw [hnext, List.prefix_append_right_inj, List.cons_prefix_cons] at hbegins
        rw [← hbegins.1]
        omega
      have hkept : kept ++ [d] <+: Text.decodeChars [] (bytes.take cap) :=
        ⟨behind, by rw [← hbehind, List.append_assoc, List.singleton_append]⟩
      obtain ⟨whole, hwhole, hcut⟩ := Text.decodeChars_take cap bytes
      rcases hcut with hcut | ⟨hcut, hlarge⟩
      · rw [hcut] at hkept
        exact hsame (hkept.trans hwhole)
      rw [hcut, List.prefix_concat_iff] at hkept
      rcases hkept with hall | hshort
      · rw [(List.append_inj' hall rfl).1] at hnext
        exact hlarge c rest hnext
      · exact hsame (hshort.trans hwhole)

end

end ScriptSandbox
