import ScriptSandbox.Proofs.Capture.Bounds
import ScriptSandbox.Proofs.Capture.Frames
import ScriptSandbox.Proofs.Text.Encoding

/-!
Streams that are read to their end. What is kept of a stream depends on the bytes that it gives before
it ends or fails, and not on the reads that they come in. Of the bytes of a text a reader keeps what a
buffer keeps to which the text is written, unless three of the four bytes of a character fit: a
replacement character has as many bytes and is kept in its place.
-/

namespace ScriptSandbox

open String (utf8Len)

/-! ### The reads of a stream -/

theorem drain_eq_of_arriving {retries retries' : Bool} {cap : Nat} {s s' : Source}
    (h : s.arriving retries = s'.arriving retries') :
    drain retries cap s = drain retries' cap s' := by
  unfold drain
  rw [keepBytes_eq_ofBytes, keepBytes_eq_ofBytes, h]

@[simp] theorem Source.arriving_ofReads (retries : Bool) (reads : List ByteArray) :
    (ofReads reads).arriving retries = joined reads := by
  induction reads using reads_induction with
  | nil => rfl
  | empty reads ih => simpa using ih
  | cons first reads hfirst ih => simp [arriving, hfirst, ih]

/-- The bytes in a script of reads before the first end or failure. -/
def givenBy : List Read → ByteArray
  | [] => .empty
  | .bytes data :: rest => if data.isEmpty then .empty else data ++ givenBy rest
  | .failure _ :: _ => .empty

theorem arriving_eq_givenBy {script : List Read} (h : .failure .interrupted ∉ script)
    (retries : Bool) : Source.arriving retries script = givenBy script := by
  induction script with
  | nil => rfl
  | cons r script ih =>
      obtain ⟨hr, hscript⟩ := not_or.1 (mt List.mem_cons.2 h)
      rcases r with data | (- | -)
      · rw [givenBy, Source.arriving, ih hscript]
      · exact absurd rfl hr
      · rfl

/-- Two readers that meet the same bytes before the end or the failure of a stream keep the same,
whether they try again or not. It is the longest beginning that fits of the text of the first bytes, and
it is marked if there are more bytes or if their text is larger. -/
theorem drain_of_givenBy (cap : Nat) {script : List Read} (h : .failure .interrupted ∉ script)
    (retries : Bool) :
    let given := givenBy script
    let text := Text.decodeChars [] (given.toList.take cap)
    let kept := drain retries cap script
    (∀ retries' other, .failure .interrupted ∉ other → givenBy other = given →
        drain retries' cap other = kept) ∧
      Longest cap text kept.text.toList ∧
      (kept.truncated = true ↔ cap < given.size ∨ cap < utf8Len text) := by
  intro given text kept
  have harriving := arriving_eq_givenBy h retries
  refine ⟨fun retries' other hother hgiven => ?_, ?_⟩
  · refine drain_eq_of_arriving ?_
    rw [harriving, arriving_eq_givenBy hother, hgiven]
  · have hspec := drain_spec retries cap script
    rwa [harriving, length_toList] at hspec

/-- Two bytes of "é" fit behind "a", and the third read fails. -/
theorem drain_of_givenBy_cut :
    let script : List Read :=
      [.bytes ⟨#[97, 195]⟩, .bytes ⟨#[169, 195]⟩, .failure .connectionReset, .bytes ⟨#[98]⟩]
    .failure .interrupted ∉ script ∧ (drain true 4 script).text = "aé" ∧
      drain false 4 [.bytes (givenBy script)] = drain true 4 script := by
  intro script
  have hscript : .failure .interrupted ∉ script := by simp [script]
  have hkept := (drain_of_givenBy 4 hscript true).1 false [.bytes (givenBy script)] (by simp)
  exact ⟨hscript, by decide +kernel, hkept (by decide +kernel)⟩

/-! ### The bytes of a text -/

/-- A bound that leaves room for three of the four bytes of a character of a text. -/
def CutsFourth (cap : Nat) (text : String) : Prop :=
  ∃ lead c rest, text.toList = lead ++ c :: rest ∧ c.utf8Size = 4 ∧ utf8Len lead + 3 = cap

section

variable {cap : Nat} {text : String} {reads : List ByteArray} {lead rest : List Char} {c : Char}

theorem toList_arriving_ofReads (h : joined reads = text.toUTF8) (retries : Bool) :
    (Source.arriving retries (.ofReads reads)).toList =
      text.toList.flatMap String.utf8EncodeChar := by
  rw [Source.arriving_ofReads, h, Text.toList_toUTF8]

theorem drain_of_fits (h : joined reads = text.toUTF8) (hfits : utf8Len text.toList ≤ cap)
    (retries : Bool) :
    (drain retries cap (.ofReads reads)).text = text ∧
      (drain retries cap (.ofReads reads)).truncated = false := by
  obtain ⟨hlongest, htruncated⟩ := drain_spec retries cap (.ofReads reads)
  have hdecoded := Text.decodeChars_utf8Encode text.toList []
  rw [List.append_nil, Text.decodeChars_nil, List.append_nil] at hdecoded
  rw [toList_arriving_ofReads h,
    List.take_of_length_le (by rwa [Text.length_utf8Encode]), hdecoded] at hlongest htruncated
  rw [Text.length_utf8Encode, or_self] at htruncated
  refine ⟨String.toList_injective (hlongest.eq_of_size_le hfits), ?_⟩
  exact Bool.eq_false_iff.2 (mt htruncated.1 (Nat.not_lt.2 hfits))

/-- A text that does not fit is kept up to the character that does not fit. A replacement character
comes behind it if it has just the size of the bytes that are left. -/
theorem drain_of_next (h : joined reads = text.toUTF8) (htext : text.toList = lead ++ c :: rest)
    (hle : utf8Len lead ≤ cap) (hlt : cap < utf8Len lead + c.utf8Size) (retries : Bool) :
    (drain retries cap (.ofReads reads)).text.toList =
        lead ++ (if utf8Len lead + 3 = cap then [Text.replacement] else []) ∧
      (drain retries cap (.ofReads reads)).truncated = true := by
  obtain ⟨hlongest, htruncated⟩ := drain_spec retries cap (.ofReads reads)
  rw [toList_arriving_ofReads h, htext, Text.decodeChars_take_utf8Encode hle hlt]
    at hlongest htruncated
  rw [Text.length_utf8Encode] at htruncated
  constructor
  · refine hlongest.unique ?_
    have hsize : utf8Len [Text.replacement] = 3 := rfl
    split
    · rename_i hwhole
      rw [if_neg (by omega), List.append_nil]
      exact .of_size_le hle
    split
    · rename_i hthree
      refine .of_size_le ?_
      rw [String.utf8Len_append, hsize, hthree]
    · rename_i hwhole hthree
      rw [List.append_nil]
      have hfour := c.utf8Size_le_four
      refine .of_next hle ?_
      rw [Text.utf8Size_replacement]
      omega
  · refine htruncated.2 (.inl ?_)
    rw [String.utf8Len_append, String.utf8Len_cons]
    omega

theorem cutsFourth_iff (htext : text.toList = lead ++ c :: rest) (hle : utf8Len lead ≤ cap)
    (hlt : cap < utf8Len lead + c.utf8Size) : CutsFourth cap text ↔ utf8Len lead + 3 = cap := by
  constructor
  · rintro ⟨lead', d, rest', htext', hd, hcap⟩
    have hlongest : Longest cap text.toList lead := htext ▸ .of_next hle hlt
    have hlongest' : Longest cap text.toList lead' := htext' ▸ .of_next (by omega) (by omega)
    rw [hlongest.unique hlongest', hcap]
  · intro hcap
    have hfour := c.utf8Size_le_four
    exact ⟨lead, c, rest, htext, by omega, hcap⟩

theorem not_cutsFourth_of_fits (hfits : utf8Len text.toList ≤ cap) : ¬ CutsFourth cap text := by
  rintro ⟨lead, c, rest, htext, hc, hcap⟩
  rw [htext, String.utf8Len_append, String.utf8Len_cons] at hfits
  omega

end

/-- However the bytes of a text come in reads, a reader keeps the same of it as a buffer to which the
text is written, the longest beginning that fits, exactly if the bound does not leave room for just
three of the four bytes of a character. If it does, a replacement character is kept in its place. In
either case it is marked if the text is larger than the bound. -/
theorem drain_eq_push_iff (cap : Nat) (text : String) {reads : List ByteArray}
    (h : joined reads = text.toUTF8) (retries : Bool) :
    let whole := Buffer.push { cap } text
    let kept := drain retries cap (.ofReads reads)
    Longest cap text.toList whole.text.toList ∧
      (whole.truncated = true ↔ cap < text.utf8ByteSize) ∧ kept.truncated = whole.truncated ∧
      (kept.text = whole.text ↔ ¬ CutsFourth cap text) ∧
      (CutsFourth cap text → kept.text.toList = whole.text.toList ++ [Text.replacement]) := by
  intro whole kept
  obtain ⟨hlongest, htruncated⟩ : whole.Holds ([] ++ text.toList) :=
    (Buffer.holds_empty cap).push text
  rw [List.nil_append, Buffer.cap_push] at hlongest htruncated
  dsimp only at hlongest htruncated
  refine ⟨hlongest, by rwa [← String.utf8Len_toList], ?_⟩
  by_cases hfits : utf8Len text.toList ≤ cap
  · obtain ⟨htext, hflag⟩ := drain_of_fits h hfits retries
    have hwhole : whole.text = text := String.toList_injective (hlongest.eq_of_size_le hfits)
    have hnot := not_cutsFourth_of_fits hfits
    refine ⟨?_, iff_of_true (htext.trans hwhole.symm) hnot, fun hcuts => absurd hcuts hnot⟩
    exact hflag.trans (Bool.eq_false_iff.2 (mt htruncated.1 (Nat.not_lt.2 hfits))).symm
  · have hlarge := Nat.lt_of_not_le hfits
    obtain ⟨c, rest, hnext, hlt⟩ := hlongest.exists_next hlarge
    obtain ⟨htext, hflag⟩ := drain_of_next h hnext hlongest.size_le hlt retries
    rw [cutsFourth_iff hnext hlongest.size_le hlt, ← String.toList_inj]
    refine ⟨hflag.trans (htruncated.2 hlarge).symm, ?_, fun hthree => ?_⟩
    · rw [htext]
      split
      · rename_i hthree
        exact iff_of_false (by simp) (not_not.2 hthree)
      · rename_i hthree
        exact iff_of_true (List.append_nil _) hthree
    · rw [htext, if_pos hthree]

/-- The bound goes through the second character of three bytes, which come in two reads. -/
theorem drain_eq_push_split :
    joined [⟨#[97, 195]⟩, ⟨#[169, 226]⟩, ⟨#[130, 172]⟩] = "aé€".toUTF8 ∧
      (drain false 5 (.ofReads [⟨#[97, 195]⟩, ⟨#[169, 226]⟩, ⟨#[130, 172]⟩])).text =
        (Buffer.push { cap := 5 } "aé€").text := by
  have hreads : joined [⟨#[97, 195]⟩, ⟨#[169, 226]⟩, ⟨#[130, 172]⟩] = "aé€".toUTF8 := by
    decide +kernel
  refine ⟨hreads, (drain_eq_push_iff 5 "aé€" hreads false).2.2.2.1.2 ?_⟩
  have htext : "aé€".toList = ['a', 'é'] ++ '€' :: [] := rfl
  rw [cutsFourth_iff htext (by decide) (by decide)]
  decide

/-- Three of the four bytes of a character are taken for a replacement character. -/
theorem replacement_kept_of_cut_character :
    joined ["😀".toUTF8] = "😀".toUTF8 ∧
      (drain false 3 (.ofReads ["😀".toUTF8])).text = "\ufffd" ∧
      (drain true 3 (.ofReads ["😀".toUTF8])).text = "\ufffd" ∧
      (Buffer.push { cap := 3 } "😀").text = "" := by
  decide +kernel

end ScriptSandbox
