import ScriptSandbox.Proofs.Isolation.MessageOrder

/-!
The error stream of an outcome. It is kept in two steps: what the interpreter wrote there itself is cut
to the cap and marked, and the text of that, with its marker, comes behind what the script wrote and is
cut once more. The second cut goes through the marker where the first one left room in whole characters.
-/

namespace ScriptSandbox

open String (utf8Len)

def writtenTo (stream : OutputStream) : List ChildMessage → String
  | [] => ""
  | .output s data _ :: rest =>
    if s = stream then data ++ writtenTo stream rest else writtenTo stream rest
  | .report _ :: rest => writtenTo stream rest

section
variable {stream : OutputStream} {messages : List ChildMessage}

theorem mem_framesOf {f : String × Bool} :
    f ∈ framesOf stream messages ↔ .output stream f.1 f.2 ∈ messages := by
  induction messages with
  | nil => simp [framesOf]
  | cons m messages ih =>
      rcases m with ⟨s, data, overflow⟩ | r
      · by_cases hs : s = stream
        · simp [framesOf, hs, ih, Prod.ext_iff]
        · simp [framesOf, hs, ih, Ne.symm hs]
      · simp [framesOf, ih]

theorem heard_framesOf (h : ∀ data, ChildMessage.output stream data true ∉ messages) :
    heard (framesOf stream messages) = writtenTo stream messages := by
  induction messages with
  | nil => rfl
  | cons m messages ih =>
      have hrest := ih fun data hmem => h data (List.mem_cons_of_mem m hmem)
      rcases m with ⟨s, data, overflow⟩ | r
      · by_cases hs : s = stream
        · cases overflow with
          | false => simp [framesOf, writtenTo, heard, hs, hrest]
          | true => exact absurd (hs ▸ List.mem_cons_self) (h data)
        · simp [framesOf, writtenTo, hs, hrest]
      · exact hrest

end

namespace Collector

variable {c : Collector} {all : List Char} {messages : List ChildMessage}

theorem holds_foldl (hc : c.stderr.Holds all)
    (h : ∀ data, ChildMessage.output .stderr data true ∉ messages) :
    (messages.foldl accept c).stderr.Holds (all ++ (writtenTo .stderr messages).toList) ∧
      (messages.foldl accept c).stderr.cap = c.stderr.cap := by
  have hflags : ¬ ∃ f ∈ framesOf .stderr messages, f.2 = true := by
    rintro ⟨⟨data, overflow⟩, hf, rfl⟩
    exact h data (mem_framesOf.1 hf)
  obtain ⟨hlongest, htruncated⟩ := hc.hear (framesOf .stderr messages)
  rw [heard_framesOf h] at hlongest htruncated
  rw [or_iff_left hflags] at htruncated
  rw [foldl_accept]
  exact ⟨⟨by simpa using hlongest, by simpa using htruncated⟩, Buffer.cap_hear _ _⟩

theorem stderr_of_finish {ending : Ending} {raw : Buffer} {outcome : Outcome}
    (h : c.finish ending raw = .ok outcome) : outcome.stderr = (c.allStderr raw).contents := by
  obtain ⟨other, hok, -, hstderr⟩ | ⟨r, message, -, -, herror⟩ := c.finish_cases ending raw
  · rw [hok] at h
    cases h
    exact hstderr
  · rw [herror] at h
    cases h

end Collector

theorem prefix_of_utf8Len_le {first second chars : List Char} (hfirst : first <+: chars)
    (hsecond : second <+: chars) (hle : utf8Len first ≤ utf8Len second) : first <+: second := by
  rcases List.prefix_or_prefix_of_prefix hfirst hsecond with h | ⟨rest, rfl⟩
  · exact h
  · rw [String.utf8Len_append] at hle
    have hrest : rest = [] := String.utf8Len_eq_zero.1 (by omega)
    exact ⟨[], by rw [hrest, List.append_nil, List.append_nil]⟩

/-- The second cut, with the marker of the first one still in the text. It leaves a beginning of what
was written just if it goes through no marker, and through no replacement character that stands for a
cut one. -/
theorem prefix_of_marked_iff {cap : Nat} {bytes : List UInt8} {frames kept text : List Char}
    (hkept : Longest cap (Text.decodeChars [] (bytes.take cap)) kept)
    (hmissing : cap < bytes.length ∨ cap < utf8Len (Text.decodeChars [] (bytes.take cap)))
    (htext : Longest cap (frames ++ (kept ++ truncationMarker.toList)) text) :
    text <+: frames ++ Text.decodeChars [] bytes ↔
      cap ≤ utf8Len frames + utf8Len kept ∧
        (kept <+: Text.decodeChars [] bytes ∨ frames ≠ []) := by
  have hsize := hkept.size_le
  constructor
  · intro hbegins
    by_cases hroom : utf8Len frames + utf8Len kept < cap
    -- The first character of the marker fits, and it is none of the text.
    · have hmarker : frames ++ (kept ++ ['\n']) <+: frames ++ (kept ++ truncationMarker.toList) :=
        (List.prefix_append_right_inj frames).2
          ((List.prefix_append_right_inj kept).2 ⟨truncationMarker.toList.tail, rfl⟩)
      have hleaked := (htext.prefix_of_size_le hmarker (by
        rw [String.utf8Len_append, String.utf8Len_append, show utf8Len ['\n'] = 1 from rfl]
        omega)).trans hbegins
      rw [List.prefix_append_right_inj] at hleaked
      obtain ⟨rest, hrest⟩ := hleaked
      rw [List.append_assoc, List.singleton_append] at hrest
      have hlarge := hkept.next_large hmissing (by omega) hrest.symm
      exact absurd hlarge (by decide)
    · refine ⟨Nat.le_of_not_lt hroom, ?_⟩
      by_cases hframes : frames = []
      · rw [hframes, List.nil_append] at htext hbegins
        exact .inl ((htext.prefix_of_size_le (List.prefix_append kept _) hsize).trans hbegins)
      · exact .inr hframes
  · rintro ⟨hfull, hclean⟩
    have hbegins : text <+: frames ++ kept := by
      refine prefix_of_utf8Len_le htext.begins ?_ ?_
      · exact (List.prefix_append_right_inj frames).2 (List.prefix_append kept _)
      · rw [String.utf8Len_append]
        exact htext.size_le.trans hfull
    by_cases hwhole : kept <+: Text.decodeChars [] bytes
    · exact hbegins.trans ((List.prefix_append_right_inj frames).2 hwhole)
    have hframes := hclean.resolve_left hwhole
    rcases List.prefix_or_prefix_of_prefix hbegins (List.prefix_append frames kept) with
      hshort | ⟨part, rfl⟩
    · exact hshort.trans (List.prefix_append frames _)
    · rw [List.prefix_append_right_inj] at hbegins ⊢
      refine hkept.short_begins hbegins ?_
      have htotal := htext.size_le
      have hpos : 0 < utf8Len frames :=
        Nat.pos_of_ne_zero fun hzero => hframes (String.utf8Len_eq_zero.1 hzero)
      rw [String.utf8Len_append] at htotal
      omega

theorem keptTo_marked_iff {cap : Nat} {all kept : String} (h : cap < all.utf8ByteSize)
    (hsize : kept.utf8ByteSize ≤ cap) :
    KeptTo cap all (kept ++ truncationMarker) ↔ kept.toList <+: all.toList := by
  rw [KeptTo, if_neg (Nat.not_le.2 h)]
  constructor
  · rintro ⟨lead, hbegins, -, heq⟩
    rw [← String.toList_inj, String.toList_append, String.toList_append] at heq
    rwa [List.append_cancel_right heq]
  · exact fun hbegins => ⟨kept, hbegins, hsize, rfl⟩

namespace Collector

variable {c : Collector} {cap : Nat} {retries : Bool} {s : Source} {frames : String}

theorem contents_allStderr_of_whole {raw : Buffer} (h : raw.truncated = false) :
    (c.allStderr raw).contents = (c.stderr.push raw.text).contents := by
  simp [allStderr, append, Buffer.contents, h]

theorem contents_allStderr_of_missing {raw : Buffer} (h : raw.truncated = true) :
    (c.allStderr raw).contents =
      (c.stderr.push (raw.text ++ truncationMarker)).text ++ truncationMarker := by
  simp [allStderr, append, Buffer.contents, Buffer.markTruncated, h]

theorem keptTo_allStderr_of_whole (hc : c.stderr.Holds frames.toList) (hcap : c.stderr.cap = cap)
    (hwhole : (drain retries cap s).truncated = false) :
    KeptTo cap (frames ++ Text.decode (s.arriving retries))
      (c.allStderr (drain retries cap s)).contents := by
  have hholds := hc.push (drain retries cap s).text
  have htext : (drain retries cap s).text = Text.decode (s.arriving retries) := by
    rw [← String.toList_inj, (whole_of_drain hwhole).1, Text.decode, String.toList_ofList]
  rw [htext, ← String.toList_append] at hholds
  rw [contents_allStderr_of_whole hwhole, htext, ← hcap, ← Buffer.cap_push]
  exact hholds.keptTo

theorem keptTo_allStderr_iff_of_missing (hc : c.stderr.Holds frames.toList)
    (hcap : c.stderr.cap = cap) (hmissing : (drain retries cap s).truncated = true) :
    KeptTo cap (frames ++ Text.decode (s.arriving retries))
        (c.allStderr (drain retries cap s)).contents ↔
      cap ≤ frames.utf8ByteSize + (drain retries cap s).size ∧
        ((drain retries cap s).text.toList <+: (Text.decode (s.arriving retries)).toList ∨
          frames ≠ "") := by
  obtain ⟨hlongest, htruncated⟩ := drain_spec retries cap s
  have hholds := (hc.push ((drain retries cap s).text ++ truncationMarker)).longest
  rw [Buffer.cap_push, hcap, String.toList_append] at hholds
  have hdecode : (Text.decode (s.arriving retries)).toList =
      Text.decodeChars [] (s.arriving retries).toList := by
    rw [Text.decode, String.toList_ofList]
  have hlarge : cap < (frames ++ Text.decode (s.arriving retries)).utf8ByteSize := by
    have hlt := lt_of_drain hmissing
    rw [← hdecode, String.utf8Len_toList] at hlt
    rw [String.utf8ByteSize_append]
    omega
  have hiff := prefix_of_marked_iff hlongest (htruncated.1 hmissing) hholds
  rw [contents_allStderr_of_missing hmissing,
    keptTo_marked_iff hlarge (by simpa using hholds.size_le), String.toList_append, hdecode, hiff,
    String.utf8Len_toList, String.utf8Len_toList]
  simp [Buffer.size]

end Collector

/-- All that is written to the error stream is in the outcome if it fits. If it does not, a beginning
that fits is there with one marker behind it, unless the interpreter itself wrote more than the cap and
either what is kept of that leaves room for a part of its marker, or a character of it is cut, with a
replacement character for it that just fits, and nothing stands before it. -/
theorem keptTo_stderr_iff {cap : Nat} {messages : List ChildMessage} {retries : Bool} {s : Source}
    {ending : Ending} {outcome : Outcome}
    (hflags : ∀ data, ChildMessage.output .stderr data true ∉ messages)
    (h : (messages.foldl Collector.accept (.ofCap cap)).finish ending (drain retries cap s) =
      .ok outcome) :
    let frames := writtenTo .stderr messages
    let own := Text.decode (s.arriving retries)
    let kept := drain retries cap s
    ((frames ++ own).utf8ByteSize ≤ cap → outcome.stderr = frames ++ own) ∧
      (KeptTo cap (frames ++ own) outcome.stderr ↔
        (kept.truncated = true → cap ≤ frames.utf8ByteSize + kept.size ∧
          (kept.text.toList <+: own.toList ∨ frames ≠ ""))) := by
  intro frames own kept
  have hstart : (Collector.ofCap cap).stderr.Holds [] := Buffer.holds_empty cap
  obtain ⟨hframes, hcap⟩ := Collector.holds_foldl hstart hflags
  rw [List.nil_append] at hframes
  change _ = cap at hcap
  rw [Collector.stderr_of_finish h]
  cases hkept : kept.truncated with
  | false =>
      have hall := Collector.keptTo_allStderr_of_whole hframes hcap hkept
      refine ⟨fun hfits => ?_, iff_of_true hall (by simp)⟩
      rwa [KeptTo, if_pos hfits] at hall
  | true =>
      refine ⟨fun hfits => ?_, ?_⟩
      · have hlt := lt_of_drain hkept
        rw [← String.toList_ofList (l := Text.decodeChars [] _), String.utf8Len_toList] at hlt
        rw [String.utf8ByteSize_append] at hfits
        exact absurd hlt (Nat.not_lt.2 (Nat.le_trans (Nat.le_add_left _ _) hfits))
      · exact (Collector.keptTo_allStderr_iff_of_missing hframes hcap hkept).trans
          (imp_iff_right rfl).symm

/-- The frames leave room for two of the four bytes that are kept of the interpreter's own text. -/
theorem keptTo_stderr_behind_frame :
    ∃ outcome, (([.output .stderr "ab" false] : List ChildMessage).foldl Collector.accept
        (.ofCap 4)).finish .killed (drain false 4 [.bytes ⟨#[99, 100, 195, 169, 33]⟩]) = .ok outcome ∧
      KeptTo 4 "abcdé!" outcome.stderr := by
  obtain ⟨outcome, hfinish⟩ : ∃ outcome,
      (([.output .stderr "ab" false] : List ChildMessage).foldl Collector.accept
        (.ofCap 4)).finish .killed (drain false 4 [.bytes ⟨#[99, 100, 195, 169, 33]⟩]) = .ok outcome :=
    ⟨_, rfl⟩
  refine ⟨outcome, hfinish, ?_⟩
  have hall : writtenTo .stderr [.output .stderr "ab" false] ++
      Text.decode (Source.arriving false [.bytes ⟨#[99, 100, 195, 169, 33]⟩]) = "abcdé!" := by
    decide +kernel
  rw [← hall]
  exact (keptTo_stderr_iff (by simp) hfinish).2.2 (by decide +kernel)

/-- The second "é" is cut, so three bytes are kept of five, and the line end of the marker fills the
room that is left. -/
theorem marker_leaks_behind_cut_character :
    ∃ outcome, (([] : List ChildMessage).foldl Collector.accept (.ofCap 4)).finish
        (.exited (.code 0)) (drain false 4 [.bytes ⟨#[97, 195, 169, 195, 169]⟩]) = .ok outcome ∧
      Text.decode (Source.arriving false [.bytes ⟨#[97, 195, 169, 195, 169]⟩]) = "aéé" ∧
      outcome.stderr = "aé\n" ++ truncationMarker ∧ ¬ KeptTo 4 "aéé" outcome.stderr := by
  have hstderr : ((Collector.ofCap 4).allStderr
      (drain false 4 [.bytes ⟨#[97, 195, 169, 195, 169]⟩])).contents = "aé\n" ++ truncationMarker := by
    decide +kernel
  have hleaked : ¬ KeptTo 4 "aéé" ("aé\n" ++ truncationMarker) := by
    rw [keptTo_marked_iff (by decide +kernel) (by decide +kernel)]
    decide +kernel
  rw [← hstderr] at hleaked
  exact ⟨_, rfl, by decide +kernel, hstderr, hleaked⟩

end ScriptSandbox
