import ScriptSandbox.Proofs.Capture.Writing

/-!
Frames in a stream that breaks off. Wherever a stream of frames is cut, and however what is left of it
comes in single reads, a reader gets the payloads of the frames that are whole, in order and as they
were written, and then finds the stream at its end. The frame that the cut goes through is no payload
and no error. A reader that blocks and one that waits differ only in how they come by the next read,
so what is said here of reads holds of both.
-/

namespace ScriptSandbox

/-- Of two ways to cut a byte string, the second part of the one that cuts earlier begins with what
lies between the cuts. -/
theorem exists_of_append_eq_append {a b c d : ByteArray} (h : a ++ b = c ++ d)
    (hle : a.size ≤ c.size) : ∃ between, c = a ++ between ∧ b = between ++ d := by
  have hcut : c = c.extract 0 a.size ++ c.extract a.size c.size := (extract_append_extract hle).symm
  have hsize : a.size = (c.extract 0 a.size).size := by
    rw [ByteArray.size_extract]
    omega
  rw [hcut, ByteArray.append_assoc, ByteArray.append_eq_append_iff_of_size_eq_left hsize] at h
  exact ⟨c.extract a.size c.size, by rw [← h.1] at hcut; exact hcut, h.2⟩

/-! ### Reads -/

namespace Source

/-- The stream whose reads give these byte strings one after another. An empty one is passed over, as a
read that gives nothing is the end of a stream. -/
def ofReads (reads : List ByteArray) : Source :=
  (reads.filter (!·.isEmpty)).map .bytes

variable {first : ByteArray}

@[simp] theorem ofReads_nil : ofReads [] = [] := rfl

@[simp] theorem ofReads_empty_cons (reads : List ByteArray) :
    ofReads (.empty :: reads) = ofReads reads := rfl

@[simp] theorem ofReads_cons (h : first.isEmpty = false) (reads : List ByteArray) :
    ofReads (first :: reads) = .bytes first :: ofReads reads := by
  simp [ofReads, h]

/-- Induction on reads, of which the empty ones stand apart. -/
@[elab_as_elim]
theorem reads_induction {motive : List ByteArray → Prop} (nil : motive [])
    (empty : ∀ reads, motive reads → motive (.empty :: reads))
    (cons : ∀ first reads, first.isEmpty = false → motive reads → motive (first :: reads))
    (reads : List ByteArray) : motive reads := by
  induction reads with
  | nil => exact nil
  | cons first reads ih =>
      cases hfirst : first.isEmpty with
      | true =>
          cases ByteArray.size_eq_zero_iff.1 (beq_iff_eq.1 hfirst)
          exact empty reads ih
      | false => exact cons first reads hfirst ih

theorem readExactly_of_append {reads : List ByteArray} {count : Nat} {data tail : ByteArray}
    (hcount : data.size = count) (h : joined reads = data ++ tail) (read : ByteArray) :
    ∃ rest, (ofReads reads).readExactly count read = .complete (read ++ data) (ofReads rest) ∧
      joined rest = tail := by
  induction reads using reads_induction generalizing count read data with
  | nil =>
      obtain ⟨rfl, rfl⟩ := ByteArray.append_eq_empty_iff.1 h.symm
      subst hcount
      exact ⟨[], by simp [readExactly], rfl⟩
  | empty reads ih => exact ih hcount (by simpa using h) read
  | cons first reads hfirst ih =>
      rw [joined_cons] at h
      by_cases hzero : count = 0
      · subst hzero
        cases ByteArray.size_eq_zero_iff.1 hcount
        exact ⟨first :: reads, by simp [hfirst, readExactly], by simpa using h⟩
      by_cases hlt : count < first.size
      · obtain ⟨more, rfl, rfl⟩ := exists_of_append_eq_append h.symm (by omega)
        have hmore : more.isEmpty = false := by
          rw [ByteArray.size_append] at hlt
          exact beq_false_of_ne (by omega)
        refine ⟨more :: reads, ?_, rfl⟩
        simp only [ofReads_cons hfirst, ofReads_cons hmore, readExactly, if_neg hzero, hfirst,
          Bool.false_eq_true, if_false, if_pos hlt]
        subst hcount
        rw [ByteArray.extract_append_eq_left rfl, ByteArray.size_append,
          ByteArray.extract_append_eq_right rfl rfl]
      · obtain ⟨more, rfl, hmore⟩ := exists_of_append_eq_append h (by omega)
        have hless : more.size = count - first.size := by
          rw [← hcount, ByteArray.size_append, Nat.add_sub_cancel_left]
        obtain ⟨rest, hrest, htail⟩ := ih hless hmore (read ++ first)
        refine ⟨rest, ?_, htail⟩
        simp only [ofReads_cons hfirst, readExactly, if_neg hzero, hfirst, Bool.false_eq_true,
          if_false, if_neg hlt]
        rw [← ByteArray.append_assoc]
        exact hrest

theorem readExactly_of_lt {reads : List ByteArray} {count : Nat} {read : ByteArray}
    (h : (joined reads).size < count) : (ofReads reads).readExactly count read = .ended := by
  induction reads using reads_induction generalizing count read with
  | nil => simp [readExactly, Nat.ne_of_gt (Nat.zero_lt_of_lt h)]
  | empty reads ih => exact ih (by simpa using h)
  | cons first reads hfirst ih =>
      rw [joined_cons, ByteArray.size_append] at h
      simp only [ofReads_cons hfirst, readExactly, if_neg (show ¬ count = 0 by omega), hfirst,
        Bool.false_eq_true, if_false, if_neg (show ¬ count < first.size by omega)]
      exact ih (by omega)

end Source

/-! ### Frames -/

namespace Frame

@[simp] theorem size_header (n : Nat) : (header n).size = 4 := rfl

@[simp] theorem headerValue_header {n : Nat} (h : n ≤ maxPayload) : headerValue (header n) = n := by
  unfold maxPayload at h
  simp [headerValue, header]
  omega

variable {reads : List ByteArray} {payload tail : ByteArray}

theorem next_of_append (hfits : payload.size ≤ maxPayload)
    (h : joined reads = ofPayload payload ++ tail) :
    ∃ rest, next (.ofReads reads) = .payload payload (.ofReads rest) ∧ joined rest = tail := by
  rw [ofPayload, ByteArray.append_assoc] at h
  obtain ⟨more, hheader, hmore⟩ :=
    Source.readExactly_of_append (size_header payload.size) h .empty
  obtain ⟨rest, hpayload, hrest⟩ := Source.readExactly_of_append rfl hmore .empty
  refine ⟨rest, ?_, hrest⟩
  unfold next
  simp [hheader, headerValue_header hfits, Nat.not_lt.2 hfits, hpayload]

theorem next_of_lt (h : (joined reads).size < 4) : next (.ofReads reads) = .ended := by
  unfold next
  rw [Source.readExactly_of_lt h]

theorem next_of_cut {lost : ByteArray} (hfits : payload.size ≤ maxPayload)
    (h : joined reads ++ lost = ofPayload payload ++ tail)
    (hlt : (joined reads).size < (ofPayload payload).size) : next (.ofReads reads) = .ended := by
  by_cases hheader : (joined reads).size < 4
  · exact next_of_lt hheader
  rw [ofPayload, ByteArray.append_assoc] at h
  obtain ⟨part, hpart, -⟩ := exists_of_append_eq_append h.symm (by
    rw [size_header]
    omega)
  obtain ⟨rest, hread, hrest⟩ :=
    Source.readExactly_of_append (size_header payload.size) hpart .empty
  have hshort : (joined rest).size < payload.size := by
    rw [hpart, ofPayload, ByteArray.size_append, ByteArray.size_append] at hlt
    rw [hrest]
    omega
  unfold next
  simp [hread, headerValue_header hfits, Nat.not_lt.2 hfits, Source.readExactly_of_lt hshort]

@[simp] theorem readAll_of_ended {s : Source} (h : next s = .ended) (read : List ByteArray) :
    readAll read s = (read.reverse, none) := by
  rw [readAll]
  split <;> simp_all

theorem readAll_of_payload {s rest : Source} (h : next s = .payload payload rest)
    (read : List ByteArray) : readAll read s = readAll (payload :: read) rest := by
  rw [readAll]
  split <;> simp_all

/-- What a cut leaves of the frames of some payloads: `whole` are the first ones, up to the frame that
the cut goes through. -/
structure CutAt (cut : Nat) (payloads whole : List ByteArray) : Prop where
  begins : whole <+: payloads
  size_le : (stream whole).size ≤ cut
  lt_size : ∀ p, whole ++ [p] <+: payloads → cut < (stream (whole ++ [p])).size

section
variable {cut : Nat} {payloads whole : List ByteArray}

theorem CutAt.nil (cut : Nat) : CutAt cut [] [] where
  begins := List.prefix_rfl
  size_le := Nat.zero_le cut
  lt_size _ h := absurd (List.IsPrefix.length_le h) (by simp)

theorem CutAt.cons (hcut : (ofPayload payload).size ≤ cut)
    (h : CutAt (cut - (ofPayload payload).size) payloads whole) :
    CutAt cut (payload :: payloads) (payload :: whole) where
  begins := List.cons_prefix_cons.2 ⟨rfl, h.begins⟩
  size_le := by
    have hle := h.size_le
    rw [stream_cons, ByteArray.size_append]
    omega
  lt_size p hp := by
    have hlt := h.lt_size p (List.cons_prefix_cons.1 hp).2
    rw [List.cons_append, stream_cons, ByteArray.size_append]
    omega

theorem CutAt.first (hcut : cut < (ofPayload payload).size) :
    CutAt cut (payload :: payloads) [] where
  begins := List.nil_prefix
  size_le := Nat.zero_le cut
  lt_size p hp := by
    obtain ⟨rfl, -⟩ := List.cons_prefix_cons.1 hp
    simpa using hcut

@[simp] theorem size_stream_append (first second : List ByteArray) :
    (stream (first ++ second)).size = (stream first).size + (stream second).size := by
  induction first with
  | nil => simp
  | cons payload first ih =>
      simp [ih, Nat.add_assoc]

theorem CutAt.eq_of_begins {other : List ByteArray} (h : CutAt cut payloads whole)
    (hother : CutAt cut payloads other) (hmore : whole <+: other) : whole = other := by
  obtain ⟨more, rfl⟩ := hmore
  cases more with
  | nil => rw [List.append_nil]
  | cons p more =>
      have hbegins : whole ++ [p] <+: whole ++ p :: more :=
        (List.prefix_append_right_inj whole).2 (List.cons_prefix_cons.2 ⟨rfl, List.nil_prefix⟩)
      have hlt := h.lt_size p (hbegins.trans hother.begins)
      have hle := hother.size_le
      rw [List.append_cons, size_stream_append] at hle
      omega

theorem CutAt.eq {other : List ByteArray} (h : CutAt cut payloads whole)
    (hother : CutAt cut payloads other) : whole = other := by
  obtain hmore | hmore := List.prefix_or_prefix_of_prefix h.begins hother.begins
  · exact h.eq_of_begins hother hmore
  · exact (hother.eq_of_begins h hmore).symm

/-- From what a cut leaves of a stream the payloads of the whole frames are read, and then the stream
is at its end. -/
theorem readAll_of_cut (hfits : ∀ p ∈ payloads, p.size ≤ maxPayload)
    (h : joined reads = (stream payloads).extract 0 cut) (read : List ByteArray) :
    ∃ whole, CutAt cut payloads whole ∧
      readAll read (.ofReads reads) = (read.reverse ++ whole, none) := by
  induction payloads generalizing cut reads read with
  | nil =>
      have hended : next (.ofReads reads) = .ended := next_of_lt (by simp [h])
      exact ⟨[], .nil cut, by simp [hended]⟩
  | cons payload payloads ih =>
      obtain ⟨hfirst, hrest⟩ := List.forall_mem_cons.1 hfits
      by_cases hcut : (ofPayload payload).size ≤ cut
      · have hwhole : joined reads = ofPayload payload ++
            (stream payloads).extract 0 (cut - (ofPayload payload).size) := by
          rw [h, stream_cons, ByteArray.extract_append, Nat.zero_sub,
            ← Nat.max_eq_left hcut, ByteArray.extract_zero_max_size]
        obtain ⟨rest, hnext, hjoined⟩ := next_of_append hfirst hwhole
        obtain ⟨whole, hleft, hread⟩ := ih hrest hjoined (payload :: read)
        refine ⟨payload :: whole, hleft.cons hcut, ?_⟩
        rw [readAll_of_payload hnext, hread, List.reverse_cons, List.append_assoc,
          List.singleton_append]
      · have hlost : joined reads ++ (stream (payload :: payloads)).extract cut
            (stream (payload :: payloads)).size = ofPayload payload ++ stream payloads := by
          rw [h, extract_append_extract, stream_cons]
          rw [stream_cons, ByteArray.size_append]
          omega
        have hended : next (.ofReads reads) = .ended := next_of_cut hfirst hlost (by
          rw [h, ByteArray.size_extract]
          omega)
        exact ⟨[], .first (Nat.lt_of_not_le hcut), by simp [hended]⟩

end

end Frame

/-- Payloads that fit into frames are written in one way only. However the stream is cut and then read,
the payloads of the whole frames come out of it, and then its end. A payload that does not fit is
refused, and the stream stays as it was. -/
theorem received_of_cut_stream {payloads : List ByteArray}
    (hfits : ∀ p ∈ payloads, p.size ≤ maxPayload) :
    (∃ data, (∀ after, Frame.WritesAll payloads .empty after ↔ after = data) ∧
      ∀ cut reads, joined reads = data.extract 0 cut →
        ∃ whole, Frame.CutAt cut payloads whole ∧
          Frame.readAll [] (.ofReads reads) = (whole, none)) ∧
      ∀ payload before, maxPayload < payload.size →
        ∃ e, ∀ answer after,
          Frame.Writes payload before answer after ↔ answer = .error e ∧ after = before := by
  refine ⟨⟨Frame.stream payloads, fun after => ?_, fun cut reads h => ?_⟩, fun payload before h => ?_⟩
  · rw [Frame.writesAll_iff hfits, ByteArray.empty_append]
  · simpa using Frame.readAll_of_cut hfits h []
  · obtain ⟨e, hencode⟩ := Frame.encode_of_lt h
    exact ⟨e, fun answer after => Frame.writes_iff_of_error hencode⟩

/-- The third of these frames is cut in its payload, and the reads go across the frames. -/
theorem received_of_cut_third_frame :
    Frame.readAll [] (.ofReads
        [⟨#[0, 0]⟩, ⟨#[0, 1, 7, 0]⟩, ⟨#[0, 0, 0, 0, 0, 0]⟩, ⟨#[3, 97, 98]⟩]) =
      ([⟨#[7]⟩, .empty], none) := by
  obtain ⟨⟨data, hwritten, hread⟩, -⟩ :=
    @received_of_cut_stream [⟨#[7]⟩, .empty, ⟨#[97, 98, 99]⟩] (by decide)
  obtain rfl := (hwritten _).1 ((Frame.writesAll_iff (by decide)).2 rfl)
  obtain ⟨whole, hcut, hwhole⟩ := hread 15
    [⟨#[0, 0]⟩, ⟨#[0, 1, 7, 0]⟩, ⟨#[0, 0, 0, 0, 0, 0]⟩, ⟨#[3, 97, 98]⟩] (by decide)
  have hleft : Frame.CutAt 15 [⟨#[7]⟩, .empty, ⟨#[97, 98, 99]⟩] [⟨#[7]⟩, .empty] :=
    .cons (by decide) (.cons (by decide) (.first (by decide)))
  rw [hwhole, hcut.eq hleft]

end ScriptSandbox
