import ScriptSandbox.Proofs.Capture.Frames

/-!
Frames in any stream of bytes. Every stream is a row of whole frames and a rest in which no frame comes
to its end. A reader gets the payloads of the frames, and the rest tells how it goes on: where a frame
is incomplete the stream is at its end, and a header with a length that no payload may have is an error.
All readers agree in this, whether they block or wait and however many bytes each of their reads gives.
-/

namespace ScriptSandbox

/-! ### Reading step by step -/

/-- A reader at work: the number of bytes that it still wants, the bytes that it has, and the bytes of
the stream that are still to come. -/
structure Filling where
  wanted : Nat
  data : ByteArray
  coming : ByteArray

namespace Filling

variable {r next : Filling} {count : Nat} {coming data rest : ByteArray}

/-- One step of a reader, which may have waited for it. A read gives some bytes, at least one and no
more than are wanted. -/
inductive Step : Filling → Filling → Prop
  | read {wanted data coming n} : 0 < n → n ≤ wanted → n ≤ coming.size →
      Step ⟨wanted, data, coming⟩
        ⟨wanted - n, data ++ coming.extract 0 n, coming.extract n coming.size⟩

/-- The reader comes to have all the bytes that it wanted. -/
def Fills (count : Nat) (coming data rest : ByteArray) : Prop :=
  Relation.ReflTransGen Step ⟨count, .empty, coming⟩ ⟨0, data, rest⟩

/-- The reader comes to the end of the stream and still wants some bytes. -/
def RunsDry (count : Nat) (coming : ByteArray) : Prop :=
  ∃ wanted data, 0 < wanted ∧
    Relation.ReflTransGen Step ⟨count, .empty, coming⟩ ⟨wanted, data, .empty⟩

/-- No byte is lost or read twice, and each one is counted. -/
theorem Step.keeps (h : r.Step next) :
    next.data ++ next.coming = r.data ++ r.coming ∧
      next.data.size + next.wanted = r.data.size + r.wanted := by
  cases h with
  | @read wanted data coming n _ hwanted hcoming =>
      constructor
      · rw [ByteArray.append_assoc, extract_append_extract hcoming]
      · simp only [ByteArray.size_append, ByteArray.size_extract]
        omega

theorem keeps_of_reaches (h : Relation.ReflTransGen Step r next) :
    next.data ++ next.coming = r.data ++ r.coming ∧
      next.data.size + next.wanted = r.data.size + r.wanted := by
  induction h with
  | refl => exact ⟨rfl, rfl⟩
  | tail _ hstep ih => exact ⟨hstep.keeps.1.trans ih.1, hstep.keeps.2.trans ih.2⟩

theorem fills_iff : Fills count coming data rest ↔ data.size = count ∧ coming = data ++ rest := by
  constructor
  · intro h
    obtain ⟨hbytes, hsize⟩ :
        data ++ rest = .empty ++ coming ∧ data.size + 0 = 0 + count := keeps_of_reaches h
    rw [ByteArray.empty_append] at hbytes
    exact ⟨by omega, hbytes.symm⟩
  · rintro ⟨rfl, rfl⟩
    by_cases hzero : data.size = 0
    · cases ByteArray.size_eq_zero_iff.1 hzero
      rw [ByteArray.empty_append]
      exact .refl
    · have hread := @Step.read data.size .empty (data ++ rest) data.size (Nat.pos_of_ne_zero hzero)
        (Nat.le_refl _) (by rw [ByteArray.size_append]; omega)
      rw [ByteArray.empty_append, ByteArray.extract_append_eq_left rfl, ByteArray.size_append,
        ByteArray.extract_append_eq_right rfl rfl, Nat.sub_self] at hread
      exact .single hread

theorem runsDry_iff : RunsDry count coming ↔ coming.size < count := by
  constructor
  · rintro ⟨wanted, data, hwanted, h⟩
    obtain ⟨hbytes, hsize⟩ :
        data ++ .empty = .empty ++ coming ∧ data.size + wanted = 0 + count := keeps_of_reaches h
    rw [ByteArray.append_empty, ByteArray.empty_append] at hbytes
    subst hbytes
    omega
  · intro h
    by_cases hzero : coming.size = 0
    · cases ByteArray.size_eq_zero_iff.1 hzero
      exact ⟨count, .empty, h, .refl⟩
    · have hread := @Step.read count .empty coming coming.size (Nat.pos_of_ne_zero hzero)
        (Nat.le_of_lt h) (Nat.le_refl _)
      have hempty : coming.extract coming.size coming.size = .empty :=
        ByteArray.extract_eq_empty_iff.2 (Nat.min_le_right _ _)
      rw [hempty] at hread
      exact ⟨count - coming.size, _, Nat.sub_pos_of_lt h, .single hread⟩

end Filling

namespace Frame

/-- What a reader gets from a stream, one frame after another, and the error that it ends in. The reader
fills four bytes for a header and then as many bytes as the header says. -/
inductive Receives : ByteArray → List ByteArray → Option FrameError → Prop
  /-- The stream ends before there is a whole header. -/
  | noHeader {coming} : Filling.RunsDry 4 coming → Receives coming [] none
  | tooLong {coming header rest} : Filling.Fills 4 coming header rest →
      maxPayload < headerValue header → Receives coming [] (some (.tooLong (headerValue header)))
  /-- The stream ends before there is a whole payload. -/
  | noPayload {coming header rest} : Filling.Fills 4 coming header rest →
      headerValue header ≤ maxPayload → Filling.RunsDry (headerValue header) rest →
      Receives coming [] none
  | payload {coming header behind data rest payloads e?} : Filling.Fills 4 coming header behind →
      headerValue header ≤ maxPayload → Filling.Fills (headerValue header) behind data rest →
      Receives rest payloads e? → Receives coming (data :: payloads) e?

/-- Bytes in which no frame comes to its end, and the error that they are. A frame is the length of a
payload in four bytes and the payload. That a length is none that a payload may have can only be told
when all four bytes are there. -/
inductive Remains : ByteArray → Option FrameError → Prop
  /-- A beginning of a frame of which something is missing. -/
  | ended {rest lost payload} : payload.size ≤ maxPayload → ofPayload payload = rest ++ lost →
      lost ≠ .empty → Remains rest none
  /-- A part of a header with which no frame begins. -/
  | noHeader {rest} : rest.size < 4 →
      (∀ payload lost, payload.size ≤ maxPayload → ofPayload payload ≠ rest ++ lost) →
      Remains rest none
  /-- A header with a length that no payload may have. -/
  | tooLong {header rest} : header.size = 4 → maxPayload < headerValue header →
      Remains (header ++ rest) (some (.tooLong (headerValue header)))

variable {bytes data rest payload : ByteArray} {payloads : List ByteArray} {reads : List ByteArray}
  {e? : Option FrameError}

/-! ### Headers -/

theorem exists_bytes_of_size (h : bytes.size = 4) : ∃ a b c d, bytes = ⟨#[a, b, c, d]⟩ := by
  obtain ⟨⟨list⟩⟩ := bytes
  match list, h with
  | [a, b, c, d], _ => exact ⟨a, b, c, d, rfl⟩

theorem header_headerValue (h : bytes.size = 4) : header (headerValue bytes) = bytes := by
  obtain ⟨a, b, c, d, rfl⟩ := exists_bytes_of_size h
  have ha := a.toNat_lt
  have hb := b.toNat_lt
  have hc := c.toNat_lt
  have hd := d.toNat_lt
  simp only [header, headerValue, List.foldl_toArray, List.foldl_cons, List.foldl_nil,
    ByteArray.mk.injEq]
  simp only [← UInt8.toNat_inj, UInt8.toNat_ofNat', Array.mk.injEq, List.cons.injEq, and_true]
  omega

theorem ofPayload_eq (h : bytes.size = 4) (hsize : payload.size = headerValue bytes) :
    ofPayload payload = bytes ++ payload := by
  rw [ofPayload, hsize, header_headerValue h]

/-! ### The rest of a stream -/

theorem exists_append_of_lt {size : Nat} (h : data.size < size) :
    ∃ lost, (data ++ lost).size = size ∧ lost ≠ .empty := by
  have hzeros : (ByteArray.mk (Array.replicate (size - data.size) 0)).size = size - data.size := by
    rw [← ByteArray.size_data, Array.size_replicate]
  refine ⟨⟨Array.replicate (size - data.size) 0⟩, ?_, fun hempty => ?_⟩
  · rw [ByteArray.size_append, hzeros]
    omega
  · rw [hempty, ByteArray.size_empty] at hzeros
    omega

/-- What is there of a frame of which something is missing is a part of its header, or the header and a
part of the payload. -/
theorem lt_or_header_of_frame {lost : ByteArray} (hfits : payload.size ≤ maxPayload)
    (hframe : ofPayload payload = rest ++ lost) (hlost : lost ≠ .empty) :
    rest.size < 4 ∨ ∃ header behind, header.size = 4 ∧ headerValue header ≤ maxPayload ∧
      behind.size < headerValue header ∧ rest = header ++ behind := by
  rcases Nat.lt_or_ge rest.size 4 with hlt | hle
  · exact .inl hlt
  right
  rw [ofPayload] at hframe
  obtain ⟨behind, rfl, hpayload⟩ := exists_of_append_eq_append hframe (by
    rw [size_header]
    exact hle)
  have hvalue := headerValue_header hfits
  have hpos : 0 < lost.size :=
    Nat.pos_of_ne_zero fun h => hlost (ByteArray.size_eq_zero_iff.1 h)
  refine ⟨header payload.size, behind, size_header _,
    Nat.le_trans (Nat.le_of_eq hvalue) hfits, ?_, rfl⟩
  rw [hvalue, hpayload, ByteArray.size_append]
  omega

/-- Fewer bytes than a header has are nothing but an end. -/
theorem remains_of_lt (h : rest.size < 4) : Remains rest none := by
  by_cases hbegins : ∃ payload lost, payload.size ≤ maxPayload ∧ ofPayload payload = rest ++ lost
  · obtain ⟨payload, lost, hfits, hframe⟩ := hbegins
    refine .ended hfits hframe ?_
    rintro rfl
    have hsize := congrArg ByteArray.size hframe
    rw [ofPayload, ByteArray.append_empty, ByteArray.size_append, size_header] at hsize
    omega
  · exact .noHeader h fun payload lost hfits hframe => hbegins ⟨payload, lost, hfits, hframe⟩

/-- A frame is incomplete where its header is, or where its payload is. -/
theorem remains_none_iff : Remains rest none ↔
    rest.size < 4 ∨ ∃ header behind, header.size = 4 ∧ headerValue header ≤ maxPayload ∧
      behind.size < headerValue header ∧ rest = header ++ behind := by
  constructor
  · intro h
    cases h with
    | ended hfits hframe hlost => exact lt_or_header_of_frame hfits hframe hlost
    | noHeader hlt _ => exact .inl hlt
  · rintro (hlt | ⟨header, behind, hheader, hfits, hlt, rfl⟩)
    · exact remains_of_lt hlt
    · obtain ⟨lost, hpayload, hlost⟩ := exists_append_of_lt hlt
      exact .ended (hpayload ▸ hfits)
        ((ofPayload_eq hheader hpayload).trans ByteArray.append_assoc.symm) hlost

theorem frame_or_remains (data : ByteArray) :
    (∃ payload rest, payload.size ≤ maxPayload ∧ data = ofPayload payload ++ rest) ∨
      ∃ e?, Remains data e? := by
  have hcut {n : Nat} {bytes : ByteArray} (h : n ≤ bytes.size) :
      bytes = bytes.extract 0 n ++ bytes.extract n bytes.size ∧ (bytes.extract 0 n).size = n :=
    ⟨(extract_append_extract h).symm, by rw [ByteArray.size_extract]; omega⟩
  rcases Nat.lt_or_ge data.size 4 with hlt | hle
  · exact .inr ⟨none, remains_none_iff.2 (.inl hlt)⟩
  obtain ⟨hdata, hheader⟩ := hcut hle
  generalize data.extract 0 4 = header at hdata hheader
  generalize data.extract 4 data.size = behind at hdata
  subst hdata
  rcases Nat.lt_or_ge maxPayload (headerValue header) with hlong | hfits
  · exact .inr ⟨_, .tooLong hheader hlong⟩
  rcases Nat.lt_or_ge behind.size (headerValue header) with hlt | hle
  · exact .inr ⟨none, remains_none_iff.2 (.inr ⟨header, behind, hheader, hfits, hlt, rfl⟩)⟩
  · obtain ⟨hbehind, hpayload⟩ := hcut hle
    refine .inl ⟨_, behind.extract (headerValue header) behind.size, hpayload ▸ hfits, ?_⟩
    rw [ofPayload_eq hheader hpayload, ByteArray.append_assoc, ← hbehind]

/-- Every stream is a row of whole frames and a rest in which no frame comes to its end. -/
theorem exists_frames (data : ByteArray) : ∃ payloads rest e?,
    (∀ p ∈ payloads, p.size ≤ maxPayload) ∧ data = stream payloads ++ rest ∧ Remains rest e? := by
  induction hsize : data.size using Nat.strongRecOn generalizing data with
  | ind size ih =>
      rcases frame_or_remains data with ⟨payload, behind, hfits, rfl⟩ | ⟨e?, hremains⟩
      · obtain ⟨payloads, rest, e?, hall, rfl, hremains⟩ := ih behind.size (by
          rw [← hsize, ofPayload, ByteArray.size_append, ByteArray.size_append, size_header]
          omega) behind rfl
        refine ⟨payload :: payloads, rest, e?, List.forall_mem_cons.2 ⟨hfits, hall⟩, ?_, hremains⟩
        rw [stream_cons, ByteArray.append_assoc]
      · exact ⟨[], data, e?, by simp, by simp, hremains⟩

/-! ### What readers get -/

theorem next_of_remains (h : Remains (joined reads) e?) :
    next (.ofReads reads) = (e?.elim .ended .failed) := by
  cases e? with
  | none =>
      rcases remains_none_iff.1 h with hlt | ⟨header, behind, hheader, hfits, hlt, heq⟩
      · exact next_of_lt hlt
      · obtain ⟨rest, hread, hrest⟩ := Source.readExactly_of_append hheader heq .empty
        rw [← hrest] at hlt
        unfold next
        simp [hread, Nat.not_lt.2 hfits, Source.readExactly_of_lt hlt]
  | some e =>
      generalize hdata : joined reads = data at h
      cases h with
      | tooLong hheader hlong =>
          obtain ⟨rest, hread, -⟩ := Source.readExactly_of_append hheader hdata .empty
          unfold next
          simp [hread, hlong]

/-- A reader gets the payloads of the whole frames, and then what the rest amounts to. -/
theorem readAll_of_frames (hfits : ∀ p ∈ payloads, p.size ≤ maxPayload)
    (h : joined reads = stream payloads ++ rest) (hremains : Remains rest e?)
    (read : List ByteArray) :
    readAll read (.ofReads reads) = (read.reverse ++ payloads, e?) := by
  induction payloads generalizing reads read with
  | nil =>
      have hnext : next (.ofReads reads) = e?.elim .ended .failed := next_of_remains (by
        rw [h]
        simpa using hremains)
      rw [List.append_nil, readAll]
      cases e? <;> split <;> simp_all
  | cons payload payloads ih =>
      obtain ⟨hfirst, hrest⟩ := List.forall_mem_cons.1 hfits
      rw [stream_cons, ByteArray.append_assoc] at h
      obtain ⟨behind, hnext, hjoined⟩ := next_of_append hfirst h
      rw [readAll_of_payload hnext, ih hrest hjoined, List.reverse_cons, List.append_assoc,
        List.singleton_append]

theorem Receives.frames (h : Receives data payloads e?) : ∃ rest,
    (∀ p ∈ payloads, p.size ≤ maxPayload) ∧ data = stream payloads ++ rest ∧ Remains rest e? := by
  induction h with
  | @noHeader coming hdry =>
      exact ⟨coming, by simp, by simp,
        remains_none_iff.2 (.inl (Filling.runsDry_iff.1 hdry))⟩
  | @tooLong coming header behind hheader hlong =>
      obtain ⟨hsize, rfl⟩ := Filling.fills_iff.1 hheader
      exact ⟨header ++ behind, by simp, by simp, .tooLong hsize hlong⟩
  | @noPayload coming header behind hheader hfits hdry =>
      obtain ⟨hsize, rfl⟩ := Filling.fills_iff.1 hheader
      exact ⟨header ++ behind, by simp, by simp,
        remains_none_iff.2 (.inr ⟨_, _, hsize, hfits, Filling.runsDry_iff.1 hdry, rfl⟩)⟩
  | payload hheader hfits hpayload _ ih =>
      obtain ⟨rest, hall, rfl, hremains⟩ := ih
      obtain ⟨hsize, rfl⟩ := Filling.fills_iff.1 hheader
      obtain ⟨hlength, rfl⟩ := Filling.fills_iff.1 hpayload
      refine ⟨rest, List.forall_mem_cons.2 ⟨hlength ▸ hfits, hall⟩, ?_, hremains⟩
      rw [stream_cons, ofPayload_eq hsize hlength]
      simp only [ByteArray.append_assoc]

theorem receives_of_frames (hfits : ∀ p ∈ payloads, p.size ≤ maxPayload)
    (hremains : Remains rest e?) : Receives (stream payloads ++ rest) payloads e? := by
  induction payloads with
  | nil =>
      rw [stream_nil, ByteArray.empty_append]
      cases e? with
      | none =>
          rcases remains_none_iff.1 hremains with hlt | ⟨header, behind, hheader, hle, hlt, rfl⟩
          · exact .noHeader (Filling.runsDry_iff.2 hlt)
          · exact .noPayload (Filling.fills_iff.2 ⟨hheader, rfl⟩) hle (Filling.runsDry_iff.2 hlt)
      | some e =>
          cases hremains with
          | tooLong hheader hlong => exact .tooLong (Filling.fills_iff.2 ⟨hheader, rfl⟩) hlong
  | cons payload payloads ih =>
      obtain ⟨hfirst, hrest⟩ := List.forall_mem_cons.1 hfits
      have hvalue := headerValue_header hfirst
      rw [stream_cons, ofPayload]
      simp only [ByteArray.append_assoc]
      exact .payload (Filling.fills_iff.2 ⟨size_header _, rfl⟩)
        (Nat.le_trans (Nat.le_of_eq hvalue) hfirst)
        (Filling.fills_iff.2 ⟨hvalue.symm, rfl⟩) (ih hrest)

end Frame

/-- From every stream all readers get the same payloads and the same end, whatever their steps are and
however the stream comes in reads. Written again, these payloads are a beginning of the stream. Where
the stream is then at its end, what is left of it is a beginning of a frame or a part of a header; where
there is an error, a header with a length that no payload may have comes next. -/
theorem received_of_any_stream (data : ByteArray) : ∃ payloads e?,
    (∀ reads, joined reads = data → Frame.readAll [] (.ofReads reads) = (payloads, e?)) ∧
      (∀ other otherEnd, Frame.Receives data other otherEnd ↔ other = payloads ∧ otherEnd = e?) ∧
      (∀ p ∈ payloads, p.size ≤ maxPayload) ∧
      ∃ written rest, (∀ after, Frame.WritesAll payloads .empty after ↔ after = written) ∧
        data = written ++ rest ∧ Frame.Remains rest e? := by
  obtain ⟨payloads, rest, e?, hfits, rfl, hremains⟩ := Frame.exists_frames data
  have hread {reads} (h : joined reads = Frame.stream payloads ++ rest) :
      Frame.readAll [] (.ofReads reads) = (payloads, e?) :=
    Frame.readAll_of_frames hfits h hremains []
  refine ⟨payloads, e?, fun reads => hread, fun other otherEnd => ⟨fun h => ?_, ?_⟩, hfits,
    Frame.stream payloads, rest, fun after => ?_, rfl, hremains⟩
  · -- Both lists of payloads are what is read when the stream comes at once.
    obtain ⟨otherRest, hotherFits, heq, hotherRemains⟩ := h.frames
    have honce : joined [Frame.stream payloads ++ rest] = Frame.stream payloads ++ rest := by simp
    have hother := Frame.readAll_of_frames hotherFits (honce.trans heq) hotherRemains []
    rw [hread honce] at hother
    exact ⟨(congrArg Prod.fst hother).symm, (congrArg Prod.snd hother).symm⟩
  · rintro ⟨rfl, rfl⟩
    exact Frame.receives_of_frames hfits hremains
  · rw [Frame.writesAll_iff hfits, ByteArray.empty_append]

/-- One byte that begins no frame, as the length of every payload is less. It is no error either. -/
theorem received_of_one_byte :
    Frame.readAll [] (.ofReads [⟨#[255]⟩]) = ([], none) ∧ Frame.Receives ⟨#[255]⟩ [] none ∧
      ∀ payload lost, payload.size ≤ maxPayload → Frame.ofPayload payload ≠ ⟨#[255]⟩ ++ lost := by
  have hdry : Filling.RunsDry 4 ⟨#[255]⟩ := Filling.runsDry_iff.2 (by decide)
  have hended : Frame.next (.ofReads [⟨#[255]⟩]) = .ended := Frame.next_of_lt (by decide)
  refine ⟨Frame.readAll_of_ended hended [], .noHeader hdry, fun payload lost hfits hframe => ?_⟩
  -- The first byte of a header is the length divided by 2 ^ 24.
  obtain ⟨behind, hheader, -⟩ := exists_of_append_eq_append hframe.symm (Nat.le_add_left 1 3)
  have hfirst : UInt8.ofNat (payload.size / 16777216) = 255 := by
    simpa [Frame.header] using
      congrArg (fun bytes : ByteArray => bytes.data.toList.head?) hheader
  have hvalue : payload.size / 16777216 % 256 = 255 := by simpa using congrArg UInt8.toNat hfirst
  unfold maxPayload at hfits
  omega

end ScriptSandbox
