import ScriptSandbox.Child.Decoding
import ScriptSandbox.Child.Encoding
import ScriptSandbox.Proofs.Json.Records

/-!
Messages that arrive as they were sent. What the sandbox and its child say to one another is written as
a JSON value and read again from it. An object may tell a message in many ways: its members may stand
in any order, others may stand among them, and what says nothing may be left out. All of them are read
as the same message, which is written in one way.
-/

namespace ScriptSandbox

open Decoder RecordDecoder
open Reading (ofJson)

/-! ### Requests -/

theorem Preload.inverts : Preload.decoder.decode.Inverts Preload.toJson := by
  intro m
  refine decode_object (by simp [Json.Distinct]) ?_
  have hdistinct : Json.Distinct
      [("alias", .string m.name), ("module", .string m.module)] := by simp [Json.Distinct]
  exact ((takes_required hdistinct inverts_text (by simp)).map Preload.mk).seq
    (takes_required hdistinct inverts_text (by simp))

def Scope.withoutRejected (s : Scope) : Scope :=
  { s with rejectedGlobals := [] }

@[simp] theorem Scope.decode_toJson (s : Scope) :
    Scope.decoder.decode (ofJson s.toJson) = .ok s.withoutRejected := by
  have hdistinct : Json.Distinct
      [("builtins", .ofStrings s.builtins), ("modules", .array (s.modules.map Preload.toJson)),
        ("allowed_imports", .ofStrings s.allowedImports), ("globals", s.globals.toJson)] := by
    simp [Json.Distinct]
  apply decode_object hdistinct
  exact ((((takes_required hdistinct inverts_texts (by simp)).map _).seq
    (takes_required hdistinct Preload.inverts.list (by simp))).seq
    (takes_required hdistinct inverts_texts (by simp))).seq
    (takes_required hdistinct inverts_object (by simp))

@[simp] theorem ChildRequest.decode_toJson (r : ChildRequest) :
    ChildRequest.decoder.decode (ofJson r.toJson) =
      .ok { r with scope := r.scope.withoutRejected } := by
  have hdistinct : Json.Distinct
      [("code", .string r.code), ("namespace", r.scope.toJson),
        ("capture_locals", .bool r.captureLocals), ("max_stream_bytes", .ofNat r.maxStreamBytes),
        ("max_locals_bytes", .ofNat r.maxLocalsBytes)] := by
    simp [Json.Distinct]
  apply decode_object hdistinct
  exact (((((takes_required hdistinct inverts_text (by simp)).map ChildRequest.mk).seq
    (takes_required_value hdistinct (by simp) r.scope.decode_toJson)).seq
    (takes_required hdistinct inverts_boolean (by simp))).seq
    (takes_required hdistinct inverts_natural (by simp))).seq
    (takes_required hdistinct inverts_natural (by simp))

/-! ### Messages of the child -/

theorem OutputStream.inverts : OutputStream.decoder.Inverts fun s => .string s.label := by
  intro s
  cases s <;> rfl

/-- The members of an object tell how a script ended. -/
def ChildOutcome.IsToldBy (members : List (String × Json)) : ChildOutcome → Prop
  | completed => ("status", .string "completed") ∈ members
  | raised exceptionType message =>
      ("status", .string "raised") ∈ members ∧ ("exc_type", .string exceptionType) ∈ members ∧
        ("message", .string message) ∈ members
  | syntaxInvalid line column message =>
      ("status", .string "syntax_invalid") ∈ members ∧
        Json.Tells members "line" (.ofOption .ofNat) none line ∧
        Json.Tells members "column" (.ofOption .ofNat) none column ∧
        ("message", .string message) ∈ members
  | memoryExceeded message =>
      ("status", .string "memory_exceeded") ∈ members ∧ ("message", .string message) ∈ members
  | setupFailed message =>
      ("status", .string "setup_failed") ∈ members ∧ ("message", .string message) ∈ members

/-- The members of an object tell the last message of a child. -/
structure ChildReport.IsToldBy (members : List (String × Json)) (r : ChildReport) : Prop where
  outcome : ∃ inner, ("outcome", .object inner) ∈ members ∧ Json.Distinct inner ∧
    r.outcome.IsToldBy inner
  locals : Json.Tells members "locals" (.ofOption JsonObject.toJson) none r.locals
  peakKb : Json.Tells members "peak_rss_kb" (.ofOption .ofNat) none r.peakKb
  unavailable :
    Json.Tells members "unavailable_modules" .ofStrings [] r.unavailableModules

/-- The members of an object tell a message of a child. -/
def ChildMessage.IsToldBy (members : List (String × Json)) : ChildMessage → Prop
  | output stream data overflow =>
      ("type", .string "output") ∈ members ∧ ("stream", .string stream.label) ∈ members ∧
        ("data", .string data) ∈ members ∧ Json.Tells members "overflow" .bool false overflow
  | report r => ("type", .string "report") ∈ members ∧ r.IsToldBy members

theorem inverts_natural_nullable : natural.nullable.Inverts (.ofOption .ofNat) :=
  inverts_natural.nullable fun _ => Json.noConfusion

section Members

open Json (mem_filter_ne)

variable {members : List (String × Json)} (hdistinct : Json.Distinct members)
include hdistinct

theorem ChildOutcome.decode_of_isToldBy {o : ChildOutcome} (h : o.IsToldBy members) :
    ChildOutcome.decoder (ofJson (.object members)) = .ok o := by
  have hothers := hdistinct.filter (·.1 != "status")
  cases o with
  | completed => exact tagged_object hdistinct h rfl rfl
  | raised exceptionType message =>
      obtain ⟨hstatus, htype, hmessage⟩ := h
      apply tagged_object hdistinct hstatus rfl
      apply decode_object hothers
      exact ((takes_required hothers inverts_text (mem_filter_ne htype (by decide))).map _).seq
        (takes_required hothers inverts_text (mem_filter_ne hmessage (by decide)))
  | syntaxInvalid line column message =>
      obtain ⟨hstatus, hline, hcolumn, hmessage⟩ := h
      apply tagged_object hdistinct hstatus rfl
      apply decode_object hothers
      exact (((takes_defaulted hothers inverts_natural_nullable
        (hline.filter_ne (by decide))).map _).seq
        (takes_defaulted hothers inverts_natural_nullable (hcolumn.filter_ne (by decide)))).seq
        (takes_required hothers inverts_text (mem_filter_ne hmessage (by decide)))
  | memoryExceeded message =>
      obtain ⟨hstatus, hmessage⟩ := h
      apply tagged_object hdistinct hstatus rfl
      apply decode_object hothers
      exact (takes_required hothers inverts_text (mem_filter_ne hmessage (by decide))).map _
  | setupFailed message =>
      obtain ⟨hstatus, hmessage⟩ := h
      apply tagged_object hdistinct hstatus rfl
      apply decode_object hothers
      exact (takes_required hothers inverts_text (mem_filter_ne hmessage (by decide))).map _

theorem ChildReport.decode_of_isToldBy {r : ChildReport} (h : r.IsToldBy members) :
    ChildReport.decoder.decode (ofJson (.object members)) = .ok r := by
  obtain ⟨⟨inner, houtcome, hinner, htold⟩, hlocals, hpeak, hunavailable⟩ := h
  apply decode_object hdistinct
  have hended := takes_required_value hdistinct houtcome
    (ChildOutcome.decode_of_isToldBy hinner htold)
  have hobject := inverts_object.nullable fun _ => Json.noConfusion
  exact (((hended.map ChildReport.mk).seq (takes_defaulted hdistinct hobject hlocals)).seq
    (takes_defaulted hdistinct inverts_natural_nullable hpeak)).seq
    (takes_defaulted hdistinct inverts_texts hunavailable)

theorem ChildMessage.decode_of_isToldBy {m : ChildMessage} (h : m.IsToldBy members) :
    ChildMessage.decoder (ofJson (.object members)) = .ok m := by
  have hothers := hdistinct.filter (·.1 != "type")
  cases m with
  | output stream data overflow =>
      obtain ⟨htype, hstream, hdata, hoverflow⟩ := h
      apply tagged_object hdistinct htype rfl
      apply decode_object hothers
      exact (((takes_required hothers OutputStream.inverts
        (mem_filter_ne hstream (by decide))).map _).seq
        (takes_required hothers inverts_text (mem_filter_ne hdata (by decide)))).seq
        (takes_defaulted hothers inverts_boolean (hoverflow.filter_ne (by decide)))
  | report r =>
      obtain ⟨htype, ⟨inner, houtcome, hinner, htold⟩, hlocals, hpeak, hunavailable⟩ := h
      apply tagged_object hdistinct htype rfl
      apply map_eq_ok.2
      refine ⟨r, ChildReport.decode_of_isToldBy hothers ?_, rfl⟩
      exact ⟨⟨inner, mem_filter_ne houtcome (by decide), hinner, htold⟩,
        hlocals.filter_ne (by decide), hpeak.filter_ne (by decide),
        hunavailable.filter_ne (by decide)⟩

end Members

theorem ChildOutcome.exists_toJson (o : ChildOutcome) :
    ∃ members, o.toJson = .object members ∧ Json.Distinct members ∧ o.IsToldBy members := by
  cases o <;> exact ⟨_, rfl, by simp [Json.Distinct], by simp [IsToldBy, Json.Tells]⟩

theorem ChildMessage.exists_toJson (m : ChildMessage) :
    ∃ members, m.toJson = .object members ∧ Json.Distinct members ∧ m.IsToldBy members := by
  cases m with
  | output stream data overflow =>
      exact ⟨_, rfl, by simp [Json.Distinct], by simp [IsToldBy, Json.Tells]⟩
  | report r =>
      obtain ⟨inner, houtcome, hinner, htold⟩ := r.outcome.exists_toJson
      refine ⟨_, rfl, by simp [Json.Distinct], by simp, ⟨inner, by simp [houtcome], hinner, htold⟩,
        ?_, ?_, ?_⟩
      · simp [Json.Tells]
      · simp [Json.Tells]
      · simp [Json.Tells]

@[simp] theorem ChildMessage.decode_toJson (m : ChildMessage) :
    ChildMessage.decoder (ofJson m.toJson) = .ok m := by
  obtain ⟨members, hmembers, hdistinct, htold⟩ := m.exists_toJson
  rw [hmembers]
  exact decode_of_isToldBy hdistinct htold

/-- Messages arrive as they were sent, and a request arrives without the names of the variables that
were left out. Whatever value is read as a message, writing the message and reading it again changes
nothing, and an object that tells a message is read as it, whatever the order of its members, with
others among them, and with those missing that say nothing. -/
theorem messages_arrive :
    (∀ m : ChildMessage, ChildMessage.decoder (ofJson m.toJson) = .ok m) ∧
    (∀ r : ChildRequest, ChildRequest.decoder.decode (ofJson r.toJson) =
      .ok { r with scope := { r.scope with rejectedGlobals := [] } }) ∧
    (∀ (v : Json) (m : ChildMessage), ChildMessage.decoder (ofJson v) = .ok m →
      ChildMessage.decoder (ofJson m.toJson) = .ok m) ∧
    ∀ (m : ChildMessage) (members : List (String × Json)), Json.Distinct members →
      m.IsToldBy members → ChildMessage.decoder (ofJson (.object members)) = .ok m :=
  ⟨ChildMessage.decode_toJson, ChildRequest.decode_toJson, fun _ m _ => m.decode_toJson,
    fun _ _ hdistinct htold => ChildMessage.decode_of_isToldBy hdistinct htold⟩

/-- The tags stand last, one member is unknown, and of what says nothing one member is `null` and the
others are missing. -/
theorem messages_arrive_out_of_order :
    let m : ChildMessage := .report ⟨.syntaxInvalid (some 3) none "invalid syntax", none, none, []⟩
    let ending : Json := .object
      [("message", .string "invalid syntax"), ("line", .ofNat 3), ("status", .string "syntax_invalid")]
    let members : List (String × Json) :=
      [("peak_rss_kb", .null), ("host", .array [.null]), ("outcome", ending), ("type", .string "report")]
    Json.Distinct members ∧ m.IsToldBy members ∧
      ChildMessage.decoder (ofJson (.object members)) = .ok m ∧
      ChildMessage.decoder (ofJson m.toJson) = .ok m := by
  intro m ending members
  have hdistinct : Json.Distinct members := by simp [members, Json.Distinct]
  have htold : m.IsToldBy members := by
    refine ⟨by simp [members], ⟨_, .tail _ (.tail _ (.head _)), by simp [Json.Distinct], ?_⟩, ?_,
      .inl (.head _), ?_⟩
    · simp [ChildOutcome.IsToldBy, Json.Tells, Json.ofOption]
    · simp [members, Json.Tells]
    · simp [members, Json.Tells]
  have hread := messages_arrive.2.2.2 m members hdistinct htold
  exact ⟨hdistinct, htold, hread, messages_arrive.2.2.1 _ m hread⟩

end ScriptSandbox
