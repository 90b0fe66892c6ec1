import ScriptSandbox.Proofs.Json.Records
import ScriptSandbox.Server.Tool

/-!
The two ways to hand in a request: as a request of its own and as the arguments of a tool. Both take
the same members of an object, whatever their order and whatever else stands there. They differ in
one point: for a tool the variables may be `null`, which counts as if they were not there.
-/

namespace ScriptSandbox

open RecordDecoder Decoder

/-- The members of an object but for those of one name. -/
def withoutMember (name : String) (members : List (Except Misread String × Reading)) :
    List (Except Misread String × Reading) :=
  members.filter fun m => m.1.toOption != some name

namespace RecordDecoder

variable {members : List (Except Misread String × Reading)} {name other : String}

@[simp] theorem memberNamed_withoutMember_self :
    memberNamed (withoutMember name members) name = none := by
  rw [memberNamed, Option.map_eq_none_iff, List.find?_eq_none]
  intro m hm heq
  have hne := (List.mem_filter.1 hm).2
  rw [bne, heq] at hne
  cases hne

@[simp] theorem memberNamed_withoutMember (h : other ≠ name) :
    memberNamed (withoutMember name members) other = memberNamed members other := by
  rw [memberNamed, memberNamed, withoutMember, List.find?_filter]
  congr 2
  funext m
  by_cases hm : m.1.toOption = some other
  · simp [hm, h]
  · simp [hm]

end RecordDecoder

/-! ### What both ask for -/

section

variable {α : Type} (globals : RecordDecoder α) (toObject : α → JsonObject)

/-- A request whose variables are taken in some way. -/
def requestDecoder : RecordDecoder ExecutionRequest :=
  (fun code timeout memory own captureLocals correlationId =>
      ⟨code, timeout, memory, toObject own, captureLocals, correlationId⟩)
    <$> required "code" text
    <*> defaulted "timeout_seconds" natural.nullable none
    <*> defaulted "max_memory_mb" natural.nullable none
    <*> globals
    <*> defaulted "capture_locals" boolean false
    <*> defaulted "correlation_id" text.nullable none

theorem ExecutionRequest.decoder_eq :
    decoder = requestDecoder (defaulted "globals" object .empty) id :=
  rfl

theorem ToolArguments.execute_eq :
    execute = requestDecoder (defaulted "globals" object.nullable none) (·.getD .empty) :=
  rfl

/-- What a request asks for besides the variables. -/
structure AsksFor (get : String → Option Reading) (request : ExecutionRequest) : Prop where
  code : (required "code" text).build get = .ok request.code
  timeout : (defaulted "timeout_seconds" natural.nullable none).build get =
    .ok request.timeoutSeconds
  memory : (defaulted "max_memory_mb" natural.nullable none).build get = .ok request.maxMemoryMb
  captureLocals : (defaulted "capture_locals" boolean false).build get = .ok request.captureLocals
  correlationId : (defaulted "correlation_id" text.nullable none).build get =
    .ok request.correlationId

theorem build_requestDecoder_eq_ok {get : String → Option Reading} {request : ExecutionRequest} :
    (requestDecoder globals toObject).build get = .ok request ↔ AsksFor get request ∧
      ∃ own, globals.build get = .ok own ∧ toObject own = request.globals := by
  simp only [requestDecoder, build_seq_eq_ok, build_map_eq_ok]
  constructor
  · rintro ⟨_, ⟨_, ⟨_, ⟨_, ⟨_, ⟨code, hcode, rfl⟩, timeout, htimeout, rfl⟩, memory, hmemory, rfl⟩,
      own, hown, rfl⟩, capture, hcapture, rfl⟩, id, hid, rfl⟩
    exact ⟨⟨hcode, htimeout, hmemory, hcapture, hid⟩, own, hown, rfl⟩
  · obtain ⟨code, timeout, memory, object, capture, id⟩ := request
    rintro ⟨⟨hcode, htimeout, hmemory, hcapture, hid⟩, own, hown, hobject⟩
    obtain rfl : toObject own = object := hobject
    exact ⟨_, ⟨_, ⟨_, ⟨_, ⟨_, ⟨_, hcode, rfl⟩, _, htimeout, rfl⟩, _, hmemory, rfl⟩,
      _, hown, rfl⟩, _, hcapture, rfl⟩, _, hid, rfl⟩

theorem checks_requestDecoder (h : globals.Checks) : (requestDecoder globals toObject).Checks := by
  unfold requestDecoder
  refine (((((Checks.map ?_ _).seq ?_).seq ?_).seq h).seq ?_).seq ?_
  · exact checks_required _ _
  all_goals exact checks_defaulted _ _ _

end

/-! ### Where they differ -/

namespace RecordDecoder

variable {α : Type} {get : String → Option Reading} {name : String} {decode : Decoder α}

theorem build_nullable {default a : α} (hnull : ∀ b, decode .null ≠ .ok b) :
    (∃ found, (defaulted name decode.nullable none).build get = .ok found ∧
        found.getD default = a) ↔
      get name = some .null ∧ a = default ∨ (defaulted name decode default).build get = .ok a := by
  unfold defaulted
  simp only [build_field]
  cases get name with
  | none => simp
  | some r =>
      by_cases hr : r = .null
      · subst hr
        simp [nullable, hnull, eq_comm]
      · have hvalue : decode.nullable r = (decode r).map some := by
          cases r with
          | null => exact absurd rfl hr
          | _ => rfl
        simp only [Option.elim_some, hvalue, map_eq_ok, Option.some.injEq, hr, false_and, false_or]
        constructor
        · rintro ⟨_, ⟨b, hb, rfl⟩, rfl⟩
          exact hb
        · intro ha
          exact ⟨some a, ⟨a, ha, rfl⟩, rfl⟩

end RecordDecoder

theorem AsksFor.congr {get get' : String → Option Reading} {request : ExecutionRequest}
    (h : AsksFor get request) (hget : ∀ name, name ≠ "globals" → get' name = get name) :
    AsksFor get' request := by
  constructor
  · exact (build_field_congr (hget "code" (by decide))).trans h.code
  · exact (build_field_congr (hget "timeout_seconds" (by decide))).trans h.timeout
  · exact (build_field_congr (hget "max_memory_mb" (by decide))).trans h.memory
  · exact (build_field_congr (hget "capture_locals" (by decide))).trans h.captureLocals
  · exact (build_field_congr (hget "correlation_id" (by decide))).trans h.correlationId

/-- An object that is taken as a request is taken as the arguments of a tool as well, and gives the
same request. An object that is taken as the arguments of a tool gives the same request when it is
handed in by itself, unless its variables are `null`: then the request has none, and what is left of
the object without this member gives the same request. -/
theorem front_ends_agree (members : List (Except Misread String × Reading)) (stop : Option Misread)
    (request : ExecutionRequest) :
    (ExecutionRequest.decoder.decode (.object members stop) = .ok request →
      ToolArguments.execute.decode (.object members stop) = .ok request) ∧
    (ToolArguments.execute.decode (.object members stop) = .ok request →
      ExecutionRequest.decoder.decode (.object members stop) = .ok request ∨
      memberNamed members "globals" = some .null ∧ request.globals = .empty ∧
        ExecutionRequest.decoder.decode (.object (withoutMember "globals" members) stop) =
          .ok request) := by
  have hnames : ToolArguments.execute.fields.map RecordField.name =
      ExecutionRequest.decoder.fields.map RecordField.name := rfl
  have hnull (o : JsonObject) : object .null ≠ .ok o := nofun
  rw [ToolArguments.execute_eq, ExecutionRequest.decoder_eq] at hnames ⊢
  have hplain := checks_requestDecoder _ id (checks_defaulted "globals" object .empty)
  have htool := checks_requestDecoder _ (·.getD .empty)
    (checks_defaulted "globals" object.nullable none)
  refine ⟨fun h => ?_, fun h => ?_⟩
  · obtain ⟨-, -, hbuild⟩ := decode_object_eq_ok.1 h
    obtain ⟨hasks, own, hown, rfl⟩ := (build_requestDecoder_eq_ok _ _).1 hbuild
    apply htool.decode_of_decode hnames h (List.Sublist.refl members)
    exact (build_requestDecoder_eq_ok _ _).2 ⟨hasks, (build_nullable hnull).2 (.inr hown)⟩
  · obtain ⟨-, -, hbuild⟩ := decode_object_eq_ok.1 h
    obtain ⟨hasks, hglobals⟩ := (build_requestDecoder_eq_ok _ _).1 hbuild
    rcases (build_nullable hnull).1 hglobals with ⟨hmember, hempty⟩ | hglobals
    · -- Without the member there are no variables either.
      have hsub : (withoutMember "globals" members).Sublist members := List.filter_sublist
      refine .inr ⟨hmember, hempty, hplain.decode_of_decode hnames.symm h hsub ?_⟩
      refine (build_requestDecoder_eq_ok _ _).2 ⟨?_, .empty, ?_, hempty.symm⟩
      · exact hasks.congr fun name hname => by simp [hname]
      · simp [defaulted]
    · refine .inl (hplain.decode_of_decode hnames.symm h (List.Sublist.refl members) ?_)
      exact (build_requestDecoder_eq_ok _ _).2 ⟨hasks, _, hglobals, rfl⟩

theorem front_ends_agree_on_null :
    let members := [("note", Json.null), ("globals", .null), ("timeout_seconds", .ofNat 5),
      ("code", .string "x = 1")]
    let request : ExecutionRequest := ⟨"x = 1", some 5, none, .empty, false, none⟩
    let without := Reading.object (withoutMember "globals" (Reading.ofMembers members)) none
    ToolArguments.execute.decode (.ofJson (.object members)) = .ok request ∧
      ExecutionRequest.decoder.decode (.ofJson (.object members)) = .error .form ∧
      ExecutionRequest.decoder.decode without = .ok request ∧
      ToolArguments.execute.decode without = .ok request := by
  intro members request without
  have htool : ToolArguments.execute.decode (.ofJson (.object members)) = .ok request := rfl
  have hplain : ExecutionRequest.decoder.decode (.ofJson (.object members)) = .error .form := rfl
  have hwithout : ExecutionRequest.decoder.decode without = .ok request := by
    rcases (front_ends_agree _ _ request).2 htool with hsame | ⟨-, -, hwithout⟩
    · rw [Reading.ofJson] at hplain
      rw [hplain] at hsame
      cases hsame
    · exact hwithout
  exact ⟨htool, hplain, hwithout, (front_ends_agree _ _ request).1 hwithout⟩

end ScriptSandbox
