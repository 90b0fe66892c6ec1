import ScriptSandbox.Json.Decoder
import ScriptSandbox.Proofs.Except

/-!
Values read back. A JSON value is read without a fault, and a value all of whose objects have their
members in increasing order is read as itself. So typed values that are written as such values are
decoded again.
-/

namespace ScriptSandbox

/-! ### Plain values -/

theorem Json.insertMember_of_lt {name : String} {v : Json} {members : List (String × Json)}
    (h : ∀ m ∈ members, m.1 < name) : insertMember name v members = members ++ [(name, v)] := by
  induction members with
  | nil => rfl
  | cons first rest ih =>
      obtain ⟨hfirst, hrest⟩ := List.forall_mem_cons.1 h
      have hne : name ≠ first.1 := fun heq => String.lt_irrefl _ (heq ▸ hfirst)
      have hnot : ¬ name < first.1 := fun hlt =>
        String.lt_irrefl _ (String.lt_trans hlt hfirst)
      rw [insertMember, if_neg hnot, if_neg hne, ih hrest, List.cons_append]

theorem JsonObject.ext {o other : JsonObject} (h : o.members = other.members) : o = other := by
  obtain ⟨members, _, _⟩ := o
  obtain ⟨others, _, _⟩ := other
  obtain rfl : members = others := h
  rfl

namespace Reading

@[simp] theorem ofJson_string (s : String) : ofJson (.string s) = .string s := rfl

@[simp] theorem ofJson_array (items : List Json) :
    ofJson (.array items) = .array (ofItems items) none := rfl

@[simp] theorem ofJson_object (members : List (String × Json)) :
    ofJson (.object members) = .object (ofMembers members) none := rfl

@[simp] theorem ofItems_nil : ofItems [] = [] := rfl

@[simp] theorem ofItems_cons (first : Json) (rest : List Json) :
    ofItems (first :: rest) = ofJson first :: ofItems rest := rfl

@[simp] theorem ofMembers_nil : ofMembers [] = [] := rfl

@[simp] theorem ofMembers_cons (name : String) (v : Json) (rest : List (String × Json)) :
    ofMembers ((name, v) :: rest) = (.ok name, ofJson v) :: ofMembers rest := rfl

mutual

theorem exists_value (v : Json) :
    ∃ found, value (ofJson v) = .ok found ∧ (v.Normal → found.value = v) := by
  match v with
  | .null => exact ⟨_, rfl, fun _ => rfl⟩
  | .bool b => exact ⟨_, rfl, fun _ => rfl⟩
  | .number n => exact ⟨_, rfl, fun _ => rfl⟩
  | .string s => exact ⟨_, rfl, fun _ => rfl⟩
  | .array items =>
      obtain ⟨found, hfound, hsame⟩ := exists_valueItems items
      rw [ofJson, value, hfound]
      refine ⟨_, rfl, fun hnormal => ?_⟩
      cases hnormal with
      | array hitems => exact congrArg Json.array (hsame hitems)
  | .object members =>
      obtain ⟨found, hfound, hsame⟩ := exists_valueMembers .empty members
      rw [ofJson, value, hfound]
      refine ⟨_, rfl, fun hnormal => ?_⟩
      cases hnormal with
      | object hincreasing hmembers => exact congrArg Json.object (hsame hincreasing hmembers)

theorem exists_valueItems (items : List Json) :
    ∃ found, valueItems (ofItems items) = .ok found ∧
      ((∀ v ∈ items, v.Normal) → found.map NormalJson.value = items) := by
  match items with
  | [] => exact ⟨[], rfl, fun _ => rfl⟩
  | first :: rest =>
      obtain ⟨own, hown, hfirst⟩ := exists_value first
      obtain ⟨more, hmore, hrest⟩ := exists_valueItems rest
      rw [ofItems, valueItems, hown]
      refine ⟨own :: more, bind_eq_ok.2 ⟨own, rfl, bind_eq_ok.2 ⟨more, hmore, rfl⟩⟩, fun h => ?_⟩
      obtain ⟨hnormal, hothers⟩ := List.forall_mem_cons.1 h
      rw [List.map_cons, hfirst hnormal, hrest hothers]

theorem exists_valueMembers (o : JsonObject) (members : List (String × Json)) :
    ∃ found, valueMembers o (ofMembers members) = .ok found ∧
      (Json.Increasing (o.members ++ members) → (∀ m ∈ members, m.2.Normal) →
        found.members = o.members ++ members) := by
  match members with
  | [] => exact ⟨o, rfl, fun _ _ => (List.append_nil _).symm⟩
  | (name, v) :: rest =>
      obtain ⟨own, hown, hv⟩ := exists_value v
      obtain ⟨found, hfound, hrest⟩ := exists_valueMembers (o.insert name own) rest
      rw [ofMembers, valueMembers, hown]
      refine ⟨found, hfound, fun hincreasing hnormal => ?_⟩
      obtain ⟨hown, hothers⟩ := List.forall_mem_cons.1 hnormal
      -- In order, the name stands behind those that are read before it.
      have hlast : (o.insert name own).members = o.members ++ [(name, v)] := by
        change Json.insertMember name own.value o.members = _
        rw [hv hown]
        apply Json.insertMember_of_lt
        intro m hm
        exact (List.pairwise_append.1 hincreasing).2.2 m hm (name, v) (.head _)
      rw [hlast, List.append_assoc, List.singleton_append] at hrest
      exact hrest hincreasing hothers

end

mutual

@[simp] theorem skip_ofJson (v : Json) : skip (ofJson v) = .ok () := by
  match v with
  | .null => rfl
  | .bool b => rfl
  | .number n => rfl
  | .string s => rfl
  | .array items =>
      rw [ofJson, skip, skipItems_ofItems items]
      rfl
  | .object members =>
      rw [ofJson, skip, skipMembers_ofMembers members]
      rfl

@[simp] theorem skipItems_ofItems (items : List Json) : skipItems (ofItems items) = .ok () := by
  match items with
  | [] => rfl
  | first :: rest =>
      rw [ofItems, skipItems, skip_ofJson first]
      exact skipItems_ofItems rest

@[simp] theorem skipMembers_ofMembers (members : List (String × Json)) :
    skipMembers (ofMembers members) = .ok () := by
  match members with
  | [] => rfl
  | (name, v) :: rest =>
      rw [ofMembers, skipMembers, skip_ofJson v]
      exact skipMembers_ofMembers rest

end

theorem ofMembers_eq_map (members : List (String × Json)) :
    ofMembers members = members.map fun m => (.ok m.1, ofJson m.2) := by
  induction members with
  | nil => rfl
  | cons first rest ih =>
      obtain ⟨name, v⟩ := first
      simp [ih]

end Reading

/-! ### Typed values -/

namespace Decoder

open Reading (ofJson)

/-- A decoder gives back what is encoded. -/
def Inverts {α : Type} (decode : Decoder α) (encode : α → Json) : Prop :=
  ∀ a, decode (ofJson (encode a)) = .ok a

theorem inverts_text : text.Inverts Json.string :=
  fun _ => rfl

theorem inverts_boolean : boolean.Inverts Json.bool :=
  fun _ => rfl

theorem inverts_natural : natural.Inverts Json.ofNat :=
  fun _ => rfl

theorem inverts_object : object.Inverts JsonObject.toJson := by
  intro o
  obtain ⟨found, hfound, hsame⟩ := Reading.exists_valueMembers .empty o.members
  have heq : found = o := JsonObject.ext (hsame o.increasing o.normal)
  rw [heq] at hfound
  exact bind_eq_ok.2 ⟨o, hfound, rfl⟩

theorem Inverts.list {α : Type} {decode : Decoder α} {encode : α → Json}
    (h : decode.Inverts encode) : decode.list.Inverts fun values => .array (values.map encode) := by
  have hitems (values : List α) :
      items decode (Reading.ofItems (values.map encode)) = .ok values := by
    induction values with
    | nil => rfl
    | cons a rest ih =>
        rw [List.map_cons, Reading.ofItems_cons, items, h a]
        exact bind_eq_ok.2 ⟨a, rfl, bind_eq_ok.2 ⟨rest, ih, rfl⟩⟩
  intro values
  exact bind_eq_ok.2 ⟨values, hitems values, rfl⟩

theorem inverts_texts : text.list.Inverts Json.ofStrings :=
  inverts_text.list

/-- What may be `null` is given back when nothing else is written as `null`. -/
theorem Inverts.nullable {α : Type} {decode : Decoder α} {encode : α → Json}
    (h : decode.Inverts encode) (hnull : ∀ a, encode a ≠ .null) :
    decode.nullable.Inverts (Json.ofOption encode) := by
  intro a?
  cases a? with
  | none => rfl
  | some a =>
      have hother : ∀ v, v ≠ Json.null → decode.nullable (ofJson v) = (decode (ofJson v)).map some := by
        intro v hv
        cases v with
        | null => exact absurd rfl hv
        | _ => rfl
      rw [Json.ofOption, hother _ (hnull a), h a]
      rfl

end Decoder

end ScriptSandbox
