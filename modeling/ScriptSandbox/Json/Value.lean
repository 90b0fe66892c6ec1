import ScriptSandbox.Number.Double

/-!
JSON values. Integers stay integers, and any other number is floating-point.

A `JsonObject` is a map from names to values: its members are in increasing order of their names,
no name occurs twice, and the same holds for all objects inside it.
-/

namespace ScriptSandbox

inductive JsonNumber
  | integer (n : Int)
  | double (x : Double)
deriving DecidableEq

inductive Json
  | null
  | bool (b : Bool)
  | number (n : JsonNumber)
  | string (s : String)
  | array (items : List Json)
  | object (members : List (String × Json))
deriving Inhabited

namespace Json

def ofNat (n : Nat) : Json :=
  .number (.integer n)

def ofOption {α : Type} (encode : α → Json) : Option α → Json
  | none => .null
  | some a => encode a

def ofStrings (texts : List String) : Json :=
  .array (texts.map .string)

/-- A value put under a name into members in increasing order. An earlier value of the same name
is given up. -/
def insertMember (name : String) (value : Json) : List (String × Json) → List (String × Json)
  | [] => [(name, value)]
  | first :: rest =>
    if name < first.1 then (name, value) :: first :: rest
    else if name = first.1 then (name, value) :: rest
    else first :: insertMember name value rest

theorem mem_insertMember {name : String} {value : Json} {members : List (String × Json)}
    {m : String × Json} (h : m ∈ insertMember name value members) :
    m = (name, value) ∨ m ∈ members := by
  induction members with
  | nil => simpa [insertMember] using h
  | cons first rest ih =>
    unfold insertMember at h
    split at h
    · simpa using h
    · split at h
      · rcases List.mem_cons.1 h with h | h
        · exact .inl h
        · exact .inr (.tail _ h)
      · rcases List.mem_cons.1 h with h | h
        · exact .inr (h ▸ .head _)
        · rcases ih h with h | h
          · exact .inl h
          · exact .inr (.tail _ h)

def Increasing (members : List (String × Json)) : Prop :=
  members.Pairwise fun m n => m.1 < n.1

theorem increasing_insertMember {name : String} {value : Json} {members : List (String × Json)}
    (h : Increasing members) : Increasing (insertMember name value members) := by
  induction members with
  | nil => simp [insertMember, Increasing]
  | cons first rest ih =>
    obtain ⟨hfirst, hrest⟩ := List.pairwise_cons.1 h
    unfold insertMember
    split
    · rename_i hlt
      refine List.pairwise_cons.2 ⟨fun other hother => ?_, h⟩
      rcases List.mem_cons.1 hother with rfl | hother
      · exact hlt
      · exact String.lt_trans hlt (hfirst other hother)
    · split
      · rename_i hname
        exact List.pairwise_cons.2 ⟨fun other hother => hname ▸ hfirst other hother, hrest⟩
      · rename_i hlt hne
        refine List.pairwise_cons.2 ⟨fun other hother => ?_, ih hrest⟩
        rcases mem_insertMember hother with rfl | hother
        · exact Std.lt_of_le_of_ne (String.not_lt.1 hlt) fun h => hne h.symm
        · exact hfirst other hother

/-- A value all of whose objects have increasing names. -/
inductive Normal : Json → Prop
  | null : Normal .null
  | bool (b : Bool) : Normal (.bool b)
  | number (n : JsonNumber) : Normal (.number n)
  | string (s : String) : Normal (.string s)
  | array {items : List Json} : (∀ v ∈ items, Normal v) → Normal (.array items)
  | object {members : List (String × Json)} :
    Increasing members → (∀ m ∈ members, Normal m.2) → Normal (.object members)

def lookup? (members : List (String × Json)) (name : String) : Option Json :=
  (members.find? (·.1 == name)).map (·.2)

end Json

/-- A value all of whose objects have increasing names. -/
structure NormalJson where
  value : Json
  normal : value.Normal

/-- A map from names to JSON values. -/
structure JsonObject where
  members : List (String × Json)
  increasing : Json.Increasing members
  normal : ∀ m ∈ members, m.2.Normal

namespace JsonObject

def empty : JsonObject := ⟨[], .nil, nofun⟩

instance : Inhabited JsonObject := ⟨empty⟩

def toJson (o : JsonObject) : Json :=
  .object o.members

def insert (o : JsonObject) (name : String) (v : NormalJson) : JsonObject where
  members := Json.insertMember name v.value o.members
  increasing := Json.increasing_insertMember o.increasing
  normal := by
    intro m hm
    rcases Json.mem_insertMember hm with rfl | hm
    · exact v.normal
    · exact o.normal m hm

def ofNormal (members : List (String × Json)) (h : (Json.object members).Normal) :
    JsonObject where
  members := members
  increasing := by
    cases h
    assumption
  normal := by
    cases h
    assumption

def names (o : JsonObject) : List String :=
  o.members.map (·.1)

def contains (o : JsonObject) (name : String) : Bool :=
  o.members.any (·.1 == name)

def filter (o : JsonObject) (keep : String → Bool) : JsonObject where
  members := o.members.filter fun m => keep m.1
  increasing := o.increasing.filter _
  normal := fun m hm => o.normal m (List.mem_filter.1 hm).1

end JsonObject

end ScriptSandbox
