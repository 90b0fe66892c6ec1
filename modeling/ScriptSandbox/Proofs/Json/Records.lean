import ScriptSandbox.Proofs.Json.Values

/-!
Records from JSON objects. A record is taken out of an object by the names of its fields, in whatever
order they stand and whatever stands beside them, and the tag of an alternative may stand anywhere.
-/

namespace ScriptSandbox

open Reading (ofJson)

namespace Json

def Distinct (members : List (String × Json)) : Prop :=
  (members.map Prod.fst).Nodup

variable {members : List (String × Json)} {name tag : String} {v : Json}

theorem name_mem_of_mem (h : (name, v) ∈ members) : name ∈ members.map Prod.fst :=
  List.mem_map.2 ⟨_, h, rfl⟩

@[simp] theorem lookup?_cons_self : lookup? ((name, v) :: members) name = some v := by
  simp [lookup?]

@[simp] theorem lookup?_cons_of_ne {other : String} (h : other ≠ name) :
    lookup? ((other, v) :: members) name = lookup? members name := by
  simp [lookup?, h]

theorem Distinct.lookup?_eq_some (h : Distinct members) (hmem : (name, v) ∈ members) :
    lookup? members name = some v := by
  induction members with
  | nil => cases hmem
  | cons first rest ih =>
      obtain ⟨other, own⟩ := first
      obtain ⟨hfirst, hrest⟩ := List.nodup_cons.1 h
      rcases List.mem_cons.1 hmem with heq | hmem
      · cases heq
        exact lookup?_cons_self
      · have hne : other ≠ name := by
          rintro rfl
          exact hfirst (name_mem_of_mem hmem)
        simpa [hne] using ih hrest hmem

@[simp] theorem lookup?_eq_none (h : name ∉ members.map Prod.fst) :
    lookup? members name = none := by
  rw [lookup?, Option.map_eq_none_iff, List.find?_eq_none]
  intro m hm heq
  exact h (eq_of_beq heq ▸ List.mem_map_of_mem hm)

theorem Distinct.filter (h : Distinct members) (keep : String × Json → Bool) :
    Distinct (members.filter keep) :=
  h.sublist (List.filter_sublist.map _)

/-- A field of an object that is left out where it has its default. -/
def Tells {α : Type} (members : List (String × Json)) (name : String) (encode : α → Json)
    (default a : α) : Prop :=
  (name, encode a) ∈ members ∨ a = default ∧ name ∉ members.map Prod.fst

end Json

namespace RecordDecoder

/-- What stands in an object for the field of a name. -/
def fieldOf (members : List (String × Json)) (name : String) : Option Reading :=
  (Json.lookup? members name).map ofJson

@[simp] theorem memberNamed_ofMembers (members : List (String × Json)) :
    memberNamed (Reading.ofMembers members) = fieldOf members := by
  funext name
  rw [Reading.ofMembers_eq_map, memberNamed, fieldOf, Json.lookup?, List.find?_map, Option.map_map,
    Option.map_map]
  rfl

/-! ### Fields -/

/-- A record is built from its fields, each of which passes its check. -/
structure Takes {α : Type} (d : RecordDecoder α) (get : String → Option Reading) (a : α) :
    Prop where
  build_eq : d.build get = .ok a
  checked : ∀ f ∈ d.fields, ∀ r ∈ get f.name, f.check r = .ok ()

variable {α β : Type} {get : String → Option Reading}

theorem Takes.map {d : RecordDecoder α} {a : α} (h : d.Takes get a) (f : α → β) :
    (f <$> d).Takes get (f a) := by
  refine ⟨?_, h.checked⟩
  change (d.build get).map f = .ok (f a)
  rw [h.build_eq]
  rfl

theorem Takes.seq {d : RecordDecoder (α → β)} {e : RecordDecoder α} {f : α → β} {a : α}
    (hd : d.Takes get f) (he : e.Takes get a) : (d <*> e).Takes get (f a) := by
  refine ⟨?_, ?_⟩
  · exact bind_eq_ok.2 ⟨f, hd.build_eq, bind_eq_ok.2 ⟨a, he.build_eq, rfl⟩⟩
  · intro one hone
    rcases List.mem_append.1 hone with hone | hone
    · exact hd.checked one hone
    · exact he.checked one hone

@[simp] theorem build_field (presence : Presence) (name : String) (decode : Decoder α)
    (missing : Except Misread α) :
    (field presence name decode missing).build get = (get name).elim missing decode := by
  cases hget : get name <;> simp [field, hget]

theorem takes_field {presence : Presence} {name : String} {decode : Decoder α}
    {missing : Except Misread α} {r : Reading} {a : α} (hget : get name = some r)
    (hr : decode r = .ok a) : (field presence name decode missing).Takes get a := by
  refine ⟨by simp [hget, hr], fun f hf own hown => ?_⟩
  obtain rfl := List.mem_singleton.1 hf
  obtain rfl : r = own := Option.some.inj (hget.symm.trans hown)
  exact map_eq_ok.2 ⟨a, hr, rfl⟩

theorem takes_missing {presence : Presence} {name : String} {decode : Decoder α} {a : α}
    (hget : get name = none) : (field presence name decode (.ok a)).Takes get a := by
  refine ⟨by simp [hget], fun f hf own hown => ?_⟩
  obtain rfl := List.mem_singleton.1 hf
  cases hget.symm.trans hown

section Object

variable {members : List (String × Json)} {name : String} {v : Json} {decode : Decoder α}
  {encode : α → Json} {default a : α} (hdistinct : Json.Distinct members)
include hdistinct

theorem takes_member (presence : Presence) (missing : Except Misread α)
    (hmem : (name, v) ∈ members) (hv : decode (ofJson v) = .ok a) :
    (field presence name decode missing).Takes (fieldOf members) a := by
  exact takes_field (r := ofJson v) (by simp [fieldOf, hdistinct.lookup?_eq_some hmem]) hv

theorem takes_required_value (hmem : (name, v) ∈ members) (hv : decode (ofJson v) = .ok a) :
    (required name decode).Takes (fieldOf members) a :=
  takes_member hdistinct .required (.error .form) hmem hv

theorem takes_required (hinverts : decode.Inverts encode) (hmem : (name, encode a) ∈ members) :
    (required name decode).Takes (fieldOf members) a :=
  takes_required_value hdistinct hmem (hinverts a)

theorem takes_defaulted (hinverts : decode.Inverts encode)
    (htells : Json.Tells members name encode default a) :
    (defaulted name decode default).Takes (fieldOf members) a := by
  rcases htells with hmem | ⟨rfl, hmissing⟩
  · exact takes_member hdistinct .defaulted (.ok default) hmem (hinverts a)
  · exact takes_missing (by simp [fieldOf, hmissing])

theorem checkMembers_ofMembers {fields : List RecordField} {seen : List String}
    (hseen : ∀ m ∈ members, m.1 ∉ seen)
    (hcheck : ∀ m ∈ members, ∀ f ∈ fields, f.name = m.1 → f.check (ofJson m.2) = .ok ()) :
    checkMembers fields seen (Reading.ofMembers members) = .ok () := by
  induction members generalizing seen with
  | nil => rfl
  | cons first rest ih =>
      obtain ⟨name, v⟩ := first
      obtain ⟨hname, hdistinct⟩ := List.nodup_cons.1 hdistinct
      obtain ⟨hfirst, hothers⟩ := List.forall_mem_cons.1 hseen
      obtain ⟨hown, hrest⟩ := List.forall_mem_cons.1 hcheck
      rw [Reading.ofMembers_cons, checkMembers]
      split
      · rw [Reading.skip_ofJson]
        exact ih hdistinct hothers hrest
      · rename_i f hf
        have hnamed : f.name = name := by simpa using List.find?_some hf
        rw [hown f (List.mem_of_find?_eq_some hf) hnamed, if_neg (by simpa using hfirst)]
        refine ih hdistinct (fun m hm hseen => ?_) hrest
        rcases List.mem_cons.1 hseen with heq | hseen
        · rw [← heq] at hname
          exact hname (Json.name_mem_of_mem hm)
        · exact hothers m hm hseen

theorem decode_object {d : RecordDecoder α} (h : d.Takes (fieldOf members) a) :
    d.decode (ofJson (.object members)) = .ok a := by
  have hcheck : checkMembers d.fields [] (Reading.ofMembers members) = .ok () := by
    refine checkMembers_ofMembers hdistinct (by simp) fun m hm f hf hname => ?_
    exact h.checked f hf _ (by simp [fieldOf, hname, hdistinct.lookup?_eq_some hm])
  rw [Reading.ofJson_object, RecordDecoder.decode, hcheck, memberNamed_ofMembers]
  exact h.build_eq

end Object

/-! ### Members of one reading for several records -/

section Reading

variable {members others : List (Except Misread String × Reading)} {stop : Option Misread}
  {fields : List RecordField} {seen : List String} {name key : String} {r : Reading}

@[simp] theorem memberNamed_cons_self : memberNamed ((.ok key, r) :: members) key = some r := by
  simp [memberNamed, Except.toOption]

@[simp] theorem memberNamed_cons_of_ne (h : key ≠ name) :
    memberNamed ((.ok key, r) :: members) name = memberNamed members name := by
  simp [memberNamed, Except.toOption, h]

theorem checkMembers_of_unknown (hunknown : ∀ f ∈ fields, f.name ≠ key) (hskip : r.skip = .ok ())
    (hrest : checkMembers fields seen members = .ok ()) :
    checkMembers fields seen ((.ok key, r) :: members) = .ok () := by
  have hnone : fields.find? (·.name == key) = none := by simpa using hunknown
  rw [checkMembers, hnone]
  exact bind_eq_ok.2 ⟨(), hskip, hrest⟩

theorem checkMembers_of_known (hknown : ∃ f ∈ fields, f.name = key) (hnew : key ∉ seen)
    (hcheck : ∀ f ∈ fields, f.name = key → f.check r = .ok ())
    (hrest : checkMembers fields (key :: seen) members = .ok ()) :
    checkMembers fields seen ((.ok key, r) :: members) = .ok () := by
  have hsome : (fields.find? (·.name == key)).isSome = true := by simpa using hknown
  obtain ⟨f, hf⟩ := Option.isSome_iff_exists.1 hsome
  have hname : f.name = key := by simpa using List.find?_some hf
  rw [checkMembers, hf]
  dsimp only
  rw [if_neg (by simpa using hnew), hcheck f (List.mem_of_find?_eq_some hf) hname]
  exact hrest

theorem checkMembers_cons {m : Except Misread String × Reading}
    (h : checkMembers fields seen (m :: members) = .ok ()) :
    ∃ key, m.1 = .ok key ∧
      ((∀ f ∈ fields, f.name ≠ key) ∧ m.2.skip = .ok () ∧
          checkMembers fields seen members = .ok () ∨
        (∃ f ∈ fields, f.name = key) ∧ key ∉ seen ∧
          checkMembers fields (key :: seen) members = .ok ()) := by
  obtain ⟨fault | key, r⟩ := m
  · cases h
  refine ⟨key, rfl, ?_⟩
  rw [checkMembers] at h
  split at h
  · rename_i hnone
    obtain ⟨⟨⟩, hskip, hrest⟩ := bind_eq_ok.1 h
    exact .inl ⟨by simpa using hnone, hskip, hrest⟩
  · rename_i f hf
    have hname : f.name = key := by simpa using List.find?_some hf
    split at h
    · cases h
    · rename_i hseen
      obtain ⟨⟨⟩, -, hrest⟩ := bind_eq_ok.1 h
      exact .inr ⟨⟨f, List.mem_of_find?_eq_some hf, hname⟩, by simpa using hseen, hrest⟩

/-- When some members pass for one record, so do all or some of them for another record with fields
of the same names, if its fields find what they ask for. -/
theorem checkMembers_of_sublist {fields' : List RecordField} {seen' : List String}
    (hnames : fields'.map RecordField.name = fields.map RecordField.name)
    (h : checkMembers fields seen members = .ok ()) (hsub : others.Sublist members)
    (hseen : seen' ⊆ seen)
    (hcheck : ∀ f ∈ fields', f.name ∉ seen' →
      ∀ r ∈ memberNamed others f.name, f.check r = .ok ()) :
    checkMembers fields' seen' others = .ok () := by
  have hsame (key : String) :
      (∃ f ∈ fields', f.name = key) ↔ ∃ f ∈ fields, f.name = key := by
    rw [← List.mem_map, hnames, List.mem_map]
  induction hsub generalizing seen seen' with
  | slnil => rfl
  | cons m hsub ih =>
      obtain ⟨key, -, ⟨-, -, hrest⟩ | ⟨-, -, hrest⟩⟩ := checkMembers_cons h
      · exact ih hrest hseen hcheck
      · exact ih hrest (List.subset_cons_of_subset key hseen) hcheck
  | @cons_cons others members m hsub ih =>
      obtain ⟨key, hkey, hcases⟩ := checkMembers_cons h
      obtain ⟨_, r⟩ := m
      obtain rfl : _ = Except.ok key := hkey
      rcases hcases with ⟨hunknown, hskip, hrest⟩ | ⟨hknown, hnew, hrest⟩
      · have hunknown' (f : RecordField) (hf : f ∈ fields') : f.name ≠ key := fun heq => by
          obtain ⟨g, hg, hname⟩ := (hsame key).1 ⟨f, hf, heq⟩
          exact hunknown g hg hname
        refine checkMembers_of_unknown hunknown' hskip (ih hrest hseen fun f hf hnot own hown => ?_)
        exact hcheck f hf hnot own (by simpa [(hunknown' f hf).symm] using hown)
      · have hnew' : key ∉ seen' := fun hmem => hnew (hseen hmem)
        refine checkMembers_of_known ((hsame key).2 hknown) hnew' ?_ ?_
        · rintro f hf rfl
          exact hcheck f hf hnew' r memberNamed_cons_self
        · refine ih hrest (List.cons_subset_cons key hseen) fun f hf hnot own hown => ?_
          obtain ⟨hne, hnot⟩ := List.ne_and_not_mem_of_not_mem_cons hnot
          exact hcheck f hf hnot own (by simpa [hne.symm] using hown)

theorem decode_object_eq_ok {d : RecordDecoder α} {a : α} :
    d.decode (.object members stop) = .ok a ↔ checkMembers d.fields [] members = .ok () ∧
      stop = none ∧ d.build (memberNamed members) = .ok a := by
  have hstop : Reading.unlessFault stop = .ok () ↔ stop = none := by
    cases stop with
    | none => exact iff_of_true rfl rfl
    | some fault => exact iff_of_false nofun nofun
  rw [decode, bind_eq_ok]
  simp only [bind_eq_ok, hstop]
  exact ⟨fun ⟨_, hcheck, _, hnone, hbuild⟩ => ⟨hcheck, hnone, hbuild⟩,
    fun ⟨hcheck, hnone, hbuild⟩ => ⟨(), hcheck, (), hnone, hbuild⟩⟩

end Reading

/-! ### Records put together from fields -/

theorem build_map_eq_ok {d : RecordDecoder α} {f : α → β} {b : β} :
    (f <$> d).build get = .ok b ↔ ∃ a, d.build get = .ok a ∧ f a = b :=
  map_eq_ok

theorem build_seq_eq_ok {d : RecordDecoder (α → β)} {e : RecordDecoder α} {b : β} :
    (d <*> e).build get = .ok b ↔
      ∃ f, d.build get = .ok f ∧ ∃ a, e.build get = .ok a ∧ f a = b := by
  change (d.build get >>= fun f => e.build get >>= fun a => pure (f a)) = .ok b ↔ _
  simp only [bind_eq_ok, pure_eq_ok]

theorem build_field_congr {get' : String → Option Reading} {presence : Presence} {name : String}
    {decode : Decoder α} {missing : Except Misread α} (h : get' name = get name) :
    (field presence name decode missing).build get' =
      (field presence name decode missing).build get := by
  simp [h]

/-- Whatever a record is built from passes its checks. -/
def Checks (d : RecordDecoder α) : Prop :=
  ∀ get a, d.build get = .ok a → d.Takes get a

theorem Checks.map {d : RecordDecoder α} (h : d.Checks) (f : α → β) : (f <$> d).Checks := by
  intro get b hb
  obtain ⟨a, ha, rfl⟩ := build_map_eq_ok.1 hb
  exact (h get a ha).map f

theorem Checks.seq {d : RecordDecoder (α → β)} {e : RecordDecoder α} (hd : d.Checks)
    (he : e.Checks) : (d <*> e).Checks := by
  intro get b hb
  obtain ⟨f, hf, a, ha, rfl⟩ := build_seq_eq_ok.1 hb
  exact (hd get f hf).seq (he get a ha)

theorem checks_field (presence : Presence) (name : String) (decode : Decoder α)
    (missing : Except Misread α) : (field presence name decode missing).Checks := by
  intro get a ha
  refine ⟨ha, fun f hf r hr => ?_⟩
  obtain rfl := List.mem_singleton.1 hf
  rw [build_field, Option.mem_def.1 hr] at ha
  exact map_eq_ok.2 ⟨a, ha, rfl⟩

theorem checks_required (name : String) (decode : Decoder α) : (required name decode).Checks :=
  checks_field .required name decode _

theorem checks_defaulted (name : String) (decode : Decoder α) (default : α) :
    (defaulted name decode default).Checks :=
  checks_field .defaulted name decode _

/-- Where one record is taken out of an object, another one with fields of the same names is taken
out of all or some of its members, if it can be built from these. -/
theorem Checks.decode_of_decode {d : RecordDecoder α} {e : RecordDecoder β}
    {members others : List (Except Misread String × Reading)} {stop : Option Misread} {a : α} {b : β}
    (he : e.Checks) (hnames : e.fields.map RecordField.name = d.fields.map RecordField.name)
    (h : d.decode (.object members stop) = .ok a) (hsub : others.Sublist members)
    (hbuild : e.build (memberNamed others) = .ok b) : e.decode (.object others stop) = .ok b := by
  obtain ⟨hcheck, hstop, -⟩ := decode_object_eq_ok.1 h
  have htakes := he _ b hbuild
  refine decode_object_eq_ok.2 ⟨?_, hstop, hbuild⟩
  exact checkMembers_of_sublist hnames hcheck hsub (List.Subset.refl _)
    fun f hf _ => htakes.checked f hf

end RecordDecoder

/-! ### Alternatives -/

namespace Decoder

variable {α : Type} {tag label : String} {byIndex : Bool} {alternatives : List (String × Decoder α)}
  {members : List (String × Json)} {d : Decoder α} {a : α}

theorem findTag_of_not_mem (found : Option (Decoder α)) (h : tag ∉ members.map Prod.fst) :
    findTag tag byIndex alternatives found (Reading.ofMembers members) =
      .ok (found, Reading.ofMembers members) := by
  induction members with
  | nil => rfl
  | cons first rest ih =>
      obtain ⟨name, v⟩ := first
      obtain ⟨hfirst, hrest⟩ := List.ne_and_not_mem_of_not_mem_cons h
      obtain ⟨own, hown, -⟩ := Reading.exists_value v
      rw [Reading.ofMembers_cons, findTag, if_neg (Ne.symm hfirst), hown]
      exact bind_eq_ok.2 ⟨own, rfl, bind_eq_ok.2 ⟨_, ih hrest, rfl⟩⟩

theorem findTag_ofMembers (hdistinct : Json.Distinct members)
    (hlabel : (tag, .string label) ∈ members) (halternative : alternatives.lookup label = some d) :
    findTag tag byIndex alternatives none (Reading.ofMembers members) =
      .ok (some d, Reading.ofMembers (members.filter (·.1 != tag))) := by
  induction members with
  | nil => cases hlabel
  | cons first rest ih =>
      obtain ⟨name, v⟩ := first
      obtain ⟨hname, hdistinct⟩ := List.nodup_cons.1 hdistinct
      rw [Reading.ofMembers_cons, findTag]
      rcases List.mem_cons.1 hlabel with heq | hlabel
      · cases heq
        -- The tag is found, and no later member has its name.
        have hothers : ((tag, Json.string label) :: rest).filter (·.1 != tag) = rest := by
          rw [List.filter_cons_of_neg (by simp)]
          apply List.filter_eq_self.2
          intro m hm
          rw [bne_iff_ne]
          rintro rfl
          exact hname (Json.name_mem_of_mem hm)
        have hfound : alternative byIndex alternatives (ofJson (.string label)) = .ok d := by
          rw [ofJson, alternative, halternative]
        rw [if_pos rfl, if_neg (by simp), hfound, hothers]
        exact findTag_of_not_mem (some d) hname
      · have hne : name ≠ tag := by
          rintro rfl
          exact hname (Json.name_mem_of_mem hlabel)
        obtain ⟨own, hown, -⟩ := Reading.exists_value v
        rw [if_neg hne, hown, List.filter_cons_of_pos (by simpa using hne),
          Reading.ofMembers_cons]
        exact bind_eq_ok.2 ⟨own, rfl, bind_eq_ok.2 ⟨_, ih hdistinct hlabel, rfl⟩⟩

theorem tagged_object (hdistinct : Json.Distinct members) (hlabel : (tag, .string label) ∈ members)
    (halternative : alternatives.lookup label = some d)
    (h : d (ofJson (.object (members.filter (·.1 != tag)))) = .ok a) :
    tagged tag byIndex alternatives (ofJson (.object members)) = .ok a := by
  rw [ofJson, tagged, findTag_ofMembers hdistinct hlabel halternative]
  change d.buffered (ofJson (.object (members.filter (·.1 != tag)))) = .ok a
  rw [buffered, h]

end Decoder

namespace Json

variable {members : List (String × Json)} {name tag : String} {v : Json}

theorem mem_filter_ne (h : (name, v) ∈ members) (hname : name ≠ tag) :
    (name, v) ∈ members.filter (·.1 != tag) :=
  List.mem_filter.2 ⟨h, by simpa using hname⟩

theorem Tells.filter_ne {α : Type} {encode : α → Json} {default a : α}
    (h : Tells members name encode default a) (hname : name ≠ tag) :
    Tells (members.filter (·.1 != tag)) name encode default a :=
  h.imp (fun hmem => mem_filter_ne hmem hname) fun ⟨heq, hmissing⟩ =>
    ⟨heq, fun hmem => hmissing ((List.filter_sublist.map _).subset hmem)⟩

end Json

end ScriptSandbox
