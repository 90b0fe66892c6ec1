import ScriptSandbox.Proofs.Analysis.CallChains
import ScriptSandbox.Proofs.Analysis.Verdict
import ScriptSandbox.Proofs.Source.TokenStream

/-!
Tokens inside formatted strings. The fields of a string hold tokens of their own, strings with
fields among them. A field is shorter than the text that it stands in, so reading down to the length
of the outermost field leaves nothing out, and a policy lets some tokens pass when it clears them and
all tokens embedded in them.
-/

namespace ScriptSandbox

def Token.fields (t : Token) : List Field :=
  match t.kind with
  | .string fields => fields
  | _ => []

theorem Token.kind_of_mem_fields {t : Token} {f : Field} (h : f ∈ t.fields) :
    ∃ fields, t.kind = .string fields := by
  unfold fields at h
  split at h
  · exact ⟨_, by assumption⟩
  · cases h

/-- Some tokens stand in a field: as its expression, or in a field of a string inside it. -/
inductive Field.Embeds : Field → List Token → Prop
  | own {f} : Embeds f (tokenizeFragment f.source f.position)
  | nested {f g t tokens} : t ∈ tokenizeFragment f.source f.position → g ∈ t.fields →
      Embeds g tokens → Embeds f tokens

/-- Some tokens stand in a field of a token, at any depth. -/
def Token.Embeds (t : Token) (inner : List Token) : Prop :=
  ∃ f ∈ t.fields, f.Embeds inner

/-! ### Lengths -/

theorem Lexeme.kind_of_token? {l : Lexeme} {t : Token} (h : l.token? = some t) {f : Field}
    (hf : f ∈ t.fields) : l.kind = .string t.fields := by
  unfold Lexeme.token? at h
  unfold Token.fields at *
  split at h <;> cases h
  · cases hf
  · cases hf
  · assumption
  · cases hf

/-- The tokens of a fragment stand at its lexemes, but for the mark of its end. -/
theorem mem_tokenizeFragment {source : String} {p : Position} {t : Token}
    (h : t ∈ tokenizeFragment source p) :
    t.kind = .endMarker ∨ ∃ l ∈ Lexeme.split true p [] source.toList, l.token? = some t := by
  unfold tokenizeFragment at h
  dsimp only at h
  split at h
  · cases h
  · rcases List.mem_append.1 h with h | h
    · exact .inr (List.mem_filterMap.1 h)
    · cases List.mem_singleton.1 h
      exact .inl rfl

theorem length_of_mem_fields {source : String} {p : Position} {t : Token} {f : Field}
    (ht : t ∈ tokenizeFragment source p) (hf : f ∈ t.fields) :
    f.source.length < source.length := by
  rcases mem_tokenizeFragment ht with hkind | ⟨l, hl, htoken⟩
  · simp [Token.fields, hkind] at hf
  · obtain ⟨before, after, htext, -, hshape⟩ :=
      (Lexeme.lexed_split true p source.toList).shape_of_mem hl
    rw [Lexeme.kind_of_token? htoken hf] at hshape
    have hinside := (hshape.standsIn f hf).length_lt
    have hwhole := congrArg List.length htext
    simp only [List.length_append, String.length_toList] at hwhole
    omega

theorem kind_of_empty_field {f : Field} (h : f.source.length = 0) :
    ∀ t ∈ tokenizeFragment f.source f.position, t.kind = .endMarker := by
  intro t ht
  rcases mem_tokenizeFragment ht with hkind | ⟨l, hl, -⟩
  · exact hkind
  · rw [String.length_eq_zero_iff.1 h] at hl
    simp [Lexeme.split] at hl

/-! ### Tokens that a policy clears -/

theorem mem_tokensObservations (inField : Field → List Observation) (outer tokens : List Token)
    (o : Observation) :
    o ∈ tokensObservations inField outer.reverse tokens ↔
      ∃ before t after, tokens = before ++ t :: after ∧
        o ∈ tokenObservations inField (outer ++ before).reverse t := by
  induction tokens generalizing outer with
  | nil => simp [tokensObservations]
  | cons u rest ih =>
      -- What is read already is kept newest first, so the token read next goes in front of it.
      have hrest := ih (outer ++ [u])
      rw [List.reverse_append] at hrest
      rw [tokensObservations, List.mem_append, ← List.singleton_append, ← List.reverse_singleton,
        hrest]
      constructor
      · rintro (hfirst | ⟨before, t, after, rfl, hlater⟩)
        · exact ⟨[], u, rest, rfl, by simpa using hfirst⟩
        · exact ⟨u :: before, t, after, rfl, by simpa using hlater⟩
      · rintro ⟨before, t, after, heq, ho⟩
        cases before with
        | nil =>
            cases heq
            exact .inl (by simpa using ho)
        | cons v before =>
            cases heq
            exact .inr ⟨before, t, after, rfl, by simpa using ho⟩

/-- What tokens show is a branch, a name, a call of names among them where the first of these stands,
or shown by a field of theirs. -/
theorem forall_mem_tokensObservations {P : Observation → Prop} {inField : Field → List Observation}
    {tokens : List Token} (hbranch : P .branch)
    (hname : ∀ t ∈ tokens, t.kind = .name → P (.name t.text t.position))
    (hcall : ∀ first rest, (∀ t ∈ first :: rest, t ∈ tokens ∧ t.kind = .name) →
      P (.call ((first :: rest).map Token.text) first.position))
    (hfields : ∀ t ∈ tokens, ∀ f ∈ t.fields, ∀ o ∈ inField f, P o) :
    ∀ o ∈ tokensObservations inField [] tokens, P o := by
  intro o ho
  obtain ⟨before, t, after, rfl, hown⟩ := (mem_tokensObservations inField [] tokens o).1 ho
  rw [List.nil_append] at hown
  unfold tokenObservations at hown
  split at hown
  · rename_i fields hkind
    obtain ⟨f, hf, hfield⟩ := List.mem_flatMap.1 hown
    exact hfields t (by simp) f (by simpa [Token.fields, hkind] using hf) o hfield
  · rename_i hkind
    split at hown
    · cases List.mem_singleton.1 hown
      exact hbranch
    · cases List.mem_singleton.1 hown
      exact hname t (by simp) hkind
  · split at hown
    · split at hown
      · rename_i names htarget
        cases List.mem_singleton.1 hown
        -- The names of the chain are tokens before the parenthesis.
        obtain ⟨outer, chain, rfl, hchain, -⟩ := isCallTarget_of_callChain htarget
        obtain ⟨hne, hspec⟩ := hchain.names_spec
        obtain ⟨first, rest, rfl⟩ := List.exists_cons_of_ne_nil hne
        refine hcall first rest fun u hu => ?_
        obtain ⟨hmem, hkind⟩ := hspec u hu
        exact ⟨by simp [hmem], hkind⟩
      · cases hown
    · cases hown
  · cases hown

namespace Policy

variable {p : Policy} {inField : Field → List Observation}

/-- A policy has nothing against a name: it is a word for control flow, or stands for no blocked
attribute and no blocked module. -/
def Tolerates (p : Policy) (name : String) : Prop :=
  name ∈ branchKeywords ∨ p.blocksAttribute name = false ∧ p.blocksModuleName name = false

/-- A policy has nothing against what some tokens name and call by themselves. -/
structure Clears (p : Policy) (tokens : List Token) : Prop where
  names : ∀ t ∈ tokens, t.kind = .name → p.Tolerates t.text
  calls : ∀ before t after, tokens = before ++ t :: after → t.isOperator "(" = true →
    ∀ names, IsCallTarget before names → p.blockedCall (names.map Token.text) = none

theorem passes_tokenObservations {before : List Token} {t : Token} :
    p.Passes (tokenObservations inField before.reverse t) ↔
      (t.kind = .name → p.Tolerates t.text) ∧
      (t.isOperator "(" = true →
        ∀ names, IsCallTarget before names → p.blockedCall (names.map Token.text) = none) ∧
      ∀ f ∈ t.fields, p.Passes (inField f) := by
  unfold tokenObservations Token.isOperator Token.fields
  cases hkind : t.kind with
  | name =>
      by_cases hbranch : t.text ∈ branchKeywords
      · simp [hbranch, passes_cons, passes_nil, judge, Tolerates]
      · simp [hbranch, passes_cons, passes_nil, judge_name_eq_none, Tolerates]
  | string fields => simp [passes_flatMap]
  | operator =>
      by_cases hopens : t.text = "("
      · simp only [hopens, if_true, ← callChain_eq_some_iff]
        cases callChain before.reverse with
        | none => simp [passes_nil]
        | some chain => simp [passes_cons, passes_nil, judge]
      · simp [hopens, passes_nil]
  | number | newline | indent | dedent | endMarker => simp [passes_nil]

theorem passes_tokensObservations {tokens : List Token} :
    p.Passes (tokensObservations inField [] tokens) ↔
      p.Clears tokens ∧ ∀ t ∈ tokens, ∀ f ∈ t.fields, p.Passes (inField f) := by
  have heach : p.Passes (tokensObservations inField [] tokens) ↔
      ∀ before t after, tokens = before ++ t :: after →
        p.Passes (tokenObservations inField before.reverse t) := by
    constructor
    · intro h before t after heq o ho
      exact h o ((mem_tokensObservations inField [] tokens o).2 ⟨before, t, after, heq, ho⟩)
    · intro h o ho
      obtain ⟨before, t, after, heq, hown⟩ := (mem_tokensObservations inField [] tokens o).1 ho
      exact h before t after heq o hown
  rw [heach]
  simp only [passes_tokenObservations]
  constructor
  · intro h
    refine ⟨⟨fun t ht hname => ?_, fun before t after heq => (h before t after heq).2.1⟩, ?_⟩
    · obtain ⟨before, after, heq⟩ := List.append_of_mem ht
      exact (h before t after heq).1 hname
    · intro t ht
      obtain ⟨before, after, heq⟩ := List.append_of_mem ht
      exact (h before t after heq).2.2
  · rintro ⟨⟨hnames, hcalls⟩, hfields⟩ before t after heq
    have ht : t ∈ tokens := by simp [heq]
    exact ⟨hnames t ht, hcalls before t after heq, hfields t ht⟩

theorem passes_fieldObservations {depth : Nat} {f : Field} (hdepth : f.source.length ≤ depth) :
    p.Passes (fieldObservations depth f) ↔ ∀ tokens, f.Embeds tokens → p.Clears tokens := by
  induction depth generalizing f with
  | zero =>
      have hown := kind_of_empty_field (Nat.le_zero.1 hdepth)
      refine iff_of_true passes_nil fun tokens hembeds => ?_
      cases hembeds with
      | own =>
          refine ⟨fun t ht hname => ?_, fun before t after heq hopens => ?_⟩
          · rw [hown t ht] at hname
            cases hname
          · have hkind := hown t (by simp [heq])
            simp [Token.isOperator, hkind] at hopens
      | nested ht hg =>
          simp [Token.fields, hown _ ht] at hg
  | succ depth ih =>
      -- The fields inside are shorter, so the depth that is left suffices for them.
      have hinner {t : Token} {g : Field} (ht : t ∈ tokenizeFragment f.source f.position)
          (hg : g ∈ t.fields) : g.source.length ≤ depth := by
        have hlt := length_of_mem_fields ht hg
        omega
      rw [fieldObservations, passes_tokensObservations]
      constructor
      · rintro ⟨hown, hfields⟩ tokens hembeds
        cases hembeds with
        | own => exact hown
        | nested ht hg hembeds => exact (ih (hinner ht hg)).1 (hfields _ ht _ hg) tokens hembeds
      · intro h
        refine ⟨h _ .own, fun t ht g hg => (ih (hinner ht hg)).2 fun tokens hembeds => ?_⟩
        exact h tokens (.nested ht hg hembeds)

theorem passes_observeTokens {tokens : List Token} :
    p.Passes (observeTokens tokens) ↔
      p.Clears tokens ∧ ∀ t ∈ tokens, ∀ inner, t.Embeds inner → p.Clears inner := by
  rw [observeTokens, passes_tokensObservations]
  simp only [passes_fieldObservations (Nat.le_refl _)]
  refine and_congr_right fun _ => ⟨?_, ?_⟩
  · rintro h t ht inner ⟨f, hf, hembeds⟩
    exact h t ht f hf inner hembeds
  · intro h t ht f hf inner hembeds
    exact h t ht inner ⟨f, hf, hembeds⟩

end Policy

/-! ### Names in fields -/

section Names

variable {name : String} {place : Position} {tokens : List Token}

/-- A field shows a name at a place: as a name of its expression, or in a field of a string inside
it. -/
def Field.Shows (name : String) (place : Position) (f : Field) : Prop :=
  ∃ tokens, f.Embeds tokens ∧ ∃ t ∈ tokens, t.kind = .name ∧ t.text = name ∧ t.position = place

theorem Field.shows_iff {f : Field} : f.Shows name place ↔
    (∃ t ∈ tokenizeFragment f.source f.position,
      t.kind = .name ∧ t.text = name ∧ t.position = place) ∨
    ∃ t ∈ tokenizeFragment f.source f.position, ∃ g ∈ t.fields, g.Shows name place := by
  constructor
  · rintro ⟨tokens, hembeds, hname⟩
    cases hembeds with
    | own => exact .inl hname
    | nested ht hg hembeds => exact .inr ⟨_, ht, _, hg, tokens, hembeds, hname⟩
  · rintro (hname | ⟨t, ht, g, hg, tokens, hembeds, hname⟩)
    · exact ⟨_, .own, hname⟩
    · exact ⟨tokens, .nested ht hg hembeds, hname⟩

theorem name_mem_tokensObservations {inField : Field → List Observation}
    (hbranch : name ∉ branchKeywords) :
    .name name place ∈ tokensObservations inField [] tokens ↔
      (∃ t ∈ tokens, t.kind = .name ∧ t.text = name ∧ t.position = place) ∨
        ∃ t ∈ tokens, ∃ f ∈ t.fields, .name name place ∈ inField f := by
  have heach (before : List Token) (t : Token) :
      .name name place ∈ tokenObservations inField before t ↔
        (t.kind = .name ∧ t.text = name ∧ t.position = place) ∨
          ∃ f ∈ t.fields, .name name place ∈ inField f := by
    unfold tokenObservations Token.fields
    cases hkind : t.kind with
    | name =>
        by_cases htext : t.text ∈ branchKeywords
        · have hne : t.text ≠ name := fun heq => hbranch (heq ▸ htext)
          simp [htext, hne]
        · simp [htext, eq_comm]
    | string fields => simp
    | operator =>
        by_cases hopens : t.text = "("
        · cases callChain before with
          | none => simp [hopens]
          | some chain => simp [hopens]
        · simp [hopens]
    | number | newline | indent | dedent | endMarker => simp
  have hmem := mem_tokensObservations inField [] tokens (.name name place)
  rw [List.reverse_nil] at hmem
  rw [hmem]
  simp only [heach]
  constructor
  · rintro ⟨before, t, after, rfl, hname | hfield⟩
    · exact .inl ⟨t, by simp, hname⟩
    · exact .inr ⟨t, by simp, hfield⟩
  · rintro (⟨t, ht, hname⟩ | ⟨t, ht, hfield⟩)
    · obtain ⟨before, after, heq⟩ := List.append_of_mem ht
      exact ⟨before, t, after, heq, .inl hname⟩
    · obtain ⟨before, after, heq⟩ := List.append_of_mem ht
      exact ⟨before, t, after, heq, .inr hfield⟩

theorem name_mem_fieldObservations (hbranch : name ∉ branchKeywords) {depth : Nat} {f : Field}
    (hdepth : f.source.length ≤ depth) :
    .name name place ∈ fieldObservations depth f ↔ f.Shows name place := by
  induction depth generalizing f with
  | zero =>
      have hown := kind_of_empty_field (Nat.le_zero.1 hdepth)
      refine iff_of_false (by simp [fieldObservations]) fun hshows => ?_
      rcases Field.shows_iff.1 hshows with ⟨t, ht, hname, -⟩ | ⟨t, ht, g, hg, -⟩
      · rw [hown t ht] at hname
        cases hname
      · simp [Token.fields, hown t ht] at hg
  | succ depth ih =>
      have hinner {t : Token} {g : Field} (ht : t ∈ tokenizeFragment f.source f.position)
          (hg : g ∈ t.fields) : .name name place ∈ fieldObservations depth g ↔ g.Shows name place := by
        refine ih ?_
        have hlt := length_of_mem_fields ht hg
        omega
      rw [fieldObservations, name_mem_tokensObservations hbranch, Field.shows_iff]
      refine or_congr_right (exists_congr fun t => and_congr_right fun ht => ?_)
      exact exists_congr fun g => and_congr_right fun hg => hinner ht hg

theorem name_mem_observeTokens (hbranch : name ∉ branchKeywords) :
    .name name place ∈ observeTokens tokens ↔
      (∃ t ∈ tokens, t.kind = .name ∧ t.text = name ∧ t.position = place) ∨
        ∃ t ∈ tokens, ∃ f ∈ t.fields, f.Shows name place := by
  rw [observeTokens, name_mem_tokensObservations hbranch]
  simp only [name_mem_fieldObservations hbranch (Nat.le_refl _)]

end Names

end ScriptSandbox
