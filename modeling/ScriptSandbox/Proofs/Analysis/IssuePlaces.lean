import ScriptSandbox.Proofs.Analysis.Coherence

/-!
Places of issues. What is written in a lexeme is written in the text that the lexeme stands in, and
the fields of a string are parts of its lexeme. So an issue about a name, a call or an import points
at the characters that it tells of, however deep in the fields of formatted strings they stand.
-/

namespace ScriptSandbox

/-! ### Words in texts -/

/-- A word is written in a text that begins at `p`, and its first character stands at `place`. -/
def Written (place p : Position) (word text : List Char) : Prop :=
  ∃ before after, text = before ++ word ++ after ∧ place = p.after before

/-- What is written in a part of a text is written in the text. -/
theorem Written.trans {place q p : Position} {word inner text : List Char}
    (h : Written place q word inner) (hinner : Written q p inner text) :
    Written place p word text := by
  obtain ⟨before, after, rfl, rfl⟩ := h
  obtain ⟨lead, rest, rfl, rfl⟩ := hinner
  exact ⟨lead ++ before, after ++ rest, by simp, by simp⟩

namespace Lexeme.Lexed

variable {lenient : Bool} {p : Position} {text : List Char} {lexemes : List Lexeme} {l : Lexeme}
  {t : Token}

theorem written (h : Lexed lenient p text lexemes) (hl : l ∈ lexemes) :
    Written l.position p l.text text := by
  obtain ⟨before, after, htext, hposition, -⟩ := h.shape_of_mem hl
  exact ⟨before, after, htext, hposition⟩

theorem written_token (h : Lexed lenient p text lexemes) (hl : l ∈ lexemes)
    (ht : l.token? = some t) : Written t.position p t.text.toList text := by
  obtain ⟨htext, hposition⟩ := token?_eq_some ht
  rw [htext, hposition, String.toList_ofList]
  exact h.written hl

theorem written_field (h : Lexed lenient p text lexemes) (hl : l ∈ lexemes)
    (ht : l.token? = some t) {f : Field} (hf : f ∈ t.fields) :
    Written f.position p f.source.toList text := by
  obtain ⟨_, _, -, -, hshape⟩ := h.shape_of_mem hl
  rw [kind_of_token? ht hf] at hshape
  obtain ⟨before, after, htext, -, hposition⟩ := hshape.standsIn f hf
  have hlexeme : Written f.position l.position f.source.toList l.text :=
    ⟨before, after, htext, hposition⟩
  exact hlexeme.trans (h.written hl)

end Lexeme.Lexed

/-! ### Names and calls -/

/-- What tokens of a text that begins at `p` can show: names that are written in the text, calls
that begin with a name written there, and branches. -/
def Observation.PointsInto (p : Position) (text : List Char) : Observation → Prop
  | name word place => Written place p word.toList text
  | call chain place => ∃ first ∈ chain.head?, Written place p first.toList text
  | branch => True
  | importOf .. | relativeImport _ | block .. => False

theorem Observation.PointsInto.trans {o : Observation} {q p : Position} {inner text : List Char}
    (h : o.PointsInto q inner) (hinner : Written q p inner text) : o.PointsInto p text := by
  cases o with
  | name word place => exact Written.trans h hinner
  | call chain place =>
      obtain ⟨first, hfirst, hwritten⟩ := h
      exact ⟨first, hfirst, hwritten.trans hinner⟩
  | branch => trivial
  | importOf | relativeImport | block => cases h

theorem pointsInto_of_mem_tokensObservations {inField : Field → List Observation}
    {tokens : List Token} {p : Position} {text : List Char}
    (hnames : ∀ t ∈ tokens, t.kind = .name → Written t.position p t.text.toList text)
    (hfields : ∀ t ∈ tokens, ∀ f ∈ t.fields, ∀ o ∈ inField f, o.PointsInto p text) :
    ∀ o ∈ tokensObservations inField [] tokens, o.PointsInto p text := by
  refine forall_mem_tokensObservations trivial hnames (fun first rest hspec => ?_) hfields
  obtain ⟨hmem, hkind⟩ := hspec first List.mem_cons_self
  exact ⟨first.text, rfl, hnames first hmem hkind⟩

theorem pointsInto_of_mem_fieldObservations (depth : Nat) (f : Field) :
    ∀ o ∈ fieldObservations depth f, o.PointsInto f.position f.source.toList := by
  induction depth generalizing f with
  | zero => simp [fieldObservations]
  | succ depth ih =>
      have hlexed := Lexeme.lexed_split true f.position f.source.toList
      refine pointsInto_of_mem_tokensObservations (fun t ht hname => ?_) fun t ht g hg o ho => ?_
      · rcases mem_tokenizeFragment ht with hkind | ⟨l, hl, htoken⟩
        · rw [hname] at hkind
          cases hkind
        · exact hlexed.written_token hl htoken
      · rcases mem_tokenizeFragment ht with hkind | ⟨l, hl, htoken⟩
        · simp [Token.fields, hkind] at hg
        · exact (ih g o ho).trans (hlexed.written_field hl htoken hg)

/-! ### Imports -/

/-- The word that an import of this form begins with. -/
def LineForm.keyword : LineForm → String
  | importFrom .. => "from"
  | _ => "import"

theorem isWord_keyword_of_lineStatement {first : Token} {rest line : List Token} {form : LineForm}
    {p : Position} (h : lineStatement first rest = .ok (.line form p line))
    (hform : form ≠ .plain) :
    p = first.position ∧ first.isWord form.keyword = true := by
  obtain ⟨read, heq, -, hread⟩ := lineStatement_eq_ok h
  cases heq
  refine ⟨rfl, ?_⟩
  rcases lineForm_cases hread with ⟨himport, _, -, rfl⟩ | ⟨-, hfrom, _, _, -, rfl⟩ | ⟨-, -, rfl⟩
  · exact himport
  · exact hfrom
  · exact absurd rfl hform

/-! ### Scripts -/

/-- A word is written in a script at a place: the line is one more than the line feeds before the
word, and the column is the number of characters behind the last of them. -/
def WrittenAt (source : String) (place : Position) (word : String) : Prop :=
  ∃ before after, source.toList = before ++ word.toList ++ after ∧
    place.line = 1 + before.count '\n' ∧ place.column = (Position.lastLine before).length

theorem Written.at {source word : String} {place : Position}
    (h : Written place .start word.toList source.toList) : WrittenAt source place word := by
  obtain ⟨before, after, htext, rfl⟩ := h
  rw [WrittenAt, Position.start_after]
  exact ⟨before, after, htext, rfl, rfl⟩

/-- A statement of a script is an import of some form, and the word that it begins with is written
at a place. -/
def ImportStands (source : String) (statements : List Statement) (place : Position)
    (form : LineForm) : Prop :=
  ∃ first rest, .line form place (first :: rest) ∈ flattenAll statements ∧
    first.isWord form.keyword = true ∧ first.position = place ∧ WrittenAt source place form.keyword

/-- What a script shows is there to see: a name where it is written, a call where its first name is
written, and an import where its keyword stands. -/
def Observation.PointsAt (source : String) (statements : List Statement) : Observation → Prop
  | name word place => WrittenAt source place word
  | call chain place => ∃ first ∈ chain.head?, WrittenAt source place first
  | importOf root place =>
      ∃ form, form.Imports root ∧ ImportStands source statements place form
  | relativeImport place => ∃ form, form.IsRelative ∧ ImportStands source statements place form
  | branch | block .. => True

theorem Observation.PointsInto.pointsAt {source : String} {statements : List Statement}
    {o : Observation} (h : o.PointsInto .start source.toList) : o.PointsAt source statements := by
  cases o with
  | name word place => exact Written.at h
  | call chain place =>
      obtain ⟨first, hfirst, hwritten⟩ := h
      exact ⟨first, hfirst, hwritten.at⟩
  | branch | block => trivial
  | importOf | relativeImport => cases h

/-- What is found at a place of a script is there to see. The first name of a call's chain is the
first name of the target that is told. -/
def Finding.PointsAt (source : String) (statements : List Statement) (place : Position) :
    Finding → Prop
  | blockedAttribute name | blockedModule name => WrittenAt source place name
  | forbiddenCall target _ => ∃ first ∈ (targetChain target).head?, WrittenAt source place first
  | forbiddenImport root _ => ∃ form, form.Imports root ∧ ImportStands source statements place form
  | relativeImport => ∃ form, form.IsRelative ∧ ImportStands source statements place form
  | malformed _ | deepNesting .. | manyBranches .. => True

namespace Script

variable {source : String} {tokens : List Token} {statements : List Statement}

theorem written_token (h : Script source tokens statements) {t : Token} (ht : t ∈ tokens)
    (hwritten : t.isWritten = true) : Written t.position .start t.text.toList source.toList := by
  obtain ⟨l, hl, htoken⟩ := exists_lexeme_of_tokenize h.tokenize_eq ht hwritten
  exact (lexed_scriptLexemes source).written_token hl htoken

theorem pointsInto_of_mem_observeTokens (h : Script source tokens statements) {s : Statement}
    (hs : s ∈ flattenAll statements) :
    ∀ o ∈ observeTokens s.tokens, o.PointsInto .start source.toList := by
  obtain ⟨before, after, heq, -⟩ := h.tokens_eq_of_mem hs
  have hmem {t : Token} (ht : t ∈ s.tokens) : t ∈ tokens := by simp [heq, ht]
  refine pointsInto_of_mem_tokensObservations
    (fun t ht hname => h.written_token (hmem ht) (Token.isWritten_of_isName hname))
    fun t ht f hf o ho => ?_
  obtain ⟨fields, hkind⟩ := Token.kind_of_mem_fields hf
  obtain ⟨l, hl, htoken⟩ :=
    exists_lexeme_of_tokenize h.tokenize_eq (hmem ht) (by simp [Token.isWritten, hkind])
  exact (pointsInto_of_mem_fieldObservations _ f o ho).trans
    ((lexed_scriptLexemes source).written_field hl htoken hf)

theorem importStands_of_mem (h : Script source tokens statements) {form : LineForm}
    {place : Position} {line : List Token} (hline : .line form place line ∈ flattenAll statements)
    (hform : form ≠ .plain) : ImportStands source statements place form := by
  obtain ⟨body, last, pieces, -, -, hspells⟩ := h.spells
  obtain ⟨first, rest, rfl, hread⟩ := hspells.lineStatement_of_mem hline
  obtain ⟨rfl, hword⟩ := isWord_keyword_of_lineStatement hread hform
  have hname := Token.isWord_iff.1 hword
  obtain ⟨before, after, heq, -⟩ := h.tokens_eq_of_mem hline
  have hfirst : first ∈ tokens := by simp [heq]
  have hwritten := h.written_token hfirst (Token.isWritten_of_isName hname.1)
  rw [hname.2] at hwritten
  exact ⟨first, rest, hline, hword, rfl, hwritten.at⟩

theorem pointsAt_of_mem (h : Script source tokens statements) :
    ∀ o ∈ blockObservations 0 statements, o.PointsAt source statements := by
  intro o ho
  rcases cases_of_mem_blockObservations ho with hblock | rfl | ⟨form, place, line, hs, ho⟩ | ⟨s, hs, ho⟩
  · cases o with
    | block => trivial
    | _ => cases hblock
  · trivial
  · have hform : form ≠ .plain := by
      rintro rfl
      cases ho
    rcases LineForm.cases_of_mem ho with ⟨root, rfl, hroot⟩ | ⟨rfl, hrelative⟩
    · exact ⟨form, hroot, h.importStands_of_mem hs hform⟩
    · exact ⟨form, hrelative, h.importStands_of_mem hs hform⟩
  · exact (h.pointsInto_of_mem_observeTokens hs o ho).pointsAt

end Script

/-- A policy finds fault with what a script shows, where the script shows it. -/
theorem Policy.pointsAt_of_judge {p : Policy} {source : String} {statements : List Statement}
    {o : Observation} {i : Issue} (h : p.judge o = some i) (hspelled : o.Spelled)
    (hpoints : o.PointsAt source statements) :
    i.finding.PointsAt source statements i.position := by
  cases judge_eq_some_iff.1 h with
  | forbiddenImport => exact hpoints
  | relativeImport => exact hpoints
  | blockedAttribute => exact hpoints
  | blockedModule => exact hpoints
  | forbiddenCall =>
      obtain ⟨hne, hnames⟩ := hspelled
      rw [← targetChain_dottedChain hne hnames] at hpoints
      exact hpoints

/-- Every issue of a script points at the characters that it is about: a blocked name where it is
written, a call at the first name of its chain, and an import at the keyword of its statement. -/
theorem issues_point {source : String} {tokens : List Token} {statements : List Statement}
    (htokenize : tokenize source = .ok tokens) (hparse : parse tokens = .ok statements) (p : Policy)
    (limits : ComplexityLimits) :
    ∀ i ∈ (analyze p limits source).issues, i.finding.PointsAt source statements i.position := by
  have hscript : Script source tokens statements := ⟨htokenize, hparse⟩
  intro i hi
  rw [analyze_of_parse htokenize hparse] at hi
  rcases List.mem_append.1 hi with hi | hi
  · obtain ⟨o, ho, hjudge⟩ := List.mem_filterMap.1 hi
    exact Policy.pointsAt_of_judge hjudge (hscript.spelled_of_mem o ho)
      (hscript.pointsAt_of_mem o ho)
  · -- Complexity is no matter of single characters.
    have hkind := kind_of_mem_complexityIssues hi
    cases hfinding : i.finding with
    | deepNesting | manyBranches | malformed => trivial
    | _ => simp [hfinding, Finding.kind] at hkind

/-- A name in a field of a field is reported on the line that it is written on, and so is an import
in the body of a block. -/
theorem issues_point_nested_field :
    let tables : PolicyTables :=
      { allowedModules := ["math"], blockedCalls := ["eval"], blockedAttributes := ["__class__"],
        blockedModuleNames := ["sys"] }
    let source := "x = f'''\x7b\n  g(f\"\x7by.__class__\x7d\")\x7d'''\nif x: import os\n"
    ∃ tokens statements, tokenize source = .ok tokens ∧ parse tokens = .ok statements ∧
      (∃ i ∈ (analyze (.ofTables tables) {} source).issues, i.position = ⟨2, 9⟩) ∧
      (∃ i ∈ (analyze (.ofTables tables) {} source).issues, i.position = ⟨3, 6⟩) ∧
      ∀ i ∈ (analyze (.ofTables tables) {} source).issues,
        i.finding.PointsAt source statements i.position := by
  intro tables source
  let tokens : List Token :=
    [⟨.name, "x", ⟨1, 0⟩⟩, ⟨.operator, "=", ⟨1, 2⟩⟩,
      ⟨.string [⟨"\n  g(f\"\x7by.__class__\x7d\")", ⟨1, 9⟩⟩],
        "f'''\x7b\n  g(f\"\x7by.__class__\x7d\")\x7d'''", ⟨1, 4⟩⟩, ⟨.newline, "\n", ⟨2, 25⟩⟩,
      ⟨.name, "if", ⟨3, 0⟩⟩, ⟨.name, "x", ⟨3, 3⟩⟩, ⟨.operator, ":", ⟨3, 4⟩⟩,
      ⟨.name, "import", ⟨3, 6⟩⟩, ⟨.name, "os", ⟨3, 13⟩⟩, ⟨.newline, "\n", ⟨3, 15⟩⟩,
      ⟨.endMarker, "", ⟨4, 0⟩⟩]
  have htokenize : tokenize source = .ok tokens := by decide +kernel
  obtain ⟨statements, hparse⟩ : ∃ statements, parse tokens = .ok statements :=
    exists_of_isOk (by decide +kernel)
  have hplaces : (analyze (.ofTables tables) {} source).issues.map Issue.position =
      [⟨2, 9⟩, ⟨3, 6⟩] := by decide +kernel
  have hreported {place : Position} (hplace : place ∈ [(⟨2, 9⟩ : Position), ⟨3, 6⟩]) :
      ∃ i ∈ (analyze (.ofTables tables) {} source).issues, i.position = place := by
    rw [← hplaces] at hplace
    exact List.mem_map.1 hplace
  exact ⟨tokens, statements, htokenize, hparse, hreported (by simp), hreported (by simp),
    issues_point htokenize hparse (.ofTables tables) {}⟩

end ScriptSandbox
