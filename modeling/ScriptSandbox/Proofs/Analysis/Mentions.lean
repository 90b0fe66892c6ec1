import Mathlib
import ScriptSandbox.Proofs.Analysis.Safety
import ScriptSandbox.Proofs.Source.Words

/-!
Blocked names in plain scripts. A blocked name that stands as a whole word in a script without
strings, comments, continued lines and imports is reported at its place, unless a number has begun
before it: after a number the dot of an attribute is read as a part of the number, and the name of
the attribute with it.
-/

namespace ScriptSandbox

/-- A script without quotes, comments and continued lines in which nothing is imported. -/
structure IsPlainScript (source : String) : Prop extends IsPlain source.toList where
  no_import : ¬ "import".toList <:+: source.toList

/-- A policy blocks a name, as an attribute or as a module. -/
def Policy.Blocks (p : Policy) (name : String) : Prop :=
  p.blocksAttribute name = true ∨ p.blocksModuleName name = true

/-- An issue objects to a name at some place. -/
def Issue.Mentions (i : Issue) (name : String) (place : Position) : Prop :=
  (i.finding = .blockedAttribute name ∨ i.finding = .blockedModule name) ∧ i.position = place

/-- A number among some tokens goes on over a place, or begins there. -/
def InNumber (tokens : List Token) (place : Position) : Prop :=
  ∃ t ∈ tokens, t.kind = .number ∧ ∃ lead rest, t.text.toList = lead ++ rest ∧ rest ≠ [] ∧
    t.position.after lead = place

variable {p : Policy} {limits : ComplexityLimits} {source name : String} {place : Position}
  {tokens : List Token} {statements : List Statement}

/-! ### Reported names -/

theorem Policy.mentions_of_judge {o : Observation} {i : Issue} (h : p.judge o = some i)
    (hmentions : i.Mentions name place) : o = .name name place ∧ p.Blocks name := by
  obtain ⟨hfinding, hposition⟩ := hmentions
  cases judge_eq_some_iff.1 h with
  | blockedAttribute hblocks =>
      simp only [Finding.blockedAttribute.injEq, reduceCtorEq, or_false] at hfinding
      subst hfinding hposition
      exact ⟨rfl, .inl hblocks⟩
  | blockedModule _ hblocks =>
      simp only [Finding.blockedModule.injEq, reduceCtorEq, false_or] at hfinding
      subst hfinding hposition
      exact ⟨rfl, .inr hblocks⟩
  | _ => simp at hfinding

theorem Issue.Mentions.isCritical {i : Issue} (h : i.Mentions name place) : i.isCritical = true := by
  rcases h.1 with hfinding | hfinding
  · simp [Issue.isCritical, Finding.isCritical, Finding.kind, hfinding]
  · simp [Issue.isCritical, Finding.isCritical, Finding.kind, hfinding]

theorem Policy.judge_of_blocks (place : Position) (h : p.Blocks name) :
    ∃ i, p.judge (.name name place) = some i ∧ i.Mentions name place := by
  simp only [judge]
  split
  · exact ⟨_, rfl, .inl rfl, rfl⟩
  · rename_i hattribute
    rw [if_pos (h.resolve_left hattribute)]
    exact ⟨_, rfl, .inr rfl, rfl⟩

theorem mentions_report {observations : List Observation} (hblocks : p.Blocks name) :
    (∃ i ∈ (report p limits source observations).issues, i.Mentions name place) ↔
      .name name place ∈ observations := by
  constructor
  · rintro ⟨i, hi, hmentions⟩
    rcases List.mem_append.1 hi with hi | hi
    · obtain ⟨o, ho, hjudge⟩ := List.mem_filterMap.1 hi
      obtain ⟨rfl, -⟩ := Policy.mentions_of_judge hjudge hmentions
      exact ho
    · have hharmless := isCritical_of_mem_complexityIssues hi
      rw [hmentions.isCritical] at hharmless
      cases hharmless
  · intro h
    obtain ⟨i, hjudge, hmentions⟩ := Policy.judge_of_blocks place hblocks
    exact ⟨i, List.mem_append_left _ (List.mem_filterMap.2 ⟨_, h, hjudge⟩), hmentions⟩

theorem verdict_eq_dangerous_iff_mentions {r : Report} : r.verdict = .dangerous ↔
    (∃ i ∈ r.issues, i.Mentions name place) ∨
      ∃ i ∈ r.issues, i.isCritical = true ∧ ¬ i.Mentions name place := by
  rw [Report.verdict_eq_dangerous_iff]
  constructor
  · rintro ⟨i, hi, hcritical⟩
    by_cases hmentions : i.Mentions name place
    · exact .inl ⟨i, hi, hmentions⟩
    · exact .inr ⟨i, hi, hcritical, hmentions⟩
  · rintro (⟨i, hi, hmentions⟩ | ⟨i, hi, hcritical, -⟩)
    · exact ⟨i, hi, hmentions.isCritical⟩
    · exact ⟨i, hi, hcritical⟩

theorem not_mem_branchKeywords (h : isKeyword name = false) : name ∉ branchKeywords := by
  intro hmem
  have hreserved : ∀ word ∈ branchKeywords, isKeyword word = true := by decide
  rw [hreserved name hmem] at h
  cases h

theorem name_mem_observeTokens_of_fields (hfields : ∀ t ∈ tokens, t.fields = [])
    (hbranch : name ∉ branchKeywords) :
    .name name place ∈ observeTokens tokens ↔
      ∃ t ∈ tokens, t.kind = .name ∧ t.text = name ∧ t.position = place := by
  have hnone : ¬ ∃ t ∈ tokens, ∃ f ∈ t.fields, f.Shows name place := by
    rintro ⟨t, ht, f, hf, -⟩
    rw [hfields t ht] at hf
    cases hf
  rw [name_mem_observeTokens hbranch, or_iff_left hnone]

namespace IsPlainScript

theorem fields_eq_nil (hplain : IsPlainScript source) (h : tokenize source = .ok tokens) {t : Token}
    (ht : t ∈ tokens) : t.fields = [] := by
  by_contra hne
  obtain ⟨f, hf⟩ := List.exists_mem_of_ne_nil _ hne
  obtain ⟨fields, hkind⟩ := Token.kind_of_mem_fields hf
  obtain ⟨l, hl, htoken⟩ := exists_lexeme_of_tokenize h ht (by simp [Token.isWritten, hkind])
  obtain ⟨before, after, htext, -, hshape⟩ := (lexed_scriptLexemes source).shape_of_mem hl
  rw [Lexeme.kind_of_token? htoken hf] at hshape
  generalize l.text = text at htext hshape
  cases hshape with
  | @string _ _ quote _ _ _ hquote =>
      have hnone := hplain.no_quote quote (by simp [htext])
      rw [hquote] at hnone
      cases hnone

theorem showsTokens (hplain : IsPlainScript source) (h : Script source tokens statements)
    {s : Statement} (hs : s ∈ flattenAll statements) : s.showsTokens = true := by
  by_contra hshows
  obtain ⟨modules, position, line, rfl⟩ :=
    Statement.showsTokens_eq_false (Bool.eq_false_iff.2 hshows)
  obtain ⟨body, last, pieces, -, -, hspells⟩ := h.spells
  obtain ⟨first, rest, rfl, hread⟩ := hspells.lineStatement_of_mem hs
  obtain ⟨-, himport, -⟩ := lineStatement_eq_importModules hread
  obtain ⟨outer, more, htokens, -⟩ := h.tokens_eq_of_mem hs
  have hfirst : first ∈ tokens := by simp [htokens]
  rw [Token.isWord_iff] at himport
  obtain ⟨l, hl, htoken⟩ :=
    exists_lexeme_of_tokenize h.tokenize_eq hfirst (Token.isWritten_of_isName himport.1)
  obtain ⟨before, after, htext, -, -⟩ := (lexed_scriptLexemes source).shape_of_mem hl
  refine hplain.no_import ⟨before, after, ?_⟩
  rw [htext, ← himport.2, (Lexeme.token?_eq_some htoken).1, String.toList_ofList]

/-- In a plain script the names are observed that are no words for control flow. -/
theorem name_mem_blockObservations (hplain : IsPlainScript source)
    (h : Script source tokens statements) (hbranch : name ∉ branchKeywords) :
    .name name place ∈ blockObservations 0 statements ↔
      ∃ t ∈ tokens, t.kind = .name ∧ t.text = name ∧ t.position = place := by
  have hform (form : LineForm) (position : Position) :
      .name name place ∉ form.observations position := by
    intro hmem
    rcases LineForm.cases_of_mem hmem with ⟨_, ⟨⟩, -⟩ | ⟨⟨⟩, -⟩
  have hown {s : Statement} (hs : s ∈ flattenAll statements) :
      .name name place ∈ s.ownObservations ↔ .name name place ∈ observeTokens s.tokens := by
    have hshows := hplain.showsTokens h hs
    cases s with
    | line form position line =>
        simp only [Statement.showsTokens] at hshows
        simp [Statement.ownObservations, hform, hshows]
    | block keyword position header body =>
        by_cases hcase : keyword = "case"
        · simp [Statement.ownObservations, hcase]
        · simp [Statement.ownObservations, hcase]
  have hinside {s : Statement} (hs : s ∈ flattenAll statements) : ∀ t ∈ s.tokens, t ∈ tokens := by
    intro t ht
    obtain ⟨outer, more, htokens, -⟩ := h.tokens_eq_of_mem hs
    simp [htokens, ht]
  rw [mem_blockObservations rfl]
  constructor
  · rintro ⟨s, hs, ho⟩
    have hfields : ∀ t ∈ s.tokens, t.fields = [] := fun t ht =>
      hplain.fields_eq_nil h.tokenize_eq (hinside hs t ht)
    obtain ⟨t, ht, hname⟩ := (name_mem_observeTokens_of_fields hfields hbranch).1 ((hown hs).1 ho)
    exact ⟨t, hinside hs t ht, hname⟩
  · rintro ⟨t, ht, hname⟩
    obtain ⟨before, after, heq⟩ := List.append_of_mem ht
    obtain ⟨s, hs, outer, inner, rest, -, htokens, -⟩ := h.statement_of_token heq
      (Token.isWritten_of_isName hname.1) (Token.isCut_of_isName hname.1)
    have hfields : ∀ t ∈ s.tokens, t.fields = [] := fun t ht =>
      hplain.fields_eq_nil h.tokenize_eq (hinside hs t ht)
    refine ⟨s, hs, (hown hs).2 ((name_mem_observeTokens_of_fields hfields hbranch).2 ⟨t, ?_, hname⟩)⟩
    simp [htokens]

end IsPlainScript

/-! ### Names and numbers -/

theorem not_inNumber_of_kinds (h : ∀ t ∈ tokens, t.kind ≠ .number) : ¬ InNumber tokens place := by
  rintro ⟨t, ht, hkind, -⟩
  exact h t ht hkind

theorem not_inNumber_of_name (h : tokenize source = .ok tokens) {t : Token} (ht : t ∈ tokens)
    (hname : t.kind = .name) : ¬ InNumber tokens t.position := by
  rintro ⟨u, hu, hnumber, lead, rest, htext, hrest, hplace⟩
  have hne : t ≠ u := by
    rintro rfl
    rw [hname] at hnumber
    cases hnumber
  have hstop : t.position.Precedes u.stop := by
    rw [← hplace, Token.stop, htext, Position.after_append]
    exact Position.precedes_after _ hrest
  have hlater : u.position.UpTo t.position := by
    rw [← hplace]
    exact u.position.upTo_after lead
  -- The name begins between the two ends of the number, but one of them ends before the other.
  have htwritten := Token.isWritten_of_isName hname
  rcases apart_of_tokenize h ht hu htwritten (by simp [Token.isWritten, hnumber]) hne with
    hbefore | hbehind
  · have hends := precedes_stop_of_tokenize h ht htwritten
    exact Position.Precedes.irrefl _ (hends.trans_upTo (hbefore.trans hlater))
  · exact Position.Precedes.irrefl _ (hstop.trans_upTo hbehind)

/-- A whole word of a plain script is a name where no number goes on. -/
theorem IsPlainScript.exists_name (hplain : IsPlainScript source) (h : tokenize source = .ok tokens)
    (hword : Text.isWord name = true) {before after : List Char}
    (hstands : StandsWhole name.toList before after source.toList)
    (hnumber : ¬ InNumber tokens (Position.start.after before)) :
    ∃ t ∈ tokens, t.kind = .name ∧ t.text = name ∧ t.position = Position.start.after before := by
  rcases (lexed_scriptLexemes source).name_or_in_number (follows_of_tokenize h).intact
    hplain.toIsPlain hstands (Text.ne_nil_of_isWord hword) (Text.isWordPart_of_isWord hword) with
    ⟨l, hl, hkind, htext, hposition⟩ | ⟨l, hl, hkind, lead, rest, htext, hrest, hposition⟩
  · have hfound : l.token? = some ⟨.name, String.ofList l.text, l.position⟩ := by
      simp [Lexeme.token?, hkind]
    exact ⟨_, mem_of_token? h hl hfound, rfl, by simp [htext], hposition⟩
  · have hfound : l.token? = some ⟨.number, String.ofList l.text, l.position⟩ := by
      simp [Lexeme.token?, hkind]
    have hmem := mem_of_token? h hl hfound
    exact absurd ⟨_, hmem, rfl, lead, rest, by simp [htext], hrest, hposition⟩ hnumber

/-- A blocked name that stands as a whole word in a plain script is reported there exactly when it
does not stand in a number. So the script is dangerous unless the name stands in a number and
nothing else in the script is critical. -/
theorem blocked_name_reported_iff (limits : ComplexityLimits) {before after : List Char}
    (hplain : IsPlainScript source)
    (htokenize : tokenize source = .ok tokens) (hparse : parse tokens = .ok statements)
    (hword : Text.isWord name = true) (hkeyword : isKeyword name = false) (hblocks : p.Blocks name)
    (hstands : StandsWhole name.toList before after source.toList) :
    ((∃ i ∈ (analyze p limits source).issues, i.Mentions name (Position.start.after before)) ↔
      ¬ InNumber tokens (Position.start.after before)) ∧
    ((analyze p limits source).verdict = .dangerous ↔
      ¬ InNumber tokens (Position.start.after before) ∨
        ∃ i ∈ (analyze p limits source).issues, i.isCritical = true ∧
          ¬ i.Mentions name (Position.start.after before)) := by
  -- Words for control flow are not reported as names, but they are keywords.
  have hbranch := not_mem_branchKeywords hkeyword
  have hanalyze :
      analyze p limits source = report p limits source (blockObservations 0 statements) := by
    unfold analyze
    rw [observe_eq_ok.2 ⟨tokens, statements, htokenize, hparse, rfl⟩]
  have hreported : (∃ i ∈ (analyze p limits source).issues,
      i.Mentions name (Position.start.after before)) ↔
        ¬ InNumber tokens (Position.start.after before) := by
    rw [hanalyze, mentions_report hblocks,
      hplain.name_mem_blockObservations ⟨htokenize, hparse⟩ hbranch]
    constructor
    · rintro ⟨t, ht, hname, -, hposition⟩
      rw [← hposition]
      exact not_inNumber_of_name htokenize ht hname
    · exact hplain.exists_name htokenize hword hstands
  exact ⟨hreported, by rw [verdict_eq_dangerous_iff_mentions, hreported]⟩

theorem not_import_of_letter (h : 'm' ∉ source.toList) : ¬ "import".toList <:+: source.toList := by
  intro himport
  exact h (himport.subset (by decide))

theorem blocked_name_reported_attribute :
    (∃ i ∈ (analyze (.ofTables {}) {} "x = y.__class__\n").issues,
      i.Mentions "__class__" ⟨1, 6⟩) ∧
    (analyze (.ofTables {}) {} "x = y.__class__\n").verdict = .dangerous := by
  have hplain : IsPlainScript "x = y.__class__\n" :=
    ⟨by decide, not_import_of_letter (by decide)⟩
  have htokenize : tokenize "x = y.__class__\n" = .ok
      [⟨.name, "x", ⟨1, 0⟩⟩, ⟨.operator, "=", ⟨1, 2⟩⟩, ⟨.name, "y", ⟨1, 4⟩⟩,
        ⟨.operator, ".", ⟨1, 5⟩⟩, ⟨.name, "__class__", ⟨1, 6⟩⟩, ⟨.newline, "\n", ⟨1, 15⟩⟩,
        ⟨.endMarker, "", ⟨2, 0⟩⟩] := by cbv
  have hparse : parse
      [⟨.name, "x", ⟨1, 0⟩⟩, ⟨.operator, "=", ⟨1, 2⟩⟩, ⟨.name, "y", ⟨1, 4⟩⟩,
        ⟨.operator, ".", ⟨1, 5⟩⟩, ⟨.name, "__class__", ⟨1, 6⟩⟩, ⟨.newline, "\n", ⟨1, 15⟩⟩,
        ⟨.endMarker, "", ⟨2, 0⟩⟩] = .ok
      [.line .plain ⟨1, 0⟩ [⟨.name, "x", ⟨1, 0⟩⟩, ⟨.operator, "=", ⟨1, 2⟩⟩,
        ⟨.name, "y", ⟨1, 4⟩⟩, ⟨.operator, ".", ⟨1, 5⟩⟩, ⟨.name, "__class__", ⟨1, 6⟩⟩]] := by cbv
  have hblocks : (Policy.ofTables {}).Blocks "__class__" :=
    .inl (NameSet.contains_iff.2 (by simp [Policy.ofTables]))
  have hstands : StandsWhole "__class__".toList "x = y.".toList "\n".toList
      "x = y.__class__\n".toList := by decide
  have hreported := blocked_name_reported_iff {} hplain htokenize hparse (by decide)
    (by decide) hblocks hstands
  exact ⟨hreported.1.2 (not_inNumber_of_kinds (by decide)),
    hreported.2.2 (.inl (not_inNumber_of_kinds (by decide)))⟩

/-- After a number the name of an attribute is read as a part of the number. -/
theorem blocked_name_hidden_in_number :
    IsPlainScript "x = 1..__class__\n" ∧
    (∃ tokens statements, tokenize "x = 1..__class__\n" = .ok tokens ∧
      parse tokens = .ok statements) ∧
    Text.isWord "__class__" = true ∧ isKeyword "__class__" = false ∧
    (Policy.ofTables {}).Blocks "__class__" ∧
    StandsWhole "__class__".toList "x = 1..".toList "\n".toList "x = 1..__class__\n".toList ∧
    (analyze (.ofTables {}) {} "x = 1..__class__\n").verdict ≠ .dangerous := by
  have hplain : IsPlainScript "x = 1..__class__\n" :=
    ⟨by decide, not_import_of_letter (by decide)⟩
  have htokenize : tokenize "x = 1..__class__\n" = .ok
      [⟨.name, "x", ⟨1, 0⟩⟩, ⟨.operator, "=", ⟨1, 2⟩⟩, ⟨.number, "1..__class__", ⟨1, 4⟩⟩,
        ⟨.newline, "\n", ⟨1, 16⟩⟩, ⟨.endMarker, "", ⟨2, 0⟩⟩] := by cbv
  have hparse : parse
      [⟨.name, "x", ⟨1, 0⟩⟩, ⟨.operator, "=", ⟨1, 2⟩⟩, ⟨.number, "1..__class__", ⟨1, 4⟩⟩,
        ⟨.newline, "\n", ⟨1, 16⟩⟩, ⟨.endMarker, "", ⟨2, 0⟩⟩] = .ok
      [.line .plain ⟨1, 0⟩ [⟨.name, "x", ⟨1, 0⟩⟩, ⟨.operator, "=", ⟨1, 2⟩⟩,
        ⟨.number, "1..__class__", ⟨1, 4⟩⟩]] := by cbv
  have hpasses : (Policy.ofTables {}).Passes [.name "x" ⟨1, 0⟩] := by
    refine Policy.passes_cons.2 ⟨Policy.judge_name_eq_none.2 ⟨?_, ?_⟩, Policy.passes_nil⟩
    · simp [Policy.blocksAttribute, Policy.ofTables, ← Bool.not_eq_true]
    · simp [Policy.blocksModuleName, Policy.ofTables, ← Bool.not_eq_true]
  have hsafe : (analyze (.ofTables {}) {} "x = 1..__class__\n").isSafe = true :=
    isSafe_analyze.2 ⟨_, _, htokenize, hparse, hpasses⟩
  refine ⟨hplain, ⟨_, _, htokenize, hparse⟩, by decide, by decide, ?_, by decide,
    by simpa [Report.isSafe] using hsafe⟩
  exact .inl (NameSet.contains_iff.2 (by simp [Policy.ofTables]))

end ScriptSandbox
