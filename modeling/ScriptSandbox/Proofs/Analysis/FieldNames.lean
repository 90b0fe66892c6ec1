import ScriptSandbox.Proofs.Analysis.Mentions
import ScriptSandbox.Proofs.Source.FieldText
import ScriptSandbox.Proofs.Source.Quotes

/-!
Blocked names in the fields of formatted strings. The expression of a field is read leniently, and a
blocked name that stands in it as a whole word is reported, unless something in the field hides it: a
broken string anywhere in the field, which leaves the field without tokens, or a number, a comment or
a string that goes on over the name.
-/

namespace ScriptSandbox

open Lexeme

variable {name : String} {place : Position}

/-! ### What hides a name -/

def Field.lexemes (f : Field) : List Lexeme :=
  split true f.position [] f.source.toList

/-- Nothing in a field is broken. -/
def Field.IsIntact (f : Field) : Prop :=
  ∀ l ∈ f.lexemes, ∀ problem, l.kind ≠ .broken problem

/-- A lexeme goes on over the place of a name: a number, a comment, or a string in whose fields the
name is not shown. -/
def Lexeme.Hides (name : String) (place : Position) (l : Lexeme) : Prop :=
  place.InText l.position l.text ∧ (l.kind = .number ∨ l.kind = .comment ∨
    ∃ fields, l.kind = .string fields ∧ ∀ f ∈ fields, ¬ f.Shows name place)

namespace Field

variable {f : Field}

theorem lexed (f : Field) : Lexed true f.position f.source.toList f.lexemes :=
  lexed_split true f.position f.source.toList

theorem mem_tokens_iff {t : Token} (ht : t.kind ≠ .endMarker) :
    t ∈ tokenizeFragment f.source f.position ↔
      f.IsIntact ∧ ∃ l ∈ f.lexemes, l.token? = some t := by
  have hmark : t ≠ ⟨.endMarker, "", f.position.after f.source.toList⟩ := by
    rintro rfl
    exact ht rfl
  unfold tokenizeFragment
  dsimp only
  split
  · rename_i hbroken
    obtain ⟨l, hl, hkind⟩ := List.any_eq_true.1 hbroken
    refine iff_of_false (by simp) fun ⟨hintact, _⟩ => ?_
    split at hkind
    · rename_i problem heq
      exact hintact l hl problem heq
    · cases hkind
  · rename_i hbroken
    have hintact : f.IsIntact := by
      intro l hl problem hkind
      exact hbroken (List.any_eq_true.2 ⟨l, hl, by simp [hkind]⟩)
    simp [hintact, hmark, List.mem_filterMap, Field.lexemes]

theorem inText_position {l : Lexeme} (hl : l ∈ f.lexemes) : l.position.InText l.position l.text := by
  obtain ⟨_, _, -, -, hshape⟩ := f.lexed.shape_of_mem hl
  exact .of_ne_nil hshape.ne_nil

theorem inText_of_lexeme {l : Lexeme} (hl : l ∈ f.lexemes) (h : place.InText l.position l.text) :
    place.InText f.position f.source.toList := by
  obtain ⟨before, after, htext, hposition, -⟩ := f.lexed.shape_of_mem hl
  rw [hposition] at h
  rw [htext]
  exact h.within before after

theorem inText_of_nested {l : Lexeme} {fields : List Field} {g : Field} (hl : l ∈ f.lexemes)
    (hkind : l.kind = .string fields) (hg : g ∈ fields)
    (h : place.InText g.position g.source.toList) : place.InText l.position l.text := by
  obtain ⟨_, _, -, -, hshape⟩ := f.lexed.shape_of_mem hl
  rw [hkind] at hshape
  obtain ⟨before, after, htext, -, hposition⟩ := hshape.standsIn g hg
  rw [hposition] at h
  rw [htext]
  exact h.within before after

theorem Shows.inText (h : f.Shows name place) : place.InText f.position f.source.toList := by
  obtain ⟨tokens, hembeds, t, ht, hname, -, hposition⟩ := h
  induction hembeds with
  | own =>
      obtain ⟨-, l, hl, htoken⟩ := (mem_tokens_iff (by simp [hname])).1 ht
      rw [← hposition, (Lexeme.token?_eq_some htoken).2]
      exact inText_of_lexeme hl (inText_position hl)
  | @nested f g u tokens hu hg _ ih =>
      obtain ⟨fields, hkind⟩ := Token.kind_of_mem_fields hg
      obtain ⟨-, l, hl, htoken⟩ := (mem_tokens_iff (by simp [hkind])).1 hu
      exact inText_of_lexeme hl
        (inText_of_nested hl (Lexeme.kind_of_token? htoken hg) hg (ih ht))

theorem exists_lexeme_of_shows (h : f.Shows name place) :
    f.IsIntact ∧ ∃ l ∈ f.lexemes, place.InText l.position l.text ∧
      (l.kind = .name ∨ ∃ fields, l.kind = .string fields ∧ ∃ g ∈ fields, g.Shows name place) := by
  rcases shows_iff.1 h with ⟨t, ht, hname, -, hposition⟩ | ⟨t, ht, g, hg, hshows⟩
  · obtain ⟨hintact, l, hl, htoken⟩ := (mem_tokens_iff (by simp [hname])).1 ht
    refine ⟨hintact, l, hl, ?_, .inl ?_⟩
    · rw [← hposition, (Lexeme.token?_eq_some htoken).2]
      exact inText_position hl
    · unfold Lexeme.token? at htoken
      split at htoken <;> cases htoken <;> simp_all
  · obtain ⟨fields, hkind⟩ := Token.kind_of_mem_fields hg
    obtain ⟨hintact, l, hl, htoken⟩ := (mem_tokens_iff (by simp [hkind])).1 ht
    have hstring := Lexeme.kind_of_token? htoken hg
    exact ⟨hintact, l, hl, inText_of_nested hl hstring hg hshows.inText,
      .inr ⟨_, hstring, g, hg, hshows⟩⟩

/-- A whole word of a field begins in one of its lexemes, which is just that word, or words can stand
in it. -/
theorem lexeme_at {before after : List Char}
    (hstands : StandsWhole name.toList before after f.source.toList)
    (hword : Text.isWord name = true) :
    ∃ earlier l later lead, f.lexemes = earlier ++ l :: later ∧
      before = earlier.flatMap Lexeme.text ++ lead ∧ lead.length < l.text.length ∧
      StandsWhole name.toList lead after (l.text ++ later.flatMap Lexeme.text) ∧
      (f.position.after before).InText l.position l.text ∧
      (l.kind = .name ∧ l.text = name.toList ∧ l.position = f.position.after before ∨
        l.kind.hidesWords = true ∧ l.kind ≠ .stray) := by
  obtain ⟨earlier, l, later, lead, c, middle, heq, rfl, hl, hc, hkind⟩ := f.lexed.name_or_hidden
    hstands (Text.ne_nil_of_isWord hword) (Text.isWordPart_of_isWord hword)
  have hlexed := f.lexed
  rw [heq] at hlexed
  obtain ⟨htext, hposition, -⟩ := hlexed.shape_at
  refine ⟨earlier, l, later, lead, heq, rfl, by simp [hl], ?_,
    ⟨lead, c :: middle, hl, by simp, by simp [hposition]⟩, ?_⟩
  · obtain ⟨hcut, hstarts, hends⟩ := hstands
    rw [htext] at hcut
    refine ⟨by simpa using hcut, fun d hd => hstarts d ?_, hends⟩
    rw [List.getLast?_append, Option.mem_def.1 hd]
    rfl
  · rcases hkind with ⟨hkind, rfl, hown⟩ | hhides
    · exact .inl ⟨hkind, hown, by rw [hposition, List.append_nil]⟩
    · -- What is passed over is no character that a word begins with.
      refine .inr ⟨hhides, fun hstray => ?_⟩
      obtain ⟨d, tail, hname, hstart, -⟩ := Text.isWord_iff.1 hword
      obtain rfl : d = c := by simpa [hname] using hc
      have hmem : l ∈ f.lexemes := by simp [heq]
      have hnone := isWordStart_of_stray l hmem hstray d (by simp [hl])
      rw [hstart] at hnone
      cases hnone

/-- A field shows a whole word of its text when nothing in it is broken and nothing hides the word. -/
theorem shows_iff_of_standsWhole {before after : List Char}
    (hstands : StandsWhole name.toList before after f.source.toList)
    (hword : Text.isWord name = true) :
    f.Shows name (f.position.after before) ↔
      f.IsIntact ∧ ∀ l ∈ f.lexemes, ¬ l.Hides name (f.position.after before) := by
  constructor
  · intro hshows
    obtain ⟨hintact, m, hm, hplace, hkind⟩ := exists_lexeme_of_shows hshows
    refine ⟨hintact, fun l hl ⟨hplace', hhides⟩ => ?_⟩
    obtain rfl : l = m := f.lexed.eq_of_inText hl hm hplace' hplace
    rcases hkind with hkind | ⟨fields, hkind, g, hg, hshows⟩
    · simp [hkind] at hhides
    · simp only [hkind, reduceCtorEq, false_or, LexemeKind.string.injEq, exists_eq_left'] at hhides
      exact hhides g hg hshows
  · rintro ⟨hintact, hhides⟩
    obtain ⟨earlier, l, later, lead, heq, -, hlead, hown, hplace, hkind⟩ := lexeme_at hstands hword
    have hl : l ∈ f.lexemes := by simp [heq]
    have hshown := hhides l hl
    rcases hkind with ⟨hkind, htext, hposition⟩ | ⟨hkind, hstray⟩
    · have htoken : l.token? = some ⟨.name, name, f.position.after before⟩ := by
        simp [Lexeme.token?, hkind, htext, hposition]
      exact shows_iff.2 (.inl ⟨_, (mem_tokens_iff (by simp)).2 ⟨hintact, l, hl, htoken⟩, rfl, rfl, rfl⟩)
    cases hcase : l.kind with
    | comment => exact absurd ⟨hplace, .inr (.inl hcase)⟩ hshown
    | number => exact absurd ⟨hplace, .inl hcase⟩ hshown
    | string fields =>
        obtain ⟨g, hg, hshows⟩ : ∃ g ∈ fields, g.Shows name (f.position.after before) := by
          by_contra hnone
          refine hshown ⟨hplace, .inr (.inr ⟨fields, hcase, fun g hg hshows => hnone ⟨g, hg, hshows⟩⟩)⟩
        have htoken : l.token? = some ⟨.string fields, String.ofList l.text, l.position⟩ := by
          simp [Lexeme.token?, hcase]
        exact shows_iff.2 (.inr
          ⟨_, (mem_tokens_iff (by simp)).2 ⟨hintact, l, hl, htoken⟩, g, hg, hshows⟩)
    | stray => exact absurd hcase hstray
    | broken problem => exact absurd hcase (hintact l hl problem)
    | _ => rw [hcase] at hkind; cases hkind

/-- Where an even number of quotes stands before a word, only numbers, comments and strings between
triple quotes hide it, or the word is itself the prefix of a string. -/
theorem hides_of_even {before after : List Char} (hquoted : '"' ∉ f.source.toList)
    (hbackslash : '\\' ∉ f.source.toList) (hline : ∀ c ∈ f.source.toList, isLineEnd c = false)
    (hstands : StandsWhole name.toList before after f.source.toList)
    (hword : Text.isWord name = true) (heven : Even (before.count '\'')) {l : Lexeme}
    (hl : l ∈ f.lexemes) (hhides : l.Hides name (f.position.after before)) :
    l.kind = .number ∨ l.kind = .comment ∨ ['\'', '\'', '\''] <:+: f.source.toList ∨
      name.toList.map Char.toLower ∈ stringPrefixes ∧ after.head? = some '\'' := by
  obtain ⟨hplace, hkind⟩ := hhides
  rcases hkind with hkind | hkind | ⟨fields, hkind, -⟩
  · exact .inl hkind
  · exact .inr (.inl hkind)
  refine .inr (.inr ?_)
  by_cases htriple : ['\'', '\'', '\''] <:+: f.source.toList
  · exact .inl htriple
  refine .inr ?_
  have hquotes : ∀ m ∈ f.lexemes, QuotesOf m.kind m.text :=
    quotesOf_split ⟨hquoted, hbackslash, htriple⟩
  obtain ⟨earlier, m, later, lead, heq, rfl, hlead, hown, hplace', -⟩ := lexeme_at hstands hword
  obtain rfl : l = m := f.lexed.eq_of_inText hl (by simp [heq]) hplace hplace'
  have hlexed := f.lexed
  rw [heq] at hlexed hquotes
  have hearlier := even_count_earlier hlexed hline fun m hm => hquotes m (by simp [hm])
  have hleadEven : Even (lead.count '\'') := by
    rw [List.count_append] at heven
    exact (Nat.even_add.1 heven).1 hearlier
  have hstring := hquotes l (by simp)
  rw [hkind] at hstring
  cases hstring with
  | string hsingle =>
      exact hsingle.prefix_of_even hown hlead hleadEven (Text.ne_nil_of_isWord hword)
        (Text.isWordPart_of_isWord hword)
  | none hnone => exact absurd rfl (hnone fields)

end Field

/-! ### Scripts of one formatted string -/

variable {p : Policy} {text eol : List Char}

theorem name_mem_observe_fieldScript (hbranch : name ∉ branchKeywords) :
    .name name place ∈ blockObservations 0
        [.line .plain (formattedToken text).position [formattedToken text]] ↔
      (scriptField text).Shows name place := by
  simp [blockObservations, Statement.observations, LineForm.observations, LineForm.showsTokens,
    name_mem_observeTokens hbranch, formattedToken, Token.fields]

/-- A blocked name that stands as a whole word in the field of a formatted string is reported there
exactly when nothing in the field is broken and nothing hides the name. Behind an even number of
quotes it is hidden by numbers, comments and strings between triple quotes only, or the name is the
prefix of a string. -/
theorem field_name_reported_iff (limits : ComplexityLimits) {before after : List Char}
    (htext : IsFieldText text) (heol : eol ∈ [['\n'], ['\r'], ['\r', '\n']])
    (hword : Text.isWord name = true) (hkeyword : isKeyword name = false) (hblocks : p.Blocks name)
    (hstands : StandsWhole name.toList before after text) (heven : Even (before.count '\'')) :
    (∃ tokens statements, tokenize (fieldScript text eol) = .ok tokens ∧
      parse tokens = .ok statements) ∧
    ((∃ i ∈ (analyze p limits (fieldScript text eol)).issues,
        i.Mentions name ((scriptField text).position.after before)) ↔
      (scriptField text).IsIntact ∧ ∀ l ∈ (scriptField text).lexemes,
        ¬ l.Hides name ((scriptField text).position.after before)) ∧
    ((analyze p limits (fieldScript text eol)).verdict = .dangerous ↔
      ((scriptField text).IsIntact ∧ ∀ l ∈ (scriptField text).lexemes,
        ¬ l.Hides name ((scriptField text).position.after before)) ∨
      ∃ i ∈ (analyze p limits (fieldScript text eol)).issues, i.isCritical = true ∧
        ¬ i.Mentions name ((scriptField text).position.after before)) ∧
    ∀ l ∈ (scriptField text).lexemes, l.Hides name ((scriptField text).position.after before) →
      l.kind = .number ∨ l.kind = .comment ∨ ['\'', '\'', '\''] <:+: text ∨
        name.toList.map Char.toLower ∈ stringPrefixes ∧ after.head? = some '\'' := by
  have htokenize := htext.tokenize_eq heol
  have hparse : parse [formattedToken text,
      ⟨.newline, "\n", Position.start.after (formattedText text)⟩,
      ⟨.endMarker, "", Position.start.after (formattedText text ++ eol)⟩] =
        .ok [.line .plain (formattedToken text).position [formattedToken text]] :=
    parse_string rfl rfl rfl
  have hsource : (scriptField text).source.toList = text := String.toList_ofList
  have hanalyze := analyze_of_parse htokenize hparse p limits
  have hreported : (∃ i ∈ (analyze p limits (fieldScript text eol)).issues,
        i.Mentions name ((scriptField text).position.after before)) ↔
      (scriptField text).IsIntact ∧ ∀ l ∈ (scriptField text).lexemes,
        ¬ l.Hides name ((scriptField text).position.after before) := by
    rw [hanalyze, mentions_report hblocks,
      name_mem_observe_fieldScript (not_mem_branchKeywords hkeyword)]
    exact Field.shows_iff_of_standsWhole (by rwa [hsource]) hword
  refine ⟨⟨_, _, htokenize, hparse⟩, hreported, ?_, fun l hl hhides => ?_⟩
  · rw [verdict_eq_dangerous_iff_mentions, hreported]
  · have hhidden := Field.hides_of_even (by rw [hsource]; exact htext.no_quote)
      (by rw [hsource]; exact htext.no_backslash) (by rw [hsource]; exact htext.no_lineEnd)
      (by rwa [hsource]) hword heven hl hhides
    rwa [hsource] at hhidden

theorem field_name_reported_behind_string :
    (∃ i ∈ (analyze (.ofTables {}) {} (fieldScript "a['k'].__class__".toList ['\n'])).issues,
      i.Mentions "__class__" ⟨1, 10⟩) ∧
    (analyze (.ofTables {}) {} (fieldScript "a['k'].__class__".toList ['\n'])).verdict =
      .dangerous := by
  have htext : IsFieldText "a['k'].__class__".toList := by decide
  have hblocks : (Policy.ofTables {}).Blocks "__class__" :=
    .inl (NameSet.contains_iff.2 (by simp [Policy.ofTables]))
  have hstands : StandsWhole "__class__".toList "a['k'].".toList [] "a['k'].__class__".toList := by
    decide
  obtain ⟨-, hreported, hdangerous, hhidden⟩ := field_name_reported_iff {} htext
    (List.mem_cons_self : ['\n'] ∈ [['\n'], ['\r'], ['\r', '\n']]) (by decide) (by decide) hblocks
    hstands (by decide)
  have hkinds : (scriptField "a['k'].__class__".toList).lexemes.map Lexeme.kind =
      [.name, .operator, .string [], .operator, .operator, .name] := by decide +kernel
  have hkind {l : Lexeme} (hl : l ∈ (scriptField "a['k'].__class__".toList).lexemes) :
      l.kind ∈ [.name, .operator, .string [], .operator, .operator, .name] := by
    rw [← hkinds]
    exact List.mem_map_of_mem hl
  have hshown : (scriptField "a['k'].__class__".toList).IsIntact ∧
      ∀ l ∈ (scriptField "a['k'].__class__".toList).lexemes, ¬ l.Hides "__class__"
        ((scriptField "a['k'].__class__".toList).position.after "a['k'].".toList) := by
    refine ⟨fun l hl problem hbroken => ?_, fun l hl hhides => ?_⟩
    · have hmem := hkind hl
      simp [hbroken] at hmem
    · have hmem := hkind hl
      rcases hhidden l hl hhides with hnumber | hcomment | htriple | ⟨hprefixes, -⟩
      · simp [hnumber] at hmem
      · simp [hcomment] at hmem
      · exact absurd (htriple.sublist.count_le '\'') (by decide)
      · exact absurd hprefixes (by decide)
  exact ⟨hreported.2 hshown, hdangerous.2 (.inl hshown)⟩

/-- A quote in the format of a field is taken for the beginning of a string. The string is broken, and
so nothing of the field is seen. -/
theorem field_name_hidden_by_quote :
    IsFieldText "x.__class__:'>10".toList ∧
    (∃ tokens statements, tokenize (fieldScript "x.__class__:'>10".toList ['\n']) = .ok tokens ∧
      parse tokens = .ok statements) ∧
    Text.isWord "__class__" = true ∧ isKeyword "__class__" = false ∧
    (Policy.ofTables {}).Blocks "__class__" ∧
    StandsWhole "__class__".toList "x.".toList ":'>10".toList "x.__class__:'>10".toList ∧
    Even ("x.".toList.count '\'') ∧
    (analyze (.ofTables {}) {} (fieldScript "x.__class__:'>10".toList ['\n'])).verdict ≠
      .dangerous := by
  have htext : IsFieldText "x.__class__:'>10".toList := by decide
  refine ⟨htext, ⟨_, _, htext.tokenize_eq (by decide), parse_string rfl rfl rfl⟩, by decide, by decide,
    .inl (NameSet.contains_iff.2 (by simp [Policy.ofTables])), by decide, by decide, ?_⟩
  decide +kernel

end ScriptSandbox
