import Mathlib
import ScriptSandbox.Proofs.Analysis.Safety
import ScriptSandbox.Proofs.Source.RespelledScripts

/-!
Verdicts on scripts with names in full width. In the language a name in full width is the same name as
in ASCII, but a policy compares names character by character. So a script whose names are spelled in
full width is judged by its new spelling, and it stays dangerous just when something in it is refused
under that spelling as well.
-/

namespace ScriptSandbox

/-! ### Imports -/

theorem showsTokens_of_lineForm {first : Token} {rest : List Token} {form : LineForm}
    (h : lineForm first rest = .ok form) : form.showsTokens = !first.isWord "import" := by
  rcases lineForm_cases h with ⟨himport, _, -, rfl⟩ | ⟨himport, -, _, _, -, rfl⟩ | ⟨himport, -, rfl⟩
  · simp [LineForm.showsTokens, himport]
  · simp [LineForm.showsTokens, himport]
  · simp [LineForm.showsTokens, himport]

namespace Rereading

variable (r : Rereading)

@[simp] theorem tokens_statement (s : Statement) :
    (r.statement s).tokens = s.tokens.map r.token := by
  cases s with
  | line => rw [statement, Statement.tokens, Statement.tokens]
  | block => rw [statement, Statement.tokens, Statement.tokens]

mutual

@[simp] theorem flatten_statement (s : Statement) :
    (r.statement s).flatten = s.flatten.map r.statement := by
  cases s with
  | line form p tokens => simp [statement]
  | block keyword p header body =>
      simp [statement, flattenAll_statement body]

@[simp] theorem flattenAll_statement (statements : List Statement) :
    flattenAll (statements.map r.statement) = (flattenAll statements).map r.statement := by
  cases statements with
  | nil => rfl
  | cons s rest =>
      simp [flatten_statement s, flattenAll_statement rest]

end

end Rereading

/-! ### Verdicts -/

/-- A policy clears a script in which letters of names are spelled in full width: its imports, names
and calls under their new spelling, and as they are the tokens embedded in strings. -/
structure Policy.ClearsRespelled (p : Policy) (wide : Position → Bool) (tokens : List Token)
    (statements : List Statement) : Prop where
  imports : ∀ s ∈ flattenAll statements, (s.respell wide).ImportsAllowed p
  names : ∀ t ∈ tokens, ¬ InImport statements t → t.kind = .name →
    p.Tolerates (t.respell wide).text
  calls : ∀ before t after, tokens = before ++ t :: after → t.isOperator "(" = true →
    ∀ names, IsCallTarget before names →
      p.blockedCall (names.map fun name => (name.respell wide).text) = none
  embedded : ∀ t ∈ tokens, ¬ InImport statements t → ∀ inner, t.Embeds inner → p.Clears inner

section

variable {p : Policy} {wide : Position → Bool} {source : String}
  {tokens : List Token} {statements : List Statement}

/-- A script that has tokens is dangerous when it has no statements or the policy does not clear
them. -/
theorem dangerous_iff_of_tokenize (p : Policy) (limits : ComplexityLimits)
    (h : tokenize source = .ok tokens) :
    (analyze p limits source).verdict = .dangerous ↔
      ∀ statements, parse tokens = .ok statements → ¬ p.ClearsScript tokens statements := by
  have hsafe : (analyze p limits source).verdict = .dangerous ↔
      ¬ (analyze p limits source).isSafe = true := by
    rw [Report.isSafe, bne_iff_ne, not_not]
  rw [hsafe, isSafe_analyze]
  constructor
  · intro hnot statements hparse hclears
    refine hnot ⟨tokens, statements, h, hparse, passes_blockObservations.2 ?_⟩
    exact (Script.forall_passes_iff ⟨h, hparse⟩).2 hclears
  · rintro hnot ⟨others, statements, hothers, hparse, hpasses⟩
    rw [h] at hothers
    cases hothers
    refine hnot statements hparse ?_
    exact (Script.forall_passes_iff ⟨h, hparse⟩).1 (passes_blockObservations.1 hpasses)

theorem Script.inImport_iff (h : Script source tokens statements) {s : Statement}
    (hs : s ∈ flattenAll statements) {t : Token} (ht : t ∈ s.tokens) (hwritten : t.isWritten = true) :
    InImport statements t ↔ s.showsTokens = false := by
  constructor
  · intro himport
    rw [Bool.eq_false_iff]
    exact fun hshows => h.not_inImport hs hshows ht hwritten himport
  · intro hshows
    by_contra himport
    rw [Script.showsTokens_of_not_inImport hs ht himport] at hshows
    cases hshows

theorem Script.showsTokens_respell (h : Script source tokens statements) {s : Statement}
    (hs : s ∈ flattenAll statements) : (s.respell wide).showsTokens = s.showsTokens := by
  cases s with
  | line form p line =>
      obtain ⟨body, last, pieces, -, -, hspells⟩ := h.spells
      obtain ⟨first, rest, rfl, hread⟩ := hspells.lineStatement_of_mem hs
      obtain ⟨old, heq, -, hform⟩ := lineStatement_eq_ok hread
      cases heq
      have hform' := (Rereading.respelling wide).lineForm_eq hform
      have himport : (first.respell wide).isWord "import" = first.isWord "import" :=
        Token.isWord_respell (by decide)
      have hshows : (LineForm.reread form ((first :: rest).map (Token.respell wide))).showsTokens =
          !(first.respell wide).isWord "import" := showsTokens_of_lineForm hform'
      rw [himport, ← showsTokens_of_lineForm hform] at hshows
      rw [Statement.respell, Rereading.statement]
      exact hshows
  | block keyword p header body => rw [Statement.respell, Rereading.statement]; rfl

theorem Script.inImport_respell (h : Script source tokens statements) (hwide : InNames wide tokens)
    (hblocks : KeepsBlockWords wide tokens) {t : Token} (ht : t ∈ tokens)
    (hwritten : t.isWritten = true) (hcut : t.isCut = false) :
    InImport (statements.map (Statement.respell wide)) (t.respell wide) ↔ InImport statements t := by
  obtain ⟨before, after, heq⟩ := List.append_of_mem ht
  obtain ⟨s, hs, outer, inner, rest, -, htokens, -⟩ := h.statement_of_token heq hwritten hcut
  have hmem : t ∈ s.tokens := by simp [htokens]
  have hs' : s.respell wide ∈ flattenAll (statements.map (Statement.respell wide)) := by
    rw [Statement.respell, Rereading.flattenAll_statement]
    exact List.mem_map_of_mem hs
  have hmem' : t.respell wide ∈ (s.respell wide).tokens := by
    rw [Statement.respell, Rereading.tokens_statement]
    exact List.mem_map_of_mem hmem
  have hwritten' : (t.respell wide).isWritten = true := by
    rwa [Token.isWritten, Token.kind_respell]
  rw [(h.respelled hwide hblocks).inImport_iff hs' hmem' hwritten', h.inImport_iff hs hmem hwritten,
    h.showsTokens_respell hs]

theorem Token.embeds_respell {t : Token} {inner : List Token} :
    (t.respell wide).Embeds inner ↔ t.Embeds inner := by
  rw [Embeds, Embeds, fields, fields, kind_respell]

/-- A script that is spelled anew is cleared when the old one is cleared under its new spelling. -/
theorem Script.clearsScript_respell (h : Script source tokens statements)
    (hwide : InNames wide tokens) (hblocks : KeepsBlockWords wide tokens) :
    p.ClearsScript (tokens.map (Token.respell wide)) (statements.map (Statement.respell wide)) ↔
      p.ClearsRespelled wide tokens statements := by
  have hflatten : flattenAll (statements.map (Statement.respell wide)) =
      (flattenAll statements).map (Statement.respell wide) :=
    (Rereading.respelling wide).flattenAll_statement statements
  have htarget {before names : List Token} : IsCallTarget (before.map (Token.respell wide)) names ↔
      ∃ others, IsCallTarget before others ∧ names = others.map (Token.respell wide) :=
    (TokenChange.respelling wide).isCallTarget_map
  have himport {t : Token} (ht : t ∈ tokens) (hwritten : t.isWritten = true)
      (hcut : t.isCut = false) := h.inImport_respell hwide hblocks ht hwritten hcut
  constructor
  · rintro ⟨himports, hnames, hcalls, hembedded⟩
    refine ⟨fun s hs => ?_, fun t ht hout hname => ?_, ?_, fun t ht hout inner hembeds => ?_⟩
    · refine himports _ ?_
      rw [hflatten]
      exact List.mem_map_of_mem hs
    · have hout' := mt (himport ht (Token.isWritten_of_isName hname)
        (Token.isCut_of_isName hname)).1 hout
      exact hnames _ (List.mem_map_of_mem ht) hout' (Token.kind_respell.trans hname)
    · rintro before t after rfl hopens names hnames
      have hnone := hcalls (before.map (Token.respell wide)) (t.respell wide)
        (after.map (Token.respell wide)) (by simp) ((Token.isOperator_respell "(").trans hopens)
        (names.map (Token.respell wide)) (htarget.2 ⟨names, hnames, rfl⟩)
      rwa [List.map_map] at hnone
    · have hout' := mt (himport ht hembeds.isWritten hembeds.isCut).1 hout
      exact hembedded _ (List.mem_map_of_mem ht) hout' inner (Token.embeds_respell.2 hembeds)
  · rintro ⟨himports, hnames, hcalls, hembedded⟩
    refine ⟨fun s hs => ?_, fun t ht hout hname => ?_, ?_, fun t ht hout inner hembeds => ?_⟩
    · rw [hflatten] at hs
      obtain ⟨old, hold, rfl⟩ := List.mem_map.1 hs
      exact himports old hold
    · obtain ⟨old, hold, rfl⟩ := List.mem_map.1 ht
      rw [Token.kind_respell] at hname
      have hout' := mt (himport hold (Token.isWritten_of_isName hname)
        (Token.isCut_of_isName hname)).2 hout
      exact hnames old hold hout' hname
    · intro before t after heq hopens called htarget'
      obtain ⟨lead, more, rfl, rfl, hmore⟩ := List.map_eq_append_iff.1 heq
      obtain ⟨old, rest, rfl, rfl, rfl⟩ := List.map_eq_cons_iff.1 hmore
      obtain ⟨others, hothers, rfl⟩ := htarget.1 htarget'
      rw [Token.isOperator_respell] at hopens
      rw [List.map_map]
      exact hcalls lead old rest rfl hopens others hothers
    · obtain ⟨old, hold, rfl⟩ := List.mem_map.1 ht
      rw [Token.embeds_respell] at hembeds
      have hout' := mt (himport hold hembeds.isWritten hembeds.isCut).2 hout
      exact hembedded old hold hout' inner hembeds

/-- Whether a script stays dangerous when letters of its names are spelled in full width depends on the
new spelling only: it does when the policy does not clear what is read from the new spelling. If the
words that open blocks stay as they are, that is the same script, so just what the policy refuses under
the new spelling is left to make it dangerous. -/
theorem dangerous_respelled_iff (p : Policy) (limits : ComplexityLimits)
    (h : Script source tokens statements) (hwide : InNames wide tokens) :
    ((analyze p limits (respelled wide source)).verdict = .dangerous ↔
      ∀ others, parse (tokens.map (Token.respell wide)) = .ok others →
        ¬ p.ClearsScript (tokens.map (Token.respell wide)) others) ∧
    (KeepsBlockWords wide tokens →
      ((analyze p limits (respelled wide source)).verdict = .dangerous ↔
        ¬ p.ClearsRespelled wide tokens statements)) := by
  have hverdict := dangerous_iff_of_tokenize p limits (tokenize_respelled h.tokenize_eq hwide)
  refine ⟨hverdict, fun hblocks => ?_⟩
  have hparse := (h.respelled hwide hblocks).parse_eq
  rw [hverdict, ← h.clearsScript_respell hwide hblocks]
  constructor
  · intro hnot
    exact hnot _ hparse
  · intro hnot others hothers
    rw [hparse] at hothers
    cases hothers
    exact hnot

theorem keepsBlockWords_of_texts
    (h : ∀ t ∈ tokens, t.text ∉ blockKeywords ++ softBlockKeywords) :
    KeepsBlockWords wide tokens := by
  rintro outer first rest rfl - hopens
  exact absurd (mem_blockWords_of_opensBlock hopens) (h first (by simp))

end

theorem dangerous_respelled_import :
    ∃ statements, Script "import os\n" [⟨.name, "import", ⟨1, 0⟩⟩, ⟨.name, "os", ⟨1, 7⟩⟩,
        ⟨.newline, "\n", ⟨1, 9⟩⟩, ⟨.endMarker, "", ⟨2, 0⟩⟩] statements ∧
      respelled (fun place => place == ⟨1, 7⟩) "import os\n" = "import ｏs\n" ∧
      (analyze (.ofTables {}) {} "import ｏs\n").verdict = .dangerous := by
  have hscript : Script "import os\n" [⟨.name, "import", ⟨1, 0⟩⟩, ⟨.name, "os", ⟨1, 7⟩⟩,
      ⟨.newline, "\n", ⟨1, 9⟩⟩, ⟨.endMarker, "", ⟨2, 0⟩⟩]
      [.line (.importModules ["os"]) ⟨1, 0⟩ [⟨.name, "import", ⟨1, 0⟩⟩, ⟨.name, "os", ⟨1, 7⟩⟩]] :=
    ⟨by decide +kernel, by cbv⟩
  have hwide : InNames (fun place => place == ⟨1, 7⟩) [⟨.name, "import", ⟨1, 0⟩⟩,
      ⟨.name, "os", ⟨1, 7⟩⟩, ⟨.newline, "\n", ⟨1, 9⟩⟩, ⟨.endMarker, "", ⟨2, 0⟩⟩] := by
    intro place hplace
    refine ⟨⟨.name, "os", ⟨1, 7⟩⟩, by simp, by decide, ?_⟩
    rw [beq_iff_eq.1 hplace]
    exact .of_ne_nil (by simp)
  have hspelled : respelled (fun place => place == ⟨1, 7⟩) "import os\n" = "import ｏs\n" := by
    decide +kernel
  have hdangerous := (dangerous_respelled_iff (.ofTables {}) {} hscript hwide).2
    (keepsBlockWords_of_texts (by decide))
  rw [hspelled] at hdangerous
  refine ⟨_, hscript, hspelled, hdangerous.2 fun hclears => ?_⟩
  have hread : Statement.respell (fun place => place == ⟨1, 7⟩)
      (.line (.importModules ["os"]) ⟨1, 0⟩ [⟨.name, "import", ⟨1, 0⟩⟩, ⟨.name, "os", ⟨1, 7⟩⟩]) =
        .line (.importModules ["ｏs"]) ⟨1, 0⟩ [⟨.name, "import", ⟨1, 0⟩⟩, ⟨.name, "ｏs", ⟨1, 7⟩⟩] := by
    cbv
  have himports := hclears.imports _ (List.mem_singleton.2 rfl)
  rw [hread] at himports
  have hallowed := himports "ｏs" (List.mem_singleton.2 rfl)
  have hrefused : (Policy.ofTables {}).allowsModule (moduleRoot "ｏs") = false := by decide +kernel
  rw [hrefused] at hallowed
  cases hallowed

/-- A blocked attribute with a letter in full width is not found. -/
theorem attribute_hidden_in_full_width :
    (∃ tokens statements, Script "x = y.__class__\n" tokens statements ∧
      InNames (fun place => place == ⟨1, 8⟩) tokens) ∧
    (analyze (.ofTables {}) {} "x = y.__class__\n").verdict = .dangerous ∧
    respelled (fun place => place == ⟨1, 8⟩) "x = y.__class__\n" = "x = y.__ｃlass__\n" ∧
    (analyze (.ofTables {}) {} "x = y.__ｃlass__\n").verdict ≠ .dangerous := by
  have htokenize : tokenize "x = y.__class__\n" = .ok
      [⟨.name, "x", ⟨1, 0⟩⟩, ⟨.operator, "=", ⟨1, 2⟩⟩, ⟨.name, "y", ⟨1, 4⟩⟩,
        ⟨.operator, ".", ⟨1, 5⟩⟩, ⟨.name, "__class__", ⟨1, 6⟩⟩, ⟨.newline, "\n", ⟨1, 15⟩⟩,
        ⟨.endMarker, "", ⟨2, 0⟩⟩] := by decide +kernel
  obtain ⟨statements, hparse⟩ : ∃ statements, parse
      [⟨.name, "x", ⟨1, 0⟩⟩, ⟨.operator, "=", ⟨1, 2⟩⟩, ⟨.name, "y", ⟨1, 4⟩⟩,
        ⟨.operator, ".", ⟨1, 5⟩⟩, ⟨.name, "__class__", ⟨1, 6⟩⟩, ⟨.newline, "\n", ⟨1, 15⟩⟩,
        ⟨.endMarker, "", ⟨2, 0⟩⟩] = .ok statements := exists_of_isOk (by decide +kernel)
  refine ⟨⟨_, statements, ⟨htokenize, hparse⟩, fun place hplace => ?_⟩, by decide +kernel,
    by decide +kernel, by decide +kernel⟩
  refine ⟨⟨.name, "__class__", ⟨1, 6⟩⟩, by simp, by decide, "__".toList, "class__".toList, by decide,
    by decide, ?_⟩
  rw [beq_iff_eq.1 hplace]
  rfl

end ScriptSandbox
