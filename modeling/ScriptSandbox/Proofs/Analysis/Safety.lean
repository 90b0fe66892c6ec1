import ScriptSandbox.Proofs.Analysis.Fields
import ScriptSandbox.Proofs.Source.Imports

/-!
What it means for a script to be safe, said of its tokens. A script is analyzed statement by
statement, but no token is lost between statements and no call reaches over a cut, so the verdict is
a condition on the whole list of tokens, together with the tokens embedded in strings.
-/

namespace ScriptSandbox

variable {p : Policy} {source : String} {tokens : List Token} {statements : List Statement}

/-- A policy clears a script: its imports are allowed, and outside of the names in an `import` no
token names what is blocked and no parenthesis calls it, not even inside of strings. -/
structure Policy.ClearsScript (p : Policy) (tokens : List Token) (statements : List Statement) :
    Prop where
  imports : ∀ s ∈ flattenAll statements, s.ImportsAllowed p
  names : ∀ t ∈ tokens, ¬ InImport statements t → t.kind = .name → p.Tolerates t.text
  calls : ∀ before t after, tokens = before ++ t :: after → t.isOperator "(" = true →
    ∀ names, IsCallTarget before names → p.blockedCall (names.map Token.text) = none
  embedded : ∀ t ∈ tokens, ¬ InImport statements t → ∀ inner, t.Embeds inner → p.Clears inner

namespace Token

variable {t : Token}

theorem isCut_of_isName (h : t.kind = .name) : t.isCut = false := by
  simp [isCut, isLayout, isOperator, h]

theorem isWritten_of_isName (h : t.kind = .name) : t.isWritten = true := by
  simp [isWritten, h]

theorem isCut_of_opens (h : t.isOperator "(" = true) : t.isCut = false := by
  obtain ⟨hkind, htext⟩ := isOperator_iff.1 h
  simp [isCut, isLayout, isOperator, hkind, htext]

theorem isWritten_of_opens (h : t.isOperator "(" = true) : t.isWritten = true := by
  simp [isWritten, (isOperator_iff.1 h).1]

theorem Embeds.kind_eq {inner : List Token} (h : t.Embeds inner) :
    ∃ fields, t.kind = .string fields := by
  obtain ⟨f, hf, -⟩ := h
  exact kind_of_mem_fields hf

theorem Embeds.isCut {inner : List Token} (h : t.Embeds inner) : t.isCut = false := by
  obtain ⟨fields, hkind⟩ := h.kind_eq
  simp [Token.isCut, isLayout, isOperator, hkind]

theorem Embeds.isWritten {inner : List Token} (h : t.Embeds inner) : t.isWritten = true := by
  obtain ⟨fields, hkind⟩ := h.kind_eq
  simp [Token.isWritten, hkind]

end Token

theorem Statement.showsTokens_eq_false {s : Statement} (h : s.showsTokens = false) :
    ∃ modules position tokens, s = .line (.importModules modules) position tokens := by
  cases s with
  | line form position tokens =>
      cases form with
      | importModules modules => exact ⟨modules, position, tokens, rfl⟩
      | importFrom => cases h
      | plain => cases h
  | block => cases h

namespace Script

/-- A written token that is no cut stands in a statement, which begins behind a cut. -/
theorem statement_of_token (h : Script source tokens statements) {before after : List Token}
    {t : Token} (ht : tokens = before ++ t :: after) (hwritten : t.isWritten = true)
    (hcut : t.isCut = false) :
    ∃ s ∈ flattenAll statements, ∃ outer inner rest, before = outer ++ inner ∧
      s.tokens = inner ++ t :: rest ∧ EndsInCut outer := by
  obtain ⟨body, last, pieces, rfl, hlast, hspells⟩ := h.spells
  -- The last token is an end marker and not written, so the token stands in the body.
  obtain ⟨rest, hbody⟩ : ∃ rest, body = before ++ t :: rest := by
    rcases cut_of_concat ht with ⟨-, rfl⟩ | ⟨rest, hbody, -⟩
    · rw [hwritten] at hlast
      cases hlast
    · exact ⟨rest, hbody⟩
  rcases hspells.token_at hbody with hcut' | hstands
  · rw [hcut] at hcut'
    cases hcut'
  · exact hstands

theorem not_inImport (h : Script source tokens statements) {s : Statement}
    (hs : s ∈ flattenAll statements) (hshows : s.showsTokens = true) {t : Token} (ht : t ∈ s.tokens)
    (hwritten : t.isWritten = true) : ¬ InImport statements t := by
  rintro ⟨modules, position, line, hline, hmem⟩
  cases h.eq_of_mem_tokens hs hline hwritten ht hmem
  cases hshows

theorem showsTokens_of_not_inImport {s : Statement} (hs : s ∈ flattenAll statements) {t : Token}
    (ht : t ∈ s.tokens) (himport : ¬ InImport statements t) : s.showsTokens = true := by
  by_contra hshows
  obtain ⟨modules, position, line, rfl⟩ :=
    Statement.showsTokens_eq_false (Bool.eq_false_iff.2 hshows)
  exact himport ⟨modules, position, line, hs, ht⟩

theorem showsTokens_of_opens (h : Script source tokens statements) {s : Statement}
    (hs : s ∈ flattenAll statements) {t : Token} (ht : t ∈ s.tokens)
    (hopens : t.isOperator "(" = true) : s.showsTokens = true := by
  by_contra hshows
  obtain ⟨modules, position, line, rfl⟩ :=
    Statement.showsTokens_eq_false (Bool.eq_false_iff.2 hshows)
  obtain ⟨body, last, pieces, -, -, hspells⟩ := h.spells
  obtain ⟨first, rest, -, hread⟩ := hspells.lineStatement_of_mem hs
  have hnone := Token.isOperator_of_isImportPart (isImportPart_of_lineStatement hread t ht)
  rw [hopens] at hnone
  cases hnone

theorem tokens_eq_of_mem (h : Script source tokens statements) {s : Statement}
    (hs : s ∈ flattenAll statements) :
    ∃ before after, tokens = before ++ s.tokens ++ after ∧ EndsInCut before := by
  obtain ⟨body, last, pieces, rfl, -, hspells⟩ := h.spells
  obtain ⟨before, after, rfl, hcut⟩ := hspells.statement_at hs
  exact ⟨before, after ++ [last], by simp, hcut⟩

/-- All statements pass when the policy clears the script. -/
theorem forall_passes_iff (h : Script source tokens statements) :
    (∀ s ∈ flattenAll statements, s.Passes p) ↔ p.ClearsScript tokens statements := by
  constructor
  · intro hpasses
    -- Every name, parenthesis and string stands in a statement, which is known to pass.
    have hstatement {before after : List Token} {t : Token} (heq : tokens = before ++ t :: after)
        (hwritten : t.isWritten = true) (hcut : t.isCut = false) (himport : ¬ InImport statements t) :
        ∃ s : Statement, t ∈ s.tokens ∧ p.Passes (observeTokens s.tokens) := by
      obtain ⟨s, hs, outer, inner, rest, -, htokens, -⟩ := h.statement_of_token heq hwritten hcut
      have ht : t ∈ s.tokens := by simp [htokens]
      exact ⟨s, ht, (hpasses s hs).2 (showsTokens_of_not_inImport hs ht himport)⟩
    refine ⟨fun s hs => (hpasses s hs).1, fun t ht himport hname => ?_,
      fun before t after heq hopens names htarget => ?_, fun t ht himport inner hembeds => ?_⟩
    · obtain ⟨before, after, heq⟩ := List.append_of_mem ht
      obtain ⟨s, hmem, hshown⟩ :=
        hstatement heq (Token.isWritten_of_isName hname) (Token.isCut_of_isName hname) himport
      exact (Policy.passes_observeTokens.1 hshown).1.names t hmem hname
    · obtain ⟨s, hs, outer, inner, rest, rfl, htokens, hcut⟩ :=
        h.statement_of_token heq (Token.isWritten_of_opens hopens) (Token.isCut_of_opens hopens)
      have hmem : t ∈ s.tokens := by simp [htokens]
      have hshown := (hpasses s hs).2 (h.showsTokens_of_opens hs hmem hopens)
      refine (Policy.passes_observeTokens.1 hshown).1.calls inner t rest htokens hopens names ?_
      exact (isCallTarget_of_endsInCut hcut).1 htarget
    · obtain ⟨before, after, heq⟩ := List.append_of_mem ht
      obtain ⟨s, hmem, hshown⟩ := hstatement heq hembeds.isWritten hembeds.isCut himport
      exact (Policy.passes_observeTokens.1 hshown).2 t hmem inner hembeds
  · rintro ⟨himports, hnames, hcalls, hembedded⟩ s hs
    obtain ⟨outer, rest, heq, hcut⟩ := h.tokens_eq_of_mem hs
    refine ⟨himports s hs, fun hshows => ?_⟩
    -- What is asked of all tokens outside of imports is asked of the tokens of this statement.
    have himport {t : Token} (ht : t ∈ s.tokens) (hwritten : t.isWritten = true) :
        t ∈ tokens ∧ ¬ InImport statements t :=
      ⟨by simp [heq, ht], h.not_inImport hs hshows ht hwritten⟩
    refine Policy.passes_observeTokens.2 ⟨⟨fun t ht hname => ?_, ?_⟩, fun t ht inner hembeds => ?_⟩
    · obtain ⟨hmem, hout⟩ := himport ht (Token.isWritten_of_isName hname)
      exact hnames t hmem hout hname
    · intro before t after htokens hopens names htarget
      refine hcalls (outer ++ before) t (after ++ rest) (by simp [heq, htokens]) hopens names ?_
      exact (isCallTarget_of_endsInCut hcut).2 htarget
    · obtain ⟨hmem, hout⟩ := himport ht hembeds.isWritten
      exact hembedded t hmem hout inner hembeds

end Script

/-- A script is safe when it has tokens and statements and the policy clears them. The thresholds of
complexity have no part in it. -/
theorem isSafe_analyze_iff (p : Policy) (limits : ComplexityLimits) (source : String) :
    ((analyze p limits source).isSafe = true ↔
      ∃ tokens statements, tokenize source = .ok tokens ∧ parse tokens = .ok statements ∧
        p.ClearsScript tokens statements) ∧
    ∀ other, (analyze p other source).isSafe = (analyze p limits source).isSafe := by
  have hclears (limits : ComplexityLimits) : (analyze p limits source).isSafe = true ↔
      ∃ tokens statements, tokenize source = .ok tokens ∧ parse tokens = .ok statements ∧
        p.ClearsScript tokens statements := by
    rw [isSafe_analyze]
    refine exists_congr fun tokens => exists_congr fun statements => ?_
    refine and_congr_right fun htokenize => and_congr_right fun hparse => ?_
    rw [passes_blockObservations]
    exact Script.forall_passes_iff ⟨htokenize, hparse⟩
  refine ⟨hclears limits, fun other => ?_⟩
  rw [Bool.eq_iff_iff, hclears other, hclears limits]

end ScriptSandbox
