import ScriptSandbox.Proofs.Source.Headers
import ScriptSandbox.Proofs.Source.Lines

/-!
Where statements begin. A logical line is statements between semicolons, or a header with such
statements behind its colon. So the tokens from the last semicolon, or from the beginning of the
line or of the body, up to the next semicolon are read as one statement.
-/

namespace ScriptSandbox

/-! ### Segments -/

theorem semicolonSegments_subset_tail (lead : List Token) {semicolon : Token} (tokens : List Token)
    (h : semicolon.isOperator ";" = true) :
    semicolonSegments tokens ⊆ (semicolonSegments (lead ++ semicolon :: tokens)).tail := by
  induction lead with
  | nil => simp [semicolonSegments, h]
  | cons t lead ih =>
      intro segment hsegment
      have hlater := ih hsegment
      rw [List.cons_append, semicolonSegments]
      split
      · exact List.mem_of_mem_tail hlater
      · split
        · rename_i hnone
          rw [hnone] at hlater
          cases hlater
        · rename_i hsegments
          rwa [hsegments] at hlater

theorem head_mem_semicolonSegments (tokens : List Token) :
    tokens.takeWhile (fun t => !t.isOperator ";") ∈ (semicolonSegments tokens).head? := by
  induction tokens with
  | nil => rfl
  | cons t rest ih =>
      rw [semicolonSegments]
      cases ht : t.isOperator ";" with
      | true => simp [ht]
      | false =>
          obtain ⟨more, hmore⟩ := List.head?_eq_some_iff.1 ih
          simp [ht, hmore]

/-- Whether a segment can begin after some tokens: at the beginning or behind a semicolon. -/
def EndsInSemicolon (tokens : List Token) : Prop :=
  ∀ t ∈ tokens.getLast?, t.isOperator ";" = true

theorem endsInSemicolon_append_singleton {tokens : List Token} {t : Token}
    (h : t.isOperator ";" = true) : EndsInSemicolon (tokens ++ [t]) := by
  intro last hlast
  rw [List.getLast?_append, List.getLast?_singleton] at hlast
  cases hlast
  exact h

theorem exists_lastSegment (tokens : List Token) :
    ∃ lead own, tokens = lead ++ own ∧ EndsInSemicolon lead ∧
      ∀ t ∈ own, t.isOperator ";" = false := by
  induction tokens using List.reverseRecOn with
  | nil => exact ⟨[], [], rfl, by simp [EndsInSemicolon], by simp⟩
  | append_singleton tokens t ih =>
      cases ht : t.isOperator ";" with
      | true => exact ⟨tokens ++ [t], [], by simp, endsInSemicolon_append_singleton ht, by simp⟩
      | false =>
          obtain ⟨lead, own, rfl, hlead, hown⟩ := ih
          refine ⟨lead, own ++ [t], by simp, hlead, fun u hu => ?_⟩
          rcases List.mem_append.1 hu with hu | hu
          · exact hown u hu
          · rwa [List.mem_singleton.1 hu]

theorem mem_semicolonSegments {lead tokens segment : List Token} (hlead : EndsInSemicolon lead)
    (hsegment : segment ∈ semicolonSegments tokens) :
    segment ∈ semicolonSegments (lead ++ tokens) := by
  cases lead using List.reverseRecOn with
  | nil => exact hsegment
  | append_singleton lead t =>
      rw [List.append_assoc]
      exact List.mem_of_mem_tail
        (semicolonSegments_subset_tail lead tokens (hlead t (by simp)) hsegment)

/-- Every token but a semicolon stands in the segment that begins behind the last semicolon before
it. -/
theorem segment_at {lead own rest : List Token} {t : Token} (hlead : EndsInSemicolon lead)
    (hown : ∀ u ∈ own, u.isOperator ";" = false) (ht : t.isOperator ";" = false) :
    own ++ t :: rest.takeWhile (fun u => !u.isOperator ";") ∈
      semicolonSegments (lead ++ (own ++ t :: rest)) := by
  have hhead := head_mem_semicolonSegments (own ++ t :: rest)
  rw [List.takeWhile_append_of_pos (by simpa using hown), List.takeWhile_cons, ht] at hhead
  exact mem_semicolonSegments hlead (List.mem_of_mem_head? hhead)

theorem lineStatement_of_segment {tokens rest : List Token} {first : Token}
    {statements : List Statement} (h : lineStatements tokens = .ok statements)
    (hsegment : first :: rest ∈ semicolonSegments tokens) :
    ∃ s ∈ statements, lineStatement first rest = .ok s := by
  obtain ⟨found, hfound, hmem⟩ := exists_of_filterMapM h hsegment
  obtain ⟨s, hs, rfl⟩ := map_eq_ok.1 hfound
  exact ⟨s, hmem s rfl, hs⟩

theorem line_mem_flattenAll {statements : List Statement} {form : LineForm} {p : Position}
    {tokens : List Token} (h : .line form p tokens ∈ statements) :
    .line form p tokens ∈ flattenAll statements := by
  obtain ⟨before, after, rfl⟩ := List.append_of_mem h
  simp 

/-! ### Lines and bodies -/

/-- The tokens `region` of a line behind the tokens `lead` hold statements between semicolons: they
are the whole line, or the body behind the header that the line begins with. -/
inductive StatementRegion (line : List Token) : List Token → List Token → Prop
  | whole : opensBlock line = false → StatementRegion line [] line
  | body {header colon body} : opensBlock line = true → headerColon line = some header.length →
      line = header ++ colon :: body → body ≠ [] → StatementRegion line (header ++ [colon]) body

theorem StatementRegion.append_eq {line lead region : List Token}
    (h : StatementRegion line lead region) : lead ++ region = line := by
  cases h with
  | whole => rfl
  | body _ _ heq => simp [heq]

theorem StatementRegion.lineStatements {first : Token} {rest lead region : List Token}
    {held : LogicalLine} (h : StatementRegion (first :: rest) lead region)
    (hline : logicalLine first rest = .ok held) :
    ∃ statements, lineStatements region = .ok statements ∧
      ∀ s ∈ flattenAll statements, s ∈ held.flatten := by
  cases h with
  | whole hopens =>
      rw [logicalLine_of_plain hopens] at hline
      obtain ⟨statements, hstatements, rfl⟩ := map_eq_ok.1 hline
      exact ⟨statements, hstatements, fun s hs => hs⟩
  | body hopens hcolon heq hne =>
      rw [logicalLine_of_headerColon heq hopens hcolon, if_neg hne] at hline
      obtain ⟨statements, hstatements, rfl⟩ := map_eq_ok.1 hline
      refine ⟨statements, hstatements, fun s hs => ?_⟩
      simp [LogicalLine.flatten, hs]

/-- A written token stands in a statement that is read from the tokens of its line between two
semicolons. Here `own` are those behind the last semicolon before the token, or behind the beginning
of the region. -/
theorem Script.statement_at {source : String} {tokens : List Token} {statements : List Statement}
    (h : Script source tokens statements) {outer lead skipped own after : List Token} {t : Token}
    (htokens : tokens = outer ++ (lead ++ (skipped ++ own)) ++ t :: after)
    (houter : EndsInLayout outer) (hinner : ∀ u ∈ lead ++ (skipped ++ own), u.isLayout = false)
    (hregion : StatementRegion (lead ++ (skipped ++ own) ++ t :: after.takeWhile Token.isInLine) lead
      (skipped ++ (own ++ t :: after.takeWhile Token.isInLine)))
    (hskipped : EndsInSemicolon skipped) (hown : ∀ u ∈ own, u.isOperator ";" = false)
    (ht : t.isWritten = true) (hsemicolon : t.isOperator ";" = false) :
    ∃ first rest form, first :: rest = own ++
        t :: (after.takeWhile Token.isInLine).takeWhile (fun u => !u.isOperator ";") ∧
      lineForm first rest = .ok form ∧
      .line form first.position (first :: rest) ∈ flattenAll statements := by
  obtain ⟨first, line, held, heq, hline, hheld⟩ := h.line_at htokens houter hinner ht
  rw [← heq] at hregion
  obtain ⟨found, hfound, hflatten⟩ := hregion.lineStatements hline
  have hsegment : own ++
      t :: (after.takeWhile Token.isInLine).takeWhile (fun u => !u.isOperator ";") ∈
        semicolonSegments (skipped ++ (own ++ t :: after.takeWhile Token.isInLine)) :=
    segment_at hskipped hown hsemicolon
  generalize hown' : own ++
    t :: (after.takeWhile Token.isInLine).takeWhile (fun u => !u.isOperator ";") = segment at hsegment
  cases segment with
  | nil => simp at hown'
  | cons start rest =>
      obtain ⟨s, hs, hread⟩ := lineStatement_of_segment hfound hsegment
      obtain ⟨form, rfl, -, hform⟩ := lineStatement_eq_ok hread
      exact ⟨start, rest, form, rfl, hform, hheld _ (hflatten _ (line_mem_flattenAll hs))⟩

end ScriptSandbox
