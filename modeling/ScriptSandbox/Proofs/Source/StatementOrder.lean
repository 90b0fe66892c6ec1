import ScriptSandbox.Proofs.Source.Lines

/-!
Statements in the order of the text. A statement stands where its first token does, and all its tokens
are written, so each statement of a script stands before the next one.
-/

namespace ScriptSandbox

theorem Spells.exists_first {pieces : List Piece} {tokens : List Token}
    {statements : List Statement} (h : Spells pieces tokens statements) {s : Statement}
    (hs : s ∈ statements) :
    ∃ first rest, s.tokens = first :: rest ∧ s.position = first.position := by
  rw [h.statements_eq] at hs
  obtain ⟨piece, hpiece, hfound⟩ := List.mem_filterMap.1 hs
  have hvalid := h.valid piece hpiece
  cases piece with
  | separator => cases hfound
  | line form p line =>
      cases hfound
      obtain ⟨first, rest, rfl, hline⟩ := hvalid
      obtain ⟨form, heq, -, -⟩ := lineStatement_eq_ok hline
      cases heq
      exact ⟨first, rest, rfl, rfl⟩
  | header keyword p header colon =>
      cases hfound
      obtain ⟨-, -, first, rest, rfl, -, rfl⟩ := hvalid
      exact ⟨first, rest, rfl, rfl⟩

theorem subset_of_logicalLine {first : Token} {rest : List Token} {held : LogicalLine}
    (h : logicalLine first rest = .ok held) {s : Statement} (hs : s ∈ held.flatten) :
    s.tokens ⊆ first :: rest := by
  have hline := logicalLine_eq_ok h
  cases held with
  | statements body =>
      obtain ⟨pieces, hspells⟩ := hline
      exact fun t ht => hspells.sublist.mem (List.mem_flatMap.2 ⟨s, hs, ht⟩)
  | header keyword p header =>
      obtain ⟨colon, htokens, -⟩ := hline
      cases List.mem_singleton.1 hs
      rw [htokens]
      exact List.subset_append_left header [colon]

theorem Rows.isLayout_of_mem {tokens : List Token} {statements : List Statement}
    (h : Rows tokens statements) (htidy : Tidy tokens) :
    ∀ s ∈ statements, ∀ t ∈ s.tokens, t.isLayout = false := by
  have inLine {first : Token} {line after : List Token} {held : LogicalLine}
      (hline : logicalLine first line = .ok held) (hfirst : first.isLayout = false)
      (hinLine : ∀ t ∈ line, t.isInLine = true) (htidy : Tidy (first :: line ++ after)) :
      ∀ s ∈ held.flatten, ∀ t ∈ s.tokens, t.isLayout = false := by
    have hown : Tidy (first :: line) := (List.isChain_append.1 htidy).1
    intro s hs t ht
    exact hown.isLayout_of_inLine hfirst hinLine t (subset_of_logicalLine hline hs ht)
  induction h with
  | final => simp
  | layout _ _ ih => exact ih (List.IsChain.tail htidy)
  | line hline hfirst hinLine _ _ ih =>
      have hafter := List.IsChain.tail (List.isChain_append.1 htidy).2.1
      exact List.forall_mem_append.2 ⟨inLine hline hfirst hinLine htidy, ih hafter⟩
  | lastLine hline hfirst hinLine _ _ ih =>
      have hafter := (List.isChain_append.1 htidy).2.1
      exact List.forall_mem_append.2 ⟨inLine hline hfirst hinLine htidy, ih hafter⟩

namespace Script

variable {source : String} {tokens : List Token} {statements : List Statement}

theorem isWritten_of_mem (h : Script source tokens statements) {s : Statement}
    (hs : s ∈ flattenAll statements) {t : Token} (ht : t ∈ s.tokens) : t.isWritten = true := by
  obtain ⟨more, hrows, hflatten⟩ := rows_of_nest h.parse_eq
  have hmore : flattenAll statements = more := hflatten
  have hlayout := hrows.isLayout_of_mem (tidy_of_tokenize h.tokenize_eq) s (hmore ▸ hs) t ht
  obtain ⟨body, hbody, hkinds⟩ := endMarker_of_tokenize h.tokenize_eq
  have hparse := h.parse_eq
  rw [hbody] at hparse
  obtain ⟨pieces, hspells⟩ := spells_of_parse hkinds rfl hparse
  have hmem : t ∈ body := hspells.sublist.mem (List.mem_flatMap.2 ⟨s, hs, ht⟩)
  exact isWritten_of_isLayout h.tokenize_eq (by simp [hbody, hmem]) hlayout (hkinds t hmem)

/-- Every statement of a script stands before the next one. -/
theorem pairwise_position (h : Script source tokens statements) :
    (flattenAll statements).Pairwise fun s u => s.position.Precedes u.position := by
  obtain ⟨body, last, pieces, hbody, -, hspells⟩ := h.spells
  have hsublist := (hspells.sublist.trans (List.sublist_append_left body [last]))
  rw [← hbody] at hsublist
  have hapart := (pairwise_apart_of_tokenize h.tokenize_eq).sublist
    (hsublist.filter Token.isWritten)
  rw [List.filter_flatMap, List.pairwise_flatMap] at hapart
  refine hapart.2.imp_of_mem fun {s u} hs hu hbefore => ?_
  obtain ⟨first, rest, htokens, hposition⟩ := hspells.exists_first hs
  obtain ⟨first', rest', htokens', hposition'⟩ := hspells.exists_first hu
  have hmem : first ∈ s.tokens := by simp [htokens]
  have hmem' : first' ∈ u.tokens := by simp [htokens']
  have hwritten := h.isWritten_of_mem hs hmem
  have hstop := precedes_stop_of_tokenize h.tokenize_eq
    (hsublist.mem (List.mem_flatMap.2 ⟨s, hs, hmem⟩)) hwritten
  rw [hposition, hposition']
  exact hstop.trans_upTo (hbefore first (List.mem_filter.2 ⟨hmem, hwritten⟩) first'
    (List.mem_filter.2 ⟨hmem', h.isWritten_of_mem hu hmem'⟩))

end Script

end ScriptSandbox
