import ScriptSandbox.Proofs.Source.Imports
import ScriptSandbox.Proofs.Source.LayoutRuns

/-!
Logical lines of parsed scripts. The tokens of a script fall into layout tokens and logical lines, and
each line is read by itself. So where a statement begins is known from the line that it stands in: at
the beginning of the line, behind a semicolon, or behind the colon of a header.
-/

namespace ScriptSandbox

/-! ### Lines of a script -/

/-- The statements that a logical line holds, each block without its body. -/
def LogicalLine.flatten : LogicalLine → List Statement
  | statements body => flattenAll body
  | header keyword p tokens => [.block keyword p tokens []]

theorem Token.isInLine_of_isWritten {t : Token} (h : t.isWritten = true) : t.isInLine = true := by
  unfold Token.isWritten at h
  unfold Token.isInLine
  split at h <;> simp_all

/-- Some tokens fall into layout tokens and logical lines up to the end of the script, and the lines
hold some statements. A line goes up to a line end or up to the end of the script. -/
inductive Rows : List Token → List Statement → Prop
  | final {tokens} : AtEnd tokens → Rows tokens []
  | layout {t tokens statements} : t.isLayout = true → Rows tokens statements →
      Rows (t :: tokens) statements
  | line {first line newline after held statements} : logicalLine first line = .ok held →
      first.isLayout = false → (∀ t ∈ line, t.isInLine = true) → newline.kind = .newline →
      Rows after statements → Rows (first :: line ++ newline :: after) (held.flatten ++ statements)
  | lastLine {first line after held statements} : logicalLine first line = .ok held →
      first.isLayout = false → (∀ t ∈ line, t.isInLine = true) → AtEnd after →
      Rows after statements → Rows (first :: line ++ after) (held.flatten ++ statements)

theorem Rows.of_afterLine {first : Token} {rest : List Token} {held : LogicalLine}
    {statements : List Statement}
    (hline : logicalLine first (rest.takeWhile Token.isInLine) = .ok held)
    (hfirst : first.isLayout = false) (hafter : Rows (afterLine rest) statements) :
    Rows (first :: rest) (held.flatten ++ statements) := by
  have hinLine : ∀ t ∈ rest.takeWhile Token.isInLine, t.isInLine = true :=
    List.all_eq_true.1 List.all_takeWhile
  rcases afterLine_cases rest with ⟨newline, hkind, hrest⟩ | ⟨hrest, hend⟩
  · rw [hrest, ← List.cons_append]
    exact .line hline hfirst hinLine hkind hafter
  · rw [hrest, ← List.cons_append]
    exact .lastLine hline hfirst hinLine hend hafter

/-- The statements that are nested from some tokens are those of their lines. -/
theorem rows_of_nest {s : Nesting} {tokens : List Token} {statements : List Statement}
    (h : nest s tokens = .ok statements) :
    ∃ more, Rows tokens more ∧
      flattenAll statements = flattenOpen s.statements s.blocks ++ more := by
  replace h := nest_eq_ok_iff.1 h
  induction h with
  | final hend => exact ⟨[], .final hend, by rw [flattenAll_closeAll, List.append_nil]⟩
  | dedent hkind _ ih =>
      obtain ⟨more, hrows, hflatten⟩ := ih
      rw [flattenOpen_leave] at hflatten
      exact ⟨more, .layout (Token.isLayout_iff.2 (.inr (.inr hkind))) hrows, hflatten⟩
  | newline hkind _ ih =>
      obtain ⟨more, hrows, hflatten⟩ := ih
      exact ⟨more, .layout (Token.isLayout_iff.2 (.inl hkind)) hrows, hflatten⟩
  | line hlayout _ hline _ ih =>
      obtain ⟨more, hrows, hflatten⟩ := ih
      refine ⟨_, .of_afterLine hline hlayout hrows, ?_⟩
      rw [hflatten, ← List.append_assoc, LogicalLine.flatten, ← flattenOpen_append]
      rfl
  | header hlayout _ hline hbelow hindent _ ih =>
      obtain ⟨more, hrows, hflatten⟩ := ih
      have hnext := hrows.layout (Token.isLayout_iff.2 (.inr (.inl hindent)))
      rw [← hbelow] at hnext
      refine ⟨_, .of_afterLine hline hlayout hnext, ?_⟩
      rw [hflatten]
      simp [Nesting.enter, flattenOpen, LogicalLine.flatten]

theorem cut_of_line {line after before rest : List Token} {first t : Token}
    (h : first :: line ++ after = before ++ t :: rest) (hline : ∀ u ∈ line, u.isInLine = true)
    (hstop : ∀ u ∈ after.head?, u.isInLine = false) :
    (∃ lead, before = first :: line ++ lead ∧ after = lead ++ t :: rest) ∨
      first :: line = before ++ t :: rest.takeWhile Token.isInLine := by
  rcases List.append_eq_append_iff.1 h with ⟨lead, hbefore, hafter⟩ | ⟨tail, hhead, htail⟩
  · exact .inl ⟨lead, hbefore, hafter⟩
  · cases tail with
    | nil => exact .inl ⟨[], by simpa using hhead.symm, by simpa using htail.symm⟩
    | cons u tail =>
        cases htail
        have htailLine : ∀ u ∈ tail, u.isInLine = true := by
          intro u hu
          cases before with
          | nil =>
              cases hhead
              exact hline u hu
          | cons v before =>
              cases hhead
              exact hline u (by simp [hu])
        refine .inr ?_
        rw [hhead, List.append_eq, List.takeWhile_append_of_pos htailLine]
        cases after with
        | nil => simp
        | cons v after => simp [hstop v rfl]

theorem not_written_of_atEnd {tokens before after : List Token} {t : Token} (h : AtEnd tokens)
    (htokens : tokens = before ++ t :: after) (hbefore : ∀ u ∈ before, u.kind ≠ .endMarker) :
    t.isWritten = false := by
  subst htokens
  cases before with
  | nil => simp [Token.isWritten, h t rfl]
  | cons u before => exact absurd (h u rfl) (hbefore u (by simp))

/-- Whether a line can begin after some tokens: at the beginning or behind layout. -/
def EndsInLayout (tokens : List Token) : Prop :=
  ∀ t ∈ tokens.getLast?, t.isLayout = true

theorem endsInLayout_append_cons {t : Token} {tokens : List Token} (lead : List Token)
    (ht : t.isLayout = true) (h : EndsInLayout tokens) : EndsInLayout (lead ++ t :: tokens) := by
  intro u hu
  rw [List.getLast?_append, List.getLast?_cons] at hu
  cases hlast : tokens.getLast? with
  | none =>
      simp only [hlast, Option.getD_none, Option.some_or] at hu
      cases hu
      exact ht
  | some v =>
      simp only [hlast, Option.getD_some, Option.some_or] at hu
      cases hu
      exact h u hlast

/-- A written token stands in a logical line, and layout comes before that line. -/
theorem Rows.line_at {tokens before after : List Token} {statements : List Statement} {t : Token}
    (h : Rows tokens statements) (htokens : tokens = before ++ t :: after)
    (hbefore : ∀ u ∈ before, u.kind ≠ .endMarker) (ht : t.isWritten = true) :
    ∃ outer inner first line held, before = outer ++ inner ∧ EndsInLayout outer ∧
      first :: line = inner ++ t :: after.takeWhile Token.isInLine ∧ first.isLayout = false ∧
      (∀ u ∈ line, u.isInLine = true) ∧ logicalLine first line = .ok held ∧
      ∀ s ∈ held.flatten, s ∈ statements := by
  induction h generalizing before with
  | final hend =>
      rw [not_written_of_atEnd hend htokens hbefore] at ht
      cases ht
  | @layout u tokens statements hu _ ih =>
      cases before with
      | nil =>
          cases htokens
          rw [Token.isWritten_eq_false hu] at ht
          cases ht
      | cons v before =>
          cases htokens
          obtain ⟨outer, inner, first, line, held, rfl, houter, hrest⟩ :=
            ih rfl fun w hw => hbefore w (by simp [hw])
          exact ⟨u :: outer, inner, first, line, held, rfl,
            endsInLayout_append_cons [] hu houter, hrest⟩
  | @line first line newline rest held statements hline hfirst hinLine hnewline _ ih =>
      rcases cut_of_line htokens hinLine (by simp [Token.isInLine, hnewline]) with
        ⟨lead, rfl, hlead⟩ | hhead
      · have hlayout : newline.isLayout = true := Token.isLayout_iff.2 (.inl hnewline)
        cases lead with
        | nil =>
            cases hlead
            rw [Token.isWritten_eq_false hlayout] at ht
            cases ht
        | cons u lead =>
            cases hlead
            obtain ⟨outer, inner, first', line', held', rfl, houter, heq, hfirst', hinLine', hline',
              hheld⟩ := ih rfl fun w hw => hbefore w (by simp [hw])
            exact ⟨first :: line ++ newline :: outer, inner, first', line', held', by simp,
              endsInLayout_append_cons _ hlayout houter, heq, hfirst', hinLine', hline',
              fun s hs => List.mem_append_right _ (hheld s hs)⟩
      · exact ⟨[], before, first, line, held, rfl, by simp [EndsInLayout], hhead, hfirst, hinLine, hline,
          fun s hs => List.mem_append_left _ hs⟩
  | @lastLine first line rest held statements hline hfirst hinLine hend _ ih =>
      have hstop : ∀ u ∈ rest.head?, u.isInLine = false := by
        intro u hu
        simp [Token.isInLine, hend u hu]
      rcases cut_of_line htokens hinLine hstop with ⟨lead, rfl, hlead⟩ | hhead
      · rw [not_written_of_atEnd hend hlead fun u hu => hbefore u (by simp [hu])] at ht
        cases ht
      · exact ⟨[], before, first, line, held, rfl, by simp [EndsInLayout], hhead, hfirst, hinLine, hline,
          fun s hs => List.mem_append_left _ hs⟩

/-! ### Written lines -/

section Written

variable {source : String} {tokens : List Token}

theorem isWritten_of_isLayout (htokenize : tokenize source = .ok tokens) {t : Token}
    (ht : t ∈ tokens) (hlayout : t.isLayout = false) (hkind : t.kind ≠ .endMarker) :
    t.isWritten = true := by
  obtain ⟨-, body, rfl, -, hkinds⟩ := follows_of_tokenize htokenize
  rcases List.mem_append.1 ht with hbody | hlast
  · exact (hkinds t (by simpa using hbody)).resolve_left (by simp [hlayout])
  · rw [List.mem_singleton.1 hlast] at hkind
    exact absurd rfl hkind

theorem Tidy.part {part : List Token} (h : Tidy tokens) (hpart : part <:+: tokens) : Tidy part :=
  List.IsChain.infix h hpart

theorem Tidy.isLayout_of_inLine {first : Token} {line : List Token} (h : Tidy (first :: line))
    (hfirst : first.isLayout = false) (hline : ∀ t ∈ line, t.isInLine = true) :
    ∀ t ∈ first :: line, t.isLayout = false := by
  simp only [Token.isInLine, Bool.and_eq_true, bne_iff_ne] at hline
  exact List.forall_mem_cons.2 ⟨hfirst, h.isLayout_of_line hfirst fun t ht => (hline t ht).1⟩

theorem isWritten_of_line (htokenize : tokenize source = .ok tokens) {first : Token}
    {line : List Token} (hpart : first :: line <:+: tokens) (hfirst : first.isLayout = false)
    (hmarker : first.kind ≠ .endMarker) (hline : ∀ t ∈ line, t.isInLine = true) :
    ∀ t ∈ first :: line, t.isWritten = true := by
  have htidy := (tidy_of_tokenize htokenize).part hpart
  intro t ht
  apply isWritten_of_isLayout htokenize (hpart.mem ht) (htidy.isLayout_of_inLine hfirst hline t ht)
  rcases List.mem_cons.1 ht with rfl | ht
  · exact hmarker
  · rintro hkind
    simpa [Token.isInLine, hkind] using hline t ht

end Written

/-! ### Lines of parsed scripts -/

/-- Tokens end in one way in layout and a part of a line. -/
theorem line_unique {outer inner other line : List Token} (h : outer ++ inner = other ++ line)
    (houter : EndsInLayout outer) (hinner : ∀ t ∈ inner, t.isLayout = false)
    (hother : EndsInLayout other) (hline : ∀ t ∈ line, t.isLayout = false) : inner = line := by
  -- What one part has more than the other would end in layout, but it stands in a line.
  have hnone {lead rest before : List Token} (hbefore : EndsInLayout (before ++ lead))
      (hrest : ∀ t ∈ lead ++ rest, t.isLayout = false) : lead = [] := by
    by_contra hne
    have hmem := List.getLast_mem hne
    have hlayout := hbefore (lead.getLast hne) (by
      rw [List.getLast?_append, List.getLast?_eq_some_getLast hne]
      rfl)
    rw [hrest _ (List.mem_append_left _ hmem)] at hlayout
    cases hlayout
  rcases List.append_eq_append_iff.1 h with ⟨lead, rfl, rfl⟩ | ⟨lead, rfl, rfl⟩
  · rw [hnone hother hinner, List.nil_append]
  · rw [hnone houter hline, List.nil_append]

namespace Script

variable {source : String} {tokens : List Token} {statements : List Statement}

theorem kind_of_before (h : Script source tokens statements) {before after : List Token} {t : Token}
    (htokens : tokens = before ++ t :: after) (ht : t.isWritten = true) :
    ∀ u ∈ before, u.kind ≠ .endMarker := by
  obtain ⟨body, rfl, hbody⟩ := endMarker_of_tokenize h.tokenize_eq
  rcases cut_of_concat htokens with ⟨-, rfl⟩ | ⟨rest, rfl, -⟩
  · cases ht
  · exact fun u hu => hbody u (by simp [hu])

/-- A written token stands in a logical line of the script. Of the tokens before it, those behind
the last layout token belong to the line. -/
theorem line_at (h : Script source tokens statements) {outer inner after : List Token} {t : Token}
    (htokens : tokens = outer ++ inner ++ t :: after) (houter : EndsInLayout outer)
    (hinner : ∀ u ∈ inner, u.isLayout = false) (ht : t.isWritten = true) :
    ∃ first line held, first :: line = inner ++ t :: after.takeWhile Token.isInLine ∧
      logicalLine first line = .ok held ∧ ∀ s ∈ held.flatten, s ∈ flattenAll statements := by
  obtain ⟨more, hrows, hflatten⟩ := rows_of_nest h.parse_eq
  have hmore : flattenAll statements = more := hflatten
  have hbefore := h.kind_of_before htokens ht
  obtain ⟨other, line, first, rest, held, hcut, hother, heq, hfirst, hinLine, hline, hheld⟩ :=
    hrows.line_at htokens hbefore ht
  have hsame : inner = line := by
    have hpart : first :: rest <:+: tokens := by
      refine ⟨other, after.dropWhile Token.isInLine, ?_⟩
      rw [htokens, hcut, heq]
      simp
    have htidy := (tidy_of_tokenize h.tokenize_eq).part hpart
    refine line_unique hcut houter hinner hother fun u hu => ?_
    exact htidy.isLayout_of_inLine hfirst hinLine u (by simp [heq, hu])
  rw [hsame, hmore]
  exact ⟨first, rest, held, heq, hline, hheld⟩

end Script

end ScriptSandbox
