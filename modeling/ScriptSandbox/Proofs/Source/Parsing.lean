import ScriptSandbox.Proofs.Except
import ScriptSandbox.Proofs.Source.Nesting
import ScriptSandbox.Proofs.Source.Pieces

/-!
Statements lose no token. The statements of a parsed script, each block before what stands inside
it, are the lines and headers among the pieces that its tokens fall into.
-/

namespace ScriptSandbox

/-! ### Logical lines -/

/-- The segments of some tokens, joined by the semicolons between them. -/
inductive Joined : List (List Token) → List Token → Prop
  | last {segment} : Joined [segment] segment
  | cons {segment t segments tokens} : t.isOperator ";" = true → Joined segments tokens →
      Joined (segment :: segments) (segment ++ t :: tokens)

theorem joined_semicolonSegments (tokens : List Token) :
    Joined (semicolonSegments tokens) tokens := by
  fun_induction semicolonSegments tokens with
  | case1 => exact .last
  | case2 t rest ht ih => exact @Joined.cons [] t _ _ ht ih
  | case3 t rest _ hnone ih =>
      rw [hnone] at ih
      cases ih
  | case4 t rest _ segment more hsegments ih =>
      rw [hsegments] at ih
      cases ih with
      | last => exact .last
      | cons hsemicolon htail => exact @Joined.cons (t :: segment) _ _ _ hsemicolon htail

def lineForm (first : Token) (rest : List Token) : Except SyntaxError LineForm :=
  if first.isWord "import" then parseImport first rest
  else if first.isWord "from" then parseImportFrom first rest
  else .ok .plain

theorem lineStatement_eq_map (first : Token) (rest : List Token) :
    lineStatement first rest =
      if first.kind = .name ∧ blockKeywords.contains first.text = true then .error (refuse first)
      else (lineForm first rest).map fun form => .line form first.position (first :: rest) := by
  unfold lineStatement lineForm
  split
  · rfl
  · split
    · cases parseImport first rest <;> rfl
    · split
      · cases parseImportFrom first rest <;> rfl
      · rfl

/-- A statement on a line is read by its first word, which opens no block. -/
theorem lineStatement_eq_ok {first : Token} {rest : List Token} {s : Statement}
    (h : lineStatement first rest = .ok s) :
    ∃ form, s = .line form first.position (first :: rest) ∧
      ¬ (first.kind = .name ∧ blockKeywords.contains first.text = true) ∧
      lineForm first rest = .ok form := by
  rw [lineStatement_eq_map] at h
  split at h
  · cases h
  · rename_i hblock
    obtain ⟨form, hform, rfl⟩ := map_eq_ok.1 h
    exact ⟨form, rfl, hblock, hform⟩

def segmentStatement : List Token → Except SyntaxError (Option Statement)
  | [] => pure none
  | first :: rest => some <$> lineStatement first rest

theorem spells_of_segmentStatement {segment : List Token} {found : Option Statement}
    (h : segmentStatement segment = .ok found) :
    ∃ pieces, Spells pieces segment (flattenAll found.toList) := by
  unfold segmentStatement at h
  split at h
  · cases pure_eq_ok.1 h
    exact ⟨[], .nil⟩
  · rename_i first rest
    obtain ⟨s, hs, rfl⟩ := map_eq_ok.1 h
    obtain ⟨form, rfl, -, -⟩ := lineStatement_eq_ok hs
    refine ⟨[.line form first.position (first :: rest)], by simp [Piece.tokens], rfl, ?_, .singleton _⟩
    intro piece hpiece
    cases List.mem_singleton.1 hpiece
    exact ⟨first, rest, rfl, hs⟩

theorem spells_of_joined {segments : List (List Token)} {tokens : List Token}
    {statements : List Statement} (hjoined : Joined segments tokens)
    (h : segments.filterMapM segmentStatement = .ok statements) :
    ∃ pieces, Spells pieces tokens (flattenAll statements) := by
  induction hjoined generalizing statements with
  | @last segment =>
      rw [List.filterMapM_cons] at h
      obtain ⟨found, hfound, h⟩ := bind_eq_ok.1 h
      cases found with
      | none =>
          cases pure_eq_ok.1 h
          exact spells_of_segmentStatement hfound
      | some s =>
          cases pure_eq_ok.1 h
          exact spells_of_segmentStatement hfound
  | @cons segment t segments tokens ht hrest ih =>
      rw [List.filterMapM_cons] at h
      obtain ⟨found, hfound, h⟩ := bind_eq_ok.1 h
      obtain ⟨before, hbefore⟩ := spells_of_segmentStatement hfound
      have hseparator : (Piece.separator t).Valid := .inr ht
      cases found with
      | none =>
          obtain ⟨after, hafter⟩ := ih h
          exact ⟨_, hbefore.append_separator hseparator hafter⟩
      | some s =>
          obtain ⟨more, hmore, h⟩ := bind_eq_ok.1 h
          cases pure_eq_ok.1 h
          obtain ⟨after, hafter⟩ := ih hmore
          have hspells := hbefore.append_separator hseparator hafter
          rw [← flattenAll_append] at hspells
          exact ⟨_, hspells⟩

theorem spells_of_lineStatements {tokens : List Token} {statements : List Statement}
    (h : lineStatements tokens = .ok statements) :
    ∃ pieces, Spells pieces tokens (flattenAll statements) :=
  spells_of_joined (joined_semicolonSegments tokens) h

/-- The colon of a header is found where it stands, whatever comes behind it. -/
theorem findHeaderColon_eq_some {index depth lambdas i : Nat} {tokens : List Token}
    (h : findHeaderColon index depth lambdas tokens = some i) :
    ∃ (before : List Token) (colon : Token) (after : List Token),
      tokens = before ++ colon :: after ∧ i = index + before.length ∧ colon.isOperator ":" = true ∧
      ∀ behind, findHeaderColon index depth lambdas (before ++ colon :: behind) = some i := by
  have later {t : Token} {index depth lambdas depth' lambdas' : Nat} {rest : List Token}
      (hskip : ∀ rest, findHeaderColon index depth lambdas (t :: rest) =
        findHeaderColon (index + 1) depth' lambdas' rest)
      (h : ∃ (before : List Token) (colon : Token) (after : List Token),
        rest = before ++ colon :: after ∧ i = index + 1 + before.length ∧
        colon.isOperator ":" = true ∧
        ∀ behind, findHeaderColon (index + 1) depth' lambdas' (before ++ colon :: behind) = some i) :
      ∃ (before : List Token) (colon : Token) (after : List Token),
        t :: rest = before ++ colon :: after ∧ i = index + before.length ∧
        colon.isOperator ":" = true ∧
        ∀ behind, findHeaderColon index depth lambdas (before ++ colon :: behind) = some i := by
    obtain ⟨before, colon, after, rfl, hi, hcolon, hbehind⟩ := h
    refine ⟨t :: before, colon, after, rfl, ?_, hcolon, fun behind => ?_⟩
    · rw [List.length_cons]
      omega
    · rw [List.cons_append, hskip, hbehind]
  fun_induction findHeaderColon index depth lambdas tokens with
  | case1 => cases h
  | case2 _ _ _ _ _ _ _ ih => exact later (fun _ => by simp [findHeaderColon, *]) (ih h)
  | case3 _ _ _ _ _ _ _ _ ih => exact later (fun _ => by simp [findHeaderColon, *]) (ih h)
  | case4 index depth t rest hoperator _ _ hcolon =>
      cases h
      refine ⟨[], t, rest, rfl, rfl, ?_, fun behind => ?_⟩
      · simp [Token.isOperator, hoperator, hcolon.1]
      · simp [findHeaderColon, *]
  | case5 _ _ _ _ _ _ _ _ _ _ ih => exact later (fun _ => by simp [findHeaderColon, *]) (ih h)
  | case6 _ _ _ _ _ _ _ _ _ ih => exact later (fun _ => by simp [findHeaderColon, *]) (ih h)
  | case7 _ _ _ _ _ _ _ ih => exact later (fun _ => by simp [findHeaderColon, *]) (ih h)
  | case8 _ _ _ _ _ _ _ ih => exact later (fun _ => by simp [findHeaderColon, *]) (ih h)

theorem kind_of_opensBlock {first : Token} {rest : List Token}
    (h : opensBlock (first :: rest) = true) : first.kind = .name := by
  simp only [opensBlock, Bool.and_eq_true, beq_iff_eq] at h
  exact h.1

/-! ### Logical lines -/

section LogicalLine

variable {first colon : Token} {rest header body : List Token} {held : LogicalLine}

theorem logicalLine_of_plain (hopens : opensBlock (first :: rest) = false) :
    logicalLine first rest = (lineStatements (first :: rest)).map .statements := by
  unfold logicalLine
  simp only [hopens, Bool.not_false, if_true]
  cases lineStatements (first :: rest) with
  | error e => rfl
  | ok statements => rfl

theorem logicalLine_of_headerColon (hline : first :: rest = header ++ colon :: body)
    (hopens : opensBlock (first :: rest) = true)
    (hend : headerColon (first :: rest) = some header.length) :
    logicalLine first rest =
      if body = [] then .ok (.header first.text first.position header)
      else (lineStatements body).map fun statements =>
        .statements [.block first.text first.position header statements] := by
  have hheader : (first :: rest).take header.length = header := by
    rw [hline, List.take_left]
  have hbody : (first :: rest).drop (header.length + 1) = body := by
    rw [hline, ← List.drop_drop, List.drop_left]
    rfl
  unfold logicalLine
  simp only [hopens, hend, hheader, hbody, Bool.not_true, List.isEmpty_iff]
  by_cases hempty : body = []
  · rw [if_pos hempty, if_pos hempty]
    rfl
  · rw [if_neg hempty, if_neg hempty]
    cases lineStatements body with
    | error e => rfl
    | ok statements => rfl

theorem exists_of_headerColon {i : Nat} (h : headerColon (first :: rest) = some i) :
    ∃ (header : List Token) (colon : Token) (body : List Token),
      first :: rest = header ++ colon :: body ∧ i = header.length ∧
        colon.isOperator ":" = true ∧ headerColon (header ++ [colon]) = some header.length := by
  obtain ⟨header, colon, body, hline, rfl, hcolon, hbehind⟩ := findHeaderColon_eq_some h
  rw [Nat.zero_add] at hbehind
  exact ⟨header, colon, body, hline, Nat.zero_add _, hcolon, hbehind []⟩

/-- A line opens no block and holds statements, or it is a header, with statements behind it or
without. -/
theorem logicalLine_cases (h : logicalLine first rest = .ok held) :
    (opensBlock (first :: rest) = false ∧ ∃ statements,
      lineStatements (first :: rest) = .ok statements ∧ held = .statements statements) ∨
    ∃ (header : List Token) (colon : Token) (body : List Token),
      first :: rest = header ++ colon :: body ∧
      (Piece.header first.text first.position header colon).Valid ∧
      (body = [] ∧ held = .header first.text first.position header ∨ ∃ statements,
        lineStatements body = .ok statements ∧
        held = .statements [.block first.text first.position header statements]) := by
  cases hopens : opensBlock (first :: rest) with
  | false =>
      rw [logicalLine_of_plain hopens] at h
      obtain ⟨statements, hstatements, rfl⟩ := map_eq_ok.1 h
      exact .inl ⟨rfl, statements, hstatements, rfl⟩
  | true =>
      cases hend : headerColon (first :: rest) with
      | none =>
          unfold logicalLine at h
          simp only [hopens, hend, Bool.not_true] at h
          cases h
      | some i =>
          obtain ⟨header, colon, body, hline, rfl, hcolon, halone⟩ := exists_of_headerColon hend
          rw [logicalLine_of_headerColon hline hopens hend] at h
          refine .inr ⟨header, colon, body, hline, ⟨hcolon, halone, ?_⟩, ?_⟩
          · cases header with
            | nil =>
                cases hline
                simp [Token.isOperator_of_name (kind_of_opensBlock hopens)] at hcolon
            | cons t header =>
                cases hline
                exact ⟨first, header, rfl, rfl, rfl⟩
          · split at h
            · rename_i hempty
              cases h
              exact .inl ⟨hempty, rfl⟩
            · obtain ⟨statements, hstatements, rfl⟩ := map_eq_ok.1 h
              exact .inr ⟨statements, hstatements, rfl⟩

theorem logicalLine_eq_ok (h : logicalLine first rest = .ok held) :
    match held with
    | .statements statements => ∃ pieces, Spells pieces (first :: rest) (flattenAll statements)
    | .header keyword p header => ∃ colon, first :: rest = header ++ [colon] ∧
        (Piece.header keyword p header colon).Valid := by
  rcases logicalLine_cases h with ⟨-, statements, hstatements, rfl⟩ |
    ⟨header, colon, body, hline, hvalid, ⟨rfl, rfl⟩ | ⟨statements, hstatements, rfl⟩⟩
  · exact spells_of_lineStatements hstatements
  · exact ⟨colon, hline, hvalid⟩
  · obtain ⟨pieces, hspells⟩ := spells_of_lineStatements hstatements
    have hheader := hspells.cons_header hvalid
    rw [← hline] at hheader
    exact ⟨_, by simpa  using hheader⟩

end LogicalLine

/-! ### Nested blocks -/

/-- The statements of the open blocks and of those before them, of which the innermost block holds
`statements`, newest first. -/
def flattenOpen (statements : List Statement) : List OpenBlock → List Statement
  | [] => flattenAll statements.reverse
  | b :: outer =>
    flattenOpen b.before outer ++
      .block b.keyword b.position b.header [] :: flattenAll statements.reverse

theorem flattenOpen_append (blocks : List OpenBlock) (statements more : List Statement) :
    flattenOpen (more.reverse ++ statements) blocks =
      flattenOpen statements blocks ++ flattenAll more := by
  cases blocks with
  | nil => simp [flattenOpen]
  | cons b outer => simp [flattenOpen]

theorem flattenOpen_cons_block (blocks : List OpenBlock) (statements body : List Statement)
    (keyword : String) (p : Position) (header : List Token) :
    flattenOpen (.block keyword p header body :: statements) blocks =
      flattenOpen statements blocks ++ .block keyword p header [] :: flattenAll body := by
  have happend := flattenOpen_append blocks statements [.block keyword p header body]
  simpa  using happend

@[simp] theorem flattenAll_closeAll (statements : List Statement) (blocks : List OpenBlock) :
    flattenAll (Nesting.closeAll statements blocks) = flattenOpen statements blocks := by
  induction blocks generalizing statements with
  | nil => rfl
  | cons b outer ih => rw [Nesting.closeAll, ih, flattenOpen_cons_block, flattenOpen]

theorem flattenOpen_leave (s : Nesting) :
    flattenOpen s.leave.statements s.leave.blocks = flattenOpen s.statements s.blocks := by
  obtain ⟨blocks, statements⟩ := s
  cases blocks with
  | nil => rfl
  | cons b outer => exact flattenOpen_cons_block outer b.before _ _ _ _

/-- Some tokens spell statements up to the first end marker, or all of them do. -/
def SpellsToEnd (tokens : List Token) (statements : List Statement) : Prop :=
  ∃ pieces spelled rest, tokens = spelled ++ rest ∧ AtEnd rest ∧
    (∀ t ∈ spelled, t.kind ≠ .endMarker) ∧ Spells pieces spelled statements

namespace SpellsToEnd

theorem atEnd {tokens : List Token} (h : AtEnd tokens) : SpellsToEnd tokens [] :=
  ⟨[], [], tokens, rfl, h, by simp, .nil⟩

theorem append_separator {pieces : List Piece} {first second : List Token}
    {statements more : List Statement} {t : Token} (hfirst : Spells pieces first statements)
    (hkinds : ∀ u ∈ first, u.kind ≠ .endMarker) (ht : t.isLayout = true)
    (hsecond : SpellsToEnd second more) :
    SpellsToEnd (first ++ t :: second) (statements ++ more) := by
  obtain ⟨after, spelled, rest, rfl, hend, hspelled, hafter⟩ := hsecond
  refine ⟨_, first ++ t :: spelled, rest, by simp, hend, fun u hu => ?_,
    hfirst.append_separator (.inl ht) hafter⟩
  rcases List.mem_append.1 hu with hu | hu
  · exact hkinds u hu
  · rcases List.mem_cons.1 hu with rfl | hu
    · rintro hkind
      simp [Token.isLayout, hkind] at ht
    · exact hspelled u hu

theorem cons_separator {tokens : List Token} {statements : List Statement} {t : Token}
    (ht : t.isLayout = true) (h : SpellsToEnd tokens statements) :
    SpellsToEnd (t :: tokens) statements :=
  append_separator .nil (by simp) ht h

end SpellsToEnd

/-- What is nested from some tokens comes after the statements before and is spelled by them. -/
theorem spells_of_nest {s : Nesting} {tokens : List Token} {statements : List Statement}
    (h : nest s tokens = .ok statements) :
    ∃ more, SpellsToEnd tokens more ∧
      flattenAll statements = flattenOpen s.statements s.blocks ++ more := by
  have inLine {t : Token} {rest : List Token} (ht : t.kind ≠ .endMarker) :
      ∀ u ∈ t :: rest.takeWhile Token.isInLine, u.kind ≠ .endMarker :=
    List.forall_mem_cons.2 ⟨ht, fun _ => kind_of_mem_takeWhile_isInLine⟩
  replace h := nest_eq_ok_iff.1 h
  induction h with
  | final hend => exact ⟨[], .atEnd hend, by rw [flattenAll_closeAll, List.append_nil]⟩
  | dedent hkind _ ih =>
      obtain ⟨more, hspells, hflatten⟩ := ih
      rw [flattenOpen_leave] at hflatten
      exact ⟨more, .cons_separator (Token.isLayout_iff.2 (.inr (.inr hkind))) hspells, hflatten⟩
  | newline hkind _ ih =>
      obtain ⟨more, hspells, hflatten⟩ := ih
      exact ⟨more, .cons_separator (Token.isLayout_iff.2 (.inl hkind)) hspells, hflatten⟩
  | @line s t rest line statements _ ht hline hnests ih =>
      -- A line of statements, with the line end behind it or the end of the script.
      obtain ⟨pieces, hpieces⟩ := logicalLine_eq_ok hline
      have hadd : flattenOpen (s.add line).statements (s.add line).blocks =
          flattenOpen s.statements s.blocks ++ flattenAll line :=
        flattenOpen_append s.blocks s.statements line
      rcases afterLine_cases rest with ⟨newline, hkind, hrest⟩ | ⟨hrest, hend⟩
      · obtain ⟨more, hspells, hflatten⟩ := ih
        refine ⟨flattenAll line ++ more, ?_, by rw [hflatten, hadd, List.append_assoc]⟩
        rw [hrest, ← List.cons_append]
        exact .append_separator hpieces (inLine ht) (Token.isLayout_iff.2 (.inl hkind)) hspells
      · obtain rfl := hnests.eq_of_atEnd hend
        refine ⟨flattenAll line, ?_, by rw [flattenAll_closeAll, hadd]⟩
        rw [hrest, ← List.cons_append]
        exact ⟨pieces, _, afterLine rest, rfl, hend, inLine ht, hpieces⟩
  | @header s t rest keyword p header next below statements _ ht hline hbelow hindent _ ih =>
      -- A header, which only an indented block can follow.
      obtain ⟨colon, htokens, hvalid⟩ := logicalLine_eq_ok hline
      obtain ⟨more, hspells, hflatten⟩ := ih
      have hheader := Spells.nil.cons_header hvalid
      rw [← htokens] at hheader
      have hnext := hspells.cons_separator (Token.isLayout_iff.2 (.inr (.inl hindent)))
      obtain ⟨newline, hkind, hrest⟩ := exists_newline_of_afterLine hbelow (by simp [hindent])
      refine ⟨[.block keyword p header []] ++ more, ?_, ?_⟩
      · rw [hrest, ← List.cons_append]
        exact .append_separator hheader (inLine ht) (Token.isLayout_iff.2 (.inl hkind)) hnext
      · rw [hflatten]
        simp [Nesting.enter, flattenOpen]

/-- A parsed script is spelled by its tokens before the end marker. -/
theorem spells_of_parse {body : List Token} {last : Token} {statements : List Statement}
    (hbody : ∀ t ∈ body, t.kind ≠ .endMarker) (hlast : last.kind = .endMarker)
    (h : parse (body ++ [last]) = .ok statements) :
    ∃ pieces, Spells pieces body (flattenAll statements) := by
  obtain ⟨more, ⟨pieces, spelled, rest, htokens, hend, hspelled, hspells⟩, hflatten⟩ :=
    spells_of_nest h
  have hmore : flattenAll statements = more := hflatten
  -- The spelled tokens and the body both go up to the first end marker.
  have hrest : spelled = body := by
    rcases List.append_eq_append_iff.1 htokens with ⟨tail, rfl, htail⟩ | ⟨tail, rfl, rfl⟩
    · cases tail with
      | nil => simp
      | cons t tail =>
          obtain ⟨rfl, -⟩ := List.cons.inj htail
          exact absurd hlast (hspelled last (by simp))
    · cases tail with
      | nil => simp
      | cons t tail => exact absurd (hend t rfl) (hbody t (by simp))
  rw [hmore, ← hrest]
  exact ⟨pieces, hspells⟩

end ScriptSandbox
