import ScriptSandbox.Proofs.Except
import ScriptSandbox.Proofs.Source.Lines

/-!
Statements that are read again. When the tokens of a script are changed, but operators, words of the
language and layout stay what they are and names stay names, the script is read as the same statements
of changed tokens. Only the words that open a block on a line with a colon are names as well, so these
have to stay as they are where they open one.
-/

namespace ScriptSandbox

/-- A change of tokens that keeps names, operators, words of the language and layout apart. -/
structure TokenChange where
  token : Token → Token
  place : Position → Position
  position_eq : ∀ t, (token t).position = place t.position
  kind_iff : ∀ t {kind : TokenKind}, (∀ fields, kind ≠ .string fields) →
    ((token t).kind = kind ↔ t.kind = kind)
  isOperator_eq : ∀ t text, (token t).isOperator text = t.isOperator text
  isIdentifier_eq : ∀ t, (token t).isIdentifier = t.isIdentifier
  isWord_eq : ∀ t {text}, isKeyword text = true → (token t).isWord text = t.isWord text

namespace TokenChange

attribute [simp] position_eq isOperator_eq isIdentifier_eq

variable (c : TokenChange) {first t : Token} {tokens rest : List Token}

/-- No token is spelled in another way. -/
def KeepsTexts : Prop :=
  ∀ t, (c.token t).text = t.text

@[simp] theorem isLayout_eq (t : Token) : (c.token t).isLayout = t.isLayout := by
  rw [Bool.eq_iff_iff, Token.isLayout_iff, Token.isLayout_iff, c.kind_iff t (by simp),
    c.kind_iff t (by simp), c.kind_iff t (by simp)]

@[simp] theorem isInLine_eq (t : Token) : (c.token t).isInLine = t.isInLine := by
  rw [Bool.eq_iff_iff, Token.isInLine, Token.isInLine, Bool.and_eq_true, Bool.and_eq_true, bne_iff_ne,
    bne_iff_ne, bne_iff_ne, bne_iff_ne, ne_eq, ne_eq, ne_eq, ne_eq, c.kind_iff t (by simp),
    c.kind_iff t (by simp)]

theorem text_of_operator (h : t.kind = .operator) : (c.token t).text = t.text := by
  have hsame := c.isOperator_eq t t.text
  rw [Token.isOperator, Token.isOperator, h, (c.kind_iff t (by simp)).2 h] at hsame
  simpa using hsame

/-! ### Imports -/

theorem dottedName_none (h : dottedName tokens = none) : dottedName (tokens.map c.token) = none := by
  fun_induction dottedName tokens with
  | case1 => rfl
  | case2 t hid dot more hdot ih =>
      simp [dottedName, hid, hdot, ih (Option.map_eq_none_iff.1 h)]
  | case3 => cases h
  | case4 => cases h
  | case5 t rest hid =>
      rw [List.map_cons, dottedName.eq_def]
      simp [hid]

theorem dottedName_some {name : String} (h : dottedName tokens = some (name, rest)) :
    ∃ name', dottedName (tokens.map c.token) = some (name', rest.map c.token) ∧
      (c.KeepsTexts → name' = name) := by
  fun_induction dottedName tokens generalizing name rest with
  | case1 => cases h
  | case2 t hid dot more hdot ih =>
      obtain ⟨⟨inner, after⟩, hfound, heq⟩ := Option.map_eq_some_iff.1 h
      cases heq
      obtain ⟨inner', hinner, hsame⟩ := ih hfound
      refine ⟨(c.token t).text ++ "." ++ inner', ?_, fun htexts => by rw [htexts, hsame htexts]⟩
      simp [dottedName, hid, hdot, hinner]
  | case3 t hid dot more hdot =>
      cases h
      refine ⟨(c.token t).text, ?_, fun htexts => htexts t⟩
      simp [dottedName, hid, hdot]
  | case4 t hid =>
      cases h
      refine ⟨(c.token t).text, ?_, fun htexts => htexts t⟩
      simp [dottedName, hid]
  | case5 => cases h

theorem skipAlias_map (h : skipAlias tokens = .ok rest) :
    skipAlias (tokens.map c.token) = .ok (rest.map c.token) := by
  have hword (t : Token) : (c.token t).isWord "as" = t.isWord "as" := c.isWord_eq t (by decide)
  refine skipAlias_eq_ok_iff.2 ?_
  rcases skipAlias_eq_ok_iff.1 h with ⟨word, bound, rfl, has, hbound⟩ | ⟨rfl, hrest⟩
  · exact .inl ⟨c.token word, c.token bound, rfl, (hword word).trans has,
      (c.isIdentifier_eq bound).trans hbound⟩
  · refine .inr ⟨rfl, fun t ht => ?_⟩
    rw [List.head?_map, Option.mem_def, Option.map_eq_some_iff] at ht
    obtain ⟨u, hu, rfl⟩ := ht
    exact (hword u).trans (hrest u hu)

theorem importItems_map {modules : List String} (h : importItems first tokens = .ok modules) :
    ∃ modules', importItems (c.token first) (tokens.map c.token) = .ok modules' ∧
      (c.KeepsTexts → modules' = modules) := by
  fun_induction importItems first tokens generalizing modules with
  | case1 => cases h
  | case2 => cases h
  | case3 tokens name rest hname halias =>
      cases h
      obtain ⟨name', hname', hsame⟩ := c.dottedName_some hname
      exact ⟨[name'], importItems_last hname' (c.skipAlias_map halias),
        fun htexts => by rw [hsame htexts]⟩
  | case4 tokens name rest hname comma more halias hcomma ih =>
      obtain ⟨others, hothers, rfl⟩ := map_eq_ok.1 h
      obtain ⟨name', hname', hsame⟩ := c.dottedName_some hname
      obtain ⟨others', hothers', hsames⟩ := ih hothers
      refine ⟨name' :: others', ?_, fun htexts => by rw [hsame htexts, hsames htexts]⟩
      rw [importItems_comma hname' (c.skipAlias_map halias)
        ((c.isOperator_eq comma ",").trans hcomma), hothers']
      rfl
  | case5 => cases h

@[simp] theorem leadingDots_map (tokens : List Token) : leadingDots (tokens.map c.token) =
    ((leadingDots tokens).1, (leadingDots tokens).2.map c.token) := by
  fun_induction leadingDots tokens with
  | case1 => rfl
  | case2 t rest hdot ih => simp [leadingDots, hdot, ih]
  | case3 t rest hdot hdots ih => simp [leadingDots, hdot, hdots, ih]
  | case4 t rest hdot hdots => simp [leadingDots, hdot, hdots]

theorem isWord_headD (tokens : List Token) {text : String} (h : isKeyword text = true) :
    ((tokens.map c.token).headD (c.token first)).isWord text = (tokens.headD first).isWord text := by
  cases tokens with
  | nil => exact c.isWord_eq first h
  | cons t rest => exact c.isWord_eq t h

theorem parseImportFrom_map {form : LineForm} (h : parseImportFrom first rest = .ok form) :
    ∃ form', parseImportFrom (c.token first) (rest.map c.token) = .ok form' ∧
      (c.KeepsTexts → form' = form) := by
  have himport (tokens : List Token) : ((tokens.map c.token).headD (c.token first)).isWord "import" =
      (tokens.headD first).isWord "import" := c.isWord_headD tokens (by decide)
  unfold parseImportFrom at h ⊢
  simp only [leadingDots_map] at h ⊢
  cases hname : dottedName (leadingDots rest).2 with
  | none =>
      simp only [hname, c.dottedName_none hname, himport] at h ⊢
      split at h
      · cases h
      · rename_i haccepted
        rw [if_neg haccepted]
        cases h
        exact ⟨_, rfl, fun _ => rfl⟩
  | some found =>
      obtain ⟨name', hname', hsame⟩ := c.dottedName_some hname
      simp only [hname, hname', himport, Option.isNone_some, Bool.false_and, Bool.false_or] at h ⊢
      split at h
      · cases h
      · rename_i haccepted
        rw [if_neg haccepted]
        cases h
        exact ⟨_, rfl, fun htexts => by rw [hsame htexts]⟩

theorem lineForm_map {form : LineForm} (h : lineForm first rest = .ok form) :
    ∃ form', lineForm (c.token first) (rest.map c.token) = .ok form' ∧
      (c.KeepsTexts → form' = form) := by
  unfold lineForm at h ⊢
  rw [c.isWord_eq first (by decide), c.isWord_eq first (by decide)]
  split at h
  · rename_i himport
    obtain ⟨modules, hitems, rfl⟩ := map_eq_ok.1 h
    obtain ⟨modules', hitems', hsame⟩ := c.importItems_map hitems
    rw [if_pos himport]
    exact ⟨.importModules modules', map_eq_ok.2 ⟨modules', hitems', rfl⟩,
      fun htexts => by rw [hsame htexts]⟩
  · rename_i himport
    rw [if_neg himport]
    split at h
    · rename_i hfrom
      rw [if_pos hfrom]
      exact c.parseImportFrom_map h
    · rename_i hfrom
      rw [if_neg hfrom]
      exact ⟨form, h, fun _ => rfl⟩

/-! ### Lines -/

@[simp] theorem semicolonSegments_map (tokens : List Token) :
    semicolonSegments (tokens.map c.token) = (semicolonSegments tokens).map (List.map c.token) := by
  fun_induction semicolonSegments tokens with
  | case1 => rfl
  | case2 t rest ht ih => simp [semicolonSegments, ht, ih]
  | case3 t rest ht hnone ih => simp [semicolonSegments, ht, ih, hnone]
  | case4 t rest ht segment more hsegments ih =>
      simp [semicolonSegments, ht, ih, hsegments]

theorem isKeyword_of_mem_blockKeywords : ∀ word ∈ blockKeywords, isKeyword word = true := by
  decide

theorem isBlockKeyword_iff (t : Token) :
    (c.token t).kind = .name ∧ blockKeywords.contains (c.token t).text = true ↔
      t.kind = .name ∧ blockKeywords.contains t.text = true := by
  have hword {u : Token} : u.kind = .name ∧ blockKeywords.contains u.text = true ↔
      ∃ word ∈ blockKeywords, u.isWord word = true := by
    simp only [Token.isWord_iff, List.contains_iff_mem]
    constructor
    · rintro ⟨hname, hmem⟩
      exact ⟨u.text, hmem, hname, rfl⟩
    · rintro ⟨word, hmem, hname, rfl⟩
      exact ⟨hname, hmem⟩
  rw [hword, hword]
  refine exists_congr fun word => and_congr_right fun hmem => ?_
  rw [c.isWord_eq t (isKeyword_of_mem_blockKeywords word hmem)]

theorem opensBlock_map (h : (c.token first).text = first.text) :
    opensBlock ((first :: rest).map c.token) = opensBlock (first :: rest) := by
  have hname : ((c.token first).kind == .name) = (first.kind == .name) := by
    rw [Bool.eq_iff_iff, beq_iff_eq, beq_iff_eq, c.kind_iff first (by simp)]
  simp [opensBlock, hname, h, Option.any_map]

@[simp] theorem findHeaderColon_map (index depth lambdas : Nat) (tokens : List Token) :
    findHeaderColon index depth lambdas (tokens.map c.token) =
      findHeaderColon index depth lambdas tokens := by
  induction tokens generalizing index depth lambdas with
  | nil => rfl
  | cons t rest ih =>
      by_cases hoperator : t.kind = .operator
      · simp only [List.map_cons, findHeaderColon, (c.kind_iff t (by simp)).2 hoperator, hoperator,
          c.text_of_operator hoperator, ih, if_true]
      · have hoperator' := mt (c.kind_iff t (by simp)).1 hoperator
        simp only [List.map_cons, findHeaderColon, hoperator, hoperator', if_false,
          c.isWord_eq t (show isKeyword "lambda" = true by decide), ih]

@[simp] theorem takeWhile_isInLine_map (tokens : List Token) :
    (tokens.map c.token).takeWhile Token.isInLine =
      (tokens.takeWhile Token.isInLine).map c.token := by
  rw [List.takeWhile_map, show Token.isInLine ∘ c.token = Token.isInLine from funext c.isInLine_eq]

@[simp] theorem afterLine_map (tokens : List Token) :
    afterLine (tokens.map c.token) = (afterLine tokens).map c.token := by
  unfold afterLine
  rw [List.dropWhile_map, show Token.isInLine ∘ c.token = Token.isInLine from funext c.isInLine_eq]
  cases tokens.dropWhile Token.isInLine with
  | nil => rfl
  | cons t rest =>
      simp only [List.map_cons, c.kind_iff t (show ∀ fields, TokenKind.newline ≠ .string fields by simp)]
      split <;> rfl

/-- The words that open blocks stay as they are, and no other word becomes one of them. -/
def KeepsHeader (first : Token) (rest : List Token) : Prop :=
  opensBlock (first :: rest) = true ∨ opensBlock ((first :: rest).map c.token) = true →
    (c.token first).text = first.text

theorem KeepsHeader.opensBlock_eq {c : TokenChange} (h : c.KeepsHeader first rest) :
    opensBlock ((first :: rest).map c.token) = opensBlock (first :: rest) := by
  by_cases hopens : opensBlock (first :: rest) = true ∨
      opensBlock ((first :: rest).map c.token) = true
  · exact c.opensBlock_map (h hopens)
  · rw [not_or, Bool.not_eq_true, Bool.not_eq_true] at hopens
    rw [hopens.1, hopens.2]

/-- The words that open blocks stay as they are on all lines of a script. -/
def KeepsBlocks (tokens : List Token) : Prop :=
  ∀ outer first rest, tokens = outer ++ first :: rest → EndsInLayout outer →
    c.KeepsHeader first (rest.takeWhile Token.isInLine)

theorem KeepsBlocks.behind {c : TokenChange} {lead : List Token}
    (h : c.KeepsBlocks (lead ++ t :: tokens)) (ht : t.isLayout = true) : c.KeepsBlocks tokens := by
  rintro outer first rest rfl houter
  exact h (lead ++ t :: outer) first rest (by simp) (endsInLayout_append_cons lead ht houter)

theorem KeepsBlocks.tail {c : TokenChange} (h : c.KeepsBlocks (t :: tokens))
    (ht : t.isLayout = true) : c.KeepsBlocks tokens :=
  (show c.KeepsBlocks ([] ++ t :: tokens) from h).behind ht

end TokenChange

/-! ### Statements -/

/-- A change of tokens, with the forms that lines of changed tokens have. -/
structure Rereading extends TokenChange where
  form : LineForm → List Token → LineForm
  lineForm_eq : ∀ {first rest old}, lineForm first rest = .ok old →
    lineForm (token first) (rest.map token) = .ok (form old ((first :: rest).map token))

namespace Nesting

@[simp] theorem leave_add_enter (s : Nesting) (keyword : String) (p : Position)
    (header : List Token)
    (body : List Statement) :
    ((s.enter keyword p header).add body).leave = s.add [.block keyword p header body] := by
  simp [enter, add, leave]

@[simp] theorem closeAll_leave (s : Nesting) :
    closeAll s.leave.statements s.leave.blocks = closeAll s.statements s.blocks := by
  obtain ⟨blocks, statements⟩ := s
  cases blocks <;> rfl

end Nesting

namespace Rereading

variable (r : Rereading) {first t : Token} {tokens rest : List Token}

def statement : Statement → Statement
  | .line form p tokens => .line (r.form form (tokens.map r.token)) (r.place p) (tokens.map r.token)
  | .block keyword p header body =>
      .block keyword (r.place p) (header.map r.token) (body.map statement)

theorem lineStatement_map {s : Statement} (h : lineStatement first rest = .ok s) :
    lineStatement (r.token first) (rest.map r.token) = .ok (r.statement s) := by
  obtain ⟨form, rfl, hblock, hform⟩ := lineStatement_eq_ok h
  rw [lineStatement_eq_map, r.lineForm_eq hform, r.position_eq, statement]
  exact if_neg (mt (r.isBlockKeyword_iff first).1 hblock)

theorem segmentStatement_map {segment : List Token} {found : Option Statement}
    (h : segmentStatement segment = .ok found) :
    segmentStatement (segment.map r.token) = .ok (found.map r.statement) := by
  cases segment with
  | nil =>
      cases pure_eq_ok.1 h
      rfl
  | cons first rest =>
      obtain ⟨s, hs, rfl⟩ := map_eq_ok.1 h
      exact map_eq_ok.2 ⟨_, r.lineStatement_map hs, rfl⟩

theorem filterMapM_segmentStatement_map {segments : List (List Token)} {statements : List Statement}
    (h : segments.filterMapM segmentStatement = .ok statements) :
    (segments.map (List.map r.token)).filterMapM segmentStatement =
      .ok (statements.map r.statement) := by
  induction segments generalizing statements with
  | nil =>
      cases pure_eq_ok.1 h
      rfl
  | cons segment more ih =>
      rw [List.filterMapM_cons] at h
      obtain ⟨found, hfound, h⟩ := bind_eq_ok.1 h
      rw [List.map_cons, List.filterMapM_cons, r.segmentStatement_map hfound]
      cases found with
      | none => exact ih h
      | some s =>
          obtain ⟨others, hothers, h⟩ := bind_eq_ok.1 h
          cases pure_eq_ok.1 h
          exact bind_eq_ok.2 ⟨_, rfl, bind_eq_ok.2 ⟨_, ih hothers, rfl⟩⟩

theorem lineStatements_map {statements : List Statement} (h : lineStatements tokens = .ok statements) :
    lineStatements (tokens.map r.token) = .ok (statements.map r.statement) := by
  change (semicolonSegments tokens).filterMapM segmentStatement = .ok statements at h
  have hsegments := r.filterMapM_segmentStatement_map h
  rwa [← r.semicolonSegments_map] at hsegments

def logicalLine : LogicalLine → LogicalLine
  | .statements body => .statements (body.map r.statement)
  | .header keyword p tokens => .header keyword (r.place p) (tokens.map r.token)

theorem logicalLine_map {line : LogicalLine} (h : ScriptSandbox.logicalLine first rest = .ok line)
    (hkeeps : r.KeepsHeader first rest) :
    ScriptSandbox.logicalLine (r.token first) (rest.map r.token) = .ok (r.logicalLine line) := by
  unfold ScriptSandbox.logicalLine at h ⊢
  dsimp only at h ⊢
  rw [← List.map_cons, hkeeps.opensBlock_eq]
  split at h
  · rename_i hopens
    obtain ⟨statements, hstatements, h⟩ := bind_eq_ok.1 h
    cases pure_eq_ok.1 h
    rw [if_pos hopens, r.lineStatements_map hstatements]
    rfl
  · rename_i hopens
    have hword : (r.token first).text = first.text := hkeeps (.inl (by simpa using hopens))
    rw [if_neg hopens, headerColon, r.findHeaderColon_map, ← headerColon]
    split at h
    · cases h
    · rename_i colon hcolon
      rw [← List.map_take, ← List.map_drop, List.isEmpty_map, hword, r.position_eq]
      split at h
      · rename_i hempty
        cases pure_eq_ok.1 h
        rw [if_pos hempty]
        rfl
      · rename_i hempty
        obtain ⟨body, hbody, h⟩ := bind_eq_ok.1 h
        cases pure_eq_ok.1 h
        rw [if_neg hempty, r.lineStatements_map hbody]
        simp [logicalLine, statement, bind, Except.bind, pure, Except.pure]

/-! ### Nested blocks -/

/-- The nesting of a script that is read again below the statements `above`, newest first. -/
def nesting (above : List Statement) : List Statement → List OpenBlock → Nesting
  | statements, [] => ⟨[], statements.map r.statement ++ above⟩
  | statements, b :: outer =>
      ((nesting above b.before outer).enter b.keyword (r.place b.position)
        (b.header.map r.token)).add (statements.reverse.map r.statement)

theorem add_nesting (above statements line : List Statement) (blocks : List OpenBlock) :
    (r.nesting above statements blocks).add (line.map r.statement) =
      r.nesting above (line.reverse ++ statements) blocks := by
  cases blocks <;> simp [nesting, Nesting.add, Nesting.enter]

theorem leave_nesting (above : List Statement) (s : Nesting) :
    (r.nesting above s.statements s.blocks).leave =
      r.nesting above s.leave.statements s.leave.blocks := by
  obtain ⟨blocks, statements⟩ := s
  cases blocks with
  | nil => rfl
  | cons b outer =>
      have hadd := r.add_nesting above b.before
        [.block b.keyword b.position b.header statements.reverse] outer
      rw [nesting, Nesting.leave_add_enter]
      simpa [Nesting.leave, statement] using hadd

theorem closeAll_nesting (above statements : List Statement) (blocks : List OpenBlock) :
    Nesting.closeAll (r.nesting above statements blocks).statements
        (r.nesting above statements blocks).blocks =
      above.reverse ++ (Nesting.closeAll statements blocks).map r.statement := by
  induction blocks generalizing statements with
  | nil => simp [nesting, Nesting.closeAll]
  | cons b outer ih =>
      have hleave := r.leave_nesting above ⟨b :: outer, statements⟩
      rw [← Nesting.closeAll_leave, hleave]
      exact ih _

theorem enter_nesting (above : List Statement) (s : Nesting) (keyword : String) (p : Position)
    (header : List Token) :
    (r.nesting above s.statements s.blocks).enter keyword (r.place p) (header.map r.token) =
      r.nesting above (s.enter keyword p header).statements (s.enter keyword p header).blocks := by
  simp [nesting, Nesting.enter, Nesting.add]

theorem nest_of_end (above : List Statement) {s : Nesting} (h : AtEnd tokens) :
    nest (r.nesting above s.statements s.blocks) (tokens.map r.token) =
      .ok (above.reverse ++ (Nesting.closeAll s.statements s.blocks).map r.statement) := by
  rw [nest_of_atEnd, r.closeAll_nesting]
  intro t ht
  rw [List.head?_map, Option.mem_def, Option.map_eq_some_iff] at ht
  obtain ⟨u, hu, rfl⟩ := ht
  exact (r.kind_iff u (by simp)).2 (h u hu)

/-- A script of changed tokens, below other statements, has the same statements of changed tokens,
behind the others. -/
theorem nest_map (above : List Statement) {s : Nesting} {body : List Statement}
    (h : nest s tokens = .ok body) (hkeeps : r.KeepsBlocks tokens) :
    nest (r.nesting above s.statements s.blocks) (tokens.map r.token) =
      .ok (above.reverse ++ body.map r.statement) := by
  have hline' {t : Token} {rest : List Token} {line : LogicalLine}
      (hkeeps : r.KeepsBlocks (t :: rest))
      (hline : ScriptSandbox.logicalLine t (rest.takeWhile Token.isInLine) = .ok line) :
      ScriptSandbox.logicalLine (r.token t) ((rest.map r.token).takeWhile Token.isInLine) =
        .ok (r.logicalLine line) := by
    rw [r.takeWhile_isInLine_map]
    exact r.logicalLine_map hline (hkeeps [] t rest rfl (by simp [EndsInLayout]))
  have hlater {t newline : Token} {rest line after : List Token} (hrest : rest = line ++ newline :: after)
      (hnewline : newline.isLayout = true) (hkeeps : r.KeepsBlocks (t :: rest)) :
      r.KeepsBlocks after := by
    rw [hrest, ← List.cons_append] at hkeeps
    exact hkeeps.behind hnewline
  refine nest_eq_ok_iff.2 ?_
  replace h := nest_eq_ok_iff.1 h
  induction h with
  | final hend => exact nest_eq_ok_iff.1 (r.nest_of_end above hend)
  | dedent hkind _ ih =>
      refine .dedent ((r.kind_iff _ (by simp)).2 hkind) ?_
      rw [r.leave_nesting]
      exact ih (hkeeps.tail (Token.isLayout_iff.2 (.inr (.inr hkind))))
  | newline hkind _ ih =>
      refine .newline ((r.kind_iff _ (by simp)).2 hkind) ?_
      exact ih (hkeeps.tail (Token.isLayout_iff.2 (.inl hkind)))
  | @line s t rest line body hlayout hend hline hnests ih =>
      refine .line ((r.isLayout_eq t).trans hlayout) (mt (r.kind_iff t (by simp)).1 hend)
        (hline' hkeeps hline) ?_
      rw [r.add_nesting, r.afterLine_map]
      -- The words behind the line are kept as well, or nothing stands there.
      rcases afterLine_cases rest with ⟨newline, hkind, hrest⟩ | ⟨-, hafter⟩
      · exact ih (hlater hrest (Token.isLayout_iff.2 (.inl hkind)) hkeeps)
      · rw [hnests.eq_of_atEnd hafter]
        exact nest_eq_ok_iff.1 (r.nest_of_end (s := s.add line) above hafter)
  | @header s t rest keyword p header next below body hlayout hend hline hbelow hindent _ ih =>
      have hbelow' : afterLine (rest.map r.token) = r.token next :: below.map r.token := by
        rw [r.afterLine_map, hbelow, List.map_cons]
      refine .header ((r.isLayout_eq t).trans hlayout) (mt (r.kind_iff t (by simp)).1 hend)
        (hline' hkeeps hline) hbelow' ((r.kind_iff next (by simp)).2 hindent) ?_
      rw [r.enter_nesting]
      obtain ⟨newline, hkind, hrest⟩ := exists_newline_of_afterLine hbelow (by simp [hindent])
      have hnext := hlater hrest (Token.isLayout_iff.2 (.inl hkind)) hkeeps
      exact ih (hnext.tail (Token.isLayout_iff.2 (.inr (.inl hindent))))

end Rereading

end ScriptSandbox
