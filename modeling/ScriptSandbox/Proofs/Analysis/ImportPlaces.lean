import Mathlib.Data.List.TakeWhile
import ScriptSandbox.Proofs.Analysis.Safety
import ScriptSandbox.Proofs.Policy.Agreement
import ScriptSandbox.Proofs.Source.StatementStarts

/-!
Places of imports. Where a simple statement begins, an import is recognized and its module is judged:
at the beginning of a line, behind a semicolon, and behind the colon of a header. The exception is
the body on the line of a `case`: such a line is taken for a statement that opens no block, and what
its body imports goes unseen.
-/

namespace ScriptSandbox

/-! ### Where statements begin in the language -/

/-- A header as the language has it: it begins with a word that opens a block and its brackets are
closed and its lambdas have their colons. A soft word opens a block when something else than an
assignment or an attribute follows it. -/
inductive IsBlockHeader : List Token → Prop
  | hard {first rest} : first.kind = .name → blockKeywords.contains first.text = true →
      LambdaColons 0 (first :: rest) 0 → IsBlockHeader (first :: rest)
  | soft {first second rest} : first.kind = .name → softBlockKeywords.contains first.text = true →
      second.isOperator "=" = false → second.isOperator "." = false →
      LambdaColons 0 (first :: second :: rest) 0 → IsBlockHeader (first :: second :: rest)

/-- A simple statement begins with the tokens `rest`, which go up to the end of their line. Before
them stand the tokens `line` of the same line. -/
inductive StartsStatement : List Token → List Token → Prop
  | beginning {rest} : StartsStatement [] rest
  /-- No header goes on over the semicolon: if the line opens a block, the body has begun. -/
  | semicolon {line t rest} : t.isOperator ";" = true →
      (opensBlock (line ++ t :: rest) = true → ∃ header colon body,
        line = header ++ colon :: body ∧ LambdaColons 0 header 0 ∧ colon.isOperator ":" = true) →
      StartsStatement (line ++ [t]) rest
  | colon {header t rest} : IsBlockHeader header → t.isOperator ":" = true →
      StartsStatement (header ++ [t]) rest

/-- The tokens `rest` are the body of a header on the same line, which begins with a soft word, and
the line does not end in a colon. -/
def InSoftBody (line rest : List Token) : Prop :=
  ∃ header colon, line = header ++ [colon] ∧ IsBlockHeader header ∧ colon.isOperator ":" = true ∧
    (header.head?.any fun t => softBlockKeywords.contains t.text) = true ∧
    (rest.getLast?.any fun t => t.isOperator ":") = false

theorem opensBlock_of_hard {first : Token} {rest : List Token} (hkind : first.kind = .name)
    (hword : blockKeywords.contains first.text = true) : opensBlock (first :: rest) = true := by
  simp [opensBlock, hkind, List.contains_iff_mem.1 hword]

theorem not_blockKeyword_of_soft {text : String} (h : softBlockKeywords.contains text = true) :
    blockKeywords.contains text = false := by
  have hall : ∀ word ∈ softBlockKeywords, blockKeywords.contains word = false := by decide
  exact hall text (List.contains_iff_mem.1 h)

theorem opensBlock_of_soft {first second colon t : Token} {header rest : List Token}
    (hkind : first.kind = .name) (hword : softBlockKeywords.contains first.text = true)
    (hassigns : second.isOperator "=" = false) (hdot : second.isOperator "." = false) :
    opensBlock (first :: second :: header ++ colon :: t :: rest) =
      ((t :: rest).getLast?.any fun t => t.isOperator ":") := by
  have hlast : (second :: (header ++ colon :: t :: rest)).getLast? = (t :: rest).getLast? := by
    rw [List.getLast?_cons, List.getLast?_append, List.getLast?_cons_cons]
    rw [List.getLast?_eq_some_getLast (List.cons_ne_nil t rest)]
    rfl
  rw [List.cons_append, List.cons_append, opensBlock, not_blockKeyword_of_soft hword, hword, hlast,
    hkind]
  simp only [BEq.rfl, Bool.true_and, Bool.false_or, List.head?_cons, Option.any_some, hassigns, hdot,
    Bool.or_false, Bool.not_false, Bool.and_true, List.length_cons, List.length_append]
  rw [decide_eq_true (by omega), Bool.true_and]

theorem statementRegion_of_header {header : List Token} {colon word : Token} {rest : List Token}
    (hheader : IsBlockHeader header) (hcolon : colon.isOperator ":" = true)
    (hsoft : ¬ InSoftBody (header ++ [colon]) (word :: rest)) :
    StatementRegion (header ++ [colon] ++ word :: rest) (header ++ [colon]) (word :: rest) := by
  have hcolons : LambdaColons 0 header 0 := by
    cases hheader with
    | hard _ _ hcolons => exact hcolons
    | soft _ _ _ _ hcolons => exact hcolons
  have hline : header ++ [colon] ++ word :: rest = header ++ colon :: word :: rest := by simp
  refine .body ?_ (hline ▸ headerColon_of_lambdaColons hcolons hcolon) hline (List.cons_ne_nil _ _)
  rw [hline]
  cases hheader with
  | hard hkind hword => exact opensBlock_of_hard hkind hword
  | soft hkind hword hassigns hdot =>
      rw [opensBlock_of_soft hkind hword hassigns hdot]
      by_contra hends
      refine hsoft ⟨_, colon, rfl, .soft hkind hword hassigns hdot hcolons, hcolon, ?_, ?_⟩
      · simpa using hword
      · simpa using hends

theorem InSoftBody.opensBlock {line rest : List Token} {word : Token}
    (h : InSoftBody line (word :: rest)) : opensBlock (line ++ word :: rest) = false := by
  obtain ⟨header, colon, rfl, hheader, -, hsoft, hends⟩ := h
  rw [List.append_assoc, List.singleton_append]
  cases hheader with
  | hard _ hword =>
      rw [not_blockKeyword_of_soft (by simpa using hsoft)] at hword
      cases hword
  | soft hkind hword hassigns hdot => rw [opensBlock_of_soft hkind hword hassigns hdot, hends]

/-! ### What an import names -/

theorem dot_not_mem_of_name {source : String} {tokens : List Token} {t : Token}
    (h : tokenize source = .ok tokens) (ht : t ∈ tokens) (hname : t.kind = .name) :
    '.' ∉ t.text.toList := by
  obtain ⟨l, hl, htoken⟩ := exists_lexeme_of_tokenize h ht (Token.isWritten_of_isName hname)
  exact (lexed_scriptLexemes source).dot_not_mem_of_name hl htoken hname

theorem moduleRoot_of_dottedName {name : Token} {tokens rest : List Token} {path : String}
    (hdot : '.' ∉ name.text.toList) (h : dottedName (name :: tokens) = some (path, rest)) :
    moduleRoot path = name.text := by
  have hname : ∀ c ∈ name.text.toList, (c != '.') = true := by
    intro c hc
    rw [bne_iff_ne]
    rintro rfl
    exact hdot hc
  have hwhole : moduleRoot name.text = name.text := moduleRoot_eq_self_iff.2 hdot
  unfold dottedName at h
  split at h
  · split at h
    · split at h
      · obtain ⟨⟨inner, after⟩, -, heq⟩ := Option.map_eq_some_iff.1 h
        cases heq
        rw [moduleRoot, String.toList_append, String.toList_append, List.append_assoc,
          List.takeWhile_append_of_pos hname]
        simp
      · cases h
        exact hwhole
    · cases h
      exact hwhole
  · cases h

theorem importItems_eq_ok {first : Token} {tokens : List Token} {modules : List String}
    (h : importItems first tokens = .ok modules) :
    ∃ path rest others, dottedName tokens = some (path, rest) ∧ modules = path :: others := by
  unfold importItems at h
  split at h
  · cases h
  · rename_i path rest hname
    split at h
    · cases h
    · cases h
      exact ⟨path, rest, [], hname, rfl⟩
    · split at h
      · obtain ⟨others, -, rfl⟩ := map_eq_ok.1 h
        exact ⟨path, rest, others, hname, rfl⟩
      · cases h

/-- A line that begins with `import` or `from` and a name imports the module with that name as its
root. -/
theorem importOf_mem_of_lineForm {word name : Token} {rest : List Token} {form : LineForm}
    (hword : word.isWord "import" = true ∨ word.isWord "from" = true)
    (hname : name.isIdentifier = true) (hdot : '.' ∉ name.text.toList)
    (h : lineForm word (name :: rest) = .ok form) (p : Position) :
    .importOf name.text p ∈ form.observations p := by
  rcases lineForm_cases h with ⟨-, modules, hitems, rfl⟩ | ⟨-, -, module?, level, hread, rfl⟩ |
    ⟨himport, hfrom, -⟩
  · obtain ⟨path, more, others, hpath, rfl⟩ := importItems_eq_ok hitems
    simp [LineForm.observations, moduleRoot_of_dottedName hdot hpath]
  · have hdots : leadingDots (name :: rest) = (0, name :: rest) := by
      have hnot (text : String) := Token.isOperator_of_name (Token.kind_of_isIdentifier hname) text
      simp [leadingDots, hnot]
    unfold parseImportFrom at hread
    rw [hdots] at hread
    cases hpath : dottedName (name :: rest) with
    | none => simp [hpath] at hread
    | some found =>
        obtain ⟨path, more⟩ := found
        simp only [hpath] at hread
        split at hread
        · cases hread
        · cases hread
          simp [LineForm.observations, moduleRoot_of_dottedName hdot hpath]
  · simp [himport, hfrom] at hword

/-! ### Imports of a script -/

/-- A word that begins an import. -/
def Token.BeginsImport (t : Token) : Prop :=
  t.isWord "import" = true ∨ t.isWord "from" = true

namespace Token.BeginsImport

variable {t : Token}

theorem kind_eq (h : t.BeginsImport) : t.kind = .name := by
  rcases h with h | h
  · exact kind_of_isWord h
  · exact kind_of_isWord h

theorem opensBlock_eq_false (h : t.BeginsImport) (rest : List Token) :
    opensBlock (t :: rest) = false := by
  have htext : t.text = "import" ∨ t.text = "from" := by
    simpa [BeginsImport, isWord, h.kind_eq] using h
  rcases htext with htext | htext
  · simp [opensBlock, htext, blockKeywords, softBlockKeywords]
  · simp [opensBlock, htext, blockKeywords, softBlockKeywords]

end Token.BeginsImport

/-- Where a simple statement begins, a segment begins of the line or of its body, unless the line is
not taken for a block. -/
theorem StartsStatement.region {line rest : List Token} {word : Token}
    (h : StartsStatement line (word :: rest)) (hword : word.BeginsImport)
    (hsoft : ¬ InSoftBody line (word :: rest)) :
    ∃ lead skipped, line = lead ++ skipped ∧ EndsInSemicolon skipped ∧
      StatementRegion (line ++ word :: rest) lead (skipped ++ word :: rest) := by
  cases h with
  | beginning =>
      exact ⟨[], [], rfl, by simp [EndsInSemicolon], .whole (hword.opensBlock_eq_false rest)⟩
  | @semicolon before t _ ht hheader =>
      cases hopens : opensBlock (before ++ t :: word :: rest) with
      | false =>
          refine ⟨[], before ++ [t], rfl, endsInSemicolon_append_singleton ht, ?_⟩
          exact .whole (by simpa using hopens)
      | true =>
          obtain ⟨header, colon, body, rfl, hcolons, hcolon⟩ := hheader hopens
          refine ⟨header ++ [colon], body ++ [t], by simp, endsInSemicolon_append_singleton ht, ?_⟩
          have hend : headerColon (header ++ colon :: (body ++ t :: word :: rest)) =
              some header.length := headerColon_of_lambdaColons hcolons hcolon
          exact .body (by simpa using hopens) (by simpa using hend) (by simp) (by simp)
  | colon hheader hcolon =>
      exact ⟨_, [], by simp, by simp [EndsInSemicolon], statementRegion_of_header hheader hcolon hsoft⟩

theorem beginsImport_of_importOf_mem {pieces : List Piece} {tokens own : List Token}
    {statements : List Statement} {form : LineForm} {p place : Position} {root : String}
    (h : Spells pieces tokens statements) (hline : .line form p own ∈ statements)
    (hroot : .importOf root place ∈ form.observations p) :
    ∃ first rest, own = first :: rest ∧ p = first.position ∧ first.BeginsImport := by
  obtain ⟨first, rest, rfl, hread⟩ := h.lineStatement_of_mem hline
  obtain ⟨form', heq, -, hform⟩ := lineStatement_eq_ok hread
  cases heq
  refine ⟨first, rest, rfl, rfl, ?_⟩
  rcases lineForm_cases hform with ⟨himport, -⟩ | ⟨-, hfrom, -⟩ | ⟨-, -, rfl⟩
  · exact .inl himport
  · exact .inr hfrom
  · cases hroot

namespace Script

variable {source : String} {tokens outer line after : List Token} {statements : List Statement}
  {word name : Token}

theorem import_of_startsStatement (h : Script source tokens statements)
    (htokens : tokens = outer ++ line ++ word :: name :: after) (houter : EndsInLayout outer)
    (hline : ∀ t ∈ line, t.isLayout = false) (hword : word.BeginsImport)
    (hname : name.isIdentifier = true)
    (hstarts : StartsStatement line (word :: name :: after.takeWhile Token.isInLine))
    (hsoft : ¬ InSoftBody line (word :: name :: after.takeWhile Token.isInLine)) :
    ∃ form own, .line form word.position own ∈ flattenAll statements ∧
      .importOf name.text word.position ∈ form.observations word.position := by
  have hinLine : (name :: after).takeWhile Token.isInLine = name :: after.takeWhile Token.isInLine :=
    List.takeWhile_cons_of_pos (Token.isInLine_of_isWritten (Token.isWritten_of_isName
      (Token.kind_of_isIdentifier hname)))
  have hsegment : ((name :: after).takeWhile Token.isInLine).takeWhile
      (fun t => !t.isOperator ";") =
        name :: (after.takeWhile Token.isInLine).takeWhile fun t => !t.isOperator ";" := by
    rw [hinLine, List.takeWhile_cons_of_pos (by simp [Token.isOperator_of_name (Token.kind_of_isIdentifier hname)])]
  obtain ⟨lead, skipped, rfl, hskipped, hregion⟩ := hstarts.region hword hsoft
  have hcut : tokens = outer ++ (lead ++ (skipped ++ [])) ++ word :: name :: after := by
    simpa using htokens
  obtain ⟨first, rest, form, heq, hform, hmem⟩ := h.statement_at hcut houter (by simpa using hline)
    (by simpa [hinLine] using hregion) hskipped (by simp) (Token.isWritten_of_isName hword.kind_eq)
    (Token.isOperator_of_name hword.kind_eq ";")
  rw [hsegment] at heq
  cases heq
  have hname' : name ∈ tokens := by simp [htokens]
  have hdot := dot_not_mem_of_name h.tokenize_eq hname' (Token.kind_of_isIdentifier hname)
  exact ⟨form, _, hmem, importOf_mem_of_lineForm hword hname hdot hform word.position⟩

theorem not_mem_of_tokens_eq (h : Script source tokens statements) {s : Statement}
    (hs : s ∈ flattenAll statements) {lead rest : List Token} {t : Token}
    (htokens : s.tokens = lead ++ t :: rest) (ht : t.isWritten = true) : t ∉ lead := by
  obtain ⟨before, behind, heq, -⟩ := h.tokens_eq_of_mem hs
  have hpart : lead ++ t :: rest <:+: tokens := ⟨before, behind, by rw [heq, htokens]⟩
  have hnodup := (nodup_of_tokenize h.tokenize_eq).sublist (hpart.sublist.filter Token.isWritten)
  rw [List.filter_append, List.filter_cons_of_pos ht] at hnodup
  intro hmem
  exact List.disjoint_of_nodup_append hnodup (List.mem_filter.2 ⟨hmem, ht⟩) List.mem_cons_self

theorem not_importOf_of_inside (h : Script source tokens statements) {s : Statement}
    (hs : s ∈ flattenAll statements) {lead rest : List Token} (hne : lead ≠ [])
    (htokens : s.tokens = lead ++ word :: rest) (hwritten : word.isWritten = true)
    {form : LineForm} {own : List Token} {root : String}
    (hform : .line form word.position own ∈ flattenAll statements) :
    .importOf root word.position ∉ form.observations word.position := by
  intro hroot
  obtain ⟨body, last, pieces, -, -, hspells⟩ := h.spells
  obtain ⟨start, more, rfl, hposition, hstart⟩ := beginsImport_of_importOf_mem hspells hform hroot
  have hin {s : Statement} {t : Token} (hs : s ∈ flattenAll statements) (ht : t ∈ s.tokens) :
      t ∈ tokens := by
    obtain ⟨before, behind, htokens, -⟩ := h.tokens_eq_of_mem hs
    simp [htokens, ht]
  have hword : word ∈ s.tokens := by simp [htokens]
  obtain rfl : word = start := eq_of_position_eq h.tokenize_eq (hin hs hword)
    (hin hform List.mem_cons_self) hwritten (Token.isWritten_of_isName hstart.kind_eq) hposition
  -- The word stands in one statement only, and there it would be the first token as well.
  obtain rfl := h.eq_of_mem_tokens hform hs hwritten List.mem_cons_self hword
  refine h.not_mem_of_tokens_eq hs htokens hwritten ?_
  cases lead with
  | nil => exact absurd rfl hne
  | cons t lead =>
      cases htokens
      exact List.mem_cons_self

theorem not_importOf_of_inSoftBody (h : Script source tokens statements)
    (htokens : tokens = outer ++ line ++ word :: name :: after) (houter : EndsInLayout outer)
    (hline : ∀ t ∈ line, t.isLayout = false) (hword : word.BeginsImport)
    (hname : name.isIdentifier = true)
    (hsoft : InSoftBody line (word :: name :: after.takeWhile Token.isInLine))
    {form : LineForm} {own : List Token} {root : String}
    (hform : .line form word.position own ∈ flattenAll statements) :
    .importOf root word.position ∉ form.observations word.position := by
  have hwritten := Token.isWritten_of_isName hword.kind_eq
  have hinLine : (name :: after).takeWhile Token.isInLine = name :: after.takeWhile Token.isInLine :=
    List.takeWhile_cons_of_pos (Token.isInLine_of_isWritten (Token.isWritten_of_isName
      (Token.kind_of_isIdentifier hname)))
  have hregion := StatementRegion.whole hsoft.opensBlock
  obtain ⟨header, colon, rfl, -, hcolon, -⟩ := hsoft
  -- The line is one region, so the statement with the word has begun before the colon.
  obtain ⟨skipped, lead, hcut, hskipped, hlead⟩ := exists_lastSegment (header ++ [colon])
  have hne : lead ≠ [] := by
    rintro rfl
    have hlast := hskipped colon (by simp [← show header ++ [colon] = skipped by simpa using hcut])
    rw [Token.isOperator_of_ne hcolon (by decide)] at hlast
    cases hlast
  have hbefore : tokens = outer ++ ([] ++ (skipped ++ lead)) ++ word :: name :: after := by
    rw [htokens, hcut, List.nil_append]
  rw [hcut, List.append_assoc] at hregion
  obtain ⟨first, rest, held, heq, -, hmem⟩ := h.statement_at hbefore houter
    (by simpa [hcut] using hline) (by simpa [hinLine] using hregion) hskipped hlead hwritten
    (Token.isOperator_of_name hword.kind_eq ";")
  exact h.not_importOf_of_inside hmem hne heq hwritten hform

end Script

/-! ### Reported imports -/

/-- An issue refuses the import of a module at some place. -/
def Issue.RefusesImport (i : Issue) (root : String) (place : Position) : Prop :=
  (∃ allowed, i.finding = .forbiddenImport root allowed) ∧ i.position = place

variable {p : Policy} {limits : ComplexityLimits} {source root : String} {place : Position}
  {tokens : List Token} {statements : List Statement}

theorem Issue.RefusesImport.isCritical {i : Issue} (h : i.RefusesImport root place) :
    i.isCritical = true := by
  obtain ⟨⟨allowed, hfinding⟩, -⟩ := h
  simp [Issue.isCritical, Finding.isCritical, Finding.kind, hfinding]

theorem Policy.refusesImport_of_judge {o : Observation} {i : Issue} (h : p.judge o = some i)
    (hrefuses : i.RefusesImport root place) : o = .importOf root place := by
  obtain ⟨⟨allowed, hfinding⟩, hposition⟩ := hrefuses
  cases judge_eq_some_iff.1 h with
  | forbiddenImport =>
      simp only [Finding.forbiddenImport.injEq] at hfinding
      rw [hfinding.1, ← hposition]
  | _ => cases hfinding

theorem refusesImport_report {observations : List Observation} (hroot : p.allowsModule root = false) :
    (∃ i ∈ (report p limits source observations).issues, i.RefusesImport root place) ↔
      .importOf root place ∈ observations := by
  constructor
  · rintro ⟨i, hi, hrefuses⟩
    rcases List.mem_append.1 hi with hi | hi
    · obtain ⟨o, ho, hjudge⟩ := List.mem_filterMap.1 hi
      rwa [← Policy.refusesImport_of_judge hjudge hrefuses]
    · have hharmless := isCritical_of_mem_complexityIssues hi
      rw [hrefuses.isCritical] at hharmless
      cases hharmless
  · intro h
    have hjudge : p.judge (.importOf root place) =
        some ⟨.forbiddenImport root p.allowedModules, place⟩ := by
      simp [Policy.judge, hroot]
    exact ⟨_, List.mem_append_left _ (List.mem_filterMap.2 ⟨_, h, hjudge⟩), ⟨_, rfl⟩, rfl⟩

theorem importOf_not_mem_tokensObservations {inField : Field → List Observation}
    (hfield : ∀ f, .importOf root place ∉ inField f) (tokens : List Token) :
    .importOf root place ∉ tokensObservations inField [] tokens := by
  intro hmem
  refine forall_mem_tokensObservations (P := (· ≠ .importOf root place)) (by simp) (by simp)
    (by simp) (fun _ _ f _ o ho heq => ?_) _ hmem rfl
  rw [heq] at ho
  exact hfield f ho

theorem importOf_not_mem_fieldObservations (depth : Nat) (f : Field) :
    .importOf root place ∉ fieldObservations depth f := by
  induction depth generalizing f with
  | zero => simp [fieldObservations]
  | succ depth ih => exact importOf_not_mem_tokensObservations ih _

theorem importOf_mem_blockObservations :
    .importOf root place ∈ blockObservations 0 statements ↔
      ∃ form own, .line form place own ∈ flattenAll statements ∧
        .importOf root place ∈ form.observations place := by
  have hnone (tokens : List Token) : .importOf root place ∉ observeTokens tokens :=
    importOf_not_mem_tokensObservations (fun f => importOf_not_mem_fieldObservations _ f) tokens
  constructor
  · intro ho
    rcases cases_of_mem_blockObservations ho with ⟨⟨⟩⟩ | ⟨⟨⟩⟩ | ⟨form, position, own, hs, ho⟩ | ⟨s, -, ho⟩
    · rcases LineForm.cases_of_mem ho with ⟨_, ⟨⟩, -⟩ | ⟨⟨⟩, -⟩
      exact ⟨form, own, hs, ho⟩
    · exact absurd ho (hnone s.tokens)
  · rintro ⟨form, own, hs, ho⟩
    exact (mem_blockObservations rfl 0 statements).2 ⟨_, hs, List.mem_append_left _ ho⟩

/-- An import that stands where a simple statement begins is recognized, and the script is dangerous
when the module is not allowed. The exception is the body on the line of a soft header: no import is
reported there. -/
theorem import_recognized_iff (limits : ComplexityLimits) {outer line after : List Token}
    {word name : Token} (htokenize : tokenize source = .ok tokens)
    (hparse : parse tokens = .ok statements)
    (htokens : tokens = outer ++ line ++ word :: name :: after) (houter : EndsInLayout outer)
    (hline : ∀ t ∈ line, t.isLayout = false) (hword : word.BeginsImport)
    (hname : name.isIdentifier = true)
    (hstarts : StartsStatement line (word :: name :: after.takeWhile Token.isInLine)) :
    (¬ InSoftBody line (word :: name :: after.takeWhile Token.isInLine) →
      name.text ∈ (analyze p limits source).imports ∧
        (p.allowsModule name.text = false → (analyze p limits source).verdict = .dangerous)) ∧
    (p.allowsModule name.text = false →
      ((∃ i ∈ (analyze p limits source).issues, i.RefusesImport name.text word.position) ↔
        ¬ InSoftBody line (word :: name :: after.takeWhile Token.isInLine))) := by
  have hscript : Script source tokens statements := ⟨htokenize, hparse⟩
  have hanalyze := analyze_of_parse htokenize hparse p limits
  have hobserved : .importOf name.text word.position ∈ blockObservations 0 statements ↔
      ¬ InSoftBody line (word :: name :: after.takeWhile Token.isInLine) := by
    rw [importOf_mem_blockObservations]
    constructor
    · rintro ⟨form, own, hform, hroot⟩ hsoft
      exact hscript.not_importOf_of_inSoftBody htokens houter hline hword hname hsoft hform hroot
    · exact hscript.import_of_startsStatement htokens houter hline hword hname hstarts
  have hrefused (hroot : p.allowsModule name.text = false) :
      (∃ i ∈ (analyze p limits source).issues, i.RefusesImport name.text word.position) ↔
        ¬ InSoftBody line (word :: name :: after.takeWhile Token.isInLine) := by
    rw [hanalyze, refusesImport_report hroot, hobserved]
  refine ⟨fun hsoft => ⟨?_, fun hroot => ?_⟩, hrefused⟩
  · rw [hanalyze]
    exact NameSet.mem_ofList.2 (List.mem_filterMap.2 ⟨_, hobserved.2 hsoft, rfl⟩)
  · obtain ⟨i, hi, hrefuses⟩ := (hrefused hroot).2 hsoft
    exact Report.verdict_eq_dangerous_iff.2 ⟨i, hi, hrefuses.isCritical⟩

theorem import_recognized_in_body :
    "os" ∈ (analyze (.ofTables {}) {} "if x: y; import os\n").imports ∧
    (analyze (.ofTables {}) {} "if x: y; import os\n").verdict = .dangerous ∧
    ∃ i ∈ (analyze (.ofTables {}) {} "if x: y; import os\n").issues, i.RefusesImport "os" ⟨1, 9⟩ := by
  have htokenize : tokenize "if x: y; import os\n" = .ok
      ([] ++ ([⟨.name, "if", ⟨1, 0⟩⟩, ⟨.name, "x", ⟨1, 3⟩⟩, ⟨.operator, ":", ⟨1, 4⟩⟩,
        ⟨.name, "y", ⟨1, 6⟩⟩] ++ [⟨.operator, ";", ⟨1, 7⟩⟩]) ++
        ⟨.name, "import", ⟨1, 9⟩⟩ :: ⟨.name, "os", ⟨1, 16⟩⟩ ::
        [⟨.newline, "\n", ⟨1, 18⟩⟩, ⟨.endMarker, "", ⟨2, 0⟩⟩]) := by decide +kernel
  obtain ⟨statements, hparse⟩ : ∃ statements, parse
      ([] ++ ([⟨.name, "if", ⟨1, 0⟩⟩, ⟨.name, "x", ⟨1, 3⟩⟩, ⟨.operator, ":", ⟨1, 4⟩⟩,
        ⟨.name, "y", ⟨1, 6⟩⟩] ++ [⟨.operator, ";", ⟨1, 7⟩⟩]) ++
        ⟨.name, "import", ⟨1, 9⟩⟩ :: ⟨.name, "os", ⟨1, 16⟩⟩ ::
        [⟨.newline, "\n", ⟨1, 18⟩⟩, ⟨.endMarker, "", ⟨2, 0⟩⟩]) = .ok statements :=
    exists_of_isOk (by decide +kernel)
  have hheader : LambdaColons 0 [⟨.name, "if", ⟨1, 0⟩⟩, ⟨.name, "x", ⟨1, 3⟩⟩] 0 :=
    .other rfl rfl rfl rfl (.other rfl rfl rfl rfl .nil)
  have hstarts : StartsStatement
      ([⟨.name, "if", ⟨1, 0⟩⟩, ⟨.name, "x", ⟨1, 3⟩⟩, ⟨.operator, ":", ⟨1, 4⟩⟩,
        ⟨.name, "y", ⟨1, 6⟩⟩] ++ [⟨.operator, ";", ⟨1, 7⟩⟩])
      [⟨.name, "import", ⟨1, 9⟩⟩, ⟨.name, "os", ⟨1, 16⟩⟩] :=
    .semicolon rfl fun _ => ⟨_, ⟨.operator, ":", ⟨1, 4⟩⟩, [⟨.name, "y", ⟨1, 6⟩⟩], rfl, hheader, rfl⟩
  have hsoft : ¬ InSoftBody
      ([⟨.name, "if", ⟨1, 0⟩⟩, ⟨.name, "x", ⟨1, 3⟩⟩, ⟨.operator, ":", ⟨1, 4⟩⟩,
        ⟨.name, "y", ⟨1, 6⟩⟩] ++ [⟨.operator, ";", ⟨1, 7⟩⟩])
      [⟨.name, "import", ⟨1, 9⟩⟩, ⟨.name, "os", ⟨1, 16⟩⟩] := by
    intro h
    exact absurd h.opensBlock (by decide)
  have hrefused : (Policy.ofTables {}).allowsModule "os" = false := by decide +kernel
  obtain ⟨hrecognized, hreported⟩ := import_recognized_iff {} htokenize hparse rfl
    (by simp [EndsInLayout]) (by decide) (.inl rfl) rfl hstarts
  obtain ⟨himports, hdangerous⟩ := hrecognized hsoft
  exact ⟨himports, hdangerous hrefused, (hreported hrefused).2 hsoft⟩

/-- The body of a `case` on the same line is not looked at for imports. -/
theorem import_hidden_in_case_body :
    ∃ tokens statements, ∃ outer line after : List Token, ∃ word name : Token,
      tokenize "match x:\n    case 1: import urllib\n" = .ok tokens ∧
      parse tokens = .ok statements ∧
      tokens = outer ++ line ++ word :: name :: after ∧ EndsInLayout outer ∧
      (∀ t ∈ line, t.isLayout = false) ∧ word.BeginsImport ∧ name.isIdentifier = true ∧
      StartsStatement line (word :: name :: after.takeWhile Token.isInLine) ∧
      name.text = "urllib" ∧ (Policy.ofTables {}).allowsModule "urllib" = false ∧
      "urllib" ∉ (analyze (.ofTables {}) {} "match x:\n    case 1: import urllib\n").imports ∧
      (analyze (.ofTables {}) {} "match x:\n    case 1: import urllib\n").verdict ≠ .dangerous := by
  have htokenize : tokenize "match x:\n    case 1: import urllib\n" = .ok
      ([⟨.name, "match", ⟨1, 0⟩⟩, ⟨.name, "x", ⟨1, 6⟩⟩, ⟨.operator, ":", ⟨1, 7⟩⟩,
        ⟨.newline, "\n", ⟨1, 8⟩⟩, ⟨.indent, "", ⟨2, 0⟩⟩] ++
        ([⟨.name, "case", ⟨2, 4⟩⟩, ⟨.number, "1", ⟨2, 9⟩⟩] ++ [⟨.operator, ":", ⟨2, 10⟩⟩]) ++
        ⟨.name, "import", ⟨2, 12⟩⟩ :: ⟨.name, "urllib", ⟨2, 19⟩⟩ ::
        [⟨.newline, "\n", ⟨2, 25⟩⟩, ⟨.dedent, "", ⟨3, 0⟩⟩, ⟨.endMarker, "", ⟨3, 0⟩⟩]) := by
    decide +kernel
  obtain ⟨statements, hparse⟩ : ∃ statements, parse
      ([⟨.name, "match", ⟨1, 0⟩⟩, ⟨.name, "x", ⟨1, 6⟩⟩, ⟨.operator, ":", ⟨1, 7⟩⟩,
        ⟨.newline, "\n", ⟨1, 8⟩⟩, ⟨.indent, "", ⟨2, 0⟩⟩] ++
        ([⟨.name, "case", ⟨2, 4⟩⟩, ⟨.number, "1", ⟨2, 9⟩⟩] ++ [⟨.operator, ":", ⟨2, 10⟩⟩]) ++
        ⟨.name, "import", ⟨2, 12⟩⟩ :: ⟨.name, "urllib", ⟨2, 19⟩⟩ ::
        [⟨.newline, "\n", ⟨2, 25⟩⟩, ⟨.dedent, "", ⟨3, 0⟩⟩, ⟨.endMarker, "", ⟨3, 0⟩⟩]) =
          .ok statements :=
    exists_of_isOk (by decide +kernel)
  have hcolons : LambdaColons 0 [⟨.name, "case", ⟨2, 4⟩⟩, ⟨.number, "1", ⟨2, 9⟩⟩] 0 :=
    .other rfl rfl rfl rfl (.other rfl rfl rfl rfl .nil)
  refine ⟨_, statements, _, _, _, _, _, htokenize, hparse, rfl, by simp [EndsInLayout, Token.isLayout],
    by decide, .inl rfl, by decide, .colon (.soft rfl rfl rfl rfl hcolons) rfl, rfl,
    by decide +kernel, ?_, by decide +kernel⟩
  rw [← NameSet.contains_iff]
  decide +kernel

end ScriptSandbox
