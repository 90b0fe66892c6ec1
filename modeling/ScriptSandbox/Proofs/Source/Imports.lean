import Mathlib.Data.List.Nodup
import ScriptSandbox.Proofs.Source.Parsing
import ScriptSandbox.Proofs.Source.TokenStream

/-!
Import statements. The tokens of an `import` are names, dots and commas, so there are no calls and
no strings among them, and what is written there is written in no other statement.
-/

namespace ScriptSandbox

/-- Whether a token can stand in an `import`. -/
def Token.isImportPart (t : Token) : Bool :=
  t.kind == .name || t.isOperator "." || t.isOperator ","

theorem Token.isImportPart_of_isIdentifier {t : Token} (h : t.isIdentifier = true) :
    t.isImportPart = true := by
  simp [isImportPart, kind_of_isIdentifier h]

theorem Token.isImportPart_of_isWord {t : Token} {text : String} (h : t.isWord text = true) :
    t.isImportPart = true := by
  simp [isImportPart, kind_of_isWord h]

theorem Token.isOperator_of_isImportPart {t : Token} (h : t.isImportPart = true) :
    t.isOperator "(" = false := by
  simp only [isImportPart, Bool.or_eq_true, beq_iff_eq] at h
  rcases h with (hname | hdot) | hcomma
  · exact isOperator_of_name hname _
  · exact isOperator_of_ne hdot (by decide)
  · exact isOperator_of_ne hcomma (by decide)

theorem dottedName_eq_some {tokens rest : List Token} {name : String}
    (h : dottedName tokens = some (name, rest)) :
    ∃ read, tokens = read ++ rest ∧ ∀ t ∈ read, t.isImportPart = true := by
  fun_induction dottedName tokens generalizing name rest with
  | case1 => cases h
  | case2 t hid dot more hdot ih =>
      obtain ⟨⟨inner, after⟩, hfound, heq⟩ := Option.map_eq_some_iff.1 h
      cases heq
      obtain ⟨read, rfl, hread⟩ := ih hfound
      refine ⟨t :: dot :: read, rfl, ?_⟩
      simp only [List.forall_mem_cons]
      exact ⟨t.isImportPart_of_isIdentifier hid, by simp [Token.isImportPart, hdot], hread⟩
  | case3 t hid dot more hdot =>
      cases h
      exact ⟨[t], rfl, by simpa using t.isImportPart_of_isIdentifier hid⟩
  | case4 t hid =>
      cases h
      exact ⟨[t], rfl, by simpa using t.isImportPart_of_isIdentifier hid⟩
  | case5 => cases h

theorem skipAlias_eq_ok {tokens rest : List Token} (h : skipAlias tokens = .ok rest) :
    ∃ read, tokens = read ++ rest ∧ ∀ t ∈ read, t.isImportPart = true := by
  rcases skipAlias_eq_ok_iff.1 h with ⟨word, bound, rfl, has, hbound⟩ | ⟨rfl, -⟩
  · refine ⟨[word, bound], rfl, ?_⟩
    simp only [List.forall_mem_cons]
    exact ⟨word.isImportPart_of_isWord has, bound.isImportPart_of_isIdentifier hbound, by simp⟩
  · exact ⟨[], rfl, by simp⟩

theorem importItems_last {first : Token} {tokens rest : List Token} {name : String}
    (hname : dottedName tokens = some (name, rest)) (halias : skipAlias rest = .ok []) :
    importItems first tokens = .ok [name] := by
  rw [importItems.eq_def]
  split
  · simp_all
  · split <;> simp_all

theorem importItems_comma {first comma : Token} {tokens rest more : List Token} {name : String}
    (hname : dottedName tokens = some (name, rest)) (halias : skipAlias rest = .ok (comma :: more))
    (hcomma : comma.isOperator "," = true) :
    importItems first tokens = (importItems first more).map (name :: ·) := by
  rw [importItems.eq_def]
  split
  · simp_all
  · split <;> simp_all

theorem isImportPart_of_importItems {first : Token} {tokens : List Token} {modules : List String}
    (h : importItems first tokens = .ok modules) : ∀ t ∈ tokens, t.isImportPart = true := by
  fun_induction importItems first tokens generalizing modules with
  | case1 => cases h
  | case2 => cases h
  | case3 tokens name rest hname halias =>
      obtain ⟨read, rfl, hread⟩ := dottedName_eq_some hname
      obtain ⟨bound, rfl, hbound⟩ := skipAlias_eq_ok halias
      intro t ht
      rw [List.append_nil] at ht
      rcases List.mem_append.1 ht with ht | ht
      · exact hread t ht
      · exact hbound t ht
  | case4 tokens name rest hname comma more halias hcomma ih =>
      obtain ⟨read, rfl, hread⟩ := dottedName_eq_some hname
      obtain ⟨bound, rfl, hbound⟩ := skipAlias_eq_ok halias
      obtain ⟨others, hothers, -⟩ := map_eq_ok.1 h
      intro t ht
      simp only [List.mem_append, List.mem_cons] at ht
      rcases ht with ht | ht | rfl | ht
      · exact hread t ht
      · exact hbound t ht
      · simp [Token.isImportPart, hcomma]
      · exact ih hothers t ht
  | case5 => cases h

theorem parseImportFrom_eq_ok {first : Token} {rest : List Token} {form : LineForm}
    (h : parseImportFrom first rest = .ok form) :
    ∃ module? level, form = .importFrom module? level := by
  unfold parseImportFrom at h
  dsimp only at h
  split at h
  · dsimp only at h
    split at h
    · cases h
    · cases h
      exact ⟨_, _, rfl⟩
  · dsimp only at h
    split at h
    · cases h
    · cases h
      exact ⟨_, _, rfl⟩

/-- What a line says is told by its first word. -/
theorem lineForm_cases {first : Token} {rest : List Token} {form : LineForm}
    (h : lineForm first rest = .ok form) :
    (first.isWord "import" = true ∧
      ∃ modules, importItems first rest = .ok modules ∧ form = .importModules modules) ∨
    (first.isWord "import" = false ∧ first.isWord "from" = true ∧
      ∃ module? level, parseImportFrom first rest = .ok (.importFrom module? level) ∧
        form = .importFrom module? level) ∨
    first.isWord "import" = false ∧ first.isWord "from" = false ∧ form = .plain := by
  unfold lineForm at h
  split at h
  · rename_i himport
    obtain ⟨modules, hitems, rfl⟩ := map_eq_ok.1 h
    exact .inl ⟨himport, modules, hitems, rfl⟩
  · rename_i himport
    split at h
    · rename_i hfrom
      obtain ⟨module?, level, rfl⟩ := parseImportFrom_eq_ok h
      exact .inr (.inl ⟨Bool.eq_false_iff.2 himport, hfrom, module?, level, h, rfl⟩)
    · rename_i hfrom
      cases h
      exact .inr (.inr ⟨Bool.eq_false_iff.2 himport, Bool.eq_false_iff.2 hfrom, rfl⟩)

theorem lineStatement_eq_importModules {first : Token} {rest : List Token} {modules : List String}
    {p : Position} {tokens : List Token}
    (h : lineStatement first rest = .ok (.line (.importModules modules) p tokens)) :
    tokens = first :: rest ∧ first.isWord "import" = true ∧
      importItems first rest = .ok modules := by
  obtain ⟨form, heq, -, hform⟩ := lineStatement_eq_ok h
  cases heq
  rcases lineForm_cases hform with ⟨himport, _, hitems, ⟨⟩⟩ | ⟨-, -, _, _, -, ⟨⟩⟩ | ⟨-, -, ⟨⟩⟩
  exact ⟨rfl, himport, hitems⟩

theorem isImportPart_of_lineStatement {first : Token} {rest : List Token} {modules : List String}
    {p : Position} {tokens : List Token}
    (h : lineStatement first rest = .ok (.line (.importModules modules) p tokens)) :
    ∀ t ∈ tokens, t.isImportPart = true := by
  obtain ⟨rfl, himport, hitems⟩ := lineStatement_eq_importModules h
  simp only [List.forall_mem_cons]
  exact ⟨first.isImportPart_of_isWord himport, isImportPart_of_importItems hitems⟩

/-- A line of a script is read from its own tokens. -/
theorem Spells.lineStatement_of_mem {pieces : List Piece} {tokens : List Token}
    {statements : List Statement} (h : Spells pieces tokens statements) {form : LineForm}
    {p : Position} {line : List Token} (hline : .line form p line ∈ statements) :
    ∃ first rest, line = first :: rest ∧ lineStatement first rest = .ok (.line form p line) := by
  rw [h.statements_eq] at hline
  obtain ⟨piece, hpiece, hfound⟩ := List.mem_filterMap.1 hline
  cases piece with
  | separator => cases hfound
  | line =>
      cases hfound
      exact h.valid _ hpiece
  | header => cases hfound

/-- A token belongs to an `import` of a script. -/
def InImport (statements : List Statement) (t : Token) : Prop :=
  ∃ modules p tokens, .line (.importModules modules) p tokens ∈ flattenAll statements ∧ t ∈ tokens

/-! ### Parsed scripts -/

/-- A script with its tokens and its statements. -/
structure Script (source : String) (tokens : List Token) (statements : List Statement) : Prop where
  tokenize_eq : tokenize source = .ok tokens
  parse_eq : parse tokens = .ok statements

namespace Script

variable {source : String} {tokens : List Token} {statements : List Statement}

theorem spells (h : Script source tokens statements) :
    ∃ body last pieces, tokens = body ++ [last] ∧ last.isWritten = false ∧
      Spells pieces body (flattenAll statements) := by
  obtain ⟨body, rfl, hbody⟩ := endMarker_of_tokenize h.tokenize_eq
  obtain ⟨pieces, hspells⟩ := spells_of_parse hbody rfl h.parse_eq
  exact ⟨body, _, pieces, rfl, rfl, hspells⟩

/-- A written token stands in at most one statement. -/
theorem eq_of_mem_tokens (h : Script source tokens statements) {first second : Statement}
    (hfirst : first ∈ flattenAll statements) (hsecond : second ∈ flattenAll statements) {t : Token}
    (hwritten : t.isWritten = true) (ht : t ∈ first.tokens) (ht' : t ∈ second.tokens) :
    first = second := by
  obtain ⟨body, last, pieces, rfl, -, hspells⟩ := h.spells
  have hsublist := (hspells.sublist.trans (List.sublist_append_left body [last])).filter
    Token.isWritten
  have hnodup := (nodup_of_tokenize h.tokenize_eq).sublist hsublist
  rw [List.filter_flatMap] at hnodup
  by_contra hne
  have hsymm : Std.Symm (Function.onFun List.Disjoint fun s : Statement =>
      s.tokens.filter Token.isWritten) := ⟨fun _ _ h => List.disjoint_symm h⟩
  have hdisjoint := (List.nodup_flatMap.1 hnodup).2.forall hfirst hsecond hne
  exact hdisjoint (List.mem_filter.2 ⟨ht, hwritten⟩) (List.mem_filter.2 ⟨ht', hwritten⟩)

end Script

end ScriptSandbox
