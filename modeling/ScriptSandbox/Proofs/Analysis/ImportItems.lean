import ScriptSandbox.Proofs.Analysis.Safety

/-!
The grammar of an import. The word `import` is followed by items between commas, and each of them
is a dotted name with or without an alias. The reader of imports accepts these rows of items and
nothing else. As the tokens of an import are not looked at, nothing can hide among them.
-/

namespace ScriptSandbox

def moduleName (names : List Token) : String :=
  ".".intercalate (names.map Token.text)

/-- Some tokens are an item of an import, which names a module. -/
inductive ImportItem : List Token → String → Prop
  | plain {chain names} : Dotted chain names → ImportItem chain (moduleName names)
  | renamed {chain names word bound} : Dotted chain names → word.isWord "as" = true →
      bound.isIdentifier = true → ImportItem (chain ++ [word, bound]) (moduleName names)

/-- Some tokens are one or more items of an import with commas between them. -/
inductive ImportItems : List Token → List String → Prop
  | last {item name} : ImportItem item name → ImportItems item [name]
  | comma {item name comma rest names} : ImportItem item name → comma.isOperator "," = true →
      ImportItems rest names → ImportItems (item ++ comma :: rest) (name :: names)

namespace Token

variable {t : Token}

theorem isOperator_dot_of_comma (h : t.isOperator "," = true) : t.isOperator "." = false :=
  isOperator_of_ne h (by decide)

end Token

theorem moduleName_cons {chain names : List Token} (t : Token) (h : Dotted chain names) :
    moduleName (t :: names) = t.text ++ "." ++ moduleName names := by
  obtain ⟨next, rest, rfl⟩ := List.exists_cons_of_ne_nil h.names_spec.1
  simp [moduleName, String.intercalate_cons_cons]

theorem Dotted.dottedName_append {chain names rest : List Token} (h : Dotted chain names)
    (hrest : ∀ t ∈ rest.head?, t.isOperator "." = false) :
    dottedName (chain ++ rest) = some (moduleName names, rest) := by
  induction h with
  | @single t ht =>
      cases rest with
      | nil => simp [dottedName, ht, moduleName]
      | cons u rest => simp [dottedName, ht, hrest u rfl, moduleName]
  | @cons t dot chain names ht hdot hinner ih =>
      simp [dottedName, ht, hdot, ih, moduleName_cons t hinner]

theorem dotted_of_dottedName {tokens rest : List Token} {name : String}
    (h : dottedName tokens = some (name, rest)) :
    ∃ chain names, tokens = chain ++ rest ∧ Dotted chain names ∧ name = moduleName names := by
  fun_induction dottedName tokens generalizing name rest with
  | case1 => cases h
  | case2 t ht dot more hdot ih =>
      obtain ⟨⟨inner, after⟩, hfound, heq⟩ := Option.map_eq_some_iff.1 h
      cases heq
      obtain ⟨chain, names, rfl, hchain, rfl⟩ := ih hfound
      exact ⟨t :: dot :: chain, t :: names, rfl, .cons ht hdot hchain,
        (moduleName_cons t hchain).symm⟩
  | case3 t ht dot more hdot =>
      cases h
      exact ⟨[t], [t], rfl, .single ht, by simp [moduleName]⟩
  | case4 t ht =>
      cases h
      exact ⟨[t], [t], rfl, .single ht, by simp [moduleName]⟩
  | case5 => cases h

theorem ImportItem.read {item rest : List Token} {name : String} (h : ImportItem item name)
    (hrest : ∀ t ∈ rest.head?, t.isOperator "," = true) :
    ∃ after, dottedName (item ++ rest) = some (name, after) ∧ skipAlias after = .ok rest := by
  cases h with
  | plain hchain =>
      refine ⟨rest, hchain.dottedName_append fun t ht => Token.isOperator_dot_of_comma (hrest t ht),
        ?_⟩
      exact skipAlias_eq_ok_iff.2
        (.inr ⟨rfl, fun t ht => Token.isWord_of_isOperator (hrest t ht) "as"⟩)
  | @renamed chain names word bound hchain hword hbound =>
      refine ⟨word :: bound :: rest, ?_, skipAlias_eq_ok_iff.2 (.inl ⟨word, bound, rfl, hword, hbound⟩)⟩
      rw [List.append_assoc]
      exact hchain.dottedName_append (by simpa using Token.isOperator_of_name (Token.kind_of_isWord hword) ".")

theorem importItem_of_read {tokens after rest : List Token} {name : String}
    (hname : dottedName tokens = some (name, after)) (halias : skipAlias after = .ok rest) :
    ∃ item, tokens = item ++ rest ∧ ImportItem item name := by
  obtain ⟨chain, names, rfl, hchain, rfl⟩ := dotted_of_dottedName hname
  rcases skipAlias_eq_ok_iff.1 halias with ⟨word, bound, rfl, hword, hbound⟩ | ⟨rfl, -⟩
  · exact ⟨chain ++ [word, bound], by simp, .renamed hchain hword hbound⟩
  · exact ⟨chain, rfl, .plain hchain⟩

theorem ImportItems.importItems_eq {tokens : List Token} {modules : List String}
    (h : ImportItems tokens modules) (first : Token) : importItems first tokens = .ok modules := by
  induction h with
  | last hitem =>
      have hend : ∀ t ∈ ([] : List Token).head?, t.isOperator "," = true := by simp
      obtain ⟨after, hname, halias⟩ := hitem.read hend
      rw [List.append_nil] at hname
      exact importItems_last hname halias
  | @comma item name comma rest names hitem hcomma _ ih =>
      have hnext : ∀ t ∈ (comma :: rest).head?, t.isOperator "," = true := by simpa using hcomma
      obtain ⟨after, hname, halias⟩ := hitem.read hnext
      rw [importItems_comma hname halias hcomma, ih]
      rfl

theorem importItems_of_eq_ok {first : Token} {tokens : List Token} {modules : List String}
    (h : importItems first tokens = .ok modules) : ImportItems tokens modules := by
  fun_induction importItems first tokens generalizing modules with
  | case1 => cases h
  | case2 => cases h
  | case3 tokens name rest hname halias =>
      cases h
      obtain ⟨item, rfl, hitem⟩ := importItem_of_read hname halias
      simpa using ImportItems.last hitem
  | case4 tokens name rest hname comma more halias hcomma ih =>
      obtain ⟨item, rfl, hitem⟩ := importItem_of_read hname halias
      obtain ⟨others, hothers, rfl⟩ := map_eq_ok.1 h
      exact .comma hitem hcomma (ih hothers)
  | case5 => cases h

/-- The tokens after the word `import` are accepted just when they are items between commas, and
the modules are the ones that the items name. What is not looked at in a script is such a row of
items and the word before it. -/
theorem parseImport_accepts_items :
    (∀ first rest form, parseImport first rest = .ok form ↔
      ∃ modules, form = .importModules modules ∧ ImportItems rest modules) ∧
    ∀ source tokens statements, Script source tokens statements → ∀ form p line,
      .line form p line ∈ flattenAll statements → form.showsTokens = false →
        ∃ word items modules, line = word :: items ∧ word.isWord "import" = true ∧
          form = .importModules modules ∧ ImportItems items modules := by
  refine ⟨fun first rest form => ?_, fun source tokens statements h form p line hline hshows => ?_⟩
  · constructor
    · intro hform
      obtain ⟨modules, hitems, rfl⟩ := map_eq_ok.1 hform
      exact ⟨modules, rfl, importItems_of_eq_ok hitems⟩
    · rintro ⟨modules, rfl, hitems⟩
      exact map_eq_ok.2 ⟨modules, hitems.importItems_eq first, rfl⟩
  · obtain ⟨modules, _, _, heq⟩ := Statement.showsTokens_eq_false (s := .line form p line) hshows
    cases heq
    obtain ⟨body, last, pieces, -, -, hspells⟩ := h.spells
    obtain ⟨first, rest, rfl, hread⟩ := hspells.lineStatement_of_mem hline
    obtain ⟨-, himport, hitems⟩ := lineStatement_eq_importModules hread
    exact ⟨first, rest, modules, rfl, himport, rfl, importItems_of_eq_ok hitems⟩

theorem items_between_import_and_semicolon :
    ∃ tokens statements, Script "import os.path as p, sys; x\n" tokens statements ∧
      ∃ items, ImportItems items ["os.path", "sys"] ∧
        items.map Token.text = ["os", ".", "path", "as", "p", ",", "sys"] := by
  let items : List Token := [⟨.name, "os", ⟨1, 7⟩⟩, ⟨.operator, ".", ⟨1, 9⟩⟩,
    ⟨.name, "path", ⟨1, 10⟩⟩, ⟨.name, "as", ⟨1, 15⟩⟩, ⟨.name, "p", ⟨1, 18⟩⟩,
    ⟨.operator, ",", ⟨1, 19⟩⟩, ⟨.name, "sys", ⟨1, 21⟩⟩]
  let word : Token := ⟨.name, "import", ⟨1, 0⟩⟩
  let other : Token := ⟨.name, "x", ⟨1, 26⟩⟩
  have hscript : Script "import os.path as p, sys; x\n"
      (word :: items ++ [⟨.operator, ";", ⟨1, 24⟩⟩, other, ⟨.newline, "\n", ⟨1, 27⟩⟩,
        ⟨.endMarker, "", ⟨2, 0⟩⟩])
      [.line (.importModules ["os.path", "sys"]) ⟨1, 0⟩ (word :: items),
        .line .plain ⟨1, 26⟩ [other]] :=
    ⟨by decide +kernel, by cbv⟩
  obtain ⟨_, _, _, heq, -, hform, hitems⟩ := parseImport_accepts_items.2 _ _ _ hscript
    (.importModules ["os.path", "sys"]) ⟨1, 0⟩ (word :: items)
    (by simp ) rfl
  cases heq
  cases hform
  exact ⟨_, _, hscript, items, hitems, rfl⟩

end ScriptSandbox
