import ScriptSandbox.Source.Tree

/-!
How tokens are nested. Every script that is parsed is taken apart in the same way: layout token by
layout token, and line by line in between. `Nests` is that way as a relation, and tokens have statements
exactly if they are nested like this. So what every line keeps, by induction on `Nests`, is kept by
every script.
-/

namespace ScriptSandbox

/-! ### Ends of lines -/

def AtEnd (tokens : List Token) : Prop :=
  ∀ t ∈ tokens.head?, t.kind = .endMarker

/-- A logical line goes up to a line end, which is left out, or up to the end of the script. -/
theorem afterLine_cases (tokens : List Token) :
    (∃ newline : Token, newline.kind = .newline ∧
      tokens = tokens.takeWhile Token.isInLine ++ newline :: afterLine tokens) ∨
    tokens = tokens.takeWhile Token.isInLine ++ afterLine tokens ∧ AtEnd (afterLine tokens) := by
  have hcut := List.takeWhile_append_dropWhile (p := Token.isInLine) (l := tokens)
  have hstop := List.head?_dropWhile_not Token.isInLine tokens
  unfold afterLine
  split
  · rename_i t rest hrest
    rw [hrest] at hcut hstop
    split
    · rename_i hkind
      exact .inl ⟨t, hkind, hcut.symm⟩
    · rename_i hkind
      refine .inr ⟨hcut.symm, ?_⟩
      rintro u ⟨⟩
      simpa [Token.isInLine, hkind] using hstop
  · rename_i hrest
    rw [hrest] at hcut
    exact .inr ⟨hcut.symm, by simp [AtEnd]⟩

theorem exists_newline_of_afterLine {rest below : List Token} {next : Token}
    (h : afterLine rest = next :: below) (hnext : next.kind ≠ .endMarker) :
    ∃ newline : Token, newline.kind = .newline ∧
      rest = rest.takeWhile Token.isInLine ++ newline :: next :: below := by
  rcases afterLine_cases rest with ⟨newline, hkind, hrest⟩ | ⟨-, hend⟩
  · exact ⟨newline, hkind, by rwa [h] at hrest⟩
  · rw [h] at hend
    exact absurd (hend next rfl) hnext

theorem afterLine_suffix (tokens : List Token) : afterLine tokens <:+ tokens := by
  rcases afterLine_cases tokens with ⟨newline, -, htokens⟩ | ⟨htokens, -⟩
  · exact ⟨tokens.takeWhile Token.isInLine ++ [newline], by simpa using htokens.symm⟩
  · exact ⟨_, htokens.symm⟩

theorem suffix_of_afterLine {rest below : List Token} {next : Token}
    (h : afterLine rest = next :: below) : below <:+ rest :=
  (List.suffix_cons next below).trans (h ▸ afterLine_suffix rest)

theorem kind_of_mem_takeWhile_isInLine {tokens : List Token} {t : Token}
    (h : t ∈ tokens.takeWhile Token.isInLine) : t.kind ≠ .endMarker := by
  have hline := List.all_eq_true.1 List.all_takeWhile t h
  simp only [Token.isInLine, Bool.and_eq_true, bne_iff_ne] at hline
  exact hline.2

theorem isLayout_of_kinds {t : Token} (hnewline : t.kind ≠ .newline) (hindent : t.kind ≠ .indent)
    (hdedent : t.kind ≠ .dedent) : t.isLayout = false := by
  rw [Bool.eq_false_iff, ne_eq, Token.isLayout_iff]
  rintro (hkind | hkind | hkind)
  · exact hnewline hkind
  · exact hindent hkind
  · exact hdedent hkind

/-! ### What is read next -/

@[simp] theorem length_blocks_leave (s : Nesting) :
    s.leave.blocks.length = s.blocks.length - 1 := by
  obtain ⟨blocks, statements⟩ := s
  cases blocks <;> rfl

section Nest

variable {s : Nesting} {first : Token} {rest : List Token}

theorem nest_of_atEnd {tokens : List Token} (h : AtEnd tokens) :
    nest s tokens = .ok (Nesting.closeAll s.statements s.blocks) := by
  cases tokens with
  | nil => rw [nest]
  | cons t rest =>
      have hkind : t.kind = .endMarker := h t rfl
      rw [nest, hkind]

@[simp] theorem nest_dedent (h : first.kind = .dedent) :
    nest s (first :: rest) = nest s.leave rest := by
  rw [nest, h]

@[simp] theorem nest_newline (h : first.kind = .newline) :
    nest s (first :: rest) = nest s rest := by
  rw [nest, h]

theorem nest_line {line : List Statement} (hlayout : first.isLayout = false)
    (hend : first.kind ≠ .endMarker)
    (hline : logicalLine first (rest.takeWhile Token.isInLine) = .ok (.statements line)) :
    nest s (first :: rest) = nest (s.add line) (afterLine rest) := by
  rw [nest]
  split
  · contradiction
  · simp_all [Token.isLayout]
  · simp_all [Token.isLayout]
  · simp_all [Token.isLayout]
  · simp only [hline]

theorem nest_header {keyword : String} {p : Position} {header below : List Token} {next : Token}
    (hlayout : first.isLayout = false) (hend : first.kind ≠ .endMarker)
    (hline : logicalLine first (rest.takeWhile Token.isInLine) = .ok (.header keyword p header))
    (hbelow : afterLine rest = next :: below) (hindent : next.kind = .indent) :
    nest s (first :: rest) = nest (s.enter keyword p header) below := by
  rw [nest]
  split
  · contradiction
  · simp_all [Token.isLayout]
  · simp_all [Token.isLayout]
  · simp_all [Token.isLayout]
  · simp only [hline]
    split
    · simp_all
    · simp_all

end Nest

/-! ### Nested tokens -/

/-- The tokens behind those that are nested as in `s` are nested so that the script has the statements. -/
inductive Nests : Nesting → List Token → List Statement → Prop
  | final {s tokens} : AtEnd tokens → Nests s tokens (Nesting.closeAll s.statements s.blocks)
  | dedent {s t rest statements} : t.kind = .dedent → Nests s.leave rest statements →
      Nests s (t :: rest) statements
  | newline {s t rest statements} : t.kind = .newline → Nests s rest statements →
      Nests s (t :: rest) statements
  | line {s first rest held statements} : first.isLayout = false → first.kind ≠ .endMarker →
      logicalLine first (rest.takeWhile Token.isInLine) = .ok (.statements held) →
      Nests (s.add held) (afterLine rest) statements → Nests s (first :: rest) statements
  | header {s first rest keyword p tokens next below statements} : first.isLayout = false →
      first.kind ≠ .endMarker →
      logicalLine first (rest.takeWhile Token.isInLine) = .ok (.header keyword p tokens) →
      afterLine rest = next :: below → next.kind = .indent →
      Nests (s.enter keyword p tokens) below statements → Nests s (first :: rest) statements

theorem Nests.nest_eq {s : Nesting} {tokens : List Token} {statements : List Statement}
    (h : Nests s tokens statements) : nest s tokens = .ok statements := by
  induction h with
  | final hend => exact nest_of_atEnd hend
  | dedent ht _ ih => simp [ht, ih]
  | newline ht _ ih => simp [ht, ih]
  | line hlayout hend hline _ ih => rw [nest_line hlayout hend hline, ih]
  | header hlayout hend hline hbelow hindent _ ih =>
      rw [nest_header hlayout hend hline hbelow hindent, ih]

theorem nests_of_nest {s : Nesting} {tokens : List Token} {statements : List Statement}
    (h : nest s tokens = .ok statements) : Nests s tokens statements := by
  fun_induction nest s tokens with
  | case1 s =>
      cases h
      exact .final (by simp [AtEnd])
  | case2 s t rest hkind =>
      cases h
      refine .final ?_
      rintro u ⟨⟩
      exact hkind
  | case3 s t rest hkind ih => exact .dedent hkind (ih h)
  | case4 s t rest hkind ih => exact .newline hkind (ih h)
  | case5 => cases h
  | case6 => cases h
  | case7 s t rest _ line hline hend hdedent hnewline hindent ih =>
      exact .line (isLayout_of_kinds hnewline hindent hdedent) hend hline (ih h)
  | case8 => cases h
  | case9 s t rest _ keyword p header hline next below hbelow hindent hend hdedent hnewline hnone ih =>
      exact .header (isLayout_of_kinds hnewline hnone hdedent) hend hline hbelow hindent (ih h)
  | case10 => cases h

/-- Tokens have statements exactly if they are nested line by line. -/
theorem nest_eq_ok_iff {s : Nesting} {tokens : List Token} {statements : List Statement} :
    nest s tokens = .ok statements ↔ Nests s tokens statements :=
  ⟨nests_of_nest, Nests.nest_eq⟩

theorem Nests.eq_of_atEnd {s : Nesting} {tokens : List Token} {statements : List Statement}
    (h : Nests s tokens statements) (hend : AtEnd tokens) :
    statements = Nesting.closeAll s.statements s.blocks := by
  have hnest := h.nest_eq
  rw [nest_of_atEnd hend] at hnest
  cases hnest
  rfl

end ScriptSandbox
