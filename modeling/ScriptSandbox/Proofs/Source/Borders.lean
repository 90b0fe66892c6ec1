import Mathlib.Data.List.Basic
import Mathlib.Data.List.Find
import ScriptSandbox.Proofs.Source.Extents

/-!
What stands before a number. Lexemes that end where a number `0` begins end there as well when anything
else stands in its place, if only that begins with a character that goes on no blank, line break or
operator. Words and numbers cannot reach up to it, as they would have taken the digit in.
-/

namespace ScriptSandbox

namespace Lexeme

/-- A character that belongs neither to a blank nor to a line break nor to an operator. -/
structure IsBorder (c : Char) : Prop where
  not_gap : isGap c = false
  not_lineEnd : isLineEnd c = false
  not_mem_operator : ∀ operator ∈ operators, c ∉ operator

theorem isBorder_zero : IsBorder '0' :=
  ⟨rfl, rfl, by decide⟩

theorem IsBorder.head?_eq_iff {border c : Char} (h : IsBorder border) (hc : isLineEnd c = true)
    (text more : List Char) : (text ++ border :: more).head? = some c ↔ text.head? = some c := by
  cases text with
  | nil =>
      have hne : border ≠ c := by
        rintro rfl
        rw [h.not_lineEnd] at hc
        cases hc
      simpa using hne
  | cons d text => rfl

theorem IsBorder.find?_operators {border : Char} (h : IsBorder border) (text more : List Char) :
    operators.find? (·.isPrefixOf (text ++ border :: more)) =
      operators.find? (·.isPrefixOf text) :=
  List.find?_congr fun operator hoperator =>
    isPrefixOf_append_cons (h.not_mem_operator operator hoperator) text more

/-- What is found in `n` characters before a text is found there before another text, too, unless it is
broken. -/
def Swapped (n : Nat) (found found' : LexemeKind × Nat) : Prop :=
  found.2 ≤ n → (∀ problem, found.1 ≠ .broken problem) → found' = found

theorem swapped_refl (n : Nat) (found : LexemeKind × Nat) : Swapped n found found :=
  fun _ _ => rfl

theorem swapped_broken {n : Nat} {problem : SyntaxProblem} {length : Nat}
    {found' : LexemeKind × Nat} : Swapped n (.broken problem, length) found' :=
  fun _ hintact => absurd rfl (hintact problem)

theorem Swapped.shift {n i : Nat} {found found' : LexemeKind × Nat} (h : Swapped n found found') :
    Swapped (i + n) (found.1, i + found.2) (found'.1, i + found'.2) := by
  intro hlength hintact
  rw [h (Nat.le_of_add_le_add_left hlength) hintact]

def EndsUnquoted (text : List Char) : Prop :=
  ∀ c ∈ text.getLast?, isQuote c = false

theorem EndsUnquoted.suffix {text rest : List Char} (h : EndsUnquoted text) (hrest : rest <:+ text) :
    EndsUnquoted rest :=
  fun c hc => h c (mem_getLast?_of_suffix hrest hc)

theorem isPrefixOf_quotes_swap {quote : Char} (hquote : isQuote quote = true) {text : List Char}
    (hne : text ≠ []) (hlast : EndsUnquoted text) (x y : List Char) :
    [quote, quote].isPrefixOf (text ++ y) = [quote, quote].isPrefixOf (text ++ x) := by
  match text with
  | [] => exact absurd rfl hne
  | [c] =>
      have hc : (quote == c) = false :=
        beq_eq_false_iff_ne.2 (ne_of_isQuote hquote (hlast c rfl)).symm
      simp only [List.cons_append, List.isPrefixOf, hc, Bool.false_and]
  | c :: d :: text => simp [List.isPrefixOf]

theorem stringKind_swap {quote : Char} (hquote : isQuote quote = true) (formatted : Bool)
    (p : Position) {text : List Char} (hlast : EndsUnquoted text)
    (x y : List Char) : Swapped text.length (stringKind quote formatted p (text ++ x))
      (stringKind quote formatted p (text ++ y)) := by
  intro hlength hintact
  obtain ⟨d, length, fields, rfl, hquotes, hextent⟩ := exists_stringExtent hintact
  have hkind := stringKind_of_stringExtent hquotes hextent
  rw [hkind] at hlength ⊢
  dsimp only at hlength
  -- The closing quotes are among the characters.
  obtain ⟨lead, _, -, hends⟩ := stringExtent_ends hextent
  have hpos := d.length_pos
  have hopening : d.length - 1 ≤ text.length := by omega
  have hswap := isPrefixOf_quotes_swap hquote (List.ne_nil_of_length_pos (by omega)) hlast x y
  refine stringKind_of_stringExtent (hswap.trans hquotes) ?_
  rw [List.take_append_of_le_length hopening, List.drop_append_of_le_length hopening] at hextent ⊢
  exact stringExtent_swap hextent (by rw [List.length_drop]; omega) y

theorem le_classifyWord (p : Position) (c : Char) (rest : List Char) :
    (rest.takeWhile Text.isWordPart).length ≤ (classifyWord p c rest).2 := by
  unfold classifyWord
  extract_lets length word
  split
  · split
    · exact Nat.le_trans (Nat.le_succ length) (Nat.le_add_right (length + 1) _)
    · exact Nat.le_refl length
  · exact Nat.le_refl length

theorem classifyWord_swap (p : Position) (c : Char) {rest : List Char}
    (hlast : EndsUnquoted rest) (x y : List Char) :
    Swapped rest.length (classifyWord p c (rest ++ '0' :: x)) (classifyWord p c (rest ++ y)) := by
  intro hlength
  -- The word ends before the digit, as it could go on with it.
  have hword := takeWhile_length_lt (show Text.isWordPart '0' = true by decide)
    (Nat.le_trans (le_classifyWord p c (rest ++ '0' :: x)) hlength)
  have hswap := takeWhile_swap hword y
  revert hlength
  unfold classifyWord
  rw [hswap]
  generalize ((rest ++ '0' :: x).takeWhile Text.isWordPart).length = length at hword
  dsimp only
  have hle := Nat.le_of_lt hword
  rw [List.take_append_of_le_length hle, List.take_append_of_le_length hle,
    List.drop_append_of_le_length hle, List.drop_append_of_le_length hle]
  cases hdrop : rest.drop length with
  | nil =>
      have hshort := List.drop_eq_nil_iff.1 hdrop
      omega
  | cons quote text =>
      have hlength : rest.length = length + 1 + text.length := by
        have hdrop := congrArg List.length hdrop
        rw [List.length_drop, List.length_cons] at hdrop
        omega
      have hsuffix : text <:+ rest := by
        refine (List.suffix_cons quote text).trans ?_
        rw [← hdrop]
        exact List.drop_suffix length rest
      rw [hlength]
      refine ite_rel (R := Swapped _) Iff.rfl (fun hprefixed => ?_) fun _ => swapped_refl _ _
      rw [Bool.and_eq_true] at hprefixed
      exact (stringKind_swap hprefixed.1 _ _ (hlast.suffix hsuffix) ('0' :: x) y).shift

theorem classify_backslash_swap {border : Char} (hborder : IsBorder border) (p : Position)
    (rest x y : List Char) : Swapped rest.length (classify false p '\\' (rest ++ '0' :: x))
      (classify false p '\\' (rest ++ border :: y)) := by
  rw [classify_backslash, classify_backslash]
  have hhead (text : List Char) {c : Char} (hc : isLineEnd c = true) :=
    (hborder.head?_eq_iff hc text y).trans (isBorder_zero.head?_eq_iff hc text x).symm
  refine ite_rel (R := Swapped _) (hhead rest rfl) (fun _ => swapped_refl _ _) fun _ => ?_
  refine ite_rel (R := Swapped _) (hhead rest rfl) (fun hreturn => ?_) fun _ => swapped_broken
  obtain ⟨rest, rfl⟩ := List.head?_eq_some_iff.1 ((isBorder_zero.head?_eq_iff rfl rest x).1 hreturn)
  simp only [List.cons_append, List.drop_one, List.tail_cons, hhead rest (c := '\n') rfl]
  exact swapped_refl _ _

/-- What is found before a digit is found before every border, too. -/
theorem classify_swap {border c : Char} (hborder : IsBorder border) (p : Position) {rest : List Char}
    (hlast : EndsUnquoted (c :: rest)) (x y : List Char) :
    Swapped rest.length (classify false p c (rest ++ '0' :: x))
      (classify false p c (rest ++ border :: y)) := by
  by_cases hslash : c = '\\'
  · subst hslash
    exact classify_backslash_swap hborder p rest x y
  have hlast' := hlast.suffix (List.suffix_cons c rest)
  have hhead (text : List Char) {c : Char} (hc : isLineEnd c = true) :=
    (hborder.head?_eq_iff hc text y).trans (isBorder_zero.head?_eq_iff hc text x).symm
  unfold classify
  refine ite_rel (R := Swapped _) Iff.rfl (fun _ => ?_) fun _ => ?_
  · rw [takeWhile_append_cons hborder.not_gap, takeWhile_append_cons isBorder_zero.not_gap]
    exact swapped_refl _ _
  refine ite_rel (R := Swapped _) Iff.rfl (fun _ hlength _ => ?_) fun _ => ?_
  · rw [takeWhile_swap (takeWhile_length_lt rfl hlength)]
  refine ite_rel (R := Swapped _) Iff.rfl (fun _ => swapped_refl _ _) fun _ => ?_
  refine ite_rel (R := Swapped _) Iff.rfl (fun _ => ?_) fun _ => ?_
  · simp only [hhead rest (c := '\n') rfl]
    exact swapped_refl _ _
  refine ite_rel (R := Swapped _) Iff.rfl (fun h => absurd h hslash) fun _ => ?_
  refine ite_rel (R := Swapped _) Iff.rfl (fun hquote => ?_) fun hquote => ?_
  · exact stringKind_swap hquote false p hlast' ('0' :: x) (border :: y)
  by_cases hpoint : c = '.' ∧ rest = []
  · -- A point goes on with the digit behind it.
    obtain ⟨rfl, rfl⟩ := hpoint
    intro hlength
    have hlength' : numberLength false '.' ([] ++ '0' :: x) ≤ ([] : List Char).length := hlength
    exact absurd (numberLength_lt rfl hlength') (Nat.not_lt_zero _)
  have hnumber : (c.isDigit || c == '.' && (rest ++ border :: y).head?.any Char.isDigit) = true ↔
      (c.isDigit || c == '.' && (rest ++ '0' :: x).head?.any Char.isDigit) = true := by
    cases rest with
    | nil => simp [show c ≠ '.' from fun h => hpoint ⟨h, rfl⟩]
    | cons d rest => rfl
  refine ite_rel (R := Swapped _) hnumber (fun _ hlength _ => ?_) fun _ => ?_
  · have hlt := numberLength_lt rfl hlength
    cases rest with
    | nil => exact absurd hlt (Nat.not_lt_zero _)
    | cons d rest => exact Prod.ext rfl (numberLength_swap hlt (border :: y))
  refine ite_rel (R := Swapped _) Iff.rfl (fun _ => ?_) fun _ => ?_
  · exact classifyWord_swap p c hlast' x (border :: y)
  · rw [← List.cons_append, ← List.cons_append, hborder.find?_operators,
      isBorder_zero.find?_operators]
    split
    · exact swapped_refl _ _
    · exact swapped_broken

/-- The lexemes of what stands before a digit are the same before every border. -/
theorem split_swap {border : Char} (hborder : IsBorder border) {p : Position} {text x y : List Char}
    (hlast : EndsUnquoted text) {earlier later : List Lexeme}
    (hsplit : split false p [] (text ++ '0' :: x) = earlier ++ later)
    (htext : earlier.flatMap Lexeme.text = text)
    (hintact : ∀ l ∈ earlier, ∀ problem, l.kind ≠ .broken problem) :
    split false p [] (text ++ border :: y) =
      earlier ++ split false (p.after text) [] (border :: y) := by
  induction earlier generalizing p text with
  | nil =>
      subst htext
      rfl
  | cons l earlier ih =>
      cases text with
      | nil =>
          rw [List.nil_append, split_cons] at hsplit
          obtain ⟨rfl, -⟩ := List.cons.inj hsplit
          cases htext
      | cons c rest =>
          obtain ⟨hfirst, hothers⟩ := List.forall_mem_cons.1 hintact
          have hswap := classify_swap hborder p hlast x y
          rw [List.cons_append, split_cons, List.cons_append] at hsplit
          rw [List.cons_append, split_cons]
          generalize classify false p c (rest ++ '0' :: x) = found at hsplit hswap
          obtain ⟨rfl, hlater⟩ := List.cons.inj hsplit
          have hread : found.2 ≤ rest.length := by
            have hlength := congrArg List.length htext
            simp only [List.flatMap_cons, List.length_append, List.length_cons,
              List.length_take] at hlength
            omega
          rw [hswap hread hfirst]
          have htake (more : List Char) : (rest ++ more).take found.2 = rest.take found.2 :=
            List.take_append_of_le_length hread
          have hdrop (more : List Char) :
              (rest ++ more).drop found.2 = rest.drop found.2 ++ more :=
            List.drop_append_of_le_length hread
          simp only [htake, hdrop] at hlater htext ⊢
          have hrest : earlier.flatMap Lexeme.text = rest.drop found.2 := by
            rw [List.flatMap_cons, List.cons_append, List.cons_inj_right] at htext
            rw [← htext, List.drop_left' (by rw [List.length_take]; omega)]
          have hsuffix := (List.drop_suffix found.2 rest).trans (List.suffix_cons c rest)
          rw [ih (hlast.suffix hsuffix) hlater hrest hothers, ← Position.after_append, List.cons_append,
            List.take_append_drop]
          rfl

end Lexeme

end ScriptSandbox
