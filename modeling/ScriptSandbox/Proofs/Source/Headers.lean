import ScriptSandbox.Source.Tree

/-!
Headers of blocks. A header ends at the first colon that stands outside of brackets and belongs to no
lambda. So the colon behind tokens whose brackets are closed and whose lambdas have their colons is
the one that ends a header.
-/

namespace ScriptSandbox

namespace Token

def opensBracket (t : Token) : Bool :=
  t.isOperator "(" || t.isOperator "[" || t.isOperator "\x7b"

def closesBracket (t : Token) : Bool :=
  t.isOperator ")" || t.isOperator "]" || t.isOperator "\x7d"

theorem opensBracket_iff {t : Token} : t.opensBracket = true ↔
    t.kind = .operator ∧ (t.text = "(" ∨ t.text = "[" ∨ t.text = "\x7b") := by
  simp only [opensBracket, Bool.or_eq_true, isOperator_iff, or_assoc, and_or_left]

theorem closesBracket_iff {t : Token} : t.closesBracket = true ↔
    t.kind = .operator ∧ (t.text = ")" ∨ t.text = "]" ∨ t.text = "\x7d") := by
  simp only [closesBracket, Bool.or_eq_true, isOperator_iff, or_assoc, and_or_left]

theorem opensBracket_of_closesBracket {t : Token} (h : t.closesBracket = true) :
    t.opensBracket = false := by
  rw [← Bool.not_eq_true, opensBracket_iff]
  rcases (closesBracket_iff.1 h).2 with htext | htext | htext
  · simp [htext]
  · simp [htext]
  · simp [htext]

theorem not_bracket_of_kind {t : Token} (h : t.kind ≠ .operator) :
    t.opensBracket = false ∧ t.closesBracket = false := by
  constructor
  · rw [Bool.eq_false_iff]
    exact fun hopens => h (opensBracket_iff.1 hopens).1
  · rw [Bool.eq_false_iff]
    exact fun hcloses => h (closesBracket_iff.1 hcloses).1

theorem not_bracket_of_isWord {t : Token} {text : String} (h : t.isWord text = true) :
    t.opensBracket = false ∧ t.closesBracket = false :=
  not_bracket_of_kind (by simp [kind_of_isWord h])

theorem not_bracket_of_colon {t : Token} (h : t.isOperator ":" = true) :
    t.opensBracket = false ∧ t.closesBracket = false := by
  simp [opensBracket, closesBracket, isOperator, (isOperator_iff.1 h).2]

end Token

/-- Tokens in which all brackets are closed that are opened, and no others. -/
inductive Balanced : List Token → Prop
  | nil : Balanced []
  | other {t rest} : t.opensBracket = false → t.closesBracket = false → Balanced rest →
      Balanced (t :: rest)
  | bracketed {opening inner closing rest} : opening.opensBracket = true → Balanced inner →
      closing.closesBracket = true → Balanced rest → Balanced (opening :: inner ++ closing :: rest)

/-- Of tokens outside of brackets: when `pending` lambdas lack their colons before the tokens, then
`behind` lambdas lack them behind the tokens. -/
inductive LambdaColons : Nat → List Token → Nat → Prop
  | nil {pending} : LambdaColons pending [] pending
  | lambda {pending t rest behind} : t.isWord "lambda" = true → LambdaColons (pending + 1) rest behind →
      LambdaColons pending (t :: rest) behind
  | colon {pending t rest behind} : t.isOperator ":" = true → LambdaColons pending rest behind →
      LambdaColons (pending + 1) (t :: rest) behind
  | bracketed {pending opening inner closing rest behind} : opening.opensBracket = true →
      Balanced inner → closing.closesBracket = true → LambdaColons pending rest behind →
      LambdaColons pending (opening :: inner ++ closing :: rest) behind
  | other {pending t rest behind} : t.isWord "lambda" = false → t.isOperator ":" = false →
      t.opensBracket = false → t.closesBracket = false → LambdaColons pending rest behind →
      LambdaColons pending (t :: rest) behind

/-! ### The search for the colon -/

section FindHeaderColon

variable {index depth lambdas : Nat} {t : Token} {rest : List Token}

@[simp] theorem findHeaderColon_opening (h : t.opensBracket = true) :
    findHeaderColon index depth lambdas (t :: rest) =
      findHeaderColon (index + 1) (depth + 1) lambdas rest := by
  obtain ⟨hkind, htext⟩ := Token.opensBracket_iff.1 h
  rw [findHeaderColon, if_pos hkind, if_pos htext]

@[simp] theorem findHeaderColon_closing (h : t.closesBracket = true) :
    findHeaderColon index depth lambdas (t :: rest) =
      findHeaderColon (index + 1) (depth - 1) lambdas rest := by
  obtain ⟨hkind, htext⟩ := Token.closesBracket_iff.1 h
  have hopens := Token.opensBracket_of_closesBracket h
  rw [← Bool.not_eq_true, Token.opensBracket_iff] at hopens
  rw [findHeaderColon, if_pos hkind, if_neg fun htext => hopens ⟨hkind, htext⟩, if_pos htext]

@[simp] theorem findHeaderColon_colon (h : t.isOperator ":" = true) :
    findHeaderColon index 0 lambdas (t :: rest) =
      if lambdas = 0 then some index else findHeaderColon (index + 1) 0 (lambdas - 1) rest := by
  obtain ⟨hkind, htext⟩ := Token.isOperator_iff.1 h
  simp [findHeaderColon, hkind, htext]

@[simp] theorem findHeaderColon_lambda (h : t.isWord "lambda" = true) :
    findHeaderColon index 0 lambdas (t :: rest) =
      findHeaderColon (index + 1) 0 (lambdas + 1) rest := by
  simp [findHeaderColon, Token.kind_of_isWord h, h]

@[simp] theorem findHeaderColon_other (hopens : t.opensBracket = false) (hcloses : t.closesBracket = false)
    (hplain : depth = 0 → t.isWord "lambda" = false ∧ t.isOperator ":" = false) :
    findHeaderColon index depth lambdas (t :: rest) =
      findHeaderColon (index + 1) depth lambdas rest := by
  rw [← Bool.not_eq_true, Token.opensBracket_iff] at hopens
  rw [← Bool.not_eq_true, Token.closesBracket_iff] at hcloses
  rw [findHeaderColon]
  by_cases hkind : t.kind = .operator
  · have hcolon : ¬ (t.text = ":" ∧ depth = 0) := by
      rintro ⟨htext, hdepth⟩
      simpa [Token.isOperator, hkind, htext] using (hplain hdepth).2
    rw [if_pos hkind, if_neg fun h => hopens ⟨hkind, h⟩, if_neg fun h => hcloses ⟨hkind, h⟩,
      if_neg hcolon]
  · have hlambda : ¬ (depth = 0 ∧ t.isWord "lambda" = true) := by
      rintro ⟨hdepth, hword⟩
      rw [(hplain hdepth).1] at hword
      cases hword
    rw [if_neg hkind, if_neg hlambda]

@[simp] theorem findHeaderColon_balanced {inner : List Token} (h : Balanced inner) :
    findHeaderColon index (depth + 1) lambdas (inner ++ rest) =
      findHeaderColon (index + inner.length) (depth + 1) lambdas rest := by
  induction h generalizing index depth rest with
  | nil => rfl
  | other hopens hcloses _ ih => simp [hopens, hcloses, ih, Nat.add_comm, Nat.add_left_comm]
  | bracketed hopening _ hclosing _ ihInner ihMore =>
      simp [hopening, hclosing, ihInner, ihMore, Nat.add_comm, Nat.add_left_comm]

/-- Over a header the search counts the lambdas that lack their colons. -/
theorem findHeaderColon_lambdaColons {header : List Token} {behind : Nat}
    (h : LambdaColons lambdas header behind) :
    findHeaderColon index 0 lambdas (header ++ rest) =
      findHeaderColon (index + header.length) 0 behind rest := by
  induction h generalizing index with
  | nil => rfl
  | lambda hlambda _ ih => simp [hlambda, ih, Nat.add_comm, Nat.add_left_comm]
  | colon hcolon _ ih => simp [hcolon, ih, Nat.add_comm, Nat.add_left_comm]
  | bracketed hopening hinner hclosing _ ih =>
      simp [hopening, hinner, hclosing, ih, Nat.add_comm, Nat.add_left_comm]
  | other hlambda hcolon hopens hcloses _ ih =>
      simp [hlambda, hcolon, hopens, hcloses, ih, Nat.add_comm, Nat.add_left_comm]

end FindHeaderColon

/-- The colon behind a header whose lambdas have their colons ends the header. -/
theorem headerColon_of_lambdaColons {header rest : List Token} {colon : Token}
    (hheader : LambdaColons 0 header 0) (hcolon : colon.isOperator ":" = true) :
    headerColon (header ++ colon :: rest) = some header.length := by
  simp [headerColon, findHeaderColon_lambdaColons hheader, hcolon]

end ScriptSandbox
