import Mathlib.Data.List.Infix
import ScriptSandbox.Proofs.Source.Headers
import ScriptSandbox.Proofs.Source.Parsing

/-!
Ends of headers, by counting. Of the tokens outside of brackets only lambdas and colons matter. The
colon behind a header ends it if no colon in the header lacks a lambda before it and no lambda lacks
its colon, and only then. What stands behind that colon is the body, and all before it the header.
-/

namespace ScriptSandbox

/-- The tokens that stand outside of brackets, of which `depth` are open before the tokens. -/
def outsideBrackets (depth : Nat) : List Token → List Token
  | [] => []
  | t :: rest =>
    if t.opensBracket then outsideBrackets (depth + 1) rest
    else if t.closesBracket then outsideBrackets (depth - 1) rest
    else if depth = 0 then t :: outsideBrackets depth rest
    else outsideBrackets depth rest

def lambdasOutside (tokens : List Token) : Nat :=
  (outsideBrackets 0 tokens).countP (·.isWord "lambda")

def colonsOutside (tokens : List Token) : Nat :=
  (outsideBrackets 0 tokens).countP (·.isOperator ":")

/-- Outside of brackets each colon has a lambda before it and each lambda its colon. -/
structure PairsLambdas (tokens : List Token) : Prop where
  colons_le : ∀ before, before <+: tokens → colonsOutside before ≤ lambdasOutside before
  colons_eq : colonsOutside tokens = lambdasOutside tokens

/-! ### Tokens outside of brackets -/

section OutsideBrackets

variable {depth : Nat} {t opening closing : Token} {inner first rest : List Token}

@[simp] theorem outsideBrackets_nil (depth : Nat) : outsideBrackets depth [] = [] := rfl

@[simp] theorem outsideBrackets_opening (h : t.opensBracket = true) :
    outsideBrackets depth (t :: rest) = outsideBrackets (depth + 1) rest := by
  rw [outsideBrackets, if_pos h]

@[simp] theorem outsideBrackets_closing (h : t.closesBracket = true) :
    outsideBrackets depth (t :: rest) = outsideBrackets (depth - 1) rest := by
  rw [outsideBrackets, if_neg (by simp [Token.opensBracket_of_closesBracket h]), if_pos h]

@[simp] theorem outsideBrackets_other (hopens : t.opensBracket = false)
    (hcloses : t.closesBracket = false) :
    outsideBrackets depth (t :: rest) =
      if depth = 0 then t :: outsideBrackets depth rest else outsideBrackets depth rest := by
  rw [outsideBrackets, if_neg (by simp [hopens]), if_neg (by simp [hcloses])]

@[simp] theorem outsideBrackets_balanced (h : Balanced inner) :
    outsideBrackets (depth + 1) (inner ++ rest) = outsideBrackets (depth + 1) rest := by
  induction h generalizing depth rest with
  | nil => rfl
  | other hopens hcloses _ ih => simp [hopens, hcloses, ih]
  | bracketed hopening _ hclosing _ ihInner ihMore => simp [hopening, hclosing, ihInner, ihMore]

theorem outsideBrackets_bracketed (hopening : opening.opensBracket = true) (hinner : Balanced inner)
    (hclosing : closing.closesBracket = true) :
    outsideBrackets 0 (opening :: inner ++ closing :: rest) = outsideBrackets 0 rest := by
  simp [hopening, hinner, hclosing]

@[simp] theorem outsideBrackets_append (h : Balanced first) :
    outsideBrackets 0 (first ++ rest) = outsideBrackets 0 first ++ outsideBrackets 0 rest := by
  induction h with
  | nil => rfl
  | other hopens hcloses _ ih => simp [hopens, hcloses, ih]
  | bracketed hopening hinner hclosing _ _ ih => simp [hopening, hinner, hclosing, ih]

theorem outsideBrackets_prefix_append (before after : List Token) :
    outsideBrackets depth before <+: outsideBrackets depth (before ++ after) := by
  fun_induction outsideBrackets depth before with
  | case1 => exact List.nil_prefix
  | case2 depth t rest hopens ih => simpa [hopens] using ih
  | case3 depth t rest _ hcloses ih => simpa [hcloses] using ih
  | case4 t rest hopens hcloses ih => simpa [hopens, hcloses] using ih
  | case5 depth t rest hopens hcloses hdepth ih => simpa [hopens, hcloses, hdepth] using ih

end OutsideBrackets

/-! ### Counts -/

/-- Of tokens outside of brackets, by numbers: when `pending` lambdas lack their colons before the
tokens, no colon among them lacks a lambda, and `behind` lambdas lack their colons behind them. -/
structure LambdaCounts (pending : Nat) (outside : List Token) (behind : Nat) : Prop where
  colons_le : ∀ before, before <+: outside →
    before.countP (·.isOperator ":") ≤ pending + before.countP (·.isWord "lambda")
  colons_eq : behind + outside.countP (·.isOperator ":") =
    pending + outside.countP (·.isWord "lambda")

namespace LambdaCounts

variable {pending later behind : Nat} {t : Token} {outside : List Token}

theorem nil : LambdaCounts pending [] pending := by
  refine ⟨fun before hbefore => ?_, rfl⟩
  rw [List.prefix_nil.1 hbefore]
  exact Nat.zero_le _

/-- A lambda adds to those that lack their colons and a colon takes one of them away. -/
theorem cons (ht : (later + if t.isOperator ":" then 1 else 0) =
      pending + if t.isWord "lambda" then 1 else 0)
    (h : LambdaCounts later outside behind) : LambdaCounts pending (t :: outside) behind := by
  refine ⟨fun before hbefore => ?_, ?_⟩
  · rcases List.prefix_cons_iff.1 hbefore with rfl | ⟨before, rfl, hmore⟩
    · exact Nat.zero_le _
    · have hle := h.colons_le before hmore
      rw [List.countP_cons, List.countP_cons]
      omega
  · have heq := h.colons_eq
    rw [List.countP_cons, List.countP_cons]
    omega

end LambdaCounts

namespace LambdaColons

variable {pending behind : Nat} {tokens : List Token}

theorem balanced (h : LambdaColons pending tokens behind) : Balanced tokens := by
  induction h with
  | nil => exact .nil
  | lambda hlambda _ ih =>
      obtain ⟨hopens, hcloses⟩ := Token.not_bracket_of_isWord hlambda
      exact .other hopens hcloses ih
  | colon hcolon _ ih =>
      obtain ⟨hopens, hcloses⟩ := Token.not_bracket_of_colon hcolon
      exact .other hopens hcloses ih
  | bracketed hopening hinner hclosing _ ih => exact .bracketed hopening hinner hclosing ih
  | other _ _ hopens hcloses _ ih => exact .other hopens hcloses ih

theorem counts (h : LambdaColons pending tokens behind) :
    LambdaCounts pending (outsideBrackets 0 tokens) behind := by
  induction h with
  | nil => exact .nil
  | lambda hlambda _ ih =>
      obtain ⟨hopens, hcloses⟩ := Token.not_bracket_of_isWord hlambda
      rw [outsideBrackets_other hopens hcloses, if_pos rfl]
      exact ih.cons (by simp [hlambda, Token.kind_of_isWord hlambda])
  | colon hcolon _ ih =>
      obtain ⟨hopens, hcloses⟩ := Token.not_bracket_of_colon hcolon
      rw [outsideBrackets_other hopens hcloses, if_pos rfl]
      exact ih.cons (by simp [hcolon, Token.isWord_of_isOperator hcolon])
  | bracketed hopening hinner hclosing _ ih =>
      rwa [outsideBrackets_bracketed hopening hinner hclosing]
  | other hlambda hcolon hopens hcloses _ ih =>
      rw [outsideBrackets_other hopens hcloses, if_pos rfl]
      exact ih.cons (by simp [hlambda, hcolon])

end LambdaColons

theorem LambdaCounts.pairsLambdas {tokens : List Token}
    (h : LambdaCounts 0 (outsideBrackets 0 tokens) 0) : PairsLambdas tokens := by
  refine ⟨fun before hbefore => ?_, by simpa [colonsOutside, lambdasOutside] using h.colons_eq⟩
  obtain ⟨after, rfl⟩ := hbefore
  simpa [colonsOutside, lambdasOutside] using
    h.colons_le _ (outsideBrackets_prefix_append before after)

/-! ### The two ways of a search -/

/-- The search for the colon passes over the tokens, or it stops at one of them: a colon that belongs
to no lambda. -/
inductive Scan (pending : Nat) : List Token → Prop
  | passed {tokens behind} : LambdaColons pending tokens behind → Scan pending tokens
  | stopped {first colon rest} : LambdaColons pending first 0 → colon.isOperator ":" = true →
      Scan pending (first ++ colon :: rest)

theorem Scan.append_left {pending later : Nat} {rest : List Token} (lead : List Token)
    (hlead : ∀ more behind, LambdaColons later more behind →
      LambdaColons pending (lead ++ more) behind)
    (h : Scan later rest) : Scan pending (lead ++ rest) := by
  cases h with
  | passed hrest => exact .passed (hlead _ _ hrest)
  | stopped hfirst hcolon =>
      rw [← List.append_assoc]
      exact .stopped (hlead _ _ hfirst) hcolon

theorem Balanced.scan {tokens : List Token} (h : Balanced tokens) (pending : Nat) :
    Scan pending tokens := by
  induction h generalizing pending with
  | nil => exact .passed .nil
  | @other t rest hopens hcloses _ ih =>
      cases hlambda : t.isWord "lambda" with
      | true => exact (ih (pending + 1)).append_left [t] fun _ _ => .lambda hlambda
      | false =>
          cases hcolon : t.isOperator ":" with
          | true =>
              cases pending with
              | zero =>
                  rw [← List.nil_append (t :: rest)]
                  exact .stopped .nil hcolon
              | succ pending => exact (ih pending).append_left [t] fun _ _ => .colon hcolon
          | false =>
              exact (ih pending).append_left [t] fun _ _ => .other hlambda hcolon hopens hcloses
  | @bracketed opening inner closing rest hopening hinner hclosing _ _ ih =>
      rw [List.append_cons]
      refine (ih pending).append_left _ fun more behind hmore => ?_
      rw [List.append_assoc, List.singleton_append]
      exact .bracketed hopening hinner hclosing hmore

/-! ### Headers -/

section Headers

variable {header body : List Token} {colon : Token}

/-- No colon is passed over that has no lambda, and none is left to a lambda that lacks it. -/
theorem lambdaColons_iff_pairsLambdas (hheader : Balanced header) :
    LambdaColons 0 header 0 ↔ PairsLambdas header := by
  refine ⟨fun h => h.counts.pairsLambdas, fun hpairs => ?_⟩
  cases hheader.scan 0 with
  | @passed _ behind hpassed =>
      have hcounts := hpassed.counts.colons_eq
      have heq := hpairs.colons_eq
      rw [colonsOutside, lambdasOutside] at heq
      obtain rfl : behind = 0 := by omega
      exact hpassed
  | @stopped first colon rest hfirst hcolon =>
      -- The lambdas before the colon have their colons, so up to it there are more colons.
      have hcounts := hfirst.counts.colons_eq
      obtain ⟨hopens, hcloses⟩ := Token.not_bracket_of_colon hcolon
      have hle : (outsideBrackets 0 first).countP (·.isOperator ":") + 1 ≤
          (outsideBrackets 0 first).countP (·.isWord "lambda") := by
        simpa [colonsOutside, lambdasOutside, hfirst.balanced, hopens, hcloses, hcolon,
          Token.isWord_of_isOperator hcolon] using hpairs.colons_le (first ++ [colon]) ⟨rest, by simp⟩
      omega

/-- The colon behind tokens with closed brackets ends a header only if their lambdas leave it over. -/
theorem headerColon_eq_length_iff (hheader : Balanced header)
    (hcolon : colon.isOperator ":" = true) :
    headerColon (header ++ colon :: body) = some header.length ↔ LambdaColons 0 header 0 := by
  refine ⟨fun hend => ?_, fun h => headerColon_of_lambdaColons h hcolon⟩
  cases hheader.scan 0 with
  | passed hpassed =>
      rw [headerColon, findHeaderColon_lambdaColons hpassed, findHeaderColon_colon hcolon] at hend
      split at hend
      · rename_i hnone
        exact hnone ▸ hpassed
      · -- The colon belongs to a lambda, and a later one is found.
        obtain ⟨before, -, -, -, hlength, -⟩ := findHeaderColon_eq_some hend
        omega
  | stopped hfirst hother =>
      rw [List.append_assoc, List.cons_append, headerColon_of_lambdaColons hfirst hother,
        Option.some.injEq, List.length_append, List.length_cons] at hend
      omega

/-- Behind tokens whose brackets are closed a colon ends the header just if the lambdas before it and
their colons are paired outside of brackets. What stands before it is the header then, and what stands
behind it the body. -/
theorem header_ends_iff (hheader : Balanced header) (hcolon : colon.isOperator ":" = true) :
    (headerColon (header ++ colon :: body) = some header.length ↔ PairsLambdas header) ∧
    (PairsLambdas header → ∀ first rest, header = first :: rest →
      opensBlock (header ++ colon :: body) = true →
        logicalLine first (rest ++ colon :: body) =
          if body = [] then .ok (.header first.text first.position header)
          else (lineStatements body).map fun statements =>
            .statements [.block first.text first.position header statements]) := by
  have hends : headerColon (header ++ colon :: body) = some header.length ↔ PairsLambdas header :=
    (headerColon_eq_length_iff hheader hcolon).trans (lambdaColons_iff_pairsLambdas hheader)
  refine ⟨hends, fun hpairs first rest hfirst hopens => ?_⟩
  have hline : first :: (rest ++ colon :: body) = header ++ colon :: body := by
    rw [hfirst, List.cons_append]
  refine logicalLine_of_headerColon hline ?_ ?_
  · rwa [hline]
  · rw [hline]
    exact hends.2 hpairs

def dictHeader : List Token :=
  [⟨.name, "if", ⟨1, 0⟩⟩, ⟨.name, "lambda", ⟨1, 3⟩⟩, ⟨.operator, ":", ⟨1, 9⟩⟩,
    ⟨.operator, "\x7b", ⟨1, 11⟩⟩, ⟨.name, "x", ⟨1, 12⟩⟩, ⟨.operator, "[", ⟨1, 13⟩⟩,
    ⟨.number, "1", ⟨1, 14⟩⟩, ⟨.operator, ":", ⟨1, 15⟩⟩, ⟨.number, "2", ⟨1, 16⟩⟩,
    ⟨.operator, "]", ⟨1, 17⟩⟩, ⟨.operator, ":", ⟨1, 18⟩⟩, ⟨.number, "3", ⟨1, 20⟩⟩,
    ⟨.operator, "\x7d", ⟨1, 21⟩⟩]

theorem header_ends_behind_dict :
    Balanced dictHeader ∧ PairsLambdas dictHeader ∧
    headerColon (dictHeader ++ ⟨.operator, ":", ⟨1, 22⟩⟩ ::
      [⟨.name, "import", ⟨1, 24⟩⟩, ⟨.name, "os", ⟨1, 31⟩⟩]) = some 13 ∧
    logicalLine ⟨.name, "if", ⟨1, 0⟩⟩ (dictHeader.tail ++ ⟨.operator, ":", ⟨1, 22⟩⟩ ::
      [⟨.name, "import", ⟨1, 24⟩⟩, ⟨.name, "os", ⟨1, 31⟩⟩]) =
        .ok (.statements [.block "if" ⟨1, 0⟩ dictHeader [.line (.importModules ["os"]) ⟨1, 24⟩
          [⟨.name, "import", ⟨1, 24⟩⟩, ⟨.name, "os", ⟨1, 31⟩⟩]]]) := by
  have hslice : Balanced [⟨.number, "1", ⟨1, 14⟩⟩, ⟨.operator, ":", ⟨1, 15⟩⟩,
      ⟨.number, "2", ⟨1, 16⟩⟩] :=
    .other rfl rfl (.other rfl rfl (.other rfl rfl .nil))
  have hheader : Balanced dictHeader :=
    .other rfl rfl (.other rfl rfl (.other rfl rfl
      (.bracketed rfl (.other rfl rfl (.bracketed rfl hslice rfl
        (.other rfl rfl (.other rfl rfl .nil)))) rfl .nil)))
  have hpairs : PairsLambdas dictHeader := by
    have hprefixes : ∀ before ∈ dictHeader.inits, colonsOutside before ≤ lambdasOutside before := by
      decide
    exact ⟨fun before hbefore => hprefixes before ((List.mem_inits _ _).2 hbefore), by decide⟩
  have hbody : lineStatements [⟨.name, "import", ⟨1, 24⟩⟩, ⟨.name, "os", ⟨1, 31⟩⟩] =
      .ok [.line (.importModules ["os"]) ⟨1, 24⟩
        [⟨.name, "import", ⟨1, 24⟩⟩, ⟨.name, "os", ⟨1, 31⟩⟩]] := by
    cbv
  have hcolon : (⟨.operator, ":", ⟨1, 22⟩⟩ : Token).isOperator ":" = true := rfl
  refine ⟨hheader, hpairs, (header_ends_iff hheader hcolon).1.2 hpairs, ?_⟩
  refine ((header_ends_iff hheader hcolon).2 hpairs ⟨.name, "if", ⟨1, 0⟩⟩ dictHeader.tail rfl
    (by decide)).trans ?_
  rw [if_neg (List.cons_ne_nil _ _), hbody]
  rfl

end Headers

end ScriptSandbox
