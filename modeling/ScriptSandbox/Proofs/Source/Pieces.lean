import Mathlib.Data.List.Chain
import ScriptSandbox.Source.Tree

/-!
Pieces of scripts. The tokens of a script fall into pieces one after another: the lines between
separators, the headers of blocks with their colons, and the separators themselves. So every token
is a cut between statements or stands in a statement, and every statement begins behind a cut.
-/

namespace ScriptSandbox

mutual

/-- A statement and all statements inside it, each block without its body. -/
def Statement.flatten : Statement → List Statement
  | .line form p tokens => [.line form p tokens]
  | .block keyword p header body => .block keyword p header [] :: flattenAll body

/-- All statements of a script at any depth, in the order of the text, each block without its
body. -/
def flattenAll : List Statement → List Statement
  | [] => []
  | s :: rest => s.flatten ++ flattenAll rest

end

@[simp] theorem Statement.flatten_line (form : LineForm) (p : Position) (tokens : List Token) :
    (Statement.line form p tokens).flatten = [.line form p tokens] := rfl

@[simp] theorem Statement.flatten_block (keyword : String) (p : Position) (header : List Token)
    (body : List Statement) : (Statement.block keyword p header body).flatten =
      .block keyword p header [] :: flattenAll body := rfl

@[simp] theorem flattenAll_nil : flattenAll [] = [] := rfl

@[simp] theorem flattenAll_cons (s : Statement) (rest : List Statement) :
    flattenAll (s :: rest) = s.flatten ++ flattenAll rest := rfl

@[simp] theorem flattenAll_append (first second : List Statement) :
    flattenAll (first ++ second) = flattenAll first ++ flattenAll second := by
  induction first with
  | nil => rfl
  | cons s rest ih => simp [ih]

/-- A part of the tokens of a script. -/
inductive Piece
  | separator (t : Token)
  | line (form : LineForm) (position : Position) (tokens : List Token)
  | header (keyword : String) (position : Position) (tokens : List Token) (colon : Token)

namespace Piece

def tokens : Piece → List Token
  | separator t => [t]
  | line _ _ tokens => tokens
  | header _ _ tokens colon => tokens ++ [colon]

/-- The statement that is read from a piece. -/
def statement? : Piece → Option Statement
  | separator _ => none
  | line form p tokens => some (.line form p tokens)
  | header keyword p tokens _ => some (.block keyword p tokens [])

/-- What a piece of each kind consists of. -/
def Valid : Piece → Prop
  | separator t => t.isLayout = true ∨ t.isOperator ";" = true
  | line form p tokens =>
      ∃ first rest, tokens = first :: rest ∧ lineStatement first rest = .ok (.line form p tokens)
  | header keyword p tokens colon =>
      colon.isOperator ":" = true ∧ headerColon (tokens ++ [colon]) = some tokens.length ∧
        ∃ first rest, tokens = first :: rest ∧ keyword = first.text ∧ p = first.position

/-- Whether a piece can follow another one: only a separator ends a line. -/
def MayFollow : Piece → Piece → Prop
  | line .., separator _ => True
  | line .., _ => False
  | _, _ => True

end Piece

/-- Tokens that fall into valid pieces, which spell some statements. -/
structure Spells (pieces : List Piece) (tokens : List Token) (statements : List Statement) :
    Prop where
  tokens_eq : tokens = pieces.flatMap Piece.tokens
  statements_eq : statements = pieces.filterMap Piece.statement?
  valid : ∀ piece ∈ pieces, piece.Valid
  linked : pieces.IsChain Piece.MayFollow

namespace Spells

theorem nil : Spells [] [] [] :=
  ⟨rfl, rfl, by simp, .nil⟩

/-- Whatever comes before, a separator may follow it, and whatever comes after may follow it. -/
theorem append_separator {before after : List Piece} {first second : List Token}
    {statements more : List Statement} {t : Token}
    (hfirst : Spells before first statements) (ht : (Piece.separator t).Valid)
    (hsecond : Spells after second more) :
    Spells (before ++ .separator t :: after) (first ++ t :: second) (statements ++ more) := by
  refine ⟨?_, ?_, ?_, ?_⟩
  · simp [hfirst.tokens_eq, hsecond.tokens_eq, Piece.tokens]
  · rw [List.filterMap_append, List.filterMap_cons_none rfl, hfirst.statements_eq,
      hsecond.statements_eq]
  · intro piece hpiece
    rcases List.mem_append.1 hpiece with hpiece | hpiece
    · exact hfirst.valid piece hpiece
    · rcases List.mem_cons.1 hpiece with rfl | hpiece
      · exact ht
      · exact hsecond.valid piece hpiece
  · refine List.isChain_append.2 ⟨hfirst.linked, ?_, ?_⟩
    · refine List.isChain_cons.2 ⟨fun piece hpiece => ?_, hsecond.linked⟩
      trivial
    · intro last hlast next hnext
      cases hnext
      cases last <;> trivial

theorem cons_header {pieces : List Piece} {tokens header : List Token}
    {statements : List Statement} {keyword : String} {p : Position} {colon : Token}
    (hheader : (Piece.header keyword p header colon).Valid)
    (hrest : Spells pieces tokens statements) :
    Spells (.header keyword p header colon :: pieces) (header ++ colon :: tokens)
      (.block keyword p header [] :: statements) := by
  refine ⟨?_, ?_, ?_, ?_⟩
  · simp [hrest.tokens_eq, Piece.tokens]
  · simp [hrest.statements_eq, Piece.statement?]
  · intro piece hpiece
    rcases List.mem_cons.1 hpiece with rfl | hpiece
    · exact hheader
    · exact hrest.valid piece hpiece
  · refine List.isChain_cons.2 ⟨fun piece hpiece => ?_, hrest.linked⟩
    trivial

end Spells

/-! ### Where statements stand -/

/-- Whether a token separates statements. A colon does so behind the header of a block. -/
def Token.isCut (t : Token) : Bool :=
  t.isLayout || t.isOperator ";" || t.isOperator ":"

/-- Whether a statement can begin after some tokens: at the beginning or behind a cut. -/
def EndsInCut (tokens : List Token) : Prop :=
  ∀ t ∈ tokens.getLast?, t.isCut = true

theorem endsInCut_append_singleton {tokens : List Token} {t : Token} (h : t.isCut = true) :
    EndsInCut (tokens ++ [t]) := by
  intro last hlast
  rw [List.getLast?_append, List.getLast?_singleton] at hlast
  cases hlast
  exact h

theorem endsInCut_flatMap {before after : List Piece} {piece : Piece} {s : Statement}
    (hs : piece.statement? = some s) (hvalid : ∀ q ∈ before, q.Valid)
    (hlinked : (before ++ piece :: after).IsChain Piece.MayFollow) :
    EndsInCut (before.flatMap Piece.tokens) := by
  cases before using List.reverseRecOn with
  | nil => simp [EndsInCut]
  | append_singleton before last =>
      have hfollow : last.MayFollow piece :=
        (List.isChain_append.1 hlinked).2.2 last (by simp) piece (by simp)
      rw [List.flatMap_append, List.flatMap_singleton]
      cases last with
      | separator u =>
          apply endsInCut_append_singleton
          rcases hvalid (.separator u) (by simp) with hlayout | hsemicolon
          · simp [Token.isCut, hlayout]
          · simp [Token.isCut, hsemicolon]
      | line =>
          -- Behind a line stands a separator, which is no statement.
          cases piece with
          | separator => cases hs
          | line => exact hfollow.elim
          | header => exact hfollow.elim
      | header keyword p header colon =>
          have hcolon := (hvalid (.header keyword p header colon) (by simp)).1
          rw [Piece.tokens, ← List.append_assoc]
          apply endsInCut_append_singleton
          simp [Token.isCut, hcolon]

theorem Piece.tokens_of_statement? {piece : Piece} {s : Statement} (h : piece.statement? = some s) :
    ∃ colon, piece.tokens = s.tokens ++ colon ∧ ∀ t ∈ colon, piece.Valid → t.isCut = true := by
  cases piece with
  | separator => cases h
  | line form p tokens =>
      cases h
      exact ⟨[], by simp [Piece.tokens], by simp⟩
  | header keyword p header colon =>
      cases h
      refine ⟨[colon], rfl, fun t ht hvalid => ?_⟩
      cases List.mem_singleton.1 ht
      simp [Token.isCut, hvalid.1]

/-- The tokens of the statements, one after another, are tokens of the script in their order. -/
theorem Spells.sublist {pieces : List Piece} {tokens : List Token} {statements : List Statement}
    (h : Spells pieces tokens statements) : (statements.flatMap Statement.tokens).Sublist tokens := by
  rw [h.statements_eq, h.tokens_eq]
  clear h
  induction pieces with
  | nil => simp
  | cons piece rest ih =>
      rw [List.flatMap_cons]
      cases hs : piece.statement? with
      | none =>
          rw [List.filterMap_cons_none hs]
          exact ih.trans (List.sublist_append_right _ _)
      | some s =>
          rw [List.filterMap_cons_some hs, List.flatMap_cons]
          obtain ⟨colon, htokens, -⟩ := Piece.tokens_of_statement? hs
          rw [htokens, List.append_assoc]
          exact (List.Sublist.refl _).append (ih.trans (List.sublist_append_right _ _))

/-- Every statement stands in the script, behind a cut. -/
theorem Spells.statement_at {pieces : List Piece} {tokens : List Token}
    {statements : List Statement} (h : Spells pieces tokens statements) {s : Statement}
    (hs : s ∈ statements) :
    ∃ before after, tokens = before ++ s.tokens ++ after ∧ EndsInCut before := by
  rw [h.statements_eq] at hs
  obtain ⟨piece, hpiece, hfound⟩ := List.mem_filterMap.1 hs
  obtain ⟨before, after, rfl⟩ := List.append_of_mem hpiece
  obtain ⟨colon, htokens, -⟩ := Piece.tokens_of_statement? hfound
  refine ⟨before.flatMap Piece.tokens, colon ++ after.flatMap Piece.tokens, ?_, ?_⟩
  · simp [h.tokens_eq, htokens]
  · exact endsInCut_flatMap hfound (fun q hq => h.valid q (by simp [hq])) h.linked

theorem exists_of_flatMap_eq {α β : Type} {f : α → List β} {pieces : List α} {before after : List β}
    {b : β} (h : pieces.flatMap f = before ++ b :: after) :
    ∃ first a last inner rest, pieces = first ++ a :: last ∧ f a = inner ++ b :: rest ∧
      before = first.flatMap f ++ inner := by
  induction pieces generalizing before with
  | nil => simp at h
  | cons a more ih =>
      rw [List.flatMap_cons] at h
      -- The element stands behind the first piece, or in it unless nothing of the piece is left.
      rcases List.append_eq_append_iff.1 h with ⟨inner, rfl, htail⟩ | ⟨rest, hhead, htail⟩
      · obtain ⟨first, c, last, piece, rest, rfl, hc, rfl⟩ := ih htail
        exact ⟨a :: first, c, last, piece, rest, rfl, hc, by simp⟩
      · cases rest with
        | nil =>
            have hmore : more.flatMap f = [] ++ b :: after := htail.symm
            obtain ⟨first, c, last, piece, rest, rfl, hc, hbefore⟩ := ih hmore
            refine ⟨a :: first, c, last, piece, rest, rfl, hc, ?_⟩
            rw [List.append_nil] at hhead
            rw [List.flatMap_cons, List.append_assoc, ← hbefore, hhead, List.append_nil]
        | cons c rest =>
            cases htail
            exact ⟨[], a, more, before, rest, rfl, hhead, rfl⟩

/-- Every token of the script is a cut or stands in a statement, which begins behind a cut. -/
theorem Spells.token_at {pieces : List Piece} {tokens : List Token} {statements : List Statement}
    (h : Spells pieces tokens statements) {before after : List Token} {t : Token}
    (ht : tokens = before ++ t :: after) :
    t.isCut = true ∨ ∃ s ∈ statements, ∃ outer inner rest, before = outer ++ inner ∧
      s.tokens = inner ++ t :: rest ∧ EndsInCut outer := by
  obtain ⟨first, piece, last, inner, rest, rfl, hpiece, rfl⟩ :=
    exists_of_flatMap_eq (h.tokens_eq.symm.trans ht)
  have hvalid := h.valid piece (by simp)
  cases hs : piece.statement? with
  | none =>
      cases piece with
      | separator u =>
          have hu : [u] = inner ++ t :: rest := hpiece
          obtain ⟨rfl, rfl, rfl⟩ : inner = [] ∧ t = u ∧ rest = [] := by
            simpa [List.singleton_eq_append_iff] using hu
          rcases hvalid with hlayout | hsemicolon
          · exact .inl (by simp [Token.isCut, hlayout])
          · exact .inl (by simp [Token.isCut, hsemicolon])
      | line => cases hs
      | header => cases hs
  | some s =>
      have hmem : s ∈ statements := by
        rw [h.statements_eq]
        exact List.mem_filterMap.2 ⟨piece, by simp, hs⟩
      have hcut := endsInCut_flatMap hs (fun q hq => h.valid q (by simp [hq])) h.linked
      obtain ⟨colon, htokens, hcolon⟩ := Piece.tokens_of_statement? hs
      rw [htokens] at hpiece
      rcases List.append_eq_append_iff.1 hpiece with ⟨more, -, htail⟩ | ⟨more, hhead, htail⟩
      · exact .inl (hcolon t (by simp [htail]) hvalid)
      · cases more with
        | nil =>
            rw [List.nil_append] at htail
            exact .inl (hcolon t (by simp [← htail]) hvalid)
        | cons u more =>
            cases htail
            exact .inr ⟨s, hmem, _, inner, more, rfl, hhead, hcut⟩

end ScriptSandbox
