import ScriptSandbox.Proofs.Source.Parsing
import ScriptSandbox.Proofs.Source.TokenStream

/-!
Tokens outside of statements. The tokens of a script are those of the statements in its tree, in their
order, each statement with one more token behind it, and some tokens behind no statement. The token
behind a block's header is the colon that ends the header. All others are layout, the end marker or
semicolons. So what is written in a script and is missing from its tree says nothing.
-/

namespace ScriptSandbox

def Statement.isBlock : Statement → Bool
  | line .. => false
  | block .. => true

/-- A token that stands in no statement, and the statement that it comes right behind, if it does. -/
structure Closing where
  statement? : Option Statement
  token : Token

namespace Closing

def tokens (c : Closing) : List Token :=
  c.statement?.elim [] Statement.tokens ++ [c.token]

/-- Whether the token may stand behind the statement. Behind a header this is the colon that ends the
header. -/
def Fits (c : Closing) : Prop :=
  match c.statement? with
  | some (.block _ _ header _) =>
      c.token.isOperator ":" = true ∧ headerColon (header ++ [c.token]) = some header.length
  | _ => c.token.kind ∈ [.newline, .indent, .dedent, .endMarker] ∨ c.token.isOperator ";" = true

end Closing

/-- Nothing of a script is lost in its tree. The statements' own tokens, those of a block before the
ones of its body, are tokens of the script in their order. The missing ones are closings, among which
there are as many colons as there are blocks. -/
structure KeptIn (tokens : List Token) (statements : List Statement) : Prop where
  sublist : ((flattenAll statements).flatMap Statement.tokens).Sublist tokens
  closings : ∃ closings : List Closing,
    tokens = closings.flatMap Closing.tokens ∧
      flattenAll statements = closings.filterMap Closing.statement? ∧
      (∀ c ∈ closings, c.Fits) ∧
      closings.countP (·.token.isOperator ":") = (flattenAll statements).countP Statement.isBlock

/-! ### Closings of pieces -/

namespace Piece

/-- The closings among some pieces that `last` comes behind. -/
def closings (last : Token) : List Piece → List Closing
  | [] => [⟨none, last⟩]
  | separator t :: rest => ⟨none, t⟩ :: closings last rest
  | header keyword p tokens colon :: rest =>
    ⟨some (.block keyword p tokens []), colon⟩ :: closings last rest
  | line form p tokens :: separator t :: rest =>
    ⟨some (.line form p tokens), t⟩ :: closings last rest
  | line form p tokens :: _ => [⟨some (.line form p tokens), last⟩]

theorem eq_nil_of_isChain {form : LineForm} {p : Position} {tokens : List Token}
    {rest : List Piece} (h : (line form p tokens :: rest).IsChain MayFollow)
    (hrest : ∀ t more, rest = separator t :: more → False) : rest = [] := by
  cases rest with
  | nil => rfl
  | cons next more =>
      have hfollow := (List.isChain_cons_cons.1 h).1
      cases next with
      | separator t => exact (hrest t more rfl).elim
      | line => exact hfollow.elim
      | header => exact hfollow.elim

variable {last : Token} {pieces : List Piece}

theorem flatMap_closings (h : pieces.IsChain MayFollow) :
    (closings last pieces).flatMap Closing.tokens = pieces.flatMap tokens ++ [last] := by
  fun_induction closings last pieces with
  | case1 => rfl
  | case2 t rest ih =>
      rw [List.flatMap_cons, List.flatMap_cons, ih h.tail]
      rfl
  | case3 keyword p tokens colon rest ih =>
      rw [List.flatMap_cons, List.flatMap_cons, ih h.tail, List.append_assoc]
      rfl
  | case4 form p tokens t rest ih =>
      rw [List.flatMap_cons, List.flatMap_cons, List.flatMap_cons, ih h.tail.tail]
      simp [Closing.tokens, Piece.tokens]
  | case5 form p tokens rest hrest =>
      obtain rfl := eq_nil_of_isChain h hrest
      simp [Closing.tokens, Piece.tokens]

theorem filterMap_closings (h : pieces.IsChain MayFollow) :
    (closings last pieces).filterMap Closing.statement? = pieces.filterMap statement? := by
  fun_induction closings last pieces with
  | case1 => rfl
  | case2 t rest ih => exact ih h.tail
  | case3 keyword p tokens colon rest ih =>
      exact congrArg (.block keyword p tokens [] :: ·) (ih h.tail)
  | case4 form p tokens t rest ih => exact congrArg (.line form p tokens :: ·) (ih h.tail.tail)
  | case5 form p tokens rest hrest =>
      obtain rfl := eq_nil_of_isChain h hrest
      rfl

theorem fits_of_valid_separator {t : Token} (h : (separator t).Valid) :
    t.kind ∈ [.newline, .indent, .dedent, .endMarker] ∨ t.isOperator ";" = true := by
  refine h.imp_left fun hlayout => ?_
  unfold Token.isLayout at hlayout
  split at hlayout <;> simp_all

theorem fits_of_mem_closings (hvalid : ∀ piece ∈ pieces, piece.Valid)
    (hlast : last.kind = .endMarker) : ∀ c ∈ closings last pieces, c.Fits := by
  have hend : last.kind ∈ [.newline, .indent, .dedent, .endMarker] ∨ last.isOperator ";" = true :=
    .inl (by simp [hlast])
  fun_induction closings last pieces with
  | case1 =>
      rintro c hc
      cases List.mem_singleton.1 hc
      exact hend
  | case2 t rest ih =>
      obtain ⟨ht, hrest⟩ := List.forall_mem_cons.1 hvalid
      exact List.forall_mem_cons.2 ⟨fits_of_valid_separator ht, ih hrest⟩
  | case3 keyword p tokens colon rest ih =>
      obtain ⟨⟨hcolon, hheader, -⟩, hrest⟩ := List.forall_mem_cons.1 hvalid
      exact List.forall_mem_cons.2 ⟨⟨hcolon, hheader⟩, ih hrest⟩
  | case4 form p tokens t rest ih =>
      obtain ⟨ht, hrest⟩ := List.forall_mem_cons.1 (List.forall_mem_cons.1 hvalid).2
      exact List.forall_mem_cons.2 ⟨fits_of_valid_separator ht, ih hrest⟩
  | case5 form p tokens rest hrest =>
      rintro c hc
      cases List.mem_singleton.1 hc
      exact hend

end Piece

/-! ### Colons -/

theorem Closing.Fits.isOperator_eq {c : Closing} (h : c.Fits) :
    c.token.isOperator ":" = c.statement?.any Statement.isBlock := by
  have hother (h : c.token.kind ∈ [.newline, .indent, .dedent, .endMarker] ∨
      c.token.isOperator ";" = true) : c.token.isOperator ":" = false := by
    rcases h with hkind | hsemicolon
    · simp only [List.mem_cons, List.not_mem_nil, or_false] at hkind
      rcases hkind with hkind | hkind | hkind | hkind <;> simp [Token.isOperator, hkind]
    · exact Token.isOperator_of_ne hsemicolon (by decide)
  obtain ⟨statement?, t⟩ := c
  cases statement? with
  | none => exact hother h
  | some s =>
      cases s with
      | line => exact hother h
      | block => exact h.1

theorem countP_isOperator_of_fits {closings : List Closing} (h : ∀ c ∈ closings, c.Fits) :
    closings.countP (·.token.isOperator ":") =
      (closings.filterMap Closing.statement?).countP Statement.isBlock := by
  rw [List.countP_filterMap]
  refine List.countP_congr fun c hc => ?_
  rw [(h c hc).isOperator_eq]
  cases c.statement? <;> rfl

/-- What is parsed is kept: only layout, the end marker, semicolons and the colons behind headers stand
outside of the statements. -/
theorem keptIn_of_parse {source : String} {tokens : List Token} {statements : List Statement}
    (htokenize : tokenize source = .ok tokens) (hparse : parse tokens = .ok statements) :
    KeptIn tokens statements := by
  obtain ⟨body, rfl, hbody⟩ := endMarker_of_tokenize htokenize
  obtain ⟨pieces, hspells⟩ := spells_of_parse hbody rfl hparse
  have hfits : ∀ c ∈ Piece.closings ⟨.endMarker, "", Position.start.after source.toList⟩ pieces,
      c.Fits :=
    Piece.fits_of_mem_closings hspells.valid rfl
  refine ⟨hspells.sublist.trans (List.sublist_append_left body _), _, ?_, ?_, hfits, ?_⟩
  · rw [Piece.flatMap_closings hspells.linked, ← hspells.tokens_eq]
  · rw [Piece.filterMap_closings hspells.linked, ← hspells.statements_eq]
  · rw [countP_isOperator_of_fits hfits, Piece.filterMap_closings hspells.linked,
      ← hspells.statements_eq]

/-- A body on the line of its header, a lambda and a dictionary with colons of their own, and blocks in
blocks. -/
theorem keptIn_nested_blocks :
    let source := "if f(x): y; z\nwhile (lambda: \x7b0: 1\x7d)():\n  for a in b:\n    c;\n"
    ∃ tokens statements, tokenize source = .ok tokens ∧ parse tokens = .ok statements ∧
      KeptIn tokens statements := by
  intro source
  have haccepted : (tokenize source >>= parse).isOk = true := by decide +kernel
  obtain ⟨statements, h⟩ := exists_of_isOk haccepted
  obtain ⟨tokens, htokenize, hparse⟩ := bind_eq_ok.1 h
  exact ⟨tokens, statements, htokenize, hparse, keptIn_of_parse htokenize hparse⟩

end ScriptSandbox
