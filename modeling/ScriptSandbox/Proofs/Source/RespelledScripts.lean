import ScriptSandbox.Proofs.Source.Rereading
import ScriptSandbox.Proofs.Source.Respelling

/-!
Scripts with names in full width. A script in which letters of names are spelled in full width has the
same tokens in the same places, and only the names are spelled in the new way. If no word that opens a
block is spelled so, it has the same statements too.
-/

namespace ScriptSandbox

/-- A token as it is spelled when letters at some places are in full width. Only names are spelled
anew, and no keyword is. -/
def Token.respell (wide : Position → Bool) (t : Token) : Token :=
  if t.isIdentifier then
    ⟨t.kind, String.ofList (ScriptSandbox.respell wide t.position t.text.toList), t.position⟩
  else t

theorem toNat_of_mem_keywords : ∀ word ∈ keywords, ∀ d ∈ word.toList, d.toNat < 0x80 := by
  have hall : (keywords.all fun word => word.toList.all fun d => decide (d.toNat < 0x80)) = true := by
    decide
  simpa using hall

theorem respell_eq_of_isKeyword {wide : Position → Bool} {p : Position} {text : List Char}
    (h : isKeyword (String.ofList (respell wide p text)) = true) : respell wide p text = text := by
  refine respell_eq_of_ascii fun d hd => ?_
  refine toNat_of_mem_keywords _ (List.contains_iff_mem.1 h) d ?_
  rwa [String.toList_ofList]

namespace Token

variable {wide : Position → Bool} {t : Token}

theorem respell_of_not_isIdentifier (h : t.isIdentifier = false) : t.respell wide = t := by
  rw [respell, h]
  rfl

@[simp] theorem respell_of_narrow (h : Narrow wide t.position t.text.toList) :
    t.respell wide = t := by
  unfold respell
  rw [h.respell_eq, String.ofList_toList]
  split <;> rfl

@[simp] theorem kind_respell : (t.respell wide).kind = t.kind := by
  unfold respell
  split <;> rfl

@[simp] theorem position_respell : (t.respell wide).position = t.position := by
  unfold respell
  split <;> rfl

@[simp] theorem isIdentifier_respell : (t.respell wide).isIdentifier = t.isIdentifier := by
  cases h : t.isIdentifier with
  | false => rw [respell_of_not_isIdentifier h, h]
  | true =>
      have hname := (Bool.and_eq_true_iff.1 h).1
      have hkeyword := (Bool.and_eq_true_iff.1 h).2
      rw [Bool.not_eq_true', Bool.eq_false_iff] at hkeyword
      have hnot : isKeyword (String.ofList
          (ScriptSandbox.respell wide t.position t.text.toList)) = false := by
        rw [Bool.eq_false_iff]
        intro hword
        rw [respell_eq_of_isKeyword hword, String.ofList_toList] at hword
        exact hkeyword hword
      unfold respell
      rw [if_pos h, isIdentifier, hnot, hname]
      rfl

@[simp] theorem respell_of_kind (h : t.kind ≠ .name) : t.respell wide = t :=
  respell_of_not_isIdentifier (by simp [isIdentifier, h])

@[simp] theorem isOperator_respell (text : String) :
    (t.respell wide).isOperator text = t.isOperator text := by
  by_cases h : t.kind = .name <;> simp [h]

theorem isWord_respell {text : String} (h : isKeyword text = true) :
    (t.respell wide).isWord text = t.isWord text := by
  cases hidentifier : t.isIdentifier with
  | false => rw [respell_of_not_isIdentifier hidentifier]
  | true =>
      have hnot {u : Token} (hu : u.isIdentifier = true) : u.isWord text = false := by
        rw [Bool.eq_false_iff]
        intro hword
        simp [isIdentifier, (isWord_iff.1 hword).2, h] at hu
      rw [hnot hidentifier, hnot (isIdentifier_respell.trans hidentifier)]

theorem respell_of_ascii (h : ∀ d ∈ (t.respell wide).text.toList, d.toNat < 0x80) :
    t.respell wide = t := by
  cases hidentifier : t.isIdentifier with
  | false => exact respell_of_not_isIdentifier hidentifier
  | true =>
      unfold respell at h ⊢
      rw [if_pos hidentifier] at h ⊢
      rw [String.toList_ofList] at h
      rw [respell_eq_of_ascii h, String.ofList_toList]

end Token

/-! ### From lexemes to tokens -/

def Lexeme.MayRespell (wide : Position → Bool) (l : Lexeme) : Prop :=
  l.kind = .name ∧ isKeyword (String.ofList l.text) = false ∨ Narrow wide l.position l.text

namespace Layout

variable {wide : Position → Bool} {s s' : Layout} {l : Lexeme} {tokens : List Token}

theorem map_respell_of_isLayout (h : ∀ t ∈ tokens, t.isLayout = true) :
    tokens.map (Token.respell wide) = tokens := by
  refine (List.map_congr_left fun t ht => Token.respell_of_kind ?_).trans (List.map_id _)
  rcases Token.isLayout_iff.1 (h t ht) with hkind | hkind | hkind <;> simp [hkind]

theorem step_respell (hl : l.MayRespell wide) (h : s.step l = .ok (tokens, s')) :
    s.step (l.respell wide) = .ok (tokens.map (Token.respell wide), s') := by
  rcases hl with ⟨hname, hkeyword⟩ | hnarrow
  · have hidentifier : (⟨.name, String.ofList l.text, l.position⟩ : Token).isIdentifier = true := by
      simp [Token.isIdentifier, hkeyword]
    unfold step at h
    rw [hname] at h
    obtain ⟨layout, s₁, s₂, hsettle, hbracket, rfl, rfl⟩ := take_eq_ok h
    rw [List.map_append, map_respell_of_isLayout (isLayout_of_settle hsettle), List.map_singleton,
      Token.respell, if_pos hidentifier, String.toList_ofList]
    unfold step Lexeme.respell
    rw [hname]
    exact take_of_settle hsettle (by simpa using hbracket)
  · have hsame : l.respell wide = l := by rw [Lexeme.respell, hnarrow.respell_eq]
    obtain ⟨⟨layout, htokens, hlayout⟩, -⟩ := step_eq_ok h
    have hown : l.token?.toList.map (Token.respell wide) = l.token?.toList := by
      cases htoken : l.token? with
      | none => rfl
      | some t =>
          obtain ⟨htext, hposition⟩ := Lexeme.token?_eq_some htoken
          have ht : Narrow wide t.position t.text.toList := by
            rwa [htext, hposition, String.toList_ofList]
          rw [Option.toList_some, List.map_singleton, Token.respell_of_narrow ht]
    rw [hsame, htokens, List.map_append, map_respell_of_isLayout hlayout, hown, ← htokens]
    exact h

theorem runs_respell {lexemes : List Lexeme} (hlexemes : ∀ l ∈ lexemes, l.MayRespell wide)
    (h : Runs s lexemes tokens s') :
    Runs s (lexemes.map (Lexeme.respell wide)) (tokens.map (Token.respell wide)) s' := by
  induction h with
  | nil => exact .nil
  | cons hstep _ ih =>
      obtain ⟨hfirst, hrest⟩ := List.forall_mem_cons.1 hlexemes
      rw [List.map_append]
      exact .cons (step_respell hfirst hstep) (ih hrest)

end Layout

/-! ### Scripts -/

/-- A script in which letters at some places are spelled in full width. -/
def respelled (wide : Position → Bool) (source : String) : String :=
  String.ofList (respell wide .start source.toList)

/-- The places at which letters are to be spelled in full width all stand in names of a script. -/
def InNames (wide : Position → Bool) (tokens : List Token) : Prop :=
  ∀ place, wide place = true →
    ∃ t ∈ tokens, t.isIdentifier = true ∧ place.InText t.position t.text.toList

section

variable {wide : Position → Bool} {source : String} {tokens : List Token}

theorem mayRespell_of_inNames (h : tokenize source = .ok tokens) (hwide : InNames wide tokens) :
    ∀ l ∈ scriptLexemes source, l.MayRespell wide := by
  intro l hl
  by_cases hnarrow : Narrow wide l.position l.text
  · exact .inr hnarrow
  · obtain ⟨place, hplace, hchosen⟩ : ∃ place, place.InText l.position l.text ∧ wide place = true := by
      simpa [Narrow] using hnarrow
    obtain ⟨t, ht, hidentifier, hin⟩ := hwide place hchosen
    rw [Token.isIdentifier_iff] at hidentifier
    have hwritten : t.isWritten = true := by simp [Token.isWritten, hidentifier.1]
    obtain ⟨m, hm, htoken⟩ := exists_lexeme_of_tokenize h ht hwritten
    obtain ⟨htext, hposition⟩ := Lexeme.token?_eq_some htoken
    rw [htext, hposition, String.toList_ofList] at hin
    obtain rfl := (lexed_scriptLexemes source).eq_of_inText hl hm hplace hin
    rw [htext] at hidentifier
    exact .inl ⟨Lexeme.kind_of_name_token htoken hidentifier.1, hidentifier.2⟩

/-- A script that is spelled anew in its names has the same tokens, with names that are spelled
anew. -/
theorem tokenize_respelled (h : tokenize source = .ok tokens) (hwide : InNames wide tokens) :
    tokenize (respelled wide source) = .ok (tokens.map (Token.respell wide)) := by
  have hlexemes := mayRespell_of_inNames h hwide
  obtain ⟨body, s, closing, hruns, hfinish, rfl⟩ := Layout.run_eq_ok.1 h
  rw [List.reverse_nil, List.nil_append]
  have hsplit : Lexeme.split false .start [] (respell wide .start source.toList) =
      (scriptLexemes source).map (Lexeme.respell wide) := by
    refine Lexeme.split_respell fun l hl hkind => ?_
    exact (hlexemes l hl).resolve_left fun hname => hkind hname.1
  have hclosing : closing.map (Token.respell wide) = closing := by
    obtain ⟨layout, rfl, hlayout⟩ := Layout.finish_eq_ok hfinish
    rw [List.map_append, Layout.map_respell_of_isLayout hlayout]
    rfl
  unfold tokenize respelled
  dsimp only
  rw [String.toList_ofList, Position.after_respell, hsplit]
  refine Layout.run_eq_ok.2 ⟨_, s, closing, Layout.runs_respell hlexemes hruns, hfinish, ?_⟩
  rw [List.map_append, hclosing, List.reverse_nil, List.nil_append]

end

/-! ### Statements -/

/-- What a line says, read from its tokens again. -/
def LineForm.reread (old : LineForm) : List Token → LineForm
  | [] => old
  | first :: rest => (lineForm first rest).toOption.getD old

def TokenChange.respelling (wide : Position → Bool) : TokenChange where
  token := Token.respell wide
  place := id
  position_eq _ := Token.position_respell
  kind_iff _ _ _ := by simp
  isOperator_eq _ text := Token.isOperator_respell text
  isIdentifier_eq _ := Token.isIdentifier_respell
  isWord_eq _ _ h := Token.isWord_respell h

def Rereading.respelling (wide : Position → Bool) : Rereading where
  toTokenChange := .respelling wide
  form := LineForm.reread
  lineForm_eq := by
    intro first rest old h
    obtain ⟨form, hform, -⟩ := (TokenChange.respelling wide).lineForm_map h
    rw [List.map_cons, LineForm.reread, hform]
    rfl

def Statement.respell (wide : Position → Bool) : Statement → Statement :=
  (Rereading.respelling wide).statement

def KeepsBlockWords (wide : Position → Bool) (tokens : List Token) : Prop :=
  ∀ outer first rest, tokens = outer ++ first :: rest → EndsInLayout outer →
    opensBlock (first :: rest.takeWhile Token.isInLine) = true → first.respell wide = first

section

variable {wide : Position → Bool} {source : String} {tokens : List Token}
  {statements : List Statement}

theorem toNat_of_mem_blockWords :
    ∀ word ∈ blockKeywords ++ softBlockKeywords, ∀ d ∈ word.toList, d.toNat < 0x80 := by
  have hall : ((blockKeywords ++ softBlockKeywords).all fun word =>
      word.toList.all fun d => decide (d.toNat < 0x80)) = true := by
    decide
  simpa only [List.all_eq_true, decide_eq_true_eq] using hall

theorem mem_blockWords_of_opensBlock {first : Token} {rest : List Token}
    (h : opensBlock (first :: rest) = true) : first.text ∈ blockKeywords ++ softBlockKeywords := by
  simp only [opensBlock, Bool.and_eq_true, Bool.or_eq_true, List.contains_iff_mem] at h
  rcases h.2 with hword | ⟨⟨⟨hword, -⟩, -⟩, -⟩
  · exact List.mem_append_left _ hword
  · exact List.mem_append_right _ hword

theorem KeepsBlockWords.keepsBlocks (h : KeepsBlockWords wide tokens) :
    (TokenChange.respelling wide).KeepsBlocks tokens := by
  rintro outer first rest htokens houter (hopens | hopens)
  · exact congrArg Token.text (h outer first rest htokens houter hopens)
  · have hword := mem_blockWords_of_opensBlock hopens
    exact congrArg Token.text (Token.respell_of_ascii (toNat_of_mem_blockWords _ hword))

/-- A script that is spelled anew in its names has the same statements, if the words that open blocks
stay as they are. -/
theorem Script.respelled (h : Script source tokens statements) (hwide : InNames wide tokens)
    (hblocks : KeepsBlockWords wide tokens) :
    Script (respelled wide source) (tokens.map (Token.respell wide))
      (statements.map (Statement.respell wide)) :=
  ⟨tokenize_respelled h.tokenize_eq hwide,
    (Rereading.respelling wide).nest_map [] h.parse_eq hblocks.keepsBlocks⟩

end

end ScriptSandbox
