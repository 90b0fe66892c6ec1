import Mathlib.Data.List.Pairwise
import ScriptSandbox.Proofs.Except
import ScriptSandbox.Proofs.Source.Lexing
import ScriptSandbox.Proofs.Source.Places
import ScriptSandbox.Source.Layout

/-!
The tokens of a script and its lexemes. A token is written in the script or stands for its layout.
The written tokens are the lexemes that are neither blank nor comment, one by one and in order, so
each ends before the next one begins. The layout adds further tokens and an end marker.
-/

namespace ScriptSandbox

def Token.isWritten (t : Token) : Bool :=
  match t.kind with
  | .name | .number | .string _ | .operator => true
  | _ => false

theorem Token.isWritten_eq_false {t : Token} (h : t.isLayout = true) : t.isWritten = false := by
  unfold Token.isLayout at h
  unfold Token.isWritten
  split at h <;> simp_all

theorem Token.isWritten_of_mem_token? {l : Lexeme} {t : Token} (h : t ∈ l.token?) :
    t.isWritten = true := by
  unfold Lexeme.token? at h
  split at h <;> cases h <;> rfl

theorem Lexeme.token?_eq_some {l : Lexeme} {t : Token} (h : l.token? = some t) :
    t.text = String.ofList l.text ∧ t.position = l.position := by
  unfold Lexeme.token? at h
  split at h <;> cases h <;> exact ⟨rfl, rfl⟩

theorem Lexeme.kind_of_name_token {l : Lexeme} {t : Token} (h : l.token? = some t)
    (ht : t.kind = .name) : l.kind = .name := by
  unfold token? at h
  split at h
  · assumption
  · cases h
    cases ht
  · cases h
    cases ht
  · cases h
    cases ht
  · cases h

theorem Lexeme.Lexed.dot_not_mem_of_name {lenient : Bool} {p : Position} {text : List Char}
    {lexemes : List Lexeme} (h : Lexed lenient p text lexemes) {l : Lexeme} {t : Token}
    (hl : l ∈ lexemes) (htoken : l.token? = some t) (hname : t.kind = .name) :
    '.' ∉ t.text.toList := by
  obtain ⟨before, after, -, -, hshape⟩ := h.shape_of_mem hl
  have hkind := kind_of_name_token htoken hname
  rw [(token?_eq_some htoken).1, String.toList_ofList]
  rw [hkind] at hshape
  generalize l.text = text at hshape
  cases hshape with
  | name hstart hparts =>
      have hdot : Text.isWordPart '.' = false := by decide
      intro hmem
      rcases List.mem_cons.1 hmem with heq | hmem
      · rw [heq, Text.isWordPart_of_isWordStart hstart] at hdot
        cases hdot
      · rw [hparts _ hmem] at hdot
        cases hdot

theorem filter_isWritten_eq_nil {tokens : List Token} (h : ∀ t ∈ tokens, t.isLayout = true) :
    tokens.filter Token.isWritten = [] := by
  rw [List.filter_eq_nil_iff]
  intro t ht
  simp [Token.isWritten_eq_false (h t ht)]

namespace Layout

/-! ### Single lexemes -/

/-- What the indentation of a line at `p` turns into: nothing where the line has begun before, one token
where a deeper block begins, and one for every block that ends. -/
inductive Settles (s : Layout) (p : Position) : List Token → Layout → Prop
  | going : s.lineStart = none → Settles s p [] s
  | deeper {width} : s.lineStart = some width → s.indents.headD 0 < width →
      Settles s p [⟨.indent, "", ⟨p.line, 0⟩⟩]
        { s with indents := width :: s.indents, lineStart := none, newest := some .indent }
  | closing {width closed kept} : s.lineStart = some width → s.indents = closed ++ kept →
      (∀ w ∈ closed, width < w) → kept.headD 0 = width →
      Settles s p (closed.map fun _ => ⟨.dedent, "", p⟩)
        { s with
          indents := kept, lineStart := none,
          newest := if closed.isEmpty then s.newest else some .dedent }

theorem settles_of_settle {s s' : Layout} {p : Position} {tokens : List Token}
    (h : s.settle p = .ok (tokens, s')) : Settles s p tokens s' := by
  unfold settle at h
  split at h
  · rename_i hstart
    cases h
    exact .going hstart
  · rename_i width hstart
    split at h
    · rename_i hdeeper
      cases h
      exact .deeper hstart hdeeper
    · dsimp only at h
      split at h
      · rename_i hkept
        cases h
        refine .closing hstart List.takeWhile_append_dropWhile.symm (fun w hw => ?_) hkept
        simpa using List.all_eq_true.1 List.all_takeWhile w hw
      · cases h

theorem isLayout_of_settle {s s' : Layout} {p : Position} {tokens : List Token}
    (h : s.settle p = .ok (tokens, s')) : ∀ t ∈ tokens, t.isLayout = true := by
  cases settles_of_settle h with
  | going => simp
  | deeper => simp [Token.isLayout]
  | closing =>
      intro t ht
      obtain ⟨_, -, rfl⟩ := List.mem_map.1 ht
      rfl

theorem isLayout_of_breakLine {s : Layout} {p : Position} :
    ∀ t ∈ (s.breakLine p).1, t.isLayout = true := by
  unfold breakLine
  split
  · simp
  · split
    · split <;> simp [Token.isLayout]
    · simp

/-- A token of a line comes after the layout tokens of its indentation, and may turn a bracket. -/
theorem take_eq_ok {s s' : Layout} {t : Token} {tokens : List Token}
    (h : s.take t = .ok (tokens, s')) :
    ∃ layout s₁ s₂, s.settle t.position = .ok (layout, s₁) ∧
      (if t.kind = .operator then s₁.turnBracket t = .ok s₂ else s₂ = s₁) ∧
      tokens = layout ++ [t] ∧ s' = { s₂ with newest := some t.kind } := by
  unfold take at h
  obtain ⟨⟨layout, s₁⟩, hsettle, h⟩ := bind_eq_ok.1 h
  dsimp only at h
  split at h
  · rename_i hoperator
    obtain ⟨s₂, hbracket, h⟩ := bind_eq_ok.1 h
    cases pure_eq_ok.1 h
    exact ⟨layout, s₁, s₂, hsettle, by rwa [if_pos hoperator], rfl, rfl⟩
  · rename_i hoperator
    cases pure_eq_ok.1 h
    exact ⟨layout, s₁, s₁, hsettle, by rw [if_neg hoperator], rfl, rfl⟩

theorem take_of_settle {s s₁ s₂ : Layout} {t : Token} {layout : List Token}
    (hsettle : s.settle t.position = .ok (layout, s₁))
    (hbracket : if t.kind = .operator then s₁.turnBracket t = .ok s₂ else s₂ = s₁) :
    s.take t = .ok (layout ++ [t], { s₂ with newest := some t.kind }) := by
  unfold take
  rw [hsettle]
  refine bind_eq_ok.2 ⟨_, rfl, ?_⟩
  dsimp only
  split
  · rename_i hoperator
    rw [if_pos hoperator] at hbracket
    exact bind_eq_ok.2 ⟨_, hbracket, rfl⟩
  · rename_i hoperator
    rw [if_neg hoperator] at hbracket
    subst hbracket
    rfl

/-- What taking a lexeme gives. Only a broken one is not taken at all. -/
inductive Steps (s : Layout) (l : Lexeme) : List Token → Layout → Prop
  | blank : l.kind = .blank →
      Steps s l [] { s with lineStart := s.lineStart.map (indentWidth · l.text) }
  | comment : l.kind = .comment → Steps s l [] s
  | lineBreak : l.kind = .lineBreak →
      Steps s l (s.breakLine l.position).1 (s.breakLine l.position).2
  | joined {tokens s'} : l.kind = .continuation ∨ l.kind = .stray →
      s.settle l.position = .ok (tokens, s') → Steps s l tokens s'
  | token {t tokens s'} : l.token? = some t → s.take t = .ok (tokens, s') → Steps s l tokens s'

theorem steps_of_step {s s' : Layout} {l : Lexeme} {tokens : List Token}
    (h : s.step l = .ok (tokens, s')) : Steps s l tokens s' := by
  have hown {kind : TokenKind} (hkind : l.token? = some ⟨kind, String.ofList l.text, l.position⟩)
      (h : s.take ⟨kind, String.ofList l.text, l.position⟩ = .ok (tokens, s')) :
      Steps s l tokens s' := .token hkind h
  unfold step at h
  split at h
  all_goals rename_i hkind
  · cases h
    exact .blank hkind
  · cases h
    exact .comment hkind
  · obtain ⟨rfl, rfl⟩ : (s.breakLine l.position).1 = tokens ∧ (s.breakLine l.position).2 = s' := by
      simp [Except.ok.inj h]
    exact .lineBreak hkind
  · exact .joined (.inl hkind) h
  · exact .joined (.inr hkind) h
  · exact hown (by rw [Lexeme.token?, hkind]) h
  · exact hown (by rw [Lexeme.token?, hkind]) h
  · exact hown (by rw [Lexeme.token?, hkind]) h
  · exact hown (by rw [Lexeme.token?, hkind]) h
  · obtain ⟨_, -, h⟩ := bind_eq_ok.1 h
    cases h

/-- A lexeme gives layout tokens and then its own token, if it has one. No broken lexeme is
taken. -/
theorem step_eq_ok {s s' : Layout} {l : Lexeme} {tokens : List Token}
    (h : s.step l = .ok (tokens, s')) :
    (∃ layout, tokens = layout ++ l.token?.toList ∧ ∀ t ∈ layout, t.isLayout = true) ∧
      ∀ problem, l.kind ≠ .broken problem := by
  cases steps_of_step h with
  | blank hkind => simp [Lexeme.token?, hkind]
  | comment hkind => simp [Lexeme.token?, hkind]
  | lineBreak hkind =>
      refine ⟨⟨(s.breakLine l.position).1, ?_, isLayout_of_breakLine⟩, by simp [hkind]⟩
      simp [Lexeme.token?, hkind]
  | joined hkind hsettle =>
      have hlayout := isLayout_of_settle hsettle
      rcases hkind with hkind | hkind
      · exact ⟨⟨tokens, by simp [Lexeme.token?, hkind], hlayout⟩, by simp [hkind]⟩
      · exact ⟨⟨tokens, by simp [Lexeme.token?, hkind], hlayout⟩, by simp [hkind]⟩
  | token htoken htake =>
      obtain ⟨layout, _, _, hsettle, -, rfl, -⟩ := take_eq_ok htake
      refine ⟨⟨layout, by rw [htoken, Option.toList_some], isLayout_of_settle hsettle⟩, ?_⟩
      intro problem hkind
      simp [Lexeme.token?, hkind] at htoken

/-! ### Whole scripts -/

theorem finish_eq_ok {s : Layout} {p : Position} {tokens : List Token}
    (h : s.finish p = .ok tokens) :
    ∃ closing : List Token, tokens = closing ++ [⟨.endMarker, "", p⟩] ∧
      ∀ t ∈ closing, t.isLayout = true := by
  unfold finish at h
  split at h
  · cases h
  · cases h
    refine ⟨_, rfl, fun t ht => ?_⟩
    rcases List.mem_append.1 ht with ht | ht
    · split at ht <;> simp_all [Token.isLayout]
    · obtain ⟨_, -, rfl⟩ := List.mem_map.1 ht
      rfl

/-- What follows in `tokens` after `before` are the tokens of some lexemes, layout tokens around
them, and the end marker at `p`. -/
structure Follows (p : Position) (before : List Token) (lexemes : List Lexeme)
    (tokens : List Token) : Prop where
  intact : ∀ l ∈ lexemes, ∀ problem, l.kind ≠ .broken problem
  tokens_eq : ∃ body, tokens = before ++ body ++ [⟨.endMarker, "", p⟩] ∧
    body.filter Token.isWritten = lexemes.filterMap Lexeme.token? ∧
    ∀ t ∈ body, t.isLayout = true ∨ t.isWritten = true

theorem follows_of_run {p : Position} {before tokens : List Token} {s : Layout}
    {lexemes : List Lexeme} (h : run p before s lexemes = .ok tokens) :
    Follows p before.reverse lexemes tokens := by
  induction lexemes generalizing before s with
  | nil =>
      obtain ⟨last, hfinish, h⟩ := bind_eq_ok.1 h
      obtain ⟨closing, rfl, hclosing⟩ := finish_eq_ok hfinish
      cases pure_eq_ok.1 h
      refine ⟨by simp, closing, by simp, ?_, fun t ht => .inl (hclosing t ht)⟩
      rw [filter_isWritten_eq_nil hclosing, List.filterMap_nil]
  | cons l rest ih =>
      obtain ⟨⟨more, s₁⟩, hstep, h⟩ := bind_eq_ok.1 h
      obtain ⟨⟨layout, rfl, hlayout⟩, hintact⟩ := step_eq_ok hstep
      obtain ⟨hrest, body, rfl, hwritten, hkinds⟩ := ih h
      -- Of the tokens of one step only that of the lexeme is written.
      have hown : l.token?.toList.filter Token.isWritten = l.token?.toList := by
        rw [List.filter_eq_self]
        intro t ht
        exact Token.isWritten_of_mem_token? (Option.mem_toList.1 ht)
      refine ⟨?_, layout ++ l.token?.toList ++ body, by simp, ?_, ?_⟩
      · intro m hm
        rcases List.mem_cons.1 hm with rfl | hm
        · exact hintact
        · exact hrest m hm
      · rw [List.filter_append, List.filter_append, filter_isWritten_eq_nil hlayout, hown, hwritten]
        cases htoken : l.token? <;> simp [htoken]
      · intro t ht
        rcases List.mem_append.1 ht with ht | ht
        · rcases List.mem_append.1 ht with ht | ht
          · exact .inl (hlayout t ht)
          · exact .inr (Token.isWritten_of_mem_token? (Option.mem_toList.1 ht))
        · exact hkinds t ht

end Layout

/-! ### Lexemes and tokens in order -/

theorem Lexeme.Lexed.upTo_position {lenient : Bool} {p : Position} {text : List Char}
    {lexemes : List Lexeme} (h : Lexed lenient p text lexemes) :
    ∀ l ∈ lexemes, p.UpTo l.position := by
  intro l hl
  obtain ⟨before, _, -, hposition, -⟩ := h.shape_of_mem hl
  rw [hposition]
  exact p.upTo_after before

theorem Lexeme.Lexed.pairwise_apart {lenient : Bool} {p : Position} {text : List Char}
    {lexemes : List Lexeme} (h : Lexed lenient p text lexemes) :
    lexemes.Pairwise fun l m => (l.position.after l.text).UpTo m.position := by
  induction h with
  | nil => exact .nil
  | cons _ hlexed ih => exact List.pairwise_cons.2 ⟨hlexed.upTo_position, ih⟩

/-- A place is in one lexeme of a text only. -/
theorem Lexeme.Lexed.eq_of_inText {lenient : Bool} {p place : Position} {text : List Char}
    {lexemes : List Lexeme} (h : Lexed lenient p text lexemes) {l m : Lexeme} (hl : l ∈ lexemes)
    (hm : m ∈ lexemes) (hplace : place.InText l.position l.text)
    (hplace' : place.InText m.position m.text) : l = m := by
  have hapart {l m : Lexeme} (hapart : (l.position.after l.text).UpTo m.position)
      (hl : place.InText l.position l.text) (hm : place.InText m.position m.text) : l = m :=
    absurd (hl.precedes.trans_upTo (hapart.trans hm.upTo)) (Position.Precedes.irrefl place)
  by_contra hne
  have hpairs := h.pairwise_apart.imp
    (S := fun l m : Lexeme => place.InText l.position l.text → place.InText m.position m.text → l = m)
    fun hlm => hapart hlm
  have hsymm : Std.Symm fun l m : Lexeme =>
      place.InText l.position l.text → place.InText m.position m.text → l = m :=
    ⟨fun _ _ hlm hm hl => (hlm hl hm).symm⟩
  exact hne (hpairs.forall hl hm hne hplace hplace')

def Token.stop (t : Token) : Position :=
  t.position.after t.text.toList

theorem Lexeme.stop_of_token? {l : Lexeme} {t : Token} (h : l.token? = some t) :
    t.stop = l.position.after l.text := by
  obtain ⟨htext, hposition⟩ := token?_eq_some h
  simp [Token.stop, htext, hposition]

def scriptLexemes (source : String) : List Lexeme :=
  Lexeme.split false .start [] source.toList

theorem lexed_scriptLexemes (source : String) :
    Lexeme.Lexed false .start source.toList (scriptLexemes source) :=
  Lexeme.lexed_split false .start source.toList

section Tokenize

variable {source : String} {tokens : List Token} {t u : Token}

theorem follows_of_tokenize (h : tokenize source = .ok tokens) :
    Layout.Follows (Position.start.after source.toList) [] (scriptLexemes source) tokens :=
  Layout.follows_of_run h

/-- The written tokens of a script are its lexemes without blanks and comments. -/
theorem filter_isWritten_of_tokenize (h : tokenize source = .ok tokens) :
    tokens.filter Token.isWritten = (scriptLexemes source).filterMap Lexeme.token? := by
  obtain ⟨-, body, rfl, hwritten, -⟩ := follows_of_tokenize h
  simp [hwritten, Token.isWritten]

theorem endMarker_of_tokenize (h : tokenize source = .ok tokens) :
    ∃ body, tokens = body ++ [⟨.endMarker, "", Position.start.after source.toList⟩] ∧
      ∀ t ∈ body, t.kind ≠ .endMarker := by
  obtain ⟨-, body, rfl, -, hkinds⟩ := follows_of_tokenize h
  refine ⟨body, by simp, fun t ht hend => ?_⟩
  have hkind := hkinds t ht
  simp [Token.isLayout, Token.isWritten, hend] at hkind

theorem exists_lexeme_of_tokenize (h : tokenize source = .ok tokens) (ht : t ∈ tokens)
    (hwritten : t.isWritten = true) : ∃ l ∈ scriptLexemes source, l.token? = some t := by
  have hmem : t ∈ tokens.filter Token.isWritten := List.mem_filter.2 ⟨ht, hwritten⟩
  rw [filter_isWritten_of_tokenize h] at hmem
  exact List.mem_filterMap.1 hmem

theorem mem_of_token? (h : tokenize source = .ok tokens) {l : Lexeme}
    (hl : l ∈ scriptLexemes source) (ht : l.token? = some t) : t ∈ tokens := by
  have hmem := List.mem_filterMap.2 ⟨l, hl, ht⟩
  rw [← filter_isWritten_of_tokenize h] at hmem
  exact (List.mem_filter.1 hmem).1

theorem precedes_stop_of_tokenize (h : tokenize source = .ok tokens) (ht : t ∈ tokens)
    (hwritten : t.isWritten = true) : t.position.Precedes t.stop := by
  obtain ⟨l, hl, htoken⟩ := exists_lexeme_of_tokenize h ht hwritten
  obtain ⟨_, _, -, -, hshape⟩ := (lexed_scriptLexemes source).shape_of_mem hl
  rw [Lexeme.stop_of_token? htoken, (Lexeme.token?_eq_some htoken).2]
  exact Position.precedes_after _ hshape.ne_nil

theorem pairwise_apart_of_tokenize (h : tokenize source = .ok tokens) :
    (tokens.filter Token.isWritten).Pairwise fun t u => t.stop.UpTo u.position := by
  rw [filter_isWritten_of_tokenize h, List.pairwise_filterMap]
  refine (lexed_scriptLexemes source).pairwise_apart.imp ?_
  intro l m hlm t ht u hu
  rw [Lexeme.stop_of_token? ht, (Lexeme.token?_eq_some hu).2]
  exact hlm

theorem nodup_of_tokenize (h : tokenize source = .ok tokens) :
    (tokens.filter Token.isWritten).Nodup := by
  refine (pairwise_apart_of_tokenize h).imp_of_mem ?_
  rintro t u ht - htu rfl
  obtain ⟨hmem, hwritten⟩ := List.mem_filter.1 ht
  exact Position.Precedes.irrefl _ (htu.trans_precedes (precedes_stop_of_tokenize h hmem hwritten))

theorem apart_of_tokenize (h : tokenize source = .ok tokens) (ht : t ∈ tokens) (hu : u ∈ tokens)
    (htwritten : t.isWritten = true) (huwritten : u.isWritten = true) (hne : t ≠ u) :
    t.stop.UpTo u.position ∨ u.stop.UpTo t.position := by
  -- The tokens are in order, but which of the two comes first is not known: the relation is
  -- weakened to a symmetric one, which holds of any two of them.
  have hpairs := (pairwise_apart_of_tokenize h).imp
    (S := fun t u : Token => t.stop.UpTo u.position ∨ u.stop.UpTo t.position) fun hapart => .inl hapart
  have hsymm : Std.Symm fun t u : Token => t.stop.UpTo u.position ∨ u.stop.UpTo t.position :=
    ⟨fun _ _ hapart => hapart.symm⟩
  exact hpairs.forall (List.mem_filter.2 ⟨ht, htwritten⟩) (List.mem_filter.2 ⟨hu, huwritten⟩) hne

theorem eq_of_position_eq (h : tokenize source = .ok tokens) (ht : t ∈ tokens) (hu : u ∈ tokens)
    (htwritten : t.isWritten = true) (huwritten : u.isWritten = true)
    (hposition : t.position = u.position) : t = u := by
  by_contra hne
  rcases apart_of_tokenize h ht hu htwritten huwritten hne with hapart | hapart
  · rw [← hposition] at hapart
    exact Position.Precedes.irrefl _
      (hapart.trans_precedes (precedes_stop_of_tokenize h ht htwritten))
  · rw [hposition] at hapart
    exact Position.Precedes.irrefl _
      (hapart.trans_precedes (precedes_stop_of_tokenize h hu huwritten))

end Tokenize

end ScriptSandbox
