import ScriptSandbox.Proofs.Source.Joining

/-!
Lines without tokens. A line of blanks with or without a comment leaves no trace in a script, however
far it is indented and whatever blocks are open around it: what stands below it is read as before, one
line further down. This includes the problems of scripts that cannot be read.
-/

namespace ScriptSandbox

open Lexeme (isGap)

/-- A line of blanks that may end in a comment. -/
def IsEmptyLine (line : List Char) : Prop :=
  ∃ blanks comment, line = blanks ++ comment ++ ['\n'] ∧ (∀ c ∈ blanks, isGap c = true) ∧
    (comment = [] ∨ ∃ text, comment = '#' :: text ∧ ∀ c ∈ text, c ≠ '\n' ∧ c ≠ '\r')

/-! ### The lexemes of the line -/

namespace Lexeme

theorem split_blanks (p : Position) {blanks more : List Char}
    (hblanks : ∀ c ∈ blanks, isGap c = true) (hmore : ∀ c ∈ more.head?, isGap c = false) :
    ∃ lexemes, (∀ l ∈ lexemes, l.kind = .blank) ∧
      split false p [] (blanks ++ more) = lexemes ++ split false (p.after blanks) [] more := by
  cases blanks with
  | nil => exact ⟨[], by simp, rfl⟩
  | cons c blanks =>
      obtain ⟨hc, hblanks⟩ := List.forall_mem_cons.1 hblanks
      have hfound : classify false p c (blanks ++ more) = (.blank, blanks.length) := by
        unfold classify
        rw [if_pos hc, takeWhile_append_stop hblanks hmore]
      refine ⟨[⟨.blank, c :: blanks, p⟩], by simp, ?_⟩
      rw [List.cons_append, split_cons, hfound]
      simp

theorem split_comment (p : Position) {text more : List Char}
    (htext : ∀ c ∈ text, c ≠ '\n' ∧ c ≠ '\r') :
    split false p [] ('#' :: text ++ '\n' :: more) =
      ⟨.comment, '#' :: text, p⟩ :: split false (p.after ('#' :: text)) [] ('\n' :: more) := by
  have hfound : classify false p '#' (text ++ '\n' :: more) = (.comment, text.length) := by
    have hkeep : ∀ c ∈ text, (!isLineEnd c) = true := by
      intro c hc
      simp [isLineEnd, htext c hc]
    unfold classify
    rw [if_neg (by decide), if_pos rfl, takeWhile_append_stop hkeep (by simp [isLineEnd])]
  rw [List.cons_append, split_cons, hfound]
  simp

/-- An empty line has margin lexemes, the last of which ends it. -/
theorem split_emptyLine (p : Position) {line : List Char} (h : IsEmptyLine line)
    (more : List Char) : ∃ margin place, (∀ l ∈ margin, Layout.isMargin l = true) ∧
      split false p [] (line ++ more) =
        margin ++ ⟨.lineBreak, ['\n'], place⟩ :: split false (p.after line) [] more := by
  obtain ⟨blanks, comment, rfl, hblanks, hcomment⟩ := h
  have hbreak (p : Position) : split false p [] ('\n' :: more) =
      ⟨.lineBreak, ['\n'], p⟩ :: split false (p.after ['\n']) [] more := by
    rw [split_cons]
    rfl
  have hhead : ∀ c ∈ (comment ++ '\n' :: more).head?, isGap c = false := by
    rcases hcomment with rfl | ⟨text, rfl, -⟩ <;> simp [isGap]
  obtain ⟨lexemes, hkind, hsplit⟩ := split_blanks p hblanks hhead
  have hmargin : ∀ l ∈ lexemes, Layout.isMargin l = true := by
    intro l hl
    simp [Layout.isMargin, hkind l hl]
  rw [Position.after_append, Position.after_append, List.append_assoc, List.append_assoc,
    List.singleton_append, hsplit]
  rcases hcomment with rfl | ⟨text, rfl, htext⟩
  · exact ⟨lexemes, p.after blanks, hmargin, by rw [List.nil_append, hbreak]; rfl⟩
  · refine ⟨lexemes ++ [⟨.comment, '#' :: text, p.after blanks⟩],
      (p.after blanks).after ('#' :: text), ?_, ?_⟩
    · intro l hl
      rcases List.mem_append.1 hl with hl | hl
      · exact hmargin l hl
      · rw [List.mem_singleton.1 hl]
        rfl
    · rw [split_comment _ htext, hbreak]
      simp

end Lexeme

namespace Layout

theorem runs_margin {lexemes : List Lexeme} (h : ∀ l ∈ lexemes, isMargin l = true)
    (indents : List Nat) (width : Nat) (newest : Option TokenKind) :
    ∃ width', Runs ⟨indents, [], some width, newest⟩ lexemes []
      ⟨indents, [], some width', newest⟩ := by
  induction lexemes generalizing width with
  | nil => exact ⟨width, .nil⟩
  | cons l rest ih =>
      obtain ⟨hl, hrest⟩ := List.forall_mem_cons.1 h
      obtain ⟨width₁, hmargin⟩ := step_margin 0 hl width
      obtain ⟨width', hruns⟩ := ih hrest width₁
      exact ⟨width', .cons (hmargin indents newest).1 hruns⟩

/-- An empty line leaves the state as it is. -/
theorem runs_emptyLine {margin : List Lexeme} (h : ∀ l ∈ margin, isMargin l = true)
    (place : Position) (indents : List Nat) (newest : Option TokenKind) :
    Runs ⟨indents, [], some 0, newest⟩ (margin ++ [⟨.lineBreak, ['\n'], place⟩]) []
      ⟨indents, [], some 0, newest⟩ := by
  obtain ⟨width, hruns⟩ := runs_margin h indents 0 newest
  have hbreak : step ⟨indents, [], some width, newest⟩ ⟨.lineBreak, ['\n'], place⟩ =
      .ok ([], ⟨indents, [], some 0, newest⟩) := rfl
  exact hruns.append (.cons hbreak .nil)

/-! ### The lines of tokens -/

theorem line_of_settle {s s' : Layout} {p : Position} {tokens : List Token}
    (h : s.settle p = .ok (tokens, s')) : ∀ t ∈ tokens, t.position.line = p.line := by
  cases settles_of_settle h with
  | going => simp
  | deeper => simp
  | closing =>
      intro t ht
      obtain ⟨_, -, rfl⟩ := List.mem_map.1 ht
      rfl

theorem line_of_step {s s' : Layout} {l : Lexeme} {tokens : List Token}
    (h : s.step l = .ok (tokens, s')) : ∀ t ∈ tokens, t.position.line = l.position.line := by
  cases steps_of_step h with
  | blank => simp
  | comment => simp
  | lineBreak =>
      rcases breakLine_cases s l.position with ⟨heq, -⟩ | ⟨heq, -⟩ | heq
      · simp [heq]
      · simp [heq]
      · simp [heq]
  | joined _ hsettle => exact line_of_settle hsettle
  | token htoken htake =>
      have hposition := (Lexeme.token?_eq_some htoken).2
      obtain ⟨layout, _, _, hsettle, -, rfl, -⟩ := take_eq_ok htake
      intro u hu
      rcases List.mem_append.1 hu with hu | hu
      · rw [line_of_settle hsettle u hu, hposition]
      · rw [List.mem_singleton.1 hu, hposition]

theorem Runs.line_of_mem {s s' : Layout} {lexemes : List Lexeme} {tokens : List Token}
    (h : Runs s lexemes tokens s') : ∀ t ∈ tokens, ∃ l ∈ lexemes,
      t.position.line = l.position.line := by
  induction h with
  | nil => simp
  | cons hstep _ ih =>
      intro t ht
      rcases List.mem_append.1 ht with ht | ht
      · exact ⟨_, List.mem_cons_self, line_of_step hstep t ht⟩
      · obtain ⟨l, hl, hline⟩ := ih t ht
        exact ⟨l, List.mem_cons_of_mem _ hl, hline⟩

end Layout

/-! ### Scripts -/

theorem line_le_of_lexeme {text : List Char} (h : EndsInFeed text) {l : Lexeme}
    (hl : l ∈ Lexeme.split false .start [] text) : l.position.line ≤ text.count '\n' := by
  obtain ⟨before, after, rfl, hposition, hshape⟩ :=
    (Lexeme.lexed_split false .start text).shape_of_mem hl
  have hfeed : '\n' ∈ l.text ++ after :=
    (h.suffix ⟨before, by simp⟩).mem (by simp [hshape.ne_nil])
  have hcount := List.count_pos_iff.2 hfeed
  rw [hposition, Position.start_after, List.append_assoc, List.count_append]
  simp only [Position.counted]
  omega

/-- A place below `k` lines, and the one a line below it. -/
def MovesBelow (k : Nat) (p q : Position) : Prop :=
  k < p.line ∧ q = p.down 1

theorem correspondence_movesBelow (k : Nat) : Correspondence (MovesBelow k) where
  next := by
    rintro p _ ⟨hp, rfl⟩ c
    refine ⟨?_, Position.down_next 1 p c⟩
    unfold Position.next
    split
    · exact Nat.lt_succ_of_lt hp
    · exact hp
  margin := by
    rintro p _ ⟨hp, rfl⟩
    exact ⟨hp, rfl⟩

theorem movesBelow_emptyLine {above line : List Char} (habove : EndsInFeed above)
    (hline : IsEmptyLine line) : MovesBelow (above.count '\n') (Position.start.after above)
      ((Position.start.after above).after line) := by
  obtain ⟨blanks, comment, rfl, hblanks, hcomment⟩ := hline
  have hcount : (blanks ++ comment).count '\n' = 0 := by
    rw [List.count_eq_zero, List.mem_append, not_or]
    refine ⟨fun hmem => ?_, ?_⟩
    · cases hblanks _ hmem
    · rcases hcomment with rfl | ⟨text, rfl, htext⟩
      · simp
      · simpa using fun hmem => (htext _ hmem).1 rfl
  have hends : EndsInFeed (above ++ (blanks ++ comment ++ ['\n'])) := by
    simp [EndsInFeed]
  rw [← Position.after_append, habove.start_after, hends.start_after]
  refine ⟨by simp [Position.start, Position.down, Nat.add_comm], ?_⟩
  rw [List.count_append, List.count_append, hcount]
  simp [Position.start, Position.down, Nat.add_assoc]

/-- A token is moved one line down if it stands below `k` lines. -/
def Token.makeRoom (k : Nat) (t : Token) : Token :=
  if k < t.position.line then t.down 1 else t

theorem Token.Like.eq_makeRoom {k : Nat} {t u : Token} (h : Token.Like (MovesBelow k) t u) :
    u = t.makeRoom k := by
  rw [makeRoom, if_pos h.position.1]
  exact h.eq_down fun _ _ h => h.2

section Script

variable {above line : String} {tokens : List Token}

/-- Below a script that ends its last line, the tokens of the whole are those of the script without its
end and those of what follows, which do not depend on the place. -/
theorem exists_state_below (h : tokenize above = .ok tokens) (hends : EndsLine above.toList) :
    ∃ (body : List Token) (indents : List Nat) (newest : Option TokenKind),
      (∀ t ∈ body, t.position.line ≤ above.toList.count '\n') ∧
      ∀ below : String, tokenize (above ++ below) =
        (Layout.run (Position.start.after (above ++ below).toList) []
          ⟨indents, [], some 0, newest⟩
          (Lexeme.split false (Position.start.after above.toList) [] below.toList)).map
            (body ++ ·) := by
  obtain ⟨body, _, indents, newest, hruns, -⟩ := exists_state h hends
  refine ⟨body, indents, newest, fun t ht => ?_, fun below => ?_⟩
  · obtain ⟨l, hl, hline⟩ := hruns.line_of_mem t ht
    rw [hline]
    exact line_le_of_lexeme hends.endsInFeed hl
  · have hsplit := Lexeme.split_append hends.endsInFeed (follows_of_tokenize h).intact below.toList
    rw [← hruns.run_append, tokenize, String.toList_append, hsplit.1]
    rfl

/-- Alike answers behind the same tokens differ in nothing but the room that is made. -/
theorem answer_makeRoom {k : Nat} {body : List Token} {answer answer' : Except SyntaxError (List Token)}
    (hbody : ∀ t ∈ body, t.position.line ≤ k)
    (h : AnswerLike (MovesBelow k) (List.Forall₂ (Token.Like (MovesBelow k))) answer answer') :
    (∀ tokens, answer.map (body ++ ·) = .ok tokens →
      answer'.map (body ++ ·) = .ok (tokens.map (Token.makeRoom k))) ∧
    ∀ e, answer.map (body ++ ·) = .error e →
      answer'.map (body ++ ·) = .error ⟨e.position.down 1, e.problem⟩ := by
  have hkept : body.map (Token.makeRoom k) = body := by
    have hbody' : ∀ t ∈ body, t.makeRoom k = id t := fun t ht => if_neg (Nat.not_lt.2 (hbody t ht))
    rw [List.map_congr_left hbody', List.map_id]
  cases h with
  | ok htokens =>
      refine ⟨?_, by simp [Except.map]⟩
      rintro _ ⟨⟩
      obtain rfl := eq_map_of_forall₂ htokens fun _ _ h => h.eq_makeRoom
      rw [List.map_append, hkept]
      rfl
  | error hplace =>
      refine ⟨by simp [Except.map], ?_⟩
      rintro _ ⟨⟩
      rw [hplace.2]
      rfl

/-- An empty line between two others moves what stands below it one line down and changes nothing else,
also where the script cannot be read. -/
theorem tokenize_emptyLine (habove : tokenize above = .ok tokens) (hends : EndsLine above.toList)
    (hline : IsEmptyLine line.toList) (below : String) :
    (∀ tokens, tokenize (above ++ below) = .ok tokens →
      tokenize (above ++ line ++ below) =
        .ok (tokens.map (Token.makeRoom (above.toList.count '\n')))) ∧
    ∀ e, tokenize (above ++ below) = .error e →
      tokenize (above ++ line ++ below) = .error ⟨e.position.down 1, e.problem⟩ := by
  obtain ⟨body, indents, newest, hbody, hread⟩ := exists_state_below habove hends
  obtain ⟨margin, place, hmargin, hsplit⟩ :=
    Lexeme.split_emptyLine (Position.start.after above.toList) hline below.toList
  -- The line is passed over, and what stands below it goes on from the same state.
  have hwhole := hread (line ++ below)
  have htext : (line ++ below).toList = line.toList ++ below.toList := String.toList_append
  have hnothing (answer : Except SyntaxError (List Token)) : answer.map ([] ++ ·) = answer := by
    cases answer <;> rfl
  rw [← String.append_assoc, htext, hsplit, List.append_cons,
    (Layout.runs_emptyLine hmargin place indents newest).run_append, hnothing] at hwhole
  have hR := correspondence_movesBelow (above.toList.count '\n')
  have hplace := movesBelow_emptyLine hends.endsInFeed hline
  have hend : MovesBelow (above.toList.count '\n') (Position.start.after (above ++ below).toList)
      (Position.start.after (above ++ line ++ below).toList) := by
    rw [String.toList_append, String.toList_append, String.toList_append, Position.after_append,
      Position.after_append, Position.after_append]
    exact hR.after hplace below.toList
  have hstate : Layout.Like (MovesBelow (above.toList.count '\n')) ⟨indents, [], some 0, newest⟩
      ⟨indents, [], some 0, newest⟩ := ⟨rfl, .nil, rfl, rfl, rfl⟩
  have hlike := Layout.run_like hR hend (Lexeme.split_like hR false hplace below.toList) hstate .nil
  rw [hread below, hwhole]
  exact answer_makeRoom hbody hlike

/-- A comment in an open block, with a quote and a bracket in it and indented as no other line. -/
theorem tokenize_emptyLine_in_block :
    tokenize ("if x:\n  y\n" ++ "\t# ('\n" ++ "  '''\n'''\n") = .ok
        [⟨.name, "if", ⟨1, 0⟩⟩, ⟨.name, "x", ⟨1, 3⟩⟩, ⟨.operator, ":", ⟨1, 4⟩⟩,
          ⟨.newline, "\n", ⟨1, 5⟩⟩, ⟨.indent, "", ⟨2, 0⟩⟩, ⟨.name, "y", ⟨2, 2⟩⟩,
          ⟨.newline, "\n", ⟨2, 3⟩⟩, ⟨.string [], "'''\n'''", ⟨4, 2⟩⟩, ⟨.newline, "\n", ⟨5, 3⟩⟩,
          ⟨.dedent, "", ⟨6, 0⟩⟩, ⟨.endMarker, "", ⟨6, 0⟩⟩] ∧
      tokenize ("if x:\n  y\n" ++ "\t# ('\n" ++ " z") = .error ⟨⟨4, 1⟩, .unindent⟩ := by
  obtain ⟨tokens, habove⟩ : ∃ tokens, tokenize "if x:\n  y\n" = .ok tokens :=
    exists_of_isOk (by decide +kernel)
  have hends : EndsLine "if x:\n  y\n".toList :=
    .inr ⟨"if x:\n  y".toList, rfl, by simp⟩
  have hline : IsEmptyLine "\t# ('\n".toList :=
    ⟨['\t'], "# ('".toList, rfl, by simp [isGap], .inr ⟨" ('".toList, rfl, by simp⟩⟩
  have hblock := (tokenize_emptyLine habove hends hline "  '''\n'''\n").1
    [⟨.name, "if", ⟨1, 0⟩⟩, ⟨.name, "x", ⟨1, 3⟩⟩, ⟨.operator, ":", ⟨1, 4⟩⟩,
      ⟨.newline, "\n", ⟨1, 5⟩⟩, ⟨.indent, "", ⟨2, 0⟩⟩, ⟨.name, "y", ⟨2, 2⟩⟩,
      ⟨.newline, "\n", ⟨2, 3⟩⟩, ⟨.string [], "'''\n'''", ⟨3, 2⟩⟩, ⟨.newline, "\n", ⟨4, 3⟩⟩,
      ⟨.dedent, "", ⟨5, 0⟩⟩, ⟨.endMarker, "", ⟨5, 0⟩⟩] (by decide +kernel)
  have hbroken := (tokenize_emptyLine habove hends hline " z").2 ⟨⟨3, 1⟩, .unindent⟩
    (by decide +kernel)
  exact ⟨hblock, hbroken⟩

end Script

end ScriptSandbox
