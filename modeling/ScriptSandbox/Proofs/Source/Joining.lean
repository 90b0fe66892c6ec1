import ScriptSandbox.Proofs.Source.Resuming
import ScriptSandbox.Proofs.Source.Seams

/-!
One script behind another. When the first script ends its last line, both together have the
statements of the first and then those of the second, as many lines further down.
-/

namespace ScriptSandbox

/-! ### Whole lines of tokens -/

/-- Some tokens of a script after which a line can begin. -/
structure WholeLines (tokens : List Token) : Prop where
  tidy : Tidy tokens
  endsInLayout : EndsInLayout tokens
  not_end : ∀ t ∈ tokens, t.kind ≠ .endMarker

namespace WholeLines

variable {tokens rest : List Token} {first : Token}

theorem suffix (h : WholeLines tokens) (hrest : rest <:+ tokens) : WholeLines rest :=
  ⟨h.tidy.suffix hrest, fun t ht => h.endsInLayout t (mem_getLast?_of_suffix hrest ht),
    fun t ht => h.not_end t (hrest.subset ht)⟩

/-- A line goes up to a line end. -/
theorem exists_newline (h : WholeLines (first :: rest)) (hfirst : first.isLayout = false) :
    ∃ (line : List Token) (newline : Token) (after : List Token),
      rest = line ++ newline :: after ∧ (∀ t ∈ line, t.isInLine = true) ∧
      newline.kind = .newline := by
  have hinLine := List.all_eq_true.1 (List.all_takeWhile (l := rest) (p := Token.isInLine))
  rcases afterLine_cases rest with ⟨newline, hkind, hrest⟩ | ⟨hrest, hend⟩
  · exact ⟨_, newline, _, hrest, hinLine, hkind⟩
  -- Otherwise the tokens were all in one line, and none of them would be layout.
  have hnone : afterLine rest = [] := by
    cases hafter : afterLine rest with
    | nil => rfl
    | cons t more =>
        rw [hafter] at hrest hend
        exact absurd (hend t rfl) (h.not_end t (by rw [hrest]; simp))
  rw [hnone, List.append_nil] at hrest
  have hline : ∀ t ∈ rest, t.kind ≠ .newline := by
    intro t ht
    rw [hrest] at ht
    have hkinds := hinLine t ht
    simp only [Token.isInLine, Bool.and_eq_true, bne_iff_ne] at hkinds
    exact hkinds.1
  have hall : ∀ t ∈ first :: rest, t.isLayout = false :=
    List.forall_mem_cons.2 ⟨hfirst, h.tidy.isLayout_of_line hfirst hline⟩
  have hlast := h.endsInLayout _ (List.getLast?_eq_some_getLast (List.cons_ne_nil first rest))
  rw [hall _ (List.getLast_mem _)] at hlast
  cases hlast

end WholeLines

section Line

variable {line after : List Token} {first newline : Token} (hline : ∀ t ∈ line, t.isInLine = true)
  (hnewline : newline.kind = .newline)
include hline hnewline

theorem takeWhile_isInLine_append :
    (line ++ newline :: after).takeWhile Token.isInLine = line := by
  rw [List.takeWhile_append_of_pos hline]
  simp [Token.isInLine, hnewline]

@[simp] theorem afterLine_append : afterLine (line ++ newline :: after) = after := by
  unfold afterLine
  rw [List.dropWhile_append_of_pos hline]
  simp [Token.isInLine, hnewline]

theorem foldl_depthAfter_line (htidy : Tidy (first :: line ++ newline :: after))
    (hfirst : first.isLayout = false) (depth : Nat) :
    (first :: line ++ newline :: after).foldl Token.depthAfter depth =
      after.foldl Token.depthAfter depth := by
  have hkinds : ∀ t ∈ line, t.kind ≠ .newline := by
    intro t ht hkind
    have hinLine := hline t ht
    simp [Token.isInLine, hkind] at hinLine
  have hlayout : ∀ t ∈ first :: line, t.isLayout = false :=
    List.forall_mem_cons.2 ⟨hfirst, Tidy.isLayout_of_line htidy.left_of_append hfirst hkinds⟩
  have hshifts : ∀ t ∈ first :: line, t.shiftsDepth = false := fun t ht =>
    Bool.eq_false_iff.2 (mt Token.isLayout_of_shiftsDepth (by simp [hlayout t ht]))
  rw [List.foldl_append, foldl_depthAfter_of_shiftsDepth hshifts, List.foldl_cons,
    Token.depthAfter_of_shiftsDepth (by simp [Token.shiftsDepth, hnewline])]

theorem nest_append_line {s : Nesting} {held : List Statement} (hlayout : first.isLayout = false)
    (hend : first.kind ≠ .endMarker) (hheld : logicalLine first line = .ok (.statements held)) :
    nest s (first :: (line ++ newline :: after)) = nest (s.add held) after := by
  rw [nest_line hlayout hend (by rwa [takeWhile_isInLine_append hline hnewline]),
    afterLine_append hline hnewline]

theorem nest_append_header {s : Nesting} {keyword : String} {p : Position} {header below : List Token}
    {next : Token} (hlayout : first.isLayout = false) (hend : first.kind ≠ .endMarker)
    (hheld : logicalLine first line = .ok (.header keyword p header)) (hafter : after = next :: below)
    (hindent : next.kind = .indent) :
    nest s (first :: (line ++ newline :: after)) = nest (s.enter keyword p header) below :=
  nest_header hlayout hend (by rwa [takeWhile_isInLine_append hline hnewline])
    (by rw [afterLine_append hline hnewline, hafter]) hindent

end Line

/-- The tokens lead from one nesting to another: the second is as deep as the blocks that they leave
open, and the rest of a script is read from it. -/
structure Nesting.Reads (s : Nesting) (tokens : List Token) (s' : Nesting) : Prop where
  depth_eq : s'.blocks.length = tokens.foldl Token.depthAfter s.blocks.length
  nest_eq : ∀ more, nest s (tokens ++ more) = nest s' more

namespace Nesting.Reads

variable {s s' : Nesting} {t : Token} {tokens : List Token}

theorem nil (s : Nesting) : s.Reads [] s :=
  ⟨rfl, fun _ => rfl⟩

theorem dedent (ht : t.kind = .dedent) (h : s.leave.Reads tokens s') : s.Reads (t :: tokens) s' := by
  refine ⟨?_, fun more => ?_⟩
  · rw [h.depth_eq, List.foldl_cons, Token.depthAfter, ht, length_blocks_leave]
  · simpa [ht] using h.nest_eq more

theorem newline (ht : t.kind = .newline) (h : s.Reads tokens s') : s.Reads (t :: tokens) s' := by
  refine ⟨?_, fun more => ?_⟩
  · rw [h.depth_eq, List.foldl_cons, Token.depthAfter, ht]
  · simpa [ht] using h.nest_eq more

section Line

variable {line after : List Token} {first newline : Token} (hline : ∀ t ∈ line, t.isInLine = true)
  (hnewline : newline.kind = .newline) (htidy : Tidy (first :: (line ++ newline :: after)))
  (hlayout : first.isLayout = false) (hend : first.kind ≠ .endMarker)
include hline hnewline htidy hlayout hend

theorem plainLine {held : List Statement} (hheld : logicalLine first line = .ok (.statements held))
    (h : (s.add held).Reads after s') : s.Reads (first :: (line ++ newline :: after)) s' := by
  refine ⟨?_, fun more => ?_⟩
  · rw [h.depth_eq, ← List.cons_append, foldl_depthAfter_line hline hnewline htidy hlayout]
    rfl
  · rw [List.cons_append, List.append_assoc, List.cons_append,
      nest_append_line hline hnewline hlayout hend hheld]
    exact h.nest_eq more

theorem headerLine {keyword : String} {p : Position} {header : List Token}
    (hheld : logicalLine first line = .ok (.header keyword p header)) {opening : Token}
    {below : List Token} (hafter : after = opening :: below) (hindent : opening.kind = .indent)
    (h : (s.enter keyword p header).Reads below s') :
    s.Reads (first :: (line ++ newline :: after)) s' := by
  subst hafter
  refine ⟨?_, fun more => ?_⟩
  · rw [h.depth_eq, ← List.cons_append, foldl_depthAfter_line hline hnewline htidy hlayout,
      List.foldl_cons, Token.depthAfter, hindent]
    rfl
  · rw [List.cons_append, List.append_assoc, List.cons_append, List.cons_append,
      nest_append_header hline hnewline hlayout hend hheld rfl hindent]
    exact h.nest_eq more

end Line

end Nesting.Reads

/-- Whole lines that a script begins with are read by themselves, unless a block begins right behind
them. -/
theorem exists_reads {s : Nesting} {lead rest : List Token} {next : Token}
    {statements : List Statement} (hlead : WholeLines lead) (hnext : next.kind ≠ .indent)
    (h : nest s (lead ++ next :: rest) = .ok statements) : ∃ s', s.Reads lead s' := by
  obtain ⟨tokens, htokens⟩ : ∃ tokens, tokens = lead ++ next :: rest := ⟨_, rfl⟩
  rw [← htokens] at h
  replace h := nest_eq_ok_iff.1 h
  -- Nothing is left to show where the tokens before the cut are all read.
  induction h generalizing lead with
  | @final s tokens hend =>
      cases lead with
      | nil => exact ⟨s, .nil s⟩
      | cons t lead =>
          subst htokens
          exact absurd (hend t rfl) (hlead.not_end t (by simp))
  | @dedent s t tail statements hkind _ ih =>
      cases lead with
      | nil => exact ⟨s, .nil s⟩
      | cons u lead =>
          obtain ⟨rfl, htail⟩ := List.cons.inj htokens
          obtain ⟨s', hreads⟩ := ih (hlead.suffix (List.suffix_cons t lead)) htail
          exact ⟨s', hreads.dedent hkind⟩
  | @newline s t tail statements hkind _ ih =>
      cases lead with
      | nil => exact ⟨s, .nil s⟩
      | cons u lead =>
          obtain ⟨rfl, htail⟩ := List.cons.inj htokens
          obtain ⟨s', hreads⟩ := ih (hlead.suffix (List.suffix_cons t lead)) htail
          exact ⟨s', hreads.newline hkind⟩
  | @line s t tail held statements hlayout hend hheld _ ih =>
      cases lead with
      | nil => exact ⟨s, .nil s⟩
      | cons u lead =>
          obtain ⟨rfl, htail⟩ := List.cons.inj htokens
          obtain ⟨line, newline, after, rfl, hline, hkind⟩ := hlead.exists_newline hlayout
          obtain rfl : tail = line ++ newline :: (after ++ next :: rest) := by simpa using htail
          rw [takeWhile_isInLine_append hline hkind] at hheld
          rw [afterLine_append hline hkind] at ih
          obtain ⟨s', hreads⟩ := ih (hlead.suffix ⟨t :: line ++ [newline], by simp⟩) rfl
          exact ⟨s', hreads.plainLine hline hkind hlead.tidy hlayout hend hheld⟩
  | @header s t tail keyword p header opening inner statements hlayout hend hheld hbelow hindent _ ih =>
      cases lead with
      | nil => exact ⟨s, .nil s⟩
      | cons u lead =>
          obtain ⟨rfl, htail⟩ := List.cons.inj htokens
          obtain ⟨line, newline, after, rfl, hline, hkind⟩ := hlead.exists_newline hlayout
          obtain rfl : tail = line ++ newline :: (after ++ next :: rest) := by simpa using htail
          rw [takeWhile_isInLine_append hline hkind] at hheld
          rw [afterLine_append hline hkind] at hbelow
          -- The block below the header begins in the lines that are read.
          cases after with
          | nil =>
              cases hbelow
              exact absurd hindent hnext
          | cons u after =>
              cases hbelow
              obtain ⟨s', hreads⟩ := ih (hlead.suffix ⟨t :: line ++ [newline, opening], by simp⟩) rfl
              exact ⟨s', hreads.headerLine hline hkind hlead.tidy hlayout hend hheld rfl hindent⟩

theorem nest_newlines {s : Nesting} {newlines : List Token} (h : ∀ t ∈ newlines, t.kind = .newline)
    (rest : List Token) : nest s (newlines ++ rest) = nest s rest := by
  induction newlines with
  | nil => rfl
  | cons t newlines ih =>
      obtain ⟨ht, hnewlines⟩ := List.forall_mem_cons.1 h
      simpa [ht] using ih hnewlines

theorem nest_dedents {s : Nesting} {dedents : List Token} (h : ∀ t ∈ dedents, t.kind = .dedent)
    (hlength : dedents.length = s.blocks.length) (rest : List Token) :
    nest s (dedents ++ rest) = nest ⟨[], (Nesting.closeAll s.statements s.blocks).reverse⟩ rest := by
  induction dedents generalizing s with
  | nil =>
      obtain ⟨blocks, statements⟩ := s
      cases List.eq_nil_of_length_eq_zero hlength.symm
      simp [Nesting.closeAll]
  | cons t dedents ih =>
      obtain ⟨ht, hdedents⟩ := List.forall_mem_cons.1 h
      rw [List.length_cons] at hlength
      rw [List.cons_append, nest_dedent ht, ih hdedents (by rw [length_blocks_leave]; omega),
        Nesting.closeAll_leave]

/-! ### Scripts -/

theorem EndsInFeed.start_after {text : List Char} (h : EndsInFeed text) :
    Position.start.after text = Position.start.down (text.count '\n') := by
  rw [Position.start_after]
  cases text using List.reverseRecOn with
  | nil => rfl
  | append_singleton body c =>
      obtain rfl : c = '\n' := h c (by simp)
      simp [Position.counted, Position.lastLine, Position.start, Position.down]

/-- A text is empty or ends in a line feed, and neither a backslash nor a carriage return stands before
the line feed. -/
def EndsLine (text : List Char) : Prop :=
  text = [] ∨ ∃ body, text = body ++ ['\n'] ∧ ∀ c ∈ body.getLast?, c ≠ '\\' ∧ c ≠ '\r'

namespace EndsLine

variable {text : List Char}

theorem endsInFeed (h : EndsLine text) : EndsInFeed text := by
  rcases h with rfl | ⟨body, rfl, -⟩
  · simp [EndsInFeed]
  · simp [EndsInFeed]

theorem start_after (h : EndsLine text) :
    Position.start.after text = Position.start.down (text.count '\n') :=
  h.endsInFeed.start_after

theorem kind_of_last {lexemes : List Lexeme} {p : Position} {l : Lexeme} (h : EndsLine text)
    (hlexed : Lexeme.Lexed false p text lexemes) (hl : l ∈ lexemes.getLast?)
    (hkind : l.kind = .lineBreak ∨ l.kind = .continuation) : l.kind = .lineBreak := by
  refine hkind.resolve_right fun hcontinues => ?_
  obtain ⟨earlier, rfl⟩ := List.getLast?_eq_some_iff.1 hl
  obtain ⟨htext, -, hshape⟩ := hlexed.shape_at
  rw [hcontinues] at hshape
  generalize l.text = joined at htext hshape
  cases hshape with
  | continuation heol =>
      -- What is joined to the line feed would be the backslash, or a carriage return behind it.
      rw [List.flatMap_nil, List.append_nil] at htext
      rcases h with rfl | ⟨body, rfl, hbody⟩
      · simp at htext
      · simp only [List.mem_cons, List.not_mem_nil, or_false] at heol
        rcases heol with rfl | rfl | rfl
        · have hbackslash : body ++ ['\n'] = earlier.flatMap Lexeme.text ++ ['\\'] ++ ['\n'] := by
            simpa using htext
          obtain ⟨rfl, -⟩ := List.append_inj' hbackslash rfl
          exact absurd rfl (hbody '\\' (by simp)).1
        · have hlast := congrArg List.getLast? htext
          simp at hlast
        · have hreturn : body ++ ['\n'] = earlier.flatMap Lexeme.text ++ ['\\', '\r'] ++ ['\n'] := by
            simpa using htext
          obtain ⟨rfl, -⟩ := List.append_inj' hreturn rfl
          exact absurd rfl (hbody '\r' (by simp)).2

end EndsLine

namespace Layout

theorem Runs.lineStart_eq {s s' : Layout} {earlier : List Lexeme} {l : Lexeme} {tokens : List Token}
    (h : Runs s (earlier ++ [l]) tokens s') (hkind : l.kind = .lineBreak)
    (hbrackets : s'.brackets = []) : s'.lineStart = some 0 := by
  obtain ⟨_, s₁, _, -, hlast, -⟩ := h.exists_of_append
  cases hlast with
  | @cons _ _ more _ _ _ _ hstep hrest =>
      cases hrest
      unfold Layout.step at hstep
      rw [hkind] at hstep
      have hbreak : s₁.breakLine l.position = (more, s') := Except.ok.inj hstep
      rcases breakLine_cases s₁ l.position with ⟨heq, -, hopen⟩ | ⟨heq, -⟩ | heq
      · rw [hbreak] at heq
        cases heq
        exact absurd hbrackets hopen
      · rw [hbreak] at heq
        cases heq
        rfl
      · rw [hbreak] at heq
        cases heq
        rfl

theorem Traces.isQuiet_newest {before : List Token} {s : Layout} (hs : Traces before s)
    (hstart : s.lineStart.isSome = true) (hindents : s.indents = []) : isQuiet s.newest = true := by
  cases before using List.reverseRecOn with
  | nil =>
      rw [hs.newest_eq]
      rfl
  | append_singleton earlier t =>
      have hlayout := hs.line_ended hstart t (by simp)
      have hdepth := hs.depth_eq
      rw [hs.newest_eq, List.getLast?_concat, Option.map_some]
      rw [hindents, List.foldl_append, List.foldl_cons, List.foldl_nil, Token.depthAfter] at hdepth
      rcases Token.isLayout_iff.1 hlayout with hkind | hkind | hkind
      · rw [hkind]
        rfl
      · rw [hkind] at hdepth
        cases hdepth
      · rw [hkind]
        rfl

end Layout

/-- What stands below another script is read at the outermost level. -/
theorem nest_of_below {k : Nat} {indents : List Nat} {alone tokens : List Token} {s : Nesting}
    (h : Layout.Below k indents alone tokens) (hdepth : s.blocks.length = indents.length) :
    nest s tokens = nest ⟨[], (Nesting.closeAll s.statements s.blocks).reverse⟩
      (alone.map (Token.down k)) := by
  obtain ⟨newlines, dedents, rfl, hnewlines, hdedents, hlength⟩ := h
  rw [List.append_assoc, nest_newlines hnewlines, nest_dedents hdedents (hlength.trans hdepth.symm)]

section Script

variable {first second : String} {tokens more : List Token} {statements others : List Statement}

/-- The state behind a script that ends its last line. A line begins there, and the rest of the tokens
ends the open blocks. -/
theorem exists_state (h : tokenize first = .ok tokens) (hline : EndsLine first.toList) :
    ∃ body closing indents newest,
      Layout.Runs {} (scriptLexemes first) body ⟨indents, [], some 0, newest⟩ ∧
      tokens = body ++ closing ∧ WholeLines body ∧
      body.foldl Token.depthAfter 0 = indents.length ∧ (∀ width ∈ indents, 0 < width) ∧
      (indents = [] → Layout.isQuiet newest = true) ∧
      Layout.Below 0 indents [⟨.endMarker, "", Position.start.after first.toList⟩] closing := by
  obtain ⟨body, s, closing, hruns, hfinish, htokens⟩ := Layout.run_eq_ok.1 h
  rw [List.reverse_nil, List.nil_append] at htokens
  have hs : s.Traces body := by
    simpa using Layout.traces_initial.runs hruns
  obtain ⟨hbrackets, newlines, dedents, hclosing, hnewlines, hdedents, hlength, -⟩ :=
    Layout.finish_closing hfinish
  have hstart : s.lineStart = some 0 := by
    cases hlast : (scriptLexemes first).getLast? with
    | none =>
        change Layout.Runs {} (scriptLexemes first) body s at hruns
        rw [List.getLast?_eq_none_iff.1 hlast] at hruns
        cases hruns
        rfl
    | some l =>
        have hsplit := Lexeme.split_append hline.endsInFeed (follows_of_tokenize h).intact []
        have hkind := hline.kind_of_last (lexed_scriptLexemes first) hlast (hsplit.2 l hlast)
        obtain ⟨earlier, heq⟩ := List.getLast?_eq_some_iff.1 hlast
        change Layout.Runs {} (scriptLexemes first) body s at hruns
        rw [heq] at hruns
        exact hruns.lineStart_eq hkind hbrackets
  obtain ⟨inner, hinner, hends⟩ := endMarker_of_tokenize h
  obtain ⟨indents, brackets, lineStart, newest⟩ := s
  subst hbrackets hstart
  refine ⟨body, closing, indents, newest, hruns, htokens, ⟨hs.tidy, hs.line_ended rfl, ?_⟩, hs.depth_eq,
    hs.indents_pos, hs.isQuiet_newest rfl, newlines, dedents, hclosing, hnewlines, hdedents, hlength⟩
  rw [htokens, hclosing, ← List.append_assoc] at hinner
  obtain ⟨rfl, -⟩ := List.append_inj' hinner rfl
  exact fun t ht => hends t (List.mem_append_left _ ht)

theorem kind_head_of_parse (h : parse tokens = .ok statements) :
    ∀ t ∈ tokens.head?, t.kind ≠ .indent := by
  intro t ht hkind
  obtain ⟨rest, rfl⟩ := List.head?_eq_some_iff.1 ht
  rw [parse, nest, hkind] at h
  cases h

/-- Behind a script that ends its last line another one has the tokens that it has below the first. -/
theorem tokenize_append (hfirst : tokenize first = .ok tokens) (hsecond : tokenize second = .ok more)
    (hline : EndsLine first.toList) (hindent : ∀ t ∈ more.head?, t.kind ≠ .indent) :
    ∃ body closing joined indents, tokens = body ++ closing ∧ WholeLines body ∧
      body.foldl Token.depthAfter 0 = List.length indents ∧
      Layout.Below 0 indents [⟨.endMarker, "", Position.start.after first.toList⟩] closing ∧
      Layout.Below (first.toList.count '\n') indents more joined ∧
      tokenize (first ++ second) = .ok (body ++ joined) := by
  obtain ⟨body, closing, indents, newest, hruns, rfl, hbody, hdepth, hindents, hnewest, hclosing⟩ :=
    exists_state hfirst hline
  obtain ⟨body₂, s₂, closing₂, hruns₂, hfinish₂, rfl⟩ := Layout.run_eq_ok.1 hsecond
  rw [List.reverse_nil, List.nil_append] at hindent ⊢
  obtain ⟨body', closing', t, hruns', hfinish', hbelow⟩ :=
    Layout.runs_below (k := first.toList.count '\n') hindents hnewest hruns₂ hfinish₂ fun t ht =>
      hindent t (by simp [List.head?_append, Option.mem_def.1 ht])
  refine ⟨body, closing, _, indents, rfl, hbody, hdepth, hclosing, hbelow, ?_⟩
  have hplace := hline.start_after
  refine Layout.run_eq_ok.2 ⟨body ++ body', t, closing', ?_, ?_, by simp⟩
  · rw [String.toList_append, (Lexeme.split_append hline.endsInFeed (follows_of_tokenize hfirst).intact
      second.toList).1, hplace, Lexeme.split_down]
    exact hruns.append hruns'
  · rw [String.toList_append, Position.after_append, hplace, Position.down_after]
    exact hfinish'

/-- Behind a script that ends its last line another one has the same statements, further down. -/
theorem Script.append (hfirst : Script first tokens statements) (hsecond : Script second more others)
    (hline : EndsLine first.toList) :
    ∃ joined, Script (first ++ second) joined
      (statements ++ others.map (Statement.down (first.toList.count '\n'))) := by
  obtain ⟨body, closing, joined, indents, rfl, hbody, hdepth, hclosing, hbelow, htokens⟩ :=
    tokenize_append hfirst.tokenize_eq hsecond.tokenize_eq hline (kind_head_of_parse hsecond.parse_eq)
  refine ⟨_, htokens, ?_⟩
  obtain ⟨next, rest, hnext, hrest⟩ : ∃ next rest, next.kind ≠ .indent ∧ closing = next :: rest := by
    obtain ⟨newlines, dedents, rfl, hnewlines, hdedents, -⟩ := hclosing
    cases newlines with
    | cons t newlines => exact ⟨t, _, by simp [hnewlines], rfl⟩
    | nil =>
        cases dedents with
        | cons t dedents => exact ⟨t, _, by simp [hdedents], rfl⟩
        | nil => exact ⟨_, _, by simp [Token.down, TokenKind.down], rfl⟩
  have hparse := hfirst.parse_eq
  unfold parse at hparse ⊢
  obtain ⟨s, hreads⟩ := exists_reads hbody hnext (by rwa [← hrest])
  have hblocks : s.blocks.length = indents.length := hreads.depth_eq.trans hdepth
  rw [hreads.nest_eq, nest_of_below hclosing hblocks, nest_of_atEnd (by simp [AtEnd, Token.down,
    TokenKind.down])] at hparse
  rw [hreads.nest_eq, nest_of_below hbelow hblocks]
  have hstatements : Nesting.closeAll s.statements s.blocks = statements := by
    simpa [Nesting.closeAll] using hparse
  have hnest := nest_down (first.toList.count '\n') statements.reverse hsecond.parse_eq
  rw [List.reverse_reverse] at hnest
  rw [hstatements]
  exact hnest

end Script

end ScriptSandbox
