import ScriptSandbox.Proofs.Source.LayoutRuns

/-!
Indentation in order. The indentations of a state are the blocks that the tokens before it have opened
and not left, so no block is left that was not entered, and the end of a script leaves them all. A
line ends only where something stands that can end: not at the very beginning, not behind another line
end and not behind the end of a block.
-/

namespace ScriptSandbox

namespace Token

def isIndent (t : Token) : Bool :=
  t.kind == .indent

def isDedent (t : Token) : Bool :=
  t.kind == .dedent

end Token

/-- Behind some tokens `depth` blocks are open. None is left that is not open. -/
inductive EndsDeep : Nat → List Token → Prop
  | nil : EndsDeep 0 []
  | indent {depth tokens t} : EndsDeep depth tokens → t.kind = .indent →
      EndsDeep (depth + 1) (tokens ++ [t])
  | dedent {depth tokens t} : EndsDeep (depth + 1) tokens → t.kind = .dedent →
      EndsDeep depth (tokens ++ [t])
  | other {depth tokens t} : EndsDeep depth tokens → t.shiftsDepth = false →
      EndsDeep depth (tokens ++ [t])

namespace EndsDeep

variable {depth : Nat} {tokens more before after : List Token} {t : Token}

theorem countP_isIndent (h : EndsDeep depth tokens) :
    tokens.countP Token.isIndent = tokens.countP Token.isDedent + depth := by
  induction h with
  | nil => rfl
  | indent _ hkind ih =>
      simp only [List.countP_append, List.countP_singleton, Token.isIndent, Token.isDedent, hkind] at *
      simp [ih, Nat.add_assoc]
  | dedent _ hkind ih =>
      simp only [List.countP_append, List.countP_singleton, Token.isIndent, Token.isDedent, hkind] at *
      simp only [ih, BEq.rfl, if_true]
      simp
      omega
  | other _ hshifts ih =>
      simp only [Token.shiftsDepth, Bool.or_eq_false_iff] at hshifts
      simp [List.countP_append, ih, Token.isIndent, Token.isDedent, hshifts]

theorem append_other (h : EndsDeep depth tokens) (hmore : ∀ t ∈ more, t.shiftsDepth = false) :
    EndsDeep depth (tokens ++ more) := by
  induction more using List.reverseRecOn with
  | nil => rwa [List.append_nil]
  | append_singleton more t ih =>
      rw [← List.append_assoc]
      exact (ih fun u hu => hmore u (by simp [hu])).other (hmore t (by simp))

theorem append_dedents (h : EndsDeep (depth + more.length) tokens)
    (hmore : ∀ t ∈ more, t.kind = .dedent) : EndsDeep depth (tokens ++ more) := by
  induction more using List.reverseRecOn generalizing depth with
  | nil => simpa using h
  | append_singleton more t ih =>
      rw [← List.append_assoc]
      refine .dedent (ih ?_ fun u hu => hmore u (by simp [hu])) (hmore t (by simp))
      have hdepth : depth + 1 + more.length = depth + (more ++ [t]).length := by
        rw [List.length_append, List.length_singleton]
        omega
      rwa [hdepth]

/-- On the way to the end of some tokens, some blocks are open at every place. -/
theorem of_append (h : EndsDeep depth (before ++ after)) : ∃ outer, EndsDeep outer before := by
  induction after using List.reverseRecOn generalizing depth with
  | nil => exact ⟨depth, by simpa using h⟩
  | append_singleton after u ih =>
      rw [← List.append_assoc] at h
      generalize hwhole : before ++ after ++ [u] = whole at h
      cases h with
      | nil => simp at hwhole
      | indent h =>
          obtain ⟨rfl, -⟩ := List.append_inj' hwhole rfl
          exact ih h
      | dedent h =>
          obtain ⟨rfl, -⟩ := List.append_inj' hwhole rfl
          exact ih h
      | other h =>
          obtain ⟨rfl, -⟩ := List.append_inj' hwhole rfl
          exact ih h

end EndsDeep

/-- What a line end comes behind: a token that is neither a line end nor the end of a block. -/
def EndsOpenLine (tokens : List Token) : Prop :=
  ∃ t ∈ tokens.getLast?, t.kind ≠ .newline ∧ t.kind ≠ .dedent

/-- Every line end comes behind something that it ends. -/
def NewlinesEndLines (tokens : List Token) : Prop :=
  ∀ before t after, tokens = before ++ t :: after → t.kind = .newline → EndsOpenLine before

namespace NewlinesEndLines

variable {tokens more : List Token} {t : Token}

theorem nil : NewlinesEndLines [] := by
  intro before t after h
  simp at h

theorem concat (h : NewlinesEndLines tokens) (ht : t.kind = .newline → EndsOpenLine tokens) :
    NewlinesEndLines (tokens ++ [t]) := by
  intro before u after heq hu
  rcases cut_of_concat heq with ⟨rfl, rfl⟩ | ⟨rest, hrest, -⟩
  · exact ht hu
  · exact h before u rest hrest hu

theorem append_other (h : NewlinesEndLines tokens) (hmore : ∀ t ∈ more, t.kind ≠ .newline) :
    NewlinesEndLines (tokens ++ more) := by
  induction more using List.reverseRecOn with
  | nil => rwa [List.append_nil]
  | append_singleton more t ih =>
      rw [← List.append_assoc]
      exact (ih fun u hu => hmore u (by simp [hu])).concat fun ht => absurd ht (hmore t (by simp))

end NewlinesEndLines

namespace Layout

/-- Turning an indentation into tokens enters one block or leaves some. -/
theorem settle_shifts {s s' : Layout} {p : Position} {more : List Token}
    (h : s.settle p = .ok (more, s')) :
    (∃ t, more = [t] ∧ t.kind = .indent ∧ s'.indents.length = s.indents.length + 1) ∨
      (∀ t ∈ more, t.kind = .dedent) ∧ s.indents.length = s'.indents.length + more.length := by
  cases settles_of_settle h with
  | going => exact .inr ⟨by simp, rfl⟩
  | deeper => exact .inl ⟨_, rfl, rfl, rfl⟩
  | closing _ hindents =>
      refine .inr ⟨fun t ht => ?_, ?_⟩
      · obtain ⟨_, -, rfl⟩ := List.mem_map.1 ht
        rfl
      · -- Each dedent stands for one of the indentations that are left out.
        rw [hindents, List.length_append, List.length_map, Nat.add_comm]

theorem endsOpenLine_of_newest {before : List Token} {newest : Option TokenKind}
    (hnewest : newest = before.getLast?.map Token.kind) (hnone : newest ≠ none)
    (hnewline : newest ≠ some .newline) (hdedent : newest ≠ some .dedent) : EndsOpenLine before := by
  obtain ⟨kind, hkind⟩ := Option.ne_none_iff_exists'.1 hnone
  rw [hkind] at hnewest
  obtain ⟨last, hlast, rfl⟩ := Option.map_eq_some_iff.1 hnewest.symm
  exact ⟨last, hlast, by simpa [hkind] using hnewline, by simpa [hkind] using hdedent⟩

theorem endsOpenLine_of_breakLine {s : Layout} {p : Position} {before : List Token} {t : Token}
    (hnewest : s.newest = before.getLast?.map Token.kind) (ht : t ∈ (s.breakLine p).1) :
    EndsOpenLine before := by
  unfold breakLine at ht
  split at ht
  · cases ht
  · split at ht
    · split at ht
      · cases ht
      · cases ht
      · cases ht
      · cases ht
      · rename_i hnone hnewline _ hdedent
        exact endsOpenLine_of_newest hnewest hnone hnewline hdedent
    · cases ht

@[simp] theorem indents_of_breakLine (s : Layout) (p : Position) :
    (s.breakLine p).2.indents = s.indents := by
  rcases breakLine_cases s p with ⟨heq, -⟩ | ⟨heq, -⟩ | heq
  · rw [heq]
  · rw [heq]
  · rw [heq]

/-- What a state knows of the layout tokens before it. -/
structure Orders (before : List Token) (s : Layout) : Prop where
  traces : s.Traces before
  endsDeep : EndsDeep s.indents.length before
  newlines : NewlinesEndLines before

theorem orders_initial : Orders [] {} :=
  ⟨traces_initial, .nil, .nil⟩

namespace Orders

variable {before more tokens : List Token} {s s' : Layout} {p : Position} {t : Token} {l : Lexeme}

theorem settle (hs : Orders before s) (h : s.settle p = .ok (more, s')) :
    Orders (before ++ more) s' := by
  refine ⟨hs.traces.settle h, ?_, ?_⟩
  · rcases settle_shifts h with ⟨t, rfl, hkind, hdepth⟩ | ⟨hkinds, hdepth⟩
    · rw [hdepth]
      exact .indent hs.endsDeep hkind
    · exact .append_dedents (hdepth ▸ hs.endsDeep) hkinds
  · refine hs.newlines.append_other fun t ht => ?_
    rcases settle_shifts h with ⟨u, rfl, hkind, -⟩ | ⟨hkinds, -⟩
    · simp [List.mem_singleton.1 ht, hkind]
    · simp [hkinds t ht]

theorem breakLine (hs : Orders before s) :
    Orders (before ++ (s.breakLine p).1) (s.breakLine p).2 := by
  have hone : (s.breakLine p).1 = [] ∨ (s.breakLine p).1 = [⟨.newline, "\n", p⟩] := by
    rcases breakLine_cases s p with ⟨heq, -⟩ | ⟨heq, -⟩ | heq
    · simp [heq]
    · simp [heq]
    · simp [heq]
  refine ⟨hs.traces.breakLine, ?_, ?_⟩
  · rw [indents_of_breakLine]
    rcases hone with hnone | hnewline
    · simpa [hnone] using hs.endsDeep
    · rw [hnewline]
      exact .other hs.endsDeep rfl
  · have hopen := fun t => endsOpenLine_of_breakLine (t := t) (p := p) hs.traces.newest_eq
    rcases hone with hnone | hnewline
    · simpa [hnone] using hs.newlines
    · rw [hnewline] at hopen ⊢
      exact hs.newlines.concat fun _ => hopen ⟨.newline, "\n", p⟩ (by simp)

theorem take (hs : Orders before s) (hwritten : t.isWritten = true)
    (h : s.take t = .ok (more, s')) : Orders (before ++ more) s' := by
  refine ⟨hs.traces.take hwritten h, ?_, ?_⟩
  · obtain ⟨layout, s₁, s₂, hsettle, hbracket, rfl, rfl⟩ := take_eq_ok h
    have hindents : s₂.indents = s₁.indents := by
      split at hbracket
      · exact (turnBracket_eq_ok hbracket).1
      · rw [hbracket]
    rw [← List.append_assoc]
    refine .other ?_ (Token.shiftsDepth_of_isWritten hwritten)
    rw [hindents]
    exact (hs.settle hsettle).endsDeep
  · obtain ⟨layout, s₁, s₂, hsettle, -, rfl, -⟩ := take_eq_ok h
    rw [← List.append_assoc]
    refine (hs.settle hsettle).newlines.concat fun hkind => ?_
    simp [Token.isWritten, hkind] at hwritten

theorem isKept : IsKept Orders where
  measure hs hstart := ⟨hs.traces.measure hstart, hs.endsDeep, hs.newlines⟩
  breakLine := breakLine
  settle := settle
  take := take

theorem runs {lexemes : List Lexeme} (hs : Orders before s) (h : Runs s lexemes tokens s') :
    Orders (before ++ tokens) s' :=
  isKept.runs hs h

end Orders

theorem finish_newline {s : Layout} {p : Position} {before closing : List Token}
    (hnewest : s.newest = before.getLast?.map Token.kind) (h : s.finish p = .ok closing) :
    ∃ newline dedents : List Token, closing = newline ++ dedents ++ [⟨.endMarker, "", p⟩] ∧
      (newline = [] ∨ newline = [⟨.newline, "\n", p⟩] ∧ EndsOpenLine before) ∧
      (∀ t ∈ dedents, t.kind = .dedent) ∧ dedents.length = s.indents.length := by
  unfold finish at h
  split at h
  · cases h
  · cases h
    refine ⟨_, _, rfl, ?_, ?_, by simp⟩
    · split
      · exact .inl rfl
      · exact .inl rfl
      · exact .inl rfl
      · rename_i hnone hnewline hdedent
        exact .inr ⟨rfl, endsOpenLine_of_newest hnewest hnone hnewline hdedent⟩
    · intro t ht
      obtain ⟨_, -, rfl⟩ := List.mem_map.1 ht
      rfl

end Layout

/-- The layout tokens of a script are in order. -/
structure WellLaid (tokens : List Token) : Prop where
  /-- Nowhere are more blocks left than entered. -/
  dedents_le : ∀ before, before <+: tokens →
    before.countP Token.isDedent ≤ before.countP Token.isIndent
  /-- In the end all blocks are left. -/
  dedents_eq : tokens.countP Token.isDedent = tokens.countP Token.isIndent
  /-- The last token is an end marker, and no other one is. -/
  endMarker : ∃ body last, tokens = body ++ [last] ∧ last.kind = .endMarker ∧
    ∀ t ∈ body, t.kind ≠ .endMarker
  /-- Blocks are entered and left where a line begins. -/
  shifts : ∀ before t after, tokens = before ++ t :: after →
    t.kind = .indent ∨ t.kind = .dedent →
      ∀ u ∈ before.getLast?, u.kind = .newline ∨ u.kind = .indent ∨ u.kind = .dedent
  /-- A line end comes behind something, which is neither a line end nor the end of a block. -/
  newlines : ∀ before t after, tokens = before ++ t :: after → t.kind = .newline →
    ∃ u ∈ before.getLast?, u.kind ≠ .newline ∧ u.kind ≠ .dedent

/-- All tokens of a script and their end are in order: every block that is entered is left, and no line
end is missing or too many. -/
theorem wellLaid_of_tokenize {source : String} {tokens : List Token}
    (h : tokenize source = .ok tokens) : WellLaid tokens := by
  obtain ⟨body, s, closing, hruns, hfinish, heq⟩ := Layout.run_eq_ok.1 h
  rw [List.reverse_nil, List.nil_append] at heq
  have hs : s.Orders body := by
    simpa using Layout.orders_initial.runs hruns
  obtain ⟨newline, dedents, rfl, hnewline, hdedents, hlength⟩ :=
    Layout.finish_newline hs.traces.newest_eq hfinish
  have hdeep : EndsDeep 0 tokens := by
    have hline : EndsDeep s.indents.length (body ++ newline) := by
      refine hs.endsDeep.append_other fun t ht => ?_
      rcases hnewline with rfl | ⟨rfl, -⟩
      · cases ht
      · rw [List.mem_singleton.1 ht]
        rfl
    rw [← hlength, ← Nat.zero_add dedents.length] at hline
    have hend := (hline.append_dedents hdedents).other
      (t := ⟨.endMarker, "", Position.start.after source.toList⟩) rfl
    simpa [heq] using hend
  have hnewlines : NewlinesEndLines tokens := by
    have hline : NewlinesEndLines (body ++ newline) := by
      rcases hnewline with rfl | ⟨rfl, hopen⟩
      · rw [List.append_nil]
        exact hs.newlines
      · exact hs.newlines.concat fun _ => hopen
    have hkinds : ∀ t ∈ dedents, t.kind ≠ .newline := fun t ht => by simp [hdedents t ht]
    have hend := (hline.append_other hkinds).concat
      (t := ⟨.endMarker, "", Position.start.after source.toList⟩) (by simp)
    simpa [heq] using hend
  obtain ⟨inner, hinner, hmarkers⟩ := endMarker_of_tokenize h
  refine ⟨?_, ?_, ⟨inner, _, hinner, rfl, hmarkers⟩, ?_, hnewlines⟩
  · rintro before ⟨after, rfl⟩
    obtain ⟨depth, hbefore⟩ := hdeep.of_append
    rw [hbefore.countP_isIndent]
    exact Nat.le_add_right _ _
  · rw [hdeep.countP_isIndent, Nat.add_zero]
  · intro before t after hcut hkind u hu
    have hlink := (List.isChain_append.1 (hcut ▸ tidy_of_tokenize h)).2.2 u hu t rfl
    refine Token.isLayout_iff.1 (hlink ?_)
    rcases hkind with hkind | hkind
    · simp [Token.shiftsDepth, hkind]
    · simp [Token.shiftsDepth, hkind]

theorem wellLaid_continued_block :
    tokenize "if a:\n  \\\n\tb\n  c" = .ok
      [⟨.name, "if", ⟨1, 0⟩⟩, ⟨.name, "a", ⟨1, 3⟩⟩, ⟨.operator, ":", ⟨1, 4⟩⟩, ⟨.newline, "\n", ⟨1, 5⟩⟩,
        ⟨.indent, "", ⟨2, 0⟩⟩, ⟨.name, "b", ⟨3, 1⟩⟩, ⟨.newline, "\n", ⟨3, 2⟩⟩, ⟨.name, "c", ⟨4, 2⟩⟩,
        ⟨.newline, "\n", ⟨4, 3⟩⟩, ⟨.dedent, "", ⟨4, 0⟩⟩, ⟨.endMarker, "", ⟨4, 3⟩⟩] ∧
    WellLaid
      [⟨.name, "if", ⟨1, 0⟩⟩, ⟨.name, "a", ⟨1, 3⟩⟩, ⟨.operator, ":", ⟨1, 4⟩⟩, ⟨.newline, "\n", ⟨1, 5⟩⟩,
        ⟨.indent, "", ⟨2, 0⟩⟩, ⟨.name, "b", ⟨3, 1⟩⟩, ⟨.newline, "\n", ⟨3, 2⟩⟩, ⟨.name, "c", ⟨4, 2⟩⟩,
        ⟨.newline, "\n", ⟨4, 3⟩⟩, ⟨.dedent, "", ⟨4, 0⟩⟩, ⟨.endMarker, "", ⟨4, 3⟩⟩] := by
  have htokenize : tokenize "if a:\n  \\\n\tb\n  c" = .ok
      [⟨.name, "if", ⟨1, 0⟩⟩, ⟨.name, "a", ⟨1, 3⟩⟩, ⟨.operator, ":", ⟨1, 4⟩⟩, ⟨.newline, "\n", ⟨1, 5⟩⟩,
        ⟨.indent, "", ⟨2, 0⟩⟩, ⟨.name, "b", ⟨3, 1⟩⟩, ⟨.newline, "\n", ⟨3, 2⟩⟩, ⟨.name, "c", ⟨4, 2⟩⟩,
        ⟨.newline, "\n", ⟨4, 3⟩⟩, ⟨.dedent, "", ⟨4, 0⟩⟩, ⟨.endMarker, "", ⟨4, 3⟩⟩] := by
    decide +kernel
  exact ⟨htokenize, wellLaid_of_tokenize htokenize⟩

end ScriptSandbox
