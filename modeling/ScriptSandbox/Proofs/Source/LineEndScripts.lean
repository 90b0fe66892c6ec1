import ScriptSandbox.Proofs.Source.LineEndLexemes
import ScriptSandbox.Proofs.Source.TokenStream

/-!
Scripts with carriage returns. A script in which a carriage return stands before every line feed has the
same tokens in the same places, and carriage returns stand in the texts of its strings only. But it has
tokens only if no string between single quotes goes on in another line.
-/

namespace ScriptSandbox

/-! ### Tokens -/

def TokenKind.withReturns : TokenKind → TokenKind
  | .string fields => .string (fields.map Field.withReturns)
  | kind => kind

theorem TokenKind.withReturns_eq_iff {kind other : TokenKind} (h : ∀ fields, other ≠ .string fields) :
    kind.withReturns = other ↔ kind = other := by
  cases kind with
  | string fields => simp [withReturns, (h _).symm]
  | _ => rfl

namespace Token

def withReturns (t : Token) : Token :=
  match t.kind with
  | .string _ =>
      ⟨t.kind.withReturns, String.ofList (ScriptSandbox.withReturns t.text.toList), t.position⟩
  | _ => t

def isFolded (t : Token) : Bool :=
  match t.kind with
  | .string _ => Lexeme.isFoldedText t.text.toList
  | _ => false

variable {t : Token}

theorem withReturns_of_kind (h : ∀ fields, t.kind ≠ .string fields) : t.withReturns = t := by
  unfold withReturns
  split
  · rename_i fields hkind
    exact absurd hkind (h fields)
  · rfl

@[simp] theorem kind_withReturns : t.withReturns.kind = t.kind.withReturns := by
  unfold withReturns
  cases hkind : t.kind <;> simp [hkind, TokenKind.withReturns]

@[simp] theorem position_withReturns : t.withReturns.position = t.position := by
  unfold withReturns
  split <;> rfl

theorem withReturns_of_isLayout (h : t.isLayout = true) : t.withReturns = t :=
  withReturns_of_kind fun fields hkind => by
    rw [isLayout, hkind] at h
    cases h

theorem map_withReturns_of_isLayout {tokens : List Token} (h : ∀ t ∈ tokens, t.isLayout = true) :
    tokens.map withReturns = tokens :=
  (List.map_congr_left fun t ht => withReturns_of_isLayout (h t ht)).trans (List.map_id _)

end Token

namespace Lexeme

variable {l : Lexeme}

theorem isFolded_of_token? {t : Token} (h : l.token? = some t) : t.isFolded = l.isFolded := by
  unfold token? at h
  unfold isFolded
  split at h
  all_goals rename_i hkind; cases h
  all_goals simp [Token.isFolded, LexemeKind.isString, hkind]

theorem exists_token?_of_isFolded (h : l.isFolded = true) : ∃ t, l.token? = some t := by
  unfold isFolded at h
  unfold token?
  cases hkind : l.kind <;> simp_all [LexemeKind.isString]

end Lexeme

/-! ### Layout -/

namespace Layout

/-- The state when a carriage return stands before every line feed. -/
def withReturns (s : Layout) : Layout :=
  { s with newest := s.newest.map TokenKind.withReturns }

/-- The tokens of a lexeme and the state behind it when a carriage return stands before every line
feed. -/
def returned (found : List Token × Layout) : List Token × Layout :=
  (found.1.map Token.withReturns, found.2.withReturns)

variable {s : Layout} {p : Position} {t : Token} {l : Lexeme}

@[simp] theorem settle_withReturns : s.withReturns.settle p = (s.settle p).map returned := by
  unfold settle
  cases hstart : s.lineStart with
  | none => simp [withReturns, hstart, returned, Except.map]
  | some width =>
      simp only [withReturns, hstart]
      split
      · rfl
      · split
        · have hdedents (closed : List Nat) : (closed.map fun _ => (⟨.dedent, "", p⟩ : Token)).map
              Token.withReturns = closed.map fun _ => ⟨.dedent, "", p⟩ := by
            rw [List.map_map]
            rfl
          simp only [Except.map, returned, hdedents, withReturns]
          split <;> rfl
        · rfl

@[simp] theorem turnBracket_withReturns :
    s.withReturns.turnBracket t = (s.turnBracket t).map withReturns := by
  unfold turnBracket
  split
  · split
    · rfl
    · split
      · unfold withReturns
        dsimp only
        split
        · rfl
        · split
          · rfl
          · rfl
      · rfl
  · rfl

@[simp] theorem take_withReturns : s.withReturns.take t.withReturns = (s.take t).map returned := by
  unfold take
  rw [Token.position_withReturns, settle_withReturns]
  cases s.settle t.position with
  | error problem => rfl
  | ok found =>
      obtain ⟨layout, s₁⟩ := found
      by_cases hoperator : t.kind = .operator
      · have ht : t.withReturns = t := Token.withReturns_of_kind (by simp [hoperator])
        simp only [ht, hoperator, if_true, Except.map, returned, bind, Except.bind]
        rw [turnBracket_withReturns]
        cases s₁.turnBracket t with
        | error problem => rfl
        | ok s₂ =>
            simp only [Except.map, pure, Except.pure, List.map_append, List.map_singleton, ht,
              withReturns]
            rfl
      · have hoperator' : t.kind.withReturns ≠ .operator := by
          rwa [ne_eq, TokenKind.withReturns_eq_iff (by simp)]
        simp only [Token.kind_withReturns, hoperator, hoperator', if_false, Except.map, returned, bind,
          Except.bind, pure, Except.pure, List.map_append, List.map_singleton, withReturns,
          Option.map_some]

@[simp] theorem breakLine_withReturns : s.withReturns.breakLine p = returned (s.breakLine p) := by
  unfold breakLine withReturns
  dsimp only
  split
  · rfl
  · split
    · cases hnewest : s.newest with
      | none => simp [returned, withReturns]
      | some kind =>
          cases kind <;> simp [returned, withReturns, TokenKind.withReturns, Token.withReturns]
    · rfl

theorem step_withReturns (h : l.kind.staysInLine = true → '\n' ∉ l.text) :
    s.withReturns.step l.withReturns = (s.step l).map returned := by
  have hsame (kind : TokenKind) (hkind : ∀ fields, kind ≠ .string fields)
      (hstays : l.kind.staysInLine = true) :
      (⟨kind, String.ofList (ScriptSandbox.withReturns l.text), l.position⟩ : Token) =
        Token.withReturns ⟨kind, String.ofList l.text, l.position⟩ := by
    rw [Token.withReturns_of_kind hkind, withReturns_of_not_mem (h hstays)]
  unfold step Lexeme.withReturns
  cases hkind : l.kind with
  | blank =>
      rw [hkind] at h
      simp only [LexemeKind.withReturns, withReturns_of_not_mem (h rfl)]
      rfl
  | comment => rfl
  | lineBreak => exact congrArg Except.ok breakLine_withReturns
  | continuation => exact settle_withReturns
  | stray => exact settle_withReturns
  | name =>
      simp only [LexemeKind.withReturns, hsame .name (by simp) (by rw [hkind]; rfl)]
      exact take_withReturns
  | number =>
      simp only [LexemeKind.withReturns, hsame .number (by simp) (by rw [hkind]; rfl)]
      exact take_withReturns
  | operator =>
      simp only [LexemeKind.withReturns, hsame .operator (by simp) (by rw [hkind]; rfl)]
      exact take_withReturns
  | string fields =>
      have hstring : (⟨.string (fields.map Field.withReturns),
          String.ofList (ScriptSandbox.withReturns l.text), l.position⟩ : Token) =
          Token.withReturns ⟨.string fields, String.ofList l.text, l.position⟩ := by
        simp [Token.withReturns, TokenKind.withReturns]
      simp only [LexemeKind.withReturns, hstring]
      exact take_withReturns
  | broken problem =>
      simp only [LexemeKind.withReturns, settle_withReturns]
      cases s.settle l.position <;> rfl

@[simp] theorem finish_withReturns :
    s.withReturns.finish p = (s.finish p).map (List.map Token.withReturns) := by
  have hfinish : s.withReturns.finish p = s.finish p := by
    unfold finish withReturns
    dsimp only
    cases s.newest with
    | none => rfl
    | some kind => cases kind <;> rfl
  rw [hfinish]
  cases hclosing : s.finish p with
  | error problem => rfl
  | ok tokens =>
      obtain ⟨closing, rfl, hlayout⟩ := finish_eq_ok hclosing
      rw [Except.map, List.map_append, Token.map_withReturns_of_isLayout hlayout]
      rfl

theorem run_withReturns (tokens : List Token) (s : Layout) {lexemes : List Lexeme}
    (h : ∀ l ∈ lexemes, l.kind.staysInLine = true → '\n' ∉ l.text) :
    run p (tokens.map Token.withReturns) s.withReturns (lexemes.map Lexeme.withReturns) =
      (run p tokens s lexemes).map (List.map Token.withReturns) := by
  induction lexemes generalizing s tokens with
  | nil =>
      rw [List.map_nil, run, run, finish_withReturns]
      cases s.finish p with
      | error problem => rfl
      | ok closing => simp [Except.map, bind, Except.bind, pure, Except.pure]
  | cons l rest ih =>
      obtain ⟨hl, hrest⟩ := List.forall_mem_cons.1 h
      rw [List.map_cons, run, run, step_withReturns hl]
      cases s.step l with
      | error problem => rfl
      | ok found =>
          obtain ⟨more, s'⟩ := found
          have hlater := ih (more.reverse ++ tokens) s' hrest
          rw [List.map_append, List.map_reverse] at hlater
          exact hlater

end Layout

/-! ### Scripts -/

def scriptWithReturns (source : String) : String :=
  String.ofList (withReturns source.toList)

section

variable {source : String} {tokens : List Token}

theorem scriptLexemes_withReturns : scriptLexemes (scriptWithReturns source) =
    Lexeme.split false .start [] (withReturns source.toList) := by
  rw [scriptLexemes, scriptWithReturns, String.toList_ofList]

/-- Without strings between single quotes that go on in another line, a script with carriage returns is
read as before. -/
theorem tokenize_withReturns (hsource : '\r' ∉ source.toList)
    (hfolded : ∀ l ∈ scriptLexemes source, l.isFolded = false) :
    tokenize (scriptWithReturns source) = (tokenize source).map (List.map Token.withReturns) := by
  have hlines : ∀ l ∈ scriptLexemes source, l.kind.staysInLine = true → '\n' ∉ l.text :=
    Lexeme.feed_not_mem_of_split hsource
  have hsplit := Lexeme.split_withReturns hsource hfolded
  unfold tokenize scriptWithReturns
  dsimp only
  rw [String.toList_ofList, Position.after_withReturns, hsplit]
  exact Layout.run_withReturns [] {} hlines

/-- No token of a script with carriage returns is a string between single quotes that goes on in another
line of the script without them. -/
theorem isFolded_of_tokenize_withReturns (hsource : '\r' ∉ source.toList)
    (h : tokenize (scriptWithReturns source) = .ok tokens) :
    ∀ l ∈ scriptLexemes source, l.isFolded = false := by
  intro l hl
  by_contra hfolded
  rw [Bool.not_eq_false] at hfolded
  obtain ⟨m, hm, hbroken⟩ := Lexeme.exists_broken_of_isFolded hsource hl hfolded
  rw [← scriptLexemes_withReturns] at hm
  have hintact := (follows_of_tokenize h).intact m hm
  unfold Lexeme.isBroken at hbroken
  split at hbroken
  · rename_i problem hkind
    exact hintact problem hkind
  · cases hbroken

theorem isFolded_lexemes_iff (h : tokenize source = .ok tokens) :
    (∀ l ∈ scriptLexemes source, l.isFolded = false) ↔ ∀ t ∈ tokens, t.isFolded = false := by
  constructor
  · intro hfolded t ht
    by_cases hwritten : t.isWritten = true
    · obtain ⟨l, hl, htoken⟩ := exists_lexeme_of_tokenize h ht hwritten
      rw [Lexeme.isFolded_of_token? htoken, hfolded l hl]
    · unfold Token.isWritten at hwritten
      unfold Token.isFolded
      cases hkind : t.kind <;> simp_all
  · intro hfolded l hl
    by_contra hl'
    rw [Bool.not_eq_false] at hl'
    obtain ⟨t, htoken⟩ := Lexeme.exists_token?_of_isFolded hl'
    have ht := hfolded t (mem_of_token? h hl htoken)
    rw [Lexeme.isFolded_of_token? htoken, hl'] at ht
    cases ht

/-- A script with carriage returns has tokens exactly if the script without them has tokens and no string
between single quotes that goes on in another line. The tokens are the same then, with carriage returns
in the texts of strings. -/
theorem tokenize_withReturns_iff (source : String) (hsource : '\r' ∉ source.toList)
    (tokens' : List Token) :
    tokenize (scriptWithReturns source) = .ok tokens' ↔
      ∃ tokens, tokenize source = .ok tokens ∧ (∀ t ∈ tokens, t.isFolded = false) ∧
        tokens' = tokens.map Token.withReturns := by
  constructor
  · intro h
    have hfolded := isFolded_of_tokenize_withReturns hsource h
    rw [tokenize_withReturns hsource hfolded] at h
    cases htokens : tokenize source with
    | error problem =>
        rw [htokens] at h
        cases h
    | ok tokens =>
        rw [htokens] at h
        cases h
        exact ⟨tokens, rfl, (isFolded_lexemes_iff htokens).1 hfolded, rfl⟩
  · rintro ⟨tokens, htokens, hfolded, rfl⟩
    rw [tokenize_withReturns hsource ((isFolded_lexemes_iff htokens).2 hfolded), htokens]
    rfl

end

/-- A block, a comment, a continued line, and a field that goes on over a line end between three
quotes. -/
theorem tokenize_withReturns_block :
    tokenize "if x:  # c\r\n  y = \\\r\n f\"\"\"\x7ba\r\n\x7d\"\"\"\r\n" = .ok
      [⟨.name, "if", ⟨1, 0⟩⟩, ⟨.name, "x", ⟨1, 3⟩⟩, ⟨.operator, ":", ⟨1, 4⟩⟩,
        ⟨.newline, "\n", ⟨1, 10⟩⟩, ⟨.indent, "", ⟨2, 0⟩⟩, ⟨.name, "y", ⟨2, 2⟩⟩,
        ⟨.operator, "=", ⟨2, 4⟩⟩,
        ⟨.string [⟨"a\r\n", ⟨3, 6⟩⟩], "f\"\"\"\x7ba\r\n\x7d\"\"\"", ⟨3, 1⟩⟩,
        ⟨.newline, "\n", ⟨4, 4⟩⟩, ⟨.dedent, "", ⟨5, 0⟩⟩, ⟨.endMarker, "", ⟨5, 0⟩⟩] :=
  (tokenize_withReturns_iff "if x:  # c\n  y = \\\n f\"\"\"\x7ba\n\x7d\"\"\"\n"
    (by decide) _).2
    ⟨[⟨.name, "if", ⟨1, 0⟩⟩, ⟨.name, "x", ⟨1, 3⟩⟩, ⟨.operator, ":", ⟨1, 4⟩⟩,
        ⟨.newline, "\n", ⟨1, 10⟩⟩, ⟨.indent, "", ⟨2, 0⟩⟩, ⟨.name, "y", ⟨2, 2⟩⟩,
        ⟨.operator, "=", ⟨2, 4⟩⟩,
        ⟨.string [⟨"a\n", ⟨3, 6⟩⟩], "f\"\"\"\x7ba\n\x7d\"\"\"", ⟨3, 1⟩⟩,
        ⟨.newline, "\n", ⟨4, 4⟩⟩, ⟨.dedent, "", ⟨5, 0⟩⟩, ⟨.endMarker, "", ⟨5, 0⟩⟩],
      by decide +kernel, by decide +kernel, by decide +kernel⟩

/-- A string between single quotes that goes on in another line is read without carriage returns, and is
not closed with them. -/
theorem folded_string_broken :
    '\r' ∉ "x = 'a\\\nb'\n".toList ∧
      tokenize "x = 'a\\\nb'\n" = .ok
        [⟨.name, "x", ⟨1, 0⟩⟩, ⟨.operator, "=", ⟨1, 2⟩⟩, ⟨.string [], "'a\\\nb'", ⟨1, 4⟩⟩,
          ⟨.newline, "\n", ⟨2, 2⟩⟩, ⟨.endMarker, "", ⟨3, 0⟩⟩] ∧
      scriptWithReturns "x = 'a\\\nb'\n" = "x = 'a\\\r\nb'\r\n" ∧
      tokenize "x = 'a\\\r\nb'\r\n" = .error ⟨⟨1, 4⟩, .unterminatedString false⟩ := by
  refine ⟨by decide, by decide +kernel, by decide, by decide +kernel⟩

end ScriptSandbox
