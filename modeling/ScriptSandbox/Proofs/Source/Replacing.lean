import ScriptSandbox.Proofs.Source.Borders
import ScriptSandbox.Proofs.Source.Literals
import ScriptSandbox.Proofs.Source.PlacedLayouts

/-!
What stands in a string and the rest of a script. A string that is not formatted can stand wherever a
number can: the tokens before it stay, those behind it only move, and whatever it has between its quotes
is no token.
-/

namespace ScriptSandbox

open Lexeme (isQuote IsBorder EndsUnquoted eq_or_of_isQuote)

/-! ### The lexemes -/

theorem IsLetter.isBorder {c : Char} (h : IsLetter c) : IsBorder c where
  not_gap := h.not_gap
  not_lineEnd := by simp [Lexeme.isLineEnd, h.not_mark]
  not_mem_operator operator hoperator hmem := by
    have hpart := Lexeme.isWordPart_of_mem_operators operator hoperator c hmem
    rw [Text.isWordPart_of_isWordStart h.starts_word] at hpart
    cases hpart

theorem isBorder_of_isQuote {quote : Char} (h : isQuote quote = true) : IsBorder quote := by
  rcases eq_or_of_isQuote h with rfl | rfl <;> exact ⟨rfl, rfl, by decide⟩

theorem StringLiteral.exists_border (s : StringLiteral) :
    ∃ border inner, s.text = border :: inner ∧ IsBorder border := by
  obtain ⟨word, d, body, hword, hquote, -⟩ := s
  unfold text
  cases word with
  | nil => exact ⟨d.quote, _, by rw [d.quotes_eq]; rfl, isBorder_of_isQuote hquote⟩
  | cons c word =>
      have hletter := isLetter_of_mem_prefix (IsPlainPrefix.known hword).1 c List.mem_cons_self
      exact ⟨c, _, rfl, hletter.isBorder⟩

namespace Lexeme

variable {p : Position} {before after : List Char} {earlier later : List Lexeme}

theorem split_replace (s : StringLiteral) (hbefore : EndsUnquoted before)
    (hafter : ∀ c ∈ after.head?, isQuote c = false)
    (hsplit : split false p [] (before ++ '0' :: after) =
      earlier ++ ⟨.number, ['0'], p.after before⟩ :: later)
    (htext : earlier.flatMap Lexeme.text = before)
    (hintact : ∀ l ∈ earlier, ∀ problem, l.kind ≠ .broken problem) :
    later = split false ((p.after before).after ['0']) [] after ∧
      split false p [] (before ++ s.text ++ after) =
        earlier ++ ⟨.string [], s.text, p.after before⟩ ::
          split false ((p.after before).after s.text) [] after := by
  have hswap {border : Char} (hborder : IsBorder border) (y : List Char) :=
    split_swap (y := y) hborder hbefore hsplit htext hintact
  constructor
  · have hsame := hsplit.symm.trans (hswap isBorder_zero after)
    rw [List.append_cancel_left_eq, split_cons] at hsame
    obtain ⟨hnumber, hlater⟩ := List.cons.inj hsame
    generalize (classify false (p.after before) '0' after).2 = length at hnumber hlater
    have hnone : after.take length = [] := (List.cons.inj (congrArg Lexeme.text hnumber)).2.symm
    have hrest : after.drop length = after := by
      conv_rhs => rw [← List.take_append_drop length after, hnone, List.nil_append]
    rw [hlater, hnone, hrest]
  · obtain ⟨border, inner, hborder, hisBorder⟩ := s.exists_border
    have hstring := s.split_eq hafter (p.after before)
    rw [hborder, List.cons_append] at hstring
    rw [hborder, List.append_assoc, List.cons_append, hswap hisBorder, hstring]

end Lexeme

/-! ### The layout -/

theorem correspondence_anywhere : Correspondence fun _ _ => True :=
  ⟨fun _ _ => trivial, fun _ => trivial⟩

namespace Layout

theorem step_replace {s s' : Layout} {text : List Char} {p : Position} {tokens : List Token}
    (h : s.step ⟨.number, text, p⟩ = .ok (tokens, s')) (other : List Char) :
    ∃ layout t, tokens = layout ++ [⟨.number, String.ofList text, p⟩] ∧
      s.step ⟨.string [], other, p⟩ = .ok (layout ++ [⟨.string [], String.ofList other, p⟩], t) ∧
      Like (fun _ _ => True) s' t := by
  obtain ⟨layout, s₁, s₂, hsettle, hbracket, rfl, rfl⟩ := take_eq_ok h
  obtain rfl : s₂ = s₁ := hbracket
  refine ⟨layout, { s₂ with newest := some (.string []) }, rfl, ?_, ?_⟩
  · exact take_of_settle (t := ⟨.string [], String.ofList other, p⟩) hsettle rfl
  · exact ⟨rfl, List.forall₂_same.2 fun _ _ => ⟨rfl, trivial⟩, rfl, rfl, rfl⟩

theorem run_replace {s : Layout} {p q place : Position} {earlier later others : List Lexeme}
    {text : List Char} {tokens : List Token} (other : List Char)
    (h : run p [] s (earlier ++ ⟨.number, text, place⟩ :: later) = .ok tokens)
    (hothers : List.Forall₂ (Lexeme.Like fun _ _ => True) later others) :
    ∃ before rest rest', tokens = before ++ ⟨.number, String.ofList text, place⟩ :: rest ∧
      run q [] s (earlier ++ ⟨.string [], other, place⟩ :: others) =
        .ok (before ++ ⟨.string [], String.ofList other, place⟩ :: rest') ∧
      List.Forall₂ (Token.Like fun _ _ => True) rest rest' := by
  obtain ⟨_, s', closing, hruns, hfinish, rfl⟩ := run_eq_ok.1 h
  obtain ⟨body, _, _, hfirst, hlast, rfl⟩ := hruns.exists_of_append
  cases hlast with
  | @cons _ _ _ s₁ _ rest _ hstep hrest =>
      obtain ⟨layout, t, rfl, hstep', hlike⟩ := step_replace hstep other
      have hrun : run p [] s₁ later = .ok (rest ++ closing) :=
        run_eq_ok.2 ⟨rest, s', closing, hrest, hfinish, rfl⟩
      have hlikes := run_like correspondence_anywhere (q := q) (p := p) trivial hothers hlike .nil
      rw [hrun] at hlikes
      obtain ⟨rest', hrun', hsame⟩ := hlikes.exists_ok
      have hstring := hfirst.append (.cons hstep' .nil)
      refine ⟨body ++ layout, rest ++ closing, rest', by simp, ?_, hsame⟩
      rw [List.append_cons, hstring.run_append, hrun']
      simp [Except.map]

end Layout

/-! ### Scripts -/

def StringLiteral.source (s : StringLiteral) : String :=
  String.ofList s.text

section Script

variable {before after : String} {tokens : List Token}

theorem exists_split_of_number (h : tokenize (before ++ "0" ++ after) = .ok tokens)
    (hnumber : ⟨.number, "0", Position.start.after before.toList⟩ ∈ tokens) :
    ∃ earlier later, earlier.flatMap Lexeme.text = before.toList ∧
      scriptLexemes (before ++ "0" ++ after) =
        earlier ++ ⟨.number, ['0'], Position.start.after before.toList⟩ :: later := by
  obtain ⟨l, hl, htoken⟩ := exists_lexeme_of_tokenize h hnumber rfl
  obtain ⟨earlier, later, hsplit⟩ := List.append_of_mem hl
  have hlexed := lexed_scriptLexemes (before ++ "0" ++ after)
  rw [hsplit] at hlexed
  obtain ⟨hwhole, hposition, -⟩ := hlexed.shape_at
  obtain ⟨hzero, hplace⟩ := Lexeme.token?_eq_some htoken
  obtain ⟨kind, text, place⟩ := l
  dsimp only at hzero hplace hposition hwhole
  obtain rfl : text = ['0'] := by
    rw [← String.toList_ofList (l := text), ← hzero]
    rfl
  obtain rfl : kind = .number := by
    cases kind <;> first | rfl | cases htoken
  subst hplace
  have hearlier : earlier.flatMap Lexeme.text <+: (before ++ "0" ++ after).toList := by
    rw [hwhole, List.append_assoc]
    exact List.prefix_append _ _
  have hbefore : before.toList <+: (before ++ "0" ++ after).toList := by
    rw [String.append_assoc, String.toList_append]
    exact List.prefix_append _ _
  exact ⟨earlier, later, Position.eq_of_after_eq hearlier hbefore hposition.symm, hsplit⟩

/-- A string that is not formatted can stand in the place of a number. The tokens before it stay as they
are, and those behind it keep their kinds and texts. -/
theorem tokenize_replace_number (s : StringLiteral) (hbefore : EndsUnquoted before.toList)
    (hafter : ∀ c ∈ after.toList.head?, isQuote c = false)
    (h : tokenize (before ++ "0" ++ after) = .ok tokens)
    (hnumber : ⟨.number, "0", Position.start.after before.toList⟩ ∈ tokens) :
    ∃ earlier later others,
      tokens = earlier ++ ⟨.number, "0", Position.start.after before.toList⟩ :: later ∧
      tokenize (before ++ s.source ++ after) =
        .ok (earlier ++ ⟨.string [], s.source, Position.start.after before.toList⟩ :: others) ∧
      List.Forall₂ (Token.Like fun _ _ => True) later others := by
  obtain ⟨earlier, later, htext, hsplit⟩ := exists_split_of_number h hnumber
  have hintact := (follows_of_tokenize h).intact
  rw [hsplit] at hintact
  have hwhole (middle : String) : (before ++ middle ++ after).toList =
      before.toList ++ middle.toList ++ after.toList := by
    rw [String.toList_append, String.toList_append]
  have hnumber' : Lexeme.split false .start [] (before.toList ++ '0' :: after.toList) =
      earlier ++ ⟨.number, ['0'], Position.start.after before.toList⟩ :: later := by
    rw [← hsplit, scriptLexemes, hwhole, List.append_assoc]
    rfl
  obtain ⟨rfl, hstring⟩ := Lexeme.split_replace s hbefore hafter hnumber' htext
    fun l hl => hintact l (List.mem_append_left _ hl)
  have hlikes := Lexeme.split_like correspondence_anywhere false
    (p := (Position.start.after before.toList).after ['0'])
    (q := (Position.start.after before.toList).after s.text) trivial after.toList
  change Layout.run _ [] {} (scriptLexemes (before ++ "0" ++ after)) = .ok tokens at h
  rw [hsplit] at h
  have htext' : s.source.toList = s.text := String.toList_ofList
  rw [tokenize, hwhole, htext', hstring]
  exact Layout.run_replace s.text h hlikes

/-- A bytes literal over two lines between brackets, with quotes, a bracket and a comment mark in it. -/
theorem tokenize_literal_in_brackets : ∃ earlier later others,
    [⟨.name, "f", ⟨1, 0⟩⟩, ⟨.operator, "(", ⟨1, 1⟩⟩, ⟨.number, "0", ⟨1, 2⟩⟩, ⟨.operator, ")", ⟨2, 0⟩⟩,
      ⟨.newline, "\n", ⟨2, 1⟩⟩, ⟨.endMarker, "", ⟨2, 1⟩⟩] =
      earlier ++ ⟨.number, "0", ⟨1, 2⟩⟩ :: later ∧
    tokenize ("f(" ++ "bR'''\\')\n#\"'''" ++ "# '\n)") =
      .ok (earlier ++ ⟨.string [], "bR'''\\')\n#\"'''", ⟨1, 2⟩⟩ :: others) ∧
    List.Forall₂ (Token.Like fun _ _ => True) later others := by
  have hbody : LiteralBody ⟨'\'', true⟩ ['\\', '\'', ')', '\n', '#', '"'] :=
    .hidden (.plain (by simp) (by simp) rfl (.plain (by simp) (by simp) rfl
      (.plain (by simp) (by simp) rfl (.plain (by simp) (by simp) rfl .nil))))
  have hbefore : EndsUnquoted "f(".toList := by simp [EndsUnquoted, isQuote]
  have hafter : ∀ c ∈ "# '\n)".toList.head?, isQuote c = false := by simp [isQuote]
  exact tokenize_replace_number ⟨['b', 'R'], ⟨'\'', true⟩, _, by decide, rfl, hbody⟩ hbefore hafter
    (by decide +kernel) (by decide)

end Script

end ScriptSandbox
