import Mathlib
import ScriptSandbox.Proofs.Source.TokenStream

/-!
Tokens lose nothing of a script. A script is its written tokens with gaps around them, and a gap
holds blanks, line breaks, comments and continued lines only. Each token tells the place where it
stands, so no part of a script can hide between tokens.
-/

namespace ScriptSandbox

/-- The text between two tokens, or before the first one, or after the last one. A comment goes on
up to a line break, which only the end of the script can stand for. -/
inductive Gap (final : Bool) : List Char → Prop
  | nil : Gap final []
  | blank {c rest} : c ∈ [' ', '\t', '\x0c', '\n', '\r'] → Gap final rest → Gap final (c :: rest)
  | comment {text rest} : (∀ c ∈ text, c ≠ '\n' ∧ c ≠ '\r') →
      (∀ c ∈ rest.head?, c = '\n' ∨ c = '\r') → (rest = [] → final = true) → Gap final rest →
      Gap final ('#' :: text ++ rest)
  | continuation {eol rest} : eol ∈ [['\n'], ['\r'], ['\r', '\n']] → Gap final rest →
      Gap final ('\\' :: eol ++ rest)

theorem Gap.blanks {final : Bool} {text rest : List Char}
    (htext : ∀ c ∈ text, c ∈ [' ', '\t', '\x0c', '\n', '\r']) (hrest : Gap final rest) :
    Gap final (text ++ rest) := by
  induction text with
  | nil => exact hrest
  | cons c more ih =>
      exact .blank (htext c (by simp)) (ih fun d hd => htext d (by simp [hd]))

/-- The text at `p` consists of the tokens with gaps around them, each token in its place. No token
begins with a line break. -/
inductive Laid : Position → List Char → List Token → Prop
  | final {p gap} : Gap true gap → Laid p gap []
  | token {p gap t c text rest tokens} : Gap false gap → t.position = p.after gap →
      t.text.toList = c :: text → Lexeme.isLineEnd c = false →
      Laid (p.after (gap ++ c :: text)) rest tokens →
      Laid p (gap ++ c :: text ++ rest) (t :: tokens)

theorem Laid.extend {p : Position} {text rest : List Char} {tokens : List Token}
    (hlaid : Laid (p.after text) rest tokens)
    (hfinal : Gap true rest → Gap true (text ++ rest))
    (hgap : ∀ gap c more, rest = gap ++ c :: more → Lexeme.isLineEnd c = false → Gap false gap →
      Gap false (text ++ gap)) :
    Laid p (text ++ rest) tokens := by
  cases hlaid with
  | final h => exact .final (hfinal h)
  | @token _ gap t c own rest tokens h hposition hown hc hrest =>
      rw [show text ++ (gap ++ c :: own ++ rest) = text ++ gap ++ c :: own ++ rest by simp]
      refine .token (hgap gap c (own ++ rest) (by simp) hc h) ?_ hown hc ?_
      · rw [hposition, Position.after_append]
      · rwa [List.append_assoc, Position.after_append]

namespace Lexeme

theorem mem_blanks_of_isGap {c : Char} (h : isGap c = true) :
    c ∈ [' ', '\t', '\x0c', '\n', '\r'] := by
  simp only [isGap, Bool.or_eq_true, beq_iff_eq] at h
  grind

theorem isLineEnd_iff {c : Char} : isLineEnd c = true ↔ c = '\n' ∨ c = '\r' := by
  simp [isLineEnd]

theorem isLineEnd_eq_false_iff {c : Char} : isLineEnd c = false ↔ c ≠ '\n' ∧ c ≠ '\r' := by
  simp [isLineEnd]

theorem isLineEnd_of_isWordPart {c : Char} (h : Text.isWordPart c = true) :
    isLineEnd c = false := by
  rw [isLineEnd_eq_false_iff]
  constructor
  · rintro rfl
    exact absurd h (by decide)
  · rintro rfl
    exact absurd h (by decide)

theorem Shape.head_of_token? {p : Position} {kind : LexemeKind} {text after : List Char}
    {t : Token} (h : Shape false p kind text after)
    (ht : Lexeme.token? ⟨kind, text, p⟩ = some t) :
    ∃ c rest, text = c :: rest ∧ isLineEnd c = false := by
  cases h with
  | blank => cases ht
  | comment => cases ht
  | lineFeed => cases ht
  | carriageReturn => cases ht
  | carriageReturnLineFeed => cases ht
  | continuation => cases ht
  | broken => cases ht
  | stray h => cases h
  | @number c text _ hc =>
      refine ⟨c, text, rfl, isLineEnd_eq_false_iff.2 ?_⟩
      rcases hc with hc | rfl
      · constructor
        · rintro rfl
          exact absurd hc (by decide)
        · rintro rfl
          exact absurd hc (by decide)
      · decide
  | @name c text _ hc =>
      exact ⟨c, text, rfl, isLineEnd_of_isWordPart (Text.isWordPart_of_isWordStart hc)⟩
  | @string fields word quote body _ hword hquote =>
      cases word with
      | nil =>
          refine ⟨quote, body, rfl, isLineEnd_eq_false_iff.2 ?_⟩
          simp only [isQuote, Bool.or_eq_true, beq_iff_eq] at hquote
          grind
      | cons c more =>
          exact ⟨c, more ++ quote :: body, rfl, isLineEnd_of_isWordPart (hword c (by simp))⟩
  | operator hmem =>
      have hheads : ∀ operator ∈ operators, (operator.head?.any fun c => !isLineEnd c) = true := by
        decide
      have hhead := hheads text hmem
      cases text with
      | nil => cases hhead
      | cons c rest => exact ⟨c, rest, rfl, by simpa using hhead⟩

theorem Shape.laid {p : Position} {kind : LexemeKind} {text after : List Char}
    {tokens : List Token} (h : Shape false p kind text after)
    (hintact : ∀ problem, kind ≠ .broken problem)
    (hnone : Lexeme.token? ⟨kind, text, p⟩ = none)
    (hlaid : Laid (p.after text) after tokens) : Laid p (text ++ after) tokens := by
  cases h with
  | @blank c text _ hc htext =>
      have hblank : ∀ d ∈ c :: text, d ∈ [' ', '\t', '\x0c', '\n', '\r'] := by
        intro d hd
        rcases List.mem_cons.1 hd with rfl | hd
        · exact mem_blanks_of_isGap hc
        · exact mem_blanks_of_isGap (htext d hd)
      exact hlaid.extend (Gap.blanks hblank) fun gap _ _ _ _ => Gap.blanks hblank
  | @comment text _ htext hafter =>
      have hplain : ∀ c ∈ text, c ≠ '\n' ∧ c ≠ '\r' :=
        fun c hc => isLineEnd_eq_false_iff.1 (htext c hc)
      -- A line break follows, which is no token: it begins the next gap or there is nothing left.
      refine hlaid.extend (fun hgap => ?_) (fun gap c more hrest hc hgap => ?_)
      · exact .comment hplain (fun d hd => isLineEnd_iff.1 (hafter d hd)) (fun _ => rfl) hgap
      · subst hrest
        cases gap with
        | nil =>
            have hend := hafter c (by simp)
            rw [hc] at hend
            cases hend
        | cons d gap =>
            refine .comment hplain (fun e he => isLineEnd_iff.1 (hafter e ?_)) (by simp) hgap
            simpa using he
  | lineFeed => exact hlaid.extend (.blank (by simp)) fun _ _ _ _ _ => .blank (by simp)
  | carriageReturn => exact hlaid.extend (.blank (by simp)) fun _ _ _ _ _ => .blank (by simp)
  | carriageReturnLineFeed =>
      have hblank {final : Bool} {rest : List Char} (hrest : Gap final rest) :
          Gap final (['\r', '\n'] ++ rest) := Gap.blanks (by simp) hrest
      exact hlaid.extend hblank fun _ _ _ _ _ => hblank
  | continuation heol =>
      exact hlaid.extend (.continuation heol) fun _ _ _ _ _ => .continuation heol
  | number => cases hnone
  | name => cases hnone
  | string => cases hnone
  | operator => cases hnone
  | stray h => cases h
  | broken => exact absurd rfl (hintact _)

theorem Lexed.laid {p : Position} {text : List Char} {lexemes : List Lexeme}
    (h : Lexed false p text lexemes)
    (hintact : ∀ l ∈ lexemes, ∀ problem, l.kind ≠ .broken problem) :
    Laid p text (lexemes.filterMap Lexeme.token?) := by
  induction h with
  | nil => exact .final .nil
  | @cons p kind text after lexemes hshape hlexed ih =>
      have hrest := ih fun l hl => hintact l (by simp [hl])
      cases htoken : Lexeme.token? ⟨kind, text, p⟩ with
      | none =>
          rw [List.filterMap_cons_none htoken]
          exact hshape.laid (hintact ⟨kind, text, p⟩ (by simp)) htoken hrest
      | some t =>
          rw [List.filterMap_cons_some htoken]
          obtain ⟨c, rest, rfl, hc⟩ := hshape.head_of_token? htoken
          obtain ⟨htext, hposition⟩ := Lexeme.token?_eq_some htoken
          exact @Laid.token p [] _ c rest after _ .nil hposition (by rw [htext]; simp) hc hrest

end Lexeme

structure SpacedToken where
  gap : List Char
  token : Token

def SpacedToken.text (s : SpacedToken) : List Char :=
  s.gap ++ s.token.text.toList

/-- The tokens with their gaps make up the whole text. -/
theorem Laid.spaced {p : Position} {text : List Char} {tokens : List Token}
    (h : Laid p text tokens) :
    ∃ spaced final, spaced.map SpacedToken.token = tokens ∧
      text = spaced.flatMap SpacedToken.text ++ final ∧
      (∀ s ∈ spaced, Gap false s.gap) ∧ Gap true final ∧
      ∀ before s after, spaced = before ++ s :: after →
        s.token.position = p.after (before.flatMap SpacedToken.text ++ s.gap) := by
  induction h with
  | final hgap => exact ⟨[], _, rfl, rfl, by simp, hgap, by simp⟩
  | @token p gap t c own rest tokens hgap hposition hown hc hrest ih =>
      obtain ⟨spaced, final, rfl, rfl, hgaps, hfinal, hpositions⟩ := ih
      refine ⟨⟨gap, t⟩ :: spaced, final, rfl, ?_, ?_, hfinal, ?_⟩
      · simp [SpacedToken.text, hown]
      · intro s hs
        rcases List.mem_cons.1 hs with rfl | hs
        · exact hgap
        · exact hgaps s hs
      · intro before s after hcut
        cases before with
        | nil =>
            cases hcut
            simpa using hposition
        | cons first before =>
            cases hcut
            rw [hpositions before s after rfl, ← Position.after_append]
            simp [SpacedToken.text, hown]

/-- A script is its written tokens with gaps around them. Each token tells its line, which is one
more than the line feeds before it, and its column, which is the number of characters since the
last line feed. -/
def Lossless (source : String) (tokens : List Token) : Prop :=
  ∃ spaced final, spaced.map SpacedToken.token = tokens.filter Token.isWritten ∧
    source.toList = spaced.flatMap SpacedToken.text ++ final ∧
    (∀ s ∈ spaced, Gap false s.gap) ∧ Gap true final ∧
    ∀ before s after, spaced = before ++ s :: after →
      let read := before.flatMap SpacedToken.text ++ s.gap
      s.token.position.line = 1 + read.count '\n' ∧
        s.token.position.column = (Position.lastLine read).length

theorem lossless_of_tokenize {source : String} {tokens : List Token}
    (h : tokenize source = .ok tokens) : Lossless source tokens := by
  have hlaid := (lexed_scriptLexemes source).laid (follows_of_tokenize h).intact
  rw [← filter_isWritten_of_tokenize h] at hlaid
  obtain ⟨spaced, final, htokens, htext, hgaps, hfinal, hpositions⟩ := hlaid.spaced
  refine ⟨spaced, final, htokens, htext, hgaps, hfinal, fun before s after hcut => ?_⟩
  rw [hpositions before s after hcut, Position.start_after]
  exact ⟨rfl, rfl⟩

/-- A string with a prefix stands on a continued line, below a comment. -/
theorem lossless_continued_line :
    let source := "# c\r\nx = \\\n  rb'a\\''\n"
    let tokens : List Token :=
      [⟨.name, "x", ⟨2, 0⟩⟩, ⟨.operator, "=", ⟨2, 2⟩⟩, ⟨.string [], "rb'a\\''", ⟨3, 2⟩⟩,
        ⟨.newline, "\n", ⟨3, 9⟩⟩, ⟨.endMarker, "", ⟨4, 0⟩⟩]
    tokenize source = .ok tokens ∧ Lossless source tokens := by
  intro source tokens
  have h : tokenize source = .ok tokens := by
    cbv
  exact ⟨h, lossless_of_tokenize h⟩

end ScriptSandbox
