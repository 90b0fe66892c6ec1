import ScriptSandbox.Proofs.Source.StringBodies
import ScriptSandbox.Source.Layout
import ScriptSandbox.Source.Tree

/-!
Scripts that are one formatted string with one replacement field. Where the brackets of the field are
closed and no quote and no line end stands in it, the field is cut out as it is written, and the
script is one statement that holds the string.
-/

namespace ScriptSandbox

open Lexeme

/-- A text that can stand in a replacement field between double quotes. -/
structure IsFieldText (text : List Char) : Prop where
  no_quote : '"' ∉ text
  no_backslash : '\\' ∉ text
  no_lineEnd : ∀ c ∈ text, isLineEnd c = false
  head_ne : text.head? ≠ some '\x7b'
  closed : openBrackets 0 text = some 0

theorem isFieldText_iff {text : List Char} : IsFieldText text ↔
    ((text.all fun c => c != '"' && c != '\\' && !isLineEnd c) && text.head? != some '\x7b' &&
      openBrackets 0 text == some 0) = true := by
  simp only [Bool.and_eq_true, bne_iff_ne, beq_iff_eq, List.all_eq_true, Bool.not_eq_true']
  constructor
  · rintro ⟨hquote, hbackslash, hline, hhead, hclosed⟩
    refine ⟨⟨fun c hc => ⟨⟨?_, ?_⟩, hline c hc⟩, hhead⟩, hclosed⟩
    · rintro rfl
      exact hquote hc
    · rintro rfl
      exact hbackslash hc
  · rintro ⟨⟨hall, hhead⟩, hclosed⟩
    exact ⟨fun hc => (hall _ hc).1.1 rfl, fun hc => (hall _ hc).1.2 rfl, fun c hc => (hall c hc).2,
      hhead, hclosed⟩

instance (text : List Char) : Decidable (IsFieldText text) :=
  decidable_of_iff _ isFieldText_iff.symm

theorem IsFieldText.goes_on {text : List Char} (h : IsFieldText text) :
    ∀ c ∈ text, c ≠ '"' ∧ isLineEnd c = false :=
  fun c hc => ⟨ne_of_mem_of_not_mem hc h.no_quote, h.no_lineEnd c hc⟩

theorem IsFieldText.isBodyText {text : List Char} (h : IsFieldText text) :
    IsBodyText '"' ('\x7b' :: (text ++ ['\x7d'])) where
  goes_on c hc := by
    simp only [List.mem_cons, List.mem_append, List.not_mem_nil, or_false] at hc
    rcases hc with rfl | hc | rfl
    · exact ⟨by decide, rfl⟩
    · exact h.goes_on c hc
    · exact ⟨by decide, rfl⟩
  last_ne := by simp [List.getLast?_cons]

theorem IsFieldText.reads {text : List Char} (h : IsFieldText text) (p : Position) :
    BodyReads '"' p ('\x7b' :: (text ++ ['\x7d'])) [⟨String.ofList text, p.next '\x7b'⟩] := by
  have hend : BodyReads '"' (p.after ('\x7b' :: (text ++ ['\x7d']))) [] [] := .nil rfl _
  simpa using hend.closed_field rfl h.goes_on h.head_ne h.closed

def formattedText (text : List Char) : List Char :=
  'f' :: '"' :: '\x7b' :: (text ++ ['\x7d', '"'])

def fieldScript (text eol : List Char) : String :=
  String.ofList (formattedText text ++ eol)

def scriptField (text : List Char) : Field :=
  ⟨String.ofList text, ⟨1, 3⟩⟩

def formattedToken (text : List Char) : Token :=
  ⟨.string [scriptField text], String.ofList (formattedText text), .start⟩

theorem IsFieldText.lexemes_eq {text eol : List Char} (h : IsFieldText text)
    (heol : eol ∈ [['\n'], ['\r'], ['\r', '\n']]) :
    split false .start [] (formattedText text ++ eol) =
      [⟨.string [scriptField text], formattedText text, .start⟩,
        ⟨.lineBreak, eol, Position.start.after (formattedText text)⟩] := by
  have hcases : eol = ['\n'] ∨ eol = ['\r'] ∨ eol = ['\r', '\n'] := by simpa using heol
  have hbehind : eol.head? ≠ some '"' := by
    rcases hcases with rfl | rfl | rfl <;> decide
  have hbreak (p : Position) : split false p [] eol = [⟨.lineBreak, eol, p⟩] := by
    rcases hcases with rfl | rfl | rfl
    · simp [split, classify, isGap]
    · simp [split, classify, isGap]
    · simp [split, classify, isGap]
  have hword : IsFormattedPrefix ['f'] := by decide
  have hreads : BodyReads '"' (Position.start.after (['f'] ++ ['"'])) ('\x7b' :: (text ++ ['\x7d']))
      [scriptField text] := h.reads _
  have hsplit := hreads.split_eq hword rfl h.isBodyText hbehind
  rw [hbreak] at hsplit
  simpa [formattedText] using hsplit

theorem IsFieldText.tokenize_eq {text eol : List Char} (h : IsFieldText text)
    (heol : eol ∈ [['\n'], ['\r'], ['\r', '\n']]) :
    tokenize (fieldScript text eol) = .ok [formattedToken text,
      ⟨.newline, "\n", Position.start.after (formattedText text)⟩,
      ⟨.endMarker, "", Position.start.after (formattedText text ++ eol)⟩] := by
  rw [tokenize, fieldScript, String.toList_ofList, h.lexemes_eq heol]
  rfl

theorem parse_string {t newline last : Token} {fields : List Field} (ht : t.kind = .string fields)
    (hnewline : newline.kind = .newline) (hlast : last.kind = .endMarker) :
    parse [t, newline, last] = .ok [.line .plain t.position [t]] := by
  have hline : logicalLine t [] = .ok (.statements [.line .plain t.position [t]]) := by
    have hoperator (text : String) : t.isOperator text = false := by simp [Token.isOperator, ht]
    have hword (text : String) : t.isWord text = false := by simp [Token.isWord, ht]
    have hstatement : lineStatement t [] = .ok (.line .plain t.position [t]) := by
      simp [lineStatement, ht, hword]
      rfl
    simp [logicalLine, opensBlock, ht, lineStatements, semicolonSegments, hoperator, hstatement]
    rfl
  have htake : [newline, last].takeWhile Token.isInLine = [] := by simp [Token.isInLine, hnewline]
  have hafter : afterLine [newline, last] = [last] := by
    simp [afterLine, Token.isInLine, hnewline]
  rw [parse, nest, htake]
  simp only [ht, hline, hafter]
  rw [nest]
  simp [hlast, Nesting.add, Nesting.closeAll]

end ScriptSandbox
