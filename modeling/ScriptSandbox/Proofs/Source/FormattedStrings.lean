import ScriptSandbox.Proofs.Source.StringBodies
import ScriptSandbox.Source.Layout

/-!
Formatted strings. What stands between the quotes of a formatted string is made up of plain
characters, braces that are written twice, and replacement fields. The reader finds the fields as
they are written unless it takes a piece for another one: it lets every backslash hide the character
behind it, also where backslashes have no meaning, and counts every bracket of a field, also in the
strings of the field.
-/

namespace ScriptSandbox

open Lexeme

/-- A piece of what stands between the quotes of a formatted string. -/
inductive BodyPiece
  | plain (c : Char)
  /-- A brace that is written twice and stands for itself. -/
  | doubled (brace : Char)
  | field (text : List Char)
deriving DecidableEq

namespace BodyPiece

def text : BodyPiece → List Char
  | plain c => [c]
  | doubled brace => [brace, brace]
  | field text => '\x7b' :: (text ++ ['\x7d'])

def fields (p : Position) : BodyPiece → List Field
  | plain _ | doubled _ => []
  | field text => [⟨String.ofList text, p.next '\x7b'⟩]

/-- A piece can stand between two quotes. In a string that is not `raw`, a backslash is no character
of its own. -/
def Fits (quote : Char) (raw : Bool) : BodyPiece → Prop
  | plain c =>
    c ≠ quote ∧ isLineEnd c = false ∧ c ≠ '\x7b' ∧ c ≠ '\x7d' ∧ (c = '\\' → raw = true)
  | doubled brace => brace = '\x7b' ∨ brace = '\x7d'
  | field text =>
    text ≠ [] ∧ text.head? ≠ some '\x7b' ∧ ∀ c ∈ text, c ≠ quote ∧ isLineEnd c = false ∧ c ≠ '\\'

instance (quote : Char) (raw : Bool) (piece : BodyPiece) : Decidable (piece.Fits quote raw) :=
  match piece with
  | plain c => inferInstanceAs (Decidable (c ≠ quote ∧ _))
  | doubled brace => inferInstanceAs (Decidable (brace = _ ∨ _))
  | field text =>
    -- Only the characters of the text are looked at, not all that there are.
    have := List.decidableBAll (fun c => c ≠ quote ∧ isLineEnd c = false ∧ c ≠ '\\') text
    inferInstanceAs (Decidable (text ≠ [] ∧ _))

end BodyPiece

def bodyText (pieces : List BodyPiece) : List Char :=
  pieces.flatMap BodyPiece.text

def bodyFields (p : Position) : List BodyPiece → List Field
  | [] => []
  | piece :: rest => piece.fields p ++ bodyFields (p.after piece.text) rest

section

variable (p : Position) (rest : List BodyPiece)

@[simp] theorem bodyFields_plain (c : Char) :
    bodyFields p (.plain c :: rest) = bodyFields (p.next c) rest := rfl

@[simp] theorem bodyFields_doubled (brace : Char) :
    bodyFields p (.doubled brace :: rest) = bodyFields ((p.next brace).next brace) rest := rfl

@[simp] theorem bodyFields_field (text : List Char) :
    bodyFields p (.field text :: rest) = ⟨String.ofList text, p.next '\x7b'⟩ ::
      bodyFields (p.after ('\x7b' :: (text ++ ['\x7d']))) rest := rfl

@[simp] theorem bodyText_plain (c : Char) : bodyText (.plain c :: rest) = c :: bodyText rest := rfl

@[simp] theorem bodyText_doubled (brace : Char) :
    bodyText (.doubled brace :: rest) = brace :: brace :: bodyText rest := rfl

@[simp] theorem bodyText_field (text : List Char) :
    bodyText (.field text :: rest) = '\x7b' :: (text ++ ['\x7d'] ++ bodyText rest) := rfl

end

/-- Pieces can stand together between two quotes. A backslash at the end would hide the quote. -/
structure IsBody (quote : Char) (raw : Bool) (pieces : List BodyPiece) : Prop where
  fits : ∀ piece ∈ pieces, piece.Fits quote raw
  last_ne : pieces.getLast? ≠ some (.plain '\\')

/-- Whether the reader takes all pieces for what they are, where `hidden` tells that the character
before them is a backslash that hides the next one. -/
def takesRightly (hidden : Bool) : List BodyPiece → Bool
  | [] => true
  | .plain c :: rest => takesRightly (!hidden && c == '\\') rest
  | .doubled brace :: rest => !(hidden && brace == '\x7b') && takesRightly false rest
  | .field text :: rest =>
    !hidden && openBrackets 0 text == some 0 && takesRightly false rest

/-! ### Texts between quotes -/

theorem standsIn_bodyFields (p : Position) (pieces : List BodyPiece) :
    ∀ f ∈ bodyFields p pieces, f.StandsIn p (bodyText pieces) := by
  induction pieces generalizing p with
  | nil => simp [bodyFields]
  | cons piece rest ih =>
      intro f hf
      have htext : bodyText (piece :: rest) = piece.text ++ bodyText rest := List.flatMap_cons
      rw [htext]
      rcases List.mem_append.1 hf with hf | hf
      · cases piece with
        | field text =>
            cases List.mem_singleton.1 hf
            exact ⟨['\x7b'], '\x7d' :: bodyText rest, by simp [BodyPiece.text], by simp, rfl⟩
        | _ => cases hf
      · simpa using (ih _ f hf).within piece.text []

theorem BodyPiece.Fits.field_goes_on {quote : Char} {raw : Bool} {text : List Char}
    (h : Fits quote raw (.field text)) : ∀ c ∈ text, c ≠ quote ∧ isLineEnd c = false :=
  fun c hc => ⟨(h.2.2 c hc).1, (h.2.2 c hc).2.1⟩

theorem BodyPiece.Fits.goes_on {quote : Char} {raw : Bool} {piece : BodyPiece}
    (h : piece.Fits quote raw) (hquote : isQuote quote = true) :
    ∀ c ∈ piece.text, c ≠ quote ∧ isLineEnd c = false := by
  have hbrace {brace : Char} (hbrace : brace = '\x7b' ∨ brace = '\x7d') :
      brace ≠ quote ∧ isLineEnd brace = false := by
    rcases hbrace with rfl | rfl
    · exact ⟨ne_of_isQuote hquote rfl, rfl⟩
    · exact ⟨ne_of_isQuote hquote rfl, rfl⟩
  cases piece with
  | plain c =>
      simp only [text, List.mem_singleton, forall_eq]
      exact ⟨h.1, h.2.1⟩
  | doubled brace =>
      simp only [text, List.mem_cons, List.not_mem_nil, or_false, or_self, forall_eq]
      exact hbrace h
  | field text =>
      intro c hc
      simp only [BodyPiece.text, List.mem_cons, List.mem_append, List.not_mem_nil, or_false] at hc
      rcases hc with rfl | hc | rfl
      · exact hbrace (.inl rfl)
      · exact h.field_goes_on c hc
      · exact hbrace (.inr rfl)

theorem IsBody.isBodyText {quote : Char} {raw : Bool} {pieces : List BodyPiece}
    (h : IsBody quote raw pieces) (hquote : isQuote quote = true) :
    IsBodyText quote (bodyText pieces) where
  goes_on c hc := by
    obtain ⟨piece, hpiece, hc⟩ := List.mem_flatMap.1 hc
    exact (h.fits piece hpiece).goes_on hquote c hc
  last_ne hlast := by
    rcases List.eq_nil_or_concat pieces with rfl | ⟨init, piece, rfl⟩
    · cases hlast
    · have hfits := h.fits piece (by simp)
      rw [bodyText, List.concat_eq_append, List.flatMap_append, List.flatMap_singleton] at hlast
      cases piece with
      | plain c =>
          have hc : c = '\\' := by simpa [BodyPiece.text] using hlast
          exact h.last_ne (by simp [hc])
      | doubled brace =>
          have hbrace : brace = '\\' := by simpa [BodyPiece.text] using hlast
          rcases hfits with rfl | rfl
          · cases hbrace
          · cases hbrace
      | field text => simp [BodyPiece.text, List.getLast?_append, List.getLast?_cons] at hlast

/-! ### Reading pieces -/

section

variable {quote : Char} {raw : Bool} {p : Position} {pieces : List BodyPiece} {found : List Field}

theorem precedes_bodyFields (p : Position) (pieces : List BodyPiece) :
    ∀ f ∈ bodyFields p pieces, p.Precedes f.position :=
  fun f hf => (standsIn_bodyFields p pieces f hf).precedes

theorem ne_cons_of_precedes (h : ∀ f ∈ found, p.Precedes f.position) {f : Field}
    (hf : f.position = p) (behind : List Field) : found ≠ f :: behind := by
  rintro rfl
  have hprecedes := h f List.mem_cons_self
  rw [hf] at hprecedes
  exact hprecedes.irrefl

/-- Where only the second one of two braces is seen, other fields are found than are written: a
field begins behind it, or it is taken together with the next brace, of which there is another one
or which is missing before its field. -/
theorem ne_bodyFields_of_half (hquote : isQuote quote = true)
    (hfits : ∀ piece ∈ pieces, piece.Fits quote raw)
    (hbody : IsBodyText quote ('\x7b' :: bodyText pieces))
    (h : BodyReads quote p ('\x7b' :: bodyText pieces) found) :
    found ≠ bodyFields (p.next '\x7b') pieces := by
  induction pieces generalizing p found with
  | nil =>
      obtain ⟨behind, hreads⟩ := hbody.exists_field hquote (by simp [bodyText]) p
      rw [h.unique hreads]
      exact (ne_cons_of_precedes (precedes_bodyFields _ _) rfl _).symm
  | cons piece rest ih =>
      by_cases hhead : (bodyText (piece :: rest)).head? = some '\x7b'
      · rw [List.forall_mem_cons] at hfits
        cases piece with
        | plain c => exact absurd (Option.some.inj hhead) hfits.1.2.2.1
        | doubled brace =>
            cases Option.some.inj hhead
            have hhalf : IsBodyText quote ('\x7b' :: bodyText rest) :=
              hbody.of_append ['\x7b', '\x7b']
            obtain ⟨behind, hreads⟩ := hhalf.exists_reads hquote ((p.next '\x7b').next '\x7b')
            rw [h.unique (hreads.doubled hquote)]
            exact ih hfits.2 hhalf hreads
        | field text =>
            have hbehind : IsBodyText quote (text ++ ['\x7d'] ++ bodyText rest) :=
              hbody.of_append ['\x7b', '\x7b']
            obtain ⟨behind, hreads⟩ := hbehind.exists_reads hquote ((p.next '\x7b').next '\x7b')
            rw [h.unique (hreads.doubled hquote)]
            exact ne_cons_of_precedes hreads.precedes rfl _
      · obtain ⟨behind, hreads⟩ := hbody.exists_field hquote hhead p
        rw [h.unique hreads]
        exact (ne_cons_of_precedes (precedes_bodyFields _ _) rfl _).symm

theorem closed_of_first (hquote : isQuote quote = true) {text rest : List Char}
    (hfits : BodyPiece.Fits quote raw (.field text))
    (h : (⟨String.ofList ((text ++ ['\x7d'] ++ rest).take
        (fieldExtent ⟨quote, false⟩ 1 0 (text ++ ['\x7d'] ++ rest)).1), p⟩ : Field) =
      ⟨String.ofList text, p⟩) : openBrackets 0 text = some 0 := by
  have htake := String.ofList_injective (Field.mk.inj h).1
  rw [List.append_assoc, List.singleton_append] at htake
  have hlength := congrArg List.length htake
  simp only [List.length_take, List.length_append, List.length_cons] at hlength
  have hextent : (fieldExtent ⟨quote, false⟩ 1 0 (text ++ '\x7d' :: rest)).1 =
      0 + text.length := by omega
  exact closed_of_fieldExtent hquote hfits.field_goes_on hextent

def slashBefore (hidden : Bool) : List Char :=
  if hidden then ['\\'] else []

@[simp] theorem slashBefore_false : slashBefore false = [] := rfl

@[simp] theorem slashBefore_true : slashBefore true = ['\\'] := rfl

/-- The fields that are found are those that are written, just where all pieces are taken rightly.
-/
def FoundRightly (quote : Char) (hidden : Bool) (pieces : List BodyPiece) : Prop :=
  ∀ p found, BodyReads quote p (slashBefore hidden ++ bodyText pieces) found →
    (found = bodyFields (p.after (slashBefore hidden)) pieces ↔ takesRightly hidden pieces = true)

namespace FoundRightly

variable {c brace : Char} {text : List Char} {rest : List BodyPiece}

theorem nil (hquote : isQuote quote = true) : FoundRightly quote false [] := by
  intro p found h
  rw [h.unique (.nil hquote p)]
  exact iff_of_true rfl rfl

theorem plain (hrest : FoundRightly quote false rest) (hquote : isQuote quote = true)
    (hbody : IsBodyText quote (bodyText rest)) (hfits : BodyPiece.Fits quote raw (.plain c))
    (hbackslash : c ≠ '\\') : FoundRightly quote false (.plain c :: rest) := by
  intro p found h
  obtain ⟨behind, hreads⟩ := hbody.exists_reads hquote (p.next c)
  have hplain : (c == '\\') = false := beq_eq_false_iff_ne.2 hbackslash
  rw [h.unique (hreads.plain ⟨hfits.1, hfits.2.1⟩ hbackslash hfits.2.2.1)]
  simpa [takesRightly, hplain] using hrest _ _ hreads

theorem backslash (hrest : FoundRightly quote true rest) :
    FoundRightly quote false (.plain '\\' :: rest) :=
  hrest

theorem doubled (hrest : FoundRightly quote false rest) (hquote : isQuote quote = true)
    (hbody : IsBodyText quote (bodyText rest)) (hfits : BodyPiece.Fits quote raw (.doubled brace)) :
    FoundRightly quote false (.doubled brace :: rest) := by
  intro p found h
  obtain ⟨behind, hreads⟩ := hbody.exists_reads hquote ((p.next brace).next brace)
  have hboth : BodyReads quote p (bodyText (.doubled brace :: rest)) behind := by
    rcases hfits with rfl | rfl
    · exact hreads.doubled hquote
    · have hgoes : '\x7d' ≠ quote ∧ isLineEnd '\x7d' = false := ⟨ne_of_isQuote hquote rfl, rfl⟩
      exact (hreads.plain hgoes (by decide) (by decide)).plain hgoes (by decide) (by decide)
  rw [h.unique hboth]
  simpa [takesRightly] using hrest _ _ hreads

theorem field (hrest : FoundRightly quote false rest) (hquote : isQuote quote = true)
    (hbody : IsBodyText quote (bodyText (.field text :: rest)))
    (hfits : BodyPiece.Fits quote raw (.field text)) :
    FoundRightly quote false (.field text :: rest) := by
  intro p found h
  by_cases hclosed : openBrackets 0 text = some 0
  · have hbehind : IsBodyText quote (bodyText rest) :=
      hbody.of_append ('\x7b' :: (text ++ ['\x7d']))
    obtain ⟨behind, hreads⟩ :=
      hbehind.exists_reads hquote (p.after ('\x7b' :: (text ++ ['\x7d'])))
    rw [h.unique (hreads.closed_field hquote hfits.field_goes_on hfits.2.1 hclosed)]
    simpa [takesRightly, hclosed] using hrest _ _ hreads
  · have hhead : (text ++ ['\x7d'] ++ bodyText rest).head? ≠ some '\x7b' := by
      cases text with
      | nil => exact absurd rfl hfits.1
      | cons c text => exact hfits.2.1
    obtain ⟨behind, hreads⟩ := IsBodyText.exists_field hquote hbody hhead p
    rw [h.unique hreads]
    refine iff_of_false (fun heq => hclosed ?_) (by simp [takesRightly, hclosed])
    exact closed_of_first hquote hfits (List.cons.inj heq).1

theorem hidden_plain (hrest : FoundRightly quote false rest) (hquote : isQuote quote = true)
    (hbody : IsBodyText quote (bodyText rest)) : FoundRightly quote true (.plain c :: rest) := by
  intro p found h
  obtain ⟨behind, hreads⟩ := hbody.exists_reads hquote ((p.next '\\').next c)
  rw [h.unique hreads.hidden]
  simpa [takesRightly] using hrest _ _ hreads

theorem hidden_opening (hquote : isQuote quote = true)
    (hfits : ∀ piece ∈ rest, piece.Fits quote raw)
    (hbody : IsBodyText quote ('\x7b' :: bodyText rest)) :
    FoundRightly quote true (.doubled '\x7b' :: rest) := by
  intro p found h
  obtain ⟨half, hreads⟩ := hbody.exists_reads hquote ((p.next '\\').next '\x7b')
  rw [h.unique hreads.hidden]
  have hne := ne_bodyFields_of_half hquote hfits hbody hreads
  exact iff_of_false hne (by simp [takesRightly])

theorem hidden_closing (hrest : FoundRightly quote false rest) (hquote : isQuote quote = true)
    (hbody : IsBodyText quote (bodyText rest)) :
    FoundRightly quote true (.doubled '\x7d' :: rest) := by
  intro p found h
  obtain ⟨behind, hreads⟩ :=
    hbody.exists_reads hquote (((p.next '\\').next '\x7d').next '\x7d')
  have hgoes : '\x7d' ≠ quote ∧ isLineEnd '\x7d' = false := ⟨ne_of_isQuote hquote rfl, rfl⟩
  rw [h.unique (hreads.plain hgoes (by decide) (by decide)).hidden]
  simpa [takesRightly] using hrest _ _ hreads

theorem hidden_field (hquote : isQuote quote = true)
    (hbody : IsBodyText quote (text ++ ['\x7d'] ++ bodyText rest)) :
    FoundRightly quote true (.field text :: rest) := by
  intro p found h
  obtain ⟨behind, hreads⟩ := hbody.exists_reads hquote ((p.next '\\').next '\x7b')
  rw [h.unique hreads.hidden]
  exact iff_of_false (ne_cons_of_precedes hreads.precedes rfl _) (by simp [takesRightly])

end FoundRightly

theorem foundRightly_of_fits (hquote : isQuote quote = true)
    (hfits : ∀ piece ∈ pieces, piece.Fits quote raw) {hidden : Bool}
    (hbody : IsBodyText quote (slashBefore hidden ++ bodyText pieces)) :
    FoundRightly quote hidden pieces := by
  induction pieces generalizing hidden with
  | nil =>
      cases hidden with
      | false => exact .nil hquote
      | true => exact absurd rfl hbody.last_ne
  | cons piece rest ih =>
      rw [List.forall_mem_cons] at hfits
      have hbehind : IsBodyText quote (bodyText rest) := by
        rw [bodyText, List.flatMap_cons, ← List.append_assoc] at hbody
        exact hbody.of_append (slashBefore hidden ++ piece.text)
      have hrest : FoundRightly quote false rest := ih hfits.2 hbehind
      cases hidden with
      | false =>
          cases piece with
          | plain c =>
              by_cases hbackslash : c = '\\'
              · subst hbackslash
                exact .backslash (ih hfits.2 hbody)
              · exact hrest.plain hquote hbehind hfits.1 hbackslash
          | doubled brace => exact hrest.doubled hquote hbehind hfits.1
          | field text => exact hrest.field hquote hbody hfits.1
      | true =>
          cases piece with
          | plain c => exact hrest.hidden_plain hquote hbehind
          | doubled brace =>
              rcases hfits.1 with rfl | rfl
              · exact .hidden_opening hquote hfits.2 (hbody.of_append ['\\', '\x7b'])
              · exact hrest.hidden_closing hquote hbehind
          | field text => exact .hidden_field hquote (hbody.of_append ['\\', '\x7b'])

end

/-! ### Literals -/

def formattedLiteral (word : List Char) (quote : Char) (pieces : List BodyPiece) : List Char :=
  word ++ quote :: (bodyText pieces ++ [quote])

/-- A script of one formatted string is read as one token on a line. -/
theorem BodyReads.tokenize_eq {word : List Char} {quote : Char} {pieces : List BodyPiece}
    {found : List Field} (hword : IsFormattedPrefix word) (hquote : isQuote quote = true)
    (hbody : IsBodyText quote (bodyText pieces))
    (h : BodyReads quote (Position.start.after (word ++ [quote])) (bodyText pieces) found) :
    tokenize (String.ofList (formattedLiteral word quote pieces)) = .ok
      [⟨.string found, String.ofList (formattedLiteral word quote pieces), .start⟩,
        ⟨.newline, "\n", Position.start.after (formattedLiteral word quote pieces)⟩,
        ⟨.endMarker, "", Position.start.after (formattedLiteral word quote pieces)⟩] := by
  have hsplit : split false .start [] (formattedLiteral word quote pieces) =
      [⟨.string found, formattedLiteral word quote pieces, .start⟩] := by
    rw [formattedLiteral, h.split_eq hword hquote hbody (by simp), split, List.reverse_nil]
  rw [tokenize, String.toList_ofList, hsplit]
  rfl

/-- A formatted string is one token, whatever is written in it. The fields of the token are those
that are written, each with the place of its first character, exactly where no backslash that hides
something stands before an opening brace and all fields have their brackets closed, the brackets in
their strings counted. -/
theorem formatted_fields_iff {word : List Char} {quote : Char} {pieces : List BodyPiece}
    (hword : IsFormattedPrefix word) (hquote : isQuote quote = true)
    (hbody : IsBody quote ((word.map Char.toLower).contains 'r') pieces) :
    ∃ fields,
      tokenize (String.ofList (formattedLiteral word quote pieces)) = .ok
        [⟨.string fields, String.ofList (formattedLiteral word quote pieces), .start⟩,
          ⟨.newline, "\n", Position.start.after (formattedLiteral word quote pieces)⟩,
          ⟨.endMarker, "", Position.start.after (formattedLiteral word quote pieces)⟩] ∧
      (fields = bodyFields (Position.start.after (word ++ [quote])) pieces ↔
        takesRightly false pieces = true) := by
  have htext := hbody.isBodyText hquote
  obtain ⟨found, hreads⟩ := htext.exists_reads hquote (Position.start.after (word ++ [quote]))
  have hright : FoundRightly quote false pieces := foundRightly_of_fits hquote hbody.fits htext
  exact ⟨found, hreads.tokenize_eq hword hquote htext, hright _ _ hreads⟩

/-- In a raw string with a backslash before a letter, with braces beside fields and with a field in
the format of another one, both fields are found. -/
theorem formatted_fields_raw :
    tokenize "Rf'\\d\x7b\x7b\x7ba[\"k\"]\x7d\x7d\x7d \x7bb(c)!r:>\x7bw\x7d\x7d'" = .ok
      [⟨.string [⟨"a[\"k\"]", ⟨1, 8⟩⟩, ⟨"b(c)!r:>\x7bw\x7d", ⟨1, 19⟩⟩],
          "Rf'\\d\x7b\x7b\x7ba[\"k\"]\x7d\x7d\x7d \x7bb(c)!r:>\x7bw\x7d\x7d'", ⟨1, 0⟩⟩,
        ⟨.newline, "\n", ⟨1, 32⟩⟩, ⟨.endMarker, "", ⟨1, 32⟩⟩] := by
  have hword : IsFormattedPrefix ['R', 'f'] := by decide
  have hquote : isQuote '\'' = true := rfl
  have hbody : IsBody '\'' true [.plain '\\', .plain 'd', .doubled '\x7b',
      .field "a[\"k\"]".toList, .doubled '\x7d', .plain ' ',
      .field "b(c)!r:>\x7bw\x7d".toList] := ⟨by decide, by decide⟩
  obtain ⟨fields, htokens, hiff⟩ := formatted_fields_iff hword hquote hbody
  rw [hiff.2 (by decide)] at htokens
  exact htokens

/-- A text without the strings in it that begin and end with a quote. The text of a string that has
begun is `inside`; if the string does not end, it stays. -/
def withoutStrings (quote : Char) (inside : Option (List Char)) : List Char → List Char
  | [] => inside.getD []
  | c :: rest =>
    match inside with
    | none =>
      if c = quote then withoutStrings quote (some [c]) rest
      else c :: withoutStrings quote none rest
    | some seen =>
      if c = quote then withoutStrings quote none rest
      else withoutStrings quote (some (seen ++ [c])) rest

/-- A bracket in a string of a field ends the field, and what stands behind it is in no field. In a
raw string a backslash hides the field behind it. -/
theorem formatted_fields_missed :
    (IsBody '"' false [.field "d['\x7d']".toList] ∧
      openBrackets 0 (withoutStrings '\'' none "d['\x7d']".toList) = some 0 ∧
      tokenize "f\"\x7bd['\x7d']\x7d\"" = .ok
        [⟨.string [⟨"d['\x7d'", ⟨1, 3⟩⟩], "f\"\x7bd['\x7d']\x7d\"", ⟨1, 0⟩⟩,
          ⟨.newline, "\n", ⟨1, 11⟩⟩, ⟨.endMarker, "", ⟨1, 11⟩⟩]) ∧
    IsBody '"' true [.plain '\\', .field ['x']] ∧
      tokenize "rf\"\\\x7bx\x7d\"" = .ok
        [⟨.string [], "rf\"\\\x7bx\x7d\"", ⟨1, 0⟩⟩,
          ⟨.newline, "\n", ⟨1, 8⟩⟩, ⟨.endMarker, "", ⟨1, 8⟩⟩] :=
  ⟨⟨⟨by decide, by decide⟩, by decide, by decide +kernel⟩, ⟨by decide, by decide⟩,
    by decide +kernel⟩

end ScriptSandbox
