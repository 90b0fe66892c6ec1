import Mathlib.Data.List.Find
import ScriptSandbox.Proofs.Source.LayoutRuns
import ScriptSandbox.Proofs.Text.Fullwidth
import ScriptSandbox.Proofs.Text.Lowercase

/-!
Scripts with names in full width. Where letters of names are spelled in full width, a text has the
same lexemes in the same places, and only the names are spelled in the new way. A keyword is not
spelled so: it would be a name then.
-/

namespace ScriptSandbox

open Text (spell IsMark spell_eq_iff)

/-- A text that begins at `p`, with letters in full width at some places. -/
def respell (wide : Position → Bool) (p : Position) : List Char → List Char
  | [] => []
  | c :: rest => spell (wide p) c :: respell wide (p.next c) rest

section

variable {wide : Position → Bool} {p : Position} {text rest lead : List Char} {c d : Char}

@[simp] theorem respell_nil : respell wide p [] = [] := rfl

@[simp] theorem respell_cons : respell wide p (c :: rest) =
    spell (wide p) c :: respell wide (p.next c) rest := rfl

@[simp] theorem Position.next_spell (p : Position) (b : Bool) (c : Char) :
    p.next (spell b c) = p.next c := by
  unfold next
  simp only [spell_eq_iff (show IsMark '\n' by decide)]

@[simp] theorem Position.after_respell (p q : Position) (text : List Char) :
    p.after (respell wide q text) = p.after text := by
  induction text generalizing p q with
  | nil => rfl
  | cons c rest ih => simp [ih]

@[simp] theorem length_respell : (respell wide p text).length = text.length := by
  induction text generalizing p with
  | nil => rfl
  | cons c rest ih => simp [ih]

theorem take_respell (n : Nat) : (respell wide p text).take n = respell wide p (text.take n) := by
  induction text generalizing p n with
  | nil => simp
  | cons c text ih =>
      cases n with
      | zero => rfl
      | succ n => simp [ih]

theorem drop_respell (n : Nat) :
    (respell wide p text).drop n = respell wide (p.after (text.take n)) (text.drop n) := by
  induction text generalizing p n with
  | nil => simp
  | cons c text ih =>
      cases n with
      | zero => rfl
      | succ n => simp [ih]

theorem takeWhile_respell {keep : Char → Bool} (hkeep : ∀ b c, keep (spell b c) = keep c) :
    (respell wide p text).takeWhile keep = respell wide p (text.takeWhile keep) := by
  induction text generalizing p with
  | nil => rfl
  | cons c text ih =>
      rw [respell_cons, List.takeWhile_cons, List.takeWhile_cons, hkeep]
      split
      · rw [respell_cons, ih]
      · rfl

theorem isPrefixOf_respell (hlead : ∀ d ∈ lead, IsMark d) :
    lead.isPrefixOf (respell wide p text) = lead.isPrefixOf text := by
  induction lead generalizing p text with
  | nil => simp
  | cons d lead ih =>
      obtain ⟨hd, hlead⟩ := List.forall_mem_cons.1 hlead
      cases text with
      | nil => rfl
      | cons c text =>
          have hfirst : (d == spell (wide p) c) = (d == c) := by
            rw [BEq.comm, Text.beq_spell hd, BEq.comm]
          simp [List.isPrefixOf, hfirst, ih hlead]

theorem head?_respell (hd : IsMark d) : (respell wide p text).head? = some d ↔ text.head? = some d := by
  cases text with
  | nil => rfl
  | cons c text => simp [spell_eq_iff hd]

theorem any_head?_respell {test : Char → Bool} (htest : ∀ b c, test (spell b c) = test c) :
    (respell wide p text).head?.any test = text.head?.any test := by
  cases text with
  | nil => rfl
  | cons c text => simp [htest]

def Narrow (wide : Position → Bool) (p : Position) (text : List Char) : Prop :=
  ∀ place, place.InText p text → wide place = false

theorem Narrow.append_left (h : Narrow wide p (text ++ rest)) : Narrow wide p text :=
  fun place hplace => h place (by simpa using hplace.within [] rest)

theorem Narrow.append_right (h : Narrow wide p (text ++ rest)) :
    Narrow wide (p.after text) rest :=
  fun place hplace => h place (by simpa using hplace.within text [])

theorem Narrow.head (h : Narrow wide p (c :: rest)) : wide p = false :=
  h p (.of_ne_nil (by simp))

theorem Narrow.tail (h : Narrow wide p (c :: rest)) : Narrow wide (p.next c) rest :=
  (show Narrow wide p ([c] ++ rest) from h).append_right

theorem Narrow.respell_eq (h : Narrow wide p text) : respell wide p text = text := by
  induction text generalizing p with
  | nil => rfl
  | cons c rest ih => simp [h.head, ih h.tail]

theorem respell_eq_of_ascii (h : ∀ d ∈ respell wide p text, d.toNat < 0x80) :
    respell wide p text = text := by
  induction text generalizing p with
  | nil => rfl
  | cons c rest ih =>
      obtain ⟨hfirst, hrest⟩ := List.forall_mem_cons.1 h
      rw [respell_cons, ih hrest]
      rcases Text.spell_cases (wide p) c with heq | ⟨-, hfull⟩
      · rw [heq]
      · unfold Text.IsFullwidth at hfull
        omega

end

/-! ### Lexemes -/

def Field.respell (wide : Position → Bool) (f : Field) : Field :=
  ⟨String.ofList (ScriptSandbox.respell wide f.position f.source.toList), f.position⟩

def LexemeKind.respell (wide : Position → Bool) : LexemeKind → LexemeKind
  | .string fields => .string (fields.map (Field.respell wide))
  | kind => kind

namespace Lexeme

variable {wide : Position → Bool} {p : Position} {text rest : List Char} {c : Char}

@[simp] theorem isGap_spell (b : Bool) (c : Char) : isGap (spell b c) = isGap c :=
  Text.spell_of_marks (fun d h => by
    simp only [isGap, Bool.or_eq_true, beq_iff_eq, or_assoc] at h
    rcases h with rfl | rfl | rfl <;> decide) b c

theorem isMark_of_isLineEnd {d : Char} (h : isLineEnd d = true) : IsMark d := by
  simp only [isLineEnd, Bool.or_eq_true, beq_iff_eq] at h
  rcases h with rfl | rfl <;> decide

theorem isMark_of_isQuote {d : Char} (h : isQuote d = true) : IsMark d := by
  simp only [isQuote, Bool.or_eq_true, beq_iff_eq] at h
  rcases h with rfl | rfl <;> decide

theorem isMark_of_isOpening {d : Char} (h : isOpening d = true) : IsMark d := by
  simp only [isOpening, Bool.or_eq_true, beq_iff_eq, or_assoc] at h
  rcases h with rfl | rfl | rfl <;> decide

theorem isMark_of_isClosing {d : Char} (h : isClosing d = true) : IsMark d := by
  simp only [isClosing, Bool.or_eq_true, beq_iff_eq, or_assoc] at h
  rcases h with rfl | rfl | rfl <;> decide

@[simp] theorem Delimiter.stops_spell (d : Delimiter) (b : Bool) (c : Char) :
    d.stops (spell b c) = d.stops c := by
  rw [stops, stops, Text.spell_of_marks fun _ => isMark_of_isLineEnd]

@[simp] theorem Delimiter.begins_respell {d : Delimiter} (hquote : IsMark d.quote)
    (text : List Char) :
    d.begins (respell wide p text) = d.begins text :=
  isPrefixOf_respell fun _ hmem => List.eq_of_mem_replicate hmem ▸ hquote

theorem fieldExtent_respell {d : Delimiter} (hquote : IsMark d.quote) (depth n : Nat)
    (text : List Char) :
    fieldExtent d depth n (respell wide p text) = fieldExtent d depth n text := by
  have hbegins (p : Position) (c : Char) (rest : List Char) :
      d.begins (spell (wide p) c :: respell wide (p.next c) rest) = d.begins (c :: rest) :=
    d.begins_respell (p := p) hquote (c :: rest)
  have hopens := Text.spell_of_marks fun _ => isMark_of_isOpening
  have hcloses := Text.spell_of_marks fun _ => isMark_of_isClosing
  fun_induction fieldExtent d depth n text generalizing p with
  | case1 => rfl
  | case2 depth n c rest hend => simp [hbegins, hend]
  | case3 depth n c rest hend hopening ih =>
      simp [hbegins, hend, hopens, hopening, ih]
  | case4 depth n c rest hend hopening hclosing hdepth =>
      simp [hbegins, hend, hopens, hopening, hcloses, hclosing, hdepth]
  | case5 depth n c rest hend hopening hclosing hdepth ih =>
      simp [hbegins, hend, hopens, hopening, hcloses, hclosing, hdepth, ih]
  | case6 depth n c rest hend hopening hclosing ih =>
      simp [hbegins, hend, hopens, hopening, hcloses, hclosing, ih]

theorem stringExtent_respell (wide : Position → Bool) {d : Delimiter} (hquote : IsMark d.quote)
    (formatted : Bool) (p : Position) (n : Nat) (fields : List Field) (text : List Char) :
    stringExtent d formatted p n (fields.map (Field.respell wide)) (respell wide p text) =
      (stringExtent d formatted p n fields text).map
        fun found => (found.1, found.2.map (Field.respell wide)) := by
  have hbegins (p : Position) (c : Char) (rest : List Char) :
      d.begins (spell (wide p) c :: respell wide (p.next c) rest) = d.begins (c :: rest) :=
    d.begins_respell (p := p) hquote (c :: rest)
  have hslash (b : Bool) (c : Char) : spell b c = '\\' ↔ c = '\\' :=
    spell_eq_iff (by decide)
  have hopening (b : Bool) (c : Char) :
      (formatted && spell b c == '\x7b') = (formatted && c == '\x7b') := by
    rw [Text.beq_spell (by decide)]
  have hnext (p : Position) (rest : List Char) :
      (respell wide p rest).head? = some '\x7b' ↔ rest.head? = some '\x7b' :=
    head?_respell (by decide)
  fun_induction stringExtent d formatted p n fields text with
  | case1 => simp
  | case2 p n fields => simp [(hslash _ _).2 rfl]
  | case3 p n fields e rest ih => simp [(hslash _ _).2 rfl, ih]
  | case4 p n fields c rest hback hstops => simp [hslash, hback, hstops]
  | case5 p n fields c rest hback hstops hbegin =>
      simp [hslash, hback, hstops, hbegins, hbegin]
  | case6 p n fields c rest hback hstops hbegin hopens hbrace ih =>
      rw [respell_cons, stringExtent_doubled (mt (hslash _ c).1 hback) (by rwa [d.stops_spell])
        (by rwa [hbegins]) (by rwa [hopening]) ((hnext _ _).2 hbrace), take_respell, drop_respell,
        Position.next_spell, Position.after_respell]
      exact ih
  | case7 p n fields c rest hback hstops hbegin hopens hbrace fieldLength closed hextent read =>
      rename_i field ih
      have hfield : field.respell wide =
          ⟨String.ofList (respell wide (p.next c) (rest.take fieldLength)), p.next c⟩ := by
        rw [Field.respell, String.toList_ofList]
      rw [List.map_cons, hfield] at ih
      rw [respell_cons, stringExtent_field (mt (hslash _ c).1 hback) (by rwa [d.stops_spell])
        (by rwa [hbegins]) (by rwa [hopening]) (mt (hnext _ _).1 hbrace)
        ((fieldExtent_respell hquote 1 0 rest).trans hextent), take_respell, take_respell, drop_respell,
        Position.next_spell, Position.after_respell]
      exact ih
  | case8 p n fields c rest hback hstops hbegin hopens ih =>
      simp [hslash, hback, hstops, hbegins, hbegin, hopening, hopens, ih]

theorem stringKind_respell (wide : Position → Bool) {quote : Char} (hquote : isQuote quote = true)
    (formatted : Bool) (p : Position) (text : List Char) :
    stringKind quote formatted p (respell wide (p.next quote) text) =
      ((stringKind quote formatted p text).1.respell wide, (stringKind quote formatted p text).2) := by
  have hmark := isMark_of_isQuote hquote
  have htriple : [quote, quote].isPrefixOf (respell wide (p.next quote) text) =
      [quote, quote].isPrefixOf text := isPrefixOf_respell (by simp [hmark])
  unfold stringKind
  rw [htriple]
  extract_lets d opening
  have hextent := stringExtent_respell wide (d := d) hmark formatted
    ((p.next quote).after (text.take opening)) opening [] (text.drop opening)
  rw [List.map_nil] at hextent
  rw [take_respell, drop_respell, Position.after_respell, hextent, length_respell]
  cases stringExtent d formatted ((p.next quote).after (text.take opening)) opening []
    (text.drop opening) with
  | none => rfl
  | some found => rfl

theorem stringKind_ne_name (quote : Char) (formatted : Bool) (p : Position) (text : List Char) :
    (stringKind quote formatted p text).1 ≠ .name := by
  rcases stringKind_cases quote formatted p text with ⟨_, hkind, -⟩ | ⟨_, hkind, -⟩
  · rw [hkind]
    simp
  · rw [hkind]
    simp

theorem numberLength_respell {hexadecimal : Bool} {previous : Char}
    (h : Narrow wide p (text.take (numberLength hexadecimal previous text))) :
    numberLength hexadecimal previous (respell wide p text) =
      numberLength hexadecimal previous text := by
  fun_induction numberLength hexadecimal previous text generalizing p with
  | case1 => rfl
  | case2 previous c rest hdigit ih =>
      rw [List.take_succ_cons] at h
      simp [h.head, numberLength, hdigit, ih h.tail]
  | case3 previous c rest hdigit hsign ih =>
      rw [List.take_succ_cons] at h
      simp [h.head, numberLength, hdigit, hsign, ih h.tail]
  | case4 previous c rest hdigit hsign =>
      have hsame : spell (wide p) c = c := by
        rcases Text.spell_cases (wide p) c with heq | ⟨halpha, -⟩
        · exact heq
        · exact absurd (by simp [Char.isAlphanum, halpha]) hdigit
      rw [respell_cons, hsame, numberLength, if_neg hdigit, if_neg hsign]

/-- What is found at the beginning of a text, and what is found there when the text is spelled anew:
the same, if no character of a lexeme that is no name is spelled anew. -/
def Respelled (wide : Position → Bool) (p : Position) (c : Char) (rest : List Char)
    (found found' : LexemeKind × Nat) : Prop :=
  (found.1 ≠ .name → Narrow wide p (c :: rest.take found.2)) →
    found' = (found.1.respell wide, found.2)

theorem respelled_ite {b b' : Prop} [Decidable b] [Decidable b'] {x y u v : LexemeKind × Nat}
    (hb : b' ↔ b) (hx : b → Respelled wide p c rest x u) (hy : ¬ b → Respelled wide p c rest y v) :
    Respelled wide p c rest (if b then x else y) (if b' then u else v) :=
  ite_rel hb hx hy

theorem respelled_of_eq {found found' : LexemeKind × Nat}
    (h : found' = (found.1.respell wide, found.2)) : Respelled wide p c rest found found' :=
  fun _ => h

theorem isMark_of_mem_operators :
    ∀ operator ∈ operators, ∀ d ∈ operator, IsMark d := by
  have hall : (operators.all fun operator => operator.all fun d => decide (IsMark d)) = true := by
    decide
  simpa using hall

@[simp] theorem find?_operators_respell (wide : Position → Bool) (p : Position) (text : List Char) :
    operators.find? (·.isPrefixOf (respell wide p text)) = operators.find? (·.isPrefixOf text) :=
  List.find?_congr fun operator hoperator =>
    isPrefixOf_respell (isMark_of_mem_operators operator hoperator)

theorem toNat_of_mem_stringPrefixes :
    ∀ word ∈ stringPrefixes, ∀ d ∈ word, d.toNat < 0x80 := by
  have hall : (stringPrefixes.all fun word => word.all fun d => decide (d.toNat < 0x80)) = true := by
    decide
  simpa using hall

theorem respell_eq_of_prefix {word : List Char}
    (h : stringPrefixes.contains ((respell wide p word).map Char.toLower) = true) :
    respell wide p word = word := by
  refine respell_eq_of_ascii fun d hd => ?_
  by_contra hlarge
  have hascii := toNat_of_mem_stringPrefixes _ (List.contains_iff_mem.1 h) _ (List.mem_map_of_mem hd)
  rw [Text.toLower_eq_self (Nat.le_of_not_lt hlarge)] at hascii
  exact hlarge hascii

theorem head?_of_number {hexadecimal : Bool}
    (h : Narrow wide p (rest.take (numberLength hexadecimal c rest))) :
    (respell wide p rest).head? = rest.head? := by
  cases rest with
  | nil => rfl
  | cons d rest =>
      rw [respell_cons, List.head?_cons, List.head?_cons]
      rcases Text.spell_cases (wide p) d with heq | ⟨halpha, -⟩
      · rw [heq]
      · rw [numberLength, if_pos (by simp [Char.isAlphanum, halpha]), List.take_succ_cons] at h
        rw [h.head, Text.spell_false]

theorem classifyWord_respell (p : Position) (c : Char) (rest : List Char) :
    Respelled wide p c rest (classifyWord p c rest)
      (classifyWord p (spell (wide p) c) (respell wide (p.next c) rest)) := by
  unfold classifyWord
  rw [takeWhile_respell Text.isWordPart_spell, length_respell]
  generalize (rest.takeWhile Text.isWordPart).length = length
  have hword : spell (wide p) c :: (respell wide (p.next c) rest).take length =
      respell wide p (c :: rest.take length) := by
    rw [take_respell, respell_cons]
  dsimp only
  rw [hword, drop_respell, Position.after_respell]
  cases hafter : rest.drop length with
  | nil => exact respelled_of_eq rfl
  | cons quote text =>
      rw [respell]
      dsimp only
      by_cases hprefixed : (isQuote quote &&
          stringPrefixes.contains ((c :: rest.take length).map Char.toLower)) = true
      -- The prefix is a part of the string, so it is not spelled anew.
      · rw [if_pos hprefixed]
        intro hnarrow
        have hquote := (Bool.and_eq_true_iff.1 hprefixed).1
        have hsame : respell wide p (c :: rest.take length) = c :: rest.take length := by
          have hown := hnarrow (stringKind_ne_name _ _ _ _)
          rw [Nat.add_assoc, List.take_add, ← List.cons_append] at hown
          exact hown.append_left.respell_eq
        rw [(spell_eq_iff (isMark_of_isQuote hquote)).2 rfl, hsame, if_pos hprefixed]
        have hkind := stringKind_respell wide hquote
          (((c :: rest.take length).map Char.toLower).contains 'f') (p.after (c :: rest.take length))
          text
        rw [Position.after_cons] at hkind ⊢
        rw [hkind]
      · rw [if_neg hprefixed]
        have hprefixed' : ¬ (isQuote (spell (wide ((p.next c).after (rest.take length))) quote) &&
            stringPrefixes.contains
              ((respell wide p (c :: rest.take length)).map Char.toLower)) = true := by
          rw [Text.spell_of_marks fun _ => isMark_of_isQuote]
          intro h
          have hsame := respell_eq_of_prefix (Bool.and_eq_true_iff.1 h).2
          rw [hsame] at h
          exact hprefixed h
        rw [if_neg hprefixed']
        exact respelled_of_eq rfl

/-- A text that is spelled anew begins with the same lexeme. -/
theorem classify_respell (lenient : Bool) (p : Position) (c : Char) (rest : List Char) :
    Respelled wide p c rest (classify lenient p c rest)
      (classify lenient p (spell (wide p) c) (respell wide (p.next c) rest)) := by
  by_cases hslash : c = '\\'
  · subst hslash
    rw [(spell_eq_iff (show IsMark '\\' by decide)).2 rfl, classify_backslash, classify_backslash,
      drop_respell, length_respell]
    simp only [head?_respell (show IsMark '\n' by decide), head?_respell (show IsMark '\r' by decide)]
    refine respelled_ite Iff.rfl (fun _ => respelled_of_eq rfl) fun _ => ?_
    refine respelled_ite Iff.rfl (fun _ => respelled_of_eq rfl) fun _ => ?_
    exact respelled_ite Iff.rfl (fun _ => respelled_of_eq rfl) fun _ => respelled_of_eq rfl
  have hrun {keep : Char → Bool} (kind : LexemeKind) (hkind : kind.respell wide = kind)
      (hkeep : ∀ b c, keep (spell b c) = keep c) :
      Respelled wide p c rest (kind, (rest.takeWhile keep).length)
        (kind, ((respell wide (p.next c) rest).takeWhile keep).length) :=
    respelled_of_eq (by rw [takeWhile_respell hkeep, length_respell, hkind])
  have heq (d : Char) (hd : IsMark d) : spell (wide p) c = d ↔ c = d := spell_eq_iff hd
  unfold classify
  refine respelled_ite (by rw [isGap_spell]) (fun _ => hrun .blank rfl isGap_spell) fun _ => ?_
  refine respelled_ite (heq '#' (by decide)) (fun _ => hrun .comment rfl fun b c => ?_) fun _ => ?_
  · rw [Text.spell_of_marks fun _ => isMark_of_isLineEnd]
  refine respelled_ite (heq '\n' (by decide)) (fun _ => respelled_of_eq rfl) fun _ => ?_
  refine respelled_ite (heq '\r' (by decide)) (fun _ => ?_) fun _ => ?_
  · simp only [head?_respell (show IsMark '\n' by decide)]
    exact respelled_of_eq rfl
  refine respelled_ite (heq '\\' (by decide)) (fun h => absurd h hslash) fun _ => ?_
  refine respelled_ite (by rw [Text.spell_of_marks fun _ => isMark_of_isQuote]) (fun hquote => ?_)
    fun _ => ?_
  · rw [(spell_eq_iff (isMark_of_isQuote hquote)).2 rfl]
    exact respelled_of_eq (stringKind_respell wide hquote false p rest)
  have hdigit (b : Bool) (c : Char) : (spell b c).isDigit = c.isDigit :=
    Text.spell_of_marks (fun _ => Text.isMark_of_isDigit) b c
  refine respelled_ite (by rw [hdigit, Text.beq_spell (by decide), any_head?_respell hdigit])
    (fun _ hnarrow => ?_) fun _ => ?_
  · have hown := hnarrow (by simp)
    dsimp only at hown ⊢
    rw [hown.head, Text.spell_false, head?_of_number hown.tail, numberLength_respell hown.tail]
    rfl
  refine respelled_ite (by rw [Text.isWordStart_spell]) (fun hstart => ?_) fun _ => ?_
  · exact classifyWord_respell p c rest
  · have hfind := find?_operators_respell wide p (c :: rest)
    rw [respell_cons] at hfind
    rw [hfind]
    cases operators.find? (·.isPrefixOf (c :: rest)) with
    | some operator => exact respelled_of_eq rfl
    | none =>
        dsimp only
        refine respelled_ite Iff.rfl (fun _ => respelled_of_eq rfl) fun _ hnarrow => ?_
        rw [(hnarrow (by simp)).head, Text.spell_false, length_respell]
        rfl

theorem Shape.kind_respell {lenient : Bool} {kind : LexemeKind} {after : List Char}
    (h : Shape lenient p kind text after) (hnarrow : Narrow wide p text) :
    kind.respell wide = kind := by
  cases kind with
  | string fields =>
      have hfields (f : Field) (hf : f ∈ fields) : f.respell wide = f := by
        obtain ⟨lead, behind, rfl, -, hposition⟩ := h.standsIn f hf
        have hown := hnarrow.append_left.append_right
        rw [← hposition] at hown
        rw [Field.respell, hown.respell_eq, String.ofList_toList]
      rw [LexemeKind.respell, List.map_congr_left hfields, List.map_id']
  | _ => rfl

def respell (wide : Position → Bool) (l : Lexeme) : Lexeme :=
  ⟨l.kind, ScriptSandbox.respell wide l.position l.text, l.position⟩

theorem classify_eq (lenient : Bool)
    (h : (classify lenient p c rest).1 ≠ .name →
      Narrow wide p (c :: rest.take (classify lenient p c rest).2)) :
    classify lenient p (spell (wide p) c) (ScriptSandbox.respell wide (p.next c) rest) =
      classify lenient p c rest := by
  rw [classify_respell lenient p c rest h]
  refine Prod.ext ?_ rfl
  by_cases hname : (classify lenient p c rest).1 = .name
  · rw [hname]
    rfl
  · exact (classify_fits lenient p c rest).kind_respell (h hname)

/-- A text that is spelled anew in names only has the same lexemes with names that are spelled anew. -/
theorem split_respell {lenient : Bool}
    (h : ∀ l ∈ split lenient p [] text, l.kind ≠ .name → Narrow wide l.position l.text) :
    split lenient p [] (ScriptSandbox.respell wide p text) =
      (split lenient p [] text).map (respell wide) := by
  induction p, text using split_induction lenient with
  | nil p => simp [split]
  | cons p c rest ih =>
      rw [split_cons] at h
      obtain ⟨hfirst, hrest⟩ := List.forall_mem_cons.1 h
      have hlater := ih hrest
      rw [Position.after_cons] at hlater
      rw [respell_cons, split_cons, split_cons, classify_eq lenient hfirst, take_respell,
        drop_respell, Position.after_cons, Position.next_spell, Position.after_respell, hlater]
      rfl

end Lexeme

end ScriptSandbox
