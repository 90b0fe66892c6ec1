import Mathlib.Data.List.Basic
import ScriptSandbox.Proofs.Source.Lexing

/-!
How far things extend in a text. A string that ends inside a text ends with its delimiter, and it ends
there whatever follows the text. The same goes for fields, numbers and words, which have to end before
the text does, as they could go on otherwise.
-/

namespace ScriptSandbox

theorem mem_getLast?_of_suffix {α : Type} {items rest : List α} (h : rest <:+ items) {a : α}
    (ha : a ∈ rest.getLast?) : a ∈ items.getLast? := by
  obtain ⟨lead, rfl⟩ := h
  simp [List.getLast?_append, Option.mem_def.1 ha]

namespace Lexeme

section Delimiter

variable {d : Delimiter} {text : List Char}

theorem Delimiter.length_pos (d : Delimiter) : 0 < d.length := by
  unfold length
  split <;> decide

theorem Delimiter.begins_append (h : d.length ≤ text.length) (more : List Char) :
    d.begins (text ++ more) = d.begins text := by
  unfold begins
  rw [Bool.eq_iff_iff, List.isPrefixOf_iff_prefix, List.isPrefixOf_iff_prefix]
  refine ⟨fun hbegins => ?_, fun hbegins => hbegins.trans (List.prefix_append text more)⟩
  exact List.prefix_of_prefix_length_le hbegins (List.prefix_append text more) (by simpa using h)

theorem Delimiter.begins_swap {c : Char} {x y : List Char} (h : d.length ≤ text.length + 1) :
    d.begins (c :: (text ++ y)) = d.begins (c :: (text ++ x)) := by
  have hlong : d.length ≤ (c :: text).length := h
  rw [← List.cons_append, ← List.cons_append, begins_append hlong, begins_append hlong]

end Delimiter

/-! ### Fields and strings -/

/-- A field that ends early enough for a delimiter to follow ends there whatever comes behind. -/
theorem fieldExtent_swap {d : Delimiter} {depth n : Nat} {text x : List Char}
    (h : (fieldExtent d depth n (text ++ x)).1 + d.length ≤ n + text.length) (y : List Char) :
    fieldExtent d depth n (text ++ y) = fieldExtent d depth n (text ++ x) := by
  have hread (depth n : Nat) (text : List Char) := le_fieldExtent d depth n (text ++ x)
  induction text generalizing depth n with
  | nil =>
      have hle := hread depth n []
      have hpos := d.length_pos
      rw [List.length_nil] at h
      omega
  | cons c rest ih =>
      have hle := hread depth n (c :: rest)
      have hbegins : d.begins (c :: (rest ++ y)) = d.begins (c :: (rest ++ x)) :=
        d.begins_swap (by rw [List.length_cons] at h; omega)
      have hrest {depth : Nat}
          (h : (fieldExtent d depth (n + 1) (rest ++ x)).1 + d.length ≤ n + (c :: rest).length) :
          fieldExtent d depth (n + 1) (rest ++ y) = fieldExtent d depth (n + 1) (rest ++ x) := by
        refine ih ?_
        rw [List.length_cons] at h
        omega
      rw [List.cons_append] at h
      by_cases hend : (d.begins (c :: (rest ++ x)) || d.stops c) = true
      · simp [hbegins, hend]
      by_cases hopening : isOpening c = true
      · rw [fieldExtent_opening hend hopening] at h
        simp [hbegins, hend, hopening, hrest h]
      by_cases hclosing : isClosing c = true
      · by_cases hdepth : depth ≤ 1
        · simp [hbegins, hend, hopening, hclosing, hdepth]
        · rw [fieldExtent_closing hend hopening hclosing, if_neg hdepth] at h
          simp [hbegins, hend, hopening, hclosing, hdepth, hrest h]
      · rw [fieldExtent_plain hend hopening hclosing] at h
        simp [hbegins, hend, hopening, hclosing, hrest h]

theorem lt_length_of_stringExtent_drop {d : Delimiter} {formatted : Bool} {p : Position}
    {n read : Nat} {fields : List Field} {text : List Char} {found : Nat × List Field}
    (h : stringExtent d formatted p n fields (text.drop read) = some found) :
    read < text.length := by
  by_contra hlong
  rw [List.drop_of_length_le (Nat.not_lt.1 hlong), stringExtent] at h
  cases h

/-- A string ends with its delimiter. -/
theorem stringExtent_ends {d : Delimiter} {formatted : Bool} {p : Position} {n length : Nat}
    {fields found : List Field} {text : List Char}
    (h : stringExtent d formatted p n fields text = some (length, found)) :
    ∃ lead rest, text = lead ++ List.replicate d.length d.quote ++ rest ∧
      length = n + lead.length + d.length := by
  have hskip (lead : List Char) {rest : List Char} {n length : Nat} (hrest : ∃ inner more,
      rest = inner ++ List.replicate d.length d.quote ++ more ∧
        length = n + lead.length + inner.length + d.length) :
      ∃ inner more, lead ++ rest = inner ++ List.replicate d.length d.quote ++ more ∧
        length = n + inner.length + d.length := by
    obtain ⟨inner, more, rfl, hlength⟩ := hrest
    refine ⟨lead ++ inner, more, by simp, ?_⟩
    rw [hlength, List.length_append, Nat.add_assoc n]
  fun_induction stringExtent d formatted p n fields text generalizing length found with
  | case1 => cases h
  | case2 => cases h
  | case3 p n fields e rest ih => exact hskip ['\\', e] (ih h)
  | case4 => cases h
  | case5 p n fields c rest hslash hstops hbegins =>
      cases h
      obtain ⟨more, hmore⟩ := List.isPrefixOf_iff_prefix.1 hbegins
      exact ⟨[], more, by simpa using hmore.symm, rfl⟩
  | case6 p n fields c rest hslash hstops hbegins hopens hbrace ih =>
      obtain ⟨rest, rfl⟩ := List.head?_eq_some_iff.1 hbrace
      exact hskip [c, '\x7b'] (ih h)
  | case7 p n fields c rest hslash hstops hbegins hopens hbrace fieldLength closed hextent read =>
      rename_i field ih
      have hread := lt_length_of_stringExtent_drop h
      have hlead : (c :: rest.take read).length = 1 + read := by
        rw [List.length_cons, List.length_take]
        omega
      have hends := hskip (c :: rest.take read) (n := n)
        (by rw [hlead, ← Nat.add_assoc]; exact ih h)
      rwa [List.cons_append, List.take_append_drop] at hends
  | case8 p n fields c rest hslash hstops hbegins hopens ih => exact hskip [c] (ih h)

/-- A field that a delimiter can follow in a text is read from it whatever comes behind the text. -/
theorem stringExtent_field_swap {d : Delimiter} {formatted : Bool} {p : Position} {n length read : Nat}
    {fields : List Field} {c : Char} {text x : List Char} {closed : Bool} (hslash : c ≠ '\\')
    (hstops : ¬ d.stops c = true) (hbegins : ¬ d.begins (c :: (text ++ x)) = true)
    (hopens : (formatted && c == '\x7b') = true) (hhead : ¬ (text ++ x).head? = some '\x7b')
    (hextent : fieldExtent d 1 0 (text ++ x) = (length, closed))
    (hread : read = if closed then length + 1 else length) (hfits : read + d.length ≤ text.length)
    (y : List Char) :
    stringExtent d formatted p n fields (c :: (text ++ y)) =
      stringExtent d formatted ((p.next c).after (text.take read)) (n + 1 + read)
        (⟨String.ofList (text.take length), p.next c⟩ :: fields) (text.drop read ++ y) := by
  have hlength : length ≤ read := by
    rw [hread]
    split <;> omega
  have hpos := d.length_pos
  have hextent' : fieldExtent d 1 0 (text ++ y) = (length, closed) := by
    rw [fieldExtent_swap (x := x) (by rw [hextent]; dsimp only; omega), hextent]
  have hsame (z : List Char) : (text ++ z).head? = text.head? :=
    List.head?_append_of_ne_nil _ (List.ne_nil_of_length_pos (by omega))
  have hbegins' : ¬ d.begins (c :: (text ++ y)) = true := by
    rwa [d.begins_swap (x := x) (by omega)]
  rw [stringExtent_field hslash hstops hbegins' hopens (by rwa [hsame, ← hsame x]) hextent', ← hread,
    List.take_append_of_le_length (by omega), List.take_append_of_le_length (by omega),
    List.drop_append_of_le_length (by omega)]

/-- A string that ends inside a text ends there whatever follows the text. -/
theorem stringExtent_swap {d : Delimiter} {formatted : Bool} {p : Position} {n length : Nat}
    {fields found : List Field} {text x : List Char}
    (h : stringExtent d formatted p n fields (text ++ x) = some (length, found))
    (hlength : length ≤ n + text.length) (y : List Char) :
    stringExtent d formatted p n fields (text ++ y) = some (length, found) := by
  have hends {p : Position} {n length : Nat} {fields found : List Field} {text : List Char}
      (h : stringExtent d formatted p n fields text = some (length, found)) :
      n + d.length ≤ length := by
    obtain ⟨lead, _, -, rfl⟩ := stringExtent_ends h
    omega
  have hpos := d.length_pos
  have hcut {c : Char} {rest text : List Char} (hwhole : text ++ x = c :: rest)
      (htext : 0 < text.length) : ∃ inner, text = c :: inner ∧ rest = inner ++ x := by
    obtain ⟨e, inner, rfl⟩ := List.exists_cons_of_length_pos htext
    obtain ⟨rfl, hrest⟩ := List.cons.inj hwhole
    exact ⟨inner, rfl, hrest.symm⟩
  generalize hwhole : text ++ x = whole at h
  -- The delimiter at the end stands in the text, and so does all that is read before it.
  fun_induction stringExtent d formatted p n fields whole generalizing text length found with
  | case1 => cases h
  | case2 => cases h
  | case3 p n fields e rest ih =>
      have hread := hends h
      obtain ⟨text, rfl, hrest⟩ := hcut hwhole (by omega)
      rw [List.length_cons] at hlength
      obtain ⟨text, rfl, rfl⟩ := hcut hrest.symm (by omega)
      rw [List.length_cons] at hlength
      rw [List.cons_append, List.cons_append, stringExtent_hidden]
      exact ih (by omega) rfl h
  | case4 => cases h
  | case5 p n fields c rest hslash hstops hbegins =>
      cases h
      obtain ⟨text, rfl, rfl⟩ := hcut hwhole (by omega)
      have hswap : d.begins (c :: (text ++ y)) = d.begins (c :: (text ++ x)) :=
        d.begins_swap (by rw [List.length_cons] at hlength; omega)
      rw [List.cons_append, stringExtent_begins hslash hstops (by rwa [hswap])]
  | case6 p n fields c rest hslash hstops hbegins hopens hbrace ih =>
      obtain ⟨rest, rfl⟩ := List.head?_eq_some_iff.1 hbrace
      have hread := hends h
      obtain ⟨text, rfl, hrest⟩ := hcut hwhole (by omega)
      rw [List.length_cons] at hlength
      obtain ⟨text, rfl, rfl⟩ := hcut hrest.symm (by omega)
      rw [List.length_cons] at hlength
      have hlong : d.length ≤ ('\x7b' :: text).length + 1 := by
        rw [List.length_cons]
        omega
      have hswap : d.begins (c :: '\x7b' :: (text ++ y)) = d.begins (c :: '\x7b' :: (text ++ x)) :=
        d.begins_swap hlong
      rw [List.cons_append, List.cons_append,
        stringExtent_doubled hslash hstops (by rwa [hswap]) hopens List.head?_cons]
      exact ih (by omega) rfl h
  | case7 p n fields c rest hslash hstops hbegins hopens hbrace fieldLength closed hextent read =>
      rename_i field ih
      have hread := hends h
      obtain ⟨text, rfl, rfl⟩ := hcut hwhole (by omega)
      rw [List.length_cons] at hlength
      have hfieldRead : read = if closed then fieldLength + 1 else fieldLength := rfl
      have hfield : fieldLength ≤ read := by
        rw [hfieldRead]
        split <;> omega
      have htake (i : Nat) (hi : i ≤ read) : text.take i = (text ++ x).take i :=
        (List.take_append_of_le_length (by omega)).symm
      rw [List.cons_append,
        stringExtent_field_swap hslash hstops hbegins hopens hbrace hextent hfieldRead (by omega),
        htake _ (Nat.le_refl read), htake _ hfield]
      refine ih ?_ (List.drop_append_of_le_length (by omega)).symm h
      rw [List.length_drop]
      omega
  | case8 p n fields c rest hslash hstops hbegins hopens ih =>
      have hread := hends h
      obtain ⟨text, rfl, rfl⟩ := hcut hwhole (by omega)
      rw [List.length_cons] at hlength
      have hswap : d.begins (c :: (text ++ y)) = d.begins (c :: (text ++ x)) :=
        d.begins_swap (by omega)
      rw [List.cons_append, stringExtent_plain hslash hstops (by rwa [hswap]) hopens]
      exact ih (by omega) rfl h

theorem stringKind_of_stringExtent {d : Delimiter} {formatted : Bool} {p : Position} {length : Nat}
    {fields : List Field} {text : List Char} (hquotes : [d.quote, d.quote].isPrefixOf text = d.triple)
    (h : stringExtent d formatted ((p.next d.quote).after (text.take (d.length - 1))) (d.length - 1) []
      (text.drop (d.length - 1)) = some (length, fields)) :
    stringKind d.quote formatted p text = (.string fields, length) := by
  unfold stringKind
  rw [hquotes]
  dsimp only
  rw [h]

/-- A string that is not broken has an end. -/
theorem exists_stringExtent {quote : Char} {formatted : Bool} {p : Position} {text : List Char}
    (h : ∀ problem, (stringKind quote formatted p text).1 ≠ .broken problem) :
    ∃ (d : Delimiter) (length : Nat) (fields : List Field),
      d.quote = quote ∧ [quote, quote].isPrefixOf text = d.triple ∧
      stringExtent d formatted ((p.next quote).after (text.take (d.length - 1))) (d.length - 1) []
        (text.drop (d.length - 1)) = some (length, fields) := by
  unfold stringKind at h
  extract_lets d opening at h
  split at h
  · rename_i length fields hextent
    exact ⟨d, length, fields, rfl, rfl, hextent⟩
  · exact absurd rfl (h _)

/-! ### Words and numbers -/

theorem takeWhile_swap {keep : Char → Bool} {text x : List Char}
    (h : ((text ++ x).takeWhile keep).length < text.length) (y : List Char) :
    (text ++ y).takeWhile keep = (text ++ x).takeWhile keep := by
  rw [List.takeWhile_append, List.takeWhile_append]
  rw [List.takeWhile_append] at h
  split at h
  · rw [List.length_append] at h
    omega
  · rename_i hstop
    rw [if_neg hstop, if_neg hstop]

theorem takeWhile_length_lt {keep : Char → Bool} {text more : List Char} {c : Char}
    (hkeep : keep c = true) (h : ((text ++ c :: more).takeWhile keep).length ≤ text.length) :
    ((text ++ c :: more).takeWhile keep).length < text.length := by
  have hle := (List.takeWhile_prefix (l := text) keep).length_le
  rw [List.takeWhile_append] at h ⊢
  split at h
  · rw [List.length_append, List.takeWhile_cons_of_pos hkeep, List.length_cons] at h
    omega
  · rename_i hstop
    rw [if_neg hstop]
    omega

theorem takeWhile_append_cons {keep : Char → Bool} {c : Char} (h : keep c = false)
    (text more : List Char) : (text ++ c :: more).takeWhile keep = text.takeWhile keep := by
  rw [List.takeWhile_append, List.takeWhile_cons_of_neg (by simp [h]), List.append_nil]
  split
  · rename_i hall
    exact ((List.takeWhile_prefix keep).eq_of_length hall).symm
  · rfl

theorem isPrefixOf_append_cons {lead : List Char} {c : Char} (h : c ∉ lead) (text more : List Char) :
    lead.isPrefixOf (text ++ c :: more) = lead.isPrefixOf text := by
  induction lead generalizing text with
  | nil => simp
  | cons d lead ih =>
      obtain ⟨hd, hlead⟩ := not_or.1 (mt List.mem_cons.2 h)
      cases text with
      | nil => simp [List.isPrefixOf, Ne.symm hd]
      | cons e text => simp [List.isPrefixOf, ih hlead]

theorem numberLength_swap {hexadecimal : Bool} {previous : Char} {text x : List Char}
    (h : numberLength hexadecimal previous (text ++ x) < text.length) (y : List Char) :
    numberLength hexadecimal previous (text ++ y) =
      numberLength hexadecimal previous (text ++ x) := by
  induction text generalizing previous with
  | nil => simp at h
  | cons c rest ih =>
      rw [List.cons_append, numberLength, List.length_cons] at h
      rw [List.cons_append, List.cons_append, numberLength, numberLength]
      split at h
      · rename_i hpart
        rw [if_pos hpart, if_pos hpart, ih (by omega)]
      · rename_i hpart
        rw [if_neg hpart, if_neg hpart]
        split at h
        · rename_i hsign
          rw [if_pos hsign, if_pos hsign, ih (by omega)]
        · rename_i hsign
          rw [if_neg hsign, if_neg hsign]

/-- A number that does not take in the digit behind a text ends before that. -/
theorem numberLength_lt {hexadecimal : Bool} {previous c : Char} {text more : List Char}
    (hc : c.isAlphanum = true)
    (h : numberLength hexadecimal previous (text ++ c :: more) ≤ text.length) :
    numberLength hexadecimal previous (text ++ c :: more) < text.length := by
  induction text generalizing previous with
  | nil => simp [numberLength, hc] at h
  | cons d text ih =>
      rw [List.cons_append, numberLength, List.length_cons] at h ⊢
      split at h
      · rename_i hpart
        rw [if_pos hpart]
        exact Nat.succ_lt_succ (ih (Nat.le_of_succ_le_succ h))
      · rename_i hpart
        rw [if_neg hpart]
        split at h
        · rename_i hsign
          rw [if_pos hsign]
          exact Nat.succ_lt_succ (ih (Nat.le_of_succ_le_succ h))
        · rename_i hsign
          rw [if_neg hsign]
          exact Nat.succ_pos _

end Lexeme

end ScriptSandbox
