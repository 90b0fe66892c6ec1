import ScriptSandbox.Proofs.Source.Seams

/-!
Line ends with carriage returns. A text in which a carriage return stands before every line feed has
the same lexemes in the same places, with the carriage returns in their texts.

There is one exception. In a string between single quotes that goes on in another line, the backslash
at the end of the line hides the carriage return and not the line feed behind it. The string is broken
then, and with it the rest of the text.
-/

namespace ScriptSandbox

def withReturns (text : List Char) : List Char :=
  text.flatMap fun c => if c = '\n' then ['\r', '\n'] else [c]

section

variable {text rest lead : List Char} {c d : Char} {keep test : Char → Bool}

@[simp] theorem withReturns_nil : withReturns [] = [] := rfl

@[simp] theorem withReturns_feed :
    withReturns ('\n' :: rest) = '\r' :: '\n' :: withReturns rest := rfl

@[simp] theorem withReturns_cons (h : c ≠ '\n') :
    withReturns (c :: rest) = c :: withReturns rest := by
  simp [withReturns, h]

@[simp] theorem withReturns_append (text rest : List Char) :
    withReturns (text ++ rest) = withReturns text ++ withReturns rest :=
  List.flatMap_append

theorem withReturns_of_not_mem (h : '\n' ∉ text) : withReturns text = text := by
  induction text with
  | nil => rfl
  | cons c rest ih =>
      obtain ⟨hc, hrest⟩ := not_or.1 (mt List.mem_cons.2 h)
      simp [Ne.symm hc, ih hrest]

theorem take_withReturns (n : Nat) (text : List Char) :
    (withReturns text).take (withReturns (text.take n)).length = withReturns (text.take n) := by
  have htext : withReturns text = withReturns (text.take n) ++ withReturns (text.drop n) := by
    rw [← withReturns_append, List.take_append_drop]
  rw [htext, List.take_left]

theorem drop_withReturns (n : Nat) (text : List Char) :
    (withReturns text).drop (withReturns (text.take n)).length = withReturns (text.drop n) := by
  have htext : withReturns text = withReturns (text.take n) ++ withReturns (text.drop n) := by
    rw [← withReturns_append, List.take_append_drop]
  rw [htext, List.drop_left]

@[simp] theorem Position.after_withReturns (p : Position) (text : List Char) :
    p.after (withReturns text) = p.after text := by
  induction text generalizing p with
  | nil => rfl
  | cons c rest ih =>
      by_cases hc : c = '\n'
      · subst hc
        exact ih _
      · simp [hc, ih]

theorem head?_withReturns (hd : Lexeme.isLineEnd d = false) :
    (withReturns text).head? = some d ↔ text.head? = some d := by
  cases text with
  | nil => rfl
  | cons c rest =>
      by_cases hc : c = '\n'
      · subst hc
        have hreturn : '\r' ≠ d := by
          rintro rfl
          cases hd
        have hfeed : '\n' ≠ d := by
          rintro rfl
          cases hd
        simp [hreturn, hfeed]
      · simp [hc]

theorem head?_withReturns_of_ne (h : text.head? ≠ some '\n') :
    (withReturns text).head? = text.head? := by
  cases text with
  | nil => rfl
  | cons c rest =>
      have hc : c ≠ '\n' := by simpa using h
      simp [hc]

theorem any_head?_withReturns (hreturn : test '\r' = false) (hfeed : test '\n' = false) :
    (withReturns text).head?.any test = text.head?.any test := by
  cases text with
  | nil => rfl
  | cons c rest =>
      by_cases hc : c = '\n'
      · subst hc
        simp [hreturn, hfeed]
      · simp [hc]

theorem takeWhile_withReturns (hreturn : keep '\r' = false) (hfeed : keep '\n' = false) :
    (withReturns text).takeWhile keep = text.takeWhile keep := by
  induction text with
  | nil => rfl
  | cons c rest ih =>
      by_cases hc : c = '\n'
      · subst hc
        simp [hreturn, hfeed]
      · simp [hc, List.takeWhile_cons, ih]

theorem isPrefixOf_withReturns (hlead : ∀ d ∈ lead, Lexeme.isLineEnd d = false) :
    lead.isPrefixOf (withReturns text) = lead.isPrefixOf text := by
  induction lead generalizing text with
  | nil => simp
  | cons d lead ih =>
      obtain ⟨hd, hlead⟩ := List.forall_mem_cons.1 hlead
      cases text with
      | nil => rfl
      | cons c rest =>
          by_cases hc : c = '\n'
          · subst hc
            have hreturn : (d == '\r') = false := by
              rw [beq_eq_false_iff_ne]
              rintro rfl
              cases hd
            have hfeed : (d == '\n') = false := by
              rw [beq_eq_false_iff_ne]
              rintro rfl
              cases hd
            simp [List.isPrefixOf, hreturn, hfeed]
          · simp [hc, List.isPrefixOf, ih hlead]

end

/-! ### Strings -/

def Field.withReturns (f : Field) : Field :=
  ⟨String.ofList (ScriptSandbox.withReturns f.source.toList), f.position⟩

namespace Lexeme

section Strings

variable {d : Delimiter} {quote : Char}

theorem Delimiter.begins_withReturns (hquote : isQuote d.quote = true) (text : List Char) :
    d.begins (ScriptSandbox.withReturns text) = d.begins text :=
  isPrefixOf_withReturns fun _ hmem => by
    rw [List.eq_of_mem_replicate hmem]
    exact isLineEnd_of_isQuote hquote

theorem Delimiter.begins_lineEnd (hquote : isQuote d.quote = true) {c : Char}
    (hc : isLineEnd c = true) (rest : List Char) : d.begins (c :: rest) = false := by
  have hne : (d.quote == c) = false := by
    rw [beq_eq_false_iff_ne]
    rintro rfl
    rw [isLineEnd_of_isQuote hquote] at hc
    cases hc
  unfold begins length
  cases d.triple <;> simp [List.replicate, List.isPrefixOf, hne]

theorem Delimiter.stops_lineEnd {c : Char} (hc : isLineEnd c = true) : d.stops c = !d.triple := by
  rw [stops, hc, Bool.true_and]

/-! The characters that are read are counted from other numbers in the two texts: `n` characters are
read of the one text and `m` of the other. -/

variable {p : Position} {n m : Nat} {text rest lead : List Char}

/-- A field has the same characters, and carriage returns before its line feeds. -/
theorem fieldExtent_withReturns (hquote : isQuote d.quote = true) (depth n m : Nat)
    (text : List Char) :
    fieldExtent d depth m (ScriptSandbox.withReturns text) =
      (m + (ScriptSandbox.withReturns (text.take ((fieldExtent d depth n text).1 - n))).length,
        (fieldExtent d depth n text).2) := by
  have hbegins {c : Char} (hc : c ≠ '\n') (rest : List Char) :
      d.begins (c :: ScriptSandbox.withReturns rest) = d.begins (c :: rest) := by
    rw [← withReturns_cons hc, d.begins_withReturns hquote]
  have hread {c : Char} {rest : List Char} {n stop : Nat} (hstop : n + 1 ≤ stop) :
      (c :: rest).take (stop - n) = c :: rest.take (stop - (n + 1)) := by
    rw [show stop - n = stop - (n + 1) + 1 by omega, List.take_succ_cons]
  fun_induction fieldExtent d depth n text generalizing m with
  | case1 => simp
  | case2 depth n c rest hend =>
      by_cases hc : c = '\n'
      · subst hc
        rw [d.begins_lineEnd hquote rfl, d.stops_lineEnd rfl] at hend
        have hends : (d.begins ('\r' :: '\n' :: ScriptSandbox.withReturns rest) ||
            d.stops '\r') = true := by
          rwa [d.begins_lineEnd hquote rfl, d.stops_lineEnd rfl]
        simp [hends]
      · simp [hc, hbegins, hend]
  | case3 depth n c rest hend hopening ih =>
      have hc : c ≠ '\n' := by
        rintro rfl
        cases hopening
      simp [hc, hbegins, hend, hopening, ih, hread (le_fieldExtent d _ _ rest), Nat.add_comm 1,
        Nat.add_assoc]
  | case4 depth n c rest hend hopening hclosing hdepth =>
      have hc : c ≠ '\n' := by
        rintro rfl
        cases hclosing
      simp [hc, hbegins, hend, hopening, hclosing, hdepth]
  | case5 depth n c rest hend hopening hclosing hdepth ih =>
      have hc : c ≠ '\n' := by
        rintro rfl
        cases hclosing
      simp [hc, hbegins, hend, hopening, hclosing, hdepth, ih, hread (le_fieldExtent d _ _ rest),
        Nat.add_comm 1, Nat.add_assoc]
  | case6 depth n c rest hend hopening hclosing ih =>
      rw [hread (le_fieldExtent d _ _ rest)]
      by_cases hc : c = '\n'
      -- In a string between three quotes a field goes on over a line end.
      · subst hc
        rw [d.begins_lineEnd hquote rfl, d.stops_lineEnd rfl] at hend
        have hgoes {c : Char} (hc : isLineEnd c = true) (rest : List Char) :
            ¬ (d.begins (c :: rest) || d.stops c) = true := by
          rwa [d.begins_lineEnd hquote hc, d.stops_lineEnd hc]
        rw [withReturns_feed, fieldExtent_plain (hgoes rfl _) (by decide) (by decide),
          fieldExtent_plain (hgoes rfl _) hopening hclosing, ih]
        simp only [withReturns_feed, List.length_cons, Nat.add_comm 1, Nat.add_assoc]
      · simp [hc, hbegins, hend, hopening, hclosing, ih, Nat.add_comm 1, Nat.add_assoc]

section Field

variable {length : Nat} {closed : Bool} (h : fieldExtent d 1 0 text = (length, closed))
include h

theorem take_field : ∃ closing, text.take (if closed then length + 1 else length) =
    text.take length ++ closing ∧ closing.length = (if closed then 1 else 0) ∧
      (∀ c ∈ closing, isClosing c = true) ∧ ∀ c ∈ text.take length ++ closing, d.goesOver c = true := by
  obtain ⟨lead, closing, rest, rfl, hlength, hclosed, hclosing, hover⟩ := fieldExtent_span d 1 0 text
  rw [h, Nat.zero_add] at hlength
  rw [h] at hclosed
  dsimp only at hlength hclosed
  have hlead : (lead ++ closing ++ rest).take length = lead := by
    rw [hlength, List.append_assoc, List.take_left]
  have hread : (if closed then length + 1 else length) = (lead ++ closing).length := by
    rw [List.length_append, hclosed, hlength]
    split <;> rfl
  rw [hlead, hread, List.take_left]
  exact ⟨closing, rfl, hclosed, hclosing, hover⟩

theorem feed_not_mem_field (htriple : d.triple = false) :
    '\n' ∉ text.take (if closed then length + 1 else length) := by
  obtain ⟨closing, htake, -, -, hover⟩ := take_field h
  rw [htake]
  intro hmem
  have hfeed := hover _ hmem
  rw [Delimiter.goesOver, htriple, Bool.false_or, Bool.and_eq_true] at hfeed
  exact absurd hfeed.2 (by decide)

theorem length_withReturns_field :
    (ScriptSandbox.withReturns (text.take (if closed then length + 1 else length))).length =
      if closed then (ScriptSandbox.withReturns (text.take length)).length + 1
      else (ScriptSandbox.withReturns (text.take length)).length := by
  obtain ⟨closing, htake, hclosed, hclosing, -⟩ := take_field h
  have hfeed : '\n' ∉ closing := fun hmem => absurd (hclosing _ hmem) (by decide)
  rw [htake, withReturns_append, withReturns_of_not_mem hfeed, List.length_append, hclosed]
  split <;> rfl

theorem length_take_field : (text.take (if closed then length + 1 else length)).length =
    if closed then length + 1 else length := by
  have hfit := fieldExtent_le d 1 0 text
  rw [h] at hfit
  rw [List.length_take]
  cases closed <;> simp at hfit ⊢ <;> omega

end Field

/-- What is found of a string of which `text` is not read yet, when a carriage return stands before
every line feed. -/
def extentWithReturns (d : Delimiter) (n m : Nat) (text : List Char) (found : Nat × List Field) :
    Option (Nat × List Field) :=
  let read := text.take (found.1 - n)
  if !d.triple && read.contains '\n' then none
  else some (m + (ScriptSandbox.withReturns read).length, found.2.map Field.withReturns)

section Extent

variable {formatted : Bool} {fields found : List Field}

theorem bind_extentWithReturns (lead : List Char) (hlead : d.triple = true ∨ '\n' ∉ lead) :
    (stringExtent d formatted p (n + lead.length) fields rest).bind
        (extentWithReturns d (n + lead.length) (m + (ScriptSandbox.withReturns lead).length) rest) =
      (stringExtent d formatted p (n + lead.length) fields rest).bind
        (extentWithReturns d n m (lead ++ rest)) := by
  refine Option.bind_congr fun found hfound => ?_
  have hread := (stringSpan_of_stringExtent hfound).read_le
  unfold extentWithReturns
  dsimp only
  rw [StringSpan.take_append hread, withReturns_append, List.length_append, List.contains_append,
    Nat.add_assoc]
  rcases hlead with htriple | hfeed
  · simp [htriple]
  · simp [hfeed]

theorem bind_extentWithReturns_of_not_mem (lead : List Char) (hlead : '\n' ∉ lead) :
    (stringExtent d formatted p (n + lead.length) fields rest).bind
        (extentWithReturns d (n + lead.length) (m + lead.length) rest) =
      (stringExtent d formatted p (n + lead.length) fields rest).bind
        (extentWithReturns d n m (lead ++ rest)) := by
  rw [← bind_extentWithReturns lead (.inr hlead), withReturns_of_not_mem hlead]

theorem bind_extentWithReturns_field {c : Char} {length read : Nat} {closed : Bool} (hc : c ≠ '\n')
    (hextent : fieldExtent d 1 0 rest = (length, closed))
    (hread : read = if closed then length + 1 else length) :
    (stringExtent d formatted p (n + 1 + read) fields (rest.drop read)).bind
        (extentWithReturns d (n + 1 + read)
          (m + 1 + (ScriptSandbox.withReturns (rest.take read)).length) (rest.drop read)) =
      (stringExtent d formatted p (n + 1 + read) fields (rest.drop read)).bind
        (extentWithReturns d n m (c :: rest)) := by
  have hlead : d.triple = true ∨ '\n' ∉ c :: rest.take read := by
    cases htriple : d.triple with
    | true => exact .inl rfl
    | false =>
        have hrest := feed_not_mem_field hextent htriple
        rw [← hread] at hrest
        exact .inr (by simp [Ne.symm hc, hrest])
  have hlength := length_take_field hextent
  rw [← hread] at hlength
  have hn : n + 1 + read = n + (c :: rest.take read).length := by
    rw [List.length_cons, hlength, Nat.add_right_comm, Nat.add_assoc]
  have hm : m + 1 + (ScriptSandbox.withReturns (rest.take read)).length =
      m + (ScriptSandbox.withReturns (c :: rest.take read)).length := by
    rw [withReturns_cons hc, List.length_cons, Nat.add_right_comm, Nat.add_assoc]
  rw [hn, hm, bind_extentWithReturns _ hlead, List.cons_append, List.take_append_drop]

theorem bind_extentWithReturns_of_mem (lead : List Char) (htriple : d.triple = false)
    (hlead : '\n' ∈ lead) :
    (stringExtent d formatted p (n + lead.length) fields rest).bind
      (extentWithReturns d n m (lead ++ rest)) = none := by
  refine Option.bind_eq_none_iff.2 fun found hfound => ?_
  have hread := (stringSpan_of_stringExtent hfound).read_le
  unfold extentWithReturns
  dsimp only
  rw [StringSpan.take_append hread]
  simp [htriple, hlead]

theorem extentWithReturns_of_begins (hquote : isQuote d.quote = true) (h : d.begins text = true) :
    extentWithReturns d n m text (n + d.length, found) =
      some (m + d.length, found.map Field.withReturns) := by
  have htake : text.take d.length = List.replicate d.length d.quote := by
    rw [List.prefix_iff_eq_take.1 (List.isPrefixOf_iff_prefix.1 h), List.length_replicate]
  have hfeed : '\n' ∉ List.replicate d.length d.quote :=
    fun hmem => ne_feed_of_isQuote hquote (List.eq_of_mem_replicate hmem).symm
  unfold extentWithReturns
  dsimp only
  rw [Nat.add_sub_cancel_left, htake, withReturns_of_not_mem hfeed, List.length_replicate]
  simp [hfeed]

theorem stringExtent_lineEnd (hquote : isQuote d.quote = true) (htriple : d.triple = true) {c : Char}
    (hc : isLineEnd c = true) (rest : List Char) :
    stringExtent d formatted p n fields (c :: rest) =
      stringExtent d formatted (p.next c) (n + 1) fields rest := by
  have hmark {e : Char} (he : isLineEnd e = false) : c ≠ e := by
    rintro rfl
    rw [hc] at he
    cases he
  have hbegins := ne_true_of_eq_false (d.begins_lineEnd hquote hc rest)
  refine stringExtent_plain (hmark rfl) ?_ hbegins ?_
  · simp [d.stops_lineEnd hc, htriple]
  · simp [hmark (e := '\x7b') rfl]

@[simp] theorem stringExtent_break (hquote : isQuote d.quote = true) (htriple : d.triple = true)
    (rest : List Char) : stringExtent d formatted p n fields ('\r' :: '\n' :: rest) =
      stringExtent d formatted (p.next '\n') (n + 2) fields rest := by
  rw [stringExtent_lineEnd hquote htriple rfl, stringExtent_lineEnd hquote htriple rfl]
  rfl

theorem stringExtent_field_withReturns (hquote : isQuote d.quote = true) {c : Char} {length read : Nat}
    {closed : Bool} (hslash : c ≠ '\\') (hstops : ¬ d.stops c = true)
    (hbegins : ¬ d.begins (c :: rest) = true) (hopens : (formatted && c == '\x7b') = true)
    (hhead : ¬ rest.head? = some '\x7b') (hextent : fieldExtent d 1 0 rest = (length, closed))
    (hread : read = if closed then length + 1 else length) :
    stringExtent d formatted p m fields (ScriptSandbox.withReturns (c :: rest)) =
      stringExtent d formatted ((p.next c).after (rest.take read))
        (m + 1 + (ScriptSandbox.withReturns (rest.take read)).length)
        (Field.withReturns ⟨String.ofList (rest.take length), p.next c⟩ :: fields)
        (ScriptSandbox.withReturns (rest.drop read)) := by
  have hc : c ≠ '\n' := by
    rintro rfl
    simp at hopens
  have hbegins' : ¬ d.begins (c :: ScriptSandbox.withReturns rest) = true := by
    rwa [← withReturns_cons hc, d.begins_withReturns hquote]
  have hhead' : ¬ (ScriptSandbox.withReturns rest).head? = some '\x7b' := by
    rwa [head?_withReturns rfl]
  have hextent' := fieldExtent_withReturns hquote 1 0 0 rest
  rw [hextent, Nat.sub_zero, Nat.zero_add] at hextent'
  rw [withReturns_cons hc, stringExtent_field hslash hstops hbegins' hopens hhead' hextent',
    ← length_withReturns_field hextent, take_withReturns, take_withReturns, drop_withReturns,
    Position.after_withReturns, ← hread, Field.withReturns, String.toList_ofList]

end Extent

/-- A string ends where it ended before, unless it goes on in another line between single quotes. It
is not closed then. -/
theorem stringExtent_withReturns (hquote : isQuote d.quote = true) (formatted : Bool) (p : Position)
    (n m : Nat) (fields : List Field) (text : List Char) :
    stringExtent d formatted p m (fields.map Field.withReturns) (ScriptSandbox.withReturns text) =
      (stringExtent d formatted p n fields text).bind (extentWithReturns d n m text) := by
  have hbegins {c : Char} (hc : c ≠ '\n') (rest : List Char) :
      d.begins (c :: ScriptSandbox.withReturns rest) = d.begins (c :: rest) := by
    rw [← withReturns_cons hc, d.begins_withReturns hquote]
  fun_induction stringExtent d formatted p n fields text generalizing m with
  | case1 => simp
  | case2 p n fields => simp
  | case3 p n fields e rest ih =>
      rw [withReturns_cons (by decide)]
      by_cases he : e = '\n'
      · subst he
        -- The carriage return is hidden, and the line feed is not.
        rw [withReturns_feed, stringExtent_hidden]
        cases htriple : d.triple with
        | true =>
            rw [stringExtent_lineEnd hquote htriple rfl]
            exact (ih (m + 3)).trans (bind_extentWithReturns ['\\', '\n'] (.inl htriple))
        | false =>
            rw [stringExtent_stops (by decide) (by rw [d.stops_lineEnd rfl, htriple]; rfl)]
            exact (bind_extentWithReturns_of_mem ['\\', '\n'] htriple (by simp)).symm
      · have hlead : '\n' ∉ ['\\', e] := by simp [Ne.symm he]
        rw [withReturns_cons he, stringExtent_hidden]
        exact (ih (m + 2)).trans (bind_extentWithReturns_of_not_mem ['\\', e] hlead)
  | case4 p n fields c rest hslash hstops =>
      by_cases hc : c = '\n'
      · subst hc
        have hstops' : d.stops '\r' = true := by
          rwa [d.stops_lineEnd rfl, ← d.stops_lineEnd (c := '\n') rfl]
        rw [withReturns_feed, stringExtent_stops (by decide) hstops']
        rfl
      · simp [hc, hslash, hstops]
  | case5 p n fields c rest hslash hstops hbegin =>
      have hc : c ≠ '\n' := by
        rintro rfl
        rw [d.begins_lineEnd hquote rfl] at hbegin
        cases hbegin
      simp [hc, hslash, hstops, hbegins, hbegin, extentWithReturns_of_begins hquote hbegin]
  | case6 p n fields c rest hslash hstops hbegin hopens hbrace ih =>
      obtain ⟨rest, rfl⟩ := List.head?_eq_some_iff.1 hbrace
      have hc : c = '\x7b' := by
        simpa using (Bool.and_eq_true_iff.1 hopens).2
      subst hc
      have hbegin' := hbegins (c := '\x7b') (by decide) ('\x7b' :: rest)
      rw [withReturns_cons (by decide)] at hbegin'
      rw [withReturns_cons (by decide), withReturns_cons (by decide),
        stringExtent_doubled hslash hstops (by rwa [hbegin']) hopens List.head?_cons]
      exact (ih (m + 2)).trans
        (bind_extentWithReturns_of_not_mem ['\x7b', '\x7b'] (by decide))
  | case7 p n fields c rest hslash hstops hbegin hopens hbrace fieldLength closed hextent read =>
      rename_i field ih
      have hc : c ≠ '\n' := by
        rintro rfl
        simp at hopens
      have hread : read = if closed then fieldLength + 1 else fieldLength := rfl
      rw [stringExtent_field_withReturns hquote hslash hstops hbegin hopens hbrace hextent hread]
      exact (ih _).trans (bind_extentWithReturns_field hc hextent hread)
  | case8 p n fields c rest hslash hstops hbegin hopens ih =>
      by_cases hc : c = '\n'
      · subst hc
        have htriple : d.triple = true := by
          rw [d.stops_lineEnd rfl] at hstops
          simpa using hstops
        rw [withReturns_feed, stringExtent_break hquote htriple]
        exact (ih (m + 2)).trans (bind_extentWithReturns ['\n'] (.inl htriple))
      · rw [withReturns_cons hc, stringExtent_plain hslash hstops (by rwa [hbegins hc]) hopens]
        exact (ih (m + 1)).trans
          (bind_extentWithReturns_of_not_mem [c] (by simp [Ne.symm hc]))

end Strings

end Lexeme

end ScriptSandbox
