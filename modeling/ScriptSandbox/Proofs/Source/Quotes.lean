import Mathlib.Algebra.Group.Nat.Even
import ScriptSandbox.Proofs.Source.Words

/-!
Quotes in the text of a replacement field. In a text without double quotes, backslashes and line ends
a string between single quotes holds just these two, unless it is one between triple quotes. So an
even number of quotes stands before what is in no string.
-/

namespace ScriptSandbox

open Lexeme

/-- A text that can have strings between single quotes only. -/
structure IsSingleQuoted (text : List Char) : Prop where
  no_quote : '"' ∉ text
  no_backslash : '\\' ∉ text
  no_triple : ¬ ['\'', '\'', '\''] <:+: text

/-- A string between single quotes, with the prefix `word`. -/
inductive IsQuoted : List Char → Prop
  | quoted {word body} : (∀ c ∈ word, Text.isWordPart c = true) →
      (word = [] ∨ word.map Char.toLower ∈ stringPrefixes) → '\'' ∉ body →
      IsQuoted (word ++ '\'' :: (body ++ ['\'']))

namespace IsSingleQuoted

variable {quote : Char} {text rest : List Char}

theorem of_suffix (h : IsSingleQuoted text) (hrest : rest <:+ text) : IsSingleQuoted rest where
  no_quote hmem := h.no_quote (hrest.mem hmem)
  no_backslash hmem := h.no_backslash (hrest.mem hmem)
  no_triple hpart := h.no_triple (hpart.trans hrest.isInfix)

theorem quote_eq (h : IsSingleQuoted (quote :: text)) (hquote : isQuote quote = true) :
    quote = '\'' := by
  have hne : quote ≠ '"' := by
    rintro rfl
    exact h.no_quote List.mem_cons_self
  simpa [isQuote, hne] using hquote

end IsSingleQuoted

/-! ### Strings between single quotes -/

/-- A string between single quotes goes up to the next quote. -/
theorem stringExtent_body {quote : Char} {formatted : Bool} {p : Position} {n length : Nat}
    {fields found : List Field} {text : List Char} (hbackslash : '\\' ∉ text)
    (h : stringExtent ⟨quote, false⟩ formatted p n fields text = some (length, found)) :
    ∃ body, text.take (length - n) = body ++ [quote] ∧ quote ∉ body := by
  have hskip {p : Position} {n : Nat} {fields : List Field} {lead rest : List Char}
      (hlead : quote ∉ lead)
      (h : stringExtent ⟨quote, false⟩ formatted p (n + lead.length) fields rest =
        some (length, found))
      (hrest : ∃ body, rest.take (length - (n + lead.length)) = body ++ [quote] ∧ quote ∉ body) :
      ∃ body, (lead ++ rest).take (length - n) = body ++ [quote] ∧ quote ∉ body := by
    obtain ⟨body, hbody, hquote⟩ := hrest
    rw [StringSpan.take_append (stringSpan_of_stringExtent h).read_le, hbody]
    exact ⟨lead ++ body, by simp, by simp [hlead, hquote]⟩
  fun_induction stringExtent ⟨quote, false⟩ formatted p n fields text with
  | case1 => cases h
  | case2 => cases h
  | case3 => simp at hbackslash
  | case4 => cases h
  | case5 p n fields c rest _ _ hbegins =>
      cases h
      rw [Delimiter.begins_single, beq_iff_eq] at hbegins
      exact ⟨[], by simp [Delimiter.length, hbegins], by simp⟩
  | case6 p n fields c rest _ _ hgoes hopens hbrace ih =>
      rw [Delimiter.begins_single, beq_iff_eq] at hgoes
      simp only [Bool.and_eq_true, beq_iff_eq] at hopens
      obtain ⟨rest, rfl⟩ := List.head?_eq_some_iff.1 hbrace
      simp only [List.mem_cons, not_or] at hbackslash
      have hne : quote ≠ '\x7b' := hopens.2 ▸ hgoes
      have hbraces : quote ∉ [c, '\x7b'] := by simp [hgoes, hne]
      exact hskip hbraces h (ih hbackslash.2.2 h)
  | case7 p n fields c rest _ _ hgoes _ _ fieldLength closed hextent read =>
      rename_i field ih
      rw [Delimiter.begins_single, beq_iff_eq] at hgoes
      obtain ⟨lead, closing, more, rfl, hlength, hclosed, -, hover⟩ :=
        fieldExtent_span ⟨quote, false⟩ 1 0 rest
      rw [hextent, Nat.zero_add] at hlength
      rw [hextent] at hclosed
      have hread : read = (lead ++ closing).length := by
        dsimp only [read] at hlength hclosed ⊢
        rw [List.length_append, hclosed, hlength]
        cases closed with
        | true => rfl
        | false => rfl
      rw [hread, List.drop_left] at h ih
      rw [List.mem_cons, List.mem_append, not_or, not_or] at hbackslash
      have hnone : quote ∉ lead ++ closing := fun hmem => by
        simpa [Delimiter.goesOver] using hover quote hmem
      have hfield : quote ∉ c :: (lead ++ closing) := mt List.mem_cons.1 (not_or.2 ⟨hgoes, hnone⟩)
      have hlonger : n + 1 + (lead ++ closing).length = n + (c :: (lead ++ closing)).length := by
        rw [List.length_cons]
        omega
      have hrest := ih hbackslash.2.2 h
      rw [hlonger] at h hrest
      exact hskip hfield h hrest
  | case8 p n fields c rest _ _ hgoes _ ih =>
      rw [Delimiter.begins_single, beq_iff_eq] at hgoes
      simp only [List.mem_cons, not_or] at hbackslash
      have hc : quote ∉ [c] := by simpa using hgoes
      exact hskip hc h (ih hbackslash.2 h)

theorem stringKind_body {formatted : Bool} {p : Position} {text : List Char} {fields : List Field}
    (htext : IsSingleQuoted ('\'' :: text))
    (h : (stringKind '\'' formatted p text).1 = .string fields) :
    ∃ body, text.take (stringKind '\'' formatted p text).2 = body ++ ['\''] ∧ '\'' ∉ body := by
  have hsingle : ['\'', '\''].isPrefixOf text = false := by
    rw [Bool.eq_false_iff, ne_eq, List.isPrefixOf_iff_prefix]
    rintro ⟨more, rfl⟩
    exact htext.no_triple ⟨[], more, rfl⟩
  have hbackslash : '\\' ∉ text := List.not_mem_of_not_mem_cons htext.no_backslash
  unfold stringKind at h ⊢
  simp only [hsingle, Delimiter.length, Bool.false_eq_true, if_false, Nat.sub_self, List.take_zero,
    List.drop_zero] at h ⊢
  split at h
  · rename_i length found hextent
    simpa using stringExtent_body hbackslash hextent
  · cases h

/-! ### Lexemes with quotes -/

/-- The single quotes in lexemes: a string stands between two of them, and comments may hold any. -/
inductive QuotesOf : LexemeKind → List Char → Prop
  | string {fields text} : IsQuoted text → QuotesOf (.string fields) text
  | comment {text} : QuotesOf .comment text
  | broken {problem text} : QuotesOf (.broken problem) text
  | none {kind text} : (∀ fields, kind ≠ .string fields) → '\'' ∉ text → QuotesOf kind text

theorem quote_not_mem_operators : ∀ text ∈ operators, '\'' ∉ text := by decide

/-- What is found at the beginning of a text has such quotes. -/
def FindsQuotes (c : Char) (rest : List Char) (found : LexemeKind × Nat) : Prop :=
  QuotesOf found.1 (c :: rest.take found.2)

theorem findsQuotes_of_none {c : Char} {rest : List Char} {kind : LexemeKind} {length : Nat}
    (hkind : ∀ fields, kind ≠ .string fields) (hc : c ≠ '\'') (hrest : '\'' ∉ rest.take length) :
    FindsQuotes c rest (kind, length) := by
  refine .none hkind ?_
  simp [hc.symm, hrest]

theorem quotesOf_stringKind {formatted : Bool} {p : Position} {word text : List Char}
    (hword : ∀ c ∈ word, Text.isWordPart c = true)
    (hprefixes : word = [] ∨ word.map Char.toLower ∈ stringPrefixes)
    (htext : IsSingleQuoted ('\'' :: text)) :
    QuotesOf (stringKind '\'' formatted p text).1
      (word ++ '\'' :: text.take (stringKind '\'' formatted p text).2) := by
  rcases stringKind_cases '\'' formatted p text with ⟨fields, hkind, -⟩ | ⟨problem, hkind, -⟩
  · obtain ⟨body, hbody, hquote⟩ := stringKind_body htext hkind
    rw [hkind, hbody]
    exact .string (.quoted hword hprefixes hquote)
  · rw [hkind]
    exact .broken

theorem findsQuotes_prefixed {c quote : Char} {rest text : List Char} {length : Nat}
    {formatted : Bool} {p : Position} (h : IsSingleQuoted (c :: rest)) (hquote : isQuote quote = true)
    (hword : ∀ d ∈ c :: rest.take length, Text.isWordPart d = true)
    (hprefixes : (c :: rest.take length).map Char.toLower ∈ stringPrefixes)
    (hafter : rest.drop length = quote :: text) :
    FindsQuotes c rest ((stringKind quote formatted p text).1,
      length + 1 + (stringKind quote formatted p text).2) := by
  have hsuffix : quote :: text <:+ c :: rest := by
    rw [← hafter]
    exact (List.drop_suffix length rest).trans (List.suffix_cons c rest)
  have htext := h.of_suffix hsuffix
  obtain rfl := htext.quote_eq hquote
  have hquotes : QuotesOf (stringKind '\'' formatted p text).1
      (c :: rest.take length ++ '\'' :: text.take (stringKind '\'' formatted p text).2) :=
    quotesOf_stringKind hword (.inr hprefixes) htext
  generalize stringKind '\'' formatted p text = found at hquotes ⊢
  unfold FindsQuotes
  rwa [take_prefixed hafter]

/-- The single quotes in a lexeme are those of a string, or they stand in a comment. -/
theorem classify_findsQuotes {lenient : Bool} {p : Position} {c : Char} {rest : List Char}
    (h : IsSingleQuoted (c :: rest)) : FindsQuotes c rest (classify lenient p c rest) := by
  unfold classify
  refine iteInduction (motive := FindsQuotes c rest) (fun hgap => ?_) fun _ => ?_
  · refine findsQuotes_of_none (by simp) ?_ ?_
    · rintro rfl
      exact absurd hgap (by decide)
    · rw [take_length_takeWhile]
      exact not_mem_takeWhile rest (by decide)
  refine iteInduction (motive := FindsQuotes c rest) (fun _ => .comment) fun _ => ?_
  refine iteInduction (motive := FindsQuotes c rest) (fun hfeed => ?_) fun _ => ?_
  · exact findsQuotes_of_none (by simp) (by simp [hfeed]) (by simp)
  refine iteInduction (motive := FindsQuotes c rest) (fun hreturn => ?_) fun _ => ?_
  · refine findsQuotes_of_none (by simp) (by simp [hreturn]) ?_
    split
    · rename_i hnext
      obtain ⟨more, rfl⟩ := List.head?_eq_some_iff.1 hnext
      simp
    · simp
  refine iteInduction (motive := FindsQuotes c rest) (fun hslash => ?_) fun _ => ?_
  · exact absurd (List.mem_cons.2 (.inl hslash.symm)) h.no_backslash
  refine iteInduction (motive := FindsQuotes c rest) (fun hquote => ?_) fun hquote => ?_
  · obtain rfl := h.quote_eq hquote
    have hnone : ∀ d ∈ ([] : List Char), Text.isWordPart d = true := by simp
    exact quotesOf_stringKind hnone (.inl rfl) h
  have hc : c ≠ '\'' := by
    rintro rfl
    exact hquote rfl
  refine iteInduction (motive := FindsQuotes c rest) (fun _ => ?_) fun _ => ?_
  · exact findsQuotes_of_none (by simp) hc fun hmem => absurd (goesOnNumber_of_mem hmem) (by decide)
  refine iteInduction (motive := FindsQuotes c rest) (fun hstart => ?_) fun _ => ?_
  · have hname : FindsQuotes c rest (.name, (rest.takeWhile Text.isWordPart).length) := by
      refine findsQuotes_of_none (by simp) hc ?_
      rw [take_length_takeWhile]
      exact not_mem_takeWhile rest (by decide)
    extract_lets length word
    split
    · rename_i quote text hafter
      split
      · rename_i hprefixed
        simp only [Bool.and_eq_true] at hprefixed
        exact findsQuotes_prefixed h hprefixed.1 (isWordPart_of_mem_word hstart)
          (List.contains_iff_mem.1 hprefixed.2) hafter
      · exact hname
    · exact hname
  · split
    · rename_i operator hfind
      have hmem := List.mem_of_find?_eq_some hfind
      have hbegins := List.find?_some hfind
      obtain ⟨more, htext⟩ := List.isPrefixOf_iff_prefix.1 hbegins
      obtain ⟨d, tail, rfl⟩ := List.exists_cons_of_ne_nil (ne_nil_of_mem_operators hmem)
      cases htext
      refine findsQuotes_of_none (by simp) hc ?_
      simpa using (List.not_mem_of_not_mem_cons (quote_not_mem_operators _ hmem))
    · split
      · exact findsQuotes_of_none (by simp) hc (by simp)
      · exact .broken

theorem quotesOf_split {lenient : Bool} {p : Position} {text : List Char} (h : IsSingleQuoted text) :
    ∀ l ∈ split lenient p [] text, QuotesOf l.kind l.text :=
  forall_mem_split fun _ _ _ hsuffix => classify_findsQuotes (h.of_suffix hsuffix)

/-! ### Counting quotes -/

theorem count_quote_word {word : List Char} (h : ∀ c ∈ word, Text.isWordPart c = true) :
    word.count '\'' = 0 :=
  List.count_eq_zero.2 fun hmem => absurd (h _ hmem) (by decide)

theorem IsQuoted.even_count {text : List Char} (h : IsQuoted text) : Even (text.count '\'') := by
  obtain ⟨hword, -, hbody⟩ := h
  rw [Nat.even_iff]
  simp [count_quote_word hword, List.count_eq_zero.2 hbody]

/-- On a line, an even number of quotes stands before every lexeme. -/
theorem even_count_earlier {lenient : Bool} {p : Position} {text : List Char}
    {earlier later : List Lexeme} {l : Lexeme} (h : Lexed lenient p text (earlier ++ l :: later))
    (hline : ∀ c ∈ text, isLineEnd c = false)
    (hquotes : ∀ m ∈ earlier, QuotesOf m.kind m.text) :
    Even ((earlier.flatMap Lexeme.text).count '\'') := by
  induction earlier generalizing p text with
  | nil => simp
  | cons m earlier ih =>
      cases h with
      | @cons _ kind first after _ hshape hlexed =>
          have hnext : after ≠ [] := by
            obtain ⟨rfl, -, hown⟩ := hlexed.shape_at
            simp [hown.ne_nil]
          have hrest := ih hlexed (fun c hc => hline c (List.mem_append_right _ hc))
            fun m hm => hquotes m (List.mem_cons_of_mem _ hm)
          have hfirst : Even (first.count '\'') := by
            have hown := hquotes _ List.mem_cons_self
            dsimp only at hown
            cases hown with
            | string hquoted => exact hquoted.even_count
            | comment =>
                -- A comment goes on up to the end of its line.
                cases hshape with
                | comment _ hend =>
                    obtain ⟨c, after, rfl⟩ := List.exists_cons_of_ne_nil hnext
                    have hc := hline c (by simp)
                    rw [hend c rfl] at hc
                    cases hc
            | broken =>
                cases hshape
                exact absurd rfl hnext
            | none _ hmem => simp [List.count_eq_zero.2 hmem]
          rw [List.flatMap_cons, List.count_append]
          exact hfirst.add hrest

/-- A word in a string between single quotes, before which an even number of quotes stands, is the
prefix of the string. -/
theorem IsQuoted.prefix_of_even {text more lead word after : List Char} (h : IsQuoted text)
    (hstands : StandsWhole word lead after (text ++ more)) (hlead : lead.length < text.length)
    (heven : Even (lead.count '\'')) (hne : word ≠ [])
    (hword : ∀ c ∈ word, Text.isWordPart c = true) :
    word.map Char.toLower ∈ stringPrefixes ∧ after.head? = some '\'' := by
  obtain ⟨htext, hstarts, hends⟩ := hstands
  have hquote : Text.isWordPart '\'' = false := by decide
  cases h with
  | @quoted own body hown hprefixes hbody =>
      have hcut : own ++ '\'' :: (body ++ '\'' :: more) = lead ++ (word ++ after) := by
        simpa using htext
      rcases List.append_eq_append_iff.1 hcut with ⟨inner, rfl, hrest⟩ | ⟨rest, rfl, hrest⟩
      · exfalso
        cases inner with
        | nil =>
            -- The word would begin with the quote.
            obtain ⟨c, tail, rfl⟩ := List.exists_cons_of_ne_nil hne
            obtain ⟨rfl, -⟩ := List.cons.inj hrest
            rw [hword _ List.mem_cons_self] at hquote
            cases hquote
        | cons d inner =>
            -- The word stands behind one quote, which is an odd number of them.
            obtain ⟨rfl, htail⟩ := List.cons.inj hrest
            have hshort : inner.length ≤ body.length := by
              simp only [List.length_append, List.length_cons, List.length_nil] at hlead
              omega
            have hinner : inner <+: body :=
              List.prefix_of_prefix_length_le ⟨_, rfl⟩ ⟨_, htail⟩ hshort
            have hinnerCount : inner.count '\'' = 0 :=
              List.count_eq_zero.2 fun hmem => hbody (hinner.mem hmem)
            simp [count_quote_word hown, hinnerCount, Nat.even_iff] at heven
      · obtain rfl : lead = [] := by
          by_contra hlead
          have hlast := hstarts _ (List.getLast?_eq_some_getLast hlead)
          rw [hown _ (List.mem_append_left _ (List.getLast_mem hlead))] at hlast
          cases hlast
        rw [List.nil_append] at hown hprefixes
        have hstop : ∀ c ∈ ('\'' :: (body ++ '\'' :: more)).head?, Text.isWordPart c = false := by
          simpa using hquote
        obtain rfl : word = rest := eq_of_append_eq_append hword hown hends hstop hrest
        obtain rfl := List.append_cancel_left hrest
        exact ⟨hprefixes.resolve_left hne, rfl⟩

end ScriptSandbox
