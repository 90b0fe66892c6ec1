import ScriptSandbox.Proofs.Source.Lines
import ScriptSandbox.Proofs.Source.TokenPlaces

/-!
Where syntax errors are reported. A token that cannot stand where it does is reported at its place, and
a block that is missing at the token found instead, so these lie in the script. Only a missing colon is
reported behind a token, at a column that is reckoned from the length of the token: it lies in the
script unless that token goes on over a line feed.
-/

namespace ScriptSandbox

/-! ### Lines -/

theorem exists_of_skipAlias {tokens : List Token} {e : SyntaxError}
    (h : skipAlias tokens = .error e) : ∃ t ∈ tokens, e = refuse t := by
  unfold skipAlias at h
  split at h
  · cases h
  · rename_i t rest
    split at h
    · split at h
      · split at h
        · cases h
        · cases h
          exact ⟨t, by simp, rfl⟩
      · cases h
        exact ⟨t, by simp, rfl⟩
    · cases h

theorem headD_mem_cons {α : Type} (a : α) (items : List α) : items.headD a ∈ a :: items := by
  cases items with
  | nil => simp
  | cons b rest => simp

theorem exists_of_importItems {first : Token} {tokens : List Token} {e : SyntaxError}
    (h : importItems first tokens = .error e) : ∃ t ∈ first :: tokens, e = refuse t := by
  fun_induction importItems first tokens with
  | case1 tokens =>
      cases h
      exact ⟨_, headD_mem_cons first tokens, rfl⟩
  | case2 tokens name rest hname other halias =>
      cases h
      obtain ⟨read, rfl, -⟩ := dottedName_eq_some hname
      obtain ⟨t, ht, rfl⟩ := exists_of_skipAlias halias
      exact ⟨t, by simp [ht], rfl⟩
  | case3 => cases h
  | case4 tokens name rest hname comma more halias _ ih =>
      obtain ⟨read, rfl, -⟩ := dottedName_eq_some hname
      obtain ⟨bound, rfl, -⟩ := skipAlias_eq_ok halias
      obtain ⟨t, ht, rfl⟩ := ih (map_eq_error.1 h)
      refine ⟨t, ?_, rfl⟩
      rcases List.mem_cons.1 ht with rfl | ht
      · simp
      · simp [ht]
  | case5 tokens name rest hname t more halias =>
      cases h
      obtain ⟨read, rfl, -⟩ := dottedName_eq_some hname
      obtain ⟨bound, rfl, -⟩ := skipAlias_eq_ok halias
      exact ⟨t, by simp, rfl⟩

theorem leadingDots_suffix (tokens : List Token) : (leadingDots tokens).2 <:+ tokens := by
  induction tokens with
  | nil => exact List.suffix_rfl
  | cons t rest ih =>
      rw [leadingDots]
      split
      · exact ih.trans (List.suffix_cons t rest)
      · split
        · exact ih.trans (List.suffix_cons t rest)
        · exact List.suffix_rfl

theorem exists_of_parseImportFrom {first : Token} {rest : List Token} {e : SyntaxError}
    (h : parseImportFrom first rest = .error e) : ∃ t ∈ first :: rest, e = refuse t := by
  have hdots := leadingDots_suffix rest
  have found {more : List Token} (hmore : more <:+ (leadingDots rest).2) :
      more.headD first ∈ first :: rest := by
    rcases List.mem_cons.1 (headD_mem_cons first more) with heq | hmem
    · rw [heq]
      exact List.mem_cons_self
    · exact List.mem_cons_of_mem _ ((hmore.trans hdots).mem hmem)
  unfold parseImportFrom at h
  dsimp only at h
  split at h
  · rename_i name more hname
    obtain ⟨read, hread, -⟩ := dottedName_eq_some hname
    dsimp only at h
    split at h
    · cases h
      exact ⟨_, found ⟨read, hread.symm⟩, rfl⟩
    · cases h
  · dsimp only at h
    split at h
    · cases h
      exact ⟨_, found List.suffix_rfl, rfl⟩
    · cases h

theorem exists_of_lineStatement {first : Token} {rest : List Token} {e : SyntaxError}
    (h : lineStatement first rest = .error e) : ∃ t ∈ first :: rest, e = refuse t := by
  rw [lineStatement_eq_map] at h
  split at h
  · cases h
    exact ⟨first, List.mem_cons_self, rfl⟩
  · replace h := map_eq_error.1 h
    unfold lineForm at h
    split at h
    · exact exists_of_importItems (map_eq_error.1 h)
    · split at h
      · exact exists_of_parseImportFrom h
      · cases h

theorem Joined.subset {segments : List (List Token)} {tokens : List Token}
    (h : Joined segments tokens) : ∀ segment ∈ segments, segment ⊆ tokens := by
  induction h with
  | last => simp
  | cons _ _ ih =>
      refine List.forall_mem_cons.2 ⟨List.subset_append_left _ _, fun segment hsegment => ?_⟩
      exact fun t ht => List.mem_append_right _ (List.mem_cons_of_mem _ (ih segment hsegment ht))

theorem exists_of_lineStatements {tokens : List Token} {e : SyntaxError}
    (h : lineStatements tokens = .error e) : ∃ t ∈ tokens, e = refuse t := by
  change (semicolonSegments tokens).filterMapM segmentStatement = .error e at h
  obtain ⟨segment, hsegment, herror⟩ := exists_error_of_filterMapM h
  have hsubset := (joined_semicolonSegments tokens).subset segment hsegment
  cases segment with
  | nil => cases herror
  | cons first rest =>
      obtain ⟨t, ht, rfl⟩ := exists_of_lineStatement (map_eq_error.1 herror)
      exact ⟨t, hsubset ht, rfl⟩

/-- What is wrong with some tokens: one of them cannot stand where it does, or a colon is missing
behind one of them. -/
inductive Faulty (tokens : List Token) (e : SyntaxError) : Prop
  | refused {t} : t ∈ tokens → e = refuse t → Faulty tokens e
  | missingColon {t} : t ∈ tokens → e = ⟨t.behind, .missingColon⟩ → Faulty tokens e

theorem faulty_of_logicalLine {first : Token} {rest : List Token} {e : SyntaxError}
    (h : logicalLine first rest = .error e) : Faulty (first :: rest) e := by
  unfold logicalLine at h
  dsimp only at h
  split at h
  · rcases bind_eq_error.1 h with hline | ⟨_, -, hpure⟩
    · obtain ⟨t, ht, he⟩ := exists_of_lineStatements hline
      exact .refused ht he
    · cases hpure
  · split at h
    · cases h
      refine .missingColon (t := rest.getLast?.getD first) ?_ rfl
      cases hlast : rest.getLast? with
      | none => simp
      | some last => simp [List.mem_of_getLast? hlast]
    · rename_i i _
      split at h
      · cases h
      · rcases bind_eq_error.1 h with hbody | ⟨_, -, hpure⟩
        · obtain ⟨t, ht, he⟩ := exists_of_lineStatements hbody
          exact .refused (List.mem_of_mem_drop ht) he
        · cases hpure

/-! ### Nested blocks -/

theorem endMarker_mem_afterLine {tokens : List Token} {t : Token} (ht : t ∈ tokens)
    (hkind : t.kind = .endMarker) : t ∈ afterLine tokens := by
  have hline : t ∉ tokens.takeWhile Token.isInLine :=
    fun hmem => kind_of_mem_takeWhile_isInLine hmem hkind
  rcases afterLine_cases tokens with ⟨newline, hnewline, htokens⟩ | ⟨htokens, -⟩
  · rw [htokens] at ht
    rcases List.mem_append.1 ht with hmem | hmem
    · exact absurd hmem hline
    · rcases List.mem_cons.1 hmem with rfl | hmem
      · rw [hnewline] at hkind
        cases hkind
      · exact hmem
  · rw [htokens] at ht
    exact (List.mem_append.1 ht).resolve_left hline

/-- A line that is wrong among some tokens. -/
inductive FaultyLine (tokens : List Token) (e : SyntaxError) : Prop
  | intro (before : List Token) (first : Token) (line after : List Token) :
      tokens = before ++ first :: line ++ after → first.isLayout = false →
      first.kind ≠ .endMarker → (∀ t ∈ line, t.isInLine = true) → Faulty (first :: line) e →
      FaultyLine tokens e

theorem FaultyLine.of_suffix {tokens more : List Token} {e : SyntaxError}
    (hsuffix : more <:+ tokens) (h : FaultyLine more e) : FaultyLine tokens e := by
  obtain ⟨lead, rfl⟩ := hsuffix
  cases h with
  | intro before first line after hcut hfirst hkind hline hfaulty =>
      exact .intro (lead ++ before) first line after (by simp [hcut]) hfirst hkind hline hfaulty

/-- With an end marker behind them, tokens have no statements because of a line that is wrong, or
because a block stands or is missing at one of them. -/
theorem faultyLine_of_nest {s : Nesting} {tokens : List Token} {e : SyntaxError}
    (h : nest s tokens = .error e) (hend : ∃ t ∈ tokens, t.kind = .endMarker) :
    FaultyLine tokens e ∨ ∃ t ∈ tokens, e.position = t.position ∧ e.problem ≠ .missingColon := by
  have later {tokens more : List Token} (hsuffix : more <:+ tokens)
      (h : FaultyLine more e ∨
        ∃ t ∈ more, e.position = t.position ∧ e.problem ≠ .missingColon) :
      FaultyLine tokens e ∨
        ∃ t ∈ tokens, e.position = t.position ∧ e.problem ≠ .missingColon :=
    h.imp (.of_suffix hsuffix) fun ⟨t, ht, hplace⟩ => ⟨t, hsuffix.mem ht, hplace⟩
  -- Behind a token that is no end marker there still is one.
  have marked {t : Token} {rest : List Token} (ht : t.kind ≠ .endMarker)
      (hend : ∃ u ∈ t :: rest, u.kind = .endMarker) : ∃ u ∈ rest, u.kind = .endMarker := by
    obtain ⟨u, hu, hkind⟩ := hend
    rcases List.mem_cons.1 hu with rfl | hu
    · exact absurd hkind ht
    · exact ⟨u, hu, hkind⟩
  have markedAfter {rest : List Token} (hend : ∃ u ∈ rest, u.kind = .endMarker) :
      ∃ u ∈ afterLine rest, u.kind = .endMarker := by
    obtain ⟨u, hu, hkind⟩ := hend
    exact ⟨u, endMarker_mem_afterLine hu hkind, hkind⟩
  fun_induction nest s tokens with
  | case1 => cases h
  | case2 => cases h
  | case3 s t rest hkind ih =>
      exact later (List.suffix_cons t rest) (ih h (marked (by simp [hkind]) hend))
  | case4 s t rest hkind ih =>
      exact later (List.suffix_cons t rest) (ih h (marked (by simp [hkind]) hend))
  | case5 s t rest hkind =>
      cases h
      exact .inr ⟨t, List.mem_cons_self, rfl, by simp⟩
  | case6 s t rest _ other hline hmarker hdedent hnewline hindent =>
      cases h
      exact .inl (.intro [] t (rest.takeWhile Token.isInLine) (rest.dropWhile Token.isInLine) (by simp)
        (isLayout_of_kinds hnewline hindent hdedent) hmarker
        (List.all_eq_true.1 List.all_takeWhile) (faulty_of_logicalLine hline))
  | case7 s t rest _ line hline hmarker _ _ _ ih =>
      exact later ((afterLine_suffix rest).trans (List.suffix_cons t rest))
        (ih h (markedAfter (marked hmarker hend)))
  | case8 s t rest _ keyword p header hline hbelow hmarker =>
      obtain ⟨u, hu, -⟩ := markedAfter (marked hmarker hend)
      rw [hbelow] at hu
      cases hu
  | case9 s t rest _ keyword p header hline next below hbelow hindent hmarker _ _ _ ih =>
      have hsuffix := (suffix_of_afterLine hbelow).trans (List.suffix_cons t rest)
      have hafter := markedAfter (marked hmarker hend)
      rw [hbelow] at hafter
      exact later hsuffix (ih h (marked (by simp [hindent]) hafter))
  | case10 s t rest _ keyword p header hline next below hbelow =>
      cases h
      have hnext : next ∈ rest := (afterLine_suffix rest).mem (by simp [hbelow])
      exact .inr ⟨next, List.mem_cons_of_mem _ hnext, rfl, by simp⟩

/-! ### Scripts -/

section Rejected

variable {source : String} {tokens : List Token} {e : SyntaxError}

/-- What keeps the tokens of a script from having statements stands at a token, or it is a colon
that is missing behind a written token. -/
theorem place_of_parse_eq_error (htokenize : tokenize source = .ok tokens)
    (hparse : parse tokens = .error e) :
    (∃ t ∈ tokens, e.position = t.position ∧ e.problem ≠ .missingColon) ∨
      ∃ t ∈ tokens, t.isWritten = true ∧ e = ⟨t.behind, .missingColon⟩ := by
  obtain ⟨body, hbody, -⟩ := endMarker_of_tokenize htokenize
  have hend : ∃ t ∈ tokens, t.kind = .endMarker := by
    rw [hbody]
    exact ⟨_, List.mem_append_right _ (List.mem_singleton_self _), rfl⟩
  rcases faultyLine_of_nest hparse hend with hline | hplace
  · cases hline with
    | intro before first line after hcut hfirst hmarker hinLine hfaulty =>
        have hpart : first :: line <:+: tokens := ⟨before, after, hcut.symm⟩
        cases hfaulty with
        | @refused t ht he =>
            subst he
            exact .inl ⟨t, hpart.mem ht, rfl, by simp [refuse]⟩
        | @missingColon t ht he =>
            exact .inr ⟨t, hpart.mem ht,
              isWritten_of_line htokenize hpart hfirst hmarker hinLine t ht, he⟩
  · exact .inl hplace

/-- A script that is rejected is rejected on one of its lines. The column is one of that line as well,
unless a colon is missing behind a token that goes on over a line feed. -/
theorem rejected_in_source_iff (h : (tokenize source >>= parse) = .error e) :
    (1 ≤ e.position.line ∧ e.position.line ≤ source.toList.count '\n' + 1) ∧
    (e.position.LiesIn source.toList ↔
      ¬ ∃ tokens t, tokenize source = .ok tokens ∧ t ∈ tokens ∧ t.isWritten = true ∧
        '\n' ∈ t.text.toList ∧ e = ⟨t.behind, .missingColon⟩) := by
  have lies (hlies : e.position.LiesIn source.toList) :
      1 ≤ e.position.line ∧ e.position.line ≤ source.toList.count '\n' + 1 :=
    ⟨hlies.one_le_line, hlies.line_le⟩
  rcases bind_eq_error.1 h with htokenize | ⟨tokens, htokenize, hparse⟩
  · have hlies := liesIn_of_tokenize_eq_error htokenize
    refine ⟨lies hlies, iff_of_true hlies ?_⟩
    rintro ⟨tokens, t, hok, -⟩
    rw [htokenize] at hok
    cases hok
  · rcases place_of_parse_eq_error htokenize hparse with
      ⟨t, ht, hplace, hproblem⟩ | ⟨t, ht, hwritten, rfl⟩
    · have hlies : e.position.LiesIn source.toList := by
        rw [hplace]
        exact liesIn_of_mem_tokenize htokenize ht
      refine ⟨lies hlies, iff_of_true hlies ?_⟩
      rintro ⟨_, u, -, -, -, -, rfl⟩
      exact hproblem rfl
    · have hstart := liesIn_of_mem_tokenize htokenize ht
      refine ⟨⟨hstart.one_le_line, hstart.line_le⟩, ?_⟩
      constructor
      · rintro hlies ⟨others, u, hok, hu, huwritten, hfeed, heq⟩
        rw [heq] at hlies
        exact (behind_liesIn_iff hok hu huwritten).1 hlies hfeed
      · intro hnone
        apply (behind_liesIn_iff htokenize ht hwritten).2
        exact fun hfeed => hnone ⟨tokens, t, htokenize, ht, hwritten, hfeed, rfl⟩

/-- The colon that a header lacks is missing behind its last token, on the same line. -/
theorem rejected_in_source_behind_header :
    (tokenize "if x\n  y\n" >>= parse) = .error ⟨⟨1, 4⟩, .missingColon⟩ ∧
      (⟨1, 4⟩ : Position).LiesIn "if x\n  y\n".toList := by
  have hrejected : (tokenize "if x\n  y\n" >>= parse) = .error ⟨⟨1, 4⟩, .missingColon⟩ :=
    (map_eq_error (f := fun _ => ())).1 (by decide +kernel)
  have htokens : tokenize "if x\n  y\n" = .ok
      [⟨.name, "if", ⟨1, 0⟩⟩, ⟨.name, "x", ⟨1, 3⟩⟩, ⟨.newline, "\n", ⟨1, 4⟩⟩, ⟨.indent, "", ⟨2, 0⟩⟩,
        ⟨.name, "y", ⟨2, 2⟩⟩, ⟨.newline, "\n", ⟨2, 3⟩⟩, ⟨.dedent, "", ⟨3, 0⟩⟩,
        ⟨.endMarker, "", ⟨3, 0⟩⟩] := by
    decide +kernel
  refine ⟨hrejected, (rejected_in_source_iff hrejected).2.2 ?_⟩
  rintro ⟨tokens, t, htokenize, ht, hwritten, hfeed, -⟩
  rw [htokens] at htokenize
  cases htokenize
  -- Of these tokens only the line ends have a line feed, and they are not written.
  revert hwritten hfeed
  revert t
  decide

/-- A header that ends in a string over two lines: the column of the missing colon is reckoned on the
line that the string begins on, which has no such column. -/
theorem rejected_beyond_line :
    (tokenize "if \"\"\"a\nbc\"\"\"\n" >>= parse) = .error ⟨⟨1, 13⟩, .missingColon⟩ ∧
      ¬ (⟨1, 13⟩ : Position).LiesIn "if \"\"\"a\nbc\"\"\"\n".toList := by
  refine ⟨(map_eq_error (f := fun _ => ())).1 (by decide +kernel), fun hplace => ?_⟩
  obtain ⟨line, hline, hcolumn⟩ := hplace.column_le
  have hfirst : line = "if \"\"\"a".toList := by
    apply Option.some.inj
    rw [← hline]
    decide +kernel
  rw [hfirst] at hcolumn
  exact absurd hcolumn (by decide)

end Rejected

end ScriptSandbox
