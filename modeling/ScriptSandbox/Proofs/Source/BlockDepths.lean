import Mathlib.Order.Bounds.Defs
import ScriptSandbox.Proofs.Source.Indentation
import ScriptSandbox.Proofs.Source.Lines

/-!
How deep statements stand and how deep their tokens. Every indentation belongs to the block whose header
stands before it, so the blocks of a script reach as deep as its tokens. They reach one deeper where a
block has its body on the line of its header: no indentation tells of that one, and no block can begin
in such a body.
-/

namespace ScriptSandbox

/-! ### Statements -/

mutual

/-- How deep the places in a statement are at most, which stands `depth` deep itself. -/
def Statement.reach (depth : Nat) : Statement → Nat
  | .line .. => depth
  | .block _ _ _ body => reachAll (depth + 1) body

/-- How deep the places in some statements are at most, which stand `depth` deep themselves. -/
def reachAll (depth : Nat) : List Statement → Nat
  | [] => depth
  | s :: rest => max (s.reach depth) (reachAll depth rest)

end

@[simp] theorem reachAll_nil (depth : Nat) : reachAll depth [] = depth := rfl

@[simp] theorem reachAll_cons (depth : Nat) (s : Statement) (rest : List Statement) :
    reachAll depth (s :: rest) = max (s.reach depth) (reachAll depth rest) := rfl

theorem le_reachAll (depth : Nat) (statements : List Statement) :
    depth ≤ reachAll depth statements := by
  induction statements with
  | nil => exact Nat.le_refl _
  | cons s rest ih => exact ih.trans (Nat.le_max_right _ _)

@[simp] theorem reachAll_append (depth : Nat) (statements others : List Statement) :
    reachAll depth (statements ++ others) =
      max (reachAll depth statements) (reachAll depth others) := by
  induction statements with
  | nil => exact (Nat.max_eq_right (le_reachAll depth others)).symm
  | cons s rest ih => simp [ih, Nat.max_assoc]

@[simp] theorem reachAll_reverse (depth : Nat) (statements : List Statement) :
    reachAll depth statements.reverse = reachAll depth statements := by
  induction statements with
  | nil => rfl
  | cons s rest ih =>
      have hdepth := le_reachAll depth rest
      simp only [List.reverse_cons, reachAll_append, ih, reachAll_cons, reachAll_nil]
      omega

theorem reachAll_block (depth : Nat) (keyword : String) (p : Position) (header : List Token)
    (body : List Statement) :
    reachAll depth [.block keyword p header body] = reachAll (depth + 1) body :=
  Nat.max_eq_left ((Nat.le_succ depth).trans (le_reachAll (depth + 1) body))

theorem reachAll_of_lines {statements : List Statement}
    (h : ∀ s ∈ statements, ∃ form p tokens, s = .line form p tokens) (depth : Nat) :
    reachAll depth statements = depth := by
  induction statements with
  | nil => rfl
  | cons s rest ih =>
      obtain ⟨⟨form, p, tokens, rfl⟩, hrest⟩ := List.forall_mem_cons.1 h
      simp [Statement.reach, ih hrest]

theorem reachAll_lineStatements {tokens : List Token} {statements : List Statement}
    (h : lineStatements tokens = .ok statements) (depth : Nat) :
    reachAll depth statements = depth := by
  apply reachAll_of_lines
  intro s hs
  obtain ⟨segment, -, hfound⟩ := exists_of_mem_filterMapM (f := segmentStatement) h hs
  cases segment with
  | nil => cases hfound
  | cons first rest =>
      obtain ⟨own, hown, heq⟩ := map_eq_ok.1 hfound
      cases heq
      obtain ⟨form, rfl, -, -⟩ := lineStatement_eq_ok hown
      exact ⟨form, _, _, rfl⟩

theorem reachAll_le_of_logicalLine {first : Token} {rest : List Token}
    {statements : List Statement} (h : logicalLine first rest = .ok (.statements statements))
    (depth : Nat) : reachAll depth statements ≤ depth + 1 := by
  rcases logicalLine_cases h with ⟨-, line, hline, heq⟩ |
    ⟨header, colon, body, -, -, ⟨-, heq⟩ | ⟨line, hline, heq⟩⟩
  · cases heq
    rw [reachAll_lineStatements hline]
    exact Nat.le_succ depth
  · cases heq
  · cases heq
    rw [reachAll_block, reachAll_lineStatements hline]

/-! ### Open blocks -/

/-- How deep the places in the open blocks are at most, of which the innermost holds `statements`. -/
def reachOpen (statements : List Statement) : List OpenBlock → Nat
  | [] => reachAll 0 statements
  | b :: outer => max (reachOpen b.before outer) (reachAll (outer.length + 1) statements)

theorem reachOpen_append (blocks : List OpenBlock) (statements more : List Statement) :
    reachOpen (more.reverse ++ statements) blocks =
      max (reachOpen statements blocks) (reachAll blocks.length more) := by
  cases blocks with
  | nil => simp [reachOpen, Nat.max_comm]
  | cons b outer =>
      simp [reachOpen, Nat.max_comm, Nat.max_left_comm]

theorem reachOpen_cons_block (statements body : List Statement) (blocks : List OpenBlock)
    (keyword : String) (p : Position) (header : List Token) :
    reachOpen (.block keyword p header body :: statements) blocks =
      max (reachOpen statements blocks) (reachAll (blocks.length + 1) body) := by
  have happend := reachOpen_append blocks statements [.block keyword p header body]
  rwa [reachAll_block] at happend

@[simp] theorem reachAll_closeAll (statements : List Statement) (blocks : List OpenBlock) :
    reachAll 0 (Nesting.closeAll statements blocks) = reachOpen statements blocks := by
  induction blocks generalizing statements with
  | nil => simp [Nesting.closeAll, reachOpen]
  | cons b outer ih =>
      rw [Nesting.closeAll, ih, reachOpen_cons_block, reachAll_reverse, reachOpen]

theorem reachOpen_leave (s : Nesting) :
    reachOpen s.leave.statements s.leave.blocks = reachOpen s.statements s.blocks := by
  obtain ⟨blocks, statements⟩ := s
  cases blocks with
  | nil => rfl
  | cons b outer =>
      show reachOpen (.block b.keyword b.position b.header statements.reverse :: b.before) outer = _
      rw [reachOpen_cons_block, reachAll_reverse, reachOpen]

theorem length_le_reachOpen (statements : List Statement) (blocks : List OpenBlock) :
    blocks.length ≤ reachOpen statements blocks := by
  cases blocks with
  | nil => exact Nat.zero_le _
  | cons b outer => exact (le_reachAll _ statements).trans (Nat.le_max_right _ _)

/-! ### Tokens -/

/-- How deep the places between some tokens are at most, which begin `depth` deep. -/
def peak (depth : Nat) : List Token → Nat
  | [] => depth
  | t :: rest => max depth (peak (t.depthAfter depth) rest)

theorem le_peak (depth : Nat) (tokens : List Token) : depth ≤ peak depth tokens := by
  cases tokens with
  | nil => exact Nat.le_refl _
  | cons t rest => exact Nat.le_max_left _ _

theorem peak_cons_of_shiftsDepth {t : Token} (h : t.shiftsDepth = false) (depth : Nat)
    (rest : List Token) : peak depth (t :: rest) = peak depth rest := by
  rw [peak, Token.depthAfter_of_shiftsDepth h, Nat.max_eq_right (le_peak depth rest)]

theorem peak_append_of_shiftsDepth {tokens : List Token} (h : ∀ t ∈ tokens, t.shiftsDepth = false)
    (depth : Nat) (more : List Token) : peak depth (tokens ++ more) = peak depth more := by
  induction tokens with
  | nil => rfl
  | cons t rest ih =>
      obtain ⟨ht, hrest⟩ := List.forall_mem_cons.1 h
      rw [List.cons_append, peak_cons_of_shiftsDepth ht, ih hrest]

theorem shiftsDepth_of_isLayout {t : Token} (h : t.isLayout = false) : t.shiftsDepth = false := by
  rw [Bool.eq_false_iff]
  intro hshifts
  rw [Token.isLayout_of_shiftsDepth hshifts] at h
  cases h

theorem peak_line {first : Token} {rest : List Token} (htidy : Tidy (first :: rest))
    (hfirst : first.isLayout = false) (depth : Nat) :
    peak depth (first :: rest) = peak depth (afterLine rest) := by
  have hcut := List.takeWhile_append_dropWhile (p := Token.isInLine) (l := rest)
  have hline : Tidy (first :: rest.takeWhile Token.isInLine) := by
    rw [← hcut, ← List.cons_append] at htidy
    exact (List.isChain_append.1 htidy).1
  have hshifts : ∀ t ∈ first :: rest.takeWhile Token.isInLine, t.shiftsDepth = false :=
    fun t ht => shiftsDepth_of_isLayout
      (hline.isLayout_of_inLine hfirst (List.all_eq_true.1 List.all_takeWhile) t ht)
  rcases afterLine_cases rest with ⟨newline, hnewline, hrest⟩ | ⟨hrest, -⟩
  · have hend : newline.shiftsDepth = false := by simp [Token.shiftsDepth, hnewline]
    conv_lhs =>
      rw [hrest, ← List.cons_append, peak_append_of_shiftsDepth hshifts,
        peak_cons_of_shiftsDepth hend]
  · conv_lhs => rw [hrest, ← List.cons_append, peak_append_of_shiftsDepth hshifts]

/-! ### Nested lines -/

/-- How deep the statements are that are nested from some tokens: as deep as what was open before and
as the tokens, or one deeper. -/
structure DepthBounds (s : Nesting) (tokens : List Token) (statements : List Statement) : Prop where
  open_le : reachOpen s.statements s.blocks ≤ reachAll 0 statements
  peak_le : peak s.blocks.length tokens ≤ reachAll 0 statements
  le_succ : reachAll 0 statements ≤
    max (reachOpen s.statements s.blocks) (peak s.blocks.length tokens + 1)

theorem depthBounds_closeAll {s : Nesting} {tokens : List Token}
    (hpeak : peak s.blocks.length tokens = s.blocks.length) :
    DepthBounds s tokens (Nesting.closeAll s.statements s.blocks) := by
  have hlength := length_le_reachOpen s.statements s.blocks
  refine ⟨?_, ?_, ?_⟩
  · rw [reachAll_closeAll]
  · rwa [reachAll_closeAll, hpeak]
  · rw [reachAll_closeAll]
    exact Nat.le_max_left _ _

/-- An end marker comes last if any. -/
def EndsAtMarker (tokens : List Token) : Prop :=
  tokens.Pairwise fun t _ => t.kind ≠ .endMarker

/-- What is nested from some tokens is as deep as they are, or one deeper. -/
theorem depthBounds_of_nest {s : Nesting} {tokens : List Token} {statements : List Statement}
    (h : nest s tokens = .ok statements) (htidy : Tidy tokens) (hlast : EndsAtMarker tokens) :
    DepthBounds s tokens statements := by
  replace h := nest_eq_ok_iff.1 h
  induction h with
  | @final s tokens hend =>
      refine depthBounds_closeAll ?_
      cases tokens with
      | nil => rfl
      | cons t rest =>
          have hkind : t.kind = .endMarker := hend t rfl
          obtain rfl : rest = [] :=
            List.eq_nil_iff_forall_not_mem.2 fun u hu => (List.pairwise_cons.1 hlast).1 u hu hkind
          exact peak_cons_of_shiftsDepth (by simp [Token.shiftsDepth, hkind]) s.blocks.length []
  | @dedent s t rest statements hkind _ ih =>
      obtain ⟨hopen, hpeak, hsucc⟩ :=
        ih (htidy.part (List.suffix_cons t rest).isInfix) (List.pairwise_cons.1 hlast).2
      have hlength := length_le_reachOpen s.statements s.blocks
      have hrest : peak s.blocks.length (t :: rest) =
          max s.blocks.length (peak (s.blocks.length - 1) rest) := by
        rw [peak, Token.depthAfter, hkind]
      rw [reachOpen_leave] at hopen hsucc
      rw [length_blocks_leave] at hpeak hsucc
      exact ⟨hopen, by omega, by omega⟩
  | @newline s t rest statements hkind _ ih =>
      obtain ⟨hopen, hpeak, hsucc⟩ :=
        ih (htidy.part (List.suffix_cons t rest).isInfix) (List.pairwise_cons.1 hlast).2
      have hrest : peak s.blocks.length (t :: rest) = peak s.blocks.length rest :=
        peak_cons_of_shiftsDepth (by simp [Token.shiftsDepth, hkind]) s.blocks.length rest
      exact ⟨hopen, by rwa [hrest], by rwa [hrest]⟩
  | @line s t rest line statements hlayout _ hline _ ih =>
      have hsuffix := (afterLine_suffix rest).trans (List.suffix_cons t rest)
      obtain ⟨hopen, hpeak, hsucc⟩ := ih (htidy.part hsuffix.isInfix) (hlast.sublist hsuffix.sublist)
      have hrest := peak_line htidy hlayout s.blocks.length
      have hdepth := le_peak s.blocks.length (afterLine rest)
      -- The line is no deeper than one block below the open ones.
      have hadd : reachOpen (s.add line).statements (s.add line).blocks =
          max (reachOpen s.statements s.blocks) (reachAll s.blocks.length line) :=
        reachOpen_append s.blocks s.statements line
      have hheld := reachAll_le_of_logicalLine hline s.blocks.length
      have hblocks : (s.add line).blocks = s.blocks := rfl
      rw [hadd] at hopen hsucc
      rw [hblocks] at hpeak hsucc
      exact ⟨by omega, by omega, by omega⟩
  | @header s t rest keyword p header next below statements hlayout _ hline hbelow hindent _ ih =>
      have hsuffix := (suffix_of_afterLine hbelow).trans (List.suffix_cons t rest)
      obtain ⟨hopen, hpeak, hsucc⟩ := ih (htidy.part hsuffix.isInfix) (hlast.sublist hsuffix.sublist)
      have hrest := peak_line htidy hlayout s.blocks.length
      have hbody : peak s.blocks.length (next :: below) =
          max s.blocks.length (peak (s.blocks.length + 1) below) := by
        rw [peak, Token.depthAfter, hindent]
      have hdepth := le_peak (s.blocks.length + 1) below
      -- The block that is entered stands one below the open ones, as the tokens behind the indentation do.
      have henter : reachOpen (s.enter keyword p header).statements (s.enter keyword p header).blocks =
          max (reachOpen s.statements s.blocks) (s.blocks.length + 1) := rfl
      have hblocks : (s.enter keyword p header).blocks.length = s.blocks.length + 1 := rfl
      rw [henter] at hopen hsucc
      rw [hblocks] at hpeak hsucc
      rw [hbelow, hbody] at hrest
      exact ⟨by omega, by omega, by omega⟩

/-! ### Scripts -/

/-- How many more blocks some tokens enter than they leave. -/
def blockBalance (tokens : List Token) : Int :=
  tokens.countP Token.isIndent - tokens.countP Token.isDedent

theorem Token.depthAfter_add_countP (t : Token) (depth : Nat)
    (h : [t].countP isDedent ≤ depth + [t].countP isIndent) :
    t.depthAfter depth + [t].countP isDedent = depth + [t].countP isIndent := by
  rw [List.countP_singleton, List.countP_singleton] at h ⊢
  by_cases hdedent : t.isDedent = true
  · have hkind : t.kind = .dedent := beq_iff_eq.1 hdedent
    have hindent : t.isIndent = false := by rw [isIndent, hkind]; rfl
    have hafter : t.depthAfter depth = depth - 1 := by rw [depthAfter, hkind]
    rw [if_pos hdedent, hindent] at h ⊢
    rw [hafter]
    simpa using Nat.sub_add_cancel h
  · by_cases hindent : t.isIndent = true
    · have hafter : t.depthAfter depth = depth + 1 := by rw [depthAfter, beq_iff_eq.1 hindent]
      rw [if_neg hdedent, if_pos hindent, hafter, Nat.add_zero]
    · have hshifts : t.shiftsDepth = false := by
        rw [Bool.not_eq_true] at hindent hdedent
        exact Bool.or_eq_false_iff.2 ⟨hindent, hdedent⟩
      rw [if_neg hdedent, if_neg hindent, depthAfter_of_shiftsDepth hshifts]

/-- As long as no block is left that is not entered, the balance tells how deep tokens end. -/
theorem blockBalance_eq {tokens : List Token}
    (h : ∀ before, before <+: tokens →
      before.countP Token.isDedent ≤ before.countP Token.isIndent) :
    blockBalance tokens = (tokens.foldl Token.depthAfter 0 : Nat) := by
  induction tokens using List.reverseRecOn with
  | nil => rfl
  | append_singleton tokens t ih =>
      have hdepth := ih fun before hbefore => h before (hbefore.trans (List.prefix_append _ _))
      have hwhole := h (tokens ++ [t]) List.prefix_rfl
      unfold blockBalance at hdepth ⊢
      rw [List.countP_append, List.countP_append] at hwhole ⊢
      rw [List.foldl_append, List.foldl_cons, List.foldl_nil]
      have hlast := t.depthAfter_add_countP (tokens.foldl Token.depthAfter 0) (by omega)
      omega

theorem exists_prefix_of_peak (depth : Nat) (tokens : List Token) :
    ∃ before, before <+: tokens ∧ before.foldl Token.depthAfter depth = peak depth tokens := by
  induction tokens generalizing depth with
  | nil => exact ⟨[], List.prefix_rfl, rfl⟩
  | cons t rest ih =>
      rcases Nat.le_total (peak (t.depthAfter depth) rest) depth with hle | hle
      · refine ⟨[], List.nil_prefix, ?_⟩
        rw [peak, Nat.max_eq_left hle]
        rfl
      · obtain ⟨before, hbefore, hpeak⟩ := ih (t.depthAfter depth)
        refine ⟨t :: before, List.prefix_cons_inj t |>.2 hbefore, ?_⟩
        rw [peak, Nat.max_eq_right hle, ← hpeak]
        rfl

theorem foldl_depthAfter_le_peak {before tokens : List Token} (h : before <+: tokens)
    (depth : Nat) : before.foldl Token.depthAfter depth ≤ peak depth tokens := by
  induction before generalizing depth tokens with
  | nil => exact le_peak depth tokens
  | cons t before ih =>
      obtain ⟨after, rfl⟩ := h
      exact (ih (List.prefix_append before after) _).trans (Nat.le_max_right _ _)

theorem isGreatest_peak {source : String} {tokens : List Token}
    (h : tokenize source = .ok tokens) :
    IsGreatest {n : Int | ∃ before, before <+: tokens ∧ blockBalance before = n}
      (peak 0 tokens : Nat) := by
  have hbalance {before : List Token} (hbefore : before <+: tokens) :
      blockBalance before = (before.foldl Token.depthAfter 0 : Nat) :=
    blockBalance_eq fun lead hlead => (wellLaid_of_tokenize h).dedents_le lead (hlead.trans hbefore)
  constructor
  · obtain ⟨before, hbefore, hpeak⟩ := exists_prefix_of_peak 0 tokens
    exact ⟨before, hbefore, by rw [hbalance hbefore, hpeak]⟩
  · rintro n ⟨before, hbefore, rfl⟩
    rw [hbalance hbefore]
    exact Int.ofNat_le.2 (foldl_depthAfter_le_peak hbefore 0)

/-- The statements of a script are as deep as its tokens, or one deeper. -/
theorem reach_of_script {source : String} {tokens : List Token} {statements : List Statement}
    (h : Script source tokens statements) :
    peak 0 tokens ≤ reachAll 0 statements ∧ reachAll 0 statements ≤ peak 0 tokens + 1 := by
  obtain ⟨body, hbody, hkinds⟩ := endMarker_of_tokenize h.tokenize_eq
  have hlast : EndsAtMarker tokens := by
    rw [hbody]
    refine List.pairwise_append.2 ⟨?_, List.pairwise_singleton _ _, fun t ht _ _ => hkinds t ht⟩
    exact List.pairwise_of_forall_mem_list fun t ht _ _ => hkinds t ht
  obtain ⟨-, hpeak, hsucc⟩ := depthBounds_of_nest h.parse_eq (tidy_of_tokenize h.tokenize_eq) hlast
  have hstart : reachOpen ({} : Nesting).statements ({} : Nesting).blocks = 0 := rfl
  rw [hstart] at hsucc
  exact ⟨hpeak, by simpa using hsucc⟩

end ScriptSandbox
