import ScriptSandbox.Analysis.Observation
import ScriptSandbox.Proofs.Source.Rereading

/-!
Targets of calls. What a parenthesis calls is the longest chain of names joined by dots before it,
unless the names are being defined there. A chain never reaches over a cut between statements, so
it is the same in the statement and in the whole script. When names are spelled in another way or moved,
it is the same chain of changed names.
-/

namespace ScriptSandbox

/-- Some tokens are a chain of names joined by dots. -/
inductive Dotted : List Token → List Token → Prop
  | single {t} : t.isIdentifier = true → Dotted [t] [t]
  | cons {t dot chain names} : t.isIdentifier = true → dot.isOperator "." = true →
      Dotted chain names → Dotted (t :: dot :: chain) (t :: names)

theorem Dotted.snoc {chain names : List Token} {dot t : Token} (h : Dotted chain names)
    (hdot : dot.isOperator "." = true) (ht : t.isIdentifier = true) :
    Dotted (chain ++ [dot, t]) (names ++ [t]) := by
  induction h with
  | single hname => exact .cons hname hdot (.single ht)
  | cons hname hinner _ ih => exact .cons hname hinner ih

theorem Dotted.head {chain names : List Token} (h : Dotted chain names) :
    ∃ t rest, chain = t :: rest ∧ t.isIdentifier = true := by
  cases h with
  | single ht => exact ⟨_, [], rfl, ht⟩
  | cons ht => exact ⟨_, _, rfl, ht⟩

theorem Dotted.last {chain names : List Token} (h : Dotted chain names) :
    ∃ rest t, chain = rest ++ [t] ∧ t.isIdentifier = true := by
  induction h with
  | @single t ht => exact ⟨[], t, rfl, ht⟩
  | @cons t dot _ _ _ _ _ ih =>
      obtain ⟨rest, u, rfl, hu⟩ := ih
      exact ⟨t :: dot :: rest, u, rfl, hu⟩

theorem Dotted.names_spec {chain names : List Token} (h : Dotted chain names) :
    names ≠ [] ∧ ∀ t ∈ names, t ∈ chain ∧ t.kind = .name := by
  induction h with
  | single ht => simpa using Token.kind_of_isIdentifier ht
  | @cons t dot chain names ht _ _ ih =>
      refine ⟨by simp, List.forall_mem_cons.2
        ⟨⟨List.mem_cons_self, Token.kind_of_isIdentifier ht⟩, fun u hu => ?_⟩⟩
      obtain ⟨hmem, hkind⟩ := ih.2 u hu
      exact ⟨by simp [hmem], hkind⟩

theorem Dotted.names_unique {chain names others : List Token} (h : Dotted chain names)
    (hothers : Dotted chain others) : names = others := by
  induction h generalizing others with
  | single =>
      cases hothers with
      | single => rfl
  | cons _ _ _ ih =>
      cases hothers with
      | cons _ _ hothers => rw [ih hothers]

theorem Dotted.extension {lead chain names others : List Token}
    (hlong : Dotted (lead ++ chain) others) (hshort : Dotted chain names) (hlead : lead ≠ []) :
    ∃ rest t dot, lead = rest ++ [t, dot] ∧ t.isIdentifier = true ∧
      dot.isOperator "." = true := by
  generalize hwhole : lead ++ chain = whole at hlong
  induction hlong generalizing lead with
  | single =>
      obtain ⟨t, rest, rfl, -⟩ := hshort.head
      have hlength := congrArg List.length hwhole
      have hpositive := List.length_pos_iff.2 hlead
      simp only [List.length_append, List.length_cons, List.length_nil] at hlength
      omega
  | @cons t dot inner _ ht hdot _ ih =>
      -- Names and dots take turns, so the short chain cannot begin at a dot.
      obtain ⟨u, lead, rfl⟩ := List.exists_cons_of_ne_nil hlead
      obtain ⟨rfl, htail⟩ := List.cons.inj hwhole
      cases lead with
      | nil =>
          obtain ⟨v, rest, rfl, hv⟩ := hshort.head
          cases htail
          rw [Token.isOperator_of_name (Token.kind_of_isIdentifier hv)] at hdot
          cases hdot
      | cons v lead =>
          obtain ⟨rfl, hinner⟩ := List.cons.inj htail
          cases lead with
          | nil => exact ⟨[], u, v, rfl, ht, hdot⟩
          | cons w lead =>
              obtain ⟨rest, t, dot, hcut, ht, hdot⟩ := ih (by simp) hinner
              exact ⟨u :: v :: rest, t, dot, by rw [hcut]; rfl, ht, hdot⟩

/-- A chain that no name and dot continue is the longest one. -/
theorem Dotted.longest {outer chain names rest longer others : List Token}
    (h : Dotted chain names)
    (hstop : ∀ rest t dot, outer = rest ++ [t, dot] → dot.isOperator "." = true →
      t.isIdentifier = false)
    (hcut : outer ++ chain = rest ++ longer) (hlonger : Dotted longer others) :
    longer.length ≤ chain.length := by
  rcases List.append_eq_append_iff.1 hcut with ⟨lead, -, rfl⟩ | ⟨lead, rfl, rfl⟩
  · simp
  · cases lead with
    | nil => simp
    | cons u lead =>
        obtain ⟨more, t, dot, hlead, ht, hdot⟩ := hlonger.extension h (by simp)
        rw [hstop (rest ++ more) t dot (by simp [hlead]) hdot] at ht
        cases ht

/-- The tokens before a parenthesis end in a chain of names, which is what it calls. The chain is
the longest one, and its names are not being defined as a function or a class. -/
def IsCallTarget (before names : List Token) : Prop :=
  ∃ outer chain, before = outer ++ chain ∧ Dotted chain names ∧
    (∀ rest longer others, before = rest ++ longer → Dotted longer others →
      longer.length ≤ chain.length) ∧
    ∀ t ∈ outer.getLast?, t.isWord "def" = false ∧ t.isWord "class" = false

/-- The dotted tail of tokens, read backwards, is a chain at their end that no name and dot
continue. -/
theorem dottedTail_spec {tokens : List Token}
    (hname : tokens.head?.any Token.isIdentifier = true) :
    ∃ chain, tokens.reverse = (dottedTail tokens).2.reverse ++ chain ∧
      Dotted chain (dottedTail tokens).1 ∧
      ∀ dot t rest, (dottedTail tokens).2 = dot :: t :: rest → dot.isOperator "." = true →
        t.isIdentifier = false := by
  fun_induction dottedTail tokens with
  | case1 => cases hname
  | case2 t => exact ⟨[t], rfl, .single hname, by simp⟩
  | case3 t dot => exact ⟨[t], rfl, .single hname, by simp⟩
  | case4 t dot inner outer hdotted found ih =>
      simp only [Bool.and_eq_true] at hdotted
      obtain ⟨chain, hreverse, hchain, hstop⟩ := ih hdotted.2
      refine ⟨chain ++ [dot, t], ?_, hchain.snoc hdotted.1 hname, hstop⟩
      rw [List.reverse_cons, List.reverse_cons, hreverse]
      simp [found]
  | case5 t dot inner outer hdotted =>
      refine ⟨[t], by simp, .single hname, ?_⟩
      rintro _ _ _ ⟨⟩ hdot
      simpa [hdot] using hdotted

/-- The chain before a parenthesis is what the parenthesis calls. -/
theorem isCallTarget_of_callChain {before names : List Token}
    (h : callChain before.reverse = some names) : IsCallTarget before names := by
  unfold callChain at h
  split at h
  · rename_i hname
    obtain ⟨chain, hreverse, hchain, hstop⟩ := dottedTail_spec hname
    rw [List.reverse_reverse] at hreverse
    dsimp only at h
    split at h
    · cases h
    · rename_i hdefined
      cases h
      refine ⟨_, chain, hreverse, hchain, fun rest longer others hcut => ?_, fun t ht => ?_⟩
      · refine hchain.longest (fun more t dot hends hdot => ?_) (hreverse ▸ hcut)
        refine hstop dot t more.reverse ?_ hdot
        rw [← List.reverse_reverse (dottedTail before.reverse).2, hends]
        simp
      · rw [List.getLast?_reverse] at ht
        rw [Option.mem_def.1 ht] at hdefined
        simpa using hdefined
  · cases h

theorem callChain_of_isCallTarget {before names : List Token} (h : IsCallTarget before names) :
    callChain before.reverse = some names := by
  obtain ⟨outer, chain, rfl, hchain, hlongest, hdefined⟩ := h
  have hname : (outer ++ chain).reverse.head?.any Token.isIdentifier = true := by
    obtain ⟨rest, t, rfl, ht⟩ := hchain.last
    simpa using ht
  obtain ⟨found, hreverse, hfound, hstop⟩ := dottedTail_spec hname
  rw [List.reverse_reverse] at hreverse
  -- Both chains are the longest at the end of the tokens, so they are the same.
  have hlength : found.length = chain.length := by
    refine Nat.le_antisymm (hlongest _ found _ hreverse hfound) ?_
    refine hfound.longest (fun more t dot hends hdot => ?_) hreverse.symm hchain
    refine hstop dot t more.reverse ?_ hdot
    rw [← List.reverse_reverse (dottedTail (outer ++ chain).reverse).2, hends]
    simp
  obtain ⟨houter, rfl⟩ := List.append_inj' hreverse hlength.symm
  have hdef : ((dottedTail (outer ++ chain).reverse).2.head?.any fun t =>
      t.isWord "def" || t.isWord "class") = false := by
    rw [← List.getLast?_reverse, ← houter]
    cases hlast : outer.getLast? with
    | none => rfl
    | some t =>
        obtain ⟨hdef, hclass⟩ := hdefined t hlast
        simp [hdef, hclass]
  unfold callChain
  rw [if_pos hname]
  dsimp only
  rw [hdef, hfound.names_unique hchain]
  rfl

theorem callChain_eq_some_iff {before names : List Token} :
    callChain before.reverse = some names ↔ IsCallTarget before names :=
  ⟨isCallTarget_of_callChain, callChain_of_isCallTarget⟩

/-! ### Cuts -/

theorem Token.isIdentifier_of_isCut {t : Token} (h : t.isCut = true) : t.isIdentifier = false := by
  unfold Token.isCut Token.isLayout Token.isOperator at h
  unfold Token.isIdentifier
  cases hkind : t.kind <;> simp_all

theorem Token.isOperator_dot_of_isCut {t : Token} (h : t.isCut = true) :
    t.isOperator "." = false := by
  unfold Token.isCut Token.isLayout at h
  unfold Token.isOperator at *
  cases hkind : t.kind <;> simp_all
  rcases h with h | h <;> simp [h]

theorem Token.isWord_of_isCut {t : Token} (h : t.isCut = true) (text : String) :
    t.isWord text = false := by
  unfold Token.isCut Token.isLayout Token.isOperator at h
  unfold Token.isWord
  cases hkind : t.kind <;> simp_all

theorem dottedTail_append_cut {tokens more : List Token} {cut : Token} (hcut : cut.isCut = true)
    (hne : tokens ≠ []) :
    dottedTail (tokens ++ cut :: more) =
      ((dottedTail tokens).1, (dottedTail tokens).2 ++ cut :: more) := by
  fun_induction dottedTail tokens with
  | case1 => exact absurd rfl hne
  | case2 t =>
      cases more with
      | nil => rfl
      | cons u more => simp [dottedTail, Token.isOperator_dot_of_isCut hcut]
  | case3 t dot => simp [dottedTail, Token.isIdentifier_of_isCut hcut]
  | case4 t dot inner outer hdotted found ih =>
      have htail := ih (by simp)
      rw [List.cons_append] at htail
      simp only [List.cons_append, dottedTail, hdotted, if_true, htail]
      rfl
  | case5 t dot inner outer hdotted =>
      simp only [List.cons_append, dottedTail]
      rw [if_neg hdotted]

theorem callChain_of_endsInCut {outer : List Token} (inner : List Token) (h : EndsInCut outer) :
    callChain (outer ++ inner).reverse = callChain inner.reverse := by
  cases outer using List.reverseRecOn with
  | nil => rfl
  | append_singleton more cut =>
      have hcut : cut.isCut = true := h cut (by simp)
      have hreverse : (more ++ [cut] ++ inner).reverse = inner.reverse ++ cut :: more.reverse := by
        simp
      rw [hreverse]
      unfold callChain
      by_cases hinner : inner.reverse = []
      · simp [hinner, Token.isIdentifier_of_isCut hcut]
      · rw [dottedTail_append_cut hcut hinner]
        obtain ⟨t, rest, hreversed⟩ := List.exists_cons_of_ne_nil hinner
        simp only [hreversed, List.cons_append, List.head?_cons]
        cases (dottedTail (t :: rest)).2 with
        | nil => simp [Token.isWord_of_isCut hcut]
        | cons u outer => rfl

theorem isCallTarget_of_endsInCut {outer inner names : List Token} (h : EndsInCut outer) :
    IsCallTarget (outer ++ inner) names ↔ IsCallTarget inner names := by
  rw [← callChain_eq_some_iff, ← callChain_eq_some_iff, callChain_of_endsInCut inner h]

/-! ### Changed tokens -/

namespace TokenChange

variable (c : TokenChange)

@[simp] theorem dottedTail_map (tokens : List Token) :
    dottedTail (tokens.map c.token) =
      ((dottedTail tokens).1.map c.token, (dottedTail tokens).2.map c.token) := by
  fun_induction dottedTail tokens with
  | case1 => rfl
  | case2 => rfl
  | case3 => rfl
  | case4 t dot inner outer hdotted found ih =>
      simp only [Bool.and_eq_true] at hdotted
      rw [List.map_cons] at ih
      simp [dottedTail, hdotted, ih, found]
  | case5 t dot inner outer hdotted =>
      simp only [List.map_cons, dottedTail, c.isOperator_eq, c.isIdentifier_eq]
      rw [if_neg hdotted]
      rfl

@[simp] theorem callChain_map (before : List Token) :
    callChain (before.map c.token) = (callChain before).map (List.map c.token) := by
  have hname : (before.map c.token).head?.any Token.isIdentifier =
      before.head?.any Token.isIdentifier := by
    rw [List.head?_map, Option.any_map]
    exact congrArg (before.head?.any ·) (funext c.isIdentifier_eq)
  have hdefined (outer : List Token) :
      ((outer.map c.token).head?.any fun t => t.isWord "def" || t.isWord "class") =
        outer.head?.any fun t => t.isWord "def" || t.isWord "class" := by
    rw [List.head?_map, Option.any_map]
    refine congrArg (outer.head?.any ·) (funext fun t => ?_)
    exact congrArg₂ or (c.isWord_eq t (by decide)) (c.isWord_eq t (by decide))
  unfold callChain
  rw [hname, c.dottedTail_map]
  dsimp only
  rw [hdefined]
  split
  · split <;> rfl
  · rfl

theorem isCallTarget_map {before names : List Token} :
    IsCallTarget (before.map c.token) names ↔
      ∃ others, IsCallTarget before others ∧ names = others.map c.token := by
  rw [← callChain_eq_some_iff, ← List.map_reverse, c.callChain_map, Option.map_eq_some_iff]
  refine exists_congr fun others => ?_
  rw [callChain_eq_some_iff, eq_comm (a := names)]

end TokenChange

end ScriptSandbox
