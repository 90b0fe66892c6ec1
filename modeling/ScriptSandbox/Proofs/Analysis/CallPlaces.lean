import ScriptSandbox.Proofs.Analysis.CallChains

/-!
Places of calls. In a chain names and dots take turns, so its tokens are counted by its names, and
the place of its first name is known from the place of the parenthesis. There the call is observed.
-/

namespace ScriptSandbox

theorem Dotted.length_add_one {chain names : List Token} (h : Dotted chain names) :
    chain.length + 1 = 2 * names.length := by
  induction h with
  | single => rfl
  | cons _ _ _ ih =>
      simp only [List.length_cons]
      omega

theorem Dotted.exists_first {chain names : List Token} (h : Dotted chain names) :
    ∃ first rest others, chain = first :: rest ∧ names = first :: others := by
  cases h with
  | single => exact ⟨_, _, _, rfl, rfl⟩
  | cons => exact ⟨_, _, _, rfl, rfl⟩

theorem Dotted.length_before {chain names : List Token} (h : Dotted chain names)
    (outer : List Token) :
    2 * names.length ≤ (outer ++ chain).length + 1 ∧
      (outer ++ chain).length + 1 - 2 * names.length = outer.length := by
  have hlength := h.length_add_one
  rw [List.length_append]
  omega

theorem tokensObservations_append (inField : Field → List Observation)
    (before first second : List Token) :
    tokensObservations inField before (first ++ second) =
      tokensObservations inField before first ++
        tokensObservations inField (first.reverse ++ before) second := by
  induction first generalizing before with
  | nil => rfl
  | cons t rest ih =>
      rw [List.cons_append, tokensObservations, ih, tokensObservations, List.append_assoc,
        List.reverse_cons, List.append_assoc, List.singleton_append]

theorem tokenObservations_opening (inField : Field → List Observation) {before : List Token}
    {opening : Token} (hopening : opening.isOperator "(" = true) :
    tokenObservations inField before opening =
      (callChain before).toList.map fun chain =>
        .call (chain.map Token.text) (chain.head?.getD opening).position := by
  obtain ⟨hkind, htext⟩ := Token.isOperator_iff.1 hopening
  simp only [tokenObservations, hkind, htext, if_true]
  cases callChain before with
  | none => rfl
  | some chain => rfl

/-- A parenthesis calls the longest chain of names before it, unless a function or class is defined
there, and nothing else. The chain has a name at least. It begins where the number of its names says,
which is within the tokens, and the call is observed at its first name. -/
theorem call_begins_at (inField : Field → List Observation) (before after : List Token)
    {opening : Token} (hopening : opening.isOperator "(" = true) :
    (∀ names, callChain before.reverse = some names ↔ IsCallTarget before names) ∧
    (∀ names, IsCallTarget before names →
      2 * names.length ≤ before.length + 1 ∧
      Dotted (before.drop (before.length + 1 - 2 * names.length)) names ∧
      ∃ first others, names = first :: others ∧
        (before ++ opening :: after)[before.length + 1 - 2 * names.length]? = some first ∧
        tokensObservations inField [] (before ++ opening :: after) =
          tokensObservations inField [] before ++
            .call (names.map Token.text) first.position ::
              tokensObservations inField (opening :: before.reverse) after) ∧
    ((∀ names, ¬ IsCallTarget before names) →
      tokensObservations inField [] (before ++ opening :: after) =
        tokensObservations inField [] before ++
          tokensObservations inField (opening :: before.reverse) after) := by
  have hobserved : tokensObservations inField [] (before ++ opening :: after) =
      tokensObservations inField [] before ++
        (tokenObservations inField before.reverse opening ++
          tokensObservations inField (opening :: before.reverse) after) := by
    rw [tokensObservations_append, List.append_nil, tokensObservations]
  rw [tokenObservations_opening inField hopening] at hobserved
  refine ⟨fun names => callChain_eq_some_iff, fun names htarget => ?_, fun hnone => ?_⟩
  · rw [callChain_eq_some_iff.2 htarget] at hobserved
    obtain ⟨outer, chain, rfl, hchain, -, -⟩ := htarget
    obtain ⟨hle, hplace⟩ := hchain.length_before outer
    obtain ⟨first, rest, others, rfl, rfl⟩ := hchain.exists_first
    refine ⟨hle, ?_, first, others, rfl, ?_, hobserved⟩
    · rwa [hplace, List.drop_left]
    · rw [hplace]
      simp
  · have hfound : callChain before.reverse = none := by
      rw [Option.eq_none_iff_forall_ne_some]
      exact fun names h => hnone names (callChain_eq_some_iff.1 h)
    rw [hfound] at hobserved
    exact hobserved

/-- In `return np.linalg.norm(v)` the call is observed behind the word `return`. -/
theorem call_begins_at_alias :
    IsCallTarget [⟨.name, "return", ⟨1, 0⟩⟩, ⟨.name, "np", ⟨1, 7⟩⟩, ⟨.operator, ".", ⟨1, 9⟩⟩,
      ⟨.name, "linalg", ⟨1, 10⟩⟩, ⟨.operator, ".", ⟨1, 16⟩⟩, ⟨.name, "norm", ⟨1, 17⟩⟩]
      [⟨.name, "np", ⟨1, 7⟩⟩, ⟨.name, "linalg", ⟨1, 10⟩⟩, ⟨.name, "norm", ⟨1, 17⟩⟩] ∧
    .call ["np", "linalg", "norm"] ⟨1, 7⟩ ∈
      observeTokens [⟨.name, "return", ⟨1, 0⟩⟩, ⟨.name, "np", ⟨1, 7⟩⟩, ⟨.operator, ".", ⟨1, 9⟩⟩,
        ⟨.name, "linalg", ⟨1, 10⟩⟩, ⟨.operator, ".", ⟨1, 16⟩⟩, ⟨.name, "norm", ⟨1, 17⟩⟩,
        ⟨.operator, "(", ⟨1, 21⟩⟩, ⟨.name, "v", ⟨1, 22⟩⟩, ⟨.operator, ")", ⟨1, 23⟩⟩] := by
  have hopening : (⟨.operator, "(", ⟨1, 21⟩⟩ : Token).isOperator "(" = true := rfl
  obtain ⟨hfound, hcalled, -⟩ := call_begins_at (fun f => fieldObservations f.source.length f)
    [⟨.name, "return", ⟨1, 0⟩⟩, ⟨.name, "np", ⟨1, 7⟩⟩, ⟨.operator, ".", ⟨1, 9⟩⟩,
      ⟨.name, "linalg", ⟨1, 10⟩⟩, ⟨.operator, ".", ⟨1, 16⟩⟩, ⟨.name, "norm", ⟨1, 17⟩⟩]
    [⟨.name, "v", ⟨1, 22⟩⟩, ⟨.operator, ")", ⟨1, 23⟩⟩] hopening
  have htarget := (hfound [⟨.name, "np", ⟨1, 7⟩⟩, ⟨.name, "linalg", ⟨1, 10⟩⟩,
    ⟨.name, "norm", ⟨1, 17⟩⟩]).1 (by decide)
  obtain ⟨-, -, first, others, hnames, -, hobserved⟩ := hcalled _ htarget
  obtain ⟨rfl, rfl⟩ := List.cons.inj hnames
  refine ⟨htarget, ?_⟩
  rw [observeTokens]
  exact hobserved ▸ List.mem_append_right _ List.mem_cons_self

end ScriptSandbox
