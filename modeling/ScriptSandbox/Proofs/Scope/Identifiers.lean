import ScriptSandbox.Proofs.Scope.Protection
import ScriptSandbox.Proofs.Source.StringBodies
import ScriptSandbox.Proofs.Source.Words

/-!
Identifiers. The names that a scope accepts and the names that scripts are read with are recognised
apart from each other: by a test of all characters of a name, and by reading a script up to where a
word ends. Both recognise the same texts, so a script that is just one of the kept names is read as
that name.
-/

namespace ScriptSandbox

open Lexeme

/-! ### Scripts of one word -/

section

variable {c : Char} {rest : List Char}

theorem classify_word (lenient : Bool) (p : Position) (hstart : Text.isWordStart c = true)
    (hparts : ∀ d ∈ rest, Text.isWordPart d = true) :
    classify lenient p c rest = (.name, rest.length) := by
  have htake : rest.takeWhile Text.isWordPart = rest := List.takeWhile_eq_self_iff.2 hparts
  rw [(isLetter_of_isWordStart hstart).classify_eq, classifyWord]
  dsimp only
  rw [htake, List.drop_length]

theorem split_word (lenient : Bool) (p : Position) (hstart : Text.isWordStart c = true)
    (hparts : ∀ d ∈ rest, Text.isWordPart d = true) :
    split lenient p [] (c :: rest) = [⟨.name, c :: rest, p⟩] := by
  rw [split_cons, classify_word lenient p hstart hparts, List.take_length, List.drop_length, split]
  rfl

end

def nameTokens (name : String) : List Token :=
  let stop := Position.start.after name.toList
  [⟨.name, name, .start⟩, ⟨.newline, "\n", stop⟩, ⟨.endMarker, "", stop⟩]

theorem tokenize_word {name : String} (h : Text.isWord name = true) :
    tokenize name = .ok (nameTokens name) := by
  obtain ⟨c, rest, hname, hstart, hparts⟩ := Text.isWord_iff.1 h
  have htext : String.ofList (c :: rest) = name := by rw [← hname, String.ofList_toList]
  rw [tokenize, nameTokens, hname, split_word false .start hstart hparts, ← htext]
  rfl

theorem isWord_of_mem_tokenize {source : String} {tokens : List Token} {t : Token}
    (h : tokenize source = .ok tokens) (ht : t ∈ tokens) (hname : t.kind = .name) :
    Text.isWord t.text = true := by
  have hwritten : t.isWritten = true := by rw [Token.isWritten, hname]
  obtain ⟨l, hl, htoken⟩ := exists_lexeme_of_tokenize h ht hwritten
  obtain ⟨_, _, -, -, hshape⟩ := (lexed_scriptLexemes source).shape_of_mem hl
  rw [kind_of_name_token htoken hname] at hshape
  rw [(token?_eq_some htoken).1, Text.isWord_iff]
  generalize l.text = text at hshape
  cases hshape with
  | name hstart hparts => exact ⟨_, _, String.toList_ofList, hstart, hparts⟩

theorem Policy.isWord_of_mem_scope {p : Policy} {globals : JsonObject} {name : String}
    (h : name ∈ (p.scope globals).globals.names) :
    Text.isWord name = true ∧ isKeyword name = false := by
  rw [scope, JsonObject.names_filter, List.mem_filter, Option.isNone_iff_eq_none,
    rejection?_eq_none_iff] at h
  exact ⟨h.2.1, h.2.2.1⟩

/-- A key is an identifier exactly if a script that is just this key is read and begins with the whole
of it as a name. So whatever name a scope keeps is read as one name, and not as a keyword. -/
theorem identifiers_agree :
    (∀ key, Text.isWord key = true ↔ ∃ tokens, tokenize key = .ok tokens ∧
      ∃ t, tokens.head? = some t ∧ t.kind = .name ∧ t.text = key) ∧
    ∀ (p : Policy) (globals : JsonObject), ∀ name ∈ (p.scope globals).globals.names,
      tokenize name = .ok (nameTokens name) ∧ isKeyword name = false := by
  refine ⟨fun key => ⟨fun hword => ?_, ?_⟩, fun p globals name hmem => ?_⟩
  · exact ⟨_, tokenize_word hword, _, rfl, rfl, rfl⟩
  · rintro ⟨tokens, htokens, t, hhead, hname, rfl⟩
    exact isWord_of_mem_tokenize htokens (List.mem_of_mem_head? hhead) hname
  · obtain ⟨hword, hkeyword⟩ := Policy.isWord_of_mem_scope hmem
    exact ⟨tokenize_word hword, hkeyword⟩

theorem identifiers_agree_on_kept_global :
    let policy := Policy.ofTables ⟨[], [], [], [], [], ["len"]⟩
    let number : NormalJson := ⟨.number (.integer 1), .number _⟩
    let globals := ((((JsonObject.empty.insert "len" number).insert "rb" number).insert "class"
      number).insert "größe_2" number).insert "2x" number
    (policy.scope globals).globals.names = ["größe_2", "rb"] ∧
      tokenize "rb" = .ok (nameTokens "rb") ∧ isKeyword "rb" = false := by
  intro policy number globals
  have hnames : (policy.scope globals).globals.names = ["größe_2", "rb"] := by decide +kernel
  exact ⟨hnames, identifiers_agree.2 policy globals "rb" (by simp [hnames])⟩

end ScriptSandbox
