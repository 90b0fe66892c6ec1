import ScriptSandbox.Proofs.Source.Placing
import ScriptSandbox.Proofs.Source.Rereading
import ScriptSandbox.Source.Layout

/-!
Scripts that begin further down. What is read from a text does not depend on the line that the text
begins on: the lexemes, the tokens of fragments and the statements are the same, each as many lines
further down.
-/

namespace ScriptSandbox

def Position.down (k : Nat) (p : Position) : Position :=
  ⟨p.line + k, p.column⟩

def Field.down (k : Nat) (f : Field) : Field :=
  ⟨f.source, f.position.down k⟩

namespace Position

@[simp] theorem down_next (k : Nat) (p : Position) (c : Char) :
    (p.down k).next c = (p.next c).down k := by
  unfold next down
  split
  · simp [Nat.add_right_comm]
  · rfl

@[simp] theorem down_after (k : Nat) (p : Position) (text : List Char) :
    (p.down k).after text = (p.after text).down k := by
  induction text generalizing p with
  | nil => rfl
  | cons c rest ih => simp [ih]

theorem correspondence_down (k : Nat) : Correspondence fun p q => q = p.down k where
  next := by
    rintro p _ rfl c
    exact down_next k p c
  margin := by
    rintro p _ rfl
    rfl

end Position

theorem Field.Like.eq_down {R : Position → Position → Prop} {k : Nat}
    (hR : ∀ p q, R p q → q = p.down k) {f g : Field} (h : Field.Like R f g) : g = f.down k := by
  obtain ⟨source, place⟩ := g
  obtain ⟨rfl, hplace⟩ := h
  rw [Field.down, ← hR _ _ hplace]

/-! ### Lexemes -/

def LexemeKind.down (k : Nat) : LexemeKind → LexemeKind
  | .string fields => .string (fields.map (Field.down k))
  | kind => kind

namespace Lexeme

def down (k : Nat) (l : Lexeme) : Lexeme :=
  ⟨l.kind.down k, l.text, l.position.down k⟩

theorem Like.eq_down {R : Position → Position → Prop} {k : Nat} (hR : ∀ p q, R p q → q = p.down k)
    {l m : Lexeme} (h : Like R l m) : m = l.down k := by
  obtain ⟨kind, text, place⟩ := l
  obtain ⟨kind', text', place'⟩ := m
  obtain ⟨hkind, rfl, hplace⟩ := h
  dsimp only at hkind hplace
  rw [hR _ _ hplace]
  cases hkind with
  | string hfields =>
      rw [eq_map_of_forall₂ hfields fun _ _ h => h.eq_down hR]
      rfl
  | other hnone =>
      cases kind with
      | string fields => exact absurd rfl (hnone fields)
      | _ => rfl

@[simp] theorem split_down (k : Nat) (lenient : Bool) (p : Position) (text : List Char) :
    split lenient (p.down k) [] text = (split lenient p [] text).map (Lexeme.down k) := by
  have hlike := split_like (Position.correspondence_down k) lenient (p := p) rfl text
  exact eq_map_of_forall₂ hlike fun _ _ h => h.eq_down fun _ _ => id

end Lexeme

/-! ### Tokens -/

def TokenKind.down (k : Nat) : TokenKind → TokenKind
  | .string fields => .string (fields.map (Field.down k))
  | kind => kind

def Token.down (k : Nat) (t : Token) : Token :=
  ⟨t.kind.down k, t.text, t.position.down k⟩

@[simp] theorem Lexeme.token?_down (k : Nat) (l : Lexeme) :
    (l.down k).token? = l.token?.map (Token.down k) := by
  unfold token? Lexeme.down
  cases l.kind <;> rfl

def Lexeme.isBroken (l : Lexeme) : Bool :=
  match l.kind with
  | .broken _ => true
  | _ => false

@[simp] theorem Lexeme.isBroken_down (k : Nat) (l : Lexeme) : (l.down k).isBroken = l.isBroken := by
  unfold isBroken Lexeme.down
  cases l.kind <;> rfl

theorem tokenizeFragment_eq (source : String) (p : Position) : tokenizeFragment source p =
    if (Lexeme.split true p [] source.toList).any Lexeme.isBroken then []
    else (Lexeme.split true p [] source.toList).filterMap Lexeme.token? ++
      [⟨.endMarker, "", p.after source.toList⟩] :=
  rfl

@[simp] theorem tokenizeFragment_down (k : Nat) (source : String) (p : Position) :
    tokenizeFragment source (p.down k) = (tokenizeFragment source p).map (Token.down k) := by
  have hbroken : (Lexeme.isBroken ∘ Lexeme.down k) = Lexeme.isBroken :=
    funext (Lexeme.isBroken_down k)
  have htoken : (Lexeme.token? ∘ Lexeme.down k) = fun l => l.token?.map (Token.down k) :=
    funext (Lexeme.token?_down k)
  rw [tokenizeFragment_eq, tokenizeFragment_eq, Lexeme.split_down, List.any_map, hbroken,
    List.filterMap_map, htoken, Position.down_after]
  split
  · rfl
  · rw [List.map_append, List.map_filterMap]
    rfl

/-! ### Statements -/

def Statement.down (k : Nat) : Statement → Statement
  | .line form p tokens => .line form (p.down k) (tokens.map (Token.down k))
  | .block keyword p header body =>
      .block keyword (p.down k) (header.map (Token.down k)) (body.map (Statement.down k))

namespace Token

variable {k : Nat} {t : Token}

@[simp] theorem text_down : (t.down k).text = t.text := rfl

@[simp] theorem position_down : (t.down k).position = t.position.down k := rfl

@[simp] theorem kind_down : (t.down k).kind = t.kind.down k := rfl

theorem kind_down_eq_iff {kind : TokenKind} (h : ∀ fields, kind ≠ .string fields) :
    (t.down k).kind = kind ↔ t.kind = kind := by
  rw [kind_down]
  cases t.kind with
  | string fields => simp [TokenKind.down, (h _).symm]
  | _ => rfl

@[simp] theorem isOperator_down (text : String) :
    (t.down k).isOperator text = t.isOperator text := by
  unfold isOperator Token.down
  cases t.kind <;> rfl

@[simp] theorem isWord_down (text : String) : (t.down k).isWord text = t.isWord text := by
  unfold isWord Token.down
  cases t.kind <;> rfl

@[simp] theorem isIdentifier_down : (t.down k).isIdentifier = t.isIdentifier := by
  unfold isIdentifier Token.down
  cases t.kind <;> rfl

end Token

/-! ### Reading again -/

def TokenChange.down (k : Nat) : TokenChange where
  token := Token.down k
  place := Position.down k
  position_eq _ := rfl
  kind_iff _ _ h := Token.kind_down_eq_iff h
  isOperator_eq _ text := Token.isOperator_down text
  isIdentifier_eq _ := Token.isIdentifier_down
  isWord_eq _ text _ := Token.isWord_down text

def Rereading.down (k : Nat) : Rereading where
  toTokenChange := .down k
  form old _ := old
  lineForm_eq := by
    intro first rest old h
    obtain ⟨form, hform, hsame⟩ := (TokenChange.down k).lineForm_map h
    rw [hform, hsame fun _ => rfl]

theorem Statement.down_eq (k : Nat) (s : Statement) : s.down k = (Rereading.down k).statement s := by
  cases s with
  | line form p tokens => rw [down, Rereading.statement]; rfl
  | block keyword p header body =>
      rw [down, Rereading.statement, List.map_congr_left fun s _ => down_eq k s]
      rfl

theorem nest_down (k : Nat) (above : List Statement) {tokens : List Token} {body : List Statement}
    (h : parse tokens = .ok body) :
    nest ⟨[], above⟩ (tokens.map (Token.down k)) =
      .ok (above.reverse ++ body.map (Statement.down k)) := by
  rw [show Statement.down k = (Rereading.down k).statement from funext (Statement.down_eq k)]
  exact (Rereading.down k).nest_map above h fun _ _ _ _ _ _ => rfl

end ScriptSandbox
