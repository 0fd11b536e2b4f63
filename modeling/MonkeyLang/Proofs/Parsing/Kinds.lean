import MonkeyLang.Program.Parser
import MonkeyLang.Proofs.Parsing.Grammar

/-!
# What is left to read

The kinds of the tokens that are left, how the parser's steps on single tokens change them, and how
binding powers go with the layers of the grammar.

An expression that is read with the binding power `min` is one of the layer `min.layer`. An
expression of the layer `l` may be followed by any token that binds at most as tightly as `l.follow`
says; a tighter one would have been taken by the expression itself.
-/

namespace MonkeyLang

/-- How tightly a token binds the expression before it; zero if it does not go on with it. -/
def TokenKind.binding (k : TokenKind) : Nat :=
  match Extension.ofToken? k with
  | some x => x.precedence.rank
  | none => 0

/-- The token that a prefix operator is written with. -/
def UnaryOp.token : UnaryOp → TokenKind
  | .not => .bang
  | .neg => .minus

/-- The layer of the expressions that are read with a binding power. -/
def Precedence.layer : Precedence → Grammar.Layer
  | .lowest => .assignment
  | .assign => .equality
  | .equals => .order
  | .lessGreater => .sum
  | .sum => .product
  | .product | .unary | .call | .index => .unary

namespace Extension

/-- The layer of the expressions that an extension makes. -/
def layer : Extension → Grammar.Layer
  | .assign => .assignment
  | .binary .eq | .binary .notEq => .equality
  | .binary .lt | .binary .gt => .order
  | .binary .add | .binary .sub => .sum
  | .binary .mul | .binary .div => .product
  | .call | .index => .suffix

/-- The layer of the expressions that an extension goes on with. -/
def target : Extension → Grammar.Layer
  | .assign => .equality
  | x => x.layer

variable {k : TokenKind}

theorem ofToken?_eq_call_iff : ofToken? k = some .call ↔ k = .lparen := by
  cases k <;> simp [ofToken?]

theorem ofToken?_eq_index_iff : ofToken? k = some .index ↔ k = .lbracket := by
  cases k <;> simp [ofToken?]

theorem ofToken?_eq_assign_iff : ofToken? k = some .assign ↔ k = .assign := by
  cases k <;> simp [ofToken?]

end Extension

namespace Grammar

/-- The places of the layers in their order. -/
def Layer.rank : Layer → Nat
  | .assignment => 0
  | .equality => 1
  | .order => 2
  | .sum => 3
  | .product => 4
  | .unary => 5
  | .suffix => 6

/-- How tightly a token may bind that follows an expression of the layer and is not part of it. -/
def Layer.follow : Layer → Nat
  | .assignment => 0
  | .equality => 2
  | .order => 3
  | .sum => 4
  | .product => 5
  | .unary => 6
  | .suffix => 8

/-- An expression of a layer is one of every looser layer. -/
theorem Expression.loosen {l l' : Layer} {ks : List TokenKind} {e : Expr}
    (h : Expression l' ks e) (hl : l.rank ≤ l'.rank) : Expression l ks e := by
  -- Down from `l'` one layer at a time; `d` is the number of layers that are left.
  obtain ⟨d, hd⟩ := Nat.exists_eq_add_of_le hl
  induction d generalizing l with
  | zero =>
    have : l = l' := by cases l <;> cases l' <;> simp [Layer.rank] at hd ⊢
    exact this ▸ h
  | succ d ih =>
    have hr : l.tighter.rank = l.rank + 1 := by
      cases l <;> first | rfl | (cases l' <;> simp [Layer.rank] at hd <;> omega)
    exact .tighter (ih (by omega) (by omega))

/-- The tokens that go on with an expression are those that bind it. -/
theorem continues_eq_false_iff (k : TokenKind) : continues k = false ↔ k.binding = 0 := by
  cases k <;> simp [continues, TokenKind.binding, Extension.ofToken?, Extension.precedence,
    Precedence.rank]

/-- A token that may follow an expression of the layer `l`, but is not part of it, goes on with
expressions of that layer. -/
theorem target_rank_le {l : Layer} {x : Extension} (h : x.precedence.rank ≤ l.follow) :
    x.target.rank ≤ l.rank := by
  cases x with
  | binary op =>
    cases op <;> cases l <;>
      simp_all [Extension.precedence, Precedence.rank, Extension.target, Extension.layer,
        Layer.rank, Layer.follow]
  | _ =>
    cases l <;>
      simp_all [Extension.precedence, Precedence.rank, Extension.target, Extension.layer,
        Layer.rank, Layer.follow]

/-- An extension that binds more tightly than `min` makes expressions of the layer of `min`. -/
theorem layer_rank_le {min : Precedence} {x : Extension} (h : min.rank < x.precedence.rank) :
    min.layer.rank ≤ x.layer.rank := by
  cases x with
  | binary op =>
    cases op <;> cases min <;>
      simp_all [Extension.precedence, Precedence.rank, Precedence.layer, Extension.layer,
        Layer.rank]
  | _ =>
    cases min <;>
      simp_all [Extension.precedence, Precedence.rank, Precedence.layer, Extension.layer,
        Layer.rank]

/-- The right operand of an infix operator is of the layer next to that of the operator. -/
theorem precedence_layer_binary (op : BinaryOp) :
    (Extension.binary op).precedence.layer = (Extension.binary op).layer.tighter := by
  cases op <;> rfl

/-- After the right operand comes what may follow the whole. -/
theorem precedence_rank_binary (op : BinaryOp) :
    (Extension.binary op).precedence.rank = (Extension.binary op).layer.follow := by
  cases op <;> rfl

/-- The infix operators are those of their layers. -/
theorem operator?_eq_some_iff {l : Layer} {k : TokenKind} {op : BinaryOp} :
    l.operator? k = some op ↔
      Extension.ofToken? k = some (.binary op) ∧ l = (Extension.binary op).layer := by
  constructor
  · intro h
    cases k with
    | eqEq | notEq | lt | gt | plus | minus | star | slash =>
      cases l <;> simp [Layer.operator?] at h
      subst h
      exact ⟨rfl, rfl⟩
    | _ => cases l <;> simp [Layer.operator?] at h
  · rintro ⟨h, rfl⟩
    cases k <;> simp [Extension.ofToken?] at h <;> subst h <;> rfl

/-- No token binds more tightly than one that may follow an atom. -/
theorem binding_le_follow_suffix (k : TokenKind) : k.binding ≤ Layer.suffix.follow := by
  cases k <;> simp [TokenKind.binding, Extension.ofToken?, Extension.precedence, Precedence.rank,
    Layer.follow]

/-- No binding power asks for a tighter layer than that of the prefix operators. -/
theorem layer_rank_le_unary (min : Precedence) : min.layer.rank ≤ Layer.unary.rank := by
  cases min <;> simp [Precedence.layer, Layer.rank]

end Grammar

namespace Parser

/-- The kinds of the tokens that have not been consumed. -/
def State.kinds (s : State) : List TokenKind := s.cursor.rest.map (·.kind)

namespace State

variable {s : State} {k : TokenKind} {ks : List TokenKind}

theorem kind_eq_headD (s : State) : s.kind = s.kinds.headD .eof := by
  obtain ⟨⟨position, previous, rest⟩, errors⟩ := s
  cases rest <;> rfl

theorem kind_eq_of_kinds (h : s.kinds = k :: ks) : s.kind = k := by
  rw [kind_eq_headD, h, List.headD_cons]

/-- The current token is the first of those that are left. -/
theorem rest_eq_cons (h : s.kind ≠ .eof) :
    s.cursor.rest = s.cursor.current :: s.advance.cursor.rest := by
  obtain ⟨⟨position, previous, rest⟩, errors⟩ := s
  cases rest with
  | nil => exact absurd rfl h
  | cons c cs =>
    have hc : (c.kind == .eof) = false := by
      simpa [State.kind, Cursor.kind, Cursor.current] using h
    simp [State.advance, Cursor.advance, Cursor.current, hc]

theorem kinds_eq_cons (h : s.kind = k) (hk : k ≠ .eof) : s.kinds = k :: s.advance.kinds := by
  subst h
  rw [kinds, rest_eq_cons hk]
  rfl

theorem kinds_advance (h : s.kinds = k :: ks) (hk : k ≠ .eof := by decide) :
    s.advance.kinds = ks := by
  have := kinds_eq_cons (kind_eq_of_kinds h) hk
  rw [h] at this
  exact (List.cons.inj this).2.symm

end State

end Parser

end MonkeyLang
