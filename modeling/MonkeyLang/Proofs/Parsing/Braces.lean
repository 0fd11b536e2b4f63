import MonkeyLang.Proofs.Parsing.Kinds
import MonkeyLang.Proofs.Parsing.Plan
import MonkeyLang.Proofs.Parsing.Progress

/-!
# Braces and broken statements

A block that is read ends with a closing brace. Whether that is the brace that matches its own opening
brace depends on the statements that had to be skipped. Skipping counts the braces from the place of
the error on. So it does not see a brace that the broken statement has consumed before, and takes the
brace that closes it for the one that closes the block. The only production that consumes an opening
brace and can fail while it is open is a hash literal.

Hence a block never closes more braces than it opens, and its braces match if and only if no hash
literal has failed on the way. This is proved for all productions at once: the number of braces that
a production leaves open is not zero if and only if a hash literal has failed while it was read
(`Outcome.Nests`). At the end of the input nothing can be said, since there skipping stops inside of
braces, too; but no block ends there.

## Main statements

* `braces_of_block` : when the braces of a block match.
* `not_balanced_of_hash_broken` : a block that is closed by the brace of a hash literal.
-/

namespace MonkeyLang

/-- The token is no brace and not the end of the input. -/
def TokenKind.isPlain : TokenKind → Bool
  | .lbrace | .rbrace | .eof => false
  | _ => true

namespace Parser

variable {α β : Type}

/-! ### Depth -/

/-- How many braces are open behind the given tokens, when `depth` are open before them. There is no
answer if a brace is closed that has not been opened. -/
def depthAfter (depth : Nat) : List TokenKind → Option Nat
  | [] => some depth
  | .lbrace :: ks => depthAfter (depth + 1) ks
  | .rbrace :: ks =>
    match depth with
    | 0 => none
    | depth + 1 => depthAfter depth ks
  | _ :: ks => depthAfter depth ks

/-- The tokens open `d` braces that they do not close, and close none that they do not open. -/
def Opens (d : Nat) (ks : List TokenKind) : Prop := depthAfter 0 ks = some d

/-- The braces in the tokens match. -/
def Balanced (ks : List TokenKind) : Prop := Opens 0 ks

instance (d : Nat) (ks : List TokenKind) : Decidable (Opens d ks) :=
  inferInstanceAs (Decidable (_ = _))

instance (ks : List TokenKind) : Decidable (Balanced ks) := inferInstanceAs (Decidable (Opens _ _))

theorem depthAfter_cons_of_isPlain {k : TokenKind} (h : k.isPlain = true) (d : Nat)
    (ks : List TokenKind) : depthAfter d (k :: ks) = depthAfter d ks := by
  cases k <;> first | rfl | simp [TokenKind.isPlain] at h

theorem depthAfter_append (d : Nat) (ks ls : List TokenKind) :
    depthAfter d (ks ++ ls) = (depthAfter d ks).bind fun e => depthAfter e ls := by
  induction ks generalizing d with
  | nil => rfl
  | cons k ks ih =>
    cases k with
    | rbrace =>
      cases d with
      | zero => rfl
      | succ d => exact ih d
    | lbrace => exact ih (d + 1)
    | _ => exact ih d

/-- Braces that are open all along do not matter. -/
theorem depthAfter_add {d e : Nat} {ks : List TokenKind} (h : depthAfter d ks = some e) (c : Nat) :
    depthAfter (d + c) ks = some (e + c) := by
  induction ks generalizing d with
  | nil =>
    obtain rfl : d = e := by simpa [depthAfter] using h
    rfl
  | cons k ks ih =>
    cases k with
    | lbrace =>
      have := ih (d := d + 1) h
      rwa [Nat.add_right_comm] at this
    | rbrace =>
      cases d with
      | zero => simp [depthAfter] at h
      | succ d =>
        rw [Nat.add_right_comm]
        exact ih (d := d) h
    | _ => exact ih (d := d) h

namespace Opens

variable {d e : Nat} {ks ls : List TokenKind}

theorem nil : Opens 0 [] := rfl

theorem append (h : Opens d ks) (h' : Opens e ls) : Opens (d + e) (ks ++ ls) := by
  have := depthAfter_add h' d
  rw [Nat.zero_add, Nat.add_comm] at this
  rw [Opens, depthAfter_append, h]
  exact this

/-- A closing brace closes one of those that are open. -/
theorem close (h : Opens (d + 1) ks) : Opens d (ks ++ [.rbrace]) := by
  rw [Opens, depthAfter_append, h]
  rfl

theorem single {k : TokenKind} (h : k.isPlain = true) : Opens 0 [k] := by
  rw [Opens, depthAfter_cons_of_isPlain h]
  rfl

end Opens

/-! ### From one state to the next -/

/-- `s'` is reached from `s` by consuming tokens that leave `d` braces open. -/
def State.Leaves (d : Nat) (s s' : State) : Prop :=
  ∃ ks, s.kinds = ks ++ s'.kinds ∧ s'.cursor.position = s.cursor.position + ks.length ∧
    .eof ∉ ks ∧ Opens d ks

namespace State

variable {d e : Nat} {s s' s'' : State} {k : TokenKind}

theorem position_advance (h : s.kind ≠ .eof) :
    s.advance.cursor.position = s.cursor.position + 1 := by
  obtain ⟨⟨position, previous, rest⟩, errors⟩ := s
  cases rest with
  | nil => exact absurd rfl h
  | cons t ts =>
    have : (t.kind == .eof) = false := by simpa [kind, Cursor.kind, Cursor.current] using h
    simp [advance, Cursor.advance, this]

theorem expect_of_kind (h : s.kind = k) : s.expect k = .done s.span s.advance := by
  rw [expect, if_pos (by simpa using h)]

theorem expect_of_ne (h : s.kind ≠ k) :
    s.expect k = .failed (.unexpected s.cursor k.displayName) s := by
  rw [expect, if_neg (by simpa using h)]

theorem kind_ne_eof_of_isPlain (h : s.kind.isPlain = true) : s.kind ≠ .eof := by
  rintro he
  simp [he, TokenKind.isPlain] at h

namespace Leaves

theorem refl (s : State) : Leaves 0 s s := ⟨[], rfl, rfl, List.not_mem_nil, .nil⟩

theorem trans (h : Leaves d s s') (h' : Leaves e s' s'') : Leaves (d + e) s s'' := by
  obtain ⟨ks, hk, hp, he, ho⟩ := h
  obtain ⟨ls, hk', hp', he', ho'⟩ := h'
  refine ⟨ks ++ ls, by rw [hk, hk', List.append_assoc], ?_, ?_, ho.append ho'⟩
  · rw [hp', hp, List.length_append, Nat.add_assoc]
  · simpa only [List.mem_append, not_or] using ⟨he, he'⟩

/-- What is consumed stands before the end of the input. -/
theorem kind_ne_eof (h : Leaves d s s') (hs : s'.kind ≠ .eof) : s.kind ≠ .eof := by
  obtain ⟨ks, hk, -, he, -⟩ := h
  cases ks with
  | nil =>
    rw [kind_eq_headD] at hs ⊢
    rwa [hk]
  | cons k ks =>
    rw [kind_eq_of_kinds hk]
    rintro rfl
    exact he List.mem_cons_self

theorem position_le (h : Leaves d s s') : s.cursor.position ≤ s'.cursor.position := by
  obtain ⟨ks, -, hp, -⟩ := h
  omega

theorem single (h : s.kind = k) (hk : k ≠ .eof) (ho : Opens d [k]) : Leaves d s s.advance :=
  ⟨[k], kinds_eq_cons h hk, position_advance (h ▸ hk), by simpa using hk.symm, ho⟩

theorem advance (h : s.kind.isPlain = true) : Leaves 0 s s.advance :=
  single rfl (kind_ne_eof_of_isPlain h) (.single h)

/-- A closing brace that is consumed closes one of those that have been opened. -/
theorem close (h : Leaves (d + 1) s s') (hs : s'.kind = .rbrace) : Leaves d s s'.advance := by
  obtain ⟨ks, hk, hp, he, ho⟩ := h
  refine ⟨ks ++ [.rbrace], ?_, ?_, by simpa using he, ho.close⟩
  · rw [hk, kinds_eq_cons hs (by decide), List.append_assoc, List.singleton_append]
  · rw [position_advance (by simp [hs]), hp, List.length_append, Nat.add_assoc]
    rfl

theorem skipOne (s : State) (hk : k.isPlain = true) : Leaves 0 s (s.skipOne k) := by
  unfold State.skipOne
  split
  next h => exact advance (by rwa [eq_of_beq h])
  next => exact refl s

end Leaves

end State

/-! ### Skipping -/

/-- The cursor `c` stands where skipping may end that begins at `position`, at the front of `ts` and
`d` braces deep: outside these braces and all that it has opened, or at the end of the input. -/
def Skips (d position : Nat) (ts : List Token) (c : Cursor) : Prop :=
  ∃ ks e, ts.map (·.kind) = ks ++ c.rest.map (·.kind) ∧ c.position = position + ks.length ∧
    .eof ∉ ks ∧ depthAfter d ks = some e ∧ (c.kind ≠ .eof → e = 0)

namespace Skips

variable {d d' position : Nat} {t : Token} {ts : List Token} {c : Cursor}

theorem here (hr : c.rest = ts) (hp : c.position = position) (hc : c.kind ≠ .eof → d = 0) :
    Skips d position ts c :=
  ⟨[], d, by rw [hr, List.nil_append], hp, List.not_mem_nil, rfl, hc⟩

theorem cons (hk : t.kind ≠ .eof) (hd : ∀ ks, depthAfter d (t.kind :: ks) = depthAfter d' ks)
    (h : Skips d' (position + 1) ts c) : Skips d position (t :: ts) c := by
  obtain ⟨ks, e, hr, hp, he, ho, hz⟩ := h
  refine ⟨t.kind :: ks, e, by rw [List.map_cons, hr, List.cons_append], ?_, ?_, ?_, hz⟩
  · rw [hp, List.length_cons]
    omega
  · simpa using ⟨hk.symm, he⟩
  · rw [hd, ho]

end Skips

theorem resume_skips (d position : Nat) (previous : Span) (ts : List Token) :
    Skips d position ts (resume .block d position previous ts) := by
  induction ts generalizing d position previous with
  | nil => exact .here rfl rfl fun h => absurd rfl h
  | cons t ts ih =>
    unfold resume
    split
    next h => exact .here rfl rfl fun hc => absurd h hc
    next h => exact .cons (by simp [h]) (fun ks => by rw [h]; rfl) (.here rfl rfl fun _ => rfl)
    next => exact .here rfl rfl fun _ => rfl
    next => exact .here rfl rfl fun _ => rfl
    next => exact .here rfl rfl fun _ => rfl
    next h => exact .cons (by simp [h]) (fun ks => by rw [h]; rfl) (ih ..)
    next h => exact .cons (by simp [h]) (fun ks => by rw [h]; rfl) (ih ..)
    next => exact .here rfl rfl fun _ => rfl
    next d _ _ notEof notOpen _ _ _ _ notClose notClose₀ =>
      have plain : t.kind.isPlain = true := by
        unfold TokenKind.isPlain
        split
        next h => exact (notOpen h).elim
        next h =>
          cases d with
          | zero => exact (notClose₀ h rfl).elim
          | succ d => exact (notClose d h rfl).elim
        next h => exact (notEof h).elim
        next => rfl
      exact .cons notEof (fun ks => depthAfter_cons_of_isPlain plain _ ks) (ih ..)

/-- Recovery inside a block closes the braces that it opens, unless it comes to the end of the
input. If the broken statement has not consumed anything, its first token is consumed here, which must
not be a brace then. -/
theorem State.exists_leaves_recover {s : State} {start : Nat}
    (h : s.cursor.position = start → s.kind.isPlain = true) :
    ∃ e, s.Leaves e (s.recover .block start) ∧ ((s.recover .block start).kind ≠ .eof → e = 0) := by
  have skip (s : State) (c : Cursor)
      (hc : Skips 0 s.cursor.position s.cursor.rest c) :
      ∃ e, s.Leaves e ⟨c, s.errors⟩ ∧ (c.kind ≠ .eof → e = 0) := by
    obtain ⟨ks, e, hr, hp, he, ho, hz⟩ := hc
    exact ⟨e, ⟨ks, hr, hp, he, ho⟩, hz⟩
  unfold State.recover
  by_cases stuck : s.cursor.position = start
  · rw [if_pos stuck]
    obtain ⟨e, hl, hz⟩ := skip s.advance _ (resume_skips ..)
    exact ⟨0 + e, (State.Leaves.advance (h stuck)).trans hl, by rwa [Nat.zero_add]⟩
  · rw [if_neg stuck]
    exact skip s _ (resume_skips ..)

/-! ### What a production leaves open -/

/-- Reading has consumed tokens from `s` on, of which braces are left open if and only if `broken`
holds, unless it has come to the end of the input. -/
def Outcome.Nests (s : State) (broken : Prop) : Outcome α → Prop
  | .done _ s' | .failed _ s' => ∃ d, s.Leaves d s' ∧ (s'.kind ≠ .eof → (d ≠ 0 ↔ broken))
  | .outOfFuel => True

namespace Outcome.Nests

variable {o : Outcome α} {s s' : State} {d : Nat} {p q : Prop}

theorem refl_done (r : α) (s : State) : (Outcome.done r s).Nests s False :=
  ⟨0, .refl s, fun _ => by simp⟩

theorem refl_failed (e : ParseError) (s : State) : (Outcome.failed e s : Outcome α).Nests s False :=
  ⟨0, .refl s, fun _ => by simp⟩

/-- What is read after other tokens. -/
theorem trans (h : s.Leaves d s') (hd : s'.kind ≠ .eof → (d ≠ 0 ↔ p)) (ho : o.Nests s' q) :
    o.Nests s (p ∨ q) := by
  have join {s'' : State} (h'' : ∃ e, s'.Leaves e s'' ∧ (s''.kind ≠ .eof → (e ≠ 0 ↔ q))) :
      ∃ e, s.Leaves e s'' ∧ (s''.kind ≠ .eof → (e ≠ 0 ↔ p ∨ q)) := by
    obtain ⟨e, hl, he⟩ := h''
    refine ⟨d + e, h.trans hl, fun hs => ?_⟩
    rw [← hd (hl.kind_ne_eof hs), ← he hs]
    omega
  cases o with
  | done r s'' => exact join ho
  | failed e s'' => exact join ho
  | outOfFuel => trivial

/-- Tokens without braces do not matter. -/
theorem after (h : s.Leaves 0 s') (ho : o.Nests s' p) : o.Nests s p := by
  simpa using ho.trans (p := False) h fun _ => by simp

theorem within (c : Construct) (h : o.Nests s p) : (o.within c).Nests s p := by
  cases o <;> exact h

theorem inside (c : Option Construct) (h : o.Nests s p) : (o.inside c).Nests s p := by
  cases c with
  | none => exact h
  | some c => exact h.within c

theorem expect {k : TokenKind} (hk : k.isPlain = true) : (s.expect k).Nests s False := by
  unfold State.expect
  split
  next h => exact (refl_done _ _).after (.advance (by rwa [eq_of_beq h]))
  next => exact refl_failed _ s

theorem expectIdent : s.expectIdent.Nests s False := by
  unfold State.expectIdent
  split
  next h => exact (refl_done _ _).after (.advance (by rw [h]; rfl))
  next => exact refl_failed _ s

end Outcome.Nests

/-- Reading has consumed at least `k` tokens from `s` on. -/
def Outcome.Moves (k : Nat) (s : State) : Outcome α → Prop
  | .done _ s' | .failed _ s' => s.cursor.position + k ≤ s'.cursor.position
  | .outOfFuel => True

namespace Outcome.Moves

variable {o : Outcome α} {s : State} {k : Nat} {p : Prop}

theorem of_nests (h : o.Nests s p) : o.Moves 0 s := by
  cases o with
  | done r s' =>
    obtain ⟨d, hl, -⟩ := h
    exact hl.position_le
  | failed e s' =>
    obtain ⟨d, hl, -⟩ := h
    exact hl.position_le
  | outOfFuel => trivial

theorem within (c : Construct) (h : o.Moves k s) : (o.within c).Moves k s := by
  cases o <;> exact h

theorem andThen {next : α → State → Outcome β} (h : o.Moves k s)
    (hn : ∀ r s', (next r s').Moves 0 s') : (o.andThen next).Moves k s := by
  cases o with
  | done r s' =>
    have hn := hn r s'
    show (next r s').Moves k s
    cases hr : next r s' with
    | done x s'' => rw [hr] at hn; exact Nat.le_trans h hn
    | failed e s'' => rw [hr] at hn; exact Nat.le_trans h hn
    | outOfFuel => trivial
  | failed e s' => exact h
  | outOfFuel => trivial

theorem after_advance (hs : s.kind ≠ .eof) (h : o.Moves 0 s.advance) : o.Moves 1 s := by
  have hp := State.position_advance hs
  cases o with
  | done r s' => rwa [Outcome.Moves, hp] at h
  | failed e s' => rwa [Outcome.Moves, hp] at h
  | outOfFuel => trivial

theorem expect {k : TokenKind} (hk : k ≠ .eof) : (s.expect k).Moves 0 s := by
  by_cases h : s.kind = k
  · rw [State.expect_of_kind h]
    show s.cursor.position ≤ s.advance.cursor.position
    rw [State.position_advance (h ▸ hk)]
    exact Nat.le_succ _
  · rw [State.expect_of_ne h]
    exact Nat.le_refl _

end Outcome.Moves

/-- As `Outcome.Nests`, for a plan that is carried out from `s` on, where `P` says for the productions
that it comes to whether they leave braces open. -/
def Plan.Nests (rec : (p : Production) → State → Outcome p.Result) (P : Production → State → Prop)
    (s : State) (plan : Plan α) : Prop :=
  (plan.run rec).Nests s (plan.Any rec P)

namespace Plan.Nests

variable {rec : (p : Production) → State → Outcome p.Result} {P : Production → State → Prop}
  {s s' : State}

theorem done (r : α) (h : s.Leaves 0 s') : (Plan.finish (.done r s')).Nests rec P s :=
  Outcome.Nests.after h (.refl_done r s')

theorem advance {plan : Plan α} (h : s.kind.isPlain = true) (hp : plan.Nests rec P s.advance) :
    plan.Nests rec P s :=
  Outcome.Nests.after (.advance h) hp

theorem after {p : Production} {c : Option Construct} {next : p.Result → State → Plan α}
    (h : (rec p s).Nests s (P p s)) (hn : ∀ r s', (next r s').Nests rec P s') :
    (Plan.after p c s next).Nests rec P s := by
  have hc := h.inside c
  unfold Plan.Nests Plan.run Plan.Any
  cases hr : rec p s with
  | done r s' =>
    obtain ⟨d, hl, hd⟩ := hr ▸ h
    cases c <;> exact Outcome.Nests.trans hl hd (hn r s')
  | failed e s' =>
    obtain ⟨d, hl, hd⟩ := hr ▸ h
    cases c <;> exact ⟨d, hl, by simpa using hd⟩
  | outOfFuel => cases c <;> trivial

theorem plan {o : Outcome β} {next : β → State → Plan α} (h : o.Nests s False)
    (hn : ∀ r s', (next r s').Nests rec P s') : (o.plan next).Nests rec P s := by
  cases o with
  | done r s' =>
    obtain ⟨d, hl, hd⟩ := h
    have := Outcome.Nests.trans hl hd (hn r s')
    rwa [false_or] at this
  | failed e s' => exact h
  | outOfFuel => trivial

/-- A statement that fails is skipped, which leaves open what it has left open. -/
theorem attempt {next : Stmt → State → Plan α} {broken : ParseError → State → Plan α}
    (h : (rec .statement s).Nests s (P .statement s)) (hn : ∀ st s', (next st s').Nests rec P s')
    (hb : ∀ e s', rec .statement s = .failed e s' →
      ∃ s'' d, s'.Leaves d s'' ∧ (s''.kind ≠ .eof → d = 0) ∧ (broken e s').Nests rec P s'') :
    (Plan.attempt s next broken).Nests rec P s := by
  unfold Plan.Nests Plan.run Plan.Any
  cases hr : rec .statement s with
  | done st s' =>
    obtain ⟨d, hl, hd⟩ := hr ▸ h
    exact Outcome.Nests.trans hl hd (hn st s')
  | failed e s' =>
    obtain ⟨d, hl, hd⟩ := hr ▸ h
    obtain ⟨s'', d', hl', hz, hbroken⟩ := hb e s' hr
    refine Outcome.Nests.trans (hl.trans hl') (fun hs => ?_) hbroken
    rw [hz hs, Nat.add_zero]
    exact hd (hl'.kind_ne_eof hs)
  | outOfFuel => trivial

theorem expect {k : TokenKind} {next : Span → State → Plan α} (hk : k.isPlain = true)
    (hn : ∀ r s', (next r s').Nests rec P s') : ((s.expect k).plan next).Nests rec P s :=
  plan (.expect hk) hn

end Plan.Nests

/-! ### Productions -/

/-- The production is a hash literal that cannot be read. -/
def HashFails (n : Nat) (p : Production) (s : State) : Prop :=
  p = .hashLiteral ∧ ∃ e s', Parser.hashLiteral n s = .failed e s'

/-- A hash literal that cannot be read is met while `p` is read. -/
abbrev Production.Breaks (n : Nat) (p : Production) (s : State) : Prop := p.Meets HashFails n s

/-- What is known when the production is read: a production that starts by consuming its first token
has been chosen by it. -/
def Production.Fits : Production → State → Prop
  | .unary _, s | .grouping, s | .conditional, s | .function, s | .arrayLiteral, s
  | .letBinding, s | .returnStatement, s | .forLoop, s => s.kind.isPlain = true
  | .hashLiteral, s => s.kind = .lbrace
  | .expressions close, _ | .expressionsFrom close, _ => close.isPlain = true
  | .statements scope, _ => scope = .block
  | _, _ => True

section Productions

variable {n : Nat} {s : State}

theorem breaks_succ {p : Production} (h : p ≠ .hashLiteral) :
    p.Breaks (n + 1) s ↔ (p.plan s).Any (fun p s => p.read n s) (Production.Breaks n) := by
  simp only [Production.Breaks, Production.Meets, HashFails, h, false_and, false_or]

/-- The plan is carried out in `n` steps from `s` on, and leaves braces open if and only if a hash
literal fails. -/
abbrev Plan.NestsIn (n : Nat) (s : State) (plan : Plan α) : Prop :=
  plan.Nests (fun p s => p.read n s) (Production.Breaks n) s

variable (ih : ∀ (p : Production) s, p.Fits s → (p.read n s).Nests s (p.Breaks n s))
include ih

theorem operandPlan_nests : (operandPlan s).NestsIn n s := by
  have literal {k : TokenKind} (e : Expr) (hk : s.kind = k) (plain : k.isPlain = true) :
      (Plan.finish (.done e s.advance)).NestsIn n s :=
    .done e (.advance (hk ▸ plain))
  have part (p : Production) (c : Option Construct) (result : p.Result → Expr) (h : p.Fits s) :
      (Plan.after p c s fun r s => .finish (.done (result r) s)).NestsIn n s :=
    .after (ih p s h) fun r s' => .done _ (.refl s')
  unfold operandPlan
  dsimp only
  split
  next h => exact literal _ h rfl
  next h => exact literal _ h rfl
  next h => exact literal _ h rfl
  next h => exact literal _ h rfl
  next h => exact literal _ h rfl
  next h => exact part (.unary .not) _ _ (by rw [Production.Fits, h]; rfl)
  next h => exact part (.unary .neg) _ _ (by rw [Production.Fits, h]; rfl)
  next h => exact part .grouping _ _ (by rw [Production.Fits, h]; rfl)
  next h => exact part .conditional _ _ (by rw [Production.Fits, h]; rfl)
  next h => exact part .function _ _ (by rw [Production.Fits, h]; rfl)
  next h => exact part .arrayLiteral _ _ (by rw [Production.Fits, h]; rfl)
  next h => exact part .hashLiteral _ _ h
  next => split <;> exact Outcome.Nests.refl_failed _ s

theorem extensionPlan_nests (left : Expr) (x : Extension) : (extensionPlan left s x).NestsIn n s := by
  cases x with
  | call => exact .after (ih (.expressions .rparen) s rfl) fun args s' => .done _ (.refl s')
  | index =>
    exact .after (ih (.expression .lowest) s trivial) fun place s₁ =>
      .plan ((Outcome.Nests.expect rfl).within _) fun _ s₂ => .done _ (.refl s₂)
  | assign => exact .after (ih (.expression .lowest) s trivial) fun value s' => .done _ (.refl s')
  | binary op => exact .after (ih (.expression _) s trivial) fun right s' => .done _ (.refl s')

theorem functionPlan_nests (hs : s.kind.isPlain = true) : (functionPlan s).NestsIn n s := by
  refine .advance hs (.plan ((Outcome.Nests.expect rfl).within _) fun _ s₁ => ?_)
  split
  next h =>
    exact .advance (by rw [eq_of_beq h]; rfl) (.after (ih .block _ trivial) fun body s₂ =>
      .done _ (.refl s₂))
  next =>
    exact .after (ih .paramNames s₁ trivial) fun names s₂ => .after (ih .block s₂ trivial)
      fun body s₃ => .done _ (.refl s₃)

theorem conditionalPlan_nests (hs : s.kind.isPlain = true) : (conditionalPlan s).NestsIn n s := by
  refine .advance hs (.expect rfl fun _ s₁ => .after (ih (.expression .lowest) s₁ trivial)
    fun test s₂ => .expect rfl fun _ s₃ => .after (ih .block s₃ trivial) fun thenBlock s₄ => ?_)
  split
  next h =>
    exact .advance (by rw [eq_of_beq h]; rfl) (.after (ih .block _ trivial) fun elseBlock s₅ =>
      .done _ (.refl s₅))
  next => exact .done _ (.refl s₄)

theorem statementPlan_nests : (statementPlan s).NestsIn n s := by
  unfold statementPlan
  split
  next h =>
    exact .after (ih .letBinding s (by rw [Production.Fits, h]; rfl)) fun binding s' =>
      .done _ (.skipOne s' rfl)
  next h =>
    exact .after (ih .returnStatement s (by rw [Production.Fits, h]; rfl)) fun st s' =>
      .done _ (.refl s')
  next h =>
    exact .after (ih .forLoop s (by rw [Production.Fits, h]; rfl)) fun st s' => .done _ (.refl s')
  next => exact .after (ih (.expression .lowest) s trivial) fun e s' => .done _ (.skipOne s' rfl)

theorem forLoopPlan_nests (hs : s.kind.isPlain = true) : (forLoopPlan s).NestsIn n s :=
  .advance hs <| .expect rfl fun _ s₁ => .after (ih .loopInit s₁ trivial) fun _ _ =>
    .expect rfl fun _ s₃ => .after (ih (.loopPart .semicolon) s₃ trivial) fun _ _ =>
    .expect rfl fun _ s₅ => .after (ih (.loopPart .rparen) s₅ trivial) fun _ _ =>
    .expect rfl fun _ s₇ => .after (ih .block s₇ trivial) fun _ s₈ => .done _ (.skipOne s₈ rfl)

/-- The productions that consume no brace themselves. -/
theorem plan_nests (p : Production) (hp : p.Fits s) (hash : p ≠ .hashLiteral) (block : p ≠ .block)
    (statements : ∀ scope, p ≠ .statements scope) : (p.plan s).NestsIn n s := by
  have lowest (s : State) := ih (.expression .lowest) s trivial
  cases p with
  | expression min =>
    exact .after (ih .operand s trivial) fun left s₁ =>
      .after (ih (.operators min left) s₁ trivial) fun e s₂ => .done _ (.refl s₂)
  | operators min left =>
    simp only [Production.plan]
    cases hx : Extension.ofToken? s.kind with
    | none => exact .done _ (.refl s)
    | some x =>
      dsimp only
      have plain : s.kind.isPlain = true := by
        cases hk : s.kind <;> first | rfl | simp [hk, Extension.ofToken?] at hx
      split
      · exact .advance plain <| .after (ih (.extension x left) _ trivial) fun left s₁ =>
          .after (ih (.operators min left) s₁ trivial) fun e s₂ => .done _ (.refl s₂)
      · exact .done _ (.refl s)
  | extension x left => exact extensionPlan_nests ih left x
  | operand => exact operandPlan_nests ih
  | unary op => exact .advance hp (.after (ih _ _ trivial) fun e s₁ => .done _ (.refl s₁))
  | grouping =>
    exact .advance hp (.after (lowest _) fun inner s₁ => .expect rfl fun close s₂ =>
      .done _ (.refl s₂))
  | conditional => exact conditionalPlan_nests ih hp
  | function => exact functionPlan_nests ih hp
  | paramNames =>
    refine .plan .expectIdent fun name s₁ => ?_
    split
    next h =>
      exact .advance (by rw [eq_of_beq h]; rfl) (.after (ih .paramNames _ trivial) fun names s₂ =>
        .done _ (.refl s₂))
    next => exact .expect rfl fun _ s₂ => .done _ (.refl s₂)
  | arrayLiteral =>
    exact .advance hp (.after (ih (.expressions .rbracket) _ rfl) fun items s₁ => .done _ (.refl s₁))
  | expressions close =>
    simp only [Production.plan]
    split
    next h => exact .done _ (.advance (by rwa [eq_of_beq h]))
    next => exact .after (ih (.expressionsFrom close) s hp) fun es s₁ => .done _ (.refl s₁)
  | expressionsFrom close =>
    refine .after (lowest s) fun e s₁ => ?_
    split
    next h =>
      exact .advance (by rw [eq_of_beq h]; rfl) (.after (ih (.expressionsFrom close) _ hp)
        fun es s₂ => .done _ (.refl s₂))
    next => exact .expect hp fun _ s₂ => .done _ (.refl s₂)
  | entries =>
    simp only [Production.plan]
    split
    next => exact .done _ (.refl s)
    refine .after (lowest s) fun key s₁ => .expect rfl fun _ s₂ => .after (lowest s₂)
      fun value s₃ => ?_
    split
    next h =>
      exact .advance (by rw [eq_of_beq h]; rfl) (.after (ih .entries _ trivial) fun es s₄ =>
        .done _ (.refl s₄))
    next => exact .done _ (.refl s₃)
  | statement => exact statementPlan_nests ih
  | letBinding =>
    exact .advance hp (.plan .expectIdent fun name s₁ => .expect rfl fun _ s₂ =>
      .after (lowest s₂) fun value s₃ => .done _ (.refl s₃))
  | returnStatement =>
    exact .advance hp (.after (lowest _) fun value s₁ => .done _ (.skipOne s₁ rfl))
  | forLoop => exact forLoopPlan_nests ih hp
  | loopInit =>
    simp only [Production.plan]
    split
    next => exact .done _ (.refl s)
    next h =>
      exact .after (ih .letBinding s (by rw [Production.Fits, h]; rfl)) fun st s₁ =>
        .done _ (.refl s₁)
    next => exact .after (lowest s) fun e s₁ => .done _ (.refl s₁)
  | loopPart close =>
    simp only [Production.plan]
    split
    next => exact .done _ (.refl s)
    next => exact .after (lowest s) fun e s₁ => .done _ (.refl s₁)
  | hashLiteral => exact absurd rfl hash
  | block => exact absurd rfl block
  | statements scope => exact absurd rfl (statements scope)

/-- A hash literal that has failed leaves the brace open with which it starts. -/
theorem hashLiteral_nests (hs : s.kind = .lbrace) :
    (Parser.hashLiteral (n + 1) s).Nests s (Production.hashLiteral.Breaks (n + 1) s) := by
  have hopen : s.Leaves 1 s.advance := .single hs (by decide) rfl
  have failed {e : ParseError} {s' : State} {d : Nat} (hl : s.advance.Leaves d s')
      (h : Parser.hashLiteral (n + 1) s = .failed e s') :
      (Parser.hashLiteral (n + 1) s).Nests s (Production.hashLiteral.Breaks (n + 1) s) := by
    have hb : Production.hashLiteral.Breaks (n + 1) s := .inl ⟨rfl, e, s', h⟩
    rw [h]
    exact ⟨1 + d, hopen.trans hl, fun _ => iff_of_true (by omega) hb⟩
  have hes := ih .entries s.advance trivial
  rw [Production.read] at hes
  cases hr : Parser.entries n s.advance with
  | outOfFuel =>
    rw [Parser.hashLiteral, hr]
    trivial
  | failed e s₁ =>
    obtain ⟨d, hl, -⟩ := hr ▸ hes
    exact failed hl (by rw [Parser.hashLiteral, hr]; rfl)
  | done es s₁ =>
    obtain ⟨d, hl, hd⟩ := hr ▸ hes
    by_cases hk : s₁.kind = .rbrace
    · have hdone : Parser.hashLiteral (n + 1) s =
          .done (.hash es (s.span.merge s₁.span)) s₁.advance := by
        rw [Parser.hashLiteral, hr, Outcome.done_andThen, State.expect_of_kind hk]
        rfl
      have hb : Production.hashLiteral.Breaks (n + 1) s ↔ Production.entries.Breaks n s.advance := by
        simp [Production.Breaks, Production.Meets, HashFails, hdone, Production.plan, Plan.Any,
          Production.read, hr, State.expect_of_kind hk, Outcome.plan]
      rw [hdone, hb]
      exact ⟨d, (Nat.add_comm 1 d ▸ hopen.trans hl).close hk, fun _ => hd (by simp [hk])⟩
    · refine failed (e := .unexpected s₁.cursor TokenKind.rbrace.displayName) hl ?_
      rw [Parser.hashLiteral, hr, Outcome.done_andThen, State.expect_of_ne hk]
      rfl

omit ih in
/-- The statements of a block or program end where there are no more to be read. -/
theorem stops_of_statements_eq_done {n : Nat} {scope : Scope} {s s' : State} {ss : List Stmt}
    (h : Parser.statements n scope s = .done ss s') : s'.stops scope = true := by
  induction n generalizing s ss with
  | zero => simp [Parser.statements] at h
  | succ n ih =>
    rw [Parser.statements] at h
    split at h
    next hs =>
      obtain ⟨-, rfl⟩ : _ ∧ s = s' := by simpa using h
      exact hs
    split at h
    next st s₁ _ =>
      cases hr : Parser.statements n scope s₁ with
      | done ss₁ s₂ =>
        obtain ⟨-, rfl⟩ : _ ∧ s₂ = s' := by simpa [hr, Outcome.map, Outcome.andThen] using h
        exact ih hr
      | failed | outOfFuel => simp [hr, Outcome.map, Outcome.andThen] at h
    · exact ih h
    · simp at h

omit ih in
/-- When the statements of a block have been read, its last brace is what is left. -/
theorem block_of_statements {s' : State} {ss : List Stmt} (hs : s.kind = .lbrace)
    (h : Parser.statements n .block s.advance = .done ss s') :
    Parser.block (n + 1) s =
      ((s'.expect .rbrace).within .block).map fun stop => ⟨ss, s.span.merge stop⟩ := by
  rw [Parser.block, State.expect_of_kind hs, Outcome.within, Outcome.done_andThen, h]
  · rfl
  · simp

omit ih in
theorem breaks_block (hs : s.kind = .lbrace) :
    Production.block.Breaks (n + 1) s ↔ (Production.statements .block).Breaks n s.advance := by
  rw [breaks_succ (p := .block) (by simp)]
  simp only [Production.plan, State.expect_of_kind hs, Outcome.within, Outcome.plan, Plan.Any]
  cases hr : (Production.statements .block).read n s.advance with
  | done ss s₁ =>
    by_cases hk : s₁.kind = .rbrace
    · simp [State.expect_of_kind hk, Plan.Any]
    · simp [State.expect_of_ne hk, Plan.Any]
  | failed | outOfFuel => simp

/-- A block that cannot be read lacks its first brace or has come to the end of the input. -/
theorem block_nests : (Parser.block (n + 1) s).Nests s (Production.block.Breaks (n + 1) s) := by
  by_cases hs : s.kind = .lbrace
  · rw [breaks_block hs]
    have hopen : s.Leaves 1 s.advance := .single hs (by decide) rfl
    have hss := ih (.statements .block) s.advance rfl
    rw [Production.read] at hss
    cases hr : Parser.statements n .block s.advance with
    | outOfFuel =>
      rw [Parser.block, State.expect_of_kind hs, Outcome.within, Outcome.done_andThen, hr]
      · trivial
      · simp
    | failed e s₁ => exact absurd hr (statements_ne_failed n .block _ s₁ e)
    | done ss s₁ =>
      obtain ⟨d, hl, hd⟩ := hr ▸ hss
      have hl' : s.Leaves (d + 1) s₁ := Nat.add_comm 1 d ▸ hopen.trans hl
      rw [block_of_statements hs hr]
      by_cases hk : s₁.kind = .rbrace
      · rw [State.expect_of_kind hk]
        exact ⟨d, hl'.close hk, fun _ => hd (by simp [hk])⟩
      · -- The statements of a block stop at a closing brace or at the end of the input only.
        have he : s₁.kind = .eof := by
          simpa [State.stops, hk] using stops_of_statements_eq_done hr
        rw [State.expect_of_ne hk]
        exact ⟨d + 1, hl', fun h => absurd he h⟩
  · rw [breaks_succ (p := .block) (by simp), Parser.block, State.expect_of_ne hs]
    simp only [Production.plan, State.expect_of_ne hs]
    exact .refl_failed _ s

/-- What starts with the brace of a hash literal consumes it. -/
structure TakesBrace (n : Nat) : Prop where
  hashLiteral : ∀ s, s.kind = .lbrace → (Parser.hashLiteral n s).Moves 1 s
  operand : ∀ s, s.kind = .lbrace → (Parser.operand n s).Moves 1 s
  expression : ∀ min s, s.kind = .lbrace → (Parser.expression n min s).Moves 1 s
  statement : ∀ s, s.kind = .lbrace → (Parser.statement n s).Moves 1 s

omit ih in
theorem TakesBrace.zero : TakesBrace 0 := by
  constructor <;> intros <;> trivial

theorem TakesBrace.succ (h : TakesBrace n) : TakesBrace (n + 1) where
  hashLiteral s hs := by
    rw [Parser.hashLiteral]
    have hes : (Parser.entries n s.advance).Moves 1 s :=
      .after_advance (by simp [hs]) (.of_nests (ih .entries s.advance trivial))
    exact hes.andThen fun es s' => (Outcome.Moves.expect (by decide)).andThen fun _ _ => Nat.le_refl _
  operand s hs := by
    rw [Parser.operand, hs]
    exact (h.hashLiteral s hs).within _
  expression min s hs := by
    rw [Parser.expression]
    exact (h.operand s hs).andThen fun left s' => .of_nests (ih (.operators min left) s' trivial)
  statement s hs := by
    rw [Parser.statement, hs]
    exact (h.expression .lowest s hs).andThen fun e s' =>
      (State.Leaves.skipOne s' rfl).position_le

/-- A statement that fails without having consumed anything does not start with a brace. -/
theorem isPlain_of_statement_stuck (hb : TakesBrace n) {e : ParseError} {s' : State}
    (stops : s.stops .block = false) (hf : Parser.statement n s = .failed e s')
    (stuck : s'.cursor.position = s.cursor.position) : s'.kind.isPlain = true := by
  have hs := ih .statement s trivial
  rw [Production.read, hf] at hs
  obtain ⟨d, ⟨ks, hk, hp, -, -⟩, -⟩ := hs
  have hks : ks = [] := List.eq_nil_of_length_eq_zero (by omega)
  have hkind : s'.kind = s.kind := by rw [State.kind_eq_headD, State.kind_eq_headD, hk, hks]; rfl
  rw [hkind]
  unfold TokenKind.isPlain
  split
  next h =>
    have hm := hb.statement s h
    rw [hf] at hm
    have : s.cursor.position + 1 ≤ s'.cursor.position := hm
    omega
  next h => simp [State.stops, h] at stops
  next h => simp [State.stops, h] at stops
  next => rfl

/-- A statement that fails is skipped to where the next one can start. -/
theorem statements_nests (hb : TakesBrace n) :
    ((Production.statements .block).plan s).NestsIn n s := by
  simp only [Production.plan]
  split
  next => exact .done _ (.refl s)
  next stops =>
    refine .attempt (ih .statement s trivial) (fun st s' => .after (ih (.statements .block) s' rfl)
      fun ss s'' => .done _ (.refl s'')) fun e s' hf => ?_
    have plain (stuck : (s'.report e).cursor.position = s.cursor.position) :
        (s'.report e).kind.isPlain = true := by
      rw [State.cursor_report] at stuck
      rw [State.kind, State.cursor_report]
      exact isPlain_of_statement_stuck ih hb (by simpa using stops) hf stuck
    obtain ⟨d, hl, hz⟩ := State.exists_leaves_recover plain
    refine ⟨_, d, ?_, hz, .after (ih (.statements .block) _ rfl) fun ss s'' => .done _ (.refl s'')⟩
    simpa only [State.Leaves, State.kinds, State.cursor_report] using hl

omit ih in
/-- What every production leaves open in `n` steps, whatever it reads. -/
theorem nests_and_takesBrace (n : Nat) :
    (∀ (p : Production) s, p.Fits s → (p.read n s).Nests s (p.Breaks n s)) ∧ TakesBrace n := by
  induction n with
  | zero =>
    refine ⟨fun p s _ => ?_, .zero⟩
    rw [Production.read_zero]
    trivial
  | succ n ih =>
    obtain ⟨ih, hb⟩ := ih
    refine ⟨fun p s hp => ?_, hb.succ ih⟩
    by_cases hash : p = .hashLiteral
    · subst hash
      exact hashLiteral_nests ih hp
    by_cases block : p = .block
    · subst block
      exact block_nests ih
    rw [Production.read_succ, breaks_succ hash]
    by_cases statements : ∃ scope, p = .statements scope
    · obtain ⟨scope, rfl⟩ := statements
      obtain rfl : scope = .block := hp
      exact statements_nests ih hb
    · exact plan_nests ih p hp hash block fun scope h => statements ⟨scope, h⟩

end Productions

/-! ### Blocks -/

/-- A block that has been read consists of an opening brace, statements and a closing brace. -/
theorem block_eq_done {n : Nat} {s s' : State} {b : Block}
    (h : Parser.block (n + 1) s = .done b s') :
    s.kind = .lbrace ∧ ∃ s₁, Parser.statements n .block s.advance = .done b.statements s₁ ∧
      s₁.kind = .rbrace ∧ s' = s₁.advance := by
  by_cases hs : s.kind = .lbrace
  · refine ⟨hs, ?_⟩
    cases hr : Parser.statements n .block s.advance with
    | outOfFuel =>
      rw [Parser.block, State.expect_of_kind hs, Outcome.within, Outcome.done_andThen, hr] at h
      · simp [Outcome.andThen] at h
      · simp
    | failed e s₁ => exact absurd hr (statements_ne_failed n .block _ s₁ e)
    | done ss s₁ =>
      rw [block_of_statements hs hr] at h
      by_cases hk : s₁.kind = .rbrace
      · rw [State.expect_of_kind hk] at h
        obtain ⟨rfl, rfl⟩ : _ = b ∧ s₁.advance = s' := by
          simpa [Outcome.within, Outcome.map, Outcome.andThen] using h
        exact ⟨s₁, rfl, hk, rfl⟩
      · rw [State.expect_of_ne hk] at h
        simp [Outcome.within, Outcome.map, Outcome.andThen] at h
  · rw [Parser.block, State.expect_of_ne hs] at h
    simp [Outcome.within, Outcome.andThen] at h

/-- A block that has been read starts with an opening brace and ends with a closing brace, and what
stands between them closes no brace that it does not open. The two braces match each other if and
only if no hash literal has failed while the block was read, be it in a statement that was skipped. -/
theorem braces_of_block {n : Nat} {s s' : State} {b : Block} (h : Parser.block n s = .done b s') :
    ∃ inner d, s.kinds = .lbrace :: inner ++ .rbrace :: s'.kinds ∧
      s'.cursor.position = s.cursor.position + inner.length + 2 ∧ Opens d inner ∧
      (Balanced inner ↔ ¬ Production.block.Breaks n s) := by
  cases n with
  | zero => simp [Parser.block] at h
  | succ n =>
    obtain ⟨hs, s₁, hr, hk, rfl⟩ := block_eq_done h
    have hss := (nests_and_takesBrace n).1 (.statements .block) s.advance rfl
    rw [Production.read, hr] at hss
    obtain ⟨d, ⟨inner, hi, hp, -, ho⟩, hd⟩ := hss
    refine ⟨inner, d, ?_, ?_, ho, ?_⟩
    · rw [State.kinds_eq_cons hs (by decide), hi, State.kinds_eq_cons hk (by decide),
        List.cons_append]
    · rw [State.position_advance (by simp [hk]), hp, State.position_advance (by simp [hs])]
      omega
    · rw [breaks_block hs, ← hd (by simp [hk]), Balanced, Opens, ho]
      simp

/-- The place behind the first `k` tokens of a source. -/
def State.behind (source : String) (k : Nat) : State :=
  ⟨⟨k, .nowhere, (lex source).tokens.drop k⟩, []⟩

/-- The place behind a construct, if it has been read. -/
def Outcome.state? : Outcome α → Option State
  | .done _ s => some s
  | .failed .. | .outOfFuel => none

theorem Outcome.exists_eq_done {o : Outcome α} {s : State} (h : o.state? = some s) :
    ∃ r, o = .done r s := by
  cases o with
  | done r s' => exact ⟨r, congrArg (Outcome.done r) (Option.some.inj h)⟩
  | failed | outOfFuel => cases h

/-- A block with a statement that is skipped, which has opened no brace. -/
theorem braces_of_block_skipping :
    ∃ b s', Parser.block 60 (.behind "fn() { let = {1: 2}; 2 }" 3) = .done b s' ∧
      ∃ inner d, (State.behind "fn() { let = {1: 2}; 2 }" 3).kinds =
          .lbrace :: inner ++ .rbrace :: s'.kinds ∧
        s'.cursor.position = 3 + inner.length + 2 ∧ Opens d inner ∧
        (Balanced inner ↔ ¬ Production.block.Breaks 60 (.behind "fn() { let = {1: 2}; 2 }" 3)) := by
  have hread : (Parser.block 60 (.behind "fn() { let = {1: 2}; 2 }" 3)).state?.isSome := by
    decide +kernel
  obtain ⟨s', hs⟩ := Option.isSome_iff_exists.1 hread
  obtain ⟨b, hb⟩ := Outcome.exists_eq_done hs
  exact ⟨b, s', hb, braces_of_block hb⟩

/-- A block that is not closed by the brace that matches its own. The hash literal breaks off at `3`,
and its closing brace closes the block, so that `4` stands behind the function. -/
theorem not_balanced_of_hash_broken :
    ∃ b s' inner, Parser.block 60 (.behind "fn() { let h = {1: 2 3}; 4 }" 3) = .done b s' ∧
      (State.behind "fn() { let h = {1: 2 3}; 4 }" 3).kinds =
        .lbrace :: inner ++ .rbrace :: s'.kinds ∧
      ¬ Balanced inner ∧ (Program.ofSource "fn() { let h = {1: 2 3}; 4 }").program.length = 2 := by
  have hread : (Parser.block 60 (.behind "fn() { let h = {1: 2 3}; 4 }" 3)).state?.map State.kinds =
      some [.semicolon, .int 4, .rbrace, .eof] := by decide +kernel
  obtain ⟨s', hs, hkinds⟩ := Option.map_eq_some_iff.1 hread
  obtain ⟨b, hb⟩ := Outcome.exists_eq_done hs
  refine ⟨b, s', [.letKw, .ident "h", .assign, .lbrace, .int 1, .colon, .int 2, .int 3], hb, ?_,
    by decide, by decide +kernel⟩
  rw [hkinds]
  decide +kernel

end Parser

end MonkeyLang
