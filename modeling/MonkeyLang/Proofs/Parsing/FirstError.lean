import Mathlib.Order.Bounds.Defs
import MonkeyLang.Proofs.Parsing.Acceptance
import MonkeyLang.Proofs.Parsing.ErrorOrder
import MonkeyLang.Proofs.Parsing.Locality
import MonkeyLang.Proofs.Parsing.Viable

/-!
# The first error

The first error is found at the first token that cannot be right. What has been consumed before it
can be continued to a program without errors. With that token behind it, it cannot: whatever comes
then, reading comes to the same token in the same way, and finds an error there.

Both are proved together, for a production and the first error that is found while it is read
(`Production.stumbles`). The error may be in another production that is read on the way, and in a
statement that is skipped; what has been read before it has been read without errors, so it is a
phrase and it is read in step from any state with the same tokens ahead.

## Main definitions

* `Outcome.firstSpan?` : the place of the first error.
* `Outcome.Flawless` : there is no error.

## Main statements

* `Program.first_error_span` : where the first error of a source is.
-/

namespace MonkeyLang.Parser

open Grammar

variable {α β : Type}

/-- The place of the first error, if there was none when reading began. -/
def Outcome.firstSpan? : Outcome α → Option Span
  | .done _ s => s.errors.head?.map (·.span)
  | .failed e s => some ((s.errors.head?.map (·.span)).getD e.span)
  | .outOfFuel => none

/-- Something has been read, and there is no error. -/
def Outcome.Flawless (o : Outcome α) : Prop := ∃ r s, o = .done r s ∧ s.errors = []

namespace Outcome

variable {o : Outcome α} {s : State}

/-- The first error stays the first. -/
theorem firstSpan?_of_after {e : ParseError} {es : List ParseError} {span : Span}
    (h : o.Keeps s.After) (hs : s.errors = e :: es) (ho : o.firstSpan? = some span) :
    span = e.span := by
  cases o with
  | done r s' =>
    obtain ⟨ds, hds⟩ := State.After.errors h
    simpa [firstSpan?, ← hds, hs, eq_comm] using ho
  | failed e' s' =>
    obtain ⟨ds, hds⟩ := h.1.errors
    simpa [firstSpan?, ← hds, hs, eq_comm] using ho
  | outOfFuel => cases ho

/-- If a construct has failed, the first error is the first one when its error has been reported. -/
theorem exists_errors_report (e : ParseError) (s : State) : ∃ e' es,
    (s.report e).errors = e' :: es ∧
      (Outcome.failed e s : Outcome α).firstSpan? = some e'.span := by
  cases hs : s.errors with
  | nil => exact ⟨e, [], by simp [State.report, hs], by simp [firstSpan?, hs]⟩
  | cons d ds =>
    obtain ⟨es, hes⟩ := (State.After.report s e).errors
    exact ⟨d, ds ++ es, by rw [← hes, hs, List.cons_append], by simp [firstSpan?, hs]⟩

/-- Without errors in the end there were none before. -/
theorem Flawless.errors_eq_nil (ho : o.Flawless) (h : o.Keeps s.After) : s.errors = [] := by
  obtain ⟨r, s', rfl, hs'⟩ := ho
  exact List.prefix_nil.1 (hs' ▸ State.After.errors h)

end Outcome

/-! ### What is found on the way -/

/-- When the production `p` is read from `s` in `n` steps, the first error is at the place `span`.
It is the place of a token `x`. What comes before it can be continued. If the tokens up to `x` come
next at another state without errors, `p` is not read from there without errors, however many more
steps there are. -/
def Production.StumblesAt (n : Nat) (p : Production) (s : State) (span : Span) : Prop :=
  ∃ pre x post, s.cursor.rest = pre ++ x :: post ∧ span = x.span ∧
    p.Viable s.kind (pre.map (·.kind)) ∧
      ∀ bs t m, s.InStep x post bs 0 t → t.errors = [] → n ≤ m → ¬ (p.read m t).Flawless

namespace Routine

variable {n j : Nat} {p q : Production} {k₀ : TokenKind} {ks : List TokenKind} {s u : State}
  {span : Span}

/-- What the moves come to is reached from where they begin. -/
theorem keeps_after (n : Nat) (r : Routine α) (s : State) :
    ((r.plan s).run fun p s => p.read n s).Keeps s.After :=
  r.run_after (fun p u => p.keeps_after n u) s

/-- An error that is there when a production has been read stays the first one. -/
theorem firstSpan?_of_next {r : Routine α} (y : β) (hu : u.errors ≠ [])
    (hspan : ((r.plan u).run fun p s => p.read n s).firstSpan? = some span) :
    (Outcome.done y u).firstSpan? = some span := by
  obtain ⟨e, es, he⟩ := List.exists_cons_of_ne_nil hu
  rw [Outcome.firstSpan?_of_after (keeps_after n r u) he hspan]
  simp [Outcome.firstSpan?, he]

/-- What moves without errors begin to read is read without errors. -/
theorem flawless_of_read {inside : Option Construct} {next : q.Result → Routine α}
    (h : (((read q inside next).plan s).run fun p s => p.read n s).Flawless) :
    (q.read n s).Flawless := by
  rw [run_read] at h
  cases hr : q.read n s with
  | done y u =>
    rw [hr] at h
    refine ⟨y, u, rfl, ?_⟩
    cases inside <;> exact h.errors_eq_nil (keeps_after n (next y) u)
  | failed | outOfFuel =>
    rw [hr] at h
    obtain ⟨_, _, h, -⟩ := h
    cases inside <;> cases h

/-- Moves without errors do not skip a statement. -/
theorem flawless_of_attempt {scope : Scope} {next : Stmt → Routine α} {broken : Routine α}
    (h : (((attempt scope next broken).plan s).run fun p s => p.read n s).Flawless) :
    (Production.statement.read n s).Flawless := by
  rw [plan, Plan.run] at h
  cases hr : Production.statement.read n s with
  | done st u =>
    rw [hr] at h
    exact ⟨st, u, rfl, h.errors_eq_nil (keeps_after n (next st) u)⟩
  | failed e u =>
    rw [hr] at h
    exact absurd (h.errors_eq_nil (keeps_after n broken _)) (State.errors_report_ne_nil e)
  | outOfFuel =>
    rw [hr] at h
    obtain ⟨_, _, h, -⟩ := h
    cases h

/-- What has been read without errors is a phrase, and it is read in step from any state with the
same tokens ahead. -/
theorem exists_phrase {y : q.Result} (hq : q.Suits s.kind) (hr : q.read n s = .done y u)
    (hu : u.errors = []) :
    ∃ ts, s.cursor.rest = ts ++ u.cursor.rest ∧ .eof ∉ ts.map (·.kind) ∧
      q.Gives s.kind (ts.map (·.kind)) y u ∧
      ∀ x as bs i t, (x :: as) <:+ u.cursor.rest → s.InStep x as bs i t → t.errors = [] →
        ∃ v, (∀ m, n ≤ m → q.read m t = .done y v) ∧ u.InStep x as bs (i + q.least) v ∧
          v.errors = [] := by
  obtain ⟨hs, ls, hls, hend, hgives⟩ := q.derives n s hq y u hr hu
  have hafter := q.keeps_after n s
  rw [hr] at hafter
  obtain ⟨ts, hts, -, -⟩ := State.After.past hafter
  obtain rfl : ls = ts.map (·.kind) := by
    have : ls ++ u.kinds = ts.map (·.kind) ++ u.kinds := by
      rw [← hls, State.kinds, State.kinds, hts, List.map_append]
    exact List.append_cancel_right this
  refine ⟨ts, hts, hend, hgives, fun x as bs i t hx hst ht => ?_⟩
  have hfollows := q.follows (n := n) hq hst hs
  rw [hr] at hfollows
  obtain ⟨v, hv, huv, he⟩ := hfollows ⟨hu, hx⟩
  refine ⟨v, fun m hm => ?_, huv, he.trans ht⟩
  rw [Production.read_mono hm (by simp [hv]), hv]

/-- When the moves are made from `s` on, which is where the production `p` has consumed the tokens
`ks`, the first error is at the place `span`, and it is found there as `Production.StumblesAt`
says. -/
def StumblesAt (n : Nat) (p : Production) (k₀ : TokenKind) (ks : List TokenKind) (j : Nat)
    (r : Routine α) (s : State) (span : Span) : Prop :=
  ∃ pre x post, s.cursor.rest = pre ++ x :: post ∧ span = x.span ∧
    p.Viable k₀ (ks ++ pre.map (·.kind)) ∧
      ∀ bs t m, s.InStep x post bs j t → t.errors = [] → n ≤ m →
        ¬ ((r.plan t).run fun p s => p.read m s).Flawless

/-- The moves of a production stumble where a production that they begin to read does. -/
theorem StumblesAt.of_part {r : Routine α} (hq : q.StumblesAt n s span)
    (hv : ∀ ls, (∀ l ∈ ls.head?, l = s.kind) → q.Viable s.kind ls → p.Viable k₀ (ks ++ ls))
    (hr : ∀ t m, ((r.plan t).run fun p s => p.read m s).Flawless → (q.read m t).Flawless) :
    r.StumblesAt n p k₀ ks j s span := by
  obtain ⟨pre, x, post, hrest, hx, hpre, hstep⟩ := hq
  refine ⟨pre, x, post, hrest, hx, hv _ ?_ hpre, fun bs t m ht hte hm hflaw => ?_⟩
  · cases pre with
    | nil => simp
    | cons c pre => simp [State.kind, Cursor.kind, Cursor.current, hrest]
  · exact hstep bs t m (ht.mono (Nat.zero_le j)) hte hm (hr t m hflaw)

/-- The moves of a production stumble where those do that follow a production that has been read. -/
theorem StumblesAt.of_rest {r next : Routine α} {y : q.Result} (hq : q.Suits s.kind)
    (hr : q.read n s = .done y u) (hu : u.errors = []) (heof : .eof ∈ s.kinds)
    (hrun : ∀ t v m, q.read m t = .done y v → ((r.plan t).run fun p s => p.read m s) =
      (next.plan v).run fun p s => p.read m s)
    (hnext : ∀ ls, .eof ∈ u.kinds → q.Gives s.kind ls y u →
      next.StumblesAt n p k₀ (ks ++ ls) (j + q.least) u span) :
    r.StumblesAt n p k₀ ks j s span := by
  obtain ⟨ts, hts, hend, hgives, hphrase⟩ := exists_phrase hq hr hu
  have heof' : .eof ∈ u.kinds := by
    rw [State.kinds, hts, List.map_append, List.mem_append] at heof
    exact heof.resolve_left hend
  obtain ⟨pre, x, post, hrest, hx, hv, hstep⟩ := hnext _ heof' hgives
  refine ⟨ts ++ pre, x, post, by rw [hts, hrest, List.append_assoc], hx, by simpa using hv,
    fun bs t m ht hte hm => ?_⟩
  obtain ⟨v, hv, huv, hve⟩ := hphrase x post bs j t (hrest ▸ List.suffix_append _ _) ht hte
  rw [hrun t v m (hv m hm)]
  exact hstep bs v m huv hve hm

/-- The moves of a production stumble where those do that follow a token. -/
theorem StumblesAt.of_advance {next : Routine α} (he : s.kind ≠ .eof)
    (h : next.StumblesAt n p k₀ (ks ++ [s.kind]) (j + 1) s.advance span) :
    (advance next).StumblesAt n p k₀ ks j s span := by
  obtain ⟨pre, x, post, hrest, hx, hv, hstep⟩ := h
  refine ⟨s.cursor.current :: pre, x, post, ?_, hx, ?_, fun bs t m ht hte hm => ?_⟩
  · rw [State.rest_eq_cons he, hrest, List.cons_append]
  · rwa [List.append_assoc] at hv
  · rcases ht.advance he with ht' | hlost
    · exact hstep bs t.advance m ht' hte hm
    · have := congrArg List.length (hlost ▸ hrest)
      simp only [List.length_append, List.length_cons] at this
      omega

variable (ih : ∀ (p : Production) s span, p.Suits s.kind → s.errors = [] → .eof ∈ s.kinds →
  (p.read n s).firstSpan? = some span → p.StumblesAt n s span)
include ih

/-- The moves of a production, if those that it begins to read stumble so. -/
theorem stumbles {r : Routine α} (ho : r.Orderly p j s.kind) (hc : r.Completable p k₀ ks s.kind)
    (hs : s.errors = []) (heof : .eof ∈ s.kinds)
    (hspan : ((r.plan s).run fun p s => p.read n s).firstSpan? = some span) :
    r.StumblesAt n p k₀ ks j s span := by
  induction r generalizing s j ks with
  | done r => simp [plan, Plan.run, Outcome.firstSpan?, hs] at hspan
  | fail cause context =>
    obtain ⟨x, post, hrest⟩ := List.exists_cons_of_ne_nil (l := s.cursor.rest) (by
      rintro h
      simp [State.kinds, h] at heof)
    have hx : span = x.span := by
      simpa [plan, Plan.run, Outcome.firstSpan?, hs, State.span, Cursor.span, Cursor.current, hrest,
        eq_comm] using hspan
    refine ⟨[], x, post, hrest, hx, by simpa [Completable] using hc, fun bs t m _ _ _ => ?_⟩
    rintro ⟨_, _, h, _⟩
    cases h
  | look next ihn =>
    obtain ⟨pre, x, post, hrest, hx, hv, hstep⟩ := ihn _ _ (ho s.span) (hc s.span) hs heof hspan
    refine ⟨pre, x, post, hrest, hx, hv, fun bs t m ht hte hm => ?_⟩
    rw [plan, ← ht.kind_eq, ← ht.span_eq]
    exact hstep bs t m ht hte hm
  | last next ihn =>
    obtain ⟨pre, x, post, hrest, hx, hv, hstep⟩ :=
      ihn _ (ho.2 s.previous) (hc s.previous) hs heof hspan
    refine ⟨pre, x, post, hrest, hx, hv, fun bs t m ht hte hm => ?_⟩
    rw [plan, ← ht.previous ho.1]
    exact hstep bs t m ht hte hm
  | advance next ihn =>
    have heof' : .eof ∈ s.advance.kinds := by
      rw [State.kinds_eq_cons rfl ho.1, List.mem_cons] at heof
      exact heof.resolve_left ho.1.symm
    exact .of_advance ho.1 (ihn (ho.2 _) (hc _) hs heof' hspan)
  | read q inside next ihn =>
    have part (hq : (q.read n s).firstSpan? = some span) :
        (Routine.read q inside next).StumblesAt n p k₀ ks j s span :=
      .of_part (ih q s span ho.1 hs heof hq) hc.1 fun _ _ => flawless_of_read
    rw [run_read] at hspan
    cases hr : q.read n s with
    | done y u =>
      rw [hr] at hspan part
      have hspan : (((next y).plan u).run fun p s => p.read n s).firstSpan? = some span := by
        cases inside <;> exact hspan
      by_cases hu : u.errors = []
      · refine .of_rest ho.1 hr hu heof (fun t v m hv => ?_) fun ls heof' hgives =>
          ihn y (ho.2.2 y u.kind) (hc.2 y ls u hgives) hu heof' hspan
        rw [run_read, hv]
        cases inside <;> rfl
      · exact part (firstSpan?_of_next y hu hspan)
    | failed e u =>
      refine part ?_
      rw [hr] at hspan ⊢
      cases inside <;> exact hspan
    | outOfFuel =>
      rw [hr] at hspan
      cases inside <;> cases hspan
  | attempt scope next broken ihn ihb =>
    have part (hq : (Production.statement.read n s).firstSpan? = some span) :
        (Routine.attempt scope next broken).StumblesAt n p k₀ ks j s span :=
      .of_part (ih .statement s span trivial hs heof hq) hc.1 fun _ _ => flawless_of_attempt
    rw [plan, Plan.run] at hspan
    cases hr : Production.statement.read n s with
    | done st u =>
      rw [hr] at hspan part
      by_cases hu : u.errors = []
      · refine .of_rest (q := .statement) trivial hr hu heof (fun t v m hv => ?_)
          fun ls heof' hgives =>
            ihn st (ho.2.2.1 st u.kind) (hc.2 st ls u hgives) hu heof' hspan
        rw [plan, Plan.run, hv]
      · exact part (firstSpan?_of_next st hu hspan)
    | failed e u =>
      -- The error of the statement is the first one, whatever is found behind it.
      rw [hr] at hspan part
      obtain ⟨e', es, he', hfirst⟩ := Outcome.exists_errors_report (α := Stmt) e u
      refine part (hfirst.trans (congrArg some ?_))
      exact (Outcome.firstSpan?_of_after
        (keeps_after n broken ((u.report e).recover scope s.cursor.position)) he' hspan).symm
    | outOfFuel =>
      rw [hr] at hspan
      cases hspan

end Routine

/-- Where reading finds the first error. -/
theorem Production.stumbles {n : Nat} {p : Production} {s : State} {span : Span}
    (hp : p.Suits s.kind) (hs : s.errors = []) (heof : .eof ∈ s.kinds)
    (hspan : (p.read n s).firstSpan? = some span) : p.StumblesAt n s span := by
  induction n generalizing p s span with
  | zero =>
    rw [read_zero] at hspan
    cases hspan
  | succ n ih =>
    rw [read_succ, plan_eq] at hspan
    obtain ⟨pre, x, post, hrest, hx, hv, hstep⟩ :=
      Routine.stumbles (fun p s span => ih) (p.orderly hp) (p.completable hp) hs heof hspan
    refine ⟨pre, x, post, hrest, hx, hv, fun bs t m ht hte hm => ?_⟩
    obtain ⟨m, rfl⟩ : ∃ k, m = k + 1 := ⟨m - 1, by omega⟩
    rw [read_succ, plan_eq]
    exact hstep bs t m ht hte (by omega)

end MonkeyLang.Parser

namespace MonkeyLang.Program

open MonkeyLang.Grammar MonkeyLang.Parser

/-- The first error of a list of tokens is at the first token that cannot be right. -/
theorem first_error_of_tokens {tokens : List Token} (horder : InOrder tokens)
    (heof : .eof ∈ tokens.map (·.kind)) (h : (ofTokens tokens).errors ≠ []) :
    ∃ k t e, IsGreatest {k | ∃ us, (ofTokens (tokens.take k ++ us)).errors = []} k ∧
      tokens[k]? = some t ∧ (ofTokens tokens).errors.head? = some e ∧ e.span = t.span := by
  obtain ⟨ss, s, hrun, hparse⟩ := exists_parse_inOrder horder heof
  rw [hparse] at h ⊢
  obtain ⟨e, es, he⟩ := List.exists_cons_of_ne_nil h
  have hspan : ((Production.statements .program).read (enough tokens)
      ⟨.ofTokens tokens, []⟩).firstSpan? = some e.span := by
    simp [Production.read, hrun, Outcome.firstSpan?, show s.errors = e :: es from he]
  obtain ⟨pre, x, post, hrest, hx, ⟨ls, p, hp⟩, hstep⟩ :=
    Production.stumbles (p := .statements .program) (s := ⟨.ofTokens tokens, []⟩) trivial rfl heof
      hspan
  have htokens : tokens = pre ++ x :: post := hrest
  refine ⟨pre.length, x, e, ⟨?_, ?_⟩, by simp [htokens], by simpa using congrArg List.head? he, hx⟩
  · -- The tokens before it can be continued to a program, and the end can be marked.
    let us : List Token := ls.map (⟨·, .nowhere⟩) ++ [⟨.eof, .nowhere⟩]
    have hk : (tokens.take pre.length ++ us).map (·.kind) = pre.map (·.kind) ++ ls ++ [.eof] := by
      simp [us, htokens, Function.comp_def]
    exact ⟨us, (ofTokens_of_statements hk hp).1⟩
  · -- With the token itself they cannot.
    rintro k ⟨us, hus⟩
    by_contra hk
    obtain ⟨d, rfl⟩ : ∃ d, k = pre.length + (d + 1) := ⟨k - pre.length - 1, by omega⟩
    have htake : tokens.take (pre.length + (d + 1)) = pre ++ x :: post.take d := by
      rw [htokens, List.take_length_add_append, List.take_succ_cons]
    rw [htake] at hus
    obtain ⟨s', hrun', hs', -⟩ := exists_done_of_errors_eq_nil hus
    have hmore := Production.read_mono (p := .statements .program)
      (s := ⟨.ofTokens (pre ++ x :: post.take d ++ us), []⟩)
      (Nat.le_max_right (enough tokens) (enough (pre ++ x :: post.take d ++ us)))
      (hrun'.trans_ne (by simp))
    have together : State.InStep x post (post.take d ++ us) 0 ⟨.ofTokens tokens, []⟩
        ⟨.ofTokens (pre ++ x :: post.take d ++ us), []⟩ :=
      ⟨⟨pre, hrest, by simp [Cursor.ofTokens]⟩, fun _ => rfl⟩
    exact hstep _ _ _ together rfl (Nat.le_max_left _ _) ⟨_, s', hmore.trans hrun', hs'⟩

/-- For every source without errors in its spelling, the first error that the parser reports has the
span of the token number `k`, where `k` is the largest number such that the first `k` tokens can be
continued to a list of tokens that is read without errors. -/
theorem first_error_span (source : String) (hlex : (lex source).errors = [])
    (h : (ofSource source).errors ≠ []) :
    ∃ k t e, IsGreatest {k | ∃ us, (ofTokens ((lex source).tokens.take k ++ us)).errors = []} k ∧
      (lex source).tokens[k]? = some t ∧ (ofSource source).errors.head? = some e ∧
        e.span = t.span := by
  have hsource : ofSource source = ofTokens (lex source).tokens := by
    rw [ofSource, ofTokens, hlex]
    rfl
  rw [hsource] at h ⊢
  obtain ⟨horder, heof⟩ := lex_inOrder source
  exact first_error_of_tokens horder heof h

/-- A call whose second argument comes without a comma. -/
def crumpled : String := "let y = f(1 2);\nif (y) { y }"

/-- The error is at the second argument. -/
theorem first_error_span_of_crumpled :
    (lex crumpled).errors = [] ∧ (ofSource crumpled).errors ≠ [] ∧
    ∃ k t e, IsGreatest {k | ∃ us, (ofTokens ((lex crumpled).tokens.take k ++ us)).errors = []} k ∧
      (lex crumpled).tokens[k]? = some t ∧ (ofSource crumpled).errors.head? = some e ∧
        e.span = t.span :=
  ⟨by decide +kernel, by decide +kernel,
    first_error_span crumpled (by decide +kernel) (by decide +kernel)⟩

end MonkeyLang.Program
