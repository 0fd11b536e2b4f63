import Mathlib
import MonkeyLang.Proofs.Lexing.Places
import MonkeyLang.Proofs.Parsing.ErrorOrder
import MonkeyLang.Script

/-!
# Diagnostics

The errors in a source come from two sides. Those of the lexer are there before reading begins; those
of the parser are found at tokens, at any depth, and one is dropped if its place has an error
already. Then all are sorted by where they start.

Nothing is lost on the way, no two errors have the same place, and since the places of a source are
told apart by where they start, the order is strict. So is that of the lines and columns that are
shown.

## Main statements

* `State.Diagnosed.closed` : what holds of the errors at every moment of reading.
* `Program.diagnostics_increase` : the errors in a source.
-/

namespace MonkeyLang.Parser

/-- Reading is somewhere in `tokens`. What has been found is at tokens, and comes after the errors
`reported`, which were there before; all errors are at different places. -/
structure State.Diagnosed (tokens : List Token) (reported : List ParseError) (s : State) : Prop where
  ahead : s.cursor.rest <:+ tokens
  marked : .eof ∈ s.kinds
  found : ∃ found, s.errors = reported ++ found ∧ ∀ e ∈ found, ∃ t ∈ tokens, t.span = e.span
  distinct : (s.errors.map (·.span)).Nodup

namespace State.Diagnosed

variable {tokens : List Token} {reported : List ParseError}

theorem past {s s' : State} (h : s.Diagnosed tokens reported) (hp : State.Past 0 s s')
    (he : s'.errors = s.errors) (hm : .eof ∈ s'.kinds) : s'.Diagnosed tokens reported := by
  obtain ⟨ts, hrest, -, -⟩ := hp
  exact {
    ahead := (hrest ▸ List.suffix_append ts _ : s'.cursor.rest <:+ s.cursor.rest).trans h.ahead
    marked := hm
    found := he ▸ h.found
    distinct := he ▸ h.distinct }

theorem report {s : State} (h : s.Diagnosed tokens reported) {e : ParseError}
    (he : e.span = s.span) : (s.report e).Diagnosed tokens reported := by
  unfold State.report
  split
  · exact h
  next hnew =>
    obtain ⟨t, ts, hrest, hspan⟩ := exists_current h.marked
    have ht : t ∈ tokens := h.ahead.subset (hrest ▸ List.mem_cons_self)
    obtain ⟨found, herrors, hfound⟩ := h.found
    refine ⟨h.ahead, h.marked, ⟨found ++ [e], by simp [herrors], fun d hd => ?_⟩, ?_⟩
    · obtain hd | hd := List.mem_append.mp hd
      · exact hfound d hd
      · obtain rfl := List.mem_singleton.mp hd
        exact ⟨t, ht, (he.trans hspan).symm⟩
    · simp only [List.any_eq_true, beq_iff_eq, not_exists, not_and] at hnew
      simpa [List.map_append, List.nodup_append, h.distinct] using hnew

/-- Every move keeps it that way. -/
theorem closed : Closed (State.Diagnosed tokens reported) where
  advance s h := h.past s.past_advance rfl (eof_mem_advance h.marked)
  report _ _ h he := h.report he
  recover s scope start h :=
    h.past (s.past_recover_self scope start) rfl (eof_mem_recover h.marked _ _)

end State.Diagnosed

end MonkeyLang.Parser

namespace MonkeyLang

/-- The report on errors has a line for each of them, in order: where it is, and what it says. -/
theorem Script.errorLines_eq (path source : String) (es : List ParseError) :
    errorLines path source es = String.join (es.map fun e =>
      path ++ ":" ++ toString (e.span.position source).line ++ ":" ++
        toString (e.span.position source).column ++ ": error: " ++ e.message ++ "\n") := by
  induction es with
  | nil => rfl
  | cons e es ih =>
    rw [errorLines, ih, List.map_cons, String.join_cons]
    rfl

end MonkeyLang

namespace MonkeyLang.Program

open MonkeyLang.Lexical MonkeyLang.Parser

variable {source : String}

/-- The errors in a source are those of a state in which reading can end, sorted by their places. -/
theorem exists_diagnosed (h : source.utf8ByteSize < 2 ^ 32) :
    ∃ s : State, s.Diagnosed (lex source).tokens ((lex source).errors.map .ofLexError) ∧
      (ofSource source).errors.Perm s.errors ∧
      (ofSource source).errors.Pairwise fun d e => d.span.start ≤ e.span.start := by
  have hplaced := lex_placed h
  obtain ⟨ss, s, hrun, hparse⟩ :=
    exists_parse_eq (lex source).tokens ((lex source).errors.map .ofLexError)
  have hs : s.Diagnosed (lex source).tokens ((lex source).errors.map .ofLexError) := by
    have hstart : State.Diagnosed (lex source).tokens ((lex source).errors.map .ofLexError)
        ⟨.ofTokens (lex source).tokens, (lex source).errors.map .ofLexError⟩ := by
      refine ⟨List.suffix_rfl, (lex_inOrder source).2, ⟨[], by simp⟩, ?_⟩
      rw [List.map_map]
      refine List.pairwise_map.mpr (hplaced.errors.imp fun hlt heq => ?_)
      exact absurd (congrArg Span.start heq) (Nat.ne_of_lt hlt)
    have hend := State.Diagnosed.closed.ends (enough (lex source).tokens) (.statements .program) hstart
    rw [Production.read, hrun] at hend
    exact hend
  have herrors : (ofSource source).errors =
      s.errors.mergeSort fun d e => decide (d.span.start ≤ e.span.start) := by
    rw [ofSource, hparse]
  refine ⟨s, hs, herrors ▸ List.mergeSort_perm _ _, ?_⟩
  rw [herrors]
  refine (List.pairwise_mergeSort ?_ ?_ _).imp of_decide_eq_true
  · intro a b c hab hbc
    exact decide_eq_true (Nat.le_trans (of_decide_eq_true hab) (of_decide_eq_true hbc))
  · intro a b
    simpa using Nat.le_total a.span.start b.span.start

/-- Every error is at the place of a token or of a lexical error. -/
theorem span_mem_spans (h : source.utf8ByteSize < 2 ^ 32) {e : ParseError}
    (he : e ∈ (ofSource source).errors) : e.span ∈ (lex source).spans := by
  obtain ⟨s, hs, hperm, -⟩ := exists_diagnosed h
  obtain ⟨found, herrors, hfound⟩ := hs.found
  have hmem := hperm.mem_iff.mp he
  rw [herrors, List.mem_append] at hmem
  obtain hmem | hmem := hmem
  · obtain ⟨d, hd, rfl⟩ := List.mem_map.mp hmem
    exact List.mem_append_right _ (List.mem_map_of_mem hd)
  · obtain ⟨t, ht, hspan⟩ := hfound e hmem
    exact List.mem_append_left _ (hspan ▸ List.mem_map_of_mem ht)

/-- Sorted by where they start, errors at different places start at different places. -/
theorem errors_increase (h : source.utf8ByteSize < 2 ^ 32) :
    (ofSource source).errors.Pairwise fun d e => d.span.start < e.span.start := by
  obtain ⟨s, hs, hperm, hsorted⟩ := exists_diagnosed h
  have hdistinct : (ofSource source).errors.Pairwise fun d e => d.span ≠ e.span :=
    List.pairwise_map.mp ((hperm.map _).nodup_iff.mpr hs.distinct)
  refine (hsorted.and hdistinct).imp_of_mem fun {d e} hd he hde => ?_
  refine Nat.lt_of_le_of_ne hde.1 fun heq => hde.2 ?_
  exact (lex_placed h).span_eq_of_start_eq (span_mem_spans h hd) (span_mem_spans h he) heq

/-- The diagnostics of a source of less than four gigabytes come in the order of their places, which
all start differently, and none is lost. Every lexical error is among them once, and every other error
has the span of one token. Lines and columns count line feeds and characters before the error, and they
increase, too. A run of the source shows one line for each error, in this order, with the line and the
column between the path of the file and the message, and it does nothing else. -/
theorem diagnostics_increase (source : String) (h : source.utf8ByteSize < 2 ^ 32) :
    (∀ e ∈ (lex source).errors, (ofSource source).errors.count (.ofLexError e) = 1) ∧
      (∀ e ∈ (ofSource source).errors, (∀ d ∈ (lex source).errors, e ≠ .ofLexError d) →
        ∃! t, t ∈ (lex source).tokens ∧ t.span = e.span) ∧
      (ofSource source).errors.Pairwise
        (fun d e => d.span.start < e.span.start ∧ d.span ≠ e.span) ∧
      (∀ e ∈ (ofSource source).errors, ∃ before rest, source.toList = before ++ rest ∧
        byteLength before = e.span.start ∧ e.span.position source =
          ⟨before.count '\n' + 1, (before.reverse.takeWhile (· ≠ '\n')).length + 1⟩) ∧
      (ofSource source).errors.Pairwise
        (fun d e => (d.span.position source).Before (e.span.position source)) ∧
      ∀ o fuel path, (ofSource source).errors ≠ [] → Script.run o fuel path source =
        some ⟨.parseErrors, "", "", String.join ((ofSource source).errors.map fun e =>
          path ++ ":" ++ toString (e.span.position source).line ++ ":" ++
            toString (e.span.position source).column ++ ": error: " ++ e.message ++ "\n")⟩ := by
  have hplaced := lex_placed h
  have hincrease := errors_increase h
  have hboundary : ∀ e ∈ (ofSource source).errors, Boundary source.toList e.span.start := by
    intro e he
    obtain ⟨n, hn, hstart⟩ := hplaced.places _ (span_mem_spans h he)
    rwa [hstart, Nat.zero_add]
  obtain ⟨s, hs, hperm, -⟩ := exists_diagnosed h
  obtain ⟨found, herrors, hfound⟩ := hs.found
  refine ⟨?_, ?_, ?_, ?_, ?_, ?_⟩
  · intro e he
    have hmem : ParseError.ofLexError e ∈ (ofSource source).errors := by
      rw [hperm.mem_iff, herrors]
      exact List.mem_append_left _ (List.mem_map_of_mem he)
    have hnodup : (ofSource source).errors.Nodup :=
      hincrease.imp fun hlt heq => absurd hlt (by simp [heq])
    exact List.count_eq_one_of_mem hnodup hmem
  · intro e he hother
    have hmem := hperm.mem_iff.mp he
    rw [herrors, List.mem_append] at hmem
    obtain hmem | hmem := hmem
    · obtain ⟨d, hd, rfl⟩ := List.mem_map.mp hmem
      exact absurd rfl (hother d hd)
    · obtain ⟨t, ht, hspan⟩ := hfound e hmem
      refine ⟨t, ⟨ht, hspan⟩, fun u hu => ?_⟩
      exact eq_of_start_eq hplaced.tokens hu.1 ht (by rw [hu.2, hspan])
  · exact hincrease.imp fun hlt => ⟨hlt, fun heq => absurd hlt (by simp [heq])⟩
  · intro e he
    obtain ⟨ds, es, hsource, hlength⟩ := hboundary e he
    exact ⟨ds, es, hsource, hlength,
      (Span.position_eq hsource hlength).trans (Position.after_eq ds)⟩
  · exact hincrease.imp_of_mem fun hd he hlt =>
      Span.position_before (hboundary _ hd) (hboundary _ he) hlt
  · intro o fuel path hne
    rw [Script.run, if_pos (by simpa [Parsed.hasErrors] using hne), Script.errorLines_eq]

/-- An invalid escape behind a long character, a stray character where an expression has to be, and a
statement without its end. -/
def untidy : String := "\"é\\q\";\nlet x = $;\nf("

/-- The untidy source has three errors, on one line each. -/
theorem diagnostics_increase_untidy :
    untidy.utf8ByteSize < 2 ^ 32 ∧
      (ofSource untidy).errors.map (·.span.position untidy) = [⟨1, 3⟩, ⟨2, 9⟩, ⟨3, 3⟩] ∧
      (∀ e ∈ (lex untidy).errors, (ofSource untidy).errors.count (.ofLexError e) = 1) ∧
      (∀ e ∈ (ofSource untidy).errors, (∀ d ∈ (lex untidy).errors, e ≠ .ofLexError d) →
        ∃! t, t ∈ (lex untidy).tokens ∧ t.span = e.span) ∧
      (ofSource untidy).errors.Pairwise
        (fun d e => d.span.start < e.span.start ∧ d.span ≠ e.span) ∧
      (∀ e ∈ (ofSource untidy).errors, ∃ before rest, untidy.toList = before ++ rest ∧
        byteLength before = e.span.start ∧ e.span.position untidy =
          ⟨before.count '\n' + 1, (before.reverse.takeWhile (· ≠ '\n')).length + 1⟩) ∧
      (ofSource untidy).errors.Pairwise
        (fun d e => (d.span.position untidy).Before (e.span.position untidy)) ∧
      ∀ o fuel path, (ofSource untidy).errors ≠ [] → Script.run o fuel path untidy =
        some ⟨.parseErrors, "", "", String.join ((ofSource untidy).errors.map fun e =>
          path ++ ":" ++ toString (e.span.position untidy).line ++ ":" ++
            toString (e.span.position untidy).column ++ ": error: " ++ e.message ++ "\n")⟩ :=
  ⟨by decide, by cbv, diagnostics_increase untidy (by decide)⟩

end MonkeyLang.Program
