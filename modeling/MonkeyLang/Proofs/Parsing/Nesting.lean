import MonkeyLang.Proofs.Lexing.MaximalMunch
import MonkeyLang.Proofs.Parsing.ErrorOrder
import MonkeyLang.Proofs.Parsing.Readings

/-!
# Spans are exact and nested

All tokens of a source, apart from the marker of its end, are the statements of its program and what
has been skipped between them. So every node of the program is derived from some of the tokens that
stand together, and its span goes from the start of the first of these to the end of the last one.
The tokens of a source stand one after the other and none of them is empty, so the spans of nodes
are nested, in source order and not empty.

## Main definitions

* `Node.Of` : the nodes of a program.

## Main statements

* `Program.parse_statements` : the tokens that a program is read from.
* `Program.spans_nested` : the spans of a program.
-/

namespace MonkeyLang.Derivation

/-- The nodes of a program: its statements, and what is inside of its nodes. -/
inductive Node.Of (program : Program) : Node → Prop where
  /-- A statement of the program. -/
  | statement {s : Stmt} : s ∈ program → Of program (.stmt s)
  /-- A child of a node of the program. -/
  | child {m n : Node} : Of program m → n ∈ m.children → Of program n

variable {errors : Prop} {ts us : List Token} {n m : Node}

/-- Every node of a program is derived from tokens that stand together. -/
theorem Statements.exists_derives {program : Program} (h : Statements errors ts program)
    (hn : n.Of program) : ∃ js us ks, ts = js ++ us ++ ks ∧ Derives errors us n := by
  induction hn with
  | statement hs => exact h.spread.exists_of_mem (List.mem_map_of_mem hs)
  | child _ hm ih =>
    obtain ⟨js, us, ks, rfl, hd⟩ := ih
    obtain ⟨js', vs, ks', rfl, hd'⟩ := hd.spread.exists_of_mem hm
    exact ⟨js ++ js', vs, ks' ++ ks, by simp, hd'⟩

/-- The span of a child is inside that of its parent. -/
theorem Derives.child_inside (h : Derives errors us n) (hus : Laid us) (hm : m ∈ n.children) :
    n.span.start ≤ m.span.start ∧ m.span.stop ≤ n.span.stop := by
  obtain ⟨js, vs, ks, rfl, hd⟩ := h.spread.exists_of_mem hm
  rw [h.span_eq, hd.span_eq]
  exact hus.cover_inside hd.ne_nil

/-- If no token is empty, then no node is. -/
theorem Derives.span_lt (h : Derives errors us n) (hus : Laid us)
    (hlt : ∀ t ∈ us, t.span.start < t.span.stop) : n.span.start < n.span.stop := by
  obtain ⟨t, ht, hstart⟩ := exists_cover_start h.ne_nil
  rw [h.span_eq, hstart]
  exact Nat.lt_of_lt_of_le (hlt t ht) (hus.le_stop ht)

/-- The tokens of a source stand one after the other. -/
theorem exists_laid_tokens {source : String} (h : source.utf8ByteSize < 2 ^ 32) :
    ∃ ts, (lex source).tokens =
        ts ++ [⟨.eof, ⟨source.utf8ByteSize, source.utf8ByteSize⟩⟩] ∧
      (∀ t ∈ ts, t.kind ≠ .eof ∧ t.span.start < t.span.stop) ∧ Laid (lex source).tokens := by
  have hsize := Lexical.byteLength_toList source
  have hmax : Span.maxOffset + 1 = 2 ^ 32 := by decide
  obtain ⟨ps, hps, htokens⟩ := @Lexical.exists_cut 0 source.toList (by omega)
  rw [Nat.zero_add, hsize] at htokens
  have htokens : (lex source).tokens = _ := htokens
  have hmem : ∀ t ∈ Lexical.words 0 ps, t.kind ≠ .eof ∧ t.span.start < t.span.stop ∧
      t.span.stop ≤ source.utf8ByteSize := by
    intro t ht
    obtain ⟨hk, ds, es, fs, hcs, hne, hspan⟩ := hps.exists_of_mem_words ht
    have hpos := Lexical.byteLength_pos hne
    rw [← hsize, hspan, hcs]
    simp only [byteLength_append]
    exact ⟨hk, by omega, by omega⟩
  refine ⟨_, htokens, fun t ht => ⟨(hmem t ht).1, (hmem t ht).2.1⟩, ?_, ?_⟩
  · intro t ht
    rw [htokens, List.mem_append, List.mem_singleton] at ht
    obtain ht | rfl := ht
    · exact Nat.le_of_lt (hmem t ht).2.1
    · exact Nat.le_refl _
  · rw [htokens, List.pairwise_append]
    refine ⟨hps.pairwise_words 0, List.pairwise_singleton _ _, fun t ht u hu => ?_⟩
    obtain rfl := List.mem_singleton.mp hu
    exact (hmem t ht).2.2

end MonkeyLang.Derivation

namespace MonkeyLang.Program

open MonkeyLang.Derivation MonkeyLang.Parser

/-- The tokens before the marker of the end are the statements of the program that is read from
them. If there are no errors, then none of them has been skipped. -/
theorem parse_statements {ts : List Token} {last : Token} (reported : List ParseError)
    (hlaid : Laid (ts ++ [last])) (hts : ∀ t ∈ ts, t.kind ≠ .eof) (hlast : last.kind = .eof) :
    Statements ((parse (ts ++ [last]) reported).errors ≠ []) ts
      (parse (ts ++ [last]) reported).program := by
  obtain ⟨ss, s, hrun, hparse⟩ := exists_parse_eq (ts ++ [last]) reported
  have hread := (Production.exact ((parse (ts ++ [last]) reported).errors ≠ [])
    (enough (ts ++ [last]))).reads (.statements .program) ⟨.ofTokens (ts ++ [last]), reported⟩
    trivial hlaid
  have hmarked := State.marked_closed.ends (enough (ts ++ [last])) (.statements .program)
    (s := ⟨.ofTokens (ts ++ [last]), reported⟩) (by simp [State.kinds, Cursor.ofTokens, hlast])
  rw [Production.read, hrun] at hread hmarked
  obtain ⟨us, hus, hread⟩ := hread
  have herrors : s.errors ≠ [] → (parse (ts ++ [last]) reported).errors ≠ [] := by
    intro hne
    rwa [hparse, ← List.length_pos_iff, List.length_mergeSort, List.length_pos_iff]
  obtain ⟨hss, hstop⟩ := hread herrors
  have heof : s.cursor.current.kind = .eof := by simpa using hstop
  obtain ⟨t, rest, hrest, -⟩ := State.exists_current hmarked
  have ht : t.kind = .eof := by rwa [Cursor.current, hrest] at heof
  -- The marker of the end is the last token, so all those before it have been consumed.
  have hall : ts ++ [last] = us ++ t :: rest := hus.rest.trans (by rw [hrest])
  obtain ⟨as, rfl, hlast⟩ | ⟨bs, rfl, hbs⟩ := List.append_eq_append_iff.mp hall
  · obtain rfl : as = [] := by
      cases as <;> simp_all
    rw [hparse] at hss ⊢
    rwa [List.append_nil] at hss
  · cases bs with
    | nil =>
      rw [hparse] at hss ⊢
      rwa [List.append_nil]
    | cons b bs =>
      obtain ⟨rfl, -⟩ := List.cons.inj hbs
      exact absurd ht (hts t (by simp))

/-- Spans are exact and nested. For every source of less than four gigabytes, with errors or without,
the tokens before the marker of the end are the statements of its program and tokens that are
skipped, these only if there are errors. Every node of the program is derived from tokens that stand
together, and its span goes from the start of the first of these to the end of the last one. So no
span is empty, the spans of the children of a node are inside its own and in source order, and the
spans of the statements of the program are in source order, too. -/
theorem spans_nested (source : String) (h : source.utf8ByteSize < 2 ^ 32) :
    ∃ ts, (lex source).tokens =
        ts ++ [⟨.eof, ⟨source.utf8ByteSize, source.utf8ByteSize⟩⟩] ∧
      Statements ((ofSource source).errors ≠ []) ts (ofSource source).program ∧
      (∀ n, Node.Of (ofSource source).program n →
        (∃ js us ks, ts = js ++ us ++ ks ∧ us ≠ [] ∧
          Derives ((ofSource source).errors ≠ []) us n ∧ n.span = cover us) ∧
        n.span.start < n.span.stop ∧
        (∀ m ∈ n.children, n.span.start ≤ m.span.start ∧ m.span.stop ≤ n.span.stop) ∧
        n.children.Pairwise fun l m => l.span.stop ≤ m.span.start) ∧
      (ofSource source).program.Pairwise fun s t => s.span.stop ≤ t.span.start := by
  obtain ⟨ts, htokens, hts, hlaid⟩ := exists_laid_tokens h
  rw [htokens] at hlaid
  have hss : Statements ((ofSource source).errors ≠ []) ts (ofSource source).program := by
    rw [ofSource, htokens]
    exact parse_statements _ hlaid (fun t ht => (hts t ht).1) rfl
  have hlaid : Laid ts := hlaid.sublist (List.sublist_append_left ts _)
  refine ⟨ts, htokens, hss, fun n hn => ?_, ?_⟩
  · obtain ⟨js, us, ks, rfl, hd⟩ := hss.exists_derives hn
    have hus : Laid us := hlaid.sublist
      ((List.sublist_append_right js us).trans (List.sublist_append_left _ ks))
    refine ⟨⟨js, us, ks, rfl, hd.ne_nil, hd, hd.span_eq⟩, ?_, ?_, hd.spread.pairwise hus⟩
    · exact hd.span_lt hus fun t ht => (hts t (by simp [ht])).2
    · exact fun m hm => hd.child_inside hus hm
  · simpa [List.pairwise_map, Node.span] using hss.spread.pairwise hlaid

/-- A function literal and a call between parentheses, a broken statement, and a hash literal with a
comma at its end. -/
def gapped : String := "let f = (fn(x) { return (x); }); g(; [(f(2)), {1: f,}];"

/-- The spans of a program between whose statements tokens have been skipped. -/
theorem spans_nested_gapped :
    gapped.utf8ByteSize < 2 ^ 32 ∧
      (ofSource gapped).program.map (·.span) = [⟨0, 31⟩, ⟨37, 54⟩] ∧
      ∃ ts, (lex gapped).tokens =
          ts ++ [⟨.eof, ⟨gapped.utf8ByteSize, gapped.utf8ByteSize⟩⟩] ∧
        Statements ((ofSource gapped).errors ≠ []) ts (ofSource gapped).program ∧
        (∀ n, Node.Of (ofSource gapped).program n →
          (∃ js us ks, ts = js ++ us ++ ks ∧ us ≠ [] ∧
            Derives ((ofSource gapped).errors ≠ []) us n ∧ n.span = cover us) ∧
          n.span.start < n.span.stop ∧
          (∀ m ∈ n.children, n.span.start ≤ m.span.start ∧ m.span.stop ≤ n.span.stop) ∧
          n.children.Pairwise fun l m => l.span.stop ≤ m.span.start) ∧
        (ofSource gapped).program.Pairwise fun s t => s.span.stop ≤ t.span.start :=
  ⟨by decide, by decide +kernel, spans_nested gapped (by decide)⟩

end MonkeyLang.Program
