import MonkeyLang.Proofs.Lexing.Shapes

/-!
# The lexer cuts by the rules

The lexeme that the lexer finds at the front of a text is the next piece of it, and the next piece
of a text is unique. So the lexer cuts a text in the only way that the rules allow.

## Main statements

* `first_next` : the lexer's lexemes are next pieces.
* `Next.unique`, `Cut.unique` : pieces are unique.
-/

namespace MonkeyLang.Lexical

/-! ### The next piece -/

/-- The longest run that goes on as long as `p` holds. -/
theorem length_le_takeWhile {p : Char → Bool} {cs ds es : List Char} (hcs : cs = ds ++ es)
    (hds : ∀ d ∈ ds, p d = true) : ds.length ≤ (cs.takeWhile p).length := by
  rw [hcs, List.takeWhile_append_of_pos hds, List.length_append]
  exact Nat.le_add_right ..

theorem head?_dropWhile {p : Char → Bool} {cs : List Char} :
    ∀ c ∈ (cs.dropWhile p).head?, p c = false := by
  intro c hc
  have := List.head?_dropWhile_not p cs
  rwa [hc] at this

/-- What starts a gap. -/
theorem Gap.head {c : Char} {cs ds es : List Char} (h : Gap ds es) (heq : c :: cs = ds ++ es) :
    Blank c ∨ c = '/' ∧ cs.head? = some '/' := by
  cases h with
  | @blanks ds es hne hds _ =>
    cases ds with
    | nil => exact absurd rfl hne
    | cons d ds =>
      obtain ⟨rfl, -⟩ := List.cons.inj heq
      exact .inl (hds c List.mem_cons_self)
  | comment _ _ =>
    obtain ⟨rfl, rfl⟩ := List.cons.inj heq
    exact .inr ⟨rfl, rfl⟩

/-- A run of characters in one class that is a word, and longer than any other. -/
theorem next_run {p : Char → Bool} {c : Char} {cs : List Char} {k : TokenKind}
    (hgap : ¬ Blank c ∧ c ≠ '/') (hk : Spells (c :: cs.takeWhile p) k)
    (hp : ∀ ds k', Spells (c :: ds) k' → ∀ d ∈ ds, p d = true) :
    Next (c :: cs.takeWhile p) (cs.dropWhile p) (some k) := by
  have hall : c :: cs.takeWhile p ++ cs.dropWhile p = c :: cs := by simp
  refine .word ?_ hk ?_
  · rw [hall]
    intro ds es h heq
    obtain hb | ⟨hc, -⟩ := h.head heq
    · exact hgap.1 hb
    · exact hgap.2 hc
  · rw [hall]
    intro ds es k' h heq
    cases ds with
    | nil => exact absurd rfl h.ne_nil
    | cons d ds =>
      obtain ⟨rfl, hcs⟩ := List.cons.inj heq
      have := length_le_takeWhile hcs (hp ds k' h)
      simpa using this

theorem next_word {c : Char} (hc : Letter c) (cs : List Char) (span : Span) :
    Next (Lexeme.run .word isWordPart c cs).text (Lexeme.run .word isWordPart c cs).rest
      ((Lexeme.run .word isWordPart c cs).read span).1 := by
  refine next_run ⟨?_, ?_⟩ ?_ fun ds k' h d hd => (isWordPart_iff d).2 ((h.of_letter hc).1 d hd)
  · exact fun hb => hb.not_part (.inl hc)
  · rintro rfl
    exact absurd hc (by decide)
  · have hname : (Lexeme.run .word isWordPart c cs).text = c :: cs.takeWhile isWordPart := rfl
    rw [hname]
    cases hkey : TokenKind.keyword? (String.ofList (c :: cs.takeWhile isWordPart)) with
    | some k =>
      obtain ⟨hk, hspelt⟩ := keyword?_eq_some_iff.1 hkey
      have := Spells.keyword hk
      rwa [hspelt, String.toList_ofList] at this
    | none =>
      refine .ident hc (fun d hd => (isWordPart_iff d).1 ?_) fun k hk hspelt => ?_
      · exact List.all_eq_true.1 List.all_takeWhile d hd
      · rw [← hspelt, String.ofList_toList, keyword?_eq_some_iff.2 ⟨hk, rfl⟩] at hkey
        cases hkey

theorem next_numeral {c : Char} (hc : Digit c) (cs : List Char) (span : Span) :
    Next (Lexeme.run .numeral Numeral.isDigit c cs).text
      (Lexeme.run .numeral Numeral.isDigit c cs).rest
      ((Lexeme.run .numeral Numeral.isDigit c cs).read span).1 := by
  have hdigits : ∀ d ∈ c :: cs.takeWhile Numeral.isDigit, Digit d := by
    intro d hd
    obtain rfl | hd := List.mem_cons.1 hd
    · exact hc
    · exact (isDigit_iff d).1 (List.all_eq_true.1 List.all_takeWhile d hd)
  have hread : ((Lexeme.run .numeral Numeral.isDigit c cs).read span).1 =
      if Numeral.value (c :: cs.takeWhile Numeral.isDigit) ≤ maxInteger then
        some (.int (Int64.ofNat (Numeral.value (c :: cs.takeWhile Numeral.isDigit))))
      else some .invalid := by
    by_cases h : Numeral.value (c :: cs.takeWhile Numeral.isDigit) ≤ maxInteger <;>
      simp [Lexeme.read, Lexeme.run, h]
  have hmax : maxInteger + 1 = 2 ^ 63 := by decide
  have hgap : ¬ Blank c ∧ c ≠ '/' := by
    refine ⟨fun hb => hb.not_part (.inr hc), ?_⟩
    rintro rfl
    exact absurd hc (by decide)
  rw [hread]
  split
  next hle =>
    refine next_run hgap (.int (by simp) hdigits ?_) fun ds k' h d hd =>
      (isDigit_iff d).2 ((h.of_digit hc).1 d hd)
    rw [← value_eq_number, Int64.toInt_ofNat_of_lt (by omega)]
  next hlt =>
    refine next_run hgap (.tooLarge (by simp) hdigits ?_) fun ds k' h d hd =>
      (isDigit_iff d).2 ((h.of_digit hc).1 d hd)
    rw [← value_eq_number]
    omega

theorem next_stringLiteral (cs : List Char) (span : Span) :
    Next (Lexeme.stringLiteral cs).text (Lexeme.stringLiteral cs).rest
      ((Lexeme.stringLiteral cs).read span).1 := by
  have hbody := body_splitBody cs
  have hall := Lexeme.stringLiteral_text_append_rest cs
  have hgap : ∀ ds es, Gap ds es → '"' :: cs ≠ ds ++ es := by
    intro ds es h heq
    obtain hb | ⟨hc, -⟩ := h.head heq
    · exact absurd hb (by decide)
    · exact absurd hc (by decide)
  -- A literal with a closing quote has the body that the lexer finds, and one without has no more.
  have hclosed {bs ts es : List Char} (hb : Body bs ts) (hcs : cs = bs ++ '"' :: es) :
      splitBody cs = (bs, '"' :: es) := by
    rw [hcs, hb.splitBody_append, splitBody, List.append_nil]
  have hopen {bs ts es : List Char} (hb : Body bs ts) (hcs : cs = bs ++ es) :
      bs.length ≤ (splitBody cs).1.length := by
    rw [hcs, hb.splitBody_append, List.length_append]
    exact Nat.le_add_right ..
  unfold Lexeme.stringLiteral at hall ⊢
  split at hall
  next body rest hsplit =>
    rw [hsplit] at hbody hopen
    refine .word (hall ▸ hgap) (.closed hbody) ?_
    rw [hall]
    intro ds es k h heq
    cases ds with
    | nil => exact absurd rfl h.ne_nil
    | cons d ds =>
      obtain ⟨rfl, hcs⟩ := List.cons.inj heq
      obtain ⟨bs, ts, hb, rfl, -⟩ | ⟨⟨ts, hb⟩, -⟩ := h.of_quote
      · have := hopen hb (hcs.trans (List.append_assoc ..))
        simpa using this
      · have hle : ds.length ≤ body.length := hopen hb hcs
        simp only [List.length_cons, List.length_append, List.length_nil]
        omega
  next body rest hno hsplit =>
    rw [hsplit] at hbody hopen hclosed
    refine .word (hall ▸ hgap) (.unclosed hbody) ?_
    rw [hall]
    intro ds es k h heq
    cases ds with
    | nil => exact absurd rfl h.ne_nil
    | cons d ds =>
      obtain ⟨rfl, hcs⟩ := List.cons.inj heq
      obtain ⟨bs, ts, hb, rfl, -⟩ | ⟨⟨ts, hb⟩, -⟩ := h.of_quote
      · obtain ⟨-, rfl⟩ := Prod.mk.inj (hclosed hb (hcs.trans (List.append_assoc ..)))
        exact absurd rfl (hno es)
      · have := hopen hb hcs
        simpa using this

/-- A character that is no word with the next one is a symbol or stray. -/
theorem next_single {c : Char} {cs : List Char} (span : Span)
    (hgap : ∀ ds es, Gap ds es → c :: cs ≠ ds ++ es)
    (hc : ¬ Letter c ∧ ¬ Digit c ∧ c ≠ '"') (hpair : ∀ d ∈ cs.head?, symbolPair? c d = none) :
    Next (Lexeme.single c cs).text (Lexeme.single c cs).rest
      ((Lexeme.single c cs).read span).1 := by
  have hone : ∀ ds es k, Spells ds k → c :: cs = ds ++ es → ds = [c] ∧ symbol? c = some k := by
    intro ds es k h heq
    cases ds with
    | nil => exact absurd rfl h.ne_nil
    | cons d ds =>
      obtain ⟨rfl, hcs⟩ := List.cons.inj heq
      obtain ⟨hk, hname⟩ := h.of_other hc.1 hc.2.1 hc.2.2
      obtain ⟨c', cs', hname', hlen, -⟩ := exists_displayName_of_symbol hk
      obtain ⟨rfl, rfl⟩ := List.cons.inj (hname.symm.trans hname')
      match ds with
      | [] => exact ⟨rfl, symbol?_eq_some_iff.2 ⟨hk, hname⟩⟩
      | [d] =>
        have := hpair d (by rw [hcs]; rfl)
        rw [symbolPair?_eq_some_iff.2 ⟨hk, hname⟩] at this
        cases this
  unfold Lexeme.single
  cases hsym : symbol? c with
  | some k =>
    obtain ⟨hk, hname⟩ := symbol?_eq_some_iff.1 hsym
    refine .word hgap (hname ▸ .symbol hk) ?_
    intro ds es k' h heq
    obtain ⟨rfl, -⟩ := hone ds es k' h heq
    exact Nat.le_refl 1
  | none =>
    refine .stray hgap ?_
    intro ds es k h heq
    have := (hone ds es k h heq).2
    rw [hsym] at this
    cases this

theorem next_punctuation {c : Char} (hb : ¬ Blank c) (hc : ¬ Letter c ∧ ¬ Digit c ∧ c ≠ '"')
    (cs : List Char) (span : Span) :
    Next (Lexeme.punctuation c cs).text (Lexeme.punctuation c cs).rest
      ((Lexeme.punctuation c cs).read span).1 := by
  cases cs with
  | nil =>
    refine next_single span (fun ds es h heq => ?_) hc (by simp)
    obtain hb' | ⟨-, hd⟩ := h.head heq
    · exact hb hb'
    · simp at hd
  | cons d cs =>
    rw [Lexeme.punctuation]
    split
    next hslash =>
      obtain ⟨rfl, rfl⟩ : c = '/' ∧ d = '/' := by simpa using hslash
      have htext : (Lexeme.run .gap (· != '\n') '/' ('/' :: cs)).text =
          '/' :: '/' :: cs.takeWhile (· != '\n') := rfl
      rw [htext]
      refine .gap (.comment (fun d hd => ?_) fun d hd => ?_)
      · simpa using List.all_eq_true.1 List.all_takeWhile d hd
      · simpa using head?_dropWhile d hd
    next hslash =>
      have hgap : ∀ ds es, Gap ds es → c :: d :: cs ≠ ds ++ es := by
        intro ds es h heq
        obtain hb' | ⟨rfl, hd⟩ := h.head heq
        · exact hb hb'
        · exact hslash (by simpa using hd)
      split
      next k hpair =>
        obtain ⟨hk, hname⟩ := symbolPair?_eq_some_iff.1 hpair
        refine .word hgap (hname ▸ .symbol hk) ?_
        intro ds es k' h heq
        cases ds with
        | nil => exact absurd rfl h.ne_nil
        | cons d ds =>
          obtain ⟨rfl, -⟩ := List.cons.inj heq
          obtain ⟨hk', hname'⟩ := h.of_other hc.1 hc.2.1 hc.2.2
          obtain ⟨c', cs', hname'', hlen, -⟩ := exists_displayName_of_symbol hk'
          obtain ⟨rfl, rfl⟩ := List.cons.inj (hname'.symm.trans hname'')
          simpa using hlen
      next hpair => exact next_single span hgap hc (by simpa using hpair)

/-- The lexeme at the front of a text is the next piece of the text. -/
theorem first_next (c : Char) (cs : List Char) (span : Span) :
    Next (Lexeme.first c cs).text (Lexeme.first c cs).rest
      ((Lexeme.first c cs).read span).1 := by
  unfold Lexeme.first
  split
  next hspace =>
    have htext : (Lexeme.run .gap isSpace c cs).text = c :: cs.takeWhile isSpace := rfl
    rw [htext]
    refine .gap (.blanks (by simp) (fun d hd => (isSpace_iff d).1 ?_) fun d hd => ?_)
    · obtain rfl | hd := List.mem_cons.1 hd
      · exact hspace
      · exact List.all_eq_true.1 List.all_takeWhile d hd
    · rw [← isSpace_iff, head?_dropWhile d hd]
      decide
  next hspace =>
    rw [isSpace_iff] at hspace
    split
    next hword => exact next_word ((isWordStart_iff c).1 hword) cs span
    next hword =>
      rw [isWordStart_iff] at hword
      split
      next hdigit => exact next_numeral ((isDigit_iff c).1 hdigit) cs span
      next hdigit =>
        rw [isDigit_iff] at hdigit
        split
        next hquote => exact next_stringLiteral cs span
        next hquote =>
          exact next_punctuation hspace ⟨hword, hdigit, by simpa using hquote⟩ cs span

/-! ### Only one way to cut -/

theorem Gap.unique {cs ds rest rest' : List Char} (h : Gap cs rest) (h' : Gap ds rest')
    (heq : cs ++ rest = ds ++ rest') : cs = ds := by
  -- Two runs of one class of characters at the front of a text, each as long as it goes on.
  have run {p : Char → Prop} {cs ds rest rest' : List Char} (hcs : ∀ c ∈ cs, p c)
      (hrest : ∀ c ∈ rest.head?, ¬ p c) (hds : ∀ d ∈ ds, p d) (hrest' : ∀ d ∈ rest'.head?, ¬ p d)
      (heq : cs ++ rest = ds ++ rest') : cs = ds := by
    obtain ⟨es, rfl, rfl⟩ | ⟨es, rfl, rfl⟩ := List.append_eq_append_iff.1 heq
    · cases es with
      | nil => exact (List.append_nil _).symm
      | cons e es => exact absurd (hds e (by simp)) (hrest e rfl)
    · cases es with
      | nil => exact List.append_nil _
      | cons e es => exact absurd (hcs e (by simp)) (hrest' e rfl)
  have slash : ∀ {cs rest ds : List Char}, cs ≠ [] → (∀ c ∈ cs, Blank c) →
      cs ++ rest ≠ '/' :: ds := by
    intro cs rest ds hne hcs heq
    cases cs with
    | nil => exact hne rfl
    | cons c cs =>
      obtain ⟨rfl, -⟩ := List.cons.inj heq
      exact absurd (hcs '/' List.mem_cons_self) (by decide)
  cases h with
  | blanks hne hcs hrest =>
    cases h' with
    | blanks _ hds hrest' => exact run hcs hrest hds hrest' heq
    | comment _ _ => exact absurd heq (slash hne hcs)
  | comment hcs hrest =>
    cases h' with
    | blanks hne hds _ => exact absurd heq.symm (slash hne hds)
    | comment hds hrest' =>
      have htail := (List.cons.inj (List.cons.inj heq).2).2
      have := run (p := (· ≠ '\n')) hcs (by simpa using hrest) hds (by simpa using hrest') htail
      rw [this]

/-- A text has one next piece. -/
theorem Next.unique {cs ds rest rest' : List Char} {k? l? : Option TokenKind}
    (h : Next cs rest k?) (h' : Next ds rest' l?) (heq : cs ++ rest = ds ++ rest') :
    cs = ds ∧ rest = rest' ∧ k? = l? := by
  cases h with
  | gap hg =>
    cases h' with
    | gap hg' =>
      obtain rfl := hg.unique hg' heq
      exact ⟨rfl, List.append_cancel_left heq, rfl⟩
    | word hno _ _ => exact absurd heq.symm (hno _ _ hg)
    | stray hno _ => exact absurd heq.symm (hno _ _ hg)
  | word hno hk hlong =>
    cases h' with
    | gap hg' => exact absurd heq (hno _ _ hg')
    | word _ hk' hlong' =>
      have hle := hlong _ _ _ hk' heq
      have hge := hlong' _ _ _ hk heq.symm
      obtain ⟨rfl, rfl⟩ := List.append_inj heq (Nat.le_antisymm hge hle)
      exact ⟨rfl, rfl, by rw [hk.unique hk']⟩
    | stray _ hno' => exact absurd heq.symm (hno' _ _ _ hk)
  | stray hno hnot =>
    cases h' with
    | gap hg' => exact absurd heq (hno _ _ hg')
    | word _ hk' _ => exact absurd heq (hnot _ _ _ hk')
    | stray _ _ =>
      obtain ⟨rfl, rfl⟩ := List.cons.inj heq
      exact ⟨rfl, rfl, rfl⟩

theorem Next.ne_nil {cs rest : List Char} {k? : Option TokenKind} (h : Next cs rest k?) :
    cs ≠ [] := by
  cases h with
  | gap hg =>
    cases hg with
    | blanks hne _ _ => exact hne
    | comment _ _ => simp
  | word _ hk _ => exact hk.ne_nil
  | stray _ _ => simp

/-- A text is cut in one way. -/
theorem Cut.unique {cs : List Char} {ps qs : List Piece} (h : Cut cs ps) (h' : Cut cs qs) :
    ps = qs := by
  induction h generalizing qs with
  | nil =>
    generalize hcs : ([] : List Char) = cs at h'
    cases h' with
    | nil => rfl
    | cons hn _ => exact absurd (List.append_eq_nil_iff.1 hcs.symm).1 hn.ne_nil
  | @cons ds rest k? ps hn _ ih =>
    generalize hcs : ds ++ rest = cs at h'
    cases h' with
    | nil => exact absurd (List.append_eq_nil_iff.1 hcs).1 hn.ne_nil
    | cons hn' h' =>
      obtain ⟨rfl, rfl, rfl⟩ := hn.unique hn' hcs
      rw [ih h']

end MonkeyLang.Lexical
