import MonkeyLang.Proofs.Lexing.Words
import MonkeyLang.Token.Lexer

/-!
# What starts a word

The first character of a word tells what sort of word it is: a name, a run of digits, a string
literal or a symbol. So words are compared, by length and by kind, within one sort only.

## Main statements

* `Spells.of_letter`, `Spells.of_digit`, `Spells.of_quote`, `Spells.of_other` : the words that a
  character can start.
* `Spells.unique` : no text is a word of two kinds.
* `Body.splitBody_append` : the lexer takes the longest body that there is.
-/

namespace MonkeyLang.Lexical

/-! ### Characters -/

theorem isSpace_iff (c : Char) : isSpace c = true ↔ Blank c := by
  simp [isSpace, Blank, or_assoc]

theorem isWordStart_iff (c : Char) : isWordStart c = true ↔ Letter c := by
  simp [isWordStart, Letter, or_assoc]

theorem isDigit_iff (c : Char) : Numeral.isDigit c = true ↔ Digit c := by
  simp [Numeral.isDigit, Digit]

theorem isWordPart_iff (c : Char) : isWordPart c = true ↔ Letter c ∨ Digit c := by
  rw [isWordPart, Bool.or_eq_true, isWordStart_iff, isDigit_iff]

instance : DecidablePred Letter := fun c => decidable_of_iff _ (isWordStart_iff c)

instance : DecidablePred Digit := fun c => decidable_of_iff _ (isDigit_iff c)

instance : DecidablePred Blank := fun c => decidable_of_iff _ (isSpace_iff c)

theorem Digit.not_letter {c : Char} (h : Digit c) : ¬ Letter c := by
  obtain ⟨h₀, h₉⟩ := h
  rintro (⟨ha, -⟩ | ⟨hA, -⟩ | rfl)
  · exact absurd (Char.le_trans ha h₉) (by decide)
  · exact absurd (Char.le_trans hA h₉) (by decide)
  · exact absurd h₉ (by decide)

/-- Blanks are no part of names and numbers. -/
theorem Blank.not_part {c : Char} (h : Blank c) : ¬ (Letter c ∨ Digit c) := by
  rcases h with rfl | rfl | rfl | rfl <;> decide

/-- The digits are read as the number that they denote. -/
theorem value_eq_number (cs : List Char) : Numeral.value cs = number cs := by
  rw [Numeral.value, Numeral.valueFrom, number, Nat.ofDigitChars_eq_foldl]
  congr 1
  funext acc c
  rw [Nat.mul_comm]

/-! ### Names and symbols -/

theorem keyword?_eq_some_iff {name : String} {k : TokenKind} :
    TokenKind.keyword? name = some k ↔ k ∈ keywords ∧ k.displayName = name := by
  constructor
  · intro h
    unfold TokenKind.keyword? at h
    split at h <;> simp at h <;> subst h <;> exact ⟨by decide, rfl⟩
  · rintro ⟨hk, rfl⟩
    simp only [keywords, List.mem_cons, List.not_mem_nil, or_false] at hk
    rcases hk with rfl | rfl | rfl | rfl | rfl | rfl | rfl | rfl | rfl | rfl <;> rfl

/-- A keyword consists of letters. -/
theorem exists_displayName_of_keyword {k : TokenKind} (hk : k ∈ keywords) :
    ∃ c cs, k.displayName.toList = c :: cs ∧ Letter c ∧ ∀ d ∈ cs, Letter d := by
  simp only [keywords, List.mem_cons, List.not_mem_nil, or_false] at hk
  have hall {cs : List Char} (h : cs.all isWordStart = true) : ∀ d ∈ cs, Letter d :=
    fun d hd => (isWordStart_iff d).1 (List.all_eq_true.1 h d hd)
  rcases hk with rfl | rfl | rfl | rfl | rfl | rfl | rfl | rfl | rfl | rfl <;>
    exact ⟨_, _, rfl, by decide, hall rfl⟩

theorem symbol?_eq_some_iff {c : Char} {k : TokenKind} :
    symbol? c = some k ↔ k ∈ symbols ∧ k.displayName.toList = [c] := by
  constructor
  · intro h
    unfold symbol? at h
    split at h <;> simp at h <;> subst h <;> exact ⟨by decide, rfl⟩
  · rintro ⟨hk, hc⟩
    simp only [symbols, List.mem_cons, List.not_mem_nil, or_false] at hk
    rcases hk with rfl | rfl | rfl | rfl | rfl | rfl | rfl | rfl | rfl | rfl | rfl | rfl | rfl |
      rfl | rfl | rfl | rfl | rfl | rfl <;> cases hc <;> rfl

theorem symbolPair?_eq_some_iff {c d : Char} {k : TokenKind} :
    symbolPair? c d = some k ↔ k ∈ symbols ∧ k.displayName.toList = [c, d] := by
  constructor
  · intro h
    unfold symbolPair? at h
    split at h
    next hd =>
      obtain rfl : d = '=' := by simpa using hd
      split at h
      next hc =>
        obtain rfl : c = '=' := by simpa using hc
        cases h
        exact ⟨by decide, rfl⟩
      split at h
      next hc =>
        obtain rfl : c = '!' := by simpa using hc
        cases h
        exact ⟨by decide, rfl⟩
      next => cases h
    next => cases h
  · rintro ⟨hk, hc⟩
    simp only [symbols, List.mem_cons, List.not_mem_nil, or_false] at hk
    rcases hk with rfl | rfl | rfl | rfl | rfl | rfl | rfl | rfl | rfl | rfl | rfl | rfl | rfl |
      rfl | rfl | rfl | rfl | rfl | rfl <;> cases hc <;> rfl

/-- A symbol is one character or two, and starts no other sort of word. -/
theorem exists_displayName_of_symbol {k : TokenKind} (hk : k ∈ symbols) :
    ∃ c cs, k.displayName.toList = c :: cs ∧ cs.length ≤ 1 ∧ ¬ Letter c ∧ ¬ Digit c ∧ c ≠ '"' := by
  simp only [symbols, List.mem_cons, List.not_mem_nil, or_false] at hk
  rcases hk with rfl | rfl | rfl | rfl | rfl | rfl | rfl | rfl | rfl | rfl | rfl | rfl | rfl |
    rfl | rfl | rfl | rfl | rfl | rfl <;>
    exact ⟨_, _, rfl, by decide, by decide, by decide, by decide⟩

/-! ### The bodies of string literals -/

theorem escape?_eq_some_iff {c d : Char} : escape? c = some d ↔ (c, d) ∈ escapes := by
  constructor
  · intro h
    unfold escape? at h
    split at h <;> simp at h <;> subst h <;> decide
  · intro h
    simp only [escapes, List.mem_cons, Prod.mk.injEq, List.not_mem_nil, or_false] at h
    obtain ⟨rfl, rfl⟩ | ⟨rfl, rfl⟩ | ⟨rfl, rfl⟩ | ⟨rfl, rfl⟩ := h <;> rfl

theorem escape?_eq_none_iff {c : Char} : escape? c = none ↔ ∀ d, (c, d) ∉ escapes := by
  rw [Option.eq_none_iff_forall_ne_some]
  exact forall_congr' fun d => not_congr escape?_eq_some_iff

/-- A character after a backslash, with what the two stand for. -/
theorem body_pair {c : Char} {cs : List Char} (h : Body cs (unescape cs)) :
    Body ('\\' :: c :: cs) (unescape ('\\' :: c :: cs)) := by
  rw [unescape]
  cases hc : escape? c with
  | some d => exact .escape (escape?_eq_some_iff.1 hc) h
  | none => exact .unknown (escape?_eq_none_iff.1 hc) h

theorem unescape_cons {c : Char} (hc : c ≠ '\\') (cs : List Char) :
    unescape (c :: cs) = c :: unescape cs := by
  rw [unescape]
  rintro d ds rfl
  exact absurd rfl hc

/-- What the lexer takes as a body is one. -/
theorem body_splitBody (cs : List Char) : Body (splitBody cs).1 (unescape (splitBody cs).1) := by
  fun_induction splitBody cs with
  | case1 | case2 | case3 => exact .nil
  | case4 c cs ih => exact body_pair ih
  | case5 c cs hquote hlone hpair ih =>
    have hc : c ≠ '\\' := by
      rintro rfl
      cases cs with
      | nil => exact hlone rfl rfl
      | cons d ds => exact hpair d ds rfl rfl
    rw [unescape_cons hc]
    exact .plain hquote hc ih

namespace Body

variable {cs ds : List Char}

/-- A body stands for one text. -/
theorem unescape_eq (h : Body cs ds) : unescape cs = ds := by
  induction h with
  | nil => rfl
  | plain _ hc _ ih => rw [unescape_cons hc, ih]
  | escape hc _ ih => rw [unescape, escape?_eq_some_iff.2 hc, ih]
  | unknown hc _ ih => rw [unescape, escape?_eq_none_iff.2 hc, ih]

/-- The lexer goes through every body. -/
theorem splitBody_append (h : Body cs ds) (rest : List Char) :
    splitBody (cs ++ rest) = (cs ++ (splitBody rest).1, (splitBody rest).2) := by
  induction h with
  | nil => rfl
  | plain hquote hc _ ih =>
    rw [List.cons_append, splitBody, ih]
    · rfl
    · exact hquote
    · rintro rfl
      exact absurd rfl hc
    · rintro d ds rfl
      exact absurd rfl hc
  | escape _ _ ih | unknown _ _ ih => rw [List.cons_append, List.cons_append, splitBody, ih]; rfl

/-- No body goes on with a quote behind another body. -/
theorem append_quote {es rest : List Char} (h : Body cs ds) (h' : Body (cs ++ '"' :: rest) es) :
    False := by
  have hall := h'.splitBody_append []
  rw [List.append_nil, h.splitBody_append ('"' :: rest)] at hall
  simp [splitBody] at hall

end Body

/-! ### The sorts of words -/

namespace Spells

variable {c : Char} {cs ds : List Char} {k : TokenKind}

/-- A letter starts a name, which is a keyword if it is spelt as one. -/
theorem of_letter (h : Spells (c :: cs) k) (hc : Letter c) :
    (∀ d ∈ cs, Letter d ∨ Digit d) ∧
      k = (TokenKind.keyword? (String.ofList (c :: cs))).getD (.ident (String.ofList (c :: cs))) := by
  generalize hw : c :: cs = ws at h
  cases h with
  | keyword hk =>
    obtain ⟨c', cs', hname, -, hcs⟩ := exists_displayName_of_keyword hk
    have hword := keyword?_eq_some_iff.2 ⟨hk, rfl⟩
    rw [String.ofList_toList, hword]
    obtain ⟨rfl, rfl⟩ := List.cons.inj (hw.trans hname)
    exact ⟨fun d hd => .inl (hcs d hd), rfl⟩
  | ident hc' hcs hkey =>
    obtain ⟨rfl, rfl⟩ := List.cons.inj hw
    refine ⟨hcs, ?_⟩
    cases hword : TokenKind.keyword? (String.ofList (c :: cs)) with
    | none => rfl
    | some k =>
      obtain ⟨hk, hname⟩ := keyword?_eq_some_iff.1 hword
      exact absurd (by rw [hname, String.toList_ofList]) (hkey k hk)
  | symbol hk =>
    obtain ⟨c', cs', hname, -, hnot, -⟩ := exists_displayName_of_symbol hk
    obtain ⟨rfl, -⟩ := List.cons.inj (hw.trans hname)
    exact absurd hc hnot
  | int _ hds _ | tooLarge _ hds _ =>
    subst hw
    exact absurd hc (hds c List.mem_cons_self).not_letter
  | closed _ | unclosed _ =>
    obtain ⟨rfl, -⟩ := List.cons.inj hw
    exact absurd hc (by decide)

/-- A digit starts a run of digits. -/
theorem of_digit (h : Spells (c :: cs) k) (hc : Digit c) :
    (∀ d ∈ cs, Digit d) ∧
      ((∃ v, k = .int v ∧ v.toInt = number (c :: cs)) ∨
        k = .invalid ∧ 2 ^ 63 ≤ number (c :: cs)) := by
  generalize hw : c :: cs = ws at h
  cases h with
  | keyword hk =>
    obtain ⟨c', cs', hname, hletter, -⟩ := exists_displayName_of_keyword hk
    obtain ⟨rfl, -⟩ := List.cons.inj (hw.trans hname)
    exact absurd hletter hc.not_letter
  | ident hc' _ _ =>
    obtain ⟨rfl, -⟩ := List.cons.inj hw
    exact absurd hc' hc.not_letter
  | symbol hk =>
    obtain ⟨c', cs', hname, -, -, hnot, -⟩ := exists_displayName_of_symbol hk
    obtain ⟨rfl, -⟩ := List.cons.inj (hw.trans hname)
    exact absurd hc hnot
  | int _ hds hv =>
    subst hw
    exact ⟨fun d hd => hds d (List.mem_cons_of_mem c hd), .inl ⟨_, rfl, hv⟩⟩
  | tooLarge _ hds hv =>
    subst hw
    exact ⟨fun d hd => hds d (List.mem_cons_of_mem c hd), .inr ⟨rfl, hv⟩⟩
  | closed _ | unclosed _ =>
    obtain ⟨rfl, -⟩ := List.cons.inj hw
    exact absurd hc (by decide)

/-- A quote starts a string literal. -/
theorem of_quote (h : Spells ('"' :: cs) k) :
    (∃ bs ts, Body bs ts ∧ cs = bs ++ ['"'] ∧ k = .str (String.ofList ts)) ∨
      (∃ ts, Body cs ts) ∧ k = .invalid := by
  generalize hw : '"' :: cs = ws at h
  cases h with
  | keyword hk =>
    obtain ⟨c', cs', hname, hletter, -⟩ := exists_displayName_of_keyword hk
    obtain ⟨rfl, -⟩ := List.cons.inj (hw.trans hname)
    exact absurd hletter (by decide)
  | ident hc' _ _ =>
    obtain ⟨rfl, -⟩ := List.cons.inj hw
    exact absurd hc' (by decide)
  | symbol hk =>
    obtain ⟨c', cs', hname, -, -, -, hnot⟩ := exists_displayName_of_symbol hk
    obtain ⟨rfl, -⟩ := List.cons.inj (hw.trans hname)
    exact absurd rfl hnot
  | int _ hds _ | tooLarge _ hds _ =>
    subst hw
    exact absurd (hds '"' List.mem_cons_self) (by decide)
  | closed hb =>
    obtain ⟨-, rfl⟩ := List.cons.inj hw
    exact .inl ⟨_, _, hb, rfl, rfl⟩
  | unclosed hb =>
    obtain ⟨-, rfl⟩ := List.cons.inj hw
    exact .inr ⟨⟨_, hb⟩, rfl⟩

/-- Every other word is a symbol. -/
theorem of_other (h : Spells (c :: cs) k) (hl : ¬ Letter c) (hd : ¬ Digit c) (hq : c ≠ '"') :
    k ∈ symbols ∧ k.displayName.toList = c :: cs := by
  generalize hw : c :: cs = ws at h
  cases h with
  | keyword hk =>
    obtain ⟨c', cs', hname, hletter, -⟩ := exists_displayName_of_keyword hk
    obtain ⟨rfl, -⟩ := List.cons.inj (hw.trans hname)
    exact absurd hletter hl
  | ident hc _ _ =>
    obtain ⟨rfl, -⟩ := List.cons.inj hw
    exact absurd hc hl
  | symbol hk => exact ⟨hk, rfl⟩
  | int _ hds _ | tooLarge _ hds _ =>
    subst hw
    exact absurd (hds c List.mem_cons_self) hd
  | closed _ | unclosed _ =>
    obtain ⟨rfl, -⟩ := List.cons.inj hw
    exact absurd rfl hq

theorem ne_nil (h : Spells cs k) : cs ≠ [] := by
  cases h with
  | keyword hk =>
    obtain ⟨c, cs, hname, -⟩ := exists_displayName_of_keyword hk
    simp [hname]
  | symbol hk =>
    obtain ⟨c, cs, hname, -⟩ := exists_displayName_of_symbol hk
    simp [hname]
  | int hne _ _ | tooLarge hne _ _ => exact hne
  | ident _ _ _ | closed _ | unclosed _ => simp

/-- A word is of one kind. -/
theorem unique {k' : TokenKind} (h : Spells cs k) (h' : Spells cs k') : k = k' := by
  cases cs with
  | nil => exact absurd rfl h.ne_nil
  | cons c cs =>
    by_cases hl : Letter c
    · rw [(h.of_letter hl).2, (h'.of_letter hl).2]
    by_cases hd : Digit c
    · have hlt (v : Int64) : v.toInt < 2 ^ 63 := Int64.toInt_lt v
      obtain ⟨-, ⟨v, rfl, hv⟩ | ⟨rfl, hv⟩⟩ := h.of_digit hd <;>
        obtain ⟨-, ⟨v', rfl, hv'⟩ | ⟨rfl, hv'⟩⟩ := h'.of_digit hd
      · rw [Int64.toInt.inj (hv.trans hv'.symm)]
      · have := hlt v
        omega
      · have := hlt v'
        omega
      · rfl
    by_cases hq : c = '"'
    · subst hq
      obtain ⟨bs, ts, hb, hcs, rfl⟩ | ⟨⟨ts, hb⟩, rfl⟩ := h.of_quote <;>
        obtain ⟨bs', ts', hb', hcs', rfl⟩ | ⟨⟨ts', hb'⟩, rfl⟩ := h'.of_quote
      · obtain ⟨rfl, -⟩ := List.append_inj' (hcs.symm.trans hcs') rfl
        rw [← hb.unescape_eq, ← hb'.unescape_eq]
      · exact (hb.append_quote (hcs ▸ hb')).elim
      · exact (hb'.append_quote (hcs' ▸ hb)).elim
      · rfl
    · obtain ⟨hk, hname⟩ := h.of_other hl hd hq
      obtain ⟨hk', hname'⟩ := h'.of_other hl hd hq
      have hinj : ∀ i ∈ symbols, ∀ j ∈ symbols, i.displayName = j.displayName → i = j := by decide
      exact hinj k hk k' hk' (String.toList_inj.1 (hname.trans hname'.symm))

end Spells

end MonkeyLang.Lexical
