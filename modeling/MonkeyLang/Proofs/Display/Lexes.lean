import MonkeyLang.Proofs.Display.Canonical
import MonkeyLang.Proofs.Lexing.Shapes

/-!
# Texts that are cut into given words

`Lexes cs ks` says what the lexer makes of the text `cs`: the words `ks`, if all string literals
among them are plain, and an error if not. What stands at the front of a text is taken off word by
word, so there is one lemma for each sort of word and one for blanks.

A string literal in canonical form is always a closed literal. It stands for the text that was
written if the text is plain, and has an escape that stands for nothing if it is not.

## Main statements

* `Lexes.blank`, `Lexes.keyword`, `Lexes.ident`, `Lexes.int`, `Lexes.symbol`, `Lexes.str` : a text
  with one more word at its front.
-/

namespace MonkeyLang

open MonkeyLang.Lexical

/-- `Lexes cs ks`: wherever the text `cs` stands in a source, its words are `ks` and there is no
error, unless there is a string literal among `ks` that is not plain. Then there is an error. -/
def Lexes (cs : List Char) (ks : List TokenKind) : Prop :=
  ∀ offset, ((lexFrom offset cs).errors = [] ↔ PlainWords ks) ∧
    (PlainWords ks → (lexFrom offset cs).tokens.map (·.kind) = ks)

/-- Whether a word that ends before the text ends there. -/
def Breaks (cs : List Char) : Prop := ∀ c ∈ cs.head?, isWordPart c = false

theorem breaks_nil : Breaks [] := by simp [Breaks]

theorem breaks_cons {c : Char} (hc : isWordPart c = false) (cs : List Char) : Breaks (c :: cs) := by
  intro d hd
  obtain rfl : c = d := by simpa using hd
  exact hc

theorem plainWords_cons (k : TokenKind) (ks : List TokenKind) :
    PlainWords (k :: ks) ↔ (∀ t, k = .str t → ∀ c ∈ t.toList, PlainChar c) ∧ PlainWords ks := by
  constructor
  · intro h
    refine ⟨?_, fun t ht => h t (List.mem_cons_of_mem k ht)⟩
    rintro t rfl
    exact h t List.mem_cons_self
  · rintro ⟨hk, hks⟩ t ht
    rcases List.mem_cons.1 ht with rfl | ht
    · exact hk t rfl
    · exact hks t ht

theorem plainWords_cons_of_ne {k : TokenKind} (hk : ∀ t, k ≠ .str t) (ks : List TokenKind) :
    PlainWords (k :: ks) ↔ PlainWords ks := by
  rw [plainWords_cons]
  exact ⟨And.right, fun h => ⟨fun t ht => absurd ht (hk t), h⟩⟩

/-! ### Names and numbers -/

/-- An identifier is spelt like a name, and is no keyword. -/
theorem IsIdentifier.exists_toList {x : String} (hx : IsIdentifier x) :
    ∃ c cs, x.toList = c :: cs ∧ isWordStart c = true ∧ (∀ d ∈ cs, isWordPart d = true) ∧
      TokenKind.keyword? x = none := by
  unfold IsIdentifier at hx
  generalize hws : x.toList = ws at hx
  generalize hk : TokenKind.ident x = k at hx
  cases hx with
  | @ident c cs hc hcs hkey =>
    refine ⟨c, cs, rfl, (isWordStart_iff c).2 hc, fun d hd => (isWordPart_iff d).2 (hcs d hd), ?_⟩
    rw [Option.eq_none_iff_forall_ne_some]
    intro k hword
    obtain ⟨hmem, hname⟩ := keyword?_eq_some_iff.1 hword
    exact hkey k hmem (by rw [hname, hws])
  | keyword hmem => simp [← hk, keywords] at hmem
  | symbol hmem => simp [← hk, symbols] at hmem
  | _ => cases hk

/-- A number that is not negative is written in digits, which denote it. -/
theorem exists_toList_toString {v : Int64} (hv : 0 ≤ v.toInt) :
    ∃ c cs, (toString v.toInt).toList = c :: cs ∧ (∀ d ∈ c :: cs, Numeral.isDigit d = true) ∧
      Numeral.value (c :: cs) = v.toInt := by
  obtain ⟨n, hn⟩ := Int.eq_ofNat_of_zero_le hv
  have hlist : (toString v.toInt).toList = Nat.toDigits 10 n := by
    rw [hn, Int.toString_eq_repr]
    exact Nat.toList_repr
  have hdigits : ∀ d ∈ Nat.toDigits 10 n, Numeral.isDigit d = true := by
    intro d hd
    have := Nat.isDigit_of_mem_toDigits (by decide) (by decide) hd
    simpa [Numeral.isDigit, Char.isDigit, Char.le_def] using this
  have hvalue : Numeral.value (Nat.toDigits 10 n) = n := by
    rw [value_eq_number, number, Nat.ofDigitChars_ten_toDigits]
  rw [hlist]
  cases hds : Nat.toDigits 10 n with
  | nil => exact absurd hds Nat.toDigits_ne_nil
  | cons c cs =>
    rw [hds] at hdigits hvalue
    exact ⟨c, cs, rfl, hdigits, by rw [hvalue, hn]⟩

/-! ### One word at the front -/

/-- A run takes the characters for which the condition holds, and stops before the first one for
which it does not. -/
theorem run_append {p : Char → Bool} {cs rest : List Char} (shape : Shape) (c : Char)
    (hcs : ∀ d ∈ cs, p d = true) (hrest : ∀ d ∈ rest.head?, p d = false) :
    Lexeme.run shape p c (cs ++ rest) = ⟨shape, c :: cs, rest⟩ := by
  rw [Lexeme.run, List.takeWhile_append_of_pos hcs, List.dropWhile_append_of_pos hcs]
  cases rest with
  | nil => simp
  | cons d ds => simp [hrest d rfl]

namespace Lexes

variable {c : Char} {cs rest : List Char} {k : TokenKind} {ks : List TokenKind}

theorem nil : Lexes [] [.eof] := by
  intro offset
  simp [lexFrom, PlainWords]

/-- A lexeme that is read as a word other than a string literal, and without an error. -/
theorem cons {l : Lexeme} (hfirst : Lexeme.first c cs = l)
    (hread : ∀ span, l.read span = (some k, [])) (hk : ∀ t, k ≠ .str t) (h : Lexes l.rest ks) :
    Lexes (c :: cs) (k :: ks) := by
  intro offset
  obtain ⟨herrors, htokens⟩ := h (offset + byteLength l.text)
  rw [plainWords_cons_of_ne hk, lexFrom, hfirst]
  simp only [hread, List.nil_append, List.map_cons]
  exact ⟨herrors, fun hplain => by rw [htokens hplain]⟩

/-- A blank at the front is passed over. -/
theorem lexFrom_blank (hc : isSpace c = true) (offset : Nat) (cs : List Char) :
    lexFrom offset (c :: cs) = lexFrom (offset + c.utf8Size) cs := by
  have hfirst (c : Char) (hc : isSpace c = true) (cs : List Char) :
      Lexeme.first c cs = .run .gap isSpace c cs := if_pos hc
  rw [lexFrom, hfirst c hc]
  cases cs with
  | nil => simp [Lexeme.run, Lexeme.read]
  | cons d ds =>
    by_cases hd : isSpace d = true
    · rw [lexFrom, hfirst d hd]
      simp [Lexeme.run, Lexeme.read, hd, Nat.add_assoc]
    · simp [Lexeme.run, Lexeme.read, hd]

theorem blank (c : Char) (hc : isSpace c = true) (h : Lexes cs ks) : Lexes (c :: cs) ks := by
  intro offset
  rw [lexFrom_blank hc]
  exact h _

/-- An operator or a delimiter that makes no other lexeme with the next character. -/
theorem symbol (hc : symbol? c = some k)
    (hnext : ∀ d ∈ cs.head?, symbolPair? c d = none ∧ (c = '/' → d ≠ '/')) (h : Lexes cs ks) :
    Lexes (c :: cs) (k :: ks) := by
  have hother : isSpace c = false ∧ isWordStart c = false ∧ Numeral.isDigit c = false ∧
      (c == '"') = false ∧ ∀ t, k ≠ .str t := by
    unfold symbol? at hc
    split at hc <;> simp at hc <;> subst hc <;>
      exact ⟨by decide, by decide, by decide, by decide, by simp⟩
  obtain ⟨hspace, hstart, hdigit, hquote, hk⟩ := hother
  have hsingle : Lexeme.single c cs = ⟨.symbol k, [c], cs⟩ := by simp [Lexeme.single, hc]
  have hfirst : Lexeme.first c cs = ⟨.symbol k, [c], cs⟩ := by
    simp only [Lexeme.first, hspace, hstart, hdigit, hquote, Bool.false_eq_true, if_false]
    cases cs with
    | nil => exact hsingle
    | cons d ds =>
      obtain ⟨hpair, hslash⟩ := hnext d rfl
      have hcomment : (c == '/' && d == '/') = false := by
        by_cases hd : c = '/'
        · simp [hslash hd]
        · simp [hd]
      simp only [Lexeme.punctuation, hcomment, hpair, Bool.false_eq_true, if_false, hsingle]
  exact cons hfirst (fun _ => rfl) hk h

/-- A character that is never the first one of a longer lexeme. -/
theorem delimiter (c : Char) (hc : symbol? c = some k) (h : Lexes cs ks)
    (hone : c ≠ '=' ∧ c ≠ '!' ∧ c ≠ '/' := by decide) : Lexes (c :: cs) (k :: ks) := by
  refine symbol hc (fun d _ => ⟨?_, fun hslash => absurd hslash hone.2.2⟩) h
  simp [symbolPair?, hone.1, hone.2.1]

/-- A name, which is a keyword if it is spelt as one. -/
theorem word (hc : isWordStart c = true) (hcs : ∀ d ∈ cs, isWordPart d = true)
    (hk : (TokenKind.keyword? (String.ofList (c :: cs))).getD (.ident (String.ofList (c :: cs))) = k)
    (hrest : Breaks rest) (h : Lexes rest ks) : Lexes (c :: cs ++ rest) (k :: ks) := by
  have hspace : isSpace c = false := by
    rw [Bool.eq_false_iff, Ne, isSpace_iff]
    exact fun hb => hb.not_part (.inl ((isWordStart_iff c).1 hc))
  have hfirst : Lexeme.first c (cs ++ rest) = ⟨.word, c :: cs, rest⟩ := by
    rw [← run_append .word c hcs hrest]
    simp [Lexeme.first, hspace, hc]
  refine cons hfirst (fun span => by simp only [Lexeme.read, hk]) (fun t ht => ?_) h
  subst ht
  cases hword : TokenKind.keyword? (String.ofList (c :: cs)) with
  | none =>
    rw [hword, Option.getD_none] at hk
    cases hk
  | some k =>
    obtain ⟨hmem, -⟩ := keyword?_eq_some_iff.1 hword
    rw [hword, Option.getD_some] at hk
    subst hk
    simp [keywords] at hmem

theorem keyword (k : TokenKind) (hrest : Breaks rest) (h : Lexes rest ks)
    (hk : k ∈ keywords := by decide) : Lexes (k.displayName.toList ++ rest) (k :: ks) := by
  obtain ⟨c, cs, hname, hc, hcs⟩ := exists_displayName_of_keyword hk
  have hword := keyword?_eq_some_iff.2 ⟨hk, rfl⟩
  rw [hname]
  refine word ((isWordStart_iff c).2 hc) (fun d hd => (isWordPart_iff d).2 (.inl (hcs d hd))) ?_
    hrest h
  rw [← hname, String.ofList_toList, hword, Option.getD_some]

theorem ident {x : String} (hx : IsIdentifier x) (hrest : Breaks rest) (h : Lexes rest ks) :
    Lexes (x.toList ++ rest) (.ident x :: ks) := by
  obtain ⟨c, cs, hlist, hc, hcs, hkey⟩ := hx.exists_toList
  rw [hlist]
  refine word hc hcs ?_ hrest h
  rw [← hlist, String.ofList_toList, hkey, Option.getD_none]

/-- A number in decimal digits. -/
theorem int {v : Int64} (hv : 0 ≤ v.toInt) (hrest : Breaks rest) (h : Lexes rest ks) :
    Lexes ((toString v.toInt).toList ++ rest) (.int v :: ks) := by
  obtain ⟨c, cs, hlist, hdigits, hvalue⟩ := exists_toList_toString hv
  obtain ⟨hc, hcs⟩ := List.forall_mem_cons.1 hdigits
  rw [hlist]
  have hfirst : Lexeme.first c (cs ++ rest) = ⟨.numeral, c :: cs, rest⟩ := by
    have hspace : isSpace c = false := by
      rw [Bool.eq_false_iff, Ne, isSpace_iff]
      exact fun hb => hb.not_part (.inr ((isDigit_iff c).1 hc))
    have hstart : isWordStart c = false := by
      rw [Bool.eq_false_iff, Ne, isWordStart_iff]
      exact ((isDigit_iff c).1 hc).not_letter
    have hstop : ∀ d ∈ rest.head?, Numeral.isDigit d = false := by
      intro d hd
      have := hrest d hd
      rw [isWordPart, Bool.or_eq_false_iff] at this
      exact this.2
    rw [← run_append .numeral c hcs hstop]
    simp [Lexeme.first, hspace, hstart, hc]
  refine cons hfirst (fun span => ?_) (by simp) h
  have hlt : Numeral.value (c :: cs) < 2 ^ 63 := by
    have := Int64.toInt_lt v
    omega
  have hle : Numeral.value (c :: cs) ≤ maxInteger := Nat.le_of_lt_succ hlt
  have hof : Int64.ofNat (Numeral.value (c :: cs)) = v := by
    apply Int64.toInt.inj
    rw [Int64.toInt_ofNat_of_lt hlt, hvalue]
  simp only [Lexeme.read, if_pos hle, hof]

/-- An infix operator, before a blank. -/
theorem binaryOp (op : BinaryOp) (h : Lexes (' ' :: cs) ks) :
    Lexes (op.symbol.toList ++ ' ' :: cs) (op.token :: ks) := by
  have hone {c : Char} {k : TokenKind} (hc : symbol? c = some k) :
      Lexes (c :: ' ' :: cs) (k :: ks) := by
    refine symbol hc (fun d hd => ?_) h
    obtain rfl : ' ' = d := by simpa using hd
    exact ⟨rfl, fun _ => by decide⟩
  cases op with
  | eq =>
    exact cons (l := ⟨.symbol .eqEq, ['=', '='], ' ' :: cs⟩) rfl (fun _ => rfl)
      (by simp [BinaryOp.token]) h
  | notEq =>
    exact cons (l := ⟨.symbol .notEq, ['!', '='], ' ' :: cs⟩) rfl (fun _ => rfl)
      (by simp [BinaryOp.token]) h
  | _ => exact hone rfl

end Lexes

/-! ### String literals -/

/-- The digits of a numeral are neither quotes nor backslashes. -/
theorem ne_of_mem_toDigits {c : Char} {n : Nat} (hc : c ∈ Nat.toDigits 16 n) :
    c ≠ '"' ∧ c ≠ '\\' := by
  have hdigit (d : Nat) : d.digitChar ≠ '"' ∧ d.digitChar ≠ '\\' := by
    match d with
    | 0 | 1 | 2 | 3 | 4 | 5 | 6 | 7 | 8 | 9 | 10 | 11 | 12 | 13 | 14 | 15 => decide
    | d + 16 => simp [Nat.digitChar]
  induction n using Nat.strongRecOn with
  | ind n ih =>
    rw [Nat.toDigits_eq_if (by decide)] at hc
    split at hc
    next hlt =>
      rw [List.mem_singleton.1 hc]
      exact hdigit n
    next hlt =>
      rcases List.mem_append.1 hc with hc | hc
      · exact ih (n / 16) (by omega) hc
      · rw [List.mem_singleton.1 hc]
        exact hdigit _

/-- How a character is written: as itself, as an escape that stands for it, or, if it is not plain,
as an escape that stands for nothing and more. -/
theorem character_cases (c : Char) :
    ((Quoted.character '"' c).toList = [c] ∧ c ≠ '"' ∧ c ≠ '\\' ∧ PlainChar c) ∨
    (∃ d, (Quoted.character '"' c).toList = ['\\', d] ∧ (d, c) ∈ escapes ∧ PlainChar c) ∨
    ∃ d ds, (Quoted.character '"' c).toList = '\\' :: d :: ds ∧ (∀ e, (d, e) ∉ escapes) ∧
      (∀ e ∈ ds, e ≠ '"' ∧ e ≠ '\\') ∧ ¬ PlainChar c := by
  by_cases hnul : c = '\x00'
  · subst hnul
    refine .inr (.inr ⟨'0', [], rfl, by simp [escapes], by simp, ?_⟩)
    rintro (h | h | h) <;> exact absurd h (by decide)
  by_cases htab : c = '\t'
  · subst htab
    exact .inr (.inl ⟨'t', rfl, by decide, .inl rfl⟩)
  by_cases hcr : c = '\r'
  · subst hcr
    refine .inr (.inr ⟨'r', [], rfl, by simp [escapes], by simp, ?_⟩)
    rintro (h | h | h) <;> exact absurd h (by decide)
  by_cases hlf : c = '\n'
  · subst hlf
    exact .inr (.inl ⟨'n', rfl, by decide, .inr (.inl rfl)⟩)
  by_cases hback : c = '\\'
  · subst hback
    exact .inr (.inl ⟨'\\', rfl, by decide, .inr (.inr (by decide))⟩)
  by_cases hquote : c = '"'
  · subst hquote
    exact .inr (.inl ⟨'"', rfl, by decide, .inr (.inr (by decide))⟩)
  have hwritten : Quoted.character '"' c =
      if NonPrinting.isNonPrinting c then Quoted.codePoint c else c.toString := by
    simp [Quoted.character, hnul, htab, hcr, hlf, hback, hquote]
  rw [hwritten]
  split
  next hnon =>
    refine .inr (.inr ⟨'u', '\x7b' :: (Nat.toDigits 16 c.toNat ++ ['\x7d']), ?_, ?_, ?_, ?_⟩)
    · simp [Quoted.codePoint, Numeral.hex]
    · simp [escapes]
    · intro e he
      rcases List.mem_cons.1 he with rfl | he
      · decide
      rcases List.mem_append.1 he with he | he
      · exact ne_of_mem_toDigits he
      · obtain rfl := List.mem_singleton.1 he
        decide
    · rintro (h | h | h)
      · exact htab h
      · exact hlf h
      · rw [h] at hnon
        cases hnon
  next hnon => exact .inl ⟨by simp, hquote, hback, .inr (.inr (by simpa using hnon))⟩

theorem invalidEscapes_cons {c : Char} (hc : c ≠ '\\') (offset : Nat) (cs : List Char) :
    invalidEscapes offset (c :: cs) = invalidEscapes (offset + c.utf8Size) cs := by
  rw [invalidEscapes]
  rintro d ds rfl
  exact absurd rfl hc

/-- Characters that stand for themselves are read as they are. -/
theorem body_append {ds cs ts : List Char} (hds : ∀ d ∈ ds, d ≠ '"' ∧ d ≠ '\\') (h : Body cs ts) :
    Body (ds ++ cs) (ds ++ ts) := by
  induction ds with
  | nil => exact h
  | cons d ds ih =>
    obtain ⟨hd, hds⟩ := List.forall_mem_cons.1 hds
    exact .plain hd.1 hd.2 (ih hds)

/-- What is written for a text is the body of a string literal, without errors just when the text is
plain, and then the literal stands for the text. -/
theorem exists_body_characters (cs : List Char) :
    ∃ ts, Body (Quoted.characters '"' cs).toList ts ∧
      (∀ offset, invalidEscapes offset (Quoted.characters '"' cs).toList = [] ↔
        ∀ c ∈ cs, PlainChar c) ∧
      ((∀ c ∈ cs, PlainChar c) → ts = cs) := by
  induction cs with
  | nil => exact ⟨[], .nil, fun _ => by simp [Quoted.characters, invalidEscapes], fun _ => rfl⟩
  | cons c cs ih =>
    obtain ⟨ts, hbody, herrors, htext⟩ := ih
    rw [Quoted.characters, String.toList_append]
    simp only [List.forall_mem_cons]
    rcases character_cases c with ⟨hc, hquote, hback, hplain⟩ | ⟨d, hc, hmem, hplain⟩ |
      ⟨d, ds, hc, hnone, hds, hplain⟩
    · rw [hc]
      refine ⟨c :: ts, .plain hquote hback hbody, fun offset => ?_, fun h => by rw [htext h.2]⟩
      rw [List.singleton_append, invalidEscapes_cons hback, herrors]
      exact ⟨fun h => ⟨hplain, h⟩, And.right⟩
    · rw [hc]
      refine ⟨c :: ts, .escape hmem hbody, fun offset => ?_, fun h => by rw [htext h.2]⟩
      simp only [List.cons_append, List.nil_append, invalidEscapes, escape?_eq_some_iff.2 hmem]
      rw [herrors]
      exact ⟨fun h => ⟨hplain, h⟩, And.right⟩
    · rw [hc]
      refine ⟨'\\' :: d :: (ds ++ ts), .unknown hnone (body_append hds hbody), fun offset => ?_,
        fun h => absurd h.1 hplain⟩
      simp only [List.cons_append, invalidEscapes, escape?_eq_none_iff.2 hnone]
      exact ⟨fun h => absurd h (List.cons_ne_nil _ _), fun h => absurd h.1 hplain⟩

/-- A string literal. -/
theorem Lexes.str {t : String} {rest : List Char} {ks : List TokenKind} (h : Lexes rest ks) :
    Lexes ((Quoted.text t).toList ++ rest) (.str t :: ks) := by
  obtain ⟨ts, hbody, herrors, htext⟩ := exists_body_characters t.toList
  generalize hcs : (Quoted.characters '"' t.toList).toList = cs at hbody herrors
  have hlist : (Quoted.text t).toList ++ rest = '"' :: (cs ++ '"' :: rest) := by
    simp [Quoted.text, hcs]
  have hfirst : Lexeme.first '"' (cs ++ '"' :: rest) =
      ⟨.closedString cs, '"' :: (cs ++ ['"']), rest⟩ := by
    have hsplit := hbody.splitBody_append ('"' :: rest)
    rw [splitBody, List.append_nil] at hsplit
    have hstring : Lexeme.first '"' (cs ++ '"' :: rest) = .stringLiteral (cs ++ '"' :: rest) := rfl
    rw [hstring, Lexeme.stringLiteral, hsplit]
    rfl
  intro offset
  obtain ⟨hlater, htokens⟩ := h (offset + byteLength ('"' :: (cs ++ ['"'])))
  have hplain : PlainWords (.str t :: ks) ↔ (∀ c ∈ t.toList, PlainChar c) ∧ PlainWords ks := by
    rw [plainWords_cons]
    refine and_congr_left fun _ => ⟨fun hall => hall t rfl, fun hall s hs => ?_⟩
    rw [← TokenKind.str.inj hs]
    exact hall
  rw [hlist, lexFrom, hfirst, hplain]
  simp only [Lexeme.read, List.append_eq_nil_iff, List.map_cons, herrors, hlater, true_and]
  rintro ⟨hall, hks⟩
  rw [htokens hks, hbody.unescape_eq, htext hall, String.ofList_toList]

end MonkeyLang
