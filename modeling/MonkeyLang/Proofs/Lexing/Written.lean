import MonkeyLang.Proofs.Lexing.Cutting
import MonkeyLang.Proofs.Lexing.Lines
import MonkeyLang.Proofs.Lexing.Places

/-!
# Reading what has been written

Tokens that are written one after the other, with blanks between them, are read again as these
tokens. No blank can be part of a word outside a string literal, so a word that has been written is
the longest one where it stands.

There are several ways to write a token. A number may have zeros in front, and a line feed or a tab
in a string literal is written as it is or as an escape.

## Main definitions

* `Lexical.Content` : the ways to write a text between quotes.
* `Lexical.Writes` : the ways to write a token.
* `Lexical.Spaced` : the ways to write tokens with blanks between them.

## Main statements

* `Lexical.exists_written` : every token that can stand in a program can be written.
* `lex_spaced` : the lexer takes written tokens apart again.
-/

namespace MonkeyLang

namespace Lexical

/-! ### Writing tokens -/

/-- `Content cs ds`: between quotes, `cs` is a way to write the text `ds`. Every character is written
as it is or as an escape that stands for it, and the quote and the backslash as an escape. -/
inductive Content : List Char → List Char → Prop where
  /-- The empty text. -/
  | nil : Content [] []
  /-- A character that is written as it is. -/
  | itself {d : Char} {cs ds : List Char} :
      d ≠ '"' → d ≠ '\\' → Content cs ds → Content (d :: cs) (d :: ds)
  /-- A character that is written as an escape. -/
  | escape {c d : Char} {cs ds : List Char} :
      (c, d) ∈ escapes → Content cs ds → Content ('\\' :: c :: cs) (d :: ds)

/-- `Writes cs k`: the characters `cs` are a way to write a token of the kind `k`. -/
inductive Writes : List Char → TokenKind → Prop where
  /-- A keyword. -/
  | keyword {k : TokenKind} : k ∈ keywords → Writes k.displayName.toList k
  /-- An operator or a delimiter. -/
  | symbol {k : TokenKind} : k ∈ symbols → Writes k.displayName.toList k
  /-- An identifier: a letter, then letters and digits, and no keyword. -/
  | ident {c : Char} {cs : List Char} : Letter c → (∀ d ∈ cs, Letter d ∨ Digit d) →
      (∀ k ∈ keywords, k.displayName.toList ≠ c :: cs) →
        Writes (c :: cs) (.ident (String.ofList (c :: cs)))
  /-- A number in decimal digits, with any number of zeros in front. -/
  | int {v : Int64} (zeros : Nat) : 0 ≤ v.toInt →
      Writes (List.replicate zeros '0' ++ (toString v.toInt).toList) (.int v)
  /-- A text between quotes. -/
  | str {cs ds : List Char} : Content cs ds → Writes ('"' :: (cs ++ ['"'])) (.str (String.ofList ds))

/-- `Spaced cs ks`: the characters `cs` are a way to write tokens of the kinds `ks` with blanks
between them. -/
inductive Spaced : List Char → List TokenKind → Prop where
  /-- No token. -/
  | nil : Spaced [] []
  /-- One token. -/
  | one {cs : List Char} {k : TokenKind} : Writes cs k → Spaced cs [k]
  /-- A token, at least one blank, and further tokens. -/
  | cons {cs bs rest : List Char} {k l : TokenKind} {ks : List TokenKind} :
      Writes cs k → bs ≠ [] → (∀ b ∈ bs, Blank b) → Spaced rest (l :: ks) →
        Spaced (cs ++ (bs ++ rest)) (k :: l :: ks)

/-! ### Everything can be written -/

theorem exists_content (ds : List Char) : ∃ cs, Content cs ds := by
  induction ds with
  | nil => exact ⟨[], .nil⟩
  | cons d ds ih =>
    obtain ⟨cs, hcs⟩ := ih
    by_cases hquote : d = '"'
    · exact ⟨_, .escape (c := '"') (by simp [hquote, escapes]) hcs⟩
    by_cases hback : d = '\\'
    · exact ⟨_, .escape (c := '\\') (by simp [hback, escapes]) hcs⟩
    · exact ⟨_, .itself hquote hback hcs⟩

/-- Every kind of token can be written but the two that are no words, numbers that are negative and
names that are no identifiers. -/
theorem exists_written {k : TokenKind} (hk : k ≠ .invalid ∧ k ≠ .eof)
    (hint : ∀ v, k = .int v → 0 ≤ v.toInt) (hident : ∀ x, k = .ident x → IsIdentifier x) :
    ∃ cs, Writes cs k := by
  cases k with
  | int v => exact ⟨_, .int 0 (hint v rfl)⟩
  | str t =>
    obtain ⟨cs, hcs⟩ := exists_content t.toList
    have hwrites := Writes.str hcs
    rw [String.ofList_toList] at hwrites
    exact ⟨_, hwrites⟩
  | ident x =>
    obtain ⟨c, cs, hlist, hc, hcs, hkey⟩ := (hident x rfl).exists_toList
    have hnone : ∀ k ∈ keywords, k.displayName.toList ≠ c :: cs := by
      intro k hk hname
      rw [← hlist, String.toList_inj] at hname
      rw [keyword?_eq_some_iff.2 ⟨hk, hname⟩] at hkey
      cases hkey
    have hwrites := Writes.ident ((isWordStart_iff c).1 hc)
      (fun d hd => (isWordPart_iff d).1 (hcs d hd)) hnone
    rw [← hlist, String.ofList_toList] at hwrites
    exact ⟨_, hwrites⟩
  | invalid => exact absurd rfl hk.1
  | eof => exact absurd rfl hk.2
  | fnKw | letKw | trueKw | falseKw | ifKw | elseKw | returnKw | forKw | breakKw | continueKw =>
    exact ⟨_, .keyword (by decide)⟩
  | _ => exact ⟨_, .symbol (by decide)⟩

/-! ### What is written is spelt -/

theorem Content.body {cs ds : List Char} (h : Content cs ds) : Body cs ds := by
  induction h with
  | nil => exact .nil
  | itself hquote hback _ ih => exact .plain hquote hback ih
  | escape hmem _ ih => exact .escape hmem ih

/-- A written text has only escapes of the language. -/
theorem Content.invalidEscapes_eq_nil {cs ds : List Char} (h : Content cs ds) (offset : Nat) :
    invalidEscapes offset cs = [] := by
  induction h generalizing offset with
  | nil => rfl
  | itself _ hback _ ih => rw [invalidEscapes_cons hback, ih]
  | escape hmem _ ih => simp only [invalidEscapes, escape?_eq_some_iff.2 hmem, ih]

/-- Zeros in front do not change what digits denote. -/
theorem number_zeros (n : Nat) (cs : List Char) :
    number (List.replicate n '0' ++ cs) = number cs := by
  induction n with
  | zero => rfl
  | succ n ih =>
    rw [List.replicate_succ, List.cons_append, number, Nat.ofDigitChars_cons]
    exact ih

namespace Writes

variable {cs : List Char} {k : TokenKind}

theorem spells (h : Writes cs k) : Spells cs k := by
  cases h with
  | keyword hk => exact .keyword hk
  | symbol hk => exact .symbol hk
  | ident hc hcs hkey => exact .ident hc hcs hkey
  | @int v zeros hv =>
    obtain ⟨c, cs, hlist, hdigits, hvalue⟩ := exists_toList_toString hv
    rw [hlist]
    refine .int (by simp) (fun d hd => (isDigit_iff d).1 ?_) ?_
    · rcases List.mem_append.1 hd with hd | hd
      · rw [List.eq_of_mem_replicate hd]
        rfl
      · exact hdigits d hd
    · rw [number_zeros, ← value_eq_number, hvalue]
  | str hcs => exact .closed hcs.body

theorem ne_invalid (h : Writes cs k) : k ≠ .invalid := by
  cases h with
  | keyword hk | symbol hk =>
    rintro rfl
    exact absurd hk (by decide)
  | _ => simp

/-- A written string literal has only escapes of the language. -/
theorem invalidEscapes_eq_nil (h : Writes ('"' :: (cs ++ ['"'])) k) (offset : Nat) :
    invalidEscapes offset cs = [] := by
  obtain ⟨bs, ts, -, -, rfl⟩ | ⟨-, rfl⟩ := h.spells.of_quote
  · generalize hws : '"' :: (cs ++ ['"']) = ws at h
    generalize hk : TokenKind.str (String.ofList ts) = k at h
    cases h with
    | str hcontent =>
      obtain rfl := List.append_cancel_right (List.cons.inj hws).2
      exact hcontent.invalidEscapes_eq_nil offset
    | keyword hmem | symbol hmem => simp [← hk, keywords, symbols] at hmem
    | _ => cases hk
  · exact absurd rfl h.ne_invalid

end Writes

/-! ### Blanks end words -/

section Blanks

variable {b c : Char} {cs ds rest : List Char} {k k' : TokenKind}

/-- No symbol has a blank in it, or starts like a comment. -/
theorem symbol_no_gap (hk : k ∈ symbols) :
    (∀ c ∈ k.displayName.toList, ¬ Blank c) ∧ ∀ ds, k.displayName.toList ≠ '/' :: '/' :: ds := by
  have hall : ∀ k ∈ symbols, (k.displayName.toList.all (!isSpace ·)) = true ∧
      k.displayName.toList.take 2 ≠ ['/', '/'] := by decide
  obtain ⟨hspaces, hcomment⟩ := hall k hk
  refine ⟨fun c hc => ?_, fun ds hds => hcomment (by rw [hds]; rfl)⟩
  have := List.all_eq_true.1 hspaces c hc
  rw [← isSpace_iff]
  simpa using this

/-- No word starts with a blank. -/
theorem Spells.head_not_blank (h : Spells (c :: cs) k) : ¬ Blank c := by
  intro hb
  have hpart := hb.not_part
  rw [not_or] at hpart
  have hq : c ≠ '"' := by
    rintro rfl
    exact absurd hb (by decide)
  obtain ⟨hk, hname⟩ := h.of_other hpart.1 hpart.2 hq
  exact (symbol_no_gap hk).1 c (by simp [hname]) hb

/-- A word is not the beginning of a longer word that goes on with a blank, unless it is a string
literal without its closing quote. -/
theorem Spells.not_append_blank (h : Spells cs k) (hk : k ≠ .invalid) (hb : Blank b)
    (h' : Spells (cs ++ b :: ds) k') : False := by
  cases cs with
  | nil => exact absurd rfl h.ne_nil
  | cons c cs =>
    rw [List.cons_append] at h'
    have hmem : b ∈ cs ++ b :: ds := by simp
    by_cases hl : Letter c
    · exact hb.not_part ((h'.of_letter hl).1 b hmem)
    by_cases hd : Digit c
    · exact hb.not_part (.inr ((h'.of_digit hd).1 b hmem))
    by_cases hq : c = '"'
    · subst hq
      obtain ⟨bs, ts, hbody, rfl, -⟩ | ⟨-, rfl⟩ := h.of_quote
      · obtain ⟨bs', ts', hbody', heq, -⟩ | ⟨⟨ts', hbody'⟩, -⟩ := h'.of_quote
        · -- Both literals end where the lexer finds the first closing quote.
          have hsplit := hbody.splitBody_append ('"' :: b :: ds)
          rw [List.append_cons, heq, hbody'.splitBody_append] at hsplit
          simp [splitBody] at hsplit
        · exact hbody.append_quote (by simpa using hbody')
      · exact hk rfl
    · obtain ⟨hsym, hname⟩ := h'.of_other hl hd hq
      refine (symbol_no_gap hsym).1 b ?_ hb
      rw [hname]
      exact List.mem_cons_of_mem c hmem

/-- A word before a blank or the end of the text is the next piece. -/
theorem Spells.next (h : Spells cs k) (hk : k ≠ .invalid) (hrest : ∀ b ∈ rest.head?, Blank b) :
    Next cs rest (some k) := by
  refine .word (fun ds es hgap heq => ?_) h fun ds es k' h' heq => ?_
  · cases cs with
    | nil => exact absurd rfl h.ne_nil
    | cons c cs =>
      obtain hb | ⟨rfl, hhead⟩ := hgap.head heq
      · exact h.head_not_blank hb
      · obtain ⟨hsym, hname⟩ := h.of_other (by decide) (by decide) (by decide)
        cases cs with
        | nil => exact absurd (hrest '/' hhead) (by decide)
        | cons d cs =>
          obtain rfl : d = '/' := by simpa using hhead
          exact (symbol_no_gap hsym).2 cs hname
  · obtain ⟨es', rfl, rfl⟩ | ⟨es', rfl, -⟩ := List.append_eq_append_iff.1 heq
    · cases es' with
      | nil => simp
      | cons b es' => exact (h.not_append_blank hk (hrest b rfl) h').elim
    · simp

end Blanks

end Lexical

/-! ### Reading -/

/-- What a lexeme is read as, if it is a word and all the escapes in it are escapes of the
language. -/
theorem Lexeme.read_eq_of_kind {l : Lexeme} {span : Span} {k : TokenKind}
    (hread : (l.read span).1 = some k) (hk : k ≠ .invalid)
    (hbody : ∀ body, l.shape = .closedString body → ∀ offset, invalidEscapes offset body = []) :
    l.read span = (some k, []) := by
  obtain ⟨shape, text, rest⟩ := l
  cases shape with
  | closedString body => simpa [read, hbody body rfl] using hread
  | numeral =>
    simp only [read] at hread ⊢
    split at hread
    next hle => simpa [hle] using hread
    next => exact absurd (Option.some.inj hread).symm hk
  | openString | stray => exact absurd (Option.some.inj hread).symm hk
  | gap => cases hread
  | word | symbol => simpa [read] using hread

open Lexical

/-- A written token before a blank or the end of the text. -/
theorem Cuts.writes {cs rest : List Char} {k : TokenKind} {ks : List TokenKind} (h : Writes cs k)
    (hrest : ∀ b ∈ rest.head?, Blank b) (hr : Cuts rest ks) : Cuts (cs ++ rest) (k :: ks) := by
  have hnext := h.spells.next h.ne_invalid hrest
  cases cs with
  | nil => exact absurd rfl hnext.ne_nil
  | cons c cs =>
    -- The lexer takes just the token away.
    have hfirst (span : Span) : (Lexeme.first c (cs ++ rest)).text = c :: cs ∧
        (Lexeme.first c (cs ++ rest)).rest = rest ∧
          ((Lexeme.first c (cs ++ rest)).read span).1 = some k :=
      (first_next c (cs ++ rest) span).unique hnext (Lexeme.text_append_rest c (cs ++ rest))
    obtain ⟨htext, hlater, -⟩ := hfirst .nowhere
    rw [List.cons_append]
    refine @Cuts.cons c (cs ++ rest) (some k) ks (fun span => ?_) (by rwa [hlater])
    refine Lexeme.read_eq_of_kind (hfirst span).2.2 h.ne_invalid fun body hshape => ?_
    rw [← htext, Lexeme.text_of_closedString hshape] at h
    exact h.invalidEscapes_eq_nil

/-- A run of blanks is passed over. -/
theorem Cuts.blanks {bs cs : List Char} {ks : List TokenKind} (hbs : ∀ b ∈ bs, Blank b)
    (h : Cuts cs ks) : Cuts (bs ++ cs) ks := by
  induction bs with
  | nil => exact h
  | cons b bs ih =>
    obtain ⟨hb, hbs⟩ := List.forall_mem_cons.1 hbs
    exact (Cuts.blank_iff ((isSpace_iff b).2 hb)).2 (ih hbs)

theorem Lexical.Spaced.cuts {cs : List Char} {ks : List TokenKind} (h : Spaced cs ks) :
    Cuts cs ks := by
  induction h with
  | nil => exact .nil
  | @one cs k hk =>
    have hone : Cuts (cs ++ []) [k] := .writes hk (by simp) .nil
    rwa [List.append_nil] at hone
  | @cons cs bs rest k l ks hk hne hbs _ ih =>
    refine Cuts.writes hk (fun b hb => ?_) (ih.blanks hbs)
    cases bs with
    | nil => exact absurd rfl hne
    | cons b' bs =>
      obtain rfl : b' = b := by simpa using hb
      exact hbs b' List.mem_cons_self

/-- The lexer takes apart again what has been written: a text that consists of tokens with blanks
between them has no errors, and its tokens are these and the marker of its end. -/
theorem lex_spaced {source : String} {ks : List TokenKind} (h : Spaced source.toList ks) :
    (lex source).errors = [] ∧ (lex source).tokens.map (·.kind) = ks ++ [.eof] :=
  h.cuts 0

/-- Two signs that make one word if nothing stands between them, the largest number with zeros in
front, and a text with quotes, backslashes, a comment and a line feed in it. -/
def written : String := "= =\t009223372036854775807\r\n\"\\\"//\\\\é\n\\n\" iff"

/-- The tokens of which the text `written` consists. -/
def writtenKinds : List TokenKind :=
  [.assign, .assign, .int 9223372036854775807, .str "\"//\\é\n\n", .ident "iff"]

/-- The signs stay apart, and the number and the text are what was meant. -/
theorem lex_written :
    Spaced written.toList writtenKinds ∧ (lex written).errors = [] ∧
      (lex written).tokens.map (·.kind) = writtenKinds ++ [.eof] := by
  have hsign : Writes ['='] .assign := .symbol (k := .assign) (by decide)
  have hint := Writes.int (v := 9223372036854775807) 2 (by decide)
  have hstr := Writes.str (.escape (c := '"') (d := '"') (by decide) <|
    .itself (d := '/') (by decide) (by decide) <| .itself (d := '/') (by decide) (by decide) <|
    .escape (c := '\\') (d := '\\') (by decide) <| .itself (d := 'é') (by decide) (by decide) <|
    .itself (d := '\n') (by decide) (by decide) <| .escape (c := 'n') (d := '\n') (by decide) .nil)
  have hname : Writes ['i', 'f', 'f'] (.ident "iff") :=
    @Writes.ident 'i' ['f', 'f'] (by decide) (by simp [Letter]) (by decide)
  have htext : Spaced written.toList writtenKinds :=
    @Spaced.cons _ [' '] _ _ _ _ hsign (by simp) (by simp [Blank]) <|
    @Spaced.cons _ ['\t'] _ _ _ _ hsign (by simp) (by simp [Blank]) <|
    @Spaced.cons _ ['\r', '\n'] _ _ _ _ hint (by simp) (by simp [Blank]) <|
    @Spaced.cons _ [' '] _ _ _ _ hstr (by simp) (by simp [Blank]) <| .one hname
  exact ⟨htext, lex_spaced htext⟩

end MonkeyLang
