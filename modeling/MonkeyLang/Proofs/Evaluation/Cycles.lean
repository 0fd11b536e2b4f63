import MonkeyLang.Proofs.Evaluation.Rendering

/-!
# Rendering cuts cycles and nothing else

Values can share containers and can lead back to themselves. What the text of a value is is said by
`Store.Rendered`, which goes down from the value and keeps the path of the containers that it is
inside of: a container on the path is cut off, every other one is written out.

The text can also be written in one pass, from left to right, with one set of the containers that
are open just now. `Store.pass` is that: a container is opened when its first bracket is written and
closed before its last one. The pass may run out of levels, and it might leave a container open or
close one too early; that it does none of this is what is proved.

## Main definitions

* `Store.Rendered` : the text of a value inside the containers of a path.
* `Store.pass` : writing a value in one pass.
* `Store.Occurs` : where a value occurs in the text of another.
* `Store.Leads` : what is inside of a value.

## Main statements

* `Store.Rendered.pass_eq` : a pass ends, writes the text and closes what it has opened.
* `Store.render_cuts_cycles` : the text of a value is the one that `Store.Rendered` says.
-/

namespace MonkeyLang

/-- Whether the value is an array or a hash. -/
def Value.isContainer : Value → Bool
  | .array _ | .hash _ => true
  | _ => false

/-! ### The text by paths -/

/-- The text of a value inside the containers `path`, the innermost first. -/
inductive Store.Rendered (s : Store) : (path : List Value) → Value → String → Prop where
  /-- An integer in decimal. -/
  | int {path : List Value} {value : Int64} : Rendered s path (.int value) (toString value.toInt)
  /-- A boolean by its name. -/
  | bool {path : List Value} {value : Bool} : Rendered s path (.bool value) (toString value)
  /-- A string as it is. -/
  | str {path : List Value} {text : String} : Rendered s path (.str text) text
  /-- Null. -/
  | null {path : List Value} : Rendered s path .null "null"
  /-- A function by its parameters. -/
  | function {path : List Value} {c : ClosureId} :
    Rendered s path (.function c)
      ("fn(" ++ separated ", " (s.closure c).params ++ ") \x7b ... \x7d")
  /-- A function of the language. -/
  | builtin {path : List Value} {b : Builtin} : Rendered s path (.builtin b) "builtin function"
  /-- An array that the value is inside of. -/
  | arrayCut {path : List Value} {a : ArrayId} (inside : .array a ∈ path) :
    Rendered s path (.array a) "[...]"
  /-- Any other array, with its items. -/
  | array {path : List Value} {a : ArrayId} {text : Value → String} (outside : .array a ∉ path)
      (items : ∀ v ∈ (s.array a).toList, Rendered s (.array a :: path) v (text v)) :
    Rendered s path (.array a) ("[" ++ separated ", " ((s.array a).toList.map text) ++ "]")
  /-- A hash that the value is inside of. -/
  | hashCut {path : List Value} {h : HashId} (inside : .hash h ∈ path) :
    Rendered s path (.hash h) "\x7b...\x7d"
  /-- Any other hash, with its entries. -/
  | hash {path : List Value} {h : HashId} {text : Value → String} (outside : .hash h ∉ path)
      (keys : ∀ e ∈ (s.hash h).entries, Rendered s (.hash h :: path) e.2.key (text e.2.key))
      (values : ∀ e ∈ (s.hash h).entries, Rendered s (.hash h :: path) e.2.value (text e.2.value)) :
    Rendered s path (.hash h) ("\x7b" ++ separated ", " ((s.hash h).entries.map fun e =>
      text e.2.key ++ ": " ++ text e.2.value) ++ "\x7d")

namespace Store

variable {s : Store} {path : List Value} {v : Value} {t : String} {n : Nat}

/-- With more levels than closed containers, rendering gives the text. -/
theorem rendered_renderIn (v : Value) (hn : (s.closed path).card < n) :
    s.Rendered path v (s.renderIn n path v) := by
  induction n generalizing path v with
  | zero => exact absurd hn (Nat.not_lt_zero _)
  | succ n ih =>
    cases v with
    | int => exact .int
    | bool => exact .bool
    | str => exact .str
    | null => exact .null
    | function => exact .function
    | builtin => exact .builtin
    | array a =>
      simp only [renderIn, List.contains_iff_mem]
      split
      next inside => exact .arrayCut inside
      next outside =>
        refine .array outside fun v hv => ih v ?_
        have hfewer := card_closed_array hv outside
        omega
    | hash h =>
      simp only [renderIn, List.contains_iff_mem]
      split
      next inside => exact .hashCut inside
      next outside =>
        have hfewer (e : Key × Pair) (he : e ∈ (s.hash h).entries) :
            (s.closed (.hash h :: path)).card < n := by
          have := card_closed_hash he outside
          omega
        exact .hash outside (fun e he => ih _ (hfewer e he)) fun e he => ih _ (hfewer e he)

/-- There are never more closed containers than levels. -/
theorem card_closed_lt_levels (s : Store) (path : List Value) :
    (s.closed path).card < s.levels := by
  have hcard := s.card_containers
  have hclosed : (s.closed path).card ≤ s.containers.card :=
    Finset.card_le_card Finset.sdiff_subset
  unfold levels
  omega

theorem rendered_render (s : Store) (v : Value) : s.Rendered [] v (s.render v) :=
  rendered_renderIn v (s.card_closed_lt_levels [])

end Store

/-! ### One pass -/

/-- What a pass has written, and the containers that are open. -/
structure Pass where
  /-- The text so far. -/
  text : String := ""
  /-- The open containers. -/
  opened : Finset Value := ∅

namespace Pass

/-- Writes a text. -/
def write (p : Pass) (t : String) : Pass := { p with text := p.text ++ t }

/-- Opens a container. -/
def enter (p : Pass) (v : Value) : Pass := { p with opened := insert v p.opened }

/-- Closes a container. -/
def leave (p : Pass) (v : Value) : Pass := { p with opened := p.opened.erase v }

/-- Writes things one after the other, with a comma between neighbours. -/
def writeAll {α : Type} (f : α → Pass → Option Pass) : List α → Pass → Option Pass
  | [], p => some p
  | [a], p => f a p
  | a :: b :: as, p => (f a p).bind fun p => writeAll f (b :: as) (p.write ", ")

/-- Writes a container by `items` between its brackets, unless it is open. -/
def container (p : Pass) (v : Value) (opening closing : String) (items : Pass → Option Pass) :
    Option Pass :=
  if v ∈ p.opened then some (p.write (opening ++ "..." ++ closing))
  else (items ((p.enter v).write opening)).map fun p => (p.leave v).write closing

variable {α : Type} {p : Pass} {v : Value} {opening closing t : String}
  {items : Pass → Option Pass}

theorem write_write (p : Pass) (t u : String) : (p.write t).write u = p.write (t ++ u) := by
  simp only [write, String.append_assoc]

theorem write_empty (p : Pass) : p.write "" = p := by simp [write]

theorem enter_leave (hv : v ∉ p.opened) : (p.enter v).leave v = p := by
  simp [enter, leave, Finset.erase_insert hv]

theorem container_of_mem (hv : v ∈ p.opened) :
    p.container v opening closing items = some (p.write (opening ++ "..." ++ closing)) := by
  rw [container, if_pos hv]

/-- A container that was closed is closed again. -/
theorem container_of_notMem (hv : v ∉ p.opened)
    (hitems : items ((p.enter v).write opening) = some ((p.enter v).write (opening ++ t))) :
    p.container v opening closing items = some (p.write (opening ++ t ++ closing)) := by
  have hleave : ((p.enter v).write (opening ++ t)).leave v = p.write (opening ++ t) :=
    congrArg (write · (opening ++ t)) (enter_leave hv)
  rw [container, if_neg hv, hitems, Option.map_some, hleave, write_write]

/-- What writes the text of each thing writes the texts of all, separated by commas. -/
theorem writeAll_eq {f : α → Pass → Option Pass} {text : α → String} {as : List α}
    {O : Finset Value}
    (h : ∀ a ∈ as, ∀ p : Pass, p.opened = O → f a p = some (p.write (text a)))
    (hp : p.opened = O) :
    writeAll f as p = some (p.write (separated ", " (as.map text))) := by
  induction as generalizing p with
  | nil => simp only [writeAll, List.map_nil, separated_nil, write_empty]
  | cons a as ih =>
    cases as with
    | nil => exact h a (by simp) p hp
    | cons b as =>
      have hrest := ih (p := p.write (text a ++ ", "))
        (fun c hc => h c (List.mem_cons_of_mem a hc)) hp
      rw [writeAll, h a (by simp) p hp, Option.bind_some, write_write, hrest, write_write]
      rfl

end Pass

/-- Writes a value in one pass, at most so many levels deep; none if that is not enough. -/
def Store.pass (s : Store) : (levels : Nat) → Value → Pass → Option Pass
  | 0, _, _ => none
  | _ + 1, .int value, p => some (p.write (toString value.toInt))
  | _ + 1, .bool value, p => some (p.write (toString value))
  | _ + 1, .str text, p => some (p.write text)
  | _ + 1, .null, p => some (p.write "null")
  | n + 1, .array a, p =>
    p.container (.array a) "[" "]" (Pass.writeAll (s.pass n) (s.array a).toList)
  | n + 1, .hash h, p =>
    let entry := fun (e : Key × Pair) p =>
      (s.pass n e.2.key p).bind fun p => s.pass n e.2.value (p.write ": ")
    p.container (.hash h) "\x7b" "\x7d" (Pass.writeAll entry (s.hash h).entries)
  | _ + 1, .function c, p =>
    some (p.write ("fn(" ++ separated ", " (s.closure c).params ++ ") \x7b ... \x7d"))
  | _ + 1, .builtin _, p => some (p.write "builtin function")

namespace Store

variable {s : Store} {path : List Value} {v w : Value} {t t' : String} {n : Nat}

/-- A pass in which the containers of the path are open ends, writes the text and leaves the same
containers open. -/
theorem Rendered.pass_eq (h : s.Rendered path v t) (hn : (s.closed path).card < n) {p : Pass}
    (hp : p.opened = path.toFinset) : s.pass n v p = some (p.write t) := by
  induction h generalizing n p with
  | int | bool | str | null | function | builtin =>
    obtain ⟨n, rfl⟩ := Nat.exists_eq_succ_of_ne_zero (Nat.ne_zero_of_lt hn)
    rfl
  | arrayCut inside | hashCut inside =>
    obtain ⟨n, rfl⟩ := Nat.exists_eq_succ_of_ne_zero (Nat.ne_zero_of_lt hn)
    exact Pass.container_of_mem (by rwa [hp, List.mem_toFinset])
  | @array path a text outside items ih =>
    obtain ⟨n, rfl⟩ := Nat.exists_eq_succ_of_ne_zero (Nat.ne_zero_of_lt hn)
    have hitems (v : Value) (hv : v ∈ (s.array a).toList) (q : Pass)
        (hq : q.opened = (Value.array a :: path).toFinset) :
          s.pass n v q = some (q.write (text v)) := by
      have hfewer := card_closed_array hv outside
      exact ih v hv (by omega) hq
    have hopened : ((p.enter (.array a)).write "[").opened = (Value.array a :: path).toFinset := by
      simp only [Pass.enter, Pass.write, hp, List.toFinset_cons]
    refine Pass.container_of_notMem (by rwa [hp, List.mem_toFinset]) ?_
    rw [Pass.writeAll_eq hitems hopened, Pass.write_write]
  | @hash path h text outside keys values ihk ihv =>
    obtain ⟨n, rfl⟩ := Nat.exists_eq_succ_of_ne_zero (Nat.ne_zero_of_lt hn)
    have hentries (e : Key × Pair) (he : e ∈ (s.hash h).entries) (q : Pass)
        (hq : q.opened = (Value.hash h :: path).toFinset) :
        ((s.pass n e.2.key q).bind fun q => s.pass n e.2.value (q.write ": ")) =
          some (q.write (text e.2.key ++ ": " ++ text e.2.value)) := by
      have hfewer := card_closed_hash he outside
      have hvalue : s.pass n e.2.value ((q.write (text e.2.key)).write ": ") =
          some (((q.write (text e.2.key)).write ": ").write (text e.2.value)) :=
        ihv e he (by omega) hq
      rw [ihk e he (by omega) hq, Option.bind_some, hvalue, Pass.write_write, Pass.write_write,
        String.append_assoc]
    have hopened : ((p.enter (.hash h)).write "\x7b").opened = (Value.hash h :: path).toFinset := by
      simp only [Pass.enter, Pass.write, hp, List.toFinset_cons]
    refine Pass.container_of_notMem (by rwa [hp, List.mem_toFinset]) ?_
    rw [Pass.writeAll_eq hentries hopened, Pass.write_write]

/-- There is one text. -/
theorem Rendered.unique (h : s.Rendered path v t) (h' : s.Rendered path v t') : t = t' := by
  have hlevels := s.card_closed_lt_levels path
  have hpass := h.pass_eq hlevels (p := ⟨"", path.toFinset⟩) rfl
  rw [h'.pass_eq hlevels rfl] at hpass
  simpa [Pass.write] using (Option.some.inj hpass).symm

/-! ### Where values occur -/

/-- In the text of `root`, the value occurs inside the containers `path`. Nothing occurs inside a
container that is cut off. -/
inductive Occurs (s : Store) (root : Value) : (path : List Value) → Value → Prop where
  /-- The value itself. -/
  | root : Occurs s root [] root
  /-- An item of an array that is written out. -/
  | item {path : List Value} {a : ArrayId} {v : Value} (ha : Occurs s root path (.array a))
      (outside : .array a ∉ path) (hv : v ∈ (s.array a).toList) :
    Occurs s root (.array a :: path) v
  /-- The key value of an entry of a hash that is written out. -/
  | key {path : List Value} {h : HashId} {e : Key × Pair} (hh : Occurs s root path (.hash h))
      (outside : .hash h ∉ path) (he : e ∈ (s.hash h).entries) :
    Occurs s root (.hash h :: path) e.2.key
  /-- The value of an entry of a hash that is written out. -/
  | value {path : List Value} {h : HashId} {e : Key × Pair} (hh : Occurs s root path (.hash h))
      (outside : .hash h ∉ path) (he : e ∈ (s.hash h).entries) :
    Occurs s root (.hash h :: path) e.2.value

/-- A text is found where it was put. -/
theorem exists_separated_eq (separator : String) {text : String} {texts : List String}
    (h : text ∈ texts) : ∃ before after, separated separator texts = before ++ text ++ after := by
  induction texts with
  | nil => cases h
  | cons first texts ih =>
    cases texts with
    | nil =>
      obtain rfl : text = first := by simpa using h
      exact ⟨"", "", by simp⟩
    | cons second texts =>
      rcases List.mem_cons.1 h with rfl | h
      · exact ⟨"", separator ++ separated separator (second :: texts), by
          simp [separated_cons_cons, String.append_assoc]⟩
      · obtain ⟨before, after, htexts⟩ := ih h
        exact ⟨first ++ separator ++ before, after, by
          rw [separated_cons_cons, htexts]
          simp only [String.append_assoc]⟩

/-- The text of a hash that is written out contains the texts of the key value and of the value of
each of its entries. -/
theorem Rendered.exists_entry {h : HashId} {e : Key × Pair} (ht : s.Rendered path (.hash h) t)
    (outside : .hash h ∉ path) (he : e ∈ (s.hash h).entries) :
    ∃ before tk tv after, t = before ++ tk ++ ": " ++ tv ++ after ∧
      s.Rendered (.hash h :: path) e.2.key tk ∧ s.Rendered (.hash h :: path) e.2.value tv := by
  cases ht with
  | hashCut inside => exact absurd inside outside
  | @hash _ _ text _ keys values =>
    obtain ⟨before, after, hentries⟩ := exists_separated_eq ", " (List.mem_map_of_mem
      (f := fun e : Key × Pair => text e.2.key ++ ": " ++ text e.2.value) he)
    refine ⟨"\x7b" ++ before, text e.2.key, text e.2.value, after ++ "\x7d", ?_, keys e he,
      values e he⟩
    rw [hentries]
    simp only [String.append_assoc]

/-- At every place where a value occurs stands its text inside the containers that it is inside of
there. -/
theorem Occurs.exists_text {root : Value} (h : s.Occurs root path v) :
    ∃ before t after, s.render root = before ++ t ++ after ∧ s.Rendered path v t := by
  induction h with
  | root => exact ⟨"", s.render root, "", by simp, s.rendered_render root⟩
  | @item path a v _ outside hv ih =>
    obtain ⟨before, t, after, hroot, ht⟩ := ih
    cases ht with
    | arrayCut inside => exact absurd inside outside
    | @array _ _ text _ items =>
      obtain ⟨before', after', hitems⟩ :=
        exists_separated_eq ", " (List.mem_map_of_mem (f := text) hv)
      refine ⟨before ++ "[" ++ before', text v, after' ++ "]" ++ after, ?_, items v hv⟩
      rw [hroot, hitems]
      simp only [String.append_assoc]
  | key _ outside he ih =>
    obtain ⟨before, t, after, hroot, ht⟩ := ih
    obtain ⟨before', tk, tv, after', rfl, hk, -⟩ := ht.exists_entry outside he
    refine ⟨before ++ before', tk, ": " ++ tv ++ after' ++ after, ?_, hk⟩
    rw [hroot]
    simp only [String.append_assoc]
  | value _ outside he ih =>
    obtain ⟨before, t, after, hroot, ht⟩ := ih
    obtain ⟨before', tk, tv, after', rfl, -, hv⟩ := ht.exists_entry outside he
    refine ⟨before ++ before' ++ tk ++ ": ", tv, after' ++ after, ?_, hv⟩
    rw [hroot]
    simp only [String.append_assoc]

/-! ### Sharing -/

/-- The value `w` is `v` or is inside of it. -/
inductive Leads (s : Store) : Value → Value → Prop where
  /-- A value leads to itself. -/
  | refl (v : Value) : Leads s v v
  /-- An array leads to what its items lead to. -/
  | item {a : ArrayId} {v w : Value} (hv : v ∈ (s.array a).toList) (h : Leads s v w) :
    Leads s (.array a) w
  /-- A hash leads to what the key values of its entries lead to. -/
  | key {a : HashId} {e : Key × Pair} {w : Value} (he : e ∈ (s.hash a).entries)
      (h : Leads s e.2.key w) : Leads s (.hash a) w
  /-- A hash leads to what the values of its entries lead to. -/
  | value {a : HashId} {e : Key × Pair} {w : Value} (he : e ∈ (s.hash a).entries)
      (h : Leads s e.2.value w) : Leads s (.hash a) w

/-- Of the containers that a value is inside of, only those matter to its text that it leads back
to. -/
theorem Rendered.of_leads {path' : List Value} (h : s.Rendered path v t)
    (hpath : ∀ w, w.isContainer → s.Leads v w → (w ∈ path ↔ w ∈ path')) :
    s.Rendered path' v t := by
  induction h generalizing path' with
  | int | bool | str | null | function | builtin => constructor
  | arrayCut inside => exact .arrayCut ((hpath _ rfl (.refl _)).1 inside)
  | hashCut inside => exact .hashCut ((hpath _ rfl (.refl _)).1 inside)
  | array outside _ ih =>
    refine .array (fun inside => outside ((hpath _ rfl (.refl _)).2 inside)) fun v hv => ?_
    exact ih v hv fun w hc hw => by rw [List.mem_cons, List.mem_cons, hpath w hc (.item hv hw)]
  | hash outside _ _ ihk ihv =>
    refine .hash (fun inside => outside ((hpath _ rfl (.refl _)).2 inside)) (fun e he => ?_)
      fun e he => ?_
    · exact ihk e he fun w hc hw => by
        rw [List.mem_cons, List.mem_cons, hpath w hc (.key he hw)]
    · exact ihv e he fun w hc hw => by
        rw [List.mem_cons, List.mem_cons, hpath w hc (.value he hw)]

/-- Rendering ends for every value of every store, whatever contains what and in whatever order the
hashes list their entries, and its text is the one that goes by paths: a container is cut off where
it is inside of itself and written out everywhere else. A pass with one set of open containers
writes the same text and leaves the set as it was. At every place where a value occurs stands its
text inside the containers that it is inside of there, and if it does not lead back to any of those,
that is the text that it has on its own, however often it occurs. -/
theorem render_cuts_cycles (s : Store) (v : Value) :
    (∀ t, s.Rendered [] v t ↔ t = s.render v) ∧
    (∀ n, s.levels ≤ n → s.pass n v {} = some { text := s.render v }) ∧
    (∀ path w t, s.Rendered path w t → ∀ n p, s.levels ≤ n → p.opened = path.toFinset →
      s.pass n w p = some (p.write t)) ∧
    (∀ path w, s.Occurs v path w →
      ∃ before t after, s.render v = before ++ t ++ after ∧ s.Rendered path w t) ∧
    (∀ path, (∀ c ∈ path, c.isContainer → ¬ s.Leads v c) →
      ∀ t, s.Rendered path v t ↔ t = s.render v) := by
  have htext (t : String) : s.Rendered [] v t ↔ t = s.render v :=
    ⟨fun h => h.unique (s.rendered_render v), fun h => h ▸ s.rendered_render v⟩
  have hpass (path : List Value) (w : Value) (t : String) (h : s.Rendered path w t) (n : Nat)
      (p : Pass) (hn : s.levels ≤ n) (hp : p.opened = path.toFinset) :
      s.pass n w p = some (p.write t) :=
    h.pass_eq (Nat.lt_of_lt_of_le (s.card_closed_lt_levels path) hn) hp
  refine ⟨htext, fun n hn => ?_, hpass, fun path w h => h.exists_text, fun path hpath t => ?_⟩
  · rw [hpass [] v _ (s.rendered_render v) n {} hn rfl, Pass.write, String.empty_append]
  · have hsame (w : Value) (hc : w.isContainer) (hw : s.Leads v w) : w ∈ path ↔ w ∈ [] :=
      ⟨fun hmem => absurd hw (hpath w hmem hc), fun hmem => absurd hmem List.not_mem_nil⟩
    rw [← htext]
    exact ⟨fun h => h.of_leads hsame, fun h => h.of_leads fun w hc hw => (hsame w hc hw).symm⟩

/-- A store with an array that contains itself and twice the same array, which a hash contains,
too. -/
def tangled : Store where
  arrays := #[#[.array 1, .array 1, .array 0, .hash 0], #[.int 1]]
  hashes := #[⟨[(.str "k", ⟨.str "k", .array 1⟩), (.int 2, ⟨.int 2, .hash 0⟩)]⟩]

/-- The shared array is written out each time. -/
theorem render_cuts_cycles_tangled :
    tangled.pass tangled.levels (.array 0) {} = some { text := tangled.render (.array 0) } ∧
    tangled.render (.array 0) = "[[1], [1], [...], \x7bk: [1], 2: \x7b...\x7d\x7d]" := by
  obtain ⟨-, hpass, -⟩ := render_cuts_cycles tangled (.array 0)
  exact ⟨hpass _ (Nat.le_refl _), by decide⟩

end Store

end MonkeyLang
