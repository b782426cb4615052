import HttpProxy.Json.Filling

/-!
# The two passes

`json_parse_ex` against the single pass that counts nothing.

* `Oversized` — the size of the members of an object does not fit an `int`; `Wrapped` — too little is allocated
  for it.
* `not_oversized` — no text of less than 29 megabytes has such an object.
* `jsonParseEx_eq_read` — the two passes never write outside of what is allocated and do what the single pass does,
  unless an object is oversized.
-/

namespace HttpProxy

namespace JsonParser

variable {δ : Type} {D : Doubles δ} {c c' cEnd : Counted δ} {m : Built δ} {mode mode' : Mode} {s : Scan}
  {acts : List (Act δ)} {json : Bytes}

/-- An object has so many members that their size, 24 bytes for each, does not fit an `int`. -/
def Oversized (D : Doubles δ) (json : Bytes) : Prop :=
  ∃ c, pass D (countPass D) true (skipBom json) .init = .done c ∧ ∃ node ∈ c.nodes, ¬ Small node

/-- The names of such an object make up for its negative size, or the size is too small. -/
def Wrapped (D : Doubles δ) (json : Bytes) : Prop :=
  ∃ c, pass D (countPass D) true (skipBom json) .init = .done c ∧
    ∃ node ∈ c.nodes, ¬ Small node ∧ 0 ≤ toInt32 (24 * node.length) + node.names

/-! ## The members of an object -/

/-- No object has more members. -/
def Bounded (bound : Nat) (c : Counted δ) : Prop := ∀ node ∈ c.nodes, node.type = .object → node.length ≤ bound

theorem Bounded.push {bound : Nat} (h : Bounded bound c) {node : Node δ} (hlen : node.length = 0) :
    Bounded bound (c.push node) := by
  intro x hx hobj
  rcases List.mem_append.1 hx with hx | hx
  · exact h x hx hobj
  · rw [List.mem_singleton.1 hx, hlen]
    exact Nat.zero_le _

theorem Bounded.modify {bound bound' : Nat} (h : Bounded bound c) {k : Nat} {f : Node δ → Node δ}
    (hle : bound ≤ bound') (hf : ∀ node, c.nodes[k]? = some node → (f node).type = .object →
      node.type = .object ∧ (node.length ≤ bound → (f node).length ≤ bound')) :
    ∀ node ∈ c.nodes.modify k f, node.type = .object → node.length ≤ bound' := by
  intro x hx hobj
  obtain ⟨i, hi⟩ := List.getElem?_of_mem hx
  rw [List.getElem?_modify] at hi
  obtain ⟨node, hnode, rfl⟩ := Option.map_eq_some_iff.1 hi
  have hmem := List.mem_of_getElem? hnode
  by_cases hki : k = i
  · subst hki
    rw [if_pos rfl] at hobj ⊢
    obtain ⟨htype, hlen⟩ := hf node hnode hobj
    exact hlen (h node hmem htype)
  · rw [if_neg hki] at hobj ⊢
    exact Nat.le_trans (h node hmem hobj) hle

/-- How many values an act puts into others. -/
def attaches : Act δ → Nat
  | .attach => 1
  | _ => 0

/-- An act that does not end a text. -/
theorem Bounded.act {bound : Nat} (h : Bounded bound c) {a : Act δ} (ha : a ≠ .endText)
    (hact : (countPass D).act c a = .done c') : Bounded (bound + attaches a) c' := by
  cases a with
  | newValue type =>
    cases hact
    exact h.push rfl
  | newBoolean v =>
    cases hact
    exact h.push rfl
  | beginString =>
    cases hact
    exact h
  | add b =>
    cases hact
    exact h
  | endText => exact absurd rfl ha
  | endName =>
    have hact : c.modifyTop _ = .done c' := hact
    obtain ⟨i, st, -, rfl⟩ := modifyTop_inv hact
    exact h.modify le_rfl fun node _ hobj => ⟨hobj, fun hle => hle⟩
  | number f =>
    have hact : c.modifyTop _ = .done c' := hact
    obtain ⟨i, st, -, rfl⟩ := modifyTop_inv hact
    refine h.modify le_rfl fun node _ hobj => ?_
    have hnum := keeps_number f node
    unfold Node.number at hobj hnum ⊢
    by_cases hkind : node.type = .integer ∨ node.type = .double
    · rw [if_pos hkind] at hobj
      dsimp only at hobj
      split_ifs at hobj
    · rw [if_neg hkind] at hobj ⊢
      exact ⟨hobj, fun hle => hle⟩
  | attach =>
    obtain ⟨i, j, st, -, rfl⟩ := attach_inv hact
    exact h.modify (Nat.le_add_right _ _) fun node _ hobj => ⟨hobj, Nat.succ_le_succ⟩

theorem Bounded.of_acts {bound : Nat} (h : Bounded bound c) (ha : ∀ a ∈ acts, a ≠ .endText)
    (hacts : (countPass D).acts acts c = .done c') : Bounded (bound + (acts.map attaches).sum) c' := by
  induction acts generalizing c bound with
  | nil =>
    cases hacts
    exact h
  | cons a acts ih =>
    obtain ⟨c₁, h1, h2⟩ := Outcome.bind_eq_done.1 hacts
    have hrest := ih (h.act (ha a List.mem_cons_self) h1) (fun b hb => ha b (List.mem_cons_of_mem _ hb)) h2
    rwa [List.map_cons, List.sum_cons, ← Nat.add_assoc]

theorem sum_closing (ps : List JsonType) : ((closing ps : List (Act δ)).map attaches).sum ≤ 1 := by
  cases ps <;> simp [closing, attaches]

theorem sum_number (gs : List (Num δ → Num δ)) : ((gs.map Act.number).map attaches).sum = 0 := by
  induction gs with
  | nil => rfl
  | cons g gs ih => simpa [attaches] using ih

theorem sum_add (bs : Bytes) : ((bs.map Act.add : List (Act δ)).map attaches).sum = 0 := by
  induction bs with
  | nil => rfl
  | cons b bs ih => simpa [attaches] using ih

/-- A move puts at most one value into another. -/
theorem sum_move (hm : Move mode acts mode') : (acts.map attaches).sum ≤ 1 := by
  cases hm with
  | closeArray ps => exact sum_closing ps
  | closeObject ps => exact sum_closing ps
  | boolean v types => simpa [attaches] using sum_closing (δ := δ) types
  | null types => simpa [attaches] using sum_closing (δ := δ) types
  | addText bs ps => exact (sum_add bs).le.trans (Nat.zero_le 1)
  | addName bs ps => exact (sum_add bs).le.trans (Nat.zero_le 1)
  | endText ps => simpa [attaches] using sum_closing (δ := δ) ps
  | number hfs ps => exact (sum_number _).le.trans (Nat.zero_le 1)
  | endNumber hfs ps =>
    rw [List.map_append, List.sum_append, sum_number, Nat.zero_add]
    exact sum_closing ps
  | _ => simp [attaches]

/-- Only the quote behind a string ends a text. -/
theorem endText_move (hm : Move mode acts mode') :
    (∀ a ∈ acts, a ≠ .endText) ∨ ∃ ps, mode = .text ps ∧ acts = .endText :: closing ps := by
  have hclosing : ∀ ps, ∀ a ∈ (closing ps : List (Act δ)), a ≠ .endText := by
    intro ps
    cases ps <;> simp [closing]
  cases hm with
  | closeArray ps => exact .inl (hclosing ps)
  | closeObject ps => exact .inl (hclosing ps)
  | boolean v types => exact .inl (by simpa using hclosing types)
  | null types => exact .inl (by simpa using hclosing types)
  | endText ps => exact .inr ⟨ps, rfl, rfl⟩
  | endNumber hfs ps => exact .inl (by simpa [or_imp, forall_and] using hclosing ps)
  | _ => exact .inl (by simp)

theorem Bounded.move {bound : Nat} (h : Bounded bound c) (hp : Pair c m) (ht : m.types = mode.types)
    (hm : Move mode acts mode') (hacts : (countPass D).acts acts c = .done c') : Bounded (bound + 1) c' := by
  have hsum := sum_move hm
  have hmono : ∀ {b : Nat}, b ≤ bound + 1 → Bounded b c' → Bounded (bound + 1) c' := by
    intro b hb hbounded node hn hobj
    exact Nat.le_trans (hbounded node hn hobj) hb
  rcases endText_move hm with hno | ⟨ps, rfl, rfl⟩
  · exact hmono (by omega) (h.of_acts hno hacts)
  · obtain ⟨c₁, h1, h2⟩ := Outcome.bind_eq_done.1 hacts
    have hact : c.modifyTop (fun node => { node with length := c.stringLength }) = .done c₁ := h1
    obtain ⟨o, os, hstack, ho, -⟩ := stack_of_types ht
    obtain ⟨i, st, hcs, rfl⟩ := modifyTop_inv hact
    have hpair := hp.stack
    rw [hcs, hstack] at hpair
    obtain ⟨⟨top, htop, hmatch⟩, -⟩ := List.forall₂_cons.1 hpair
    have hbounded : Bounded bound ⟨c.nodes.modify i fun node => { node with length := c.stringLength }, i :: st,
        c.stringLength⟩ := by
      -- the value that is read is a string, and no object
      refine h.modify le_rfl fun node hnode hobj => ?_
      rw [htop] at hnode
      cases hnode
      have htype : top.type = .string := hmatch.type.trans ho
      rw [show top.type = .object from hobj] at htype
      cases htype
    have hclosing : ∀ a ∈ (closing ps : List (Act δ)), a ≠ .endText := by
      cases ps <;> simp [closing]
    have hle := sum_closing (δ := δ) ps
    exact hmono (by omega) (hbounded.of_acts hclosing h2)

theorem Bounded.loop {bound fuel : Nat} {n : NumScan} (h : Bounded bound c) (hp : Pair c m)
    (ht : m.types = mode.types) (hf : Fits mode s) (hc : loop D (countPass D) true fuel s n c = .done cEnd) :
    Bounded (bound + fuel) cEnd := by
  induction fuel generalizing s n c m mode bound with
  | zero => cases hc
  | succ fuel ih =>
    have htc : (countPass D).types c = mode.types := hp.types.trans ht
    rw [JsonParser.loop, htc] at hc
    rcases control_cases (D := D) (n := n) ((countPass D).stringLength c) hf with
      hctl | ⟨hctl, type, rfl⟩ | ⟨acts, s', n', hctl, mode', hmove, hf', -⟩
    · rw [hctl] at hc
      cases hc
    · rw [hctl] at hc
      cases hc
      exact fun node hn hobj => Nat.le_trans (h node hn hobj) (Nat.le_add_right _ _)
    · rw [hctl] at hc
      obtain ⟨c', h1, h2⟩ := Outcome.bind_eq_done.1 hc
      have hpair := pair_move (D := D) hp ht hf hmove
      obtain ⟨m', hm'⟩ : ∃ m', (buildPass D).acts acts m = .done m' := by
        rcases hpair with ⟨hfail, -⟩ | ⟨c'', m', -, hm', -⟩
        · rw [h1] at hfail
          cases hfail
        · exact ⟨m', hm'⟩
      rw [h1, hm'] at hpair
      obtain ⟨hp', ht'⟩ := together_done hpair
      have hrest := ih (h.move hp ht hmove h1) hp' ht' hf' h2
      rwa [Nat.add_assoc, Nat.add_comm 1] at hrest

/-! ## The start -/

theorem pair_init : Pair (Counted.init : Counted δ) Built.init := ⟨.nil, .nil, rfl⟩

theorem fits_start (text : Bytes) : Fits (.seek []) (.start text) :=
  .seek (fun _ ht => absurd ht List.not_mem_nil) rfl rfl rfl

theorem length_skipBom (json : Bytes) : (skipBom json).length ≤ json.length := by
  unfold skipBom
  split_ifs
  · rw [List.length_drop]
    omega
  · exact le_rfl

/-- A text of less than 29 megabytes has no object that is oversized. -/
theorem not_oversized (h : 3 * json.length + 2 ≤ 89478485) : ¬ Oversized D json := by
  rintro ⟨c, hc, node, hnode, hbig⟩
  have hbounded : Bounded 0 (Counted.init : Counted δ) := fun node hn => absurd hn List.not_mem_nil
  have hlen := length_skipBom json
  refine hbig fun hobj => Nat.le_trans (hbounded.loop pair_init rfl (fits_start _) hc node hnode hobj) ?_
  omega

/-- The two passes, and the single one. -/
theorem passes_cases (D : Doubles δ) (json : Bytes) :
    (jsonParseEx D json = .failed () ∧ read D json = .failed () ∧ ¬ Oversized D json) ∨
      ∃ v, read D json = .done v ∧
        ((jsonParseEx D json = .done v ∧ ¬ Oversized D json) ∨
          (Oversized D json ∧ (jsonParseEx D json = .failed () ∨
            (jsonParseEx D json = .fault .outOfBounds ∧ Wrapped D json)))) := by
  have hcost : cost (.seek []) (.start (skipBom json)) < 3 * (skipBom json).length + 2 := Nat.lt_succ_self _
  rcases loop_pair (D := D) (n := .start) pair_init rfl (fits_start _) hcost with
    ⟨hcount, hbuild⟩ | ⟨c, m, type, hcount, hbuild, hp, ht⟩
  · have hcount : pass D (countPass D) true (skipBom json) .init = .failed () := hcount
    have hbuild : pass D (buildPass D) true (skipBom json) .init = .failed () := hbuild
    refine .inl ⟨by rw [jsonParseEx, hcount]; rfl, by rw [read, hbuild]; rfl, ?_⟩
    rintro ⟨c, hc, -⟩
    rw [hcount] at hc
    cases hc
  · have hsync : Sync c.nodes (.init : Counted δ) .init ⟨c.nodes, [], .init⟩ :=
      ⟨rfl, rfl, .nil, fun _ hn => absurd hn (by simp [Counted.init])⟩
    have hfill := loop_fill .start hsync pair_init rfl (fits_start _) trivial hcount hbuild hcost
    have hcount : pass D (countPass D) true (skipBom json) .init = .done c := hcount
    have hbuild : pass D (buildPass D) true (skipBom json) .init = .done m := hbuild
    refine .inr ⟨root m, by rw [read, hbuild]; rfl, ?_⟩
    rcases hfill with ⟨f, hf, hs⟩ | ⟨node, hnode, hbig, hstuck⟩
    · have hf : pass D (fillPass D) false (skipBom json) ⟨c.nodes, [], .init⟩ = .done f := hf
      refine .inl ⟨?_, ?_⟩
      · rw [jsonParseEx, hcount, Outcome.bind_done, hf, Outcome.bind_done, hs.built]
      · rintro ⟨c', hc', node, hnode, hbig⟩
        rw [hcount] at hc'
        cases hc'
        exact hbig (hs.small node (by rwa [List.take_length]))
    · refine .inr ⟨⟨c, hcount, node, hnode, hbig⟩, ?_⟩
      rw [jsonParseEx, hcount, Outcome.bind_done]
      rcases hstuck with hfail | ⟨hfault, hsum⟩
      · have hfail : pass D (fillPass D) false (skipBom json) ⟨c.nodes, [], .init⟩ = .failed () := hfail
        rw [hfail]
        exact .inl rfl
      · have hfault : pass D (fillPass D) false (skipBom json) ⟨c.nodes, [], .init⟩ = .fault .outOfBounds := hfault
        rw [hfault]
        exact .inr ⟨rfl, c, hcount, node, hnode, hbig, hsum⟩

/-- **The two passes of the parser.**  The second pass never runs out of the values of the first one and never
writes outside of what was counted for them: it returns what a single pass that counts nothing returns, unless an
object has more than 89478485 members, whose size does not fit the `int` that it is computed in.  Then the text is
refused, or, when the names make up for a negative size, too little is allocated; a text of less than 29
megabytes has no such object. -/
theorem jsonParseEx_eq_read (D : Doubles δ) (json : Bytes) :
    (read D json).Returns ∧ (jsonParseEx D json = read D json ↔ ¬ Oversized D json) ∧
      (¬ Wrapped D json → (jsonParseEx D json).Returns) ∧
      (3 * json.length + 2 ≤ 89478485 → ¬ Oversized D json) := by
  refine ⟨?_, ?_, ?_, not_oversized⟩
  · rcases passes_cases D json with ⟨-, hread, -⟩ | ⟨v, hread, -⟩
    · rw [hread]
      trivial
    · rw [hread]
      trivial
  · rcases passes_cases D json with ⟨hex, hread, hsmall⟩ | ⟨v, hread, ⟨hex, hsmall⟩ | ⟨hbig, hex⟩⟩
    · rw [hex, hread]
      exact ⟨fun _ => hsmall, fun _ => rfl⟩
    · rw [hex, hread]
      exact ⟨fun _ => hsmall, fun _ => rfl⟩
    · refine ⟨fun heq => ?_, fun hsmall => absurd hbig hsmall⟩
      rw [hread] at heq
      rcases hex with hex | ⟨hex, -⟩
      · rw [hex] at heq
        cases heq
      · rw [hex] at heq
        cases heq
  · intro hwrap
    rcases passes_cases D json with ⟨hex, -⟩ | ⟨v, -, ⟨hex, -⟩ | ⟨-, hex | ⟨-, hw⟩⟩⟩
    · rw [hex]
      trivial
    · rw [hex]
      trivial
    · rw [hex]
      trivial
    · exact absurd hw hwrap

end JsonParser

end HttpProxy
