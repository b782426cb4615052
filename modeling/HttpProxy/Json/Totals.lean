import HttpProxy.Json.Counting

/-!
# What the first pass has counted

The nodes at the end of the first pass of `json_parse_ex`, seen from any place in it.

* `Grown` — the types are known, and what is not on the stack is complete.
* `Due` — what is still to be counted.
* `final_move`, `loop_final` — both hold wherever a pass is that ends.
-/

namespace HttpProxy

namespace JsonParser

variable {δ : Type} {D : Doubles δ} {c c' cEnd : Counted δ} {m m' mEnd : Built δ} {mode mode' : Mode} {s : Scan}
  {acts : List (Act δ)} {N : List (Node δ)} {o : Open δ} {os : List (Open δ)} {type : JsonType}
  {ps : List JsonType}

theorem Pair.lt (h : Pair c m) {i : Nat} (hi : i ∈ c.stack) : i < c.nodes.length := by
  obtain ⟨o, node, hnode, -⟩ := exists_of_forall₂ h.stack hi
  exact (List.getElem?_eq_some_iff.1 hnode).1

/-! ## What becomes of the nodes -/

/-- The type is kept, but for that of a number. -/
def Keeps (node node' : Node δ) : Prop := node.type = .integer ∨ node.type = .double ∨ node'.type = node.type

theorem keeps_trans {node node' node'' : Node δ} (h : Keeps node node') (h' : Keeps node' node'') :
    Keeps node node'' := by
  unfold Keeps at h h' ⊢
  rcases h with h | h | h
  · exact .inl h
  · exact .inr (.inl h)
  · rwa [h] at h'

theorem keeps_number (f : Num δ → Num δ) (node : Node δ) : Keeps node (node.number f) := by
  unfold Keeps Node.number
  by_cases h : node.type = .integer ∨ node.type = .double
  · exact h.imp_right .inl
  · rw [if_neg h]
    exact .inr (.inr rfl)

/-- The nodes at the end of the pass: those on the stack keep their types, and the others are complete. -/
structure Grown (c : Counted δ) (N : List (Node δ)) : Prop where
  keeps : ∀ (i : Nat) node, c.nodes[i]? = some node → ∃ node', N[i]? = some node' ∧ Keeps node node'
  final : ∀ i < c.nodes.length, i ∉ c.stack → N[i]? = c.nodes[i]?

theorem Grown.of_push {node : Node δ} (h : Grown (c.push node) N) : Grown c N where
  keeps i old hold := by
    apply h.keeps
    rw [Counted.push, List.getElem?_append_left (List.getElem?_eq_some_iff.1 hold).1]
    exact hold
  final i hi hst := by
    have hne : i ≠ c.nodes.length := Nat.ne_of_lt hi
    have hfinal := h.final i (by simp [Counted.push]; omega) (by simp [Counted.push, hne, hst])
    rw [hfinal, Counted.push, List.getElem?_append_left hi]

/-- A change to a node on the stack. -/
theorem Grown.of_modify {k len : Nat} {st : List Nat} {f : Node δ → Node δ} (hk : k ∈ c.stack)
    (hf : ∀ node, Keeps node (f node)) (hsub : ∀ i ∈ st, i ∈ c.stack)
    (h : Grown ⟨c.nodes.modify k f, st, len⟩ N) : Grown c N where
  keeps i node hnode := by
    by_cases hki : k = i
    · subst hki
      obtain ⟨node', hN, hkeep⟩ := h.keeps k (f node) (getElem?_modify_self hnode f)
      exact ⟨node', hN, keeps_trans (hf node) hkeep⟩
    · exact h.keeps i node ((getElem?_modify_ne hki f).trans hnode)
  final i hi hst := by
    have hki : k ≠ i := by
      rintro rfl
      exact hst hk
    rw [h.final i (by simpa using hi) fun hi' => hst (hsub i hi')]
    exact getElem?_modify_ne hki f

/-- A change to `top`. -/
theorem modifyTop_inv {f : Node δ → Node δ} (h : c.modifyTop f = .done c') :
    ∃ i st, c.stack = i :: st ∧ c' = ⟨c.nodes.modify i f, i :: st, c.stringLength⟩ := by
  unfold Counted.modifyTop at h
  split at h
  · cases h
  · next i st hst =>
    cases h
    exact ⟨i, st, hst, by rw [hst]⟩

/-- The value that is `top` is put into its parent. -/
theorem attach_inv (h : (countPass D).act c .attach = .done c') :
    ∃ i j st, c.stack = i :: j :: st ∧
      c' = ⟨c.nodes.modify j fun node => { node with length := node.length + 1 }, j :: st, c.stringLength⟩ := by
  simp only [countPass, Counted.act] at h
  split at h
  · next i j st hst =>
    split_ifs at h
    cases h
    exact ⟨i, j, st, hst, rfl⟩
  · cases h

theorem Grown.of_modifyTop {f : Node δ → Node δ} (hact : c.modifyTop f = .done c')
    (hf : ∀ node, Keeps node (f node)) (h : Grown c' N) : Grown c N := by
  obtain ⟨i, st, hst, rfl⟩ := modifyTop_inv hact
  exact h.of_modify (hst ▸ List.mem_cons_self) hf fun k hk => hst ▸ hk

theorem Grown.of_act {a : Act δ} (hact : (countPass D).act c a = .done c') (h : Grown c' N) : Grown c N := by
  cases a with
  | newValue type =>
    cases hact
    exact h.of_push
  | newBoolean v =>
    cases hact
    exact h.of_push
  | beginString =>
    cases hact
    exact ⟨h.keeps, h.final⟩
  | add b =>
    cases hact
    exact ⟨h.keeps, h.final⟩
  | endText => exact h.of_modifyTop hact fun _ => .inr (.inr rfl)
  | endName => exact h.of_modifyTop hact fun _ => .inr (.inr rfl)
  | number f => exact h.of_modifyTop hact (keeps_number f)
  | attach =>
    obtain ⟨i, j, st, hst, rfl⟩ := attach_inv hact
    refine h.of_modify (by simp [hst]) ?_ ?_
    · exact fun _ => .inr (.inr rfl)
    · exact fun k hk => hst ▸ List.mem_cons_of_mem _ hk

theorem Grown.of_acts (hacts : (countPass D).acts acts c = .done c') (h : Grown c' N) : Grown c N := by
  induction acts generalizing c with
  | nil =>
    cases hacts
    exact h
  | cons a acts ih =>
    obtain ⟨c₁, h1, h2⟩ := Outcome.bind_eq_done.1 hacts
    exact (ih h2).of_act h1

/-! ## What is still to be counted -/

/-- Nothing that has been counted is lost. -/
def Covers (node node' : Node δ) : Prop := node.length ≤ node'.length ∧ node.names ≤ node'.names

/-- One more member or element is to come. -/
def Exceeds (node node' : Node δ) : Prop := node.length + 1 ≤ node'.length ∧ node.names ≤ node'.names

/-- What is to come for `top`. -/
def Owes (mode : Mode) (stringLength : Nat) (node node' : Node δ) : Prop :=
  match mode with
  | .seek (.object :: _) => Exceeds node node'
  | .text _ => stringLength ≤ node'.length
  | .name _ => node.length + 1 ≤ node'.length ∧ node.names + (stringLength + 1) ≤ node'.names
  | .number _ _ => True
  | _ => Covers node node'

/-- A node and what it is at the end. -/
def Owed (N : List (Node δ)) (c : Counted δ) (i : Nat) (R : Node δ → Node δ → Prop) : Prop :=
  ∀ node node', c.nodes[i]? = some node → N[i]? = some node' → R node node'

/-- What is to come for `top`, and for the values around. -/
structure Due (R : Node δ → Node δ → Prop) (c : Counted δ) (N : List (Node δ)) : Prop where
  top : ∀ i ∈ c.stack.head?, Owed N c i R
  below : ∀ i ∈ c.stack.tail, Owed N c i Exceeds

/-- The nodes at the end of a pass that is at this place. -/
structure Final (mode : Mode) (c : Counted δ) (N : List (Node δ)) : Prop where
  grown : Grown c N
  due : Due (Owes mode c.stringLength) c N
  done : ∀ type, mode = .done type → N = c.nodes

section Due

variable {R R' : Node δ → Node δ → Prop}

theorem Due.mono (h : Due R c N) (hR : ∀ node node', R node node' → R' node node') : Due R' c N :=
  ⟨fun i hi node node' hn hn' => hR node node' (h.top i hi node node' hn hn'), h.below⟩

theorem owes_seek {node node' : Node δ} (types : List JsonType) (len : Nat) (h : Exceeds node node') :
    Owes (.seek types) len node node' := by
  have hcovers : Covers node node' := ⟨Nat.le_of_succ_le h.1, h.2⟩
  cases types with
  | nil => exact hcovers
  | cons t types => cases t <;> first | exact h | exact hcovers

/-- A new value in front of what is owed. -/
theorem Due.of_push (hp : Pair c m) {node : Node δ} (h : Due R (c.push node) N) (types : List JsonType)
    (len : Nat) : Due (Owes (.seek types) len) c N := by
  have hbelow : ∀ i ∈ c.stack, Owed N c i Exceeds := by
    intro i hi n n' hn hn'
    refine h.below i hi n n' ?_ hn'
    rw [Counted.push, List.getElem?_append_left (hp.lt hi)]
    exact hn
  refine ⟨fun i hi n n' hn hn' => ?_, fun i hi => hbelow i (List.mem_of_mem_tail hi)⟩
  exact owes_seek types len (hbelow i (List.mem_of_mem_head? hi) n n' hn hn')

/-- A change to `top`. -/
theorem Due.of_modifyTop (ho : c.stack.Pairwise (· > ·)) {f : Node δ → Node δ}
    (hact : c.modifyTop f = .done c') (hR : ∀ node node', R (f node) node' → R' node node') (h : Due R c' N) :
    Due R' c N := by
  obtain ⟨i, st, hst, rfl⟩ := modifyTop_inv hact
  rw [hst, List.pairwise_cons] at ho
  constructor
  · intro k hk node node' hn hn'
    rw [hst] at hk
    cases hk
    exact hR node node' (h.top i rfl _ node' (getElem?_modify_self hn f) hn')
  · intro k hk node node' hn hn'
    rw [hst] at hk
    have hne : i ≠ k := by
      rintro rfl
      exact absurd (ho.1 i hk) (lt_irrefl i)
    exact h.below k hk node node' ((getElem?_modify_ne hne f).trans hn) hn'

theorem Due.of_number {fs : List (Num δ → Num δ)} (ho : c.stack.Pairwise (· > ·))
    (hacts : (countPass D).acts (fs.map .number) c = .done c') (h : Due R c' N) :
    Due (fun _ _ => True) c N := by
  induction fs generalizing c with
  | nil =>
    cases hacts
    exact h.mono fun _ _ _ => trivial
  | cons f fs ih =>
    obtain ⟨c₁, h1, h2⟩ := Outcome.bind_eq_done.1 hacts
    have hact : c.modifyTop (Node.number f) = .done c₁ := h1
    obtain ⟨i, st, hst, rfl⟩ := modifyTop_inv hact
    exact (ih (hst ▸ ho) h2).of_modifyTop ho hact fun _ _ _ => trivial

end Due

/-- A value ends: nothing more is counted in it. -/
theorem final_finish (h : Pair c m) (ht : m.types = type :: ps) (hc : Containers ps)
    (hacts : (countPass D).acts (closing ps) c = .done c') (hfin : Final (.after type ps) c' N) :
    Due Covers c N ∧ ∀ i ∈ c.stack.head?, N[i]? = c.nodes[i]? := by
  cases ps with
  | nil =>
    cases hacts
    obtain rfl := hfin.done type rfl
    obtain ⟨o, os, hm, -, hos⟩ := stack_of_types ht
    obtain rfl := List.map_eq_nil_iff.1 hos
    have hstack := h.stack
    rw [hm] at hstack
    obtain ⟨i, st, -, hst, hcs⟩ := List.forall₂_cons_right_iff.1 hstack
    obtain rfl := List.forall₂_nil_right_iff.1 hst
    refine ⟨⟨fun k _ node node' hn hn' => ?_, fun k hk => ?_⟩, fun _ _ => rfl⟩
    · rw [hn] at hn'
      cases hn'
      exact ⟨le_rfl, le_rfl⟩
    · rw [hcs] at hk
      cases hk
  | cons p ps =>
    rw [acts_closing] at hacts
    obtain ⟨i, j, st, hst, rfl⟩ := attach_inv hacts
    have horder := h.order
    rw [hst, List.pairwise_cons, List.pairwise_cons] at horder
    have hi : ∀ k ∈ j :: st, i ≠ k := fun k hk => Nat.ne_of_gt (horder.1 k hk)
    have hj : ∀ k ∈ st, j ≠ k := fun k hk => Nat.ne_of_gt (horder.2.1 k hk)
    have hcov : Due Covers ⟨c.nodes.modify j fun node => { node with length := node.length + 1 }, j :: st,
        c.stringLength⟩ N := by
      have hdue := hfin.due
      rcases hc p List.mem_cons_self with rfl | rfl
      · exact hdue
      · exact hdue
    have htop : N[i]? = c.nodes[i]? := by
      have hlt : i < c.nodes.length := h.lt (by simp [hst])
      rw [hfin.grown.final i (by simpa using hlt) fun hmem => hi i hmem rfl]
      exact getElem?_modify_ne (Ne.symm (hi j List.mem_cons_self)) _
    refine ⟨⟨?_, ?_⟩, ?_⟩
    · intro k hk node node' hn hn'
      rw [hst] at hk
      cases hk
      rw [htop, hn] at hn'
      cases hn'
      exact ⟨le_rfl, le_rfl⟩
    · intro k hk node node' hn hn'
      rw [hst] at hk
      rcases List.mem_cons.1 hk with rfl | hk
      · exact hcov.top k rfl _ node' (getElem?_modify_self hn _) hn'
      · exact hcov.below k hk node node' ((getElem?_modify_ne (hj k hk) _).trans hn) hn'
    · intro k hk
      rw [hst] at hk
      cases hk
      exact htop

/-- More bytes of a string are counted. -/
theorem count_add (bs : Bytes) (c : Counted δ) :
    (countPass D).acts (bs.map .add) c = .done { c with stringLength := c.stringLength + bs.length } := by
  induction bs generalizing c with
  | nil => rfl
  | cons b bs ih =>
    have hact : (countPass D).act c (.add b) = .done { c with stringLength := c.stringLength + 1 } := rfl
    rw [List.map_cons, acts_cons_done hact, ih, List.length_cons, Nat.add_comm bs.length 1, ← Nat.add_assoc]

/-- **A move** of the first pass, seen from its end. -/
theorem final_move (h : Pair c m) (ht : m.types = mode.types) (hf : Fits mode s) (hm : Move mode acts mode')
    (hacts : (countPass D).acts acts c = .done c') (hfin : Final mode' c' N) : Final mode c N := by
  refine ⟨hfin.grown.of_acts hacts, ?_, ?_⟩
  · cases hm with
    | quiet =>
      cases hacts
      exact hfin.due
    | closeArray ps =>
      cases hf with
      | seek hc => exact (final_finish h ht (containers_tail hc) hacts hfin).1
    | closeObject ps =>
      cases hf with
      | object hc => exact (final_finish h ht hc hacts hfin).1
    | openObject types =>
      cases hacts
      exact hfin.due.of_push h types _
    | openArray types =>
      cases hacts
      exact hfin.due.of_push h types _
    | openString types =>
      cases hacts
      have hdue : Due _ (c.push (.new D .string)) N := ⟨hfin.due.top, hfin.due.below⟩
      exact hdue.of_push h types _
    | openNumber types =>
      cases hacts
      exact hfin.due.of_push h types _
    | boolean v types =>
      cases hf with
      | seek hc =>
        have hmatch : Matches { Node.new D .boolean with boolean := v } (.boolean v) := ⟨rfl, rfl⟩
        have htypes : ({ m with stack := .boolean v :: m.stack } : Built δ).types = .boolean :: types :=
          congrArg _ ht
        have hfinish := final_finish (D := D) (h.push hmatch) htypes hc hacts hfin
        exact hfinish.1.of_push h types _
    | null types =>
      cases hf with
      | seek hc =>
        have htypes : ({ m with stack := .ofNode (.new D .null) :: m.stack } : Built δ).types = .null :: types :=
          congrArg _ ht
        have hfinish := final_finish (D := D) (h.push (matches_new .null)) htypes hc hacts hfin
        exact hfinish.1.of_push h types _
    | beginName ps =>
      cases hacts
      have hdue : Due _ c N := ⟨hfin.due.top, hfin.due.below⟩
      refine hdue.mono fun node node' howes => ⟨Nat.le_of_succ_le howes.1, ?_⟩
      exact Nat.le_trans (Nat.le_add_right _ _) howes.2
    | addText bs ps =>
      rw [count_add] at hacts
      cases hacts
      have hdue : Due _ c N := ⟨hfin.due.top, hfin.due.below⟩
      exact hdue.mono fun node node' howes => Nat.le_trans (Nat.le_add_right _ _) howes
    | endText ps =>
      cases hf with
      | text hc =>
        obtain ⟨c₁, h1, h2⟩ := Outcome.bind_eq_done.1 hacts
        have hact : c.modifyTop (fun node => { node with length := c.stringLength }) = .done c₁ := h1
        obtain ⟨o, os, hstack, ho, hos⟩ := stack_of_types ht
        obtain ⟨c₂, hc₂, -, h₂⟩ := h.modifyTop (f := fun node => { node with length := c.stringLength })
          (g := .setText m.buffer) hstack (setText_matches ho _)
        rw [hact] at hc₂
        cases hc₂
        have htypes : ({ m with stack := o.setText m.buffer :: os } : Built δ).types = .string :: ps := by
          rw [Built.types, List.map_cons, type_setText, ho, hos]
        exact (final_finish h₂ htypes hc h2 hfin).1.of_modifyTop h.order hact fun node node' hcov => hcov.1
    | addName bs ps =>
      rw [count_add] at hacts
      cases hacts
      have hdue : Due _ c N := ⟨hfin.due.top, hfin.due.below⟩
      refine hdue.mono fun node node' howes => ⟨howes.1, ?_⟩
      have hnames := howes.2
      dsimp only at hnames
      omega
    | endName ps =>
      obtain ⟨c₁, h1, h2⟩ := Outcome.bind_eq_done.1 hacts
      cases h2
      exact hfin.due.of_modifyTop h.order h1 fun node node' howes => howes
    | number hfs ps => exact hfin.due.of_number h.order hacts
    | @endNumber fs double hfs ps =>
      cases hf with
      | number hc =>
        rw [acts_append] at hacts
        obtain ⟨c₁, h1, h2⟩ := Outcome.bind_eq_done.1 hacts
        obtain ⟨o, os, hstack, ho, hos⟩ := stack_of_types ht
        obtain ⟨x, rfl, hx⟩ := number_of_type ho
        obtain ⟨c₂, hc₂, h₂⟩ := h.number (D := D) hstack
        rw [h1] at hc₂
        cases hc₂
        exact (final_finish h₂ (types_number hfs hx hos) hc h2 hfin).1.of_number h.order h1
  · rintro type rfl
    cases hm
    cases hacts
    exact hfin.done type rfl

theorem final_done (h : Pair c m) (ht : m.types = [type]) : Final (.done type) c c.nodes := by
  have hrefl : ∀ i, Owed c.nodes c i Covers := by
    intro i node node' hn hn'
    rw [hn] at hn'
    cases hn'
    exact ⟨le_rfl, le_rfl⟩
  refine ⟨⟨fun i node hnode => ⟨node, hnode, .inr (.inr rfl)⟩, fun _ _ _ => rfl⟩, ⟨fun i _ => hrefl i, ?_⟩,
    fun _ _ => rfl⟩
  obtain ⟨o, os, hm, -, hos⟩ := stack_of_types ht
  obtain rfl := List.map_eq_nil_iff.1 hos
  have hstack := h.stack
  rw [hm] at hstack
  obtain ⟨i, st, -, hst, hcs⟩ := List.forall₂_cons_right_iff.1 hstack
  obtain rfl := List.forall₂_nil_right_iff.1 hst
  intro k hk
  rw [hcs] at hk
  cases hk

/-- **The first pass**, seen from its end. -/
theorem loop_final {fuel : Nat} {n : NumScan} (h : Pair c m) (ht : m.types = mode.types) (hf : Fits mode s)
    (hc : loop D (countPass D) true fuel s n c = .done cEnd) : Final mode c cEnd.nodes := by
  induction fuel generalizing s n c m mode with
  | zero => cases hc
  | succ fuel ih =>
    have htc : (countPass D).types c = mode.types := h.types.trans ht
    rw [loop, htc] at hc
    rcases control_cases (D := D) (n := n) ((countPass D).stringLength c) hf with
      hctl | ⟨hctl, type, rfl⟩ | ⟨acts, s', n', hctl, mode', hmove, hf', -⟩
    · rw [hctl] at hc
      cases hc
    · rw [hctl] at hc
      cases hc
      exact final_done h ht
    · rw [hctl] at hc
      obtain ⟨c', h1, h2⟩ := Outcome.bind_eq_done.1 hc
      rcases pair_move (D := D) h ht hf hmove with ⟨hfail, -⟩ | ⟨c'', m', hdone, -, h', ht'⟩
      · rw [h1] at hfail
        cases hfail
      · rw [h1] at hdone
        cases hdone
        exact final_move h ht hf hmove h1 (ih h' ht' hf' h2)

end JsonParser

end HttpProxy
