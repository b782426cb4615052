import HttpProxy.Json.Totals

/-!
# The second pass

The second pass of `json_parse_ex` takes the values in the order in which the first one has allocated them,
and writes into the room that was counted for each.

* `Sync` — the second pass is where the first one was.
* `fill_move`, `loop_number` — a turn of the second pass against one of the first, and a number, which the second
  pass skips.
* `loop_fill` — so the second pass never writes outside of the room and does what the single pass does, unless
  the size of an object does not fit an `int`.
* `jsonParseEx_cases` — the two passes and the single one.
-/

namespace HttpProxy

namespace JsonParser

variable {δ : Type} {D : Doubles δ} {c c' cEnd : Counted δ} {m m' mEnd : Built δ} {f : Filled δ}
  {mode mode' : Mode} {s : Scan} {acts : List (Act δ)} {N : List (Node δ)} {o : Open δ} {os : List (Open δ)}
  {type : JsonType} {ps : List JsonType}

/-! ## The room of a value -/

/-- The size of the members fits an `int`. -/
def Small (node : Node δ) : Prop := node.type = .object → node.length ≤ 89478485

theorem small_iff (node : Node δ) :
    Small node ↔ ¬ (node.type = .object ∧ toInt32 (24 * node.length) ≠ 24 * node.length) := by
  have hfits : toInt32 (24 * node.length) = 24 * node.length ↔ node.length ≤ 89478485 := by
    constructor
    · intro h
      by_contra hlt
      have hadd := toInt32_add_le (x := 24 * node.length) (by omega)
      omega
    · intro h
      exact toInt32_eq_self (by omega) (by omega)
  rw [not_and, not_not, hfits]
  rfl

/-- The second pass is where the first one was: the values that it has not taken are those that the first pass
allocates from here on, and of the names as much is written as is counted. -/
structure Sync (N : List (Node δ)) (c : Counted δ) (m : Built δ) (f : Filled δ) : Prop where
  built : f.built = m
  alloc : f.alloc = N.drop c.nodes.length
  rooms : List.Forall₂ (fun i room => ∃ node, c.nodes[i]? = some node ∧
    (N[i]? = some room.node ∧ room.used = node.names)) c.stack f.rooms
  small : ∀ node ∈ N.take c.nodes.length, Small node

/-- The second pass has come to an object that is too large: there is no memory for it, or too little is
allocated. -/
def Stuck (N : List (Node δ)) (r : Outcome Unit (Filled δ)) : Prop :=
  ∃ node ∈ N, ¬ Small node ∧
    (r = .failed () ∨ (r = .fault .outOfBounds ∧ 0 ≤ toInt32 (24 * node.length) + node.names))

theorem Stuck.bind {r : Outcome Unit (Filled δ)} {g : Filled δ → Outcome Unit (Filled δ)} (h : Stuck N r) :
    Stuck N (r.bind g) := by
  obtain ⟨node, hnode, hbig, rfl | ⟨rfl, hsum⟩⟩ := h
  · exact ⟨node, hnode, hbig, .inl rfl⟩
  · exact ⟨node, hnode, hbig, .inr ⟨rfl, hsum⟩⟩

/-- The second pass follows the first one, or comes to an object that is too large. -/
def Follows (N : List (Node δ)) (c : Counted δ) (m : Built δ) (r : Outcome Unit (Filled δ)) : Prop :=
  (∃ f, r = .done f ∧ Sync N c m f) ∨ Stuck N r

theorem Follows.cons {a : Act δ} {c₁ : Counted δ} {m₁ : Built δ} (h : Follows N c₁ m₁ ((fillPass D).act f a))
    (hrest : ∀ f₁, Sync N c₁ m₁ f₁ → Follows N c m ((fillPass D).acts acts f₁)) :
    Follows N c m ((fillPass D).acts (a :: acts) f) := by
  rcases h with ⟨f₁, hf₁, hs⟩ | hstuck
  · rw [acts_cons_done hf₁]
    exact hrest f₁ hs
  · exact .inr hstuck.bind

theorem follows_nil (h : Sync N c m f) : Follows N c m ((fillPass D).acts [] f) := .inl ⟨f, rfl, h⟩

/-- The next value is taken. -/
theorem Sync.push (h : Sync N c m f) {node node' : Node δ} (hN : N[c.nodes.length]? = some node')
    (hnames : node.names = 0) {fill : Node δ → Open δ} (hfill : fill node' = o) :
    Follows N (c.push node) { m with stack := o :: m.stack } (f.push fill) := by
  obtain ⟨hlt, hget⟩ := List.getElem?_eq_some_iff.1 hN
  have halloc : f.alloc = node' :: N.drop (c.nodes.length + 1) := by
    rw [h.alloc, List.drop_eq_getElem_cons hlt, hget]
  unfold Filled.push
  rw [halloc]
  dsimp only
  by_cases hsmall : Small node'
  · rw [if_neg ((small_iff node').1 hsmall)]
    refine .inl ⟨_, rfl, ⟨by rw [hfill, h.built], by simp [Counted.push], ?_, ?_⟩⟩
    · refine .cons ⟨node, by simp [Counted.push], hN, hnames.symm⟩ ?_
      refine h.rooms.imp fun i room hroom => ?_
      obtain ⟨old, hold, hroom⟩ := hroom
      refine ⟨old, ?_, hroom⟩
      rw [Counted.push, List.getElem?_append_left (List.getElem?_eq_some_iff.1 hold).1]
      exact hold
    · intro x hx
      rw [Counted.push, List.length_append, List.length_singleton, List.take_add_one, hN] at hx
      rcases List.mem_append.1 hx with hx | hx
      · exact h.small x hx
      · rw [Option.toList_some, List.mem_singleton] at hx
        exact hx ▸ hsmall
  · rw [if_pos (by_contra fun hno => hsmall ((small_iff node').2 hno))]
    refine .inr ⟨node', List.mem_of_getElem? hN, hsmall, ?_⟩
    split_ifs with hsum
    · exact .inl rfl
    · exact .inr ⟨rfl, not_lt.1 hsum⟩

/-- The node and the room of `top`. -/
theorem Sync.top (h : Sync N c m f) (hp : Pair c m) (hg : Grown c N) (hm : m.stack = o :: os) :
    ∃ i st node room rooms, c.stack = i :: st ∧ f.rooms = room :: rooms ∧ c.nodes[i]? = some node ∧
      N[i]? = some room.node ∧ room.used = node.names ∧ Matches node o ∧ Keeps node room.node := by
  have hstack := hp.stack
  rw [hm] at hstack
  obtain ⟨i, st, ⟨node, hnode, hmatch⟩, -, hcs⟩ := List.forall₂_cons_right_iff.1 hstack
  have hrooms := h.rooms
  rw [hcs] at hrooms
  obtain ⟨room, rooms, ⟨node', hnode', hN, hused⟩, -, hfr⟩ := List.forall₂_cons_left_iff.1 hrooms
  rw [hnode] at hnode'
  cases hnode'
  obtain ⟨last, hlast, hkeep⟩ := hg.keeps i node hnode
  rw [hN] at hlast
  cases hlast
  exact ⟨i, st, node, room, rooms, hcs, hfr, hnode, hN, hused, hmatch, hkeep⟩

theorem keeps_type {node node' : Node δ} (h : Keeps node node') (hm : Matches node o)
    (ho : o.type ≠ .integer ∧ o.type ≠ .double) : node'.type = o.type := by
  rw [← hm.type] at ho ⊢
  rcases h with h | h | h
  · exact absurd h ho.1
  · exact absurd h ho.2
  · exact h

/-- A value ends. -/
theorem Sync.finish (h : Sync N c m f) (hp : Pair c m) (ht : m.types = type :: ps) (hc : Containers ps)
    (hcount : (countPass D).acts (closing ps) c = .done c')
    (hbuild : (buildPass D).acts (closing ps) m = .done m') (hfin : Final (.after type ps) c' N) :
    Follows N c' m' ((fillPass D).acts (closing ps) f) := by
  cases ps with
  | nil =>
    cases hcount
    cases hbuild
    exact follows_nil h
  | cons p ps =>
    rw [acts_closing] at hcount hbuild ⊢
    obtain ⟨o, os, hm, -, hos⟩ := stack_of_types ht
    obtain ⟨parent, os, rfl, hp', -⟩ := List.map_eq_cons_iff.1 hos
    have hcont : parent.type = .object ∨ parent.type = .array := hp' ▸ hc p List.mem_cons_self
    obtain ⟨i, j, st, hcs, rfl⟩ := attach_inv hcount
    have horder := hp.order
    have hstack := hp.stack
    have hrooms := h.rooms
    rw [hcs, List.pairwise_cons, List.pairwise_cons] at horder
    rw [hcs, hm] at hstack
    rw [hcs] at hrooms
    obtain ⟨-, hstack⟩ := List.forall₂_cons.1 hstack
    obtain ⟨⟨node, hnode, hmatch⟩, -⟩ := List.forall₂_cons.1 hstack
    obtain ⟨x, rooms, -, hrooms, hfr⟩ := List.forall₂_cons_left_iff.1 hrooms
    obtain ⟨room, rooms, ⟨node', hnode', hN, hused⟩, hrest, rfl⟩ := List.forall₂_cons_left_iff.1 hrooms
    rw [hnode] at hnode'
    cases hnode'
    have hmod := getElem?_modify_self hnode fun node => { node with length := node.length + 1 }
    have hcov : node.length + 1 ≤ room.node.length := by
      have htop := hfin.due.top j rfl _ room.node hmod hN
      rcases hc p List.mem_cons_self with rfl | rfl
      · exact htop.1
      · exact htop.1
    have hentry : Filled.hasEntry room parent = true := by
      rw [Filled.hasEntry, ← (hmatch.put hcont o.value).1]
      exact decide_eq_true hcov
    have hact : f.built.act D .attach = .done m' := by
      rw [h.built]
      exact hbuild
    have hj : j ∉ st := fun hj => absurd (horder.2.1 j hj) (lt_irrefl j)
    refine .inl ⟨{ f with rooms := room :: rooms, built := m' }, ?_, rfl, ?_, ?_, ?_⟩
    · simp only [fillPass, Filled.act, hfr, h.built, hm, hentry, if_true]
      rw [← h.built, hact, Outcome.bind_done]
    · rw [h.alloc, List.length_modify]
    · exact .cons ⟨_, hmod, hN, hused⟩ (forall₂_modify hj hrest)
    · rw [List.length_modify]
      exact h.small

/-! ## Strings -/

/-- The bytes for which there is room in `top`. -/
def Filled.room (f : Filled δ) : Nat :=
  match f.rooms with
  | room :: _ =>
      match room.node.type with
      | .string => room.node.length + 1
      | .object => room.node.names - room.used
      | _ => 0
  | [] => 0

theorem hasRoom_eq (f : Filled δ) : f.hasRoom = decide (f.built.buffer.length < f.room) := by
  rw [Bool.eq_iff_iff, decide_eq_true_iff]
  unfold Filled.hasRoom Filled.room
  cases f.rooms with
  | nil => simp
  | cons room rooms =>
    dsimp only
    cases room.node.type with
    | object =>
      rw [decide_eq_true_iff]
      dsimp only
      omega
    | string => exact decide_eq_true_iff
    | _ => simp

/-- More bytes are written. -/
theorem fill_add {bs : Bytes} (h : f.built.buffer.length + bs.length ≤ f.room) :
    (fillPass D).acts (bs.map .add) f =
      .done { f with built := { f.built with buffer := f.built.buffer ++ bs } } := by
  induction bs generalizing f with
  | nil =>
    rw [List.append_nil]
    rfl
  | cons b bs ih =>
    rw [List.length_cons] at h
    have hact : (fillPass D).act f (.add b) =
        .done { f with built := { f.built with buffer := f.built.buffer ++ [b] } } := by
      have hroom : f.hasRoom = true := by
        rw [hasRoom_eq]
        exact decide_eq_true (by omega)
      simp only [fillPass, Filled.act, hroom, if_true]
      rfl
    rw [List.map_cons, acts_cons_done hact, ih]
    · rw [List.append_assoc, List.singleton_append]
    · simp only [List.length_append, List.length_singleton]
      exact le_of_eq_of_le (by omega) h

theorem build_add (bs : Bytes) (m : Built δ) :
    (buildPass D).acts (bs.map .add) m = .done { m with buffer := m.buffer ++ bs } := by
  induction bs generalizing m with
  | nil =>
    rw [List.append_nil]
    rfl
  | cons b bs ih =>
    have hact : (buildPass D).act m (.add b) = .done { m with buffer := m.buffer ++ [b] } := rfl
    rw [List.map_cons, acts_cons_done hact, ih, List.append_assoc, List.singleton_append]

/-- The room of a text that is read. -/
theorem Sync.text_room (h : Sync N c m f) (hp : Pair c m) (ht : m.types = .string :: ps) {len : Nat}
    (hfin : Final (.text ps) { c with stringLength := len } N) : len + 1 ≤ f.room := by
  obtain ⟨o, os, hm, ho, -⟩ := stack_of_types ht
  have hg : Grown c N := ⟨hfin.grown.keeps, hfin.grown.final⟩
  obtain ⟨i, st, node, room, rooms, hcs, hfr, hnode, hN, -, hmatch, hkeep⟩ := h.top hp hg hm
  have htype := keeps_type hkeep hmatch (by simp [ho])
  have hlen : len ≤ room.node.length := hfin.due.top i (by simp [hcs]) node room.node hnode hN
  unfold Filled.room
  rw [hfr]
  simp only [htype, ho]
  omega

/-- The room of a name that is read. -/
theorem Sync.name_room (h : Sync N c m f) (hp : Pair c m) (ht : m.types = .object :: ps) {len : Nat}
    (hfin : Final (.name ps) { c with stringLength := len } N) : len + 1 ≤ f.room := by
  obtain ⟨o, os, hm, ho, -⟩ := stack_of_types ht
  have hg : Grown c N := ⟨hfin.grown.keeps, hfin.grown.final⟩
  obtain ⟨i, st, node, room, rooms, hcs, hfr, hnode, hN, hused, hmatch, hkeep⟩ := h.top hp hg hm
  have htype := keeps_type hkeep hmatch (by simp [ho])
  have hlen := (hfin.due.top i (by simp [hcs]) node room.node hnode hN).2
  unfold Filled.room
  rw [hfr]
  simp only [htype, ho]
  dsimp only at hlen
  omega

/-! ## A turn -/

/-- A new value whose type is kept. -/
theorem Sync.newValue (h : Sync N c m f) (hg : Grown (c.push (.new D type)) N)
    (htype : type = .object ∨ type = .array ∨ type = .string ∨ type = .null) :
    Follows N (c.push (.new D type)) { m with stack := .ofNode (.new D type) :: m.stack }
      ((fillPass D).act f (.newValue type)) := by
  obtain ⟨node, hN, hkeep⟩ := hg.keeps c.nodes.length (.new D type) (by simp [Counted.push])
  have hnode : node.type = type := by
    rcases htype with rfl | rfl | rfl | rfl <;> simpa [Keeps, Node.new] using hkeep
  refine h.push hN rfl ?_
  unfold Open.ofNode
  rw [hnode]
  rcases htype with rfl | rfl | rfl | rfl <;> rfl

theorem Sync.beginString (h : Sync N c m f) :
    Follows N { c with stringLength := 0 } { m with buffer := [] } ((fillPass D).act f .beginString) := by
  refine .inl ⟨{ f with built := { m with buffer := [] } }, ?_, rfl, h.alloc, h.rooms, h.small⟩
  rw [← h.built]
  rfl

/-- A change to `top`. -/
theorem Sync.modifyTop (h : Sync N c m f) (hp : Pair c m) {g : Node δ → Node δ}
    (hact : c.modifyTop g = .done c') {room room' : Room δ} {rooms : List (Room δ)} (hfr : f.rooms = room :: rooms)
    (hnode : room'.node = room.node) (hused : ∀ node, room.used = node.names → room'.used = (g node).names) :
    Sync N c' m' ⟨f.alloc, room' :: rooms, m'⟩ := by
  obtain ⟨i, st, hcs, rfl⟩ := modifyTop_inv hact
  have horder := hp.order
  have hrooms := h.rooms
  rw [hcs, List.pairwise_cons] at horder
  rw [hcs, hfr] at hrooms
  obtain ⟨⟨node, hget, hN, hnames⟩, hrest⟩ := List.forall₂_cons.1 hrooms
  have hi : i ∉ st := fun hi => absurd (horder.1 i hi) (lt_irrefl i)
  refine ⟨rfl, ?_, ?_, ?_⟩
  · rw [h.alloc, List.length_modify]
  · exact .cons ⟨_, getElem?_modify_self hget g, hnode ▸ hN, hused node hnames⟩ (forall₂_modify hi hrest)
  · rw [List.length_modify]
    exact h.small

/-- The quote behind a string. -/
theorem Sync.endText (h : Sync N c m f) (hp : Pair c m) (ht : m.types = .string :: ps)
    (hcount : (countPass D).act c .endText = .done c') (hbuild : (buildPass D).act m .endText = .done m')
    (hfin : Final (.text ps) c N) : Follows N c' m' ((fillPass D).act f .endText) := by
  obtain ⟨o, os, hm, ho, -⟩ := stack_of_types ht
  obtain ⟨i, st, node, room, rooms, -, hfr, -⟩ := h.top hp hfin.grown hm
  have hroom : f.hasRoom = true := by
    have hlen := h.text_room hp ht hfin
    have hbuf := hp.length
    rw [hasRoom_eq, h.built]
    exact decide_eq_true (by omega)
  have hact : f.built.act D .endText = .done m' := by
    rw [h.built]
    exact hbuild
  refine .inl ⟨⟨f.alloc, room :: rooms, m'⟩, ?_, h.modifyTop hp hcount hfr rfl fun _ hused => hused⟩
  simp only [fillPass, Filled.act, hroom, if_true, hact, Outcome.bind_done, hfr]

/-- The quote behind a name. -/
theorem Sync.endName (h : Sync N c m f) (hp : Pair c m) (ht : m.types = .object :: ps)
    (hcount : (countPass D).act c .endName = .done c') (hbuild : (buildPass D).act m .endName = .done m')
    (hfin : Final (.name ps) c N) : Follows N c' m' ((fillPass D).act f .endName) := by
  obtain ⟨o, os, hm, ho, -⟩ := stack_of_types ht
  obtain ⟨i, st, node, room, rooms, hcs, hfr, hnode, hN, -, hmatch, -⟩ := h.top hp hfin.grown hm
  have hbuf := hp.length
  have hroom : f.hasRoom = true := by
    have hlen := h.name_room hp ht hfin
    rw [hasRoom_eq, h.built]
    exact decide_eq_true (by omega)
  have hentry : Filled.hasEntry room o = true := by
    have hlen := (hfin.due.top i (by simp [hcs]) node room.node hnode hN).1
    rw [Filled.hasEntry, ← (hmatch.put (.inl ho) .none).1]
    exact decide_eq_true hlen
  have hact : f.built.act D .endName = .done m' := by
    rw [h.built]
    exact hbuild
  refine .inl ⟨⟨f.alloc, { room with used := room.used + (m.buffer.length + 1) } :: rooms, m'⟩, ?_,
    h.modifyTop hp hcount hfr rfl fun node hused => ?_⟩
  · simp only [fillPass, Filled.act, hfr, h.built, hm, hroom, hentry]
    rw [if_pos ⟨trivial, trivial⟩, ← h.built, hact, Outcome.bind_done]
  · dsimp only
    rw [hused, hbuf]

/-- **A move** of the second pass. -/
theorem fill_move (h : Sync N c m f) (hp : Pair c m) (ht : m.types = mode.types) (hf : Fits mode s)
    (hm : Move mode acts mode') (hstill : mode.Still) (hstill' : mode'.Still)
    (hcount : (countPass D).acts acts c = .done c') (hbuild : (buildPass D).acts acts m = .done m')
    (hfin : Final mode c N) (hfin' : Final mode' c' N) : Follows N c' m' ((fillPass D).acts acts f) := by
  cases hm with
  | quiet =>
    cases hcount
    cases hbuild
    exact follows_nil h
  | closeArray ps =>
    cases hf with
    | seek hc => exact h.finish hp ht (containers_tail hc) hcount hbuild hfin'
  | closeObject ps =>
    cases hf with
    | object hc => exact h.finish hp ht hc hcount hbuild hfin'
  | openObject types =>
    cases hcount
    cases hbuild
    exact (h.newValue hfin'.grown (.inl rfl)).cons fun f₁ h₁ => follows_nil h₁
  | openArray types =>
    cases hcount
    cases hbuild
    exact (h.newValue hfin'.grown (.inr (.inl rfl))).cons fun f₁ h₁ => follows_nil h₁
  | openString types =>
    cases hcount
    cases hbuild
    have hg : Grown (c.push (.new D .string)) N := ⟨hfin'.grown.keeps, hfin'.grown.final⟩
    exact (h.newValue hg (.inr (.inr (.inl rfl)))).cons fun f₁ h₁ =>
      h₁.beginString.cons fun f₂ h₂ => follows_nil h₂
  | openNumber types => exact hstill'.elim
  | boolean v types =>
    cases hf with
    | seek hc =>
      have hmatch : Matches { Node.new D .boolean with boolean := v } (.boolean v) := ⟨rfl, rfl⟩
      have htypes : ({ m with stack := .boolean v :: m.stack } : Built δ).types = .boolean :: types :=
        congrArg _ ht
      have hlast := (final_finish (D := D) (hp.push hmatch) htypes hc hcount hfin').2 c.nodes.length rfl
      rw [Counted.push, List.getElem?_append_right (le_refl _), Nat.sub_self, List.getElem?_cons_zero] at hlast
      refine Follows.cons (h.push hlast rfl ?_) fun f₁ h₁ =>
        h₁.finish (hp.push hmatch) htypes hc hcount hbuild hfin'
      dsimp only
      rw [ite_self]
  | null types =>
    cases hf with
    | seek hc =>
      have hclosing : (countPass D).acts (closing types) (c.push (.new D .null)) = .done c' := hcount
      have hg := hfin'.grown.of_acts hclosing
      have htypes : ({ m with stack := .ofNode (.new D .null) :: m.stack } : Built δ).types = .null :: types :=
        congrArg _ ht
      exact (h.newValue hg (.inr (.inr (.inr rfl)))).cons fun f₁ h₁ =>
        h₁.finish (hp.push (matches_new .null)) htypes hc hcount hbuild hfin'
  | beginName ps =>
    cases hcount
    cases hbuild
    exact h.beginString.cons fun f₁ h₁ => follows_nil h₁
  | addText bs ps =>
    rw [count_add] at hcount
    rw [build_add] at hbuild
    cases hcount
    cases hbuild
    have hroom := h.text_room hp ht hfin'
    have hbuf := hp.length
    refine .inl ⟨_, fill_add ?_, ?_, h.alloc, h.rooms, h.small⟩
    · rw [h.built]
      omega
    · rw [h.built]
  | addName bs ps =>
    rw [count_add] at hcount
    rw [build_add] at hbuild
    cases hcount
    cases hbuild
    have hroom := h.name_room hp ht hfin'
    have hbuf := hp.length
    refine .inl ⟨_, fill_add ?_, ?_, h.alloc, h.rooms, h.small⟩
    · rw [h.built]
      omega
    · rw [h.built]
  | endText ps =>
    cases hf with
    | text hc =>
      obtain ⟨c₁, hc₁, hcount⟩ := Outcome.bind_eq_done.1 hcount
      obtain ⟨m₁, hm₁, hbuild⟩ := Outcome.bind_eq_done.1 hbuild
      obtain ⟨o, os, hstack, ho, hos⟩ := stack_of_types ht
      obtain ⟨c₂, hc₂, hm₂, hp₂⟩ := hp.modifyTop (f := fun node => { node with length := c.stringLength })
        (g := .setText m.buffer) hstack (setText_matches ho _)
      obtain rfl : c₂ = c₁ := Outcome.done.inj (hc₂.symm.trans hc₁)
      obtain rfl : { m with stack := o.setText m.buffer :: os } = m₁ := Outcome.done.inj (hm₂.symm.trans hm₁)
      have htypes : ({ m with stack := o.setText m.buffer :: os } : Built δ).types = .string :: ps := by
        rw [Built.types, List.map_cons, type_setText, ho, hos]
      exact (h.endText hp ht hc₁ hm₁ hfin).cons fun f₁ h₁ => h₁.finish hp₂ htypes hc hcount hbuild hfin'
  | endName ps =>
    obtain ⟨c₁, hc₁, hcount⟩ := Outcome.bind_eq_done.1 hcount
    obtain ⟨m₁, hm₁, hbuild⟩ := Outcome.bind_eq_done.1 hbuild
    cases hcount
    cases hbuild
    exact (h.endName hp ht hc₁ hm₁ hfin).cons fun f₁ h₁ => follows_nil h₁
  | number hfs ps => exact hstill.elim
  | endNumber hfs ps => exact hstill.elim

/-! ## Numbers -/

theorem modify_length (nodes : List (Node δ)) (node : Node δ) (g : Node δ → Node δ) :
    (nodes ++ [node]).modify nodes.length g = nodes ++ [g node] := by
  induction nodes with
  | nil => rfl
  | cons old nodes ih => rw [List.cons_append, List.length_cons, List.modify_succ_cons, ih, List.cons_append]

/-- Changes to the number that has been allocated last. -/
theorem count_number (gs : List (Num δ → Num δ)) {node : Node δ} {x : Num δ} (h : Matches node (.number x)) :
    ∃ node', (countPass D).acts (gs.map .number) (c.push node) = .done (c.push node') ∧
      Matches node' (.number (changed gs x)) ∧ node'.names = node.names := by
  induction gs generalizing node x with
  | nil => exact ⟨node, rfl, h, rfl⟩
  | cons g gs ih =>
    obtain ⟨node', hacts, hmatch, hnames⟩ := ih (h.number g)
    have hact : (countPass D).act (c.push node) (.number g) = .done (c.push (node.number g)) := by
      simp only [countPass, Counted.act, Counted.modifyTop, Counted.push, modify_length]
    refine ⟨node', by rw [List.map_cons, acts_cons_done hact, hacts], hmatch, hnames.trans ?_⟩
    unfold Node.number
    split_ifs <;> rfl

/-- A byte of a number that comes behind a value is refused. -/
theorem after_fails {first : Bool} {n : NumScan} {len : Nat} (hf : Fits (.after type ps) s)
    (hcomma : s.needComma = true) (hb : isNumberByte s.byte = true) :
    control D first (Mode.after type ps).types len s n = .failed := by
  have hne : ∀ {b}, isNumberByte b = false → s.byte ≠ b := by
    rintro b hno rfl
    rw [hno] at hb
    cases hb
  have hws : isWhitespace s.byte = false := by
    simp [isWhitespace, hne (b := LF) (by decide), hne (b := chr ' ') (by decide), hne (b := 9) (by decide),
      hne (b := CR) (by decide)]
  rw [control_still hf (still_after type ps)]
  suffices hfail : flow (δ := δ) (Mode.after type ps).types len s = .failed by
    rw [hfail]
    rfl
  cases ps with
  | nil =>
    cases hf with
    | done hs hd =>
      unfold flow outside
      rw [if_neg (by simp [hs]), if_pos hd, if_neg (hne (by decide)), if_neg (by simp [hws])]
  | cons p ps =>
    have hkind : (∃ ps', Mode.after type (p :: ps) = .object ps') ∨
        Mode.after type (p :: ps) = .seek (p :: ps) := by
      cases p <;> first | exact .inl ⟨_, rfl⟩ | exact .inr rfl
    rcases hkind with ⟨ps', hmode⟩ | hmode
    · rw [hmode] at hf ⊢
      cases hf with
      | object hc hs hd hv =>
        unfold flow
        rw [if_neg (by simp [hs]), Mode.types, outside_object hd hv]
        unfold inObject
        simp [hws, hne (b := chr '"') (by decide), hne (b := chr '}') (by decide),
          hne (b := chr ',') (by decide)]
    · rw [hmode] at hf ⊢
      cases hf with
      | seek hc hs hd hv =>
        unfold flow
        rw [if_neg (by simp [hs]), Mode.types, outside_seek hd hv]
        unfold seek
        simp [hws, hne (b := chr ']') (by decide), hne (b := chr ',') (by decide), hcomma]

theorem needComma_behind (ps : List JsonType) (s : Scan) : (s.behind ps).needComma = true := by
  cases ps <;> rfl

theorem together_done (h : Together mode (.done c) (.done m)) : Pair c m ∧ m.types = mode.types := by
  rcases h with ⟨h, -⟩ | ⟨c', m', h1, h2, hp, ht⟩
  · cases h
  · cases h1
    cases h2
    exact ⟨hp, ht⟩

/-- Behind a number comes no byte of one. -/
theorem dropWhile_of_after {fuel : Nat} {n : NumScan} (h : Together (.after type ps) (.done c) (.done m))
    (hf : Fits (.after type ps) s) (hcomma : s.needComma = true)
    (hc : loop D (countPass D) true fuel s n c = .done cEnd) : s.rest.dropWhile isNumberByte = s.rest := by
  obtain ⟨hp, ht⟩ := together_done h
  cases fuel with
  | zero => cases hc
  | succ fuel =>
    rw [loop, show (countPass D).types c = (Mode.after type ps).types from hp.types.trans ht] at hc
    have hbyte : isNumberByte s.byte = false := by
      by_contra hb
      rw [after_fails hf hcomma (by simpa using hb)] at hc
      cases hc
    unfold Scan.byte at hbyte
    cases hrest : s.rest with
    | nil => rfl
    | cons b rest =>
      rw [hrest] at hbyte
      exact List.dropWhile_cons_of_neg (by simpa using hbyte)

/-- **A number** in the first pass: it is read up to the first byte that is none of a number, and put into its
parent. -/
theorem loop_number {fuel : Nat} {n : NumScan} {node : Node δ} {x : Num δ} (hp : Pair c m) (ht : m.types = ps)
    (hf : Fits (.number x.isDouble ps) s) (hmatch : Matches node (.number x))
    (hc : loop D (countPass D) true fuel s n (c.push node) = .done cEnd)
    (hb : loop D (buildPass D) true fuel s n { m with stack := .number x :: m.stack } = .done mEnd) :
    ∃ fuel' n' node' x' c' m', Matches node' (.number x') ∧ node'.names = node.names ∧
      (countPass D).acts (closing ps) (c.push node') = .done c' ∧
      (buildPass D).acts (closing ps) { m with stack := .number x' :: m.stack } = .done m' ∧
      loop D (countPass D) true fuel' ({ s with rest := s.rest.dropWhile isNumberByte }.behind ps) n' c' =
        .done cEnd ∧
      loop D (buildPass D) true fuel' ({ s with rest := s.rest.dropWhile isNumberByte }.behind ps) n' m' =
        .done mEnd := by
  induction fuel generalizing s n node x with
  | zero => cases hc
  | succ fuel ih =>
    have htypes : ∀ y : Num δ, y.isDouble = x.isDouble →
        ({ m with stack := .number y :: m.stack } : Built δ).types = numberType x.isDouble :: ps := by
      intro y hy
      rw [Built.types, List.map_cons, Open.type, hy]
      exact congrArg _ ht
    have hpush := hp.push hmatch
    rw [loop, show (countPass D).types (c.push node) = numberType x.isDouble :: ps from
      hpush.types.trans (htypes x rfl), control_number hf] at hc
    rw [loop, show (buildPass D).types { m with stack := .number x :: m.stack } =
      numberType x.isDouble :: ps from htypes x rfl, control_number hf] at hb
    cases hnum : inNumber D x.isDouble ps s n with
    | failed =>
      rw [hnum] at hc
      cases hc
    | noTop =>
      rw [hnum] at hc
      cases hc
    | stop => exact absurd hnum inNumber_live.2
    | go acts s' n' =>
      rw [hnum] at hc hb
      obtain ⟨c₁, hc₁, hcloop⟩ := Outcome.bind_eq_done.1 hc
      obtain ⟨m₁, hm₁, hbloop⟩ := Outcome.bind_eq_done.1 hb
      rcases inNumber_cases hnum with ⟨gs, double', hgs, rfl, rfl, hbyte⟩ | ⟨gs, hgs, rfl, rfl, hbyte⟩
      · obtain ⟨node', hcount, hmatch', hnames⟩ := count_number (D := D) (c := c) gs hmatch
        rw [hcount] at hc₁
        rw [build_number gs rfl] at hm₁
        cases hc₁
        cases hm₁
        have hf' : Fits (.number (changed gs x).isDouble ps) s.skip := by
          cases hf with
          | number hcont hs hd hv => exact .number hcont hs hd hv
        have hdrop : s.rest.dropWhile isNumberByte = s.rest.tail.dropWhile isNumberByte := by
          conv_lhs => rw [rest_of_byte (ne_zero_of_isNumberByte hbyte), List.dropWhile_cons_of_pos hbyte]
        obtain ⟨fuel', n', last, x', c', m', hlast, hsame, hrest⟩ := ih hf' hmatch' hcloop hbloop
        rw [hdrop]
        exact ⟨fuel', n', last, x', c', m', hlast, hsame.trans hnames, hrest⟩
      · obtain ⟨node', hcount, hmatch', hnames⟩ := count_number (D := D) (c := c) gs hmatch
        rw [acts_append, hcount, Outcome.bind_done] at hc₁
        rw [acts_append, build_number gs rfl, Outcome.bind_done] at hm₁
        cases hf with | number hcont hs hd hv
        refine ⟨fuel, n', node', changed gs x, c₁, m₁, hmatch', hnames, hc₁, hm₁, ?_⟩
        have hpair := (hp.push hmatch').finish (D := D) (htypes (changed gs x) (hgs x rfl)) hcont
        rw [hc₁, hm₁] at hpair
        have hdrop := dropWhile_of_after hpair (behind_fits (numberType x.isDouble) hs hd hv hcont)
          (needComma_behind ps s) hcloop
        rw [rest_behind] at hdrop
        rw [hdrop]
        exact ⟨hcloop, hbloop⟩

/-! ## The whole pass -/

theorem ofNode_number {node : Node δ} {x : Num δ} (h : Matches node (.number x)) :
    Open.ofNode node = .number x := by
  obtain ⟨htype, hint, hdbl⟩ := h
  obtain ⟨double, integer, dbl⟩ := x
  unfold Open.ofNode
  rw [htype, hint, hdbl]
  cases double <;> rfl

theorem length_dropWhile (hb : isNumberByte s.byte = true) :
    (s.rest.dropWhile isNumberByte).length < s.rest.length := by
  rw [rest_of_byte (ne_zero_of_isNumberByte hb), List.dropWhile_cons_of_pos hb, List.length_cons]
  exact Nat.lt_succ_of_le (List.dropWhile_suffix _).length_le

/-- **The second pass** ends as the single pass does, or comes to an object that is too large. -/
theorem loop_fill {fuel₂ fuel : Nat} {n : NumScan} (n₂ : NumScan) (h : Sync cEnd.nodes c m f) (hp : Pair c m)
    (ht : m.types = mode.types) (hf : Fits mode s) (hstill : mode.Still)
    (hc : loop D (countPass D) true fuel s n c = .done cEnd)
    (hb : loop D (buildPass D) true fuel s n m = .done mEnd) (hfuel : cost mode s < fuel₂) :
    Follows cEnd.nodes cEnd mEnd (loop D (fillPass D) false fuel₂ s n₂ f) := by
  induction fuel₂ generalizing s n n₂ c m f mode fuel with
  | zero => omega
  | succ fuel₂ ih =>
    cases fuel with
    | zero => cases hc
    | succ fuel =>
      have hfin := loop_final hp ht hf hc
      have htc : (countPass D).types c = mode.types := hp.types.trans ht
      have htb : (buildPass D).types m = mode.types := ht
      have htf : (fillPass D).types f = mode.types := (congrArg Built.types h.built).trans ht
      have hlc : (countPass D).stringLength c = m.buffer.length := hp.length
      have hlb : (buildPass D).stringLength m = m.buffer.length := rfl
      have hlf : (fillPass D).stringLength f = m.buffer.length := congrArg (fun m => m.buffer.length) h.built
      have hleads := (flow_leads (δ := δ) m.buffer.length hf hstill).2
      rw [loop, htc, hlc, control_still hf hstill] at hc
      rw [loop, htb, hlb, control_still hf hstill] at hb
      rw [loop, htf, hlf, control_still hf hstill]
      generalize flow mode.types m.buffer.length s = fl at hleads hc hb
      cases fl with
      | failed => cases hc
      | noTop => exact hleads.elim
      | stop =>
        cases hc
        cases hb
        exact .inl ⟨f, rfl, h⟩
      | go acts s' =>
        obtain ⟨mode', hmove, hstill', hf', hcost⟩ := hleads
        obtain ⟨c', hc', hcloop⟩ := Outcome.bind_eq_done.1 hc
        obtain ⟨m', hm', hbloop⟩ := Outcome.bind_eq_done.1 hb
        have hpair := pair_move (D := D) hp ht hf hmove
        rw [hc', hm'] at hpair
        obtain ⟨hp', ht'⟩ := together_done hpair
        have hfin' := loop_final hp' ht' hf' hcloop
        rcases fill_move h hp ht hf hmove hstill hstill' hc' hm' hfin hfin' with ⟨f', hacts, hs'⟩ | hstuck
        · simp only [Flow.turn, hacts, Outcome.bind_done]
          exact ih n₂ hs' hp' ht' hf' hstill' hcloop hbloop (by omega)
        · exact .inr hstuck.bind
      | start s₁ =>
        obtain ⟨rfl, ⟨types, rfl⟩, hbyte⟩ := hleads
        obtain ⟨s₂, n', hgo, hf₂, -, hrest⟩ := startNumber_goes (δ := δ) (n := n) hf hbyte
        simp only [Flow.turn, Mode.types, hgo] at hc hb ht
        obtain ⟨fuel', n'', node, x, c', m', hmatch, hnames, hc', hm', hcloop, hbloop⟩ :=
          loop_number (x := ⟨false, 0, D.zero⟩) hp ht hf₂ (matches_new (D := D) .integer) hc hb
        rw [hrest] at hcloop hbloop
        have hcont : Containers types ∧ s.string = false ∧ s.done = false := by
          cases hf with | seek hc hs hd hv => exact ⟨hc, hs, hd⟩
        have htypes : ({ m with stack := .number x :: m.stack } : Built δ).types =
            numberType x.isDouble :: types := congrArg _ ht
        have hpush := hp.push hmatch
        have hpair := hpush.finish (D := D) htypes hcont.1
        rw [hc', hm'] at hpair
        obtain ⟨hp', ht'⟩ := together_done hpair
        have hf' := behind_fits (numberType x.isDouble)
          (s := { s with seekValue := false, rest := s.rest.dropWhile isNumberByte }) hcont.2.1 hcont.2.2 rfl
          hcont.1
        have hfin' := loop_final hp' ht' hf' hcloop
        have hlast := (final_finish hpush htypes hcont.1 hc' hfin').2 c.nodes.length rfl
        rw [Counted.push, List.getElem?_append_right (le_refl _), Nat.sub_self,
          List.getElem?_cons_zero] at hlast
        have hfollows : Follows cEnd.nodes c' m'
            ((fillPass D).acts ([.newValue .integer] ++ closing types) f) :=
          Follows.cons (h.push hlast hnames (ofNode_number hmatch)) fun f₁ h₁ =>
            h₁.finish hpush htypes hcont.1 hc' hm' hfin'
        have hturn : (Flow.start { s with seekValue := false }).turn false types n₂ =
            .go ([.newValue .integer] ++ closing types : List (Act δ))
              (({ s with seekValue := false, rest := s.rest.dropWhile isNumberByte } : Scan).behind types)
              n₂ := by
          rw [Flow.turn, startNumber, if_neg Bool.false_ne_true, next_eq]
        rw [Mode.types, hturn]
        rcases hfollows with ⟨f', hacts, hs'⟩ | hstuck
        · simp only [hacts, Outcome.bind_done]
          refine ih n₂ hs' hp' ht' hf' (still_after _ _) hcloop hbloop ?_
          have hdrop : isNumberByte s.byte = true := by
            rcases hbyte with hnum | hminus
            · simp [isNumberByte, hnum]
            · simp [isNumberByte, hminus]
          have hlt : cost (.after (numberType x.isDouble) types)
              (({ s with seekValue := false, rest := s.rest.dropWhile isNumberByte } : Scan).behind types) <
                cost (.seek types) s := by
            apply cost_lt
            rw [rest_behind]
            exact length_dropWhile hdrop
          omega
        · exact .inr hstuck.bind

end JsonParser

end HttpProxy
