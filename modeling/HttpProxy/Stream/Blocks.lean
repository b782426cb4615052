import HttpProxy.Stream.FastStream

/-!
# The blocks in which bytes arrive

A parser that consumes whatever is buffered and then waits for one more byte sees
its input in blocks: what lies in the buffer at first, then what each read of the
socket brings.  `Source.blocks` lists them, with their places in the memory of the
buffer, from the buffer and the socket alone.

* `Source.filled` — the source when the next block is there.
* `Source.Delivers` — the pieces in which the first bytes arrive.
-/

namespace HttpProxy

/-- A buffer without unread bytes grows by a single read. -/
theorem SrsFastStream.grow_one {b : SrsFastStream} {s : Socket} (h0 : b.size = 0)
    (h : (b.grow s 1).1 = none) :
    ∃ bs, bs.length ≤ (b.makeRoom 1).freeSpace ∧ (b.grow s 1).2.1 = (b.makeRoom 1).fill bs := by
  have hsize : (b.makeRoom 1).size = 0 := by
    rw [← length_unread, makeRoom_unread, length_unread, h0]
  rw [grow, if_neg (by omega)] at h ⊢
  split_ifs at h ⊢
  rw [growLoop, if_neg (by omega)] at h ⊢
  cases hread : s.read (b.makeRoom 1).freeSpace with
  | mk res s' =>
    cases res with
    | error e => simp [hread] at h
    | ok bs => exact ⟨bs, (Socket.read_ok hread).2.1, rfl⟩

namespace Source

/-- The source with everything buffered consumed. -/
def consumed (src : Source) : Source :=
  { src with buffer := src.buffer.advance src.buffer.size (Nat.le_refl _) }

/-- The source when a block is there, `none` if the read for it fails. -/
def filled (src : Source) : Option Source :=
  if src.buffer.size = 0 then
    match src.grow 1 with
    | (none, src') => some src'
    | (some _, _) => none
  else some src

/-- The first `n` blocks, each with its place in the memory of the buffer. -/
def blocks : Nat → Source → List (Nat × Bytes)
  | 0, _ => []
  | n + 1, src =>
      match src.filled with
      | none => []
      | some src' => (src'.buffer.p, src'.buffer.unread) :: blocks n src'.consumed

/-- The pieces in which the source delivers its first bytes. -/
def Delivers (src : Source) (pieces : List Bytes) : Prop :=
  (src.blocks pieces.length).map Prod.snd = pieces

instance (src : Source) (pieces : List Bytes) : Decidable (src.Delivers pieces) :=
  inferInstanceAs (Decidable (_ = _))

/-- A new connection that delivers the pieces. -/
def ofPieces (pieces : List Bytes) : Source := ⟨.mk0, Socket.ofPieces pieces⟩

@[simp] theorem consumed_size (src : Source) : src.consumed.buffer.size = 0 := by
  have := src.buffer.p_le
  simp [consumed, SrsFastStream.advance, SrsFastStream.size]
  omega

theorem filled_size {src src' : Source} (h : src.filled = some src') : src'.buffer.size ≠ 0 := by
  rw [filled] at h
  split_ifs at h with h0
  · split at h
    · rename_i src'' hg
      cases h
      have := grow_size (by rw [hg])
      rw [hg] at this
      simp only at this
      omega
    · cases h
  · cases h
    exact h0

/-- The block that is there. -/
theorem filled_unread {src src' : Source} (h : src.filled = some src') :
    src'.unread = src.unread ∧ src'.buffer.nbBuffer = src.buffer.nbBuffer := by
  rw [filled] at h
  split_ifs at h with h0
  · have hg := grow_grown src 1
    split at h
    · rename_i src'' heq
      cases h
      rw [heq] at hg
      exact ⟨hg.unread, hg.nbBuffer⟩
    · cases h
  · cases h
    exact ⟨rfl, rfl⟩

/-- How a block is read into a buffer of which everything is consumed: behind what
is there, or at the start of the memory when there is no room left. -/
theorem filled_of_empty {src src' : Source} (h : src.filled = some src')
    (h0 : src.buffer.size = 0) :
    (src'.buffer.p = src.buffer.data.length ∧
        src'.buffer.data = src.buffer.data ++ src'.buffer.unread) ∨
      (src.buffer.data.length = src.buffer.nbBuffer ∧ src'.buffer.p = 0 ∧
        src'.buffer.data = src'.buffer.unread) := by
  have hp : src.buffer.p = src.buffer.data.length := by
    have := src.buffer.p_le
    rw [SrsFastStream.size] at h0
    omega
  rw [filled, if_pos h0] at h
  cases hg : src.grow 1 with
  | mk err src'' =>
    rw [hg] at h
    cases err with
    | some e => cases h
    | none =>
      cases h
      simp only [grow, Prod.mk.injEq] at hg
      obtain ⟨hnone, rfl⟩ := hg
      obtain ⟨bs, hlen, hfill⟩ := SrsFastStream.grow_one h0 hnone
      simp only [hfill]
      by_cases hroom : src.buffer.freeSpace = 0
      · right
        have hmk : src.buffer.makeRoom 1 = src.buffer.reset := by
          rw [SrsFastStream.makeRoom, if_pos (by omega), if_pos h0]
        rw [hmk] at hlen ⊢
        rw [SrsFastStream.fill_unread hlen, SrsFastStream.fill_data hlen]
        refine ⟨?_, rfl, rfl⟩
        have := src.buffer.data_le
        rw [SrsFastStream.freeSpace] at hroom
        omega
      · left
        have hmk : src.buffer.makeRoom 1 = src.buffer := by
          rw [SrsFastStream.makeRoom, if_neg (by omega)]
        rw [hmk] at hlen ⊢
        refine ⟨hp, ?_⟩
        rw [SrsFastStream.fill_unread hlen, SrsFastStream.fill_data hlen, SrsFastStream.unread, hp,
          List.drop_length, List.nil_append]

/-- The pieces a source delivers, one after the other. -/
theorem delivers_cons {src : Source} {b : Bytes} {bs : List Bytes} :
    src.Delivers (b :: bs) ↔
      ∃ src', src.filled = some src' ∧ src'.buffer.unread = b ∧ src'.consumed.Delivers bs := by
  rw [Delivers, List.length_cons, blocks]
  cases hf : src.filled with
  | none => simp
  | some src' =>
    simp only [List.map_cons, List.cons.injEq, Option.some.injEq]
    constructor
    · rintro ⟨h1, h2⟩
      exact ⟨src', rfl, h1, h2⟩
    · rintro ⟨_, rfl, h1, h2⟩
      exact ⟨h1, h2⟩

theorem delivers_left {src : Source} {as bs : List Bytes} (h : src.Delivers (as ++ bs)) :
    src.Delivers as := by
  induction as generalizing src with
  | nil => rfl
  | cons a as ih =>
    obtain ⟨src', hf, hu, hd⟩ := delivers_cons.1 h
    exact delivers_cons.2 ⟨src', hf, hu, ih hd⟩

theorem consumed_unread (src : Source) : src.unread = src.buffer.unread ++ src.consumed.unread := by
  have hnil : src.consumed.buffer.unread = [] := by
    rw [← List.length_eq_zero_iff, SrsFastStream.length_unread, consumed_size]
  rw [unread, unread, hnil, List.nil_append]
  rfl

/-- The pieces are the first bytes of the source, and none is empty. -/
theorem delivers_prefix {src : Source} {ps : List Bytes} (h : src.Delivers ps) :
    ps.flatten <+: src.unread ∧ ∀ b ∈ ps, b ≠ [] := by
  induction ps generalizing src with
  | nil => exact ⟨List.nil_prefix, by simp⟩
  | cons b ps ih =>
    obtain ⟨src', hf, rfl, hd⟩ := delivers_cons.1 h
    obtain ⟨hpre, hne⟩ := ih hd
    refine ⟨?_, ?_⟩
    · rw [← (filled_unread hf).1, consumed_unread, List.flatten_cons]
      exact (List.prefix_append_right_inj _).2 hpre
    · intro c hc
      rcases List.mem_cons.1 hc with rfl | hc
      · intro hnil
        have := filled_size hf
        rw [← SrsFastStream.length_unread, hnil] at this
        exact this rfl
      · exact hne c hc

/-- There are at most as many pieces as bytes. -/
theorem delivers_length {src : Source} {ps : List Bytes} (h : src.Delivers ps) :
    ps.length ≤ src.unread.length := by
  obtain ⟨hpre, hne⟩ := delivers_prefix h
  refine Nat.le_trans ?_ hpre.length_le
  clear hpre h
  induction ps with
  | nil => exact Nat.zero_le _
  | cons b ps ih =>
    have hb := List.length_pos_of_ne_nil (hne b List.mem_cons_self)
    have := ih fun c hc => hne c (List.mem_cons_of_mem _ hc)
    rw [List.flatten_cons, List.length_append, List.length_cons]
    omega

end Source

end HttpProxy
