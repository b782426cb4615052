import HttpProxy.Stream.Socket

/-!
# `SrsFastStream`: the read buffer in front of a socket

`src/protocol/srs_protocol_stream.cpp`.  The buffer is a block of `nbBuffer`
bytes with two pointers, the read position `p` and the end of the content; the
model keeps the content from the start of the block to the end pointer as
`data`, so a pointer into the block is an offset into `data`, and the invariant
`buffer <= p <= end <= buffer + nb_buffer` of the header file is a pair of
fields.

* `grow` — read from the socket until `required` bytes are unread, first
  resetting or moving the content when there is no space for them.
* `grow_conserves` — whatever happens, the unread bytes followed by what the
  socket still holds is the same byte string before and after.
* `grow_success` / `grow_overflow` / `grow_drained` — when it succeeds, and how
  it fails on a healthy socket.
* `Source` — a buffer together with its socket, the thing a parser or a body
  reader reads from.
-/

namespace HttpProxy

/-- The default size of the buffer, 128KB. -/
def SRS_DEFAULT_RECV_BUFFER_SIZE : Nat := 131072

/-- The buffer.  `data` is the memory from `buffer` to `end`; `p` is the offset of
the read position. -/
structure SrsFastStream where
  data : Bytes
  p : Nat
  nbBuffer : Nat
  p_le : p ≤ data.length
  data_le : data.length ≤ nbBuffer
  nbBuffer_pos : 0 < nbBuffer
  nbBuffer_lt : nbBuffer < 2 ^ 31

namespace SrsFastStream

/-- `SrsFastStream(0)`, as `SrsHttpParser` creates it. -/
def mk0 : SrsFastStream :=
  ⟨[], 0, SRS_DEFAULT_RECV_BUFFER_SIZE, Nat.le_refl _, by decide, by decide, by decide⟩

/-- The bytes between `p` and `end`. -/
def unread (b : SrsFastStream) : Bytes := b.data.drop b.p

/-- `size()`. -/
def size (b : SrsFastStream) : Nat := b.data.length - b.p

/-- The space behind `end`. -/
def freeSpace (b : SrsFastStream) : Nat := b.nbBuffer - b.data.length

@[simp] theorem length_unread (b : SrsFastStream) : b.unread.length = b.size := by
  simp [unread, size]

/-- Move the read position forward over unread bytes. -/
def advance (b : SrsFastStream) (n : Nat) (h : n ≤ b.size) : SrsFastStream :=
  { b with p := b.p + n, p_le := by have := b.p_le; rw [size] at h; omega }

@[simp] theorem advance_nbBuffer (b : SrsFastStream) {n : Nat} (h : n ≤ b.size) :
    (b.advance n h).nbBuffer = b.nbBuffer := rfl

@[simp] theorem advance_unread (b : SrsFastStream) {n : Nat} (h : n ≤ b.size) :
    (b.advance n h).unread = b.unread.drop n := by
  simp [unread, advance]

/-- `read_slice(size)`: the bytes consumed; the assertion is that there are as
many unread. -/
def readSlice (b : SrsFastStream) (n : Nat) : Except SrsError (Bytes × SrsFastStream) :=
  if h : n ≤ b.size then .ok (b.unread.take n, b.advance n h) else .error .assertFailed

theorem readSlice_of_le {b : SrsFastStream} {n : Nat} (h : n ≤ b.size) :
    b.readSlice n = .ok (b.unread.take n, b.advance n h) := dif_pos h

/-- A store through a pointer into the block. -/
def poke (b : SrsFastStream) (i : Nat) (v : Byte) : SrsFastStream :=
  { b with
    data := b.data.set i v
    p_le := by simpa using b.p_le
    data_le := by simpa using b.data_le }

@[simp] theorem poke_nbBuffer (b : SrsFastStream) (i : Nat) (v : Byte) :
    (b.poke i v).nbBuffer = b.nbBuffer := rfl

@[simp] theorem poke_p (b : SrsFastStream) (i : Nat) (v : Byte) : (b.poke i v).p = b.p := rfl

/-- A store in front of the read position does not touch the unread bytes. -/
theorem poke_unread {b : SrsFastStream} {i : Nat} (h : i < b.p) (v : Byte) :
    (b.poke i v).unread = b.unread := by
  simp [unread, poke, List.drop_set, h]

/-! ## Making room -/

/-- `p = end = buffer`. -/
def reset (b : SrsFastStream) : SrsFastStream :=
  { b with data := [], p := 0, p_le := Nat.le_refl _, data_le := Nat.zero_le _ }

/-- Move the unread bytes to the start of the block. -/
def move (b : SrsFastStream) : SrsFastStream :=
  { b with
    data := b.unread
    p := 0
    p_le := Nat.zero_le _
    data_le := by have := b.data_le; rw [length_unread, size]; omega }

/-- The space made by `grow` when the block has no room for `required` bytes
behind the read position. -/
def makeRoom (b : SrsFastStream) (required : Nat) : SrsFastStream :=
  if b.size + b.freeSpace < required then
    if b.size = 0 then b.reset
    else if b.size < b.nbBuffer ∧ 0 < b.p then b.move
    else b
  else b

@[simp] theorem makeRoom_nbBuffer (b : SrsFastStream) (r : Nat) :
    (b.makeRoom r).nbBuffer = b.nbBuffer := by
  rw [makeRoom]
  split_ifs <;> rfl

@[simp] theorem makeRoom_unread (b : SrsFastStream) (r : Nat) :
    (b.makeRoom r).unread = b.unread := by
  rw [makeRoom]
  split_ifs with h1 h2 h3
  · have hlen : b.unread.length = 0 := by rw [length_unread, h2]
    rw [List.eq_nil_of_length_eq_zero hlen]
    rfl
  · simp [unread, move]
  · rfl
  · rfl

/-- Once room has been made, the block has space for `required` bytes exactly
when it is large enough at all. -/
theorem makeRoom_space (b : SrsFastStream) (r : Nat) :
    (b.makeRoom r).size + (b.makeRoom r).freeSpace < r ↔
      b.nbBuffer < r := by
  have h1 := b.p_le
  have h2 := b.data_le
  have h3 := b.length_unread
  rw [makeRoom]
  split_ifs with hroom hempty hmove
  · simp only [reset, size, freeSpace, List.length_nil]
    omega
  · simp only [move, size, freeSpace, h3]
    rw [size] at hroom hmove
    omega
  · rw [freeSpace, size] at hroom ⊢
    rw [size] at hempty hmove
    omega
  · constructor
    · exact fun h => absurd h hroom
    · intro h
      rw [freeSpace, size] at hroom
      omega

/-! ## Filling -/

/-- Bytes delivered by the reader behind `end`. -/
def fill (b : SrsFastStream) (bs : Bytes) : SrsFastStream :=
  { b with
    data := b.data ++ bs.take b.freeSpace
    p_le := by have := b.p_le; simp; omega
    data_le := by have := b.data_le; simp [freeSpace]; omega }

@[simp] theorem fill_nbBuffer (b : SrsFastStream) (bs : Bytes) :
    (b.fill bs).nbBuffer = b.nbBuffer := rfl

@[simp] theorem fill_p (b : SrsFastStream) (bs : Bytes) : (b.fill bs).p = b.p := rfl

theorem fill_data {b : SrsFastStream} {bs : Bytes} (h : bs.length ≤ b.freeSpace) :
    (b.fill bs).data = b.data ++ bs := by
  rw [fill]
  simp only
  rw [List.take_of_length_le h]

theorem fill_unread {b : SrsFastStream} {bs : Bytes} (h : bs.length ≤ b.freeSpace) :
    (b.fill bs).unread = b.unread ++ bs := by
  rw [unread, fill_data h, fill_p, List.drop_append_of_le_length b.p_le, unread]

/-- The loop of `grow`: read until `required` bytes are unread.  Every read
delivers a byte, so `required` turns are enough (the first argument). -/
def growLoop (required : Nat) :
    Nat → SrsFastStream → Socket → Option SrsError × SrsFastStream × Socket
  | 0, b, s => (none, b, s)
  | n + 1, b, s =>
      if required ≤ b.size then (none, b, s)
      else
        match s.read b.freeSpace with
        | (.error e, s') => (some e, b, s')
        | (.ok bs, s') => growLoop required n (b.fill bs) s'

/-- `grow(reader, required_size)`: the error if any, the buffer and the socket. -/
def grow (b : SrsFastStream) (s : Socket) (required : Nat) :
    Option SrsError × SrsFastStream × Socket :=
  if required ≤ b.size then (none, b, s)
  else if (b.makeRoom required).size + (b.makeRoom required).freeSpace < required then
    (some .readerBufferOverflow, b.makeRoom required, s)
  else growLoop required required (b.makeRoom required) s

/-! ## What `grow` does -/

/-- What every call of `grow` guarantees, successful or not: no byte is lost,
duplicated or reordered between the buffer and the socket, and the bytes that
were unread stay in front. -/
structure Grown (b : SrsFastStream) (s : Socket) (b' : SrsFastStream) (s' : Socket) : Prop where
  nbBuffer : b'.nbBuffer = b.nbBuffer
  conserves : b'.unread ++ s'.pending = b.unread ++ s.pending
  keeps : b.unread <+: b'.unread
  healthy : s.Healthy → s'.Healthy

theorem Grown.refl (b : SrsFastStream) (s : Socket) : Grown b s b s :=
  ⟨rfl, rfl, List.prefix_refl _, id⟩

theorem Grown.trans {b₁ b₂ b₃ : SrsFastStream} {s₁ s₂ s₃ : Socket}
    (h₁ : Grown b₁ s₁ b₂ s₂) (h₂ : Grown b₂ s₂ b₃ s₃) : Grown b₁ s₁ b₃ s₃ :=
  ⟨h₂.nbBuffer.trans h₁.nbBuffer, h₂.conserves.trans h₁.conserves, h₁.keeps.trans h₂.keeps,
    fun h => h₂.healthy (h₁.healthy h)⟩

theorem Grown.makeRoom (b : SrsFastStream) (s : Socket) (r : Nat) : Grown b s (b.makeRoom r) s :=
  ⟨b.makeRoom_nbBuffer r, by rw [makeRoom_unread], by rw [makeRoom_unread], id⟩

theorem Grown.read_ok {b : SrsFastStream} {s s' : Socket} {bs : Bytes}
    (h : s.read b.freeSpace = (.ok bs, s')) : Grown b s (b.fill bs) s' := by
  obtain ⟨-, hlen, hpend⟩ := Socket.read_ok h
  refine ⟨rfl, ?_, ?_, ?_⟩
  · rw [fill_unread hlen, hpend, List.append_assoc]
  · rw [fill_unread hlen]
    exact List.prefix_append _ _
  · intro hs
    have := Socket.healthy_read hs b.freeSpace
    rwa [h] at this

theorem Grown.read_error {b : SrsFastStream} {s s' : Socket} {size : Nat} {e : SrsError}
    (h : s.read size = (.error e, s')) : Grown b s b s' := by
  refine ⟨rfl, by rw [Socket.read_error h], List.prefix_refl _, ?_⟩
  intro hs
  have := Socket.healthy_read hs size
  rwa [h] at this

theorem growLoop_grown (required n : Nat) (b : SrsFastStream) (s : Socket) :
    Grown b s (growLoop required n b s).2.1 (growLoop required n b s).2.2 := by
  induction n generalizing b s with
  | zero => exact Grown.refl b s
  | succ n ih =>
    rw [growLoop]
    split_ifs with hdone
    · exact Grown.refl b s
    · split
      · rename_i e s' hread
        exact Grown.read_error hread
      · rename_i bs s' hread
        exact (Grown.read_ok hread).trans (ih _ _)

/-- **No byte is lost.**  Whatever `grow` returns, buffer and socket together
hold the same bytes as before. -/
theorem grow_grown (b : SrsFastStream) (s : Socket) (required : Nat) :
    Grown b s (b.grow s required).2.1 (b.grow s required).2.2 := by
  rw [grow]
  split_ifs
  · exact Grown.refl b s
  · exact Grown.makeRoom b s required
  · exact (Grown.makeRoom b s required).trans (growLoop_grown _ _ _ _)

theorem growLoop_success {required n : Nat} {b : SrsFastStream} {s : Socket}
    (hn : required ≤ b.size + n) (h : (growLoop required n b s).1 = none) :
    required ≤ (growLoop required n b s).2.1.size := by
  induction n generalizing b s with
  | zero => simpa [growLoop] using hn
  | succ n ih =>
    rw [growLoop] at h ⊢
    split_ifs at h ⊢ with hdone
    · exact hdone
    · split at h
      · exact absurd h (by simp)
      · rename_i bs s' hread
        obtain ⟨hne, hlen, -⟩ := Socket.read_ok hread
        refine ih ?_ h
        have h1 : (b.fill bs).size = b.size + bs.length := by
          rw [← length_unread, fill_unread hlen, List.length_append, length_unread]
        have h2 : 0 < bs.length := List.length_pos_of_ne_nil hne
        omega

/-- A successful `grow` leaves at least `required` bytes unread. -/
theorem grow_size {b : SrsFastStream} {s : Socket} {required : Nat}
    (h : (b.grow s required).1 = none) : required ≤ (b.grow s required).2.1.size := by
  rw [grow] at h ⊢
  split_ifs at h ⊢ with h1 h2
  · exact h1
  · exact growLoop_success (by omega) h

theorem growLoop_healthy {required n : Nat} {b : SrsFastStream} {s : Socket} (hs : s.Healthy)
    (hroom : required ≤ b.size + b.freeSpace)
    (henough : required ≤ (b.unread ++ s.pending).length) :
    (growLoop required n b s).1 = none := by
  induction n generalizing b s with
  | zero => rfl
  | succ n ih =>
    rw [growLoop]
    split_ifs with hdone
    · rfl
    · have hp : s.pending ≠ [] := by
        intro hc
        rw [hc, List.append_nil, length_unread] at henough
        exact hdone henough
      obtain ⟨bs, s', hread⟩ := Socket.read_of_healthy hs hp (show 0 < b.freeSpace by omega)
      simp only [hread]
      obtain ⟨-, hlen, hpend⟩ := Socket.read_ok hread
      have hs' : s'.Healthy := by have := Socket.healthy_read hs b.freeSpace; rwa [hread] at this
      refine ih hs' ?_ ?_
      · have h1 : (b.fill bs).size + (b.fill bs).freeSpace = b.size + b.freeSpace := by
          have := b.p_le
          have := b.data_le
          simp only [size, freeSpace, fill_data hlen, fill_p, fill_nbBuffer, List.length_append]
          rw [freeSpace] at hlen
          omega
        omega
      · rw [fill_unread hlen, List.append_assoc, ← hpend]
        exact henough

theorem growLoop_error_of_healthy {required n : Nat} {b : SrsFastStream} {s : Socket}
    {e : SrsError} (hs : s.Healthy) (h : (growLoop required n b s).1 = some e) :
    e = .socketRead := by
  induction n generalizing b s with
  | zero => simp [growLoop] at h
  | succ n ih =>
    rw [growLoop] at h
    split_ifs at h
    split at h
    · rename_i e' s' hread
      cases h
      exact Socket.read_error_of_healthy hs hread
    · rename_i bs s' hread
      exact ih ((Grown.read_ok hread).healthy hs) h

/-- On a healthy socket `grow` fails because the block is too small or because
the peer has closed. -/
theorem grow_error_of_healthy {b : SrsFastStream} {s : Socket} {required : Nat} {e : SrsError}
    (hs : s.Healthy) (h : (b.grow s required).1 = some e) :
    e = .socketRead ∨ e = .readerBufferOverflow := by
  rw [grow] at h
  split_ifs at h
  · exact Or.inr (Option.some.inj h).symm
  · exact Or.inl (growLoop_error_of_healthy hs h)

/-- On a healthy socket `grow` succeeds when the block is large enough and
enough bytes are on their way. -/
theorem grow_success {b : SrsFastStream} {s : Socket} {required : Nat} (hs : s.Healthy)
    (hcap : required ≤ b.nbBuffer) (henough : required ≤ (b.unread ++ s.pending).length) :
    (b.grow s required).1 = none := by
  rw [grow]
  split_ifs with h1 h2
  · rfl
  · exact absurd ((makeRoom_space b required).1 h2) (by omega)
  · exact growLoop_healthy hs (by omega) (by rw [makeRoom_unread]; exact henough)

/-- More bytes than the block can hold are refused, without touching the socket. -/
theorem grow_overflow {b : SrsFastStream} {s : Socket} {required : Nat}
    (hsize : b.size < required) (hcap : b.nbBuffer < required) :
    b.grow s required = (some .readerBufferOverflow, b.makeRoom required, s) := by
  rw [grow, if_neg (by omega), if_pos ((makeRoom_space b required).2 hcap)]

/-- On a healthy socket that holds too few bytes, a `grow` that is not refused
ends with the peer's close. -/
theorem growLoop_drained {required n : Nat} {b : SrsFastStream} {s : Socket} (hs : s.Healthy)
    (hn : required ≤ b.size + n) (hfew : (b.unread ++ s.pending).length < required) :
    (growLoop required n b s).1 = some .socketRead := by
  induction n generalizing b s with
  | zero =>
    rw [List.length_append, length_unread] at hfew
    omega
  | succ n ih =>
    rw [growLoop]
    have hsize : ¬ required ≤ b.size := by
      rw [List.length_append, length_unread] at hfew
      omega
    rw [if_neg hsize]
    cases hread : s.read b.freeSpace with
    | mk res s' =>
      cases res with
      | error e =>
        simp only
        by_cases hp : s.pending = []
        · have := Socket.read_of_drained hs hp b.freeSpace
          rw [hread] at this
          cases this
          rfl
        · rcases Nat.eq_zero_or_pos b.freeSpace with h0 | h0
          · cases hs' : s with
            | nil => rw [hs'] at hp; exact absurd rfl hp
            | cons ev t =>
              subst hs'
              cases ev with
              | error e' => exact absurd hs Socket.not_healthy_error
              | data ds => simp [Socket.read, h0] at hread; rw [hread.1]
          · obtain ⟨bs, s'', h⟩ := Socket.read_of_healthy hs hp h0
            rw [hread] at h
            simp at h
      | ok bs =>
        simp only
        have hg := Grown.read_ok hread
        obtain ⟨hne, hlen, -⟩ := Socket.read_ok hread
        refine ih (hg.healthy hs) ?_ (by rw [hg.conserves]; exact hfew)
        have h1 : (b.fill bs).size = b.size + bs.length := by
          rw [← length_unread, fill_unread hlen, List.length_append, length_unread]
        have h2 : 0 < bs.length := List.length_pos_of_ne_nil hne
        omega

theorem grow_drained {b : SrsFastStream} {s : Socket} {required : Nat} (hs : s.Healthy)
    (hcap : required ≤ b.nbBuffer) (hfew : (b.unread ++ s.pending).length < required) :
    (b.grow s required).1 = some .socketRead := by
  have h1 : ¬ required ≤ b.size := by
    rw [List.length_append, length_unread] at hfew
    omega
  have h2 : ¬ (b.makeRoom required).size + (b.makeRoom required).freeSpace < required := by
    rw [makeRoom_space]
    omega
  rw [grow, if_neg h1, if_neg h2]
  exact growLoop_drained hs (by omega) (by rw [makeRoom_unread]; exact hfew)

end SrsFastStream

/-! ## A buffer with its socket -/

/-- Where a parser or a body reader takes its bytes from: the shared buffer, and
the socket behind it. -/
structure Source where
  buffer : SrsFastStream
  skt : Socket

namespace Source

/-- Everything that has not been consumed yet, in the order in which it will be. -/
def unread (src : Source) : Bytes := src.buffer.unread ++ src.skt.pending

/-- `buffer->grow(skt, required)`. -/
def grow (src : Source) (required : Nat) : Option SrsError × Source :=
  ((src.buffer.grow src.skt required).1,
    ⟨(src.buffer.grow src.skt required).2.1, (src.buffer.grow src.skt required).2.2⟩)

/-- What `grow` guarantees, read off the pair. -/
structure Grown (src src' : Source) : Prop where
  nbBuffer : src'.buffer.nbBuffer = src.buffer.nbBuffer
  unread : src'.unread = src.unread
  keeps : src.buffer.unread <+: src'.buffer.unread
  healthy : src.skt.Healthy → src'.skt.Healthy

theorem grow_grown (src : Source) (required : Nat) : src.Grown (src.grow required).2 :=
  have h := SrsFastStream.grow_grown src.buffer src.skt required
  ⟨h.nbBuffer, h.conserves, h.keeps, h.healthy⟩

theorem Grown.refl (src : Source) : src.Grown src := ⟨rfl, rfl, List.prefix_refl _, id⟩

theorem Grown.trans {s₁ s₂ s₃ : Source} (h₁ : s₁.Grown s₂) (h₂ : s₂.Grown s₃) : s₁.Grown s₃ :=
  ⟨h₂.nbBuffer.trans h₁.nbBuffer, h₂.unread.trans h₁.unread, h₁.keeps.trans h₂.keeps,
    fun h => h₂.healthy (h₁.healthy h)⟩

theorem grow_size {src : Source} {required : Nat} (h : (src.grow required).1 = none) :
    required ≤ (src.grow required).2.buffer.size := SrsFastStream.grow_size h

theorem grow_error_of_healthy {src : Source} {required : Nat} {e : SrsError}
    (hs : src.skt.Healthy) (h : (src.grow required).1 = some e) :
    e = .socketRead ∨ e = .readerBufferOverflow := SrsFastStream.grow_error_of_healthy hs h

theorem grow_success {src : Source} {required : Nat} (hs : src.skt.Healthy)
    (hcap : required ≤ src.buffer.nbBuffer) (henough : required ≤ src.unread.length) :
    (src.grow required).1 = none := SrsFastStream.grow_success hs hcap henough

end Source

end HttpProxy
