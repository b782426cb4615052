import HttpProxy.Data.Fifo
import HttpProxy.Stream.FastStream

/-!
# `SrsFastStream` over any reader

All the calls of `src/protocol/srs_protocol_stream.cpp`, with a reader that is only known to
return at least one byte and at most as many as it is asked for, or an error.  `Socket` is one
such reader.

* `growFrom`, `growFrom_spec` — `grow`, with the calls of the reader that it makes.
* `grow_outcome` — when it succeeds, overflows or fails, and what it leaves.
* `step`, `run` — sequences of calls.
* `run_refines` — the buffer is a queue of the bytes that the reader has delivered.
-/

namespace HttpProxy

/-- `ISrsReader`: a read for some bytes returns one at least and all of them at most, or an
error. -/
structure ISrsReader (ρ : Type) where
  read : ρ → Nat → Except SrsError Bytes × ρ
  read_ok : ∀ r n bs r', 0 < n → read r n = (.ok bs, r') → bs ≠ [] ∧ bs.length ≤ n

/-- The reader of a socket. -/
def Socket.reader : ISrsReader Socket :=
  ⟨Socket.read, fun _ _ _ _ _ h => ⟨(Socket.read_ok h).1, (Socket.read_ok h).2.1⟩⟩

/-- A call of the reader: what it was asked for, the space there was behind `end`, and what it
returned. -/
structure ReadCall where
  asked : Nat
  space : Nat
  result : Except SrsError Bytes

/-- What a call delivers. -/
def ReadCall.bytes (c : ReadCall) : Bytes :=
  match c.result with
  | .ok bs => bs
  | .error _ => []

/-- What the calls deliver, in order. -/
def delivered (calls : List ReadCall) : Bytes := calls.flatMap ReadCall.bytes

@[simp] theorem delivered_append (cs cs' : List ReadCall) :
    delivered (cs ++ cs') = delivered cs ++ delivered cs' := by simp [delivered]

/-- The bytes asked for are at least one, and there is space for all of them. -/
def ReadCall.Fits (c : ReadCall) : Prop := 0 < c.asked ∧ c.asked ≤ c.space

namespace SrsFastStream

variable {ρ : Type} {R : ISrsReader ρ} {b : SrsFastStream} {r : ρ} {required : Nat}

/-! ## `grow` -/

/-- What `grow` returns, and the calls of the reader that it has made. -/
structure GrowResult (ρ : Type) where
  err : Option SrsError
  buffer : SrsFastStream
  reader : ρ
  calls : List ReadCall

/-- The loop of `grow`; `free` is `nb_free_space`. -/
def growFromLoop (R : ISrsReader ρ) (required : Nat) : Nat → Nat → SrsFastStream → ρ → GrowResult ρ
  | 0, _, b, r => ⟨none, b, r, []⟩
  | n + 1, free, b, r =>
      if required ≤ b.size then ⟨none, b, r, []⟩
      else
        match R.read r free with
        | (.error e, r') => ⟨some e, b, r', [⟨free, b.freeSpace, .error e⟩]⟩
        | (.ok bs, r') =>
            let rest := growFromLoop R required n (free - bs.length) (b.fill bs) r'
            { rest with calls := ⟨free, b.freeSpace, .ok bs⟩ :: rest.calls }

/-- `grow(reader, required_size)`. -/
def growFrom (R : ISrsReader ρ) (b : SrsFastStream) (r : ρ) (required : Nat) : GrowResult ρ :=
  if required ≤ b.size then ⟨none, b, r, []⟩
  else if (b.makeRoom required).size + (b.makeRoom required).freeSpace < required then
    ⟨some .readerBufferOverflow, b.makeRoom required, r, []⟩
  else growFromLoop R required required (b.makeRoom required).freeSpace (b.makeRoom required) r

/-- On a socket this is `grow`. -/
theorem growFromLoop_socket (required n : Nat) (b : SrsFastStream) (s : Socket) :
    growLoop required n b s =
      ((growFromLoop Socket.reader required n b.freeSpace b s).err,
        (growFromLoop Socket.reader required n b.freeSpace b s).buffer,
        (growFromLoop Socket.reader required n b.freeSpace b s).reader) := by
  induction n generalizing b s with
  | zero => rfl
  | succ n ih =>
    unfold growLoop growFromLoop
    split_ifs
    · rfl
    · cases hread : s.read b.freeSpace with
      | mk res s' =>
        have hread' : Socket.reader.read s b.freeSpace = (res, s') := hread
        cases res with
        | error e => simp only [hread']
        | ok bs =>
          have hfree : b.freeSpace - bs.length = (b.fill bs).freeSpace := by
            have hle := (Socket.read_ok hread).2.1
            simp only [freeSpace, fill_data hle, fill_nbBuffer, List.length_append]
            omega
          simp only [hread', hfree]
          exact ih (b.fill bs) s'

theorem growFrom_socket (b : SrsFastStream) (s : Socket) (required : Nat) :
    b.grow s required = ((growFrom Socket.reader b s required).err,
      (growFrom Socket.reader b s required).buffer, (growFrom Socket.reader b s required).reader) := by
  unfold grow growFrom
  split_ifs
  · rfl
  · rfl
  · exact growFromLoop_socket _ _ _ _

/-- What `grow` does to a buffer: the content is what it was, or its end, with everything behind
it that has been delivered. -/
structure GrownBy (b : SrsFastStream) (g : GrowResult ρ) : Prop where
  nbBuffer : g.buffer.nbBuffer = b.nbBuffer
  unread : g.buffer.unread = b.unread ++ delivered g.calls
  data : g.buffer.data <:+ b.data ++ delivered g.calls
  fits : ∀ c ∈ g.calls, c.Fits
  /-- The errors that the reader returned are returned, and they come last. -/
  fails : ∀ c ∈ g.calls, ∀ e, c.result = .error e → g.err = some e

/-- Delivered bytes are put behind the content, if there is space. -/
theorem GrownBy.fill {g : GrowResult ρ} {bs : Bytes} (hle : bs.length ≤ b.freeSpace) {c : ReadCall}
    (hc : c.Fits) (hok : c.result = .ok bs) (h : GrownBy (b.fill bs) g) :
    GrownBy b { g with calls := c :: g.calls } := by
  have hbytes : delivered (c :: g.calls) = bs ++ delivered g.calls := by
    simp [delivered, ReadCall.bytes, hok]
  refine ⟨h.nbBuffer, ?_, ?_, ?_, ?_⟩
  · rw [h.unread, fill_unread hle, hbytes, List.append_assoc]
  · have hd := h.data
    rw [fill_data hle, List.append_assoc] at hd
    rwa [hbytes]
  · intro c' hc'
    rcases List.mem_cons.1 hc' with rfl | hc'
    · exact hc
    · exact h.fits c' hc'
  · intro c' hc' e he
    rcases List.mem_cons.1 hc' with rfl | hc'
    · rw [hok] at he
      cases he
    · exact h.fails c' hc' e he

/-- The loop, as long as there is space for what is required. -/
theorem growFromLoop_spec {n free : Nat} (hfree : free = b.freeSpace)
    (hroom : required ≤ b.size + b.freeSpace) (hn : required ≤ b.size + n) :
    GrownBy b (growFromLoop R required n free b r) ∧
      ((growFromLoop R required n free b r).err = none →
        required ≤ (growFromLoop R required n free b r).buffer.size) ∧
      ∀ e, (growFromLoop R required n free b r).err = some e →
        ∃ c ∈ (growFromLoop R required n free b r).calls, c.result = .error e := by
  induction n generalizing free b r with
  | zero =>
    exact ⟨⟨rfl, by simp [growFromLoop, delivered], by simp [growFromLoop, delivered],
      by simp [growFromLoop], by simp [growFromLoop]⟩, fun _ => by simpa [growFromLoop] using hn,
      by simp [growFromLoop]⟩
  | succ n ih =>
    unfold growFromLoop
    split_ifs with hdone
    · exact ⟨⟨rfl, by simp [delivered], by simp [delivered], by simp, by simp⟩, fun _ => hdone, by simp⟩
    · have hpos : 0 < free := by omega
      cases hread : R.read r free with
      | mk res r' =>
        cases res with
        | error e =>
          refine ⟨⟨rfl, ?_, ?_, ?_, ?_⟩, by simp, ?_⟩
          · simp [delivered, ReadCall.bytes]
          · simp [delivered, ReadCall.bytes]
          · simpa [ReadCall.Fits] using ⟨hpos, hfree.le⟩
          · simp
          · simp
        | ok bs =>
          obtain ⟨hne, hle⟩ := R.read_ok r free bs r' hpos hread
          have hspace : bs.length ≤ b.freeSpace := hfree ▸ hle
          have hsize : (b.fill bs).size = b.size + bs.length := by
            rw [← length_unread, fill_unread hspace, List.length_append, length_unread]
          have hleft : (b.fill bs).freeSpace = b.freeSpace - bs.length := by
            simp only [freeSpace, fill_data hspace, fill_nbBuffer, List.length_append]
            omega
          have hlen := List.length_pos_of_ne_nil hne
          have hfree' : free - bs.length = (b.fill bs).freeSpace := by omega
          obtain ⟨h1, h2, h3⟩ := ih (r := r') hfree' (by omega) (by omega)
          refine ⟨h1.fill hspace ⟨hpos, hfree.le⟩ rfl, h2, fun e he => ?_⟩
          obtain ⟨c, hc, hce⟩ := h3 e he
          exact ⟨c, List.mem_cons_of_mem _ hc, hce⟩

/-- The content after room has been made is the end of what it was. -/
theorem makeRoom_data (b : SrsFastStream) (required : Nat) : (b.makeRoom required).data <:+ b.data := by
  rw [makeRoom]
  split_ifs
  · exact List.nil_suffix
  · exact List.drop_suffix _ _
  · exact List.suffix_refl _
  · exact List.suffix_refl _

/-- The buffer has to be grown, and it is too small. -/
def Overflows (b : SrsFastStream) (required : Nat) : Prop :=
  b.unread.length < required ∧ b.nbBuffer < required

/-- Room has been made for what the loop fills in. -/
theorem GrownBy.makeRoom {g : GrowResult ρ} (h : GrownBy (b.makeRoom required) g) : GrownBy b g := by
  refine ⟨h.nbBuffer.trans (b.makeRoom_nbBuffer required), by rw [h.unread, makeRoom_unread], ?_,
    h.fits, h.fails⟩
  obtain ⟨front, hfront⟩ := b.makeRoom_data required
  refine h.data.trans ⟨front, ?_⟩
  rw [← hfront, List.append_assoc]

theorem growFrom_of_enough (h : required ≤ b.size) : growFrom R b r required = ⟨none, b, r, []⟩ := by
  rw [growFrom, if_pos h]

theorem growFrom_of_overflows (h : Overflows b required) :
    growFrom R b r required = ⟨some .readerBufferOverflow, b.makeRoom required, r, []⟩ := by
  obtain ⟨hsize, hcap⟩ := h
  rw [length_unread] at hsize
  rw [growFrom, if_neg (by omega), if_pos ((makeRoom_space b required).2 hcap)]

/-- Everything `grow` does. -/
theorem growFrom_spec (R : ISrsReader ρ) (b : SrsFastStream) (r : ρ) (required : Nat) :
    GrownBy b (growFrom R b r required) ∧
      ((growFrom R b r required).err = none → required ≤ (growFrom R b r required).buffer.size) ∧
      ∀ e, (growFrom R b r required).err = some e →
        (e = .readerBufferOverflow ∧ Overflows b required) ∨
          ∃ c ∈ (growFrom R b r required).calls, c.result = .error e := by
  by_cases henough : required ≤ b.size
  · rw [growFrom_of_enough henough]
    exact ⟨⟨rfl, by simp [delivered], by simp [delivered], by simp, by simp⟩, fun _ => henough, by simp⟩
  by_cases hover : Overflows b required
  · rw [growFrom_of_overflows hover]
    refine ⟨⟨b.makeRoom_nbBuffer _, ?_, ?_, by simp, by simp⟩, by simp, ?_⟩
    · simp [delivered]
    · simpa [delivered] using b.makeRoom_data required
    · rintro e he
      exact Or.inl ⟨(Option.some.inj he).symm, hover⟩
  · have hroom : ¬ (b.makeRoom required).size + (b.makeRoom required).freeSpace < required := by
      rw [makeRoom_space]
      intro hcap
      exact hover ⟨by rw [length_unread]; omega, hcap⟩
    rw [growFrom, if_neg henough, if_neg hroom]
    obtain ⟨h1, h2, h3⟩ := growFromLoop_spec (R := R) (b := b.makeRoom required) (r := r) (n := required)
      rfl (by omega) (Nat.le_add_left required _)
    exact ⟨h1.makeRoom, h2, fun e he => Or.inr (h3 e he)⟩

/-- The limit of `set_buffer`. -/
def SRS_MAX_SOCKET_BUFFER : Nat := 262144

/-- `SrsFastStream(size)`, for a size that `malloc` can take. -/
def new (size : Nat) (h : size < 2 ^ 31) : SrsFastStream :=
  if h0 : size = 0 then mk0 else ⟨[], 0, size, Nat.zero_le _, Nat.zero_le _, by omega, h⟩

/-- `set_buffer`: the block grows, its content stays. -/
def setBuffer (b : SrsFastStream) (size : Int) : SrsFastStream :=
  if h : min size SRS_MAX_SOCKET_BUFFER ≤ b.nbBuffer then b
  else
    { b with
      nbBuffer := (min size SRS_MAX_SOCKET_BUFFER).toNat
      data_le := by have := b.data_le; omega
      nbBuffer_pos := by have := b.nbBuffer_pos; omega
      nbBuffer_lt := by simp only [SRS_MAX_SOCKET_BUFFER]; omega }

/-- `skip`, forward or back, within what the block holds. -/
def skip (b : SrsFastStream) (size : Int) : Except SrsError SrsFastStream :=
  if h : size ≤ b.size ∧ 0 ≤ b.p + size then
    .ok { b with
      p := (b.p + size).toNat
      p_le := by have := b.p_le; rw [SrsFastStream.size] at h; omega }
  else .error .assertFailed

/-- `read_1byte`. -/
def read1byte (b : SrsFastStream) : Except SrsError (Bytes × SrsFastStream) := b.readSlice 1

/-- A call of a buffer. -/
inductive Call
  | grow (requiredSize : Int)
  | readSlice (size : Nat)
  | read1byte
  | skip (size : Int)
  | bytes
  | size
  | setBuffer (bufferSize : Int)

/-- The move of a queue that a call is: it takes exactly the bytes that it asks for. -/
inductive Call.IsMove : Call → Fifo.Move Byte → Prop
  | grow (n : Int) (xs : Bytes) : IsMove (.grow n) (.push xs)
  | readSlice (n : Nat) (xs : Bytes) : IsMove (.readSlice n) (.take n xs)
  | read1byte (xs : Bytes) : IsMove .read1byte (.take 1 xs)
  | skip (k : Int) : IsMove (.skip k) (.shift k)
  | bytes (xs : Bytes) : IsMove .bytes (.look xs)
  | size (n : Nat) : IsMove .size (.count n)
  | setBuffer (n : Int) : IsMove (.setBuffer n) .idle

/-- A buffer with its reader; the calls of the reader that were made, and what the caller of the
buffer has done and seen. -/
structure State (ρ : Type) where
  buffer : SrsFastStream
  reader : ρ
  calls : List ReadCall
  seen : List (Fifo.Move Byte)

/-- At the start. -/
def start (b : SrsFastStream) (r : ρ) : State ρ := ⟨b, r, [], []⟩

/-- One call.  `grow` for a negative size finds enough bytes, as for 0. -/
def step (R : ISrsReader ρ) (s : State ρ) : Call → Except SrsError (State ρ)
  | .grow n =>
      let g := growFrom R s.buffer s.reader n.toNat
      .ok ⟨g.buffer, g.reader, s.calls ++ g.calls, s.seen ++ [.push (delivered g.calls)]⟩
  | .readSlice n =>
      match s.buffer.readSlice n with
      | .ok (bs, b) => .ok { s with buffer := b, seen := s.seen ++ [.take n bs] }
      | .error e => .error e
  | .read1byte =>
      match s.buffer.read1byte with
      | .ok (bs, b) => .ok { s with buffer := b, seen := s.seen ++ [.take 1 bs] }
      | .error e => .error e
  | .skip k =>
      match s.buffer.skip k with
      | .ok b => .ok { s with buffer := b, seen := s.seen ++ [.shift k] }
      | .error e => .error e
  | .bytes => .ok { s with seen := s.seen ++ [.look s.buffer.unread] }
  | .size => .ok { s with seen := s.seen ++ [.count s.buffer.size] }
  | .setBuffer n => .ok { s with buffer := s.buffer.setBuffer n, seen := s.seen ++ [.idle] }

/-- A sequence of calls, none of which fails an assertion. -/
def run (R : ISrsReader ρ) : List Call → State ρ → Except SrsError (State ρ)
  | [], s => .ok s
  | c :: cs, s =>
      match step R s c with
      | .ok s' => run R cs s'
      | .error e => .error e

/-! ## The buffer as a queue -/

/-- The pointers are in order, the memory from `buffer` to `end` is the end of what was delivered,
and no call of the reader has asked for nothing or for more than there was space. -/
structure Inv (s : State ρ) : Prop where
  order : s.buffer.p ≤ s.buffer.data.length ∧ s.buffer.data.length ≤ s.buffer.nbBuffer
  data : s.buffer.data <:+ delivered s.calls
  fits : ∀ c ∈ s.calls, c.Fits

/-- The buffer holds what waits in the queue of everything that was delivered. -/
structure Refines (s : State ρ) (q : Fifo Byte) : Prop where
  inv : Inv s
  arrived : q.arrived = delivered s.calls
  waiting : q.waiting = s.buffer.unread

theorem order (b : SrsFastStream) : b.p ≤ b.data.length ∧ b.data.length ≤ b.nbBuffer :=
  ⟨b.p_le, b.data_le⟩

/-- The cursor of the queue stands where the unread bytes start. -/
theorem Refines.pos {s : State ρ} {q : Fifo Byte} (h : Refines s q) :
    q.pos + s.buffer.size = (delivered s.calls).length := by
  have hlen := congrArg List.length h.waiting
  have hle := q.pos_le
  rw [length_unread, Fifo.waiting, List.length_drop] at hlen
  rw [h.arrived] at hlen hle
  omega

/-- Unread bytes are taken. -/
theorem refines_take {s : State ρ} {q : Fifo Byte} {n : Nat} (h : Refines s q) (hn : n ≤ s.buffer.size) :
    ∃ q', q.Step (.take n (s.buffer.unread.take n)) q' ∧
      Refines { s with buffer := s.buffer.advance n hn, seen :=
        s.seen ++ [.take n (s.buffer.unread.take n)] } q' := by
  have hpos := h.pos
  have hle : q.pos + n ≤ q.arrived.length := by
    rw [h.arrived]
    omega
  have hwait : (⟨q.arrived, q.pos + n, hle⟩ : Fifo Byte).waiting = s.buffer.unread.drop n := by
    rw [← h.waiting, Fifo.waiting, Fifo.waiting, List.drop_drop]
  refine ⟨⟨q.arrived, q.pos + n, hle⟩, h.waiting ▸ .take q hle, ⟨order _, h.inv.data, h.inv.fits⟩,
    h.arrived, ?_⟩
  rw [hwait]
  exact (advance_unread _ hn).symm

/-- The read position moves over what the block holds. -/
theorem refines_skip {s : State ρ} {q : Fifo Byte} {k : Int} {b : SrsFastStream} (h : Refines s q)
    (hskip : s.buffer.skip k = .ok b) :
    ∃ q', q.Step (.shift k) q' ∧ Refines { s with buffer := b, seen := s.seen ++ [.shift k] } q' := by
  unfold skip at hskip
  split_ifs at hskip with hk
  obtain rfl := Except.ok.inj hskip
  have hpos := h.pos
  have hend := s.buffer.p_le
  -- the content is the end of what was delivered, so the cursor can follow
  have hlen := h.inv.data.length_le
  simp only [size] at hk hpos
  have hle : (q.pos + k).toNat ≤ q.arrived.length := by
    rw [h.arrived]
    omega
  refine ⟨⟨q.arrived, (q.pos + k).toNat, hle⟩, .shift rfl ?_, ⟨order _, h.inv.data, h.inv.fits⟩,
    h.arrived, ?_⟩
  · show ((q.pos + k).toNat : Int) = q.pos + k
    omega
  · obtain ⟨front, hfront⟩ := h.inv.data
    have hflen := congrArg List.length hfront
    rw [List.length_append] at hflen
    show q.arrived.drop (q.pos + k).toNat = s.buffer.data.drop (s.buffer.p + k).toNat
    rw [h.arrived, ← hfront, List.drop_append, List.drop_of_length_le (by omega), List.nil_append]
    congr 1
    omega

/-- **One call.**  It is the move of the queue that belongs to it: the buffer goes on to hold what waits
in the queue, and the caller sees what the queue shows. -/
theorem step_refines {R : ISrsReader ρ} {s s' : State ρ} {q : Fifo Byte} {c : Call} (h : Refines s q)
    (hs : step R s c = .ok s') :
    ∃ q' m, Refines s' q' ∧ s'.seen = s.seen ++ [m] ∧ c.IsMove m ∧ q.Step m q' := by
  cases c with
  | grow n =>
    obtain rfl := Except.ok.inj hs
    obtain ⟨hg, -, -⟩ := growFrom_spec R s.buffer s.reader n.toNat
    refine ⟨_, _, ⟨⟨order _, ?_, ?_⟩, ?_, ?_⟩, rfl, .grow n _, .push q _⟩
    · obtain ⟨front, hfront⟩ := h.inv.data
      refine hg.data.trans ⟨front, ?_⟩
      rw [delivered_append, ← hfront, List.append_assoc]
    · intro c hc
      rcases List.mem_append.1 hc with hc | hc
      · exact h.inv.fits c hc
      · exact hg.fits c hc
    · simp [h.arrived]
    · have hle := q.pos_le
      rw [hg.unread, ← h.waiting, Fifo.waiting, Fifo.waiting, List.drop_append_of_le_length hle]
  | readSlice n =>
    simp only [step] at hs
    by_cases hn : n ≤ s.buffer.size
    · rw [readSlice_of_le hn] at hs
      obtain rfl := Except.ok.inj hs
      obtain ⟨q', hq, hr⟩ := refines_take h hn
      exact ⟨q', _, hr, rfl, .readSlice n _, hq⟩
    · rw [readSlice, dif_neg hn] at hs
      cases hs
  | read1byte =>
    simp only [step, read1byte] at hs
    by_cases hn : 1 ≤ s.buffer.size
    · rw [readSlice_of_le hn] at hs
      obtain rfl := Except.ok.inj hs
      obtain ⟨q', hq, hr⟩ := refines_take h hn
      exact ⟨q', _, hr, rfl, .read1byte _, hq⟩
    · rw [readSlice, dif_neg hn] at hs
      cases hs
  | skip k =>
    simp only [step] at hs
    split at hs
    · rename_i b hskip
      obtain rfl := Except.ok.inj hs
      obtain ⟨q', hq, hr⟩ := refines_skip h hskip
      exact ⟨q', _, hr, rfl, .skip k, hq⟩
    · cases hs
  | bytes =>
    obtain rfl := Except.ok.inj hs
    exact ⟨q, _, ⟨⟨order _, h.inv.data, h.inv.fits⟩, h.arrived, h.waiting⟩, rfl, .bytes _,
      h.waiting ▸ .look q⟩
  | size =>
    obtain rfl := Except.ok.inj hs
    refine ⟨q, _, ⟨⟨order _, h.inv.data, h.inv.fits⟩, h.arrived, h.waiting⟩, rfl, .size _, ?_⟩
    rw [← length_unread, ← h.waiting]
    exact .count q
  | setBuffer n =>
    obtain rfl := Except.ok.inj hs
    have hsame : (s.buffer.setBuffer n).data = s.buffer.data ∧
        (s.buffer.setBuffer n).unread = s.buffer.unread := by
      unfold setBuffer
      split_ifs <;> exact ⟨rfl, rfl⟩
    exact ⟨q, _, ⟨⟨order _, hsame.1.symm ▸ h.inv.data, h.inv.fits⟩, h.arrived, h.waiting.trans hsame.2.symm⟩,
      rfl, .setBuffer n, .idle q⟩

/-- Any number of calls. -/
theorem run_refines_from {R : ISrsReader ρ} {cs : List Call} {s s' : State ρ} {q₀ q : Fifo Byte}
    (h : Refines s q) (hq : q₀.Runs s.seen q) (hs : run R cs s = .ok s') :
    ∃ q' ms, Refines s' q' ∧ s'.seen = s.seen ++ ms ∧ List.Forall₂ Call.IsMove cs ms ∧
      q₀.Runs s'.seen q' := by
  induction cs generalizing s q with
  | nil =>
    obtain rfl := Except.ok.inj hs
    exact ⟨q, [], h, (List.append_nil _).symm, .nil, hq⟩
  | cons c cs ih =>
    unfold run at hs
    split at hs
    · rename_i s₁ hstep
      obtain ⟨q₁, m, hr, hseen, hmove, hm⟩ := step_refines h hstep
      obtain ⟨q', ms, hr', hseen', hmoves, hruns⟩ := ih hr (by rw [hseen]; exact .snoc hq hm) hs
      exact ⟨q', m :: ms, hr', by rw [hseen', hseen, List.append_assoc]; rfl, .cons hmove hmoves, hruns⟩
    · cases hs

/-- A buffer that was just made is an empty queue. -/
theorem refines_start (size : Nat) (hsize : size < 2 ^ 31) (r : ρ) :
    Refines (start (new size hsize) r) .empty := by
  have hdata : (new size hsize).data = [] := by
    unfold new
    split_ifs <;> rfl
  refine ⟨⟨order _, ?_, by simp [start]⟩, rfl, ?_⟩
  · rw [start, hdata]
    exact List.nil_suffix
  · rw [start, unread, hdata, List.drop_nil]
    rfl

/-- **The buffer is a queue.**  After any sequence of calls that fail no assertion, over any reader:
the pointers are in order, the memory from `buffer` to `end` is the end of what the reader has
delivered, and the reader was never asked for nothing or for more than there was space; every call
has been the move of a queue of the delivered bytes that belongs to it, which takes exactly the bytes
asked for; and as long as the caller has not called `skip`, the bytes it has read, followed by the
unread ones, are what was delivered. -/
theorem run_refines {R : ISrsReader ρ} {size : Nat} {hsize : size < 2 ^ 31} {r : ρ} {cs : List Call}
    {s : State ρ} (h : run R cs (start (new size hsize) r) = .ok s) :
    Inv s ∧ (∃ q, Refines s q ∧ List.Forall₂ Call.IsMove cs s.seen ∧ Fifo.empty.Runs s.seen q) ∧
      (Fifo.Straight s.seen → Fifo.taken s.seen ++ s.buffer.unread = delivered s.calls) := by
  obtain ⟨q, ms, hr, hseen, hmoves, hq⟩ := run_refines_from (refines_start size hsize r) (.nil _) h
  obtain rfl : s.seen = ms := hseen
  refine ⟨hr.inv, ⟨q, hr, hmoves, hq⟩, fun hstraight => ?_⟩
  have horder := hq.in_order hstraight
  have harrived := hq.arrived
  rw [hr.waiting] at horder
  rw [horder, ← hr.arrived, harrived]
  rfl

/-- Two reads of a buffer of five bytes, with a move of what is left and a step back in between; and the
same without the step back. -/
theorem run_refines_grow :
    (∃ (s : State Socket) (q : Fifo Byte),
      run Socket.reader [.grow 5, .readSlice 4, .skip (-1), .grow 3, .size, .setBuffer 8, .read1byte, .bytes]
        (start (new 5 (by decide)) [.data (str "Hello"), .data (str ", ")]) = .ok s ∧ Inv s ∧
      Refines s q ∧ s.seen = [.push (str "Hello"), .take 4 (str "Hell"), .shift (-1), .push (str ", "),
        .count 4, .idle, .take 1 (str "l"), .look (str "o, ")] ∧ Fifo.empty.Runs s.seen q) ∧
    ∃ s : State Socket,
      run Socket.reader [.grow 5, .readSlice 4, .grow 3, .read1byte]
        (start (new 5 (by decide)) [.data (str "Hello"), .data (str ", ")]) = .ok s ∧
      Fifo.taken s.seen ++ s.buffer.unread = str "Hello, " := by
  constructor
  · have h : ∃ s : State Socket,
        run Socket.reader [.grow 5, .readSlice 4, .skip (-1), .grow 3, .size, .setBuffer 8, .read1byte, .bytes]
          (start (new 5 (by decide)) [.data (str "Hello"), .data (str ", ")]) = .ok s ∧
        s.seen = [.push (str "Hello"), .take 4 (str "Hell"), .shift (-1), .push (str ", "),
          .count 4, .idle, .take 1 (str "l"), .look (str "o, ")] := ⟨_, rfl, rfl⟩
    obtain ⟨s, hs, hseen⟩ := h
    obtain ⟨hinv, ⟨q, hr, -, hq⟩, -⟩ := run_refines hs
    exact ⟨s, q, hs, hinv, hr, hseen, hq⟩
  · have h : ∃ s : State Socket,
        run Socket.reader [.grow 5, .readSlice 4, .grow 3, .read1byte]
          (start (new 5 (by decide)) [.data (str "Hello"), .data (str ", ")]) = .ok s ∧
        s.seen = [.push (str "Hello"), .take 4 (str "Hell"), .push (str ", "), .take 1 (str "o")] ∧
        delivered s.calls = str "Hello, " := ⟨_, rfl, rfl, rfl⟩
    obtain ⟨s, hs, hseen, hcalls⟩ := h
    refine ⟨s, hs, ((run_refines hs).2.2 ?_).trans hcalls⟩
    rw [hseen]
    intro k hk
    simp at hk

end SrsFastStream

end HttpProxy
