import HttpProxy.Body.Transport
import HttpProxy.Body.Decode

/-!
# Reads that run out of bytes

A call that waits for bytes which the socket does not have yet.  By then everything that was sent is in
the buffer, and the call goes on with what the socket does next; if that is an error, the call fails and
the bytes stay where they are.

* `Source.grow_dry` — `grow` on a socket that has delivered everything.
* `readChunkLine_dry`, `finishChunk_dry` — the calls of the reader that wait.
* `Repeatable`, `read_dry_chunked`, `read_dry_length` — reads that can be made again.
-/

namespace HttpProxy

namespace Socket

/-- A socket that has delivered everything goes on with what lies behind. -/
theorem read_dry {s : Socket} (hs : Healthy s) (hp : pending s = []) {size : Nat} (h0 : 0 < size)
    (t : Socket) :
    read (s ++ t) size = read t size := by
  induction s with
  | nil => rfl
  | cons ev s ih =>
    cases ev with
    | error e => exact absurd hs not_healthy_error
    | data ds =>
      rw [pending_data, List.append_eq_nil_iff] at hp
      rw [List.cons_append, read, if_neg (by omega), if_pos hp.1]
      exact ih (healthy_data.1 hs) hp.2

end Socket

namespace SrsFastStream

variable {b : SrsFastStream} {s : Socket} {required : Nat}

/-- More turns than are needed change nothing. -/
theorem growLoop_fuel {n n' : Nat} (hn : required ≤ b.size + n) (hn' : required ≤ b.size + n') :
    growLoop required n b s = growLoop required n' b s := by
  induction n generalizing n' b s with
  | zero =>
    cases n' with
    | zero => rfl
    | succ n' => rw [growLoop, growLoop, if_pos (by omega)]
  | succ n ih =>
    cases n' with
    | zero => rw [growLoop, growLoop, if_pos (by omega)]
    | succ n' =>
      rw [growLoop, growLoop]
      split_ifs with hdone
      · rfl
      · cases hread : s.read b.freeSpace with
        | mk res s' =>
          cases res with
          | error e => rfl
          | ok bs =>
            obtain ⟨hne, hlen, -⟩ := Socket.read_ok hread
            have h1 : (b.fill bs).size = b.size + bs.length := by
              rw [← length_unread, fill_unread hlen, List.length_append, length_unread]
            have h2 : 0 < bs.length := List.length_pos_of_ne_nil hne
            exact ih (by omega) (by omega)

theorem fill_room {bs : Bytes} (h : bs.length ≤ b.freeSpace) :
    (b.fill bs).size + (b.fill bs).freeSpace = b.size + b.freeSpace := by
  have := b.p_le
  have := b.data_le
  simp only [size, freeSpace, fill_data h, fill_p, fill_nbBuffer, List.length_append]
  rw [freeSpace] at h
  omega

/-- The loop takes everything the socket has, and goes on with what lies behind. -/
theorem growLoop_dry {n : Nat} (hs : s.Healthy) (hroom : required ≤ b.size + b.freeSpace)
    (hn : required ≤ b.size + n) (hfew : (b.unread ++ s.pending).length < required) :
    ∃ b' n', b'.nbBuffer = b.nbBuffer ∧ b'.unread = b.unread ++ s.pending ∧
      required ≤ b'.size + b'.freeSpace ∧ required ≤ b'.size + n' ∧
      ∀ t, growLoop required n b (s ++ t) = growLoop required n' b' t := by
  induction n generalizing b s with
  | zero =>
    rw [List.length_append, length_unread] at hfew
    omega
  | succ n ih =>
    have hsize : ¬ required ≤ b.size := by
      rw [List.length_append, length_unread] at hfew
      omega
    by_cases hp : s.pending = []
    · refine ⟨b, n + 1, rfl, by rw [hp, List.append_nil], hroom, hn, fun t => ?_⟩
      rw [growLoop, growLoop, if_neg hsize, if_neg hsize, Socket.read_dry hs hp (by omega)]
    · obtain ⟨bs, s', hread⟩ := Socket.read_of_healthy hs hp (show 0 < b.freeSpace by omega)
      obtain ⟨hne, hlen, -⟩ := Socket.read_ok hread
      have hg := Grown.read_ok hread
      have h1 : (b.fill bs).size = b.size + bs.length := by
        rw [← length_unread, fill_unread hlen, List.length_append, length_unread]
      have h2 : 0 < bs.length := List.length_pos_of_ne_nil hne
      obtain ⟨b', n', hnb, hu, hroom', hn', hloop⟩ := ih (hg.healthy hs) (by rw [fill_room hlen]; exact hroom)
        (by omega) (by rw [hg.conserves]; exact hfew)
      refine ⟨b', n', hnb, hu.trans hg.conserves, hroom', hn', fun t => ?_⟩
      rw [growLoop, if_neg hsize, Socket.read_append hread]
      exact hloop t

/-- A block with room enough is left as it is. -/
theorem grow_of_room (hsize : b.size < required) (hroom : required ≤ b.size + b.freeSpace) :
    b.grow s required = growLoop required required b s := by
  have hmake : b.makeRoom required = b := if_neg (by omega)
  rw [grow, if_neg (by omega), hmake, if_neg (by omega)]

end SrsFastStream

namespace Source

/-- The source `⟨b, ·⟩` waits for `required` bytes: an error of the socket is returned, and leaves
everything in the buffer. -/
structure Waits (b : SrsFastStream) (required : Nat) : Prop where
  size : b.size < required
  room : required ≤ b.size + b.freeSpace

theorem Waits.grow_error {b : SrsFastStream} {required : Nat} (h : Waits b required) (e : SrsError)
    (t : Socket) :
    Source.grow ⟨b, .error e :: t⟩ required = (some e, ⟨b, t⟩) := by
  obtain ⟨n, rfl⟩ : ∃ n, required = n + 1 := Nat.exists_eq_add_one_of_ne_zero (by have := h.size; omega)
  have hgrow : b.grow (.error e :: t) (n + 1) = (some e, b, t) := by
    rw [SrsFastStream.grow_of_room h.size h.room, SrsFastStream.growLoop, if_neg (by have := h.size; omega)]
    rfl
  rw [Source.grow, hgrow]

/-- **`grow` on a socket that has delivered everything** goes on with what lies behind. -/
theorem grow_dry {src : Source} {required : Nat} (hs : src.skt.Healthy)
    (hcap : required ≤ src.buffer.nbBuffer)
    (hfew : src.unread.length < required) :
    ∃ b, b.nbBuffer = src.buffer.nbBuffer ∧ b.unread = src.unread ∧ Waits b required ∧
      ∀ t, (src.append t).grow required = Source.grow ⟨b, t⟩ required := by
  have hsize : src.buffer.size < required := by
    rw [unread, List.length_append, SrsFastStream.length_unread] at hfew
    omega
  have hroom : ¬ (src.buffer.makeRoom required).size +
    (src.buffer.makeRoom required).freeSpace < required := by
    rw [SrsFastStream.makeRoom_space]
    omega
  obtain ⟨b, n, hnb, hu, hroom', hn, hloop⟩ :=
    SrsFastStream.growLoop_dry (n := required) hs (Nat.not_lt.1 hroom)
    (by omega) (by rw [SrsFastStream.makeRoom_unread]; exact hfew)
  rw [SrsFastStream.makeRoom_unread] at hu
  have hwaits : Waits b required := ⟨by rw [← SrsFastStream.length_unread, hu]; exact hfew, hroom'⟩
  refine ⟨b, hnb.trans (SrsFastStream.makeRoom_nbBuffer _ _), hu, hwaits, fun t => ?_⟩
  have hgrow : src.buffer.grow (src.skt ++ t) required = b.grow t required := by
    rw [SrsFastStream.grow_of_room hwaits.size hwaits.room, SrsFastStream.grow, if_neg (by omega),
      if_neg hroom,
      hloop t]
    exact SrsFastStream.growLoop_fuel hn (by omega)
  rw [Source.grow, Source.grow, append, hgrow]

end Source

namespace SrsHttpResponseReader

variable {f : BodyFraming} {r : SrsHttpResponseReader} {src : Source} {size : Nat}

/-! ## The calls that wait -/

theorem readChunkLine_fuel {n n' : Nat} (hn : src.buffer.nbBuffer < src.buffer.size + n)
    (hn' : src.buffer.nbBuffer < src.buffer.size + n') : readChunkLine n src = readChunkLine n' src := by
  have hdata := src.buffer.data_le
  induction n generalizing n' src with
  | zero =>
    rw [SrsFastStream.size] at hn
    omega
  | succ n ih =>
    obtain ⟨n', rfl⟩ := Nat.exists_eq_add_one_of_ne_zero
      (show n' ≠ 0 by rw [SrsFastStream.size] at hn'; omega)
    rw [readChunkLine, readChunkLine]
    split
    · rfl
    · rfl
    · have hsize := @Source.grow_size src (src.buffer.size + 1)
      have hnb := (src.grow_grown (src.buffer.size + 1)).nbBuffer
      cases hg : src.grow (src.buffer.size + 1) with
      | mk err src' =>
        rw [hg] at hsize hnb
        cases err with
        | some e => rfl
        | none =>
          have hsize' : src.buffer.size + 1 ≤ src'.buffer.size := hsize rfl
          have hnb' : src'.buffer.nbBuffer = src.buffer.nbBuffer := hnb
          exact ih (by omega) (by omega) src'.buffer.data_le

/-- The loop that waits for a line end. -/
theorem readChunkLine_none (src : Source) {n : Nat} (h : findSub crlf src.buffer.unread = none) :
    readChunkLine (n + 1) src =
      match src.grow (src.buffer.size + 1) with
      | (some e, src') => (.error e, src')
      | (none, src') => readChunkLine n src' := by
  rw [readChunkLine]
  split
  · rename_i h0
    rw [h] at h0
    cases h0
  · rename_i k hk
    rw [h] at hk
    cases hk
  · rfl

theorem findSub_buffer_none (h : findSub crlf src.unread = none) : findSub crlf src.buffer.unread = none := by
  cases hb : findSub crlf src.buffer.unread with
  | none => rfl
  | some k =>
    rw [findSub_unread hb] at h
    cases h

/-- Without a line end among the bytes that come, the search for it waits. -/
theorem readChunkLine_dry {n : Nat} (hs : src.skt.Healthy) (hfind : findSub crlf src.unread = none)
    (hfew : src.unread.length < src.buffer.nbBuffer) (hn : src.buffer.nbBuffer < src.buffer.size + n) :
    ∃ b : SrsFastStream, b.nbBuffer = src.buffer.nbBuffer ∧ b.unread = src.unread ∧
      Source.Waits b (b.size + 1) ∧
      ∀ t, readChunkLine n (src.append t) = readChunkLine (b.nbBuffer + 1) ⟨b, t⟩ := by
  induction n generalizing src with
  | zero =>
    have := src.buffer.data_le
    rw [SrsFastStream.size] at hn
    omega
  | succ n ih =>
    have hnone := findSub_buffer_none hfind
    have hlen : src.buffer.size ≤ src.unread.length := by
      rw [Source.unread, List.length_append, SrsFastStream.length_unread]
      omega
    by_cases hmore : src.buffer.size + 1 ≤ src.unread.length
    · -- a byte more comes from the socket
      have hok := Source.grow_success hs (show src.buffer.size + 1 ≤ src.buffer.nbBuffer by omega) hmore
      have hg := src.grow_grown (src.buffer.size + 1)
      have hsize := Source.grow_size hok
      obtain ⟨b, hnb, hu, hwaits, hall⟩ := ih (hg.healthy hs) (by rw [hg.unread]; exact hfind)
        (by rw [hg.unread, hg.nbBuffer]; exact hfew) (by rw [hg.nbBuffer]; omega)
      refine ⟨b, hnb.trans hg.nbBuffer, hu.trans hg.unread, hwaits, fun t => ?_⟩
      rw [readChunkLine_none (src.append t) hnone, Source.append_buffer, Source.grow_append hok]
      exact hall t
    · obtain ⟨b, hnb, hu, hwaits, hgrow⟩ := Source.grow_dry hs
        (show src.buffer.size + 1 ≤ src.buffer.nbBuffer by omega) (by omega)
      have hbsize : b.size = src.buffer.size := by
        rw [← SrsFastStream.length_unread, hu]
        omega
      refine ⟨b, hnb, hu, by rw [hbsize]; exact hwaits, fun t => ?_⟩
      have hbnone : findSub crlf b.unread = none := by rw [hu]; exact hfind
      rw [readChunkLine_none (src.append t) hnone, readChunkLine_none ⟨b, t⟩ hbnone,
        Source.append_buffer, hbsize, hgrow t]
      have hgrown := Source.grow_grown ⟨b, t⟩ (src.buffer.size + 1)
      have hsize := @Source.grow_size ⟨b, t⟩ (src.buffer.size + 1)
      cases hg : Source.grow ⟨b, t⟩ (src.buffer.size + 1) with
      | mk err src' =>
        rw [hg] at hgrown hsize
        cases err with
        | some e => rfl
        | none =>
          have hnb' : src'.buffer.nbBuffer = b.nbBuffer := hgrown.nbBuffer
          have hsize' : src.buffer.size + 1 ≤ src'.buffer.size := hsize rfl
          exact readChunkLine_fuel (by omega) (by omega)

/-- A read that fails for want of bytes and can be made again: everything that was sent is in the
buffer, an error of the socket is returned, nothing is delivered and the reader is what it was. -/
def Repeatable (f : BodyFraming) (r : SrsHttpResponseReader) (src : Source) (size : Nat) : Prop :=
  ∃ b : SrsFastStream, b.nbBuffer = src.buffer.nbBuffer ∧ b.unread = src.unread ∧
    (∀ t, read f r (src.append t) size = read f r ⟨b, t⟩ size) ∧
    ∀ e t, read f r ⟨b, .error e :: t⟩ size = ⟨some e, none, [], r, ⟨b, t⟩⟩

/-- The reader waits for a size line. -/
theorem read_dry_chunked (hf : f.chunked = true) (hr : Going r) (hleft : r.nbLeftChunk = 0)
    (hs : src.skt.Healthy)
    (hfind : findSub crlf src.unread = none) (hfew : src.unread.length < src.buffer.nbBuffer) :
    Repeatable f r src size := by
  obtain ⟨b, hnb, hu, hwaits, hall⟩ :=
    readChunkLine_dry (n := src.buffer.nbBuffer + 1) hs hfind hfew (by omega)
  refine ⟨b, hnb, hu, fun t => ?_, fun e t => ?_⟩
  · rw [read_eq_readChunked hf hr, read_eq_readChunked hf hr, readChunked, readChunked,
      if_pos hleft, if_pos hleft,
      readChunkHeader, readChunkHeader, Source.append_buffer, hall t]
  · have hline : readChunkLine (b.nbBuffer + 1) ⟨b, .error e :: t⟩ = (.error e, ⟨b, t⟩) := by
      rw [readChunkLine_none ⟨b, .error e :: t⟩ (show findSub crlf b.unread = none by rw [hu]; exact hfind),
        hwaits.grow_error]
    rw [read_eq_readChunked hf hr, readChunked, if_pos hleft, readChunkHeader, hline]

/-- `read_specified` waits when nothing has come. -/
theorem readSpecified_dry (hs : src.skt.Healthy) (hnil : src.unread = []) :
    ∃ b : SrsFastStream, b.nbBuffer = src.buffer.nbBuffer ∧ b.unread = src.unread ∧
      (∀ r size t, readSpecified f r (src.append t) size = readSpecified f r ⟨b, t⟩ size) ∧
      ∀ r size e t, readSpecified f r ⟨b, .error e :: t⟩ size = ⟨some e, none, [], r, ⟨b, t⟩⟩ := by
  obtain ⟨b, hnb, hu, hwaits, hgrow⟩ :=
    Source.grow_dry hs (show 1 ≤ src.buffer.nbBuffer from src.buffer.nbBuffer_pos)
    (by rw [hnil]; exact Nat.one_pos)
  have hempty : src.buffer.size = 0 := by
    rw [← SrsFastStream.length_unread, (List.append_eq_nil_iff.1 hnil).1]
    rfl
  have hbempty : b.size = 0 := by have := hwaits.size; omega
  have hrefill : ∀ t, refill (src.append t) = refill ⟨b, t⟩ := by
    intro t
    rw [refill, refill, Source.append_buffer, if_pos hempty, if_pos hbempty, hgrow t]
  refine ⟨b, hnb, hu, fun r size t => by rw [readSpecified, readSpecified, hrefill t], fun r size e t => ?_⟩
  rw [readSpecified, refill, if_pos hbempty, hwaits.grow_error]

/-- The reader waits for the bytes of a body of a given length. -/
theorem read_dry_length (hf : f.chunked = false) (hn : f.contentLength ≠ -1) (hr : r.isEof = false)
    (hmax : toSize (f.contentLength - r.nbTotalRead) ≠ 0) (hs : src.skt.Healthy) (hnil : src.unread = []) :
    Repeatable f r src size := by
  have hread : ∀ src : Source, read f r src size =
      readSpecified f r src (min size (toSize (f.contentLength - r.nbTotalRead))) := by
    intro src
    rw [read, if_neg (by simp [hr]), if_neg (by simp [hf]), if_pos hn]
    simp only
    rw [if_neg hmax]
  obtain ⟨b, hnb, hu, hall, hfails⟩ := readSpecified_dry (f := f) hs hnil
  refine ⟨b, hnb, hu, fun t => ?_, fun e t => ?_⟩
  · rw [hread, hread, hall]
  · rw [hread, hfails]

/-- The two bytes behind a chunk are waited for, and what was read of the chunk is returned. -/
theorem finishChunk_dry (hs : src.skt.Healthy) (hcap : 2 ≤ src.buffer.nbBuffer)
    (hfew : src.unread.length < 2) :
    ∃ b : SrsFastStream, b.nbBuffer = src.buffer.nbBuffer ∧ b.unread = src.unread ∧
      ∀ k data r e t, finishChunk k data r (src.append (.error e :: t)) =
        ⟨some e, some k, data, r, ⟨b, t⟩⟩ := by
  obtain ⟨b, hnb, hu, hwaits, hgrow⟩ := Source.grow_dry hs hcap hfew
  refine ⟨b, hnb, hu, fun k data r e t => ?_⟩
  rw [finishChunk, hgrow, hwaits.grow_error]

end SrsHttpResponseReader

end HttpProxy
