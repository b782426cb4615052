import HttpProxy.Bytes.Basic

/-!
# Errors and the socket reader

`SrsError` lists the error codes that the modelled functions return or inspect
(`src/kernel/srs_kernel_error.hpp`), and `Socket` is an `ISrsReader`: what the
peer's side of a connection will deliver, one event after the other.

A `read` for at most `size` bytes returns between 1 and `size` bytes of the
next piece of data, so every way in which TCP may cut a byte stream into reads
is some list of pieces; a piece may also be an error, after which the socket
may well work again, and a socket with nothing left has been closed by the
peer.

* `Socket.pending` — the bytes still to come.
* `read_ok`, `read_error` — a read takes its bytes from the front of `pending`
  and nothing else changes.
* `Socket.Healthy` — no error event is queued; `read_of_healthy` says that such a
  socket delivers as long as bytes are pending.
-/

namespace HttpProxy

/-- The error codes of the modelled functions.  Two are not codes of the source: `assertFailed` stands
for a failed `srs_assert`, which ends the process, and `noReturn` for a function that flows off its end
without a value, from which the program does not come back. -/
inductive SrsError
  | socketRead
  | socketPeek
  | socketTimeout
  | socketWrite
  | readerBufferOverflow
  | systemFileEof
  | httpRequestEof
  | httpStreamEof
  | httpResponseEof
  | httpInvalidChunkHeader
  | httpContentLength
  | httpParseHeader
  | httpParseUri
  | assertFailed
  | noReturn
  | other (code : Nat)
  deriving DecidableEq, Repr

/-- What the next read of a socket runs into: a piece of data, or an error. -/
inductive SocketEvent
  | data (bytes : Bytes)
  | error (e : SrsError)
  deriving DecidableEq, Repr

/-- The reading side of a connection, as the list of its future events. -/
abbrev Socket := List SocketEvent

namespace Socket

/-- The bytes an event carries. -/
def eventBytes : SocketEvent → Bytes
  | .data bs => bs
  | .error _ => []

/-- All the bytes still to be delivered. -/
def pending (s : Socket) : Bytes := s.flatMap eventBytes

/-- `SrsStSocket::read`: the data delivered or the error, and the socket after
the call.  A read of no bytes returns 0, which is taken for a closed socket. -/
def read : Socket → Nat → Except SrsError Bytes × Socket
  | [], _ => (.error .socketRead, [])
  | .error e :: s, _ => (.error e, s)
  | .data bs :: s, size =>
      if size = 0 then (.error .socketRead, .data bs :: s)
      else if bs = [] then read s size
      else (.ok (bs.take size), if bs.length ≤ size then s else .data (bs.drop size) :: s)

/-- A socket on which no read will fail before its bytes are used up. -/
def Healthy (s : Socket) : Prop := ∀ e ∈ s, ∃ bs, e = .data bs

@[simp] theorem pending_nil : pending [] = [] := rfl

@[simp] theorem pending_data (bs : Bytes) (s : Socket) :
    pending (.data bs :: s) = bs ++ pending s := by simp [pending, eventBytes]

@[simp] theorem pending_error (e : SrsError) (s : Socket) :
    pending (.error e :: s) = pending s := by simp [pending, eventBytes]

@[simp] theorem healthy_nil : Healthy [] := by simp [Healthy]

@[simp] theorem healthy_data {bs : Bytes} {s : Socket} :
    Healthy (.data bs :: s) ↔ Healthy s := by simp [Healthy]

@[simp] theorem not_healthy_error {e : SrsError} {s : Socket} :
    ¬ Healthy (.error e :: s) := by simp [Healthy]

/-- The socket that delivers the given pieces, one in each read. -/
def ofPieces (pieces : List Bytes) : Socket := pieces.map .data

theorem healthy_ofPieces (pieces : List Bytes) : Healthy (ofPieces pieces) := by
  intro e he
  obtain ⟨bs, -, rfl⟩ := List.mem_map.1 he
  exact ⟨bs, rfl⟩

theorem pending_ofPieces (pieces : List Bytes) : pending (ofPieces pieces) = pieces.flatten := by
  induction pieces with
  | nil => rfl
  | cons b bs ih => simpa [ofPieces] using ih

/-- A successful read delivers at least one byte and at most `size`, from the
front of what was pending. -/
theorem read_ok {s s' : Socket} {size : Nat} {bs : Bytes} (h : read s size = (.ok bs, s')) :
    bs ≠ [] ∧ bs.length ≤ size ∧ pending s = bs ++ pending s' := by
  induction s with
  | nil => simp [read] at h
  | cons e s ih =>
    cases e with
    | error e => simp [read] at h
    | data ds =>
      rw [read] at h
      split_ifs at h with h0 hnil hlen
      · simp at h
      · obtain ⟨h1, h2, h3⟩ := ih h
        exact ⟨h1, h2, by simpa [hnil] using h3⟩
      · simp only [Prod.mk.injEq, Except.ok.injEq] at h
        obtain ⟨rfl, rfl⟩ := h
        rw [List.take_of_length_le hlen]
        exact ⟨hnil, hlen, by simp⟩
      · simp only [Prod.mk.injEq, Except.ok.injEq] at h
        obtain ⟨rfl, rfl⟩ := h
        refine ⟨?_, List.length_take_le _ _, ?_⟩
        swap
        · rw [pending_data, pending_data, ← List.append_assoc, List.take_append_drop]
        rw [Ne, List.take_eq_nil_iff]
        exact not_or.2 ⟨h0, hnil⟩

/-- A read that fails loses no byte. -/
theorem read_error {s s' : Socket} {size : Nat} {e : SrsError} (h : read s size = (.error e, s')) :
    pending s' = pending s := by
  induction s with
  | nil => simp only [read, Prod.mk.injEq] at h; rw [← h.2]
  | cons ev s ih =>
    cases ev with
    | error e' => simp only [read, Prod.mk.injEq] at h; rw [← h.2]; simp
    | data ds =>
      rw [read] at h
      split_ifs at h with h0 hnil
      · simp only [Prod.mk.injEq] at h
        rw [← h.2]
      · simpa [hnil] using ih h
      · simp at h
      · simp at h

theorem healthy_read {s : Socket} (hs : Healthy s) (size : Nat) : Healthy (read s size).2 := by
  induction s with
  | nil => simp [read]
  | cons e s ih =>
    cases e with
    | error e => exact absurd hs not_healthy_error
    | data ds =>
      rw [healthy_data] at hs
      rw [read]
      split_ifs
      · exact healthy_data.2 hs
      · exact ih hs
      · exact hs
      · exact healthy_data.2 hs

/-- The only error a healthy socket reports is the close by the peer. -/
theorem read_error_of_healthy {s s' : Socket} {size : Nat} {e : SrsError} (hs : Healthy s)
    (h : read s size = (.error e, s')) : e = .socketRead := by
  induction s with
  | nil => simp only [read, Prod.mk.injEq, Except.error.injEq] at h; exact h.1.symm
  | cons ev s ih =>
    cases ev with
    | error e => exact absurd hs not_healthy_error
    | data ds =>
      rw [read] at h
      split_ifs at h with h0 hnil
      · simp only [Prod.mk.injEq, Except.error.injEq] at h; exact h.1.symm
      · exact ih (healthy_data.1 hs) h
      · simp at h
      · simp at h

/-- A healthy socket delivers as long as it has bytes. -/
theorem read_of_healthy {s : Socket} (hs : Healthy s) (hp : pending s ≠ []) {size : Nat}
    (h0 : 0 < size) : ∃ bs s', read s size = (.ok bs, s') := by
  induction s with
  | nil => exact absurd rfl hp
  | cons e s ih =>
    cases e with
    | error e => exact absurd hs not_healthy_error
    | data ds =>
      rw [read, if_neg (by omega)]
      split_ifs with hnil
      · subst hnil
        exact ih (healthy_data.1 hs) (by simpa using hp)
      · exact ⟨_, _, rfl⟩
      · exact ⟨_, _, rfl⟩

/-- A healthy socket that has delivered everything is closed. -/
theorem read_of_drained {s : Socket} (hs : Healthy s) (hp : pending s = []) (size : Nat) :
    (read s size).1 = .error .socketRead := by
  induction s with
  | nil => rfl
  | cons e s ih =>
    cases e with
    | error e => exact absurd hs not_healthy_error
    | data ds =>
      rw [pending_data, List.append_eq_nil_iff] at hp
      rw [read]
      split_ifs with h0
      · rfl
      · exact ih (healthy_data.1 hs) hp.2
      · exact absurd hp.1 ‹_›

end Socket

end HttpProxy
