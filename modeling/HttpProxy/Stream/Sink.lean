import HttpProxy.Stream.Socket

/-!
# The writing side of a connection

`Sink` is an `ISrsWriter`: what has been sent, and how the next writes will end.
A write sends all of its bytes, or fails after some of them.

* `write_of_reliable` — a transport that never fails sends everything.
-/

namespace HttpProxy

/-- How a write ends: with all bytes sent, or with an error after the first
`sent` bytes. -/
inductive WriteEvent
  | ok
  | error (sent : Nat) (e : SrsError)
  deriving DecidableEq, Repr

/-- The writing side of a connection.  When no more events are listed, all
further writes succeed. -/
structure Sink where
  sent : Bytes
  future : List WriteEvent
  deriving DecidableEq, Repr

namespace Sink

/-- `write`, and `writev` of the concatenated pieces. -/
def write (s : Sink) (bs : Bytes) : Option SrsError × Sink :=
  match s.future with
  | [] => (none, { s with sent := s.sent ++ bs })
  | .ok :: es => (none, ⟨s.sent ++ bs, es⟩)
  | .error n e :: es => (some e, ⟨s.sent ++ bs.take n, es⟩)

/-- A transport on which no write fails. -/
def Reliable (s : Sink) : Prop := ∀ e ∈ s.future, e = .ok

/-- On a reliable transport every write sends all its bytes. -/
theorem write_of_reliable {s : Sink} (h : s.Reliable) (bs : Bytes) :
    ∃ s' : Sink, s.write bs = (none, s') ∧ s'.sent = s.sent ++ bs ∧ s'.Reliable := by
  rw [write]
  cases hf : s.future with
  | nil => exact ⟨_, rfl, rfl, by simp [Reliable]⟩
  | cons e es =>
    have he : e = .ok := h e (by rw [hf]; simp)
    subst he
    exact ⟨_, rfl, rfl, fun e he => h e (by rw [hf]; simp [he])⟩

end Sink

end HttpProxy
