import Mathlib.Tactic

/-!
# A queue with a cursor

A queue that keeps everything that has arrived and a cursor into it: what lies behind the cursor
is waiting, and the cursor may go back over what was taken.

* `Fifo.Step`, `Fifo.Runs` — what may be done to a queue, and what is seen of it.
* `Fifo.Runs.arrived`, `Fifo.Runs.in_order` — everything that was pushed has arrived, and without
  moves of the cursor it is taken in order, once.
-/

namespace HttpProxy

/-- What has arrived, and how much of it has been taken. -/
structure Fifo (α : Type) where
  arrived : List α
  pos : Nat
  pos_le : pos ≤ arrived.length

namespace Fifo

variable {α : Type}

/-- Nothing has arrived. -/
def empty : Fifo α := ⟨[], 0, Nat.zero_le _⟩

/-- What is behind the cursor. -/
def waiting (q : Fifo α) : List α := q.arrived.drop q.pos

/-- What is done to a queue, together with what is seen of it. -/
inductive Move (α : Type)
  | push (xs : List α)
  /-- The next `n` are taken, and `xs` is seen. -/
  | take (n : Nat) (xs : List α)
  /-- The cursor moves by `k`, forward or back. -/
  | shift (k : Int)
  /-- Everything that waits is seen. -/
  | look (xs : List α)
  | count (n : Nat)
  | idle

/-- The moves of a queue. -/
inductive Step : Fifo α → Move α → Fifo α → Prop
  | push (q : Fifo α) (xs : List α) :
      Step q (.push xs) ⟨q.arrived ++ xs, q.pos, by have := q.pos_le; simp; omega⟩
  | take (q : Fifo α) {n : Nat} (hn : q.pos + n ≤ q.arrived.length) :
      Step q (.take n (q.waiting.take n)) ⟨q.arrived, q.pos + n, hn⟩
  | shift {q q' : Fifo α} {k : Int} (ha : q'.arrived = q.arrived) (hk : (q'.pos : Int) = q.pos + k) :
      Step q (.shift k) q'
  | look (q : Fifo α) : Step q (.look q.waiting) q
  | count (q : Fifo α) : Step q (.count q.waiting.length) q
  | idle (q : Fifo α) : Step q .idle q

/-- A sequence of moves. -/
inductive Runs : Fifo α → List (Move α) → Fifo α → Prop
  | nil (q : Fifo α) : Runs q [] q
  | snoc {q q₁ q₂ : Fifo α} {ms : List (Move α)} {m : Move α} (h : Runs q ms q₁) (hm : Step q₁ m q₂) :
      Runs q (ms ++ [m]) q₂

/-- What the moves push, in order. -/
def pushed (ms : List (Move α)) : List α :=
  ms.flatMap fun | .push xs => xs | _ => []

/-- What the moves take, in order. -/
def taken (ms : List (Move α)) : List α :=
  ms.flatMap fun | .take _ xs => xs | _ => []

/-- No move of the cursor but by taking. -/
def Straight (ms : List (Move α)) : Prop := ∀ k, .shift k ∉ ms

/-- Everything that was pushed has arrived, in order. -/
theorem Runs.arrived {q q' : Fifo α} {ms : List (Move α)} (h : Runs q ms q') :
    q'.arrived = q.arrived ++ pushed ms := by
  induction h with
  | nil => simp [pushed]
  | snoc _ hm ih =>
    cases hm with
    | push => simp [ih, pushed]
    | take => simp [ih, pushed]
    | shift ha _ => simp [ha, ih, pushed]
    | look => simp [ih, pushed]
    | count => simp [ih, pushed]
    | idle => simp [ih, pushed]

/-- **First in, first out.**  Without a move of the cursor, what is taken and what waits is what
waited and what was pushed. -/
theorem Runs.in_order {q q' : Fifo α} {ms : List (Move α)} (h : Runs q ms q') (hs : Straight ms) :
    taken ms ++ q'.waiting = q.waiting ++ pushed ms := by
  induction h with
  | nil => simp [taken, pushed]
  | @snoc q₁ q₂ ms m hr hm ih =>
    have ih := ih fun k hk => hs k (List.mem_append_left _ hk)
    cases hm with
    | push xs =>
      have hle := q₁.pos_le
      simp only [taken, pushed, waiting] at ih ⊢
      simp [List.drop_append_of_le_length hle, ← List.append_assoc, ih]
    | @take n hn =>
      -- the cursor goes on by what is seen
      have hw : q₁.waiting = q₁.waiting.take n ++ q₁.arrived.drop (q₁.pos + n) := by
        rw [← List.drop_drop, ← waiting, List.take_append_drop]
      rw [hw] at ih
      simpa [taken, pushed, waiting] using ih
    | shift => exact absurd (List.mem_append_right _ (List.mem_singleton.2 rfl)) (hs _)
    | look => simpa [taken, pushed] using ih
    | count => simpa [taken, pushed] using ih
    | idle => simpa [taken, pushed] using ih

end Fifo

end HttpProxy
