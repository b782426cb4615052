import Mathlib.Tactic
import Mathlib.Data.List.DropRight

/-!
# Counters that remember the last events

Two ways to keep an eye on a sequence of events, each of which is a hit or not, with a single number
instead of the sequence.

* `hold n` — a hit sets the counter to `n`, every other event takes one off it.  It is positive exactly if
  there was a hit among the last `n` events (`hold_pos_iff`).
* `streak cap` — the counter goes up with every hit, at most to `cap`, and anything else resets it.  It has
  come to `k` exactly if the last `k` events were hits (`le_streak_iff`).
-/

namespace HttpProxy

namespace Pulse

/-- One event of a counter that a hit sets to `n`. -/
def hold (n level : Nat) (hit : Bool) : Nat := if hit then n else level - 1

/-- One event of a counter of hits in a row. -/
def streak (cap level : Nat) (hit : Bool) : Nat := if hit then min cap (level + 1) else 0

variable {n cap k : Nat}

/-- The counter is above `k` as long as the last hit is less than `n - k` events ago. -/
theorem lt_hold_iff (hits : List Bool) : k < hits.foldl (hold n) 0 ↔ true ∈ hits.rtake (n - k) := by
  induction hits using List.reverseRecOn generalizing k with
  | nil => simp
  | append_singleton hits hit ih =>
    rw [List.foldl_append, List.foldl_cons, List.foldl_nil]
    cases hd : n - k with
    | zero =>
      rw [List.rtake_zero]
      refine iff_of_false ?_ List.not_mem_nil
      cases hit with
      | true =>
        rw [hold, if_pos rfl]
        omega
      | false =>
        have hold := ih (k := k + 1)
        rw [Nat.sub_succ, hd, Nat.pred_zero, List.rtake_zero] at hold
        have hle : ¬ k + 1 < hits.foldl (Pulse.hold n) 0 := fun h => List.not_mem_nil (hold.1 h)
        rw [Pulse.hold, if_neg (by simp)]
        omega
    | succ d =>
      rw [List.rtake_concat_succ, List.mem_append]
      cases hit with
      | true =>
        rw [hold, if_pos rfl]
        exact iff_of_true (by omega) (Or.inr List.mem_cons_self)
      | false =>
        have hold := ih (k := k + 1)
        rw [Nat.sub_succ, hd, Nat.pred_succ] at hold
        rw [Pulse.hold, if_neg (by simp), ← hold]
        constructor
        · intro h
          exact Or.inl (by omega)
        · rintro (h | h)
          · omega
          · simp at h

/-- There was a hit among the last `n` events. -/
theorem hold_pos_iff (hits : List Bool) : 0 < hits.foldl (hold n) 0 ↔ true ∈ hits.rtake n :=
  lt_hold_iff hits

theorem streak_le (cap : Nat) (hits : List Bool) : hits.foldl (streak cap) 0 ≤ cap := by
  induction hits using List.reverseRecOn with
  | nil => exact Nat.zero_le cap
  | append_singleton hits hit _ =>
    rw [List.foldl_append, List.foldl_cons, List.foldl_nil, streak]
    split
    · exact Nat.min_le_left _ _
    · exact Nat.zero_le cap

/-- The last `k` events were hits. -/
theorem le_streak_iff (hk : k ≤ cap) (hits : List Bool) :
    k ≤ hits.foldl (streak cap) 0 ↔ k ≤ hits.length ∧ ∀ hit ∈ hits.rtake k, hit = true := by
  induction hits using List.reverseRecOn generalizing k with
  | nil => simp
  | append_singleton hits hit ih =>
    rw [List.foldl_append, List.foldl_cons, List.foldl_nil]
    cases k with
    | zero => simp
    | succ k =>
      rw [List.rtake_concat_succ, List.length_append, List.length_singleton]
      cases hit with
      | true =>
        have hrest := ih (k := k) (by omega)
        rw [streak, if_pos rfl]
        constructor
        · intro h
          obtain ⟨hlen, hall⟩ := hrest.1 (by omega)
          refine ⟨by omega, fun hit hmem => ?_⟩
          rcases List.mem_append.1 hmem with hmem | hmem
          · exact hall hit hmem
          · exact List.mem_singleton.1 hmem
        · rintro ⟨hlen, hall⟩
          have hlevel := hrest.2 ⟨by omega, fun hit hmem => hall hit (List.mem_append_left _ hmem)⟩
          omega
      | false =>
        rw [streak, if_neg (by simp)]
        refine iff_of_false (by omega) ?_
        rintro ⟨-, hall⟩
        exact absurd (hall false (List.mem_append_right _ List.mem_cons_self)) (by simp)

end Pulse

end HttpProxy
