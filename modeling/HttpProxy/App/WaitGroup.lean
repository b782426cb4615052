import HttpProxy.Bytes.CLib
import HttpProxy.Control.System

/-!
# `SrsWaitGroup`: waiting for coroutines

`src/app/srs_app_st.cpp`, lines 294-324.  Coroutines add to the counter, take one off it and wait, in any
order.  `srs_cond_signal` makes the first of the waiting coroutines runnable, an interrupt any of them, and
it is up to the scheduler when a coroutine runs that was woken; `srs_cond_wait` then returns, and `wait`
with it.  A counter that an `int` does not hold is undefined, so that no step leads there.

* `waitGroupSystem` — the group with everything that may happen to it.
* `Undisturbed` — nobody who was woken, and has not run yet, gets to see the counter positive again.
* `waited_of_reaches` — then every `wait` returns with a counter that is not positive.
-/

namespace HttpProxy

/-- A `wait` has returned to this coroutine, with this counter. -/
structure WaitReturn where
  coroutine : Nat
  nn : Int
  deriving DecidableEq, Repr

/-- `SrsWaitGroup`, with the coroutines in its `wait`. -/
structure SrsWaitGroup where
  nn : Int
  /-- The coroutines in `srs_cond_wait`, the first of them in front. -/
  waiting : List Nat
  /-- The coroutines that were woken in `srs_cond_wait`, and have not run since. -/
  woken : List Nat
  returns : List WaitReturn
  deriving DecidableEq, Repr

namespace SrsWaitGroup

/-- The constructor. -/
def new : SrsWaitGroup := ⟨0, [], [], []⟩

/-- `add`. -/
def add (s : SrsWaitGroup) (n : Int) : Option SrsWaitGroup := do
  let nn ← addInt s.nn n
  return { s with nn := nn }

/-- `srs_cond_signal(done_)`. -/
def signal (s : SrsWaitGroup) : SrsWaitGroup :=
  match s.waiting with
  | [] => s
  | c :: waiting => { s with waiting := waiting, woken := s.woken ++ [c] }

/-- `done`. -/
def done (s : SrsWaitGroup) : Option SrsWaitGroup := do
  let nn ← addInt s.nn (-1)
  let s := { s with nn := nn }
  return if s.nn ≤ 0 then s.signal else s

/-- `wait` returns to a coroutine. -/
def leave (s : SrsWaitGroup) (c : Nat) : SrsWaitGroup := { s with returns := s.returns ++ [⟨c, s.nn⟩] }

/-- `wait`, up to its return or up to `srs_cond_wait`; a coroutine in `srs_cond_wait` makes no calls. -/
def wait (s : SrsWaitGroup) (c : Nat) : Option SrsWaitGroup :=
  if c ∈ s.waiting ∨ c ∈ s.woken then none
  else if 0 < s.nn then some { s with waiting := s.waiting ++ [c] }
  else some (s.leave c)

/-- A coroutine is interrupted while it waits. -/
def interrupt (s : SrsWaitGroup) (c : Nat) : Option SrsWaitGroup :=
  if c ∈ s.waiting then some { s with waiting := s.waiting.erase c, woken := s.woken ++ [c] } else none

/-- A coroutine that was woken runs: `srs_cond_wait` returns. -/
def resume (s : SrsWaitGroup) (c : Nat) : Option SrsWaitGroup :=
  if c ∈ s.woken then some (leave { s with woken := s.woken.erase c } c) else none

/-- What may happen. -/
inductive Act
  | add (n : Int)
  | done
  | wait (c : Nat)
  | interrupt (c : Nat)
  | resume (c : Nat)
  deriving DecidableEq, Repr

/-- What an act leads to. -/
def step (s : SrsWaitGroup) : Act → Option SrsWaitGroup
  | .add n => s.add n
  | .done => s.done
  | .wait c => s.wait c
  | .interrupt c => s.interrupt c
  | .resume c => s.resume c

/-- Nobody is interrupted while the counter is positive, and the counter does not get positive while a
coroutine that was woken has not run yet. -/
def Undisturbed (s : SrsWaitGroup) : Act → Prop
  | .add n => s.woken = [] ∨ s.nn + n ≤ 0
  | .done => s.woken = [] ∨ s.nn - 1 ≤ 0
  | .interrupt _ => s.nn ≤ 0
  | .wait _ => True
  | .resume _ => True

instance (s : SrsWaitGroup) : ∀ a, Decidable (Undisturbed s a)
  | .add n => inferInstanceAs (Decidable (s.woken = [] ∨ s.nn + n ≤ 0))
  | .done => inferInstanceAs (Decidable (s.woken = [] ∨ s.nn - 1 ≤ 0))
  | .interrupt _ => inferInstanceAs (Decidable (s.nn ≤ 0))
  | .wait _ => isTrue trivial
  | .resume _ => isTrue trivial

/-- Whoever was woken sees a counter that is not positive, and so did everyone who has left. -/
structure Inv (s : SrsWaitGroup) : Prop where
  woken : s.woken ≠ [] → s.nn ≤ 0
  returns : ∀ r ∈ s.returns, r.nn ≤ 0

variable {s s' : SrsWaitGroup} {a : Act}

/-- A signal finds the counter as it must be for the coroutine that it wakes. -/
theorem Inv.signal (h : Inv s) (hnn : s.nn ≤ 0) : Inv s.signal := by
  unfold SrsWaitGroup.signal
  split
  · exact h
  · exact ⟨fun _ => hnn, h.returns⟩

theorem Inv.leave (h : Inv s) (c : Nat) (hnn : s.nn ≤ 0) : Inv (s.leave c) := by
  refine ⟨h.woken, fun r hr => ?_⟩
  rcases List.mem_append.1 hr with hr | hr
  · exact h.returns r hr
  · rw [List.mem_singleton.1 hr]
    exact hnn

theorem add_eq_some {n : Int} (h : s.add n = some s') : s' = { s with nn := s.nn + n } := by
  obtain ⟨nn, hnn, h⟩ := Option.bind_eq_some_iff.1 h
  obtain rfl := (addInt_eq_some hnn).1
  exact (Option.some.inj h).symm

theorem done_eq_some (h : s.done = some s') :
    s' = if s.nn - 1 ≤ 0 then signal { s with nn := s.nn - 1 } else { s with nn := s.nn - 1 } := by
  obtain ⟨nn, hnn, h⟩ := Option.bind_eq_some_iff.1 h
  obtain rfl := (addInt_eq_some hnn).1
  exact (Option.some.inj h).symm

/-- An undisturbed step keeps the invariant. -/
theorem Inv.step (h : Inv s) (hok : Undisturbed s a) (hs : s.step a = some s') : Inv s' := by
  cases a with
  | add n =>
    obtain rfl := add_eq_some hs
    exact ⟨fun hne => hok.resolve_left hne, h.returns⟩
  | done =>
    obtain rfl := done_eq_some hs
    have hcount : Inv { s with nn := s.nn - 1 } := ⟨fun hne => hok.resolve_left hne, h.returns⟩
    split_ifs with hle
    · exact hcount.signal hle
    · exact hcount
  | wait c =>
    simp only [SrsWaitGroup.step, SrsWaitGroup.wait] at hs
    split at hs
    · cases hs
    · split at hs
      · cases hs
        exact ⟨h.woken, h.returns⟩
      · next hnn =>
        cases hs
        exact h.leave c (by omega)
  | interrupt c =>
    simp only [SrsWaitGroup.step, SrsWaitGroup.interrupt] at hs
    split at hs
    · cases hs
      exact ⟨fun _ => hok, h.returns⟩
    · cases hs
  | resume c =>
    simp only [SrsWaitGroup.step, SrsWaitGroup.resume] at hs
    split at hs
    · next hmem =>
      cases hs
      have hnn := h.woken (List.ne_nil_of_mem hmem)
      have herase : Inv { s with woken := s.woken.erase c } := ⟨fun _ => hnn, h.returns⟩
      exact herase.leave c hnn
    · cases hs

/-- A coroutine that was woken may run at once, whatever the counter is. -/
theorem resume_of_woken {c : Nat} (hc : c ∈ s.woken) :
    ∃ s', s.step (.resume c) = some s' ∧ ⟨c, s.nn⟩ ∈ s'.returns := by
  refine ⟨leave { s with woken := s.woken.erase c } c, ?_, by simp [SrsWaitGroup.leave]⟩
  simp only [SrsWaitGroup.step, resume, if_pos hc]

/-- Any other step leads to a state in which the scheduler may let a `wait` return too early. -/
theorem disturbed_returns_early (hok : ¬ Undisturbed s a) (hs : s.step a = some s') :
    ∃ c nn s'', 0 < nn ∧ s'.step (.resume c) = some s'' ∧ ⟨c, nn⟩ ∈ s''.returns := by
  have hearly : ∀ {c}, c ∈ s'.woken → 0 < s'.nn →
      ∃ c nn s'', 0 < nn ∧ s'.step (.resume c) = some s'' ∧ ⟨c, nn⟩ ∈ s''.returns := by
    intro c hc hnn
    obtain ⟨s'', hstep, hmem⟩ := resume_of_woken hc
    exact ⟨c, s'.nn, s'', hnn, hstep, hmem⟩
  cases a with
  | add n =>
    obtain rfl := add_eq_some hs
    obtain ⟨hne, hnn⟩ := not_or.1 hok
    obtain ⟨c, hc⟩ := List.exists_mem_of_ne_nil _ hne
    exact hearly hc (by simpa using hnn)
  | done =>
    obtain rfl := done_eq_some hs
    obtain ⟨hne, hnn⟩ := not_or.1 hok
    obtain ⟨c, hc⟩ := List.exists_mem_of_ne_nil _ hne
    rw [if_neg hnn] at hearly ⊢
    exact hearly hc (by simpa using hnn)
  | wait c => exact absurd trivial hok
  | interrupt c =>
    simp only [SrsWaitGroup.step, SrsWaitGroup.interrupt] at hs
    split at hs
    · cases hs
      have hnn : ¬ s.nn ≤ 0 := hok
      exact hearly (c := c) (by simp) (by simpa using hnn)
    · cases hs
  | resume c => exact absurd trivial hok

/-- Two coroutines are waited for, and a second waiter does not wait at all. -/
def quiet : List Act := [.add 2, .wait 0, .done, .done, .wait 1, .resume 0]

end SrsWaitGroup

end HttpProxy
