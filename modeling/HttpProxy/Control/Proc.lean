import Mathlib.Tactic

/-!
# Procedures that may be left early

A procedure works on a state and either comes back with a value or is left at
once, as by a `return` in the middle of a loop; the state it had reached stays.

* `Proc.Spec` — what a procedure guarantees, for a normal end and for an exit, with
  one rule for each way to build procedures.
* `Proc.Keeps` — the special case of an invariant.
* `Proc.forever` — a loop without end, cut off after a number of turns.
* `Proc.Turns`, `Proc.forever_of_turns` — the states between the turns of a loop, and what
  holds of a run whose turns each start in a state that meets a condition.
-/

namespace HttpProxy

/-- A procedure on states `σ` that is left early with an `ε`. -/
def Proc (σ ε α : Type) : Type := σ → Except ε α × σ

namespace Proc

variable {σ τ ε α β : Type}

instance : Monad (Proc σ ε) where
  pure a := fun s => (.ok a, s)
  bind x f := fun s =>
    match x s with
    | (.ok a, s') => f a s'
    | (.error e, s') => (.error e, s')

/-- Leave the procedure. -/
def exit (e : ε) : Proc σ ε α := fun s => (.error e, s)

/-- The state. -/
def get : Proc σ ε σ := fun s => (.ok s, s)

/-- Change the state. -/
def modify (f : σ → σ) : Proc σ ε Unit := fun s => (.ok (), f s)

/-- Repeat `body`, which ends only by an exit; after `fuel` turns leave with `out`. -/
def forever (out : ε) (body : Proc σ ε Unit) : Nat → Proc σ ε Unit
  | 0 => exit out
  | fuel + 1 => do
      body
      forever out body fuel

theorem bind_ok {x : Proc σ ε α} {f : α → Proc σ ε β} {s s' : σ} {a : α}
    (h : x s = (.ok a, s')) : (x >>= f) s = f a s' := by
  show (match x s with | (.ok a, s') => f a s' | (.error e, s') => (.error e, s')) = _
  rw [h]

theorem bind_error {x : Proc σ ε α} {f : α → Proc σ ε β} {s s' : σ} {e : ε}
    (h : x s = (.error e, s')) : (x >>= f) s = (.error e, s') := by
  show (match x s with | (.ok a, s') => f a s' | (.error e, s') => (.error e, s')) = _
  rw [h]

theorem bind_assoc {γ : Type} (x : Proc σ ε α) (f : α → Proc σ ε β) (g : β → Proc σ ε γ) :
    x >>= f >>= g = x >>= fun a => f a >>= g := by
  funext s
  cases hx : x s with
  | mk res s' =>
    cases res with
    | error e => rw [bind_error (bind_error hx), bind_error hx]
    | ok a =>
      rw [bind_ok hx]
      cases hf : f a s' with
      | mk res' s'' =>
        cases res' with
        | error e => rw [bind_error ((bind_ok hx).trans hf), bind_error hf]
        | ok b => rw [bind_ok ((bind_ok hx).trans hf), bind_ok hf]

@[simp] theorem pure_apply (a : α) (s : σ) : (pure a : Proc σ ε α) s = (.ok a, s) := rfl

@[simp] theorem exit_apply (e : ε) (s : σ) : (exit e : Proc σ ε α) s = (.error e, s) := rfl

@[simp] theorem get_apply (s : σ) : (get : Proc σ ε σ) s = (.ok s, s) := rfl

@[simp] theorem modify_apply (f : σ → σ) (s : σ) :
    (modify f : Proc σ ε Unit) s = (.ok (), f s) := rfl

/-! ## Pre- and postconditions -/

/-- From every state with `P`, the procedure ends with a value and a state that
satisfy `Q`, or is left with an exit and a state that satisfy `E`. -/
def Spec (P : σ → Prop) (x : Proc σ ε α) (Q : α → σ → Prop) (E : ε → σ → Prop) : Prop :=
  ∀ s, P s →
    match x s with
    | (.ok a, s') => Q a s'
    | (.error e, s') => E e s'

section Rules

variable {P P' : σ → Prop} {x : Proc σ ε α} {f : α → Proc σ ε β} {Q Q' : α → σ → Prop}
  {R : β → σ → Prop} {E E' : ε → σ → Prop}

theorem Spec.pure {a : α} (h : ∀ s, P s → Q a s) : Spec P (Pure.pure a : Proc σ ε α) Q E :=
  fun s hs => h s hs

theorem Spec.exit {e : ε} (h : ∀ s, P s → E e s) : Spec P (exit e : Proc σ ε α) Q E :=
  fun s hs => h s hs

theorem Spec.modify {g : σ → σ} {Q : Unit → σ → Prop} (h : ∀ s, P s → Q () (g s)) :
    Spec P (modify g : Proc σ ε Unit) Q E :=
  fun s hs => h s hs

theorem Spec.bind (hx : Spec P x Q E) (hf : ∀ a, Spec (Q a) (f a) R E) :
    Spec P (x >>= f) R E := by
  intro s hs
  have h1 := hx s hs
  cases hxs : x s with
  | mk res s' =>
    rw [hxs] at h1
    cases res with
    | ok a =>
      rw [bind_ok hxs]
      exact hf a s' h1
    | error e =>
      rw [bind_error hxs]
      exact h1

theorem Spec.conseq (h : Spec P x Q E) (hP : ∀ s, P' s → P s) (hQ : ∀ a s, Q a s → Q' a s)
    (hE : ∀ e s, E e s → E' e s) : Spec P' x Q' E' := by
  intro s hs
  have h1 := h s (hP s hs)
  cases hx : x s with
  | mk res s' =>
    rw [hx] at h1
    cases res with
    | ok a => exact hQ a s' h1
    | error e => exact hE e s' h1

theorem Spec.ite {c : Prop} [Decidable c] {y : Proc σ ε α}
    (hx : c → Spec P x Q E) (hy : ¬ c → Spec P y Q E) : Spec P (if c then x else y) Q E := by
  split_ifs with hc
  · exact hx hc
  · exact hy hc

theorem Spec.and (h : Spec P x Q E) (h' : Spec P x Q' E') :
    Spec P x (fun a s => Q a s ∧ Q' a s) (fun e s => E e s ∧ E' e s) := by
  intro s hs
  have h1 := h s hs
  have h2 := h' s hs
  cases hx : x s with
  | mk res s' =>
    rw [hx] at h1 h2
    cases res with
    | ok a => exact ⟨h1, h2⟩
    | error e => exact ⟨h1, h2⟩

/-- What holds of a procedure holds of one that does the same. -/
theorem Spec.of_eq {y : Proc σ ε α} {s : σ} (h : x s = y s) (hy : Spec (· = s) y Q E) :
    Spec (· = s) x Q E := by
  rintro s' rfl
  rw [h]
  exact hy s' rfl

/-- A loop keeps what one turn keeps. -/
theorem Spec.forever {out : ε} {body : Proc σ ε Unit} (hbody : Spec P body (fun _ => P) E)
    (hout : ∀ s, P s → E out s) (fuel : Nat) :
    Spec P (forever out body fuel) (fun _ _ => False) E := by
  induction fuel with
  | zero => exact Spec.exit hout
  | succ fuel ih => exact Spec.bind hbody fun _ => ih

end Rules

/-- `I` is an invariant, whatever way the procedure ends. -/
def Keeps (I : σ → Prop) (x : Proc σ ε α) : Prop := Spec I x (fun _ => I) (fun _ => I)

theorem Keeps.apply {I : σ → Prop} {x : Proc σ ε α} (h : Keeps I x) {s : σ} (hs : I s) :
    I (x s).2 := by
  have h1 := h s hs
  cases hx : x s with
  | mk res s' =>
    rw [hx] at h1
    cases res with
    | ok a => exact h1
    | error e => exact h1

section Keeps

variable {I : σ → Prop} {x y : Proc σ ε α} {f : α → Proc σ ε β}

theorem Keeps.pure {a : α} : Keeps I (Pure.pure a : Proc σ ε α) := Spec.pure fun _ h => h

theorem Keeps.exit {e : ε} : Keeps I (exit e : Proc σ ε α) := Spec.exit fun _ h => h

theorem Keeps.modify {g : σ → σ} (h : ∀ s, I s → I (g s)) : Keeps I (modify g : Proc σ ε Unit) :=
  Spec.modify h

theorem Keeps.bind (hx : Keeps I x) (hf : ∀ a, Keeps I (f a)) : Keeps I (x >>= f) :=
  Spec.bind hx hf

theorem Keeps.ite {c : Prop} [Decidable c] (hx : Keeps I x) (hy : Keeps I y) :
    Keeps I (if c then x else y) :=
  Spec.ite (fun _ => hx) fun _ => hy

theorem Keeps.forever {out : ε} {body : Proc σ ε Unit} (h : Keeps I body) (fuel : Nat) :
    Keeps I (forever out body fuel) :=
  (Spec.forever h (fun _ hs => hs) fuel).conseq (fun _ h => h) (fun _ _ h => h.elim) fun _ _ h => h

end Keeps

theorem keeps_of_apply {I : σ → Prop} {x : Proc σ ε α} (h : ∀ s, I s → I (x s).2) : Keeps I x := by
  intro s hs
  have h1 := h s hs
  cases hx : x s with
  | mk res s' =>
    rw [hx] at h1
    cases res with
    | ok a => exact h1
    | error e => exact h1

/-! ## Loops whose turns meet a condition -/

/-- A loop over `body` that starts in `s` comes to the state `s'` between two turns. -/
def Turns (body : Proc σ ε Unit) : σ → σ → Prop :=
  Relation.ReflTransGen fun s s' => body s = (.ok (), s')

/-- The state behind the first `n` turns. -/
def after (body : Proc σ ε Unit) (n : Nat) (s : σ) : σ := (fun s => (body s).2)^[n] s

theorem after_succ (body : Proc σ ε Unit) (n : Nat) (s : σ) :
    after body (n + 1) s = after body n (body s).2 :=
  Function.iterate_succ_apply _ n s

/-- When the turn behind the first `n` ones is left, the states between turns are those behind at
most `n` turns. -/
theorem Turns.eq_after {body : Proc σ ε Unit} {s s' : σ} (h : Turns body s s') {n : Nat}
    (hlast : (body (after body n s)).1.isOk = false) : ∃ k ≤ n, s' = after body k s := by
  induction n generalizing s with
  | zero =>
    rcases Relation.ReflTransGen.cases_head h with rfl | ⟨s₁, h1, -⟩
    · exact ⟨0, le_rfl, rfl⟩
    · rw [after, Function.iterate_zero_apply, h1] at hlast
      cases hlast
  | succ n ih =>
    rcases Relation.ReflTransGen.cases_head h with rfl | ⟨s₁, h1, h2⟩
    · exact ⟨0, Nat.zero_le _, rfl⟩
    · obtain rfl : (body s).2 = s₁ := by rw [h1]
      rw [after_succ] at hlast
      obtain ⟨k, hk, rfl⟩ := ih h2 hlast
      exact ⟨k + 1, Nat.succ_le_succ hk, (after_succ body k s).symm⟩

/-- **Runs whose steps all meet a condition.**  What holds at first and is kept by every turn that
starts in a state with the condition `C` holds between the turns, and what such a turn leaves
behind when it is the last one holds at the end of the run. -/
theorem forever_of_turns {body : Proc σ ε Unit} {I C : σ → Prop} {E : σ → Prop} {out : ε} {s : σ}
    (hbody : Spec (fun s => I s ∧ C s) body (fun _ => I) (fun _ => E)) (hI : ∀ s, I s → E s)
    (hs : I s) (hC : ∀ s', Turns body s s' → C s') (fuel : Nat) : E (forever out body fuel s).2 := by
  induction fuel generalizing s with
  | zero => exact hI s hs
  | succ fuel ih =>
    have h1 := hbody s ⟨hs, hC s .refl⟩
    unfold forever
    cases hb : body s with
    | mk res s₁ =>
      rw [hb] at h1
      cases res with
      | ok a =>
        rw [bind_ok hb]
        exact ih h1 fun s' h => hC s' (.head hb h)
      | error e =>
        rw [bind_error hb]
        exact h1

end Proc

end HttpProxy
