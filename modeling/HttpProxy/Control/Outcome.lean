import Mathlib.Tactic

/-!
# Outcomes of calls

A call returns a value, returns an error, or does neither.

* `Outcome`, `Outcome.bind` — outcomes, and calls in sequence.
* `Outcome.Below` — the order in which a run that has not ended is below every other; `bind` respects
  it, so that a function given more fuel returns what it returned before.
-/

namespace HttpProxy

/-- Ways not to return. -/
inductive Fault
  /-- `at` throws. -/
  | outOfRange
  /-- A string is asked for that is longer than a string can be, which throws. -/
  | lengthError
  /-- Memory is read or written outside of a buffer. -/
  | outOfBounds
  /-- A function that has a result ends without a `return`. -/
  | noReturn
  /-- A member of an object that is NULL is used. -/
  | nullDereference
  /-- `srs_assert` fails. -/
  | assertFailed
  /-- The calls go on. -/
  | endless
  deriving DecidableEq

/-- What becomes of a call. -/
inductive Outcome (ε α : Type)
  | done (a : α)
  | failed (err : ε)
  | fault (f : Fault)
  deriving DecidableEq

namespace Outcome

variable {ε α β : Type}

/-- A call, and what comes after it when it has returned a value. -/
def bind : Outcome ε α → (α → Outcome ε β) → Outcome ε β
  | done a, f => f a
  | failed err, _ => failed err
  | fault x, _ => fault x

@[simp] theorem bind_done {a : α} {f : α → Outcome ε β} : (done a).bind f = f a := rfl

@[simp] theorem bind_failed {err : ε} {f : α → Outcome ε β} : (failed err).bind f = failed err := rfl

@[simp] theorem bind_fault {x : Fault} {f : α → Outcome ε β} : (fault x).bind f = fault x := rfl

/-- The use of a pointer, which may be NULL. -/
def deref : Option α → Outcome ε α
  | none => fault .nullDereference
  | some a => done a

@[simp] theorem deref_none : (deref none : Outcome ε α) = fault .nullDereference := rfl

@[simp] theorem deref_some {a : α} : (deref (some a) : Outcome ε α) = done a := rfl

theorem bind_eq_done {x : Outcome ε α} {f : α → Outcome ε β} {b : β} :
    x.bind f = done b ↔ ∃ a, x = done a ∧ f a = done b := by
  cases x <;> simp

/-- The call returns, with a value or an error. -/
def Returns : Outcome ε α → Prop
  | done _ => True
  | failed _ => True
  | fault _ => False

theorem Returns.cases {x : Outcome ε α} (h : x.Returns) : (∃ a, x = done a) ∨ ∃ err, x = failed err := by
  cases x with
  | done a => exact Or.inl ⟨a, rfl⟩
  | failed err => exact Or.inr ⟨err, rfl⟩
  | fault f => exact absurd h id

/-- The call has not ended, or it has ended in this way. -/
def Below (x y : Outcome ε α) : Prop := x = fault .endless ∨ x = y

theorem Below.refl (x : Outcome ε α) : Below x x := Or.inr rfl

theorem Below.done_eq {x y : Outcome ε α} {a : α} (h : Below x y) (hx : x = done a) : y = done a := by
  rcases h with h | h
  · rw [h] at hx
    cases hx
  · exact h ▸ hx

theorem bind_below {x y : Outcome ε α} {f g : α → Outcome ε β} (hx : Below x y)
    (hf : ∀ a, Below (f a) (g a)) : Below (x.bind f) (y.bind g) := by
  rcases hx with rfl | rfl
  · exact Or.inl rfl
  · cases x with
    | done a => exact hf a
    | failed err => exact .refl _
    | fault f => exact .refl _

end Outcome

end HttpProxy
