import Mathlib.Tactic

/-!
# Loops

A `while` loop is the function of its turn: `none` where the condition fails, and otherwise the
variables as the turn leaves them.

* `loop` — the variables behind the loop, if it ends within a number of turns.
* `PassesThrough` — the variables that a loop passes through; `PassesThrough.invariant` is the rule.
* `loop_ends` — a loop ends if every turn makes a measure smaller.
* `loop_rel`, `passes_rel` — two loops that go in step.
-/

namespace HttpProxy

variable {σ τ : Type} {turn : σ → Option σ} {s s' : σ} {n : Nat}

/-- The variables behind a loop; `none` if it does not end in fewer than `n` turns. -/
def loop (turn : σ → Option σ) : Nat → σ → Option σ
  | 0, _ => none
  | n + 1, s =>
      match turn s with
      | none => some s
      | some s' => loop turn n s'

/-- The variables that a loop passes through. -/
def PassesThrough (turn : σ → Option σ) : σ → σ → Prop := Relation.ReflTransGen fun s s' => turn s = some s'

theorem PassesThrough.refl : PassesThrough turn s s := Relation.ReflTransGen.refl

/-- What every turn keeps is an invariant. -/
theorem PassesThrough.invariant {I : σ → Prop} (hstep : ∀ s s', I s → turn s = some s' → I s')
    (h : PassesThrough turn s s') (hI : I s) : I s' := by
  induction h with
  | refl => exact hI
  | tail _ hturn ih => exact hstep _ _ ih hturn

/-- A loop ends in a state that it passes through, and where the condition fails. -/
theorem passes_of_loop (h : loop turn n s = some s') : PassesThrough turn s s' ∧ turn s' = none := by
  induction n generalizing s with
  | zero => cases h
  | succ n ih =>
    rw [loop] at h
    cases hturn : turn s with
    | none =>
      rw [hturn] at h
      cases h
      exact ⟨PassesThrough.refl, hturn⟩
    | some t =>
      rw [hturn] at h
      obtain ⟨hpass, hend⟩ := ih h
      exact ⟨Relation.ReflTransGen.head hturn hpass, hend⟩

/-- A loop ends if every turn makes a measure smaller. -/
theorem loop_ends {I : σ → Prop} (μ : σ → Nat) (hstep : ∀ s s', I s → turn s = some s' → I s' ∧ μ s' < μ s)
    (hI : I s) : ∃ s', loop turn (μ s + 1) s = some s' := by
  have hany : ∀ n, ∀ s, I s → μ s < n → ∃ s', loop turn n s = some s' := by
    intro n
    induction n with
    | zero => exact fun s _ hn => absurd hn (Nat.not_lt_zero _)
    | succ n ih =>
      intro s hI hn
      rw [loop]
      cases hturn : turn s with
      | none => exact ⟨s, rfl⟩
      | some t =>
        obtain ⟨hI', hlt⟩ := hstep s t hI hturn
        exact ih t hI' (by omega)
  exact hany _ s hI (Nat.lt_succ_self _)

/-! ## Loops that go in step -/

section Rel

variable {f : σ → Option σ} {g : τ → Option τ} {R : σ → τ → Prop} {t : τ}

/-- Two loops that go in step end together, and in related states. -/
theorem loop_rel (hstep : ∀ s t, R s t → Option.Rel R (f s) (g t)) (hR : R s t) (n : Nat) :
    Option.Rel R (loop f n s) (loop g n t) := by
  induction n generalizing s t with
  | zero => exact Option.Rel.none
  | succ n ih =>
    have hturn := hstep s t hR
    rw [loop, loop]
    cases hf : f s with
    | none =>
      cases hg : g t with
      | none => exact Option.Rel.some hR
      | some t' => rw [hf, hg] at hturn; cases hturn
    | some s' =>
      cases hg : g t with
      | none => rw [hf, hg] at hturn; cases hturn
      | some t' =>
        rw [hf, hg] at hturn
        cases hturn with
        | some h => exact ih h

/-- Where the one passes through, the other is in a related state. -/
theorem passes_rel (hstep : ∀ s t, R s t → Option.Rel R (f s) (g t)) (hR : R s t)
    (h : PassesThrough f s s') : ∃ t', PassesThrough g t t' ∧ R s' t' := by
  induction h with
  | refl => exact ⟨t, PassesThrough.refl, hR⟩
  | tail _ hturn ih =>
    obtain ⟨t₁, hpass, hR₁⟩ := ih
    have hrel := hstep _ _ hR₁
    rw [hturn] at hrel
    cases hg : g t₁ with
    | none => rw [hg] at hrel; cases hrel
    | some t₂ =>
      rw [hg] at hrel
      cases hrel with
      | some h => exact ⟨t₂, Relation.ReflTransGen.tail hpass hg, h⟩

end Rel

end HttpProxy
