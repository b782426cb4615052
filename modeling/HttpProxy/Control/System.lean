import Mathlib.Tactic

/-!
# Systems that act step by step

A system has a state and acts, and in a state some acts are possible.  Several parties that take
turns are one system: an act says who does what.

* `System.Reaches` — the states that are reached by acts which all meet a condition.
* `System.Reaches.invariant` — what holds at first and is kept by every such act holds in all of them.
* `System.run` — the state behind a given sequence of acts; `System.run_invariant` is the rule for it.
* `Always` — what holds of every entry of a log, given the entries in front of it.
-/

namespace HttpProxy

/-- The state at the start, and what an act leads to; `none` where it is not possible. -/
structure System (σ α : Type) where
  init : σ
  step : σ → α → Option σ

namespace System

variable {σ α : Type} {S : System σ α} {ok : σ → α → Prop}

/-- The states that are reached by acts that meet the condition `ok` in the states where they are
taken. -/
inductive Reaches (S : System σ α) (ok : σ → α → Prop) : σ → Prop
  | init : Reaches S ok S.init
  | step {s s' : σ} {a : α} (h : Reaches S ok s) (hok : ok s a) (hs : S.step s a = some s') :
      Reaches S ok s'

/-- What every act keeps is an invariant. -/
theorem Reaches.invariant {I : σ → Prop} (hinit : I S.init)
    (hstep : ∀ s s' a, I s → ok s a → S.step s a = some s' → I s') {s : σ} (h : Reaches S ok s) : I s := by
  induction h with
  | init => exact hinit
  | step _ hok hs ih => exact hstep _ _ _ ih hok hs

/-- The state behind a sequence of acts. -/
def run (S : System σ α) : List α → σ → Option σ
  | [], s => some s
  | a :: acts, s =>
      match S.step s a with
      | some s' => run S acts s'
      | none => none

/-- What every act of a sequence keeps holds behind it. -/
theorem run_invariant {I : σ → Prop} {acts : List α} {s s' : σ}
    (hstep : ∀ a ∈ acts, ∀ s s', I s → S.step s a = some s' → I s') (hI : I s)
    (h : S.run acts s = some s') : I s' := by
  induction acts generalizing s with
  | nil => exact Option.some.inj h ▸ hI
  | cons a acts ih =>
    rw [run] at h
    cases ha : S.step s a with
    | none => rw [ha] at h; cases h
    | some s₁ =>
      rw [ha] at h
      exact ih (fun b hb => hstep b (List.mem_cons_of_mem a hb)) (hstep a List.mem_cons_self s s₁ hI ha) h

/-- A sequence of acts that all meet the condition where they are taken. -/
def Meets (S : System σ α) (ok : σ → α → Prop) : List α → σ → Prop
  | [], _ => True
  | a :: acts, s =>
      ok s a ∧ match S.step s a with
        | some s' => Meets S ok acts s'
        | none => True

instance decidableMeets (S : System σ α) (ok : σ → α → Prop) [∀ s a, Decidable (ok s a)] :
    ∀ acts s, Decidable (S.Meets ok acts s)
  | [], _ => isTrue trivial
  | a :: acts, s =>
      have : Decidable (match S.step s a with | some s' => Meets S ok acts s' | none => True) :=
        match S.step s a with
        | some s' => decidableMeets S ok acts s'
        | none => isTrue trivial
      inferInstanceAs (Decidable (ok s a ∧ _))

/-- The state behind such a sequence is reached. -/
theorem reaches_of_run {acts : List α} {s s' : σ} (hs : Reaches S ok s) (hm : S.Meets ok acts s)
    (h : S.run acts s = some s') : Reaches S ok s' := by
  induction acts generalizing s with
  | nil => exact Option.some.inj h ▸ hs
  | cons a acts ih =>
    unfold run at h
    unfold Meets at hm
    cases hstep : S.step s a with
    | some s₁ =>
      rw [hstep] at h hm
      exact ih (.step hs hm.1 hstep) hm.2 h
    | none =>
      rw [hstep] at h
      cases h

end System

/-! ## Logs -/

section Log

variable {ε : Type} {P : List ε → ε → Prop} {log : List ε} {e : ε}

/-- `P` holds of every entry and the entries in front of it. -/
def Always (P : List ε → ε → Prop) (log : List ε) : Prop :=
  ∀ pre e post, log = pre ++ e :: post → P pre e

theorem always_nil : Always P [] := by
  intro pre e post h
  exact absurd h.symm (by simp)

/-- A log goes on with one entry at a time. -/
theorem Always.concat (h : Always P log) (he : P log e) : Always P (log ++ [e]) := by
  intro pre d post heq
  rcases List.eq_nil_or_concat post with rfl | ⟨post', b, rfl⟩
  · obtain ⟨rfl, hd⟩ := List.append_inj' heq rfl
    rw [List.singleton_inj] at hd
    exact hd ▸ he
  · rw [List.concat_eq_append, ← List.cons_append, ← List.append_assoc] at heq
    exact h pre d post' (List.append_inj' heq rfl).1

end Log

end HttpProxy
