import HttpProxy.Bytes.CLib
import Mathlib.Data.List.Nodup

/-!
# `SrsFastTimer`: handlers that come and go

`src/app/srs_app_hourglass.cpp`, lines 35-73.  A pass of `cycle` goes over the vector of handlers by
index and calls each; what a call does to the vector, by itself or through the coroutines that run
meanwhile, is a list of operations, any list for any call.

* `SrsFastTimer` — the handlers, each of them once; `subscribe`, `unsubscribe`.
* `pass` — the calls of a pass; `Calls` says which call goes to which handler.
* `Fair` — who stays subscribed is called exactly once, and nobody who is not subscribed.
* `Steady` — no call takes a handler away in front of one that stays and is next.
* `fair_iff` — these are the passes that are fair.
-/

namespace HttpProxy

/-- `SrsFastTimer`. -/
structure SrsFastTimer (α : Type) where
  handlers : List α
  nodup : handlers.Nodup

/-- The operations on the vector. -/
inductive TimerOp (α : Type)
  | subscribe (timer : α)
  | unsubscribe (timer : α)
  deriving DecidableEq

namespace SrsFastTimer

variable {α : Type} [DecidableEq α]

/-- `subscribe`. -/
def subscribe (s : SrsFastTimer α) (timer : α) : SrsFastTimer α :=
  if h : timer ∈ s.handlers then s
  else ⟨s.handlers ++ [timer], s.nodup.append (List.nodup_singleton timer) (by simpa using h)⟩

/-- `unsubscribe`. -/
def unsubscribe (s : SrsFastTimer α) (timer : α) : SrsFastTimer α :=
  ⟨s.handlers.erase timer, s.nodup.erase timer⟩

/-- An operation. -/
def apply (s : SrsFastTimer α) : TimerOp α → SrsFastTimer α
  | .subscribe timer => s.subscribe timer
  | .unsubscribe timer => s.unsubscribe timer

/-- `n` turns of the loop of `cycle` over the handlers, from the index `i` on: the handlers that are
called.  The call for the index `k` does the operations `script k`. -/
def pass (script : Nat → List (TimerOp α)) : Nat → Nat → SrsFastTimer α → List α
  | 0, _, _ => []
  | n + 1, i, s =>
      if (i : Int) < toInt32 s.handlers.length then
        match s.handlers[i]? with
        | some timer => timer :: pass script n (i + 1) ((script i).foldl apply s)
        | none => []
      else []

section
variable (script : Nat → List (TimerOp α)) (s₀ : SrsFastTimer α)

/-- The handlers before the call for an index, in a pass that gets there. -/
def before : Nat → SrsFastTimer α
  | 0 => s₀
  | k + 1 => (script k).foldl apply (before k)

/-- The loop gets to the call for the index `k`. -/
def Made (k : Nat) : Prop := ∀ i ≤ k, (i : Int) < toInt32 (before script s₀ i).handlers.length

/-- The call for the index `k` is made, and goes to this handler. -/
def Calls (k : Nat) (timer : α) : Prop :=
  Made script s₀ k ∧ (before script s₀ k).handlers[k]? = some timer

/-- The handler is subscribed during the whole pass. -/
def Stays (timer : α) : Prop :=
  timer ∈ s₀.handlers ∧ ∀ k, Made script s₀ k → .unsubscribe timer ∉ script k

/-- Who stays is called exactly once in the pass, and whoever is called is subscribed then. -/
structure Fair : Prop where
  once : ∀ timer, Stays script s₀ timer → ∃! k, Calls script s₀ k timer
  subscribed : ∀ k timer, Calls script s₀ k timer → timer ∈ (before script s₀ k).handlers

/-- No call takes away the handler at its own index, or one in front of it, while a handler that stays is
right behind; and where the pass ends an `int` counts the handlers, or none that stays is left. -/
structure Steady : Prop where
  places : ∀ k, Made script s₀ k → ∀ pre timer post, script k = pre ++ .unsubscribe timer :: post →
    timer ∈ (pre.foldl apply (before script s₀ k)).handlers.take (k + 1) →
    ∀ a, (pre.foldl apply (before script s₀ k)).handlers[k + 1]? = some a → ¬ Stays script s₀ a
  counted : ∀ k, (∀ i < k, Made script s₀ i) → ¬ Made script s₀ k →
    (before script s₀ k).handlers.length < 2 ^ 31 ∨
      ∀ a ∈ (before script s₀ k).handlers.drop k, ¬ Stays script s₀ a

end

variable {script : Nat → List (TimerOp α)} {s₀ s : SrsFastTimer α} {a timer : α} {op : TimerOp α}
  {ops : List (TimerOp α)} {i j k n : Nat}

/-! ## Places -/

/-- The index of a handler. -/
def place (s : SrsFastTimer α) (timer : α) : Nat := s.handlers.idxOf timer

theorem getElem?_iff_place : s.handlers[k]? = some a ↔ a ∈ s.handlers ∧ s.place a = k := by
  constructor
  · intro h
    obtain ⟨hk, rfl⟩ := List.getElem?_eq_some_iff.1 h
    exact ⟨List.getElem_mem hk, s.nodup.idxOf_getElem k hk⟩
  · rintro ⟨hmem, rfl⟩
    exact List.getElem?_idxOf hmem

/-- Another handler that is taken away in front moves a handler by one. -/
theorem idxOf_erase_of_ne {l : List α} (hne : timer ≠ a) :
    (l.erase timer).idxOf a = if l.idxOf timer < l.idxOf a then l.idxOf a - 1 else l.idxOf a := by
  induction l with
  | nil => simp
  | cons x l ih =>
    by_cases hx : x = timer
    · subst hx
      rw [List.erase_cons_head, List.idxOf_cons_self, List.idxOf_cons_ne l hne]
      simp
    · rw [List.erase_cons_tail (by simpa using hx), List.idxOf_cons_ne l hx]
      by_cases hxa : x = a
      · subst hxa
        simp
      · rw [List.idxOf_cons_ne _ hxa, List.idxOf_cons_ne _ hxa, ih]
        split <;> split <;> omega

/-- An operation on other handlers leaves a handler where it is, or takes one away in front of it. -/
theorem place_apply (ha : a ∈ s.handlers) (hop : op ≠ .unsubscribe a) :
    a ∈ (s.apply op).handlers ∧ ((s.apply op).place a = s.place a ∨
      ∃ timer, op = .unsubscribe timer ∧ timer ∈ s.handlers ∧ s.place timer < s.place a ∧
        (s.apply op).place a + 1 = s.place a) := by
  cases op with
  | subscribe timer =>
    rw [apply, subscribe]
    split
    · exact ⟨ha, Or.inl rfl⟩
    · exact ⟨List.mem_append_left _ ha, Or.inl (List.idxOf_append_of_mem ha)⟩
  | unsubscribe timer =>
    have hne : timer ≠ a := fun heq => hop (heq ▸ rfl)
    refine ⟨(List.mem_erase_of_ne (Ne.symm hne)).2 ha, ?_⟩
    have herase := idxOf_erase_of_ne (l := s.handlers) hne
    simp only [apply, unsubscribe, place, herase]
    split
    · next hlt =>
      have hmem : timer ∈ s.handlers := by
        rw [← List.idxOf_lt_length_iff]
        exact hlt.trans (List.idxOf_lt_length_of_mem ha)
      exact Or.inr ⟨timer, rfl, hmem, hlt, by omega⟩
    · exact Or.inl rfl

/-- Operations on other handlers do not move a handler back. -/
theorem place_foldl_le (ha : a ∈ s.handlers) (hops : .unsubscribe a ∉ ops) :
    a ∈ (ops.foldl apply s).handlers ∧ (ops.foldl apply s).place a ≤ s.place a := by
  induction ops generalizing s with
  | nil => exact ⟨ha, le_rfl⟩
  | cons op ops ih =>
    rw [List.mem_cons, not_or] at hops
    obtain ⟨hmem, hplace⟩ := place_apply ha (Ne.symm hops.1)
    obtain ⟨hmem', hle⟩ := ih hmem hops.2
    refine ⟨hmem', hle.trans ?_⟩
    rcases hplace with heq | ⟨_, _, _, _, heq⟩ <;> omega

/-- A handler behind the index `k` stays behind it, if none is taken away up to there while it is next. -/
theorem lt_place_foldl (ha : a ∈ s.handlers) (hops : .unsubscribe a ∉ ops) (hlt : k < s.place a)
    (hnext : ∀ pre timer post, ops = pre ++ .unsubscribe timer :: post →
      timer ∈ (pre.foldl apply s).handlers.take (k + 1) → (pre.foldl apply s).handlers[k + 1]? ≠ some a) :
    k < (ops.foldl apply s).place a := by
  induction ops generalizing s with
  | nil => exact hlt
  | cons op ops ih =>
    rw [List.mem_cons, not_or] at hops
    obtain ⟨hmem, hplace⟩ := place_apply ha (Ne.symm hops.1)
    refine ih hmem hops.2 ?_ fun pre timer post heq => hnext (op :: pre) timer post (by rw [heq]; rfl)
    rcases hplace with heq | ⟨timer, rfl, htimer, hfront, heq⟩
    · omega
    · by_contra hle
      have htake : timer ∈ s.handlers.take (k + 1) :=
        (List.mem_take_iff_idxOf_lt htimer).2 (show s.place timer < k + 1 by omega)
      have hplace : s.place a = k + 1 := by omega
      exact hnext [] timer ops rfl htake (getElem?_iff_place.2 ⟨ha, hplace⟩)

/-! ## The calls of a pass -/

/-- The calls that the loop makes are those of `Calls`, in their order. -/
theorem pass_getElem? (script : Nat → List (TimerOp α)) (s₀ : SrsFastTimer α) (n k : Nat) (timer : α) :
    (pass script n 0 s₀)[k]? = some timer ↔ k < n ∧ Calls script s₀ k timer := by
  -- from any index on, when the loop has got there
  have hfrom : ∀ n i k, (pass script n i (before script s₀ i))[k]? = some timer ↔ k < n ∧
      (∀ j ≤ k, ((i + j : Nat) : Int) < toInt32 (before script s₀ (i + j)).handlers.length) ∧
      (before script s₀ (i + k)).handlers[i + k]? = some timer := by
    intro n
    induction n with
    | zero => simp [pass]
    | succ n ih =>
      intro i k
      rw [pass]
      split
      · next hi =>
        have hle := toInt32_le (x := ((before script s₀ i).handlers.length : Int)) (by omega)
        have hlen : i < (before script s₀ i).handlers.length := by omega
        rw [List.getElem?_eq_getElem hlen]
        cases k with
        | zero => simp [hi, List.getElem?_eq_getElem hlen]
        | succ k =>
          have hturn := ih (i + 1) k
          rw [before] at hturn
          simp only [List.getElem?_cons_succ, hturn, Nat.add_right_comm i 1, Nat.add_assoc i k,
            Nat.succ_lt_succ_iff]
          refine and_congr_right fun _ => and_congr_left fun _ => ?_
          constructor
          · intro h j hj
            cases j with
            | zero => exact hi
            | succ j => exact h j (by omega)
          · exact fun h j hj => h (j + 1) (by omega)
      · next hi => exact iff_of_false (by simp) fun h => hi (h.2.1 0 (Nat.zero_le k))
  have hall := hfrom n 0 k
  simp only [Nat.zero_add] at hall
  exact hall

theorem Made.of_le (h : Made script s₀ k) (hjk : j ≤ k) : Made script s₀ j := fun i hi => h i (hi.trans hjk)

/-- Where the loop ends. -/
theorem not_lt_of_not_made (hmade : ∀ i < k, Made script s₀ i) (h : ¬ Made script s₀ k) :
    ¬ (k : Int) < toInt32 (before script s₀ k).handlers.length := by
  intro hlt
  refine h fun i hi => ?_
  rcases Nat.lt_or_eq_of_le hi with hi | rfl
  · exact hmade i hi i le_rfl
  · exact hlt

/-- Who stays is there before every call, and never moves back. -/
theorem Stays.place_le (h : Stays script s₀ a) (hmade : ∀ i < k, Made script s₀ i) :
    a ∈ (before script s₀ k).handlers ∧
      ∀ j ≤ k, (before script s₀ k).place a ≤ (before script s₀ j).place a := by
  induction k with
  | zero => exact ⟨h.1, fun j hj => by rw [Nat.le_zero.1 hj]⟩
  | succ k ih =>
    obtain ⟨hmem, hle⟩ := ih fun i hi => hmade i (by omega)
    obtain ⟨hmem', hle'⟩ := place_foldl_le hmem (h.2 k (hmade k (by omega)))
    refine ⟨hmem', fun j hj => ?_⟩
    rcases Nat.lt_or_eq_of_le hj with hj | rfl
    · exact hle'.trans (hle j (by omega))
    · exact le_rfl

theorem Calls.place_eq (h : Calls script s₀ k a) : (before script s₀ k).place a = k :=
  (getElem?_iff_place.1 h.2).2

/-- Who stays is not called twice: behind its call it stands in front of the index. -/
theorem Stays.calls_unique (h : Stays script s₀ a) (hj : Calls script s₀ j a) (hk : Calls script s₀ k a) :
    j = k := by
  rcases Nat.lt_trichotomy j k with hlt | heq | hlt
  · have hle := (h.place_le fun i hi => hk.1.of_le (by omega)).2 j hlt.le
    rw [hj.place_eq, hk.place_eq] at hle
    omega
  · exact heq
  · have hle := (h.place_le fun i hi => hj.1.of_le (by omega)).2 k hlt.le
    rw [hj.place_eq, hk.place_eq] at hle
    omega

/-- In a steady pass who stays has been called, or does not stand in front of the index. -/
theorem Steady.called_or_le (hs : Steady script s₀) (h : Stays script s₀ a)
    (hmade : ∀ i < k, Made script s₀ i) :
    (∃ j, Calls script s₀ j a) ∨ k ≤ (before script s₀ k).place a := by
  induction k with
  | zero => exact Or.inr (Nat.zero_le _)
  | succ k ih =>
    have hk := hmade k (by omega)
    rcases ih fun i hi => hmade i (by omega) with hcalled | hle
    · exact Or.inl hcalled
    · have hmem := (h.place_le (k := k) fun i hi => hmade i (by omega)).1
      rcases Nat.lt_or_eq_of_le hle with hlt | heq
      · refine Or.inr (lt_place_foldl hmem (h.2 k hk) hlt fun pre timer post hops htake hnext => ?_)
        exact hs.places k hk pre timer post hops htake a hnext h
      · exact Or.inl ⟨k, hk, getElem?_iff_place.2 ⟨hmem, heq.symm⟩⟩

/-- In a steady pass who stays is called. -/
theorem Steady.called (hs : Steady script s₀) (h : Stays script s₀ a) : ∃ k, Calls script s₀ k a := by
  by_cases hall : ∀ i < s₀.place a + 1, Made script s₀ i
  · -- the index has got behind the place at the start
    rcases hs.called_or_le h hall with hcalled | hle
    · exact hcalled
    · have := (h.place_le hall).2 0 (Nat.zero_le _)
      have hzero : (before script s₀ 0).place a = s₀.place a := rfl
      omega
  · -- the pass has ended
    have hex : ∃ k, ¬ Made script s₀ k := by
      by_contra hno
      exact hall fun i _ => not_not.1 fun hi => hno ⟨i, hi⟩
    obtain ⟨k, hk, hmin⟩ : ∃ k, ¬ Made script s₀ k ∧ ∀ i < k, Made script s₀ i := by
      classical
      exact ⟨Nat.find hex, Nat.find_spec hex, fun j hj => not_not.1 (Nat.find_min hex hj)⟩
    rcases hs.called_or_le h hmin with hcalled | hle
    · exact hcalled
    · have hmem := (h.place_le hmin).1
      have hget := getElem?_iff_place.2 ⟨hmem, rfl⟩
      have hlt : (before script s₀ k).place a < (before script s₀ k).handlers.length :=
        List.idxOf_lt_length_of_mem hmem
      have hend := not_lt_of_not_made hmin hk
      rcases hs.counted k hmin hk with hcount | hleft
      · rw [toInt32_eq_self (by omega) (by omega)] at hend
        omega
      · refine absurd h (hleft a (List.mem_iff_getElem?.2 ⟨(before script s₀ k).place a - k, ?_⟩))
        rw [List.getElem?_drop, Nat.add_sub_cancel' hle]
        exact hget

/-- In a fair pass nobody who stays is passed over, so nobody is moved in front of the index. -/
theorem Fair.steady (hf : Fair script s₀) : Steady script s₀ := by
  constructor
  · intro k hk pre timer post hops htake a hnext h
    -- the handler is behind the index before, and not behind it any more afterwards
    obtain ⟨j, hj, -⟩ := hf.once a h
    have hscript := h.2 k hk
    rw [hops, List.mem_append, List.mem_cons, not_or, not_or] at hscript
    obtain ⟨hmem, hle⟩ := h.place_le fun i hi => hk.of_le (le_of_lt hi)
    obtain ⟨hmem', hle'⟩ := place_foldl_le hmem hscript.1
    have hnextPlace := (getElem?_iff_place.1 hnext).2
    have htimer := List.mem_of_mem_take htake
    have hfront : place (pre.foldl apply (before script s₀ k)) timer < k + 1 :=
      (List.mem_take_iff_idxOf_lt htimer).1 htake
    have hne : timer ≠ a := fun heq => hscript.2.1 (heq ▸ rfl)
    have hmoved : place ((pre.foldl apply (before script s₀ k)).apply (.unsubscribe timer)) a = k := by
      have herase := idxOf_erase_of_ne (l := (pre.foldl apply (before script s₀ k)).handlers) hne
      simp only [place] at hnextPlace hfront
      simp only [place, apply, unsubscribe, herase]
      rw [if_pos (by omega)]
      omega
    have hmem'' := (place_apply hmem' (Ne.symm hscript.2.1)).1
    have hrest := (place_foldl_le hmem'' hscript.2.2).2
    have hafter : (before script s₀ (k + 1)).place a ≤ k := by
      rw [before, hops, List.foldl_append, List.foldl_cons]
      omega
    rcases Nat.lt_or_ge k j with hkj | hjk
    · have := (h.place_le fun i hi => hj.1.of_le (le_of_lt hi)).2 (k + 1) hkj
      rw [hj.place_eq] at this
      omega
    · have := hle j hjk
      rw [hj.place_eq] at this
      omega
  · intro k hmade hk
    refine Or.inr fun a ha h => ?_
    obtain ⟨j, hj, -⟩ := hf.once a h
    have hjk : j < k := by
      by_contra hge
      exact hk (hj.1.of_le (by omega))
    have hle := (h.place_le hmade).2 j hjk.le
    rw [hj.place_eq] at hle
    obtain ⟨i, hi⟩ := List.mem_iff_getElem?.1 ha
    rw [List.getElem?_drop] at hi
    have := (getElem?_iff_place.1 hi).2
    omega

theorem Steady.fair (hs : Steady script s₀) : Fair script s₀ := by
  refine ⟨fun a h => ?_, fun k a h => List.mem_of_getElem? h.2⟩
  obtain ⟨k, hk⟩ := hs.called h
  exact ⟨k, hk, fun j hj => h.calls_unique hj hk⟩

/-- A pass is fair exactly when it is steady. -/
theorem fair_iff (script : Nat → List (TimerOp α)) (s₀ : SrsFastTimer α) :
    Fair script s₀ ↔ Steady script s₀ := ⟨fun h => h.steady, fun h => h.fair⟩

/-- Three handlers, the first of which unsubscribes itself when it is called. -/
def three : SrsFastTimer Nat := ⟨[0, 1, 2], by decide⟩

def leavesItself : Nat → List (TimerOp Nat)
  | 0 => [.unsubscribe 0]
  | _ => []

/-- The second handler is passed over: it has moved to the index that was just done. -/
theorem leavesItself_not_fair :
    pass leavesItself 3 0 three = [0, 2] ∧ Stays leavesItself three 1 ∧ ¬ Fair leavesItself three := by
  have hmade : Made leavesItself three 0 := by
    intro i hi
    rw [Nat.le_zero.1 hi]
    decide
  have hstays : Stays leavesItself three 1 := by
    refine ⟨by decide, fun k _ => ?_⟩
    cases k with
    | zero => decide
    | succ k => exact List.not_mem_nil
  exact ⟨by decide, hstays, fun hf => hf.steady.places 0 hmade [] 0 [] rfl (by decide) 1 rfl hstays⟩

end SrsFastTimer

end HttpProxy
