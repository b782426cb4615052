import HttpProxy.Control.System

/-!
# `SrsAsyncCallWorker`: tasks for another coroutine

`src/app/srs_app_async_call.cpp`.  Any coroutine gives a task to the worker, which calls the tasks in a
coroutine of its own.  `start`, `stop` and the destructor are called by the one coroutine that owns the
worker.  `start` ends a coroutine that still runs before it makes another one; `stop` calls what is left
in the coroutine of the owner, while that of the worker may be in the middle of a call.  A call may take
its time, and anything may happen meanwhile.

* `asyncCallSystem` — the worker with everything that may happen around it.
* `Kept` — no task is called twice or lost, and what `stop` and the destructor leave behind.
* `kept_of_reaches` — this holds in whatever order the parties take their turns.
-/

namespace HttpProxy

/-- The coroutine of the worker. -/
inductive Cycle
  /-- `trd` is a dummy, or could not be started. -/
  | idle
  /-- Created, and not scheduled yet. -/
  | ready
  /-- In `srs_cond_wait`. -/
  | waiting
  /-- Woken in `srs_cond_wait`, and not scheduled since. -/
  | woken
  /-- In the `call` of a task; the others of the copy are behind it. -/
  | calling (task : Nat) (rest : List Nat)
  /-- `cycle` has returned. -/
  | ended
  deriving DecidableEq, Repr

/-- The coroutine that owns the worker. -/
inductive Owner
  | free
  /-- In `start`, at `srs_freep(trd)`. -/
  | starting
  /-- In the `call` of a task in `stop`. -/
  | stopping (task : Nat) (rest : List Nat)
  /-- In `trd->stop()`. -/
  | joining
  /-- In the destructor, at `srs_freep(trd)`. -/
  | deleting
  | gone
  deriving DecidableEq, Repr

/-- The task that is being called. -/
def Cycle.current : Cycle → List Nat
  | .calling task _ => [task]
  | _ => []

/-- The tasks of the copy that are still to be called. -/
def Cycle.rest : Cycle → List Nat
  | .calling _ rest => rest
  | _ => []

/-- The coroutine does not run. -/
def Cycle.joined : Cycle → Bool
  | .idle | .ended => true
  | _ => false

/-- The task that is being called by `stop`. -/
def Owner.current : Owner → List Nat
  | .stopping task _ => [task]
  | _ => []

/-- The tasks of its copy that `stop` has still to call. -/
def Owner.rest : Owner → List Nat
  | .stopping _ rest => rest
  | _ => []

/-- The owner is inside of `stop`. -/
def Owner.inStop : Owner → Bool
  | .stopping _ _ | .joining => true
  | _ => false

/-- `SrsAsyncCallWorker`, with its coroutine and its owner.  Tasks are numbered in the order in which
they are given to `execute`. -/
structure SrsAsyncCallWorker where
  tasks : List Nat
  cycle : Cycle
  /-- `trd->pull()` fails. -/
  interrupted : Bool
  owner : Owner
  /-- The number of the next task. -/
  next : Nat
  /-- The tasks that were called, in this order. -/
  called : List Nat
  /-- The tasks that were freed. -/
  freed : List Nat
  /-- The tasks that the destructor has freed without a call. -/
  dropped : List Nat
  /-- The number of the next task when the last `stop` was called. -/
  mark : Nat
  /-- These numbers for each `stop` that has returned. -/
  stops : List Nat
  deriving DecidableEq, Repr

namespace SrsAsyncCallWorker

/-- The constructor. -/
def new : SrsAsyncCallWorker := ⟨[], .idle, false, .free, 0, [], [], [], 0, []⟩

/-- `srs_cond_signal(wait)`. -/
def signal (s : SrsAsyncCallWorker) : SrsAsyncCallWorker :=
  if s.cycle = .waiting then { s with cycle := .woken } else s

/-- `trd` is interrupted. -/
def interrupt (s : SrsAsyncCallWorker) : SrsAsyncCallWorker := { s.signal with interrupted := true }

/-- `execute`. -/
def execute (s : SrsAsyncCallWorker) : Option SrsAsyncCallWorker :=
  if s.owner = .gone then none
  else some (signal { s with tasks := s.tasks ++ [s.next], next := s.next + 1 })

/-- `start`, up to the end of the coroutine that there was. -/
def start (s : SrsAsyncCallWorker) : Option SrsAsyncCallWorker :=
  if s.owner = .free then some (interrupt { s with owner := .starting }) else none

/-- The rest of `start`; the coroutine is created or not. -/
def started (s : SrsAsyncCallWorker) (created : Bool) : Option SrsAsyncCallWorker :=
  if s.owner = .starting ∧ s.cycle.joined = true then
    some { s with owner := .free, cycle := if created then .ready else .idle, interrupted := false }
  else none

/-- `flush_tasks` in the coroutine of the worker, up to the first `call`. -/
def beginFlush (s : SrsAsyncCallWorker) (task : Nat) (rest : List Nat) : SrsAsyncCallWorker :=
  { s with tasks := [], cycle := .calling task rest, called := s.called ++ [task] }

/-- The loop of `cycle`, from `pull` to the next point where it waits or calls. -/
def pull (s : SrsAsyncCallWorker) : SrsAsyncCallWorker :=
  if s.interrupted then { s with cycle := .ended }
  else
    match s.tasks with
    | [] => { s with cycle := .waiting }
    | task :: rest => s.beginFlush task rest

/-- The coroutine is scheduled: for the first time, or behind `srs_cond_wait`. -/
def schedule (s : SrsAsyncCallWorker) : Option SrsAsyncCallWorker :=
  match s.cycle with
  | .ready => some s.pull
  | .woken =>
      match s.tasks with
      | [] => some s.pull
      | task :: rest => some (s.beginFlush task rest)
  | _ => none

/-- The `call` of a task returns, whatever it returns, in the coroutine of the worker. -/
def callReturns (s : SrsAsyncCallWorker) : Option SrsAsyncCallWorker :=
  match s.cycle with
  | .calling task [] => some (pull { s with freed := s.freed ++ [task] })
  | .calling task (u :: rest) =>
      some { s with freed := s.freed ++ [task], cycle := .calling u rest, called := s.called ++ [u] }
  | _ => none

/-- `stop`, up to its first `call` or up to the join. -/
def stop (s : SrsAsyncCallWorker) : Option SrsAsyncCallWorker :=
  if s.owner = .free then
    match s.tasks with
    | [] => some (interrupt { s with owner := .joining, mark := s.next })
    | task :: rest =>
        some { s with tasks := [], owner := .stopping task rest, called := s.called ++ [task],
                      mark := s.next }
  else none

/-- The `call` of a task returns in `stop`. -/
def stopReturns (s : SrsAsyncCallWorker) : Option SrsAsyncCallWorker :=
  match s.owner with
  | .stopping task [] => some (interrupt { s with freed := s.freed ++ [task], owner := .joining })
  | .stopping task (u :: rest) =>
      some { s with freed := s.freed ++ [task], owner := .stopping u rest, called := s.called ++ [u] }
  | _ => none

/-- The coroutine has ended, and `stop` returns. -/
def join (s : SrsAsyncCallWorker) : Option SrsAsyncCallWorker :=
  if s.owner = .joining ∧ s.cycle.joined = true then
    some { s with owner := .free, stops := s.stops ++ [s.mark] }
  else none

/-- The destructor, up to the end of the coroutine. -/
def delete (s : SrsAsyncCallWorker) : Option SrsAsyncCallWorker :=
  if s.owner = .free then some (interrupt { s with owner := .deleting }) else none

/-- The rest of the destructor. -/
def deleted (s : SrsAsyncCallWorker) : Option SrsAsyncCallWorker :=
  if s.owner = .deleting ∧ s.cycle.joined = true then
    some { s with owner := .gone, tasks := [], freed := s.freed ++ s.tasks, dropped := s.tasks }
  else none

/-- What may happen. -/
inductive Act
  | execute
  | start
  | started (created : Bool)
  | schedule
  | callReturns
  | stop
  | stopReturns
  | join
  | delete
  | deleted
  deriving DecidableEq, Repr

/-- What an act leads to. -/
def step (s : SrsAsyncCallWorker) : Act → Option SrsAsyncCallWorker
  | .execute => s.execute
  | .start => s.start
  | .started created => s.started created
  | .schedule => s.schedule
  | .callReturns => s.callReturns
  | .stop => s.stop
  | .stopReturns => s.stopReturns
  | .join => s.join
  | .delete => s.delete
  | .deleted => s.deleted

/-- The worker, whatever happens. -/
def asyncCallSystem : System SrsAsyncCallWorker Act := ⟨new, step⟩

/-! ## The invariant -/

/-- Where the tasks are. -/
structure Placed (s : SrsAsyncCallWorker) : Prop where
  /-- Every task is in one place. -/
  placed : ∀ t, s.called.count t + s.cycle.rest.count t + s.owner.rest.count t + s.tasks.count t +
    s.dropped.count t = (List.range s.next).count t
  /-- A task is freed behind its call, or when it is dropped. -/
  freed : ∀ t, s.freed.count t + s.cycle.current.count t + s.owner.current.count t =
    s.called.count t + s.dropped.count t
  /-- The tasks that a `stop` has found are not queued any more. -/
  mark : s.owner.inStop = true →
    s.mark ≤ s.next ∧ ∀ t < s.mark, t ∈ s.called ∨ t ∈ s.cycle.rest ∨ t ∈ s.owner.rest
  stops : ∀ n ∈ s.stops, ∀ t < n, t ∈ s.called ∧ t ∈ s.freed
  dropped : s.owner ≠ .gone → s.dropped = []
  gone : s.owner = .gone → s.tasks = [] ∧ s.cycle.joined = true
  /-- The order, as long as nobody has called `stop`. -/
  order : s.stops = [] → s.owner.inStop = false →
    s.called ++ (s.cycle.rest ++ (s.tasks ++ s.dropped)) = List.range s.next

/-- The worker waits only if there is nothing to do. -/
def Idles (s : SrsAsyncCallWorker) : Prop := s.cycle = .waiting → s.tasks = [] ∧ s.interrupted = false

variable {s s' : SrsAsyncCallWorker}

theorem inStop_eq {o : Owner} (h : o.inStop = false) : o.rest = [] ∧ o.current = [] := by
  cases o <;> first | exact ⟨rfl, rfl⟩ | cases h

theorem signal_eq (s : SrsAsyncCallWorker) : s.signal = s ∧ s.cycle ≠ .waiting ∨
    s.signal = { s with cycle := .woken } ∧ s.cycle = .waiting := by
  unfold signal
  split_ifs with h
  · exact .inr ⟨rfl, h⟩
  · exact .inl ⟨rfl, h⟩

/-- The coroutine goes on without a task. -/
theorem Placed.setCycle (h : Placed s) (c : Cycle) (interrupted : Bool) (hrest : s.cycle.rest = c.rest)
    (hcur : s.cycle.current = c.current) (hjoined : s.owner = .gone → c.joined = true) :
    Placed { s with cycle := c, interrupted := interrupted } := by
  obtain ⟨hplaced, hfreed, hmark, hstops, hdropped, hgone, horder⟩ := h
  rw [hrest] at hplaced hmark horder
  rw [hcur] at hfreed
  exact ⟨hplaced, hfreed, hmark, hstops, hdropped, fun ho => ⟨(hgone ho).1, hjoined ho⟩, horder⟩

/-- A signal leaves the tasks where they are, and nobody waits behind it. -/
theorem Placed.signal (h : Placed s) : Placed s.signal ∧ s.signal.cycle ≠ .waiting := by
  rcases signal_eq s with ⟨heq, hne⟩ | ⟨heq, hc⟩
  · rw [heq]
    exact ⟨h, hne⟩
  · rw [heq]
    refine ⟨h.setCycle .woken s.interrupted (by rw [hc]; rfl) (by rw [hc]; rfl) fun ho => ?_, by simp⟩
    have := (h.gone ho).2
    rw [hc] at this
    cases this

theorem Placed.interrupt (h : Placed s) : Placed s.interrupt ∧ Idles s.interrupt := by
  obtain ⟨h1, h2⟩ := h.signal
  exact ⟨⟨h1.placed, h1.freed, h1.mark, h1.stops, h1.dropped, h1.gone, h1.order⟩,
    fun hc => absurd hc h2⟩

/-- The copy of `flush_tasks` takes all that is queued. -/
theorem Placed.beginFlush {task : Nat} {rest : List Nat} (h : Placed s) (ht : s.tasks = task :: rest)
    (hrest : s.cycle.rest = []) (hcur : s.cycle.current = []) : Placed (s.beginFlush task rest) := by
  obtain ⟨hplaced, hfreed, hmark, hstops, hdropped, hgone, horder⟩ := h
  rw [ht, hrest] at hplaced horder
  rw [hcur] at hfreed
  rw [hrest] at hmark
  refine ⟨fun t => ?_, fun t => ?_, fun ho => ?_, fun n hn t htn => ?_, hdropped, fun ho => ?_,
    fun h1 h2 => ?_⟩
  · have := hplaced t
    simp only [SrsAsyncCallWorker.beginFlush, Cycle.rest, List.count_append, List.count_cons,
      List.count_nil] at this ⊢
    omega
  · have := hfreed t
    simp only [SrsAsyncCallWorker.beginFlush, Cycle.current, List.count_append, List.count_nil] at this ⊢
    omega
  · obtain ⟨hle, hall⟩ := hmark ho
    refine ⟨hle, fun t ht => ?_⟩
    rcases hall t ht with h | h | h
    · exact .inl (List.mem_append_left _ h)
    · cases h
    · exact .inr (.inr h)
  · obtain ⟨h1, h2⟩ := hstops n hn t htn
    exact ⟨List.mem_append_left _ h1, h2⟩
  · rw [(hgone ho).1] at ht
    cases ht
  · have := horder h1 h2
    simpa [SrsAsyncCallWorker.beginFlush, Cycle.rest] using this

/-- The loop of the worker. -/
theorem Placed.pull (h : Placed s) (hrest : s.cycle.rest = []) (hcur : s.cycle.current = [])
    (ho : s.owner ≠ .gone) : Placed s.pull ∧ Idles s.pull := by
  have hplain : ∀ c : Cycle, c.rest = [] → c.current = [] → Placed { s with cycle := c } :=
    fun c h1 h2 => h.setCycle c s.interrupted (hrest.trans h1.symm) (hcur.trans h2.symm)
      fun hgone => absurd hgone ho
  unfold SrsAsyncCallWorker.pull
  by_cases hi : s.interrupted = true
  · rw [if_pos hi]
    exact ⟨hplain .ended rfl rfl, fun hc => nomatch hc⟩
  · rw [if_neg hi]
    split
    · next ht => exact ⟨hplain .waiting rfl rfl, fun _ => ⟨ht, by simpa using hi⟩⟩
    · next task rest ht => exact ⟨h.beginFlush ht hrest hcur, fun hc => nomatch hc⟩

/-- A task is given to the worker. -/
theorem execute_inv (h : Placed s) (hs : s.execute = some s') : Placed s' ∧ Idles s' := by
  unfold execute at hs
  split_ifs at hs with ho
  cases hs
  have hpushed : Placed { s with tasks := s.tasks ++ [s.next], next := s.next + 1 } := by
    obtain ⟨hplaced, hfreed, hmark, hstops, hdropped, -, horder⟩ := h
    refine ⟨fun t => ?_, hfreed, fun hin => ?_, hstops, hdropped, fun hgone => absurd hgone ho,
      fun h1 h2 => ?_⟩
    · have := hplaced t
      simp only [List.range_succ, List.count_append] at this ⊢
      omega
    · obtain ⟨hle, hall⟩ := hmark hin
      exact ⟨Nat.le_succ_of_le hle, hall⟩
    · have hd := hdropped ho
      have := horder h1 h2
      rw [hd] at this ⊢
      simp only [List.append_nil] at this ⊢
      rw [List.range_succ, ← this]
      simp only [List.append_assoc]
  obtain ⟨h1, h2⟩ := hpushed.signal
  exact ⟨h1, fun hc => absurd hc h2⟩

theorem joined_eq {c : Cycle} (h : c.joined = true) : c.rest = [] ∧ c.current = [] := by
  cases c <;> first | exact ⟨rfl, rfl⟩ | cases h

/-- The owner goes from one place without a task to another. -/
theorem Placed.setOwner (h : Placed s) {o : Owner} (ho : s.owner.inStop = false) (ho' : o.inStop = false)
    (hgone : s.owner ≠ .gone) (hgone' : o ≠ .gone) : Placed { s with owner := o } := by
  obtain ⟨hplaced, hfreed, -, hstops, hdropped, -, horder⟩ := h
  rw [(inStop_eq ho).1] at hplaced
  rw [(inStop_eq ho).2] at hfreed
  refine ⟨?_, ?_, fun hin => ?_, hstops, fun _ => hdropped hgone, fun hg => absurd hg hgone',
    fun h1 _ => horder h1 ho⟩
  · rw [show ({ s with owner := o } : SrsAsyncCallWorker).owner.rest = [] from (inStop_eq ho').1]
    exact hplaced
  · rw [show ({ s with owner := o } : SrsAsyncCallWorker).owner.current = [] from (inStop_eq ho').2]
    exact hfreed
  · exact absurd (ho'.symm.trans hin) Bool.false_ne_true

theorem start_inv (h : Placed s) (hs : s.start = some s') : Placed s' ∧ Idles s' := by
  unfold start at hs
  split_ifs at hs with ho
  cases hs
  exact (h.setOwner (by rw [ho]; rfl) rfl (by rw [ho]; simp) (by simp)).interrupt

/-- The new coroutine finds the tasks as they are. -/
theorem started_inv {created : Bool} (h : Placed s) (hs : s.started created = some s') :
    Placed s' ∧ Idles s' := by
  have hc : s.owner = .starting ∧ s.cycle.joined = true := by
    by_contra hc
    rw [started, if_neg hc] at hs
    cases hs
  rw [started, if_pos hc] at hs
  cases hs
  obtain ⟨hrest, hcur⟩ := joined_eq hc.2
  have hfree : Placed { s with owner := .free } :=
    h.setOwner (by rw [hc.1]; rfl) rfl (by rw [hc.1]; simp) (by simp)
  cases created
  · exact ⟨hfree.setCycle .idle false hrest hcur fun hg => (nomatch hg), fun hw => nomatch hw⟩
  · exact ⟨hfree.setCycle .ready false hrest hcur fun hg => (nomatch hg), fun hw => nomatch hw⟩

theorem schedule_inv (h : Placed s) (hs : s.schedule = some s') : Placed s' ∧ Idles s' := by
  have hlive : s.cycle.joined = false → s.owner ≠ .gone := fun hj ho => by
    rw [(h.gone ho).2] at hj
    cases hj
  unfold schedule at hs
  split at hs
  · next hc =>
    cases hs
    exact h.pull (by rw [hc]; rfl) (by rw [hc]; rfl) (hlive (by rw [hc]; rfl))
  · next hc =>
    split at hs
    · cases hs
      exact h.pull (by rw [hc]; rfl) (by rw [hc]; rfl) (hlive (by rw [hc]; rfl))
    · next task rest ht =>
      cases hs
      exact ⟨h.beginFlush ht (by rw [hc]; rfl) (by rw [hc]; rfl), fun hw => nomatch hw⟩
  · cases hs

/-- A call has returned: the task is freed. -/
theorem Placed.freeCycle {task : Nat} {rest : List Nat} (h : Placed s)
    (hc : s.cycle = .calling task rest) :
    Placed { s with freed := s.freed ++ [task], cycle := match rest with
      | [] => .woken
      | u :: rest => .calling u rest, called := s.called ++ rest.take 1 } := by
  obtain ⟨hplaced, hfreed, hmark, hstops, hdropped, hgone, horder⟩ := h
  rw [hc] at hplaced hfreed hmark hgone horder
  have hstops' : ∀ n ∈ s.stops, ∀ t < n, t ∈ s.called ++ rest.take 1 ∧ t ∈ s.freed ++ [task] :=
    fun n hn t htn => ⟨List.mem_append_left _ (hstops n hn t htn).1,
      List.mem_append_left _ (hstops n hn t htn).2⟩
  have hlive : s.owner = .gone → False := fun ho => nomatch (hgone ho).2
  cases rest with
  | nil =>
    refine ⟨fun t => ?_, fun t => ?_, fun hin => ?_, hstops', hdropped, fun ho => (hlive ho).elim,
      fun h1 h2 => ?_⟩
    · simpa [Cycle.rest] using hplaced t
    · have := hfreed t
      simp only [Cycle.current, List.count_append, List.take_nil, List.count_nil] at this ⊢
      omega
    · simpa [Cycle.rest] using hmark hin
    · simpa [Cycle.rest] using horder h1 h2
  | cons u rest =>
    refine ⟨fun t => ?_, fun t => ?_, fun hin => ?_, hstops', hdropped, fun ho => (hlive ho).elim,
      fun h1 h2 => ?_⟩
    · have := hplaced t
      simp only [Cycle.rest, List.count_append, List.count_cons, List.take_succ_cons, List.take_zero,
        List.count_nil] at this ⊢
      omega
    · have := hfreed t
      simp only [Cycle.current, List.count_append, List.count_cons, List.take_succ_cons, List.take_zero,
        List.count_nil] at this ⊢
      omega
    · obtain ⟨hle, hall⟩ := hmark hin
      refine ⟨hle, fun t ht => ?_⟩
      rcases hall t ht with h | h | h
      · exact .inl (List.mem_append_left _ h)
      · rcases List.mem_cons.1 h with rfl | h
        · exact .inl (by simp)
        · exact .inr (.inl h)
      · exact .inr (.inr h)
    · simpa [Cycle.rest] using horder h1 h2

/-- The call of a task returns in the coroutine of the worker. -/
theorem callReturns_inv (h : Placed s) (hs : s.callReturns = some s') : Placed s' ∧ Idles s' := by
  unfold callReturns at hs
  split at hs
  · next task hc =>
    cases hs
    have ho : s.owner ≠ .gone := fun ho => by
      have := (h.gone ho).2
      rw [hc] at this
      cases this
    have hfreed := h.freeCycle hc
    simp only [List.take_nil, List.append_nil] at hfreed
    exact hfreed.pull rfl rfl ho
  · next task u rest hc =>
    cases hs
    exact ⟨h.freeCycle hc, fun hw => nomatch hw⟩
  · cases hs

/-- `stop` takes all that is queued. -/
theorem stop_inv (h : Placed s) (hi : Idles s) (hs : s.stop = some s') : Placed s' ∧ Idles s' := by
  unfold stop at hs
  split_ifs at hs with ho
  obtain ⟨hplaced, hfreed, hmark, hstops, hdropped, hgone, horder⟩ := h
  have hd := hdropped (by rw [ho]; simp)
  rw [ho] at hplaced hfreed
  rw [hd] at hplaced
  have hqueue : ∀ t < s.next, t ∈ s.called ∨ t ∈ s.cycle.rest ∨ t ∈ s.tasks := by
    intro t ht
    have hcount : 0 < (List.range s.next).count t := List.count_pos_iff.2 (List.mem_range.2 ht)
    rw [← hplaced t] at hcount
    simp only [Owner.rest, List.count_nil, Nat.add_zero] at hcount
    by_contra hc
    simp only [not_or, ← List.count_eq_zero] at hc
    omega
  split at hs
  · next ht =>
    cases hs
    rw [ht] at hqueue
    refine Placed.interrupt ⟨?_, ?_, fun _ => ⟨le_refl _, fun t htn => ?_⟩, hstops, fun _ => hd,
      fun hg => (nomatch hg), fun _ h2 => (nomatch h2)⟩
    · rw [hd]
      exact hplaced
    · exact hfreed
    · rcases hqueue t htn with h | h | h
      · exact .inl h
      · exact .inr (.inl h)
      · cases h
  · next task rest ht =>
    cases hs
    rw [ht] at hqueue hplaced
    refine ⟨⟨fun t => ?_, fun t => ?_, fun _ => ⟨le_refl _, fun t htn => ?_⟩, fun n hn t htn => ?_,
      fun _ => hd, fun hg => (nomatch hg), fun _ h2 => (nomatch h2)⟩, fun hw => ?_⟩
    · have := hplaced t
      simp only [hd, Owner.rest, List.count_append, List.count_cons, List.count_nil] at this ⊢
      omega
    · have := hfreed t
      simp only [Owner.current, List.count_append, List.count_nil] at this ⊢
      omega
    · rcases hqueue t htn with h | h | h
      · exact .inl (List.mem_append_left _ h)
      · exact .inr (.inl h)
      · rcases List.mem_cons.1 h with rfl | h
        · exact .inl (by simp)
        · exact .inr (.inr h)
    · obtain ⟨h1, h2⟩ := hstops n hn t htn
      exact ⟨List.mem_append_left _ h1, h2⟩
    · exact ⟨rfl, (hi hw).2⟩

/-- The call of a task returns in `stop`. -/
theorem stopReturns_inv (h : Placed s) (hi : Idles s) (hs : s.stopReturns = some s') :
    Placed s' ∧ Idles s' := by
  unfold stopReturns at hs
  obtain ⟨hplaced, hfreed, hmark, hstops, hdropped, hgone, horder⟩ := h
  split at hs
  · next task ho =>
    cases hs
    rw [ho] at hplaced hfreed hmark hdropped
    refine Placed.interrupt ⟨hplaced, fun t => ?_, fun _ => hmark rfl, fun n hn t htn => ?_,
      fun _ => hdropped (by simp), fun hg => (nomatch hg), fun _ h2 => (nomatch h2)⟩
    · have := hfreed t
      simp only [Owner.current, List.count_append, List.count_nil] at this ⊢
      omega
    · obtain ⟨h1, h2⟩ := hstops n hn t htn
      exact ⟨h1, List.mem_append_left _ h2⟩
  · next task u rest ho =>
    cases hs
    rw [ho] at hplaced hfreed hmark hdropped
    refine ⟨⟨fun t => ?_, fun t => ?_, fun _ => ?_, fun n hn t htn => ?_, fun _ => hdropped (by simp),
      fun hg => (nomatch hg), fun _ h2 => (nomatch h2)⟩, hi⟩
    · have := hplaced t
      simp only [Owner.rest, List.count_append, List.count_cons, List.count_nil] at this ⊢
      omega
    · have := hfreed t
      simp only [Owner.current, List.count_append, List.count_cons, List.count_nil] at this ⊢
      omega
    · obtain ⟨hle, hall⟩ := hmark rfl
      refine ⟨hle, fun t ht => ?_⟩
      rcases hall t ht with h | h | h
      · exact .inl (List.mem_append_left _ h)
      · exact .inr (.inl h)
      · rcases List.mem_cons.1 h with rfl | h
        · exact .inl (by simp)
        · exact .inr (.inr h)
    · obtain ⟨h1, h2⟩ := hstops n hn t htn
      exact ⟨List.mem_append_left _ h1, List.mem_append_left _ h2⟩
  · cases hs

/-- `stop` returns: what it has found has been called. -/
theorem join_inv (h : Placed s) (hi : Idles s) (hs : s.join = some s') : Placed s' ∧ Idles s' := by
  unfold join at hs
  split_ifs at hs with hc
  cases hs
  obtain ⟨hplaced, hfreed, hmark, hstops, hdropped, hgone, horder⟩ := h
  obtain ⟨hrest, hcur⟩ := joined_eq hc.2
  rw [hc.1] at hplaced hfreed hmark hdropped
  have hd := hdropped (by simp)
  refine ⟨⟨hplaced, hfreed, fun hin => (nomatch hin), fun n hn t htn => ?_, fun _ => hd,
    fun hg => (nomatch hg), fun h1 _ => ?_⟩, hi⟩
  · rcases List.mem_append.1 hn with hn | hn
    · exact hstops n hn t htn
    · rw [List.mem_singleton.1 hn] at htn
      have hcalled : t ∈ s.called := by
        rcases (hmark rfl).2 t htn with h | h | h
        · exact h
        · rw [hrest] at h
          cases h
        · cases h
      have hcount := hfreed t
      rw [hcur, hd] at hcount
      have hpos := List.count_pos_iff.2 hcalled
      simp only [Owner.current, List.count_nil, Nat.add_zero] at hcount
      refine ⟨hcalled, List.count_pos_iff.1 ?_⟩
      rw [hcount]
      exact hpos
  · exact absurd h1 (by simp)

theorem delete_inv (h : Placed s) (hs : s.delete = some s') : Placed s' ∧ Idles s' := by
  unfold delete at hs
  split_ifs at hs with ho
  cases hs
  exact (h.setOwner (by rw [ho]; rfl) rfl (by rw [ho]; simp) (by simp)).interrupt

/-- The destructor frees what has not been called. -/
theorem deleted_inv (h : Placed s) (hi : Idles s) (hs : s.deleted = some s') : Placed s' ∧ Idles s' := by
  unfold deleted at hs
  split_ifs at hs with hc
  cases hs
  obtain ⟨hplaced, hfreed, hmark, hstops, hdropped, hgone, horder⟩ := h
  rw [hc.1] at hplaced hfreed hdropped horder
  have hd := hdropped (by simp)
  refine ⟨⟨fun t => ?_, fun t => ?_, fun hin => (nomatch hin), fun n hn t htn => ?_,
    fun hne => absurd rfl hne, fun _ => ⟨rfl, hc.2⟩, fun h1 _ => ?_⟩, fun hw => ?_⟩
  · have := hplaced t
    simp only [hd, Owner.rest, List.count_nil] at this ⊢
    omega
  · have := hfreed t
    simp only [hd, Owner.current, List.count_append, List.count_nil] at this ⊢
    omega
  · obtain ⟨h1, h2⟩ := hstops n hn t htn
    exact ⟨h1, List.mem_append_left _ h2⟩
  · have := horder h1 rfl
    rw [hd, List.append_nil] at this
    simpa using this
  · exact ⟨rfl, (hi hw).2⟩

/-- One act. -/
theorem step_inv {a : Act} (h : Placed s ∧ Idles s) (hs : s.step a = some s') : Placed s' ∧ Idles s' := by
  obtain ⟨hp, hi⟩ := h
  cases a with
  | execute => exact execute_inv hp hs
  | start => exact start_inv hp hs
  | started created => exact started_inv hp hs
  | schedule => exact schedule_inv hp hs
  | callReturns => exact callReturns_inv hp hs
  | stop => exact stop_inv hp hi hs
  | stopReturns => exact stopReturns_inv hp hi hs
  | join => exact join_inv hp hi hs
  | delete => exact delete_inv hp hs
  | deleted => exact deleted_inv hp hi hs

/-! ## What the users of the worker rely on -/

/-- What holds of the tasks. -/
structure Kept (s : SrsAsyncCallWorker) : Prop where
  /-- No task is called twice, and none is freed twice. -/
  once : s.called.Nodup ∧ s.freed.Nodup
  /-- A task that has been given to the worker is queued, in a copy, called, or freed with the worker. -/
  found : ∀ t < s.next, t ∈ s.tasks ∨ t ∈ s.cycle.rest ∨ t ∈ s.owner.rest ∨ t ∈ s.called ∨ t ∈ s.dropped
  /-- A task is freed only when its call has returned, or when it will not be called. -/
  freed : ∀ t ∈ s.freed, (t ∈ s.called ∧ t ∉ s.cycle.current ∧ t ∉ s.owner.current) ∨ t ∈ s.dropped
  /-- The worker does not sleep while there are tasks. -/
  awake : s.cycle = .waiting → s.tasks = []
  /-- All tasks that were given to the worker before a call of `stop` have been called and freed when
  it returns. -/
  drained : ∀ n ∈ s.stops, ∀ t < n, t ∈ s.called ∧ t ∈ s.freed
  /-- Until `stop` is called the tasks are called in their order. -/
  order : s.stops = [] → s.owner.inStop = false → s.called <+: List.range s.next
  /-- Nothing is left behind. -/
  gone : s.owner = .gone → ∀ t < s.next, t ∈ s.freed

theorem kept_of_inv (h : Placed s) (hi : Idles s) : Kept s := by
  have hle : ∀ t, s.called.count t + s.cycle.rest.count t + s.owner.rest.count t + s.tasks.count t +
      s.dropped.count t ≤ 1 := fun t => by
    rw [h.placed t]
    exact List.nodup_iff_count_le_one.1 List.nodup_range t
  have hfreed : ∀ t, s.freed.count t + s.cycle.current.count t + s.owner.current.count t ≤ 1 := fun t => by
    have h1 := hle t
    have h2 := h.freed t
    omega
  have hpos : ∀ t < s.next, 0 < s.called.count t + s.cycle.rest.count t + s.owner.rest.count t +
      s.tasks.count t + s.dropped.count t := fun t ht => by
    rw [h.placed t]
    exact List.count_pos_iff.2 (List.mem_range.2 ht)
  refine ⟨⟨?_, ?_⟩, fun t ht => ?_, fun t ht => ?_, fun hw => (hi hw).1, h.stops, fun h1 h2 => ?_,
    fun hg t ht => ?_⟩
  · exact List.nodup_iff_count_le_one.2 fun t => by have := hle t; omega
  · exact List.nodup_iff_count_le_one.2 fun t => by have := hfreed t; omega
  · have := hpos t ht
    by_contra hc
    simp only [not_or, ← List.count_eq_zero] at hc
    omega
  · have h1 := List.count_pos_iff.2 ht
    have h2 := hfreed t
    have h3 := h.freed t
    by_cases hd : t ∈ s.dropped
    · exact .inr hd
    · rw [← List.count_eq_zero] at hd
      refine .inl ⟨List.count_pos_iff.1 (by omega), ?_, ?_⟩
      · exact List.count_eq_zero.1 (by omega)
      · exact List.count_eq_zero.1 (by omega)
  · exact ⟨_, h.order h1 h2⟩
  · obtain ⟨htasks, hjoined⟩ := h.gone hg
    obtain ⟨hrest, hcur⟩ := joined_eq hjoined
    have h1 := hpos t ht
    have h2 := h.freed t
    rw [htasks, hrest, hg] at h1
    rw [hcur, hg] at h2
    simp only [Owner.rest, Owner.current, List.count_nil] at h1 h2
    exact List.count_pos_iff.1 (by omega)

/-- **The tasks are kept** in every run: whatever the order in which tasks are given to the worker,
calls return, and the worker is started, stopped and deleted. -/
theorem kept_of_reaches (h : asyncCallSystem.Reaches (fun _ _ => True) s) : Kept s := by
  have hinit : Placed new ∧ Idles new := by
    refine ⟨⟨fun t => rfl, fun t => rfl, fun hin => (nomatch hin), ?_, fun _ => rfl, fun hg => (nomatch hg),
      fun _ _ => rfl⟩, fun hw => (nomatch hw)⟩
    intro n hn
    cases hn
  obtain ⟨hp, hi⟩ := h.invariant (I := fun s => Placed s ∧ Idles s) hinit
    fun _ _ _ hinv _ hs => step_inv hinv hs
  exact kept_of_inv hp hi

/-- The worker is started again while it calls a task, and stopped while it calls another; the last task is
dropped. -/
def busyStop : List Act := [.start, .started true, .execute, .schedule, .execute, .start, .callReturns,
  .started true, .schedule, .execute, .stop, .execute, .callReturns, .callReturns, .stopReturns, .schedule,
  .join, .execute, .delete, .deleted]

theorem kept_of_reaches_busyStop : ∃ s, asyncCallSystem.run busyStop new = some s ∧
    s.called = [0, 1, 2, 3] ∧ s.dropped = [4] ∧ Kept s := by
  have hmeets : asyncCallSystem.Meets (fun _ _ => True) busyStop new := by decide
  have hrun : asyncCallSystem.run busyStop new =
      some ⟨[], .ended, true, .gone, 5, [0, 1, 2, 3], [0, 1, 3, 2, 4], [4], 3, [3]⟩ := by decide
  exact ⟨_, hrun, rfl, rfl, kept_of_reaches (System.reaches_of_run .init hmeets hrun)⟩

end SrsAsyncCallWorker

end HttpProxy
