import HttpProxy.Control.System

/-!
# `SrsResourceManager`: who frees the connections

`src/app/srs_app_conn.cpp`, lines 48-282.  Any coroutine may call `remove`, which makes a resource
a zombie and wakes the coroutine of the manager; that one takes the zombies in a batch, disposes
all of them, and then frees all of them.  Coroutines switch in the callbacks of the handlers, in the
destructors of the resources, and where the manager waits.

* `managerSystem` — the manager with everything that may happen around it.
* `Safe`, `safe_of_reaches` — no resource is freed twice, as long as none is removed that is being
  freed.
* `asleep_of_reaches` — no removal is lost.
-/

namespace HttpProxy

/-- A pointer to a resource.  An address may be used again when its resource has been freed. -/
abbrev Addr := Nat

/-- Where the coroutine of the manager stands. -/
inductive ManagerPhase
  /-- In front of `pull`. -/
  | pulling
  /-- In front of the test whether there are zombies. -/
  | testing
  /-- In `dispose` for the last resource of `done`, with callbacks that have not returned. -/
  | disposing (done : List Addr) (callbacks : Nat) (rest : List Addr)
  /-- In the destructor of `c`. -/
  | freeing (c : Addr) (rest : List Addr)
  /-- In `srs_cond_wait`. -/
  | waiting (signalled : Bool)
  | stopped
  deriving DecidableEq

/-- The life of resources. -/
inductive Life
  | created (a : Addr)
  | deleted (a : Addr)
  deriving DecidableEq

/-- The manager, and the resources there are. -/
structure SrsResourceManager where
  conns : List Addr
  zombies : List Addr
  /-- `p_disposing_`, `none` for NULL. -/
  pDisposing : Option (List Addr)
  phase : ManagerPhase
  /-- The calls of `remove` that are in their callbacks, with the number of callbacks left. -/
  removals : List Nat
  /-- The number of handlers. -/
  handlers : Nat
  /-- The resources that exist, and those of them that have not been added. -/
  alive : List Addr
  fresh : List Addr
  log : List Life
  deriving DecidableEq

namespace SrsResourceManager

/-- A manager that has not started. -/
def new : SrsResourceManager :=
  { conns := [], zombies := [], pDisposing := none, phase := .pulling, removals := [], handlers := 0
    alive := [], fresh := [], log := [] }

/-- `add`. -/
def add (s : SrsResourceManager) (a : Addr) : SrsResourceManager :=
  if a ∈ s.conns then s else { s with conns := s.conns ++ [a] }

/-- `srs_cond_signal`, which is lost when nobody waits. -/
def signal (s : SrsResourceManager) : SrsResourceManager :=
  match s.phase with
  | .waiting _ => { s with phase := .waiting true }
  | _ => s

/-- `check_remove`: `in_zombie` and `in_disposing`. -/
def checkRemove (s : SrsResourceManager) (a : Addr) : Bool × Bool :=
  (decide (a ∈ s.zombies), match s.pDisposing with | some batch => decide (a ∈ batch) | none => false)

/-- `do_remove`, up to the first callback, or to its end when there is none. -/
def doRemove (s : SrsResourceManager) (a : Addr) : SrsResourceManager :=
  if (s.checkRemove a).1 || (s.checkRemove a).2 then s
  else if s.handlers = 0 then signal { s with zombies := s.zombies ++ [a] }
  else { s with zombies := s.zombies ++ [a], removals := s.removals ++ [s.handlers] }

/-- A callback of a call of `remove` returns; the last one is followed by the signal. -/
def callback (s : SrsResourceManager) (i : Nat) : Option SrsResourceManager :=
  match s.removals[i]? with
  | none => none
  | some k =>
      if k ≤ 1 then some (signal { s with removals := s.removals.eraseIdx i })
      else some { s with removals := s.removals.set i (k - 1) }

/-- The second loop of `do_clear`, up to the next destructor. -/
def freeLoop : List Addr → SrsResourceManager → SrsResourceManager
  | [], s => { s with phase := .testing }
  | c :: rest, s => { s with phase := .freeing c rest }

/-- The first loop of `do_clear`, up to the next callback. -/
def disposeLoop : List Addr → List Addr → SrsResourceManager → SrsResourceManager
  | done, [], s => freeLoop done { s with pDisposing := none }
  | done, c :: rest, s =>
      let s' := { s with conns := s.conns.erase c }
      if s.handlers = 0 then disposeLoop (done ++ [c]) rest s'
      else { s' with phase := .disposing (done ++ [c]) s.handlers rest }

/-- The coroutine of the manager runs, up to the next point where it may switch. -/
def manage (s : SrsResourceManager) : Option SrsResourceManager :=
  match s.phase with
  | .pulling => some { s with phase := .testing }
  | .testing =>
      if s.zombies = [] then some { s with phase := .waiting false }
      else some (disposeLoop [] s.zombies { s with zombies := [], pDisposing := some s.zombies })
  | .disposing done k rest =>
      if 1 < k then some { s with phase := .disposing done (k - 1) rest }
      else some (disposeLoop done rest s)
  | .freeing c rest =>
      some (freeLoop rest
        { s with
          alive := s.alive.filter (· ≠ c)
          fresh := s.fresh.filter (· ≠ c)
          log := s.log ++ [.deleted c] })
  | .waiting true => some { s with phase := .pulling }
  | .waiting false => none
  | .stopped => none

/-- The coroutine is interrupted: the wait ends, and `pull` ends the cycle. -/
def interrupt (s : SrsResourceManager) : Option SrsResourceManager :=
  match s.phase with
  | .pulling => some { s with phase := .stopped }
  | .waiting _ => some { s with phase := .pulling }
  | _ => none

/-- What may happen. -/
inductive Act
  | create (a : Addr)
  | add (a : Addr)
  | remove (a : Addr)
  | callback (i : Nat)
  | manage
  | interrupt
  | setHandlers (n : Nat)

/-- What an act leads to.  A resource is created where there is none, it is added once, and it is
removed while it exists. -/
def step (s : SrsResourceManager) : Act → Option SrsResourceManager
  | .create a =>
      if a ∈ s.alive then none
      else some { s with alive := a :: s.alive, fresh := a :: s.fresh, log := s.log ++ [.created a] }
  | .add a => if a ∈ s.fresh then some (add { s with fresh := s.fresh.filter (· ≠ a) } a) else none
  | .remove a => if a ∈ s.alive then some (s.doRemove a) else none
  | .callback i => s.callback i
  | .manage => s.manage
  | .interrupt => s.interrupt
  | .setHandlers n => some { s with handlers := n }

/-- The manager among its coroutines. -/
def managerSystem : System SrsResourceManager Act := ⟨new, step⟩

/-! ## What is safe -/

/-- The batch that a clear has taken out of `zombies_`. -/
def taken (s : SrsResourceManager) : List Addr :=
  match s.phase with
  | .disposing done _ rest => done ++ rest
  | .freeing c rest => c :: rest
  | _ => []

/-- The part of it that has been disposed. -/
def disposed (s : SrsResourceManager) : List Addr :=
  match s.phase with
  | .disposing done _ _ => done
  | .freeing c rest => c :: rest
  | _ => []

/-- The resources that are being freed: `p_disposing_` has been reset. -/
def dying (s : SrsResourceManager) : List Addr :=
  match s.phase with
  | .freeing c rest => c :: rest
  | _ => []

/-- Every deletion is of a resource that was created and has not been deleted; what a clear has taken
is not among the zombies; and the connections exist. -/
structure Safe (s : SrsResourceManager) : Prop where
  once : ∀ pre a post, s.log = pre ++ .deleted a :: post →
    pre.count (.deleted a) < pre.count (.created a)
  taken : ∀ a ∈ s.taken, a ∉ s.zombies
  conns : ∀ a ∈ s.conns, a ∈ s.alive

/-- No resource is removed that is being freed, and none is added that has been disposed. -/
def Permitted (s : SrsResourceManager) : Act → Prop
  | .remove a => a ∉ s.dying
  | .add a => a ∉ s.disposed
  | _ => True

instance (s : SrsResourceManager) (act : Act) : Decidable (Permitted s act) := by
  cases act <;> unfold Permitted <;> infer_instance

/-- The part of the invariant that does not depend on where the manager stands, for a batch of which
a part has been disposed. -/
structure Core (s : SrsResourceManager) (batch disposed : List Addr) : Prop where
  nodup : (s.zombies ++ batch).Nodup
  alive : ∀ a ∈ s.zombies ++ batch, a ∈ s.alive
  conns : ∀ a ∈ s.conns, a ∈ s.alive
  distinct : s.conns.Nodup
  gone : ∀ a ∈ disposed, a ∉ s.conns
  fresh : ∀ a ∈ s.fresh, a ∈ s.alive
  books : ∀ a, s.log.count (.created a) = s.log.count (.deleted a) + if a ∈ s.alive then 1 else 0
  once : ∀ pre a post, s.log = pre ++ .deleted a :: post →
    pre.count (.deleted a) < pre.count (.created a)

/-- The invariant. -/
structure Inv (s : SrsResourceManager) : Prop where
  core : Core s s.taken s.disposed
  guard : s.pDisposing = match s.phase with
    | .disposing done _ rest => some (done ++ rest)
    | _ => none

variable {s s' : SrsResourceManager} {batch gone : List Addr} {a : Addr}

theorem inv_new : Inv new :=
  ⟨⟨by simp [new, taken], by simp [new, taken], by simp [new], by simp [new], by simp [new, disposed],
    by simp [new], by simp [new], by simp [new]⟩, rfl⟩

theorem Inv.safe (h : Inv s) : Safe s := by
  refine ⟨h.core.once, fun a ha hz => ?_, h.core.conns⟩
  exact (List.nodup_append.1 h.core.nodup).2.2 a hz a ha rfl

/-! ## What an act keeps -/

theorem Core.phase (h : Core s batch gone) (p : ManagerPhase) : Core { s with phase := p } batch gone :=
  ⟨h.nodup, h.alive, h.conns, h.distinct, h.gone, h.fresh, h.books, h.once⟩

/-- Signals change nothing but the wait. -/
theorem signal_inv (h : Inv s) : Inv s.signal := by
  obtain ⟨hcore, hguard⟩ := h
  unfold signal
  split
  next b hphase =>
    simp only [taken, disposed, hphase] at hcore hguard
    exact ⟨hcore.phase _, hguard⟩
  next => exact ⟨hcore, hguard⟩

/-- No resource is deleted more often than it was created before. -/
theorem once_iff_always {log : List Life} :
    (∀ pre a post, log = pre ++ .deleted a :: post →
      pre.count (.deleted a) < pre.count (.created a)) ↔
    Always (fun pre e => ∀ a, e = .deleted a → pre.count (.deleted a) < pre.count (.created a)) log := by
  constructor
  · rintro h pre e post heq a rfl
    exact h pre a post heq
  · intro h pre a post heq
    exact h pre (.deleted a) post heq a rfl

/-- One more event that is no deletion. -/
theorem once_created {log : List Life}
    (h : ∀ pre a post, log = pre ++ Life.deleted a :: post →
      pre.count (Life.deleted a) < pre.count (Life.created a)) (b : Addr) :
    ∀ pre a post, log ++ [Life.created b] = pre ++ Life.deleted a :: post →
      pre.count (Life.deleted a) < pre.count (Life.created a) := by
  refine once_iff_always.2 ((once_iff_always.1 h).concat ?_)
  rintro a ⟨⟩

/-- The deletion of a resource that exists. -/
theorem once_deleted {log : List Life} {alive : List Addr}
    (h : ∀ pre a post, log = pre ++ Life.deleted a :: post →
      pre.count (Life.deleted a) < pre.count (Life.created a))
    (hbooks : ∀ a, log.count (Life.created a) = log.count (Life.deleted a) + if a ∈ alive then 1 else 0)
    {c : Addr} (hc : c ∈ alive) :
    ∀ pre a post, log ++ [Life.deleted c] = pre ++ Life.deleted a :: post →
      pre.count (Life.deleted a) < pre.count (Life.created a) := by
  refine once_iff_always.2 ((once_iff_always.1 h).concat ?_)
  rintro a ⟨⟩
  have := hbooks c
  rw [if_pos hc] at this
  omega

theorem create_inv (h : Inv s) (ha : a ∉ s.alive) :
    Inv { s with alive := a :: s.alive, fresh := a :: s.fresh, log := s.log ++ [.created a] } := by
  obtain ⟨hcore, hguard⟩ := h
  refine ⟨⟨hcore.nodup, ?_, ?_, hcore.distinct, hcore.gone, ?_, ?_, once_created hcore.once a⟩, hguard⟩
  · exact fun b hb => List.mem_cons_of_mem _ (hcore.alive b hb)
  · exact fun b hb => List.mem_cons_of_mem _ (hcore.conns b hb)
  · intro b hb
    rcases List.mem_cons.1 hb with rfl | hb
    · exact List.mem_cons_self
    · exact List.mem_cons_of_mem _ (hcore.fresh b hb)
  · intro b
    have := hcore.books b
    by_cases hab : b = a
    · subst hab
      simpa [List.count_append, ha] using this
    · have hne : ¬ (Life.created a = Life.created b) := by simpa using Ne.symm hab
      simpa [List.count_append, List.count_cons, hab, hne] using this

theorem add_inv (h : Inv s) (ha : a ∈ s.fresh) (hok : a ∉ s.disposed) :
    Inv (add { s with fresh := s.fresh.filter (· ≠ a) } a) := by
  obtain ⟨hcore, hguard⟩ := h
  have hfresh : ∀ b ∈ s.fresh.filter (· ≠ a), b ∈ s.alive :=
    fun b hb => hcore.fresh b (List.mem_of_mem_filter hb)
  unfold add
  by_cases hmem : a ∈ s.conns
  · rw [if_pos hmem]
    exact ⟨⟨hcore.nodup, hcore.alive, hcore.conns, hcore.distinct, hcore.gone, hfresh, hcore.books,
      hcore.once⟩, hguard⟩
  · rw [if_neg hmem]
    refine ⟨⟨hcore.nodup, hcore.alive, ?_, ?_, ?_, hfresh, hcore.books, hcore.once⟩, hguard⟩
    · intro b hb
      rcases List.mem_append.1 hb with hb | hb
      · exact hcore.conns b hb
      · exact List.mem_singleton.1 hb ▸ hcore.fresh a ha
    · refine List.nodup_append.2 ⟨hcore.distinct, List.nodup_singleton a, ?_⟩
      rintro b hb c hc rfl
      exact hmem (List.mem_singleton.1 hc ▸ hb)
    · intro b hb hconns
      rcases List.mem_append.1 hconns with hc | hc
      · exact hcore.gone b hb hc
      · exact hok (List.mem_singleton.1 hc ▸ hb)

/-- A resource that `check_remove` does not know is in no batch, unless it is being freed. -/
theorem Inv.not_taken (h : Inv s) (hok : a ∉ s.dying) (hcheck : (s.checkRemove a).2 = false) :
    a ∉ s.taken := by
  have hguard := h.guard
  unfold taken
  unfold checkRemove at hcheck
  cases hphase : s.phase with
  | disposing done k rest =>
    rw [hphase] at hguard
    simpa [hguard] using hcheck
  | freeing c rest => simpa [dying, hphase] using hok
  | pulling => simp
  | testing => simp
  | waiting b => simp
  | stopped => simp

/-- A new zombie. -/
theorem push_inv (h : Inv s) (ha : a ∈ s.alive) (hz : a ∉ s.zombies) (ht : a ∉ s.taken)
    (removals : List Nat) :
    Inv { s with zombies := s.zombies ++ [a], removals := removals } := by
  obtain ⟨hcore, hguard⟩ := h
  refine ⟨⟨?_, ?_, hcore.conns, hcore.distinct, hcore.gone, hcore.fresh, hcore.books, hcore.once⟩,
    hguard⟩
  · have hperm : (s.zombies ++ [a] ++ s.taken).Perm (a :: (s.zombies ++ s.taken)) := by
      rw [List.append_assoc]
      exact List.perm_middle
    refine (List.Perm.nodup_iff hperm).2 (List.nodup_cons.2 ⟨?_, hcore.nodup⟩)
    exact fun hmem => (List.mem_append.1 hmem).elim hz ht
  · intro b hb
    rcases List.mem_append.1 hb with hb | hb
    · rcases List.mem_append.1 hb with hb | hb
      · exact hcore.alive b (List.mem_append_left _ hb)
      · exact List.mem_singleton.1 hb ▸ ha
    · exact hcore.alive b (List.mem_append_right _ hb)

theorem doRemove_inv (h : Inv s) (ha : a ∈ s.alive) (hok : a ∉ s.dying) : Inv (s.doRemove a) := by
  unfold doRemove
  by_cases hcheck : ((s.checkRemove a).1 || (s.checkRemove a).2) = true
  · rw [if_pos hcheck]
    exact h
  · rw [if_neg hcheck]
    rw [Bool.or_eq_true, not_or] at hcheck
    have hz : a ∉ s.zombies := by simpa [checkRemove] using hcheck.1
    have ht : a ∉ s.taken := h.not_taken hok (by simpa using hcheck.2)
    by_cases hzero : s.handlers = 0
    · rw [if_pos hzero]
      exact signal_inv (push_inv h ha hz ht s.removals)
    · rw [if_neg hzero]
      exact push_inv h ha hz ht _

theorem removals_inv (h : Inv s) (removals : List Nat) : Inv { s with removals := removals } := by
  obtain ⟨hcore, hguard⟩ := h
  exact ⟨⟨hcore.nodup, hcore.alive, hcore.conns, hcore.distinct, hcore.gone, hcore.fresh, hcore.books,
    hcore.once⟩, hguard⟩

theorem callback_inv (h : Inv s) {i : Nat} (hs : s.callback i = some s') : Inv s' := by
  unfold callback at hs
  split at hs
  · cases hs
  · split at hs
    · exact Option.some.inj hs ▸ signal_inv (removals_inv h _)
    · exact Option.some.inj hs ▸ removals_inv h _

/-- The loop that frees starts with a batch all of which has been disposed. -/
theorem freeLoop_inv {batch : List Addr} (h : Core s batch batch) (hguard : s.pDisposing = none) :
    Inv (freeLoop batch s) := by
  cases batch with
  | nil => exact ⟨h.phase _, hguard⟩
  | cons c rest => exact ⟨h.phase _, hguard⟩

/-- The loop that disposes takes the batch out of the connections, resource by resource. -/
theorem disposeLoop_inv {rest : List Addr} : ∀ {done : List Addr} {s : SrsResourceManager},
    Core s (done ++ rest) done → s.pDisposing = some (done ++ rest) →
      Inv (disposeLoop done rest s) := by
  induction rest with
  | nil =>
    intro done s h _
    rw [List.append_nil] at h
    exact freeLoop_inv ⟨h.nodup, h.alive, h.conns, h.distinct, h.gone, h.fresh, h.books, h.once⟩ rfl
  | cons c rest ih =>
    intro done s h hguard
    have hassoc : done ++ c :: rest = done ++ [c] ++ rest := by simp
    have herase : ∀ b ∈ s.conns.erase c, b ∈ s.conns := fun b hb => List.mem_of_mem_erase hb
    have hgone : ∀ b ∈ done ++ [c], b ∉ s.conns.erase c := by
      intro b hb
      rcases List.mem_append.1 hb with hb | hb
      · exact fun hmem => h.gone b hb (herase b hmem)
      · rw [List.mem_singleton.1 hb]
        exact h.distinct.not_mem_erase
    have hcore : Core { s with conns := s.conns.erase c } (done ++ [c] ++ rest) (done ++ [c]) :=
      ⟨hassoc ▸ h.nodup, hassoc ▸ h.alive, fun b hb => h.conns b (herase b hb), h.distinct.erase c,
        hgone, h.fresh, h.books, h.once⟩
    unfold disposeLoop
    by_cases hzero : s.handlers = 0
    · simp only [if_pos hzero]
      exact ih hcore (hassoc ▸ hguard)
    · simp only [if_neg hzero]
      refine ⟨hcore.phase _, ?_⟩
      simpa using hguard

/-- The end of a destructor. -/
theorem delete_core {c : Addr} {rest : List Addr} (h : Core s (c :: rest) (c :: rest)) :
    Core { s with
      alive := s.alive.filter (· ≠ c)
      fresh := s.fresh.filter (· ≠ c)
      log := s.log ++ [.deleted c] } rest rest := by
  have hperm : (s.zombies ++ c :: rest).Perm (c :: (s.zombies ++ rest)) := List.perm_middle
  have hnodup : c ∉ s.zombies ++ rest ∧ (s.zombies ++ rest).Nodup :=
    List.nodup_cons.1 (hperm.nodup_iff.1 h.nodup)
  have hc : c ∈ s.alive := h.alive c (by simp)
  have hkeep : ∀ b ∈ s.alive, b ≠ c → b ∈ s.alive.filter (· ≠ c) :=
    fun b hb hne => List.mem_filter.2 ⟨hb, by simpa using hne⟩
  refine ⟨hnodup.2, ?_, ?_, h.distinct, ?_, ?_, ?_, once_deleted h.once h.books hc⟩
  · intro b hb
    refine hkeep b (h.alive b (hperm.mem_iff.2 (List.mem_cons_of_mem _ hb))) ?_
    rintro rfl
    exact hnodup.1 hb
  · intro b hb
    refine hkeep b (h.conns b hb) ?_
    rintro rfl
    exact h.gone b List.mem_cons_self hb
  · exact fun b hb => h.gone b (List.mem_cons_of_mem _ hb)
  · intro b hb
    obtain ⟨hb, hne⟩ := List.mem_filter.1 hb
    exact hkeep b (h.fresh b hb) (by simpa using hne)
  · intro b
    have := h.books b
    by_cases hbc : b = c
    · subst hbc
      rw [if_pos hc] at this
      simpa [List.count_append] using this
    · have hne : ¬ (Life.deleted c = Life.deleted b) := by simpa using Ne.symm hbc
      simpa [List.count_append, List.count_cons, hbc, hne] using this

/-- What the coroutine of the manager does when it runs. -/
inductive Managed (s : SrsResourceManager) : SrsResourceManager → Prop
  | pull (h : s.phase = .pulling) : Managed s { s with phase := .testing }
  | sleep (h : s.phase = .testing) (hz : s.zombies = []) : Managed s { s with phase := .waiting false }
  | clear (h : s.phase = .testing) :
      Managed s (disposeLoop [] s.zombies { s with zombies := [], pDisposing := some s.zombies })
  | callback {done rest : List Addr} {k : Nat} (h : s.phase = .disposing done k rest) :
      Managed s { s with phase := .disposing done (k - 1) rest }
  | dispose {done rest : List Addr} {k : Nat} (h : s.phase = .disposing done k rest) :
      Managed s (disposeLoop done rest s)
  | free {c : Addr} {rest : List Addr} (h : s.phase = .freeing c rest) :
      Managed s (freeLoop rest
        { s with
          alive := s.alive.filter (· ≠ c)
          fresh := s.fresh.filter (· ≠ c)
          log := s.log ++ [.deleted c] })
  | wake (h : s.phase = .waiting true) : Managed s { s with phase := .pulling }

theorem managed (hs : s.manage = some s') : Managed s s' := by
  unfold manage at hs
  split at hs
  next hphase => exact Option.some.inj hs ▸ .pull hphase
  next hphase =>
    split at hs
    next hz => exact Option.some.inj hs ▸ .sleep hphase hz
    next => exact Option.some.inj hs ▸ .clear hphase
  next hphase =>
    split at hs
    next => exact Option.some.inj hs ▸ .callback hphase
    next => exact Option.some.inj hs ▸ .dispose hphase
  next hphase => exact Option.some.inj hs ▸ .free hphase
  next hphase => exact Option.some.inj hs ▸ .wake hphase
  next => cases hs
  next => cases hs

theorem manage_inv (h : Inv s) (hs : s.manage = some s') : Inv s' := by
  have hcore := h.core
  have hguard := h.guard
  unfold taken disposed at hcore
  cases managed hs with
  | pull hphase =>
    simp only [hphase] at hcore hguard
    exact ⟨hcore.phase _, hguard⟩
  | sleep hphase _ =>
    simp only [hphase] at hcore hguard
    exact ⟨hcore.phase _, hguard⟩
  | clear hphase =>
    simp only [hphase] at hcore
    have hnodup := hcore.nodup
    have halive := hcore.alive
    rw [List.append_nil] at hnodup halive
    exact disposeLoop_inv ⟨hnodup, halive, hcore.conns, hcore.distinct, hcore.gone, hcore.fresh,
      hcore.books, hcore.once⟩ rfl
  | callback hphase =>
    simp only [hphase] at hcore hguard
    exact ⟨hcore.phase _, hguard⟩
  | dispose hphase =>
    simp only [hphase] at hcore hguard
    exact disposeLoop_inv hcore hguard
  | free hphase =>
    simp only [hphase] at hcore hguard
    exact freeLoop_inv ((delete_core hcore).phase _) hguard
  | wake hphase =>
    simp only [hphase] at hcore hguard
    exact ⟨hcore.phase _, hguard⟩

theorem interrupt_inv (h : Inv s) (hs : s.interrupt = some s') : Inv s' := by
  have hcore := h.core
  have hguard := h.guard
  unfold taken disposed at hcore
  unfold interrupt at hs
  split at hs
  next hphase =>
    simp only [hphase] at hcore hguard
    exact Option.some.inj hs ▸ ⟨hcore.phase _, hguard⟩
  next hphase =>
    simp only [hphase] at hcore hguard
    exact Option.some.inj hs ▸ ⟨hcore.phase _, hguard⟩
  next => cases hs

theorem step_inv (h : Inv s) {act : Act} (hok : Permitted s act) (hs : s.step act = some s') :
    Inv s' := by
  cases act with
  | create a =>
    obtain ⟨ha, hs⟩ : a ∉ s.alive ∧ _ := by simpa [step] using hs
    exact hs ▸ create_inv h ha
  | add a =>
    obtain ⟨ha, hs⟩ : a ∈ s.fresh ∧ _ := by simpa only [step, Option.ite_none_right_eq_some] using hs
    exact Option.some.inj hs ▸ add_inv h ha hok
  | remove a =>
    obtain ⟨ha, hs⟩ : a ∈ s.alive ∧ _ := by simpa only [step, Option.ite_none_right_eq_some] using hs
    exact Option.some.inj hs ▸ doRemove_inv h ha hok
  | callback i => exact callback_inv h hs
  | manage => exact manage_inv h hs
  | interrupt => exact interrupt_inv h hs
  | setHandlers n =>
    obtain ⟨hcore, hguard⟩ := h
    exact Option.some.inj hs ▸ ⟨⟨hcore.nodup, hcore.alive, hcore.conns, hcore.distinct, hcore.gone,
      hcore.fresh, hcore.books, hcore.once⟩, hguard⟩

/-- In every run in which no resource is removed that is being freed, and none is added that has been
disposed, all states are safe. -/
theorem safe_of_reaches (h : managerSystem.Reaches Permitted s) : Safe s :=
  Inv.safe (h.invariant inv_new fun _ _ _ hi hok hs => step_inv hi hok hs)

/-- Two connections with one handler, of which the second is removed in the callback for the first. -/
def disposedTwice : List Act :=
  [.setHandlers 1, .create 1, .add 1, .create 2, .add 2, .manage, .manage, .remove 1, .callback 0, .manage,
    .manage, .manage, .remove 2, .remove 1, .manage, .callback 0, .manage]

theorem safe_of_reaches_disposedTwice :
    ∃ s, managerSystem.run disposedTwice new = some s ∧ s.log.getLast? = some (.deleted 1) ∧ Safe s := by
  have hmeets : managerSystem.Meets Permitted disposedTwice new := by decide
  exact ⟨(managerSystem.run disposedTwice new).getD new, by decide, by decide,
    safe_of_reaches (System.reaches_of_run .init hmeets (by decide))⟩

/-- Two connections are freed, and in the destructor of the first the second is removed once more. -/
def freedTwice : List Act :=
  [.create 1, .add 1, .create 2, .add 2, .remove 1, .remove 2, .manage, .manage, .remove 2, .manage,
    .manage, .manage, .manage]

/-- The second one is put back into the zombies, and it is freed again. -/
theorem freed_twice : ∃ s, managerSystem.run freedTwice new = some s ∧
    s.log = [.created 1, .created 2, .deleted 1, .deleted 2, .deleted 2] ∧ ¬ Safe s := by
  refine ⟨(managerSystem.run freedTwice new).getD new, by decide, by decide, ?_⟩
  intro h
  have hlog : ((managerSystem.run freedTwice new).getD new).log =
      [.created 1, .created 2, .deleted 1, .deleted 2] ++ .deleted 2 :: [] := by decide
  exact absurd (h.once _ _ _ hlog) (by decide)

/-! ## No removal is lost -/

/-- Where zombies lie before a manager that sleeps, a call of `remove` has still to signal. -/
def Awaited (s : SrsResourceManager) : Prop :=
  s.phase = .waiting false → s.zombies ≠ [] → s.removals ≠ []

/-- A signal wakes the manager. -/
theorem signal_phase : s.signal.phase ≠ .waiting false := by
  unfold signal
  split
  · simp
  next h =>
    intro hs
    exact h false hs

theorem freeLoop_phase {batch : List Addr} : (freeLoop batch s).phase ≠ .waiting false := by
  cases batch <;> simp [freeLoop]

theorem disposeLoop_phase {rest : List Addr} : ∀ {done : List Addr} {s : SrsResourceManager},
    (disposeLoop done rest s).phase ≠ .waiting false := by
  induction rest with
  | nil => exact freeLoop_phase
  | cons c rest ih =>
    intro done s
    unfold disposeLoop
    by_cases hzero : s.handlers = 0
    · simp only [if_pos hzero]
      exact ih
    · simp only [if_neg hzero]
      simp

/-- The manager falls asleep only where there are no zombies. -/
theorem manage_awaited (hs : s.manage = some s') : Awaited s' := by
  intro hphase' hz'
  cases managed hs with
  | pull _ => exact absurd hphase' (by simp)
  | sleep _ hz => exact absurd hz hz'
  | clear _ => exact absurd hphase' disposeLoop_phase
  | callback _ => exact absurd hphase' (by simp)
  | dispose _ => exact absurd hphase' disposeLoop_phase
  | free _ => exact absurd hphase' freeLoop_phase
  | wake _ => exact absurd hphase' (by simp)

/-- A zombie is pushed by a call of `remove` that signals when its callbacks have returned. -/
theorem doRemove_awaited (h : Awaited s) : Awaited (s.doRemove a) := by
  unfold doRemove
  split
  · exact h
  · split
    · exact fun hphase _ => absurd hphase signal_phase
    · intro _ _
      simp

theorem callback_awaited (h : Awaited s) {i : Nat} (hs : s.callback i = some s') : Awaited s' := by
  unfold callback at hs
  split at hs
  · cases hs
  · split at hs
    · exact fun hphase _ => absurd hphase (Option.some.inj hs ▸ signal_phase)
    · obtain rfl := Option.some.inj hs
      intro hphase hz
      simpa using h hphase hz

theorem step_awaited (h : Awaited s) {act : Act} (hs : s.step act = some s') : Awaited s' := by
  cases act with
  | create a =>
    obtain ⟨-, hs⟩ : a ∉ s.alive ∧ _ := by simpa [step] using hs
    exact hs ▸ h
  | add a =>
    obtain ⟨-, hs⟩ : a ∈ s.fresh ∧ _ := by simpa only [step, Option.ite_none_right_eq_some] using hs
    obtain rfl := Option.some.inj hs
    unfold add
    split
    · exact h
    · exact h
  | remove a =>
    obtain ⟨-, hs⟩ : a ∈ s.alive ∧ _ := by simpa only [step, Option.ite_none_right_eq_some] using hs
    exact Option.some.inj hs ▸ doRemove_awaited h
  | callback i => exact callback_awaited h hs
  | manage => exact manage_awaited hs
  | interrupt =>
    change s.interrupt = some s' at hs
    unfold interrupt at hs
    split at hs
    next => exact fun hphase => absurd hphase (by simp [← Option.some.inj hs])
    next => exact fun hphase => absurd hphase (by simp [← Option.some.inj hs])
    next => cases hs
  | setHandlers n => exact Option.some.inj hs ▸ h

/-- A manager that sleeps, has not been signalled and will not be by a call of `remove` that has
begun, has nothing to free. -/
theorem asleep_of_reaches (h : managerSystem.Reaches (fun _ _ => True) s)
    (hphase : s.phase = .waiting false) (hremovals : s.removals = []) : s.zombies = [] := by
  have hinit : Awaited new := fun hp => ManagerPhase.noConfusion hp
  have hawaited : Awaited s := h.invariant (I := Awaited) hinit fun _ _ _ hi _ hs => step_awaited hi hs
  by_contra hz
  exact hawaited hphase hz hremovals

theorem asleep_of_reaches_disposedTwice :
    ∃ s, managerSystem.run (disposedTwice ++ [.manage, .manage, .manage, .manage]) new = some s ∧
      s.phase = .waiting false ∧ s.zombies = [] := by
  have hmeets : managerSystem.Meets (fun _ _ => True)
      (disposedTwice ++ [.manage, .manage, .manage, .manage]) new := by decide
  exact ⟨(managerSystem.run (disposedTwice ++ [.manage, .manage, .manage, .manage]) new).getD new,
    by decide, by decide,
    asleep_of_reaches (System.reaches_of_run .init hmeets (by decide)) (by decide)
      (by decide)⟩

end SrsResourceManager

end HttpProxy
