import HttpProxy.Control.System

/-!
# `SrsFastCoroutine`: the life of a coroutine

`src/app/srs_app_st.cpp`, lines 115-292.  Other coroutines start it, interrupt it, stop it and pull
its error, in any order; its body runs in between, from its first scheduling to the return of `pfn`.
`srs_thread_join` waits for this return and hands out what `pfn` has returned.

Errors have an identity: `stop` compares pointers.  An address is never used again here, which makes
the comparison as strict as it can be.

* `coroutineSystem` — the coroutine with everything that may happen around it.
* `LifeCycle` — what holds of the calls and of what they return.
* `Inv` — how the flags, the thread and the shared error are related.
* `lifeCycle_of_reaches` — the life cycle is as it should be, whatever the order of the calls.
-/

namespace HttpProxy

/-- `ERROR_ST_CREATE_CYCLE_THREAD`. -/
def ERROR_ST_CREATE_CYCLE_THREAD : Nat := 1017

/-- `ERROR_THREAD_DISPOSED`. -/
def ERROR_THREAD_DISPOSED : Nat := 1069

/-- `ERROR_THREAD_INTERRUPED`. -/
def ERROR_THREAD_INTERRUPED : Nat := 1070

/-- `ERROR_THREAD_TERMINATED`. -/
def ERROR_THREAD_TERMINATED : Nat := 1071

/-- `ERROR_THREAD_STARTED`. -/
def ERROR_THREAD_STARTED : Nat := 1078

/-- A `srs_error_t` that is not NULL. -/
structure ErrorPtr where
  address : Nat
  code : Nat
  deriving DecidableEq, Repr

/-- The thread of the coroutine. -/
inductive Thread
  /-- `trd` is NULL. -/
  | null
  /-- Created, and not scheduled yet. -/
  | ready
  /-- In `handler->cycle()`. -/
  | running
  /-- `pfn` has returned. -/
  | finished (res : Option ErrorPtr)
  deriving DecidableEq, Repr

/-- The calls, and what they return; `none` is success. -/
inductive LifeEvent
  | started (res : Option Nat)
  | pulled (res : Option Nat)
  | stopping
  | stopped
  /-- `handler->cycle()` is entered. -/
  | entered
  /-- `handler->cycle()` returns. -/
  | cycled (res : Option Nat)
  /-- An assertion in `stop` fails. -/
  | assertFailed
  deriving DecidableEq, Repr

/-- `SrsFastCoroutine`. -/
structure SrsFastCoroutine where
  trd : Thread
  trdErr : Option ErrorPtr
  started : Bool
  interrupted : Bool
  disposed : Bool
  cycleDone : Bool
  stopping : Bool
  /-- The next address that is free. -/
  free : Nat
  log : List LifeEvent
  deriving DecidableEq, Repr

namespace SrsFastCoroutine

/-- The constructor. -/
def new : SrsFastCoroutine := ⟨.null, none, false, false, false, false, false, 0, []⟩

/-- Note an event. -/
def emit (s : SrsFastCoroutine) (e : LifeEvent) : SrsFastCoroutine := { s with log := s.log ++ [e] }

/-- `trd_err` is a new error. -/
def raise (s : SrsFastCoroutine) (code : Nat) : SrsFastCoroutine :=
  { s with trdErr := some ⟨s.free, code⟩, free := s.free + 1 }

/-- `trd_err` is a new error, unless there is one already. -/
def raiseFirst (s : SrsFastCoroutine) (code : Nat) : SrsFastCoroutine :=
  if s.trdErr = none then s.raise code else s

/-- `start`; the thread is created or not. -/
def start (s : SrsFastCoroutine) (created : Bool) : SrsFastCoroutine :=
  if s.started || s.disposed then
    let code := if s.disposed then ERROR_THREAD_DISPOSED else ERROR_THREAD_STARTED
    (s.raiseFirst code).emit (.started (some code))
  else if !created then
    (raise { s with trd := .null } ERROR_ST_CREATE_CYCLE_THREAD).emit
      (.started (some ERROR_ST_CREATE_CYCLE_THREAD))
  else emit { s with trd := .ready, started := true } (.started none)

/-- `interrupt`. -/
def interrupt (s : SrsFastCoroutine) : SrsFastCoroutine :=
  if !s.started || s.interrupted || s.cycleDone then s
  else raiseFirst { s with interrupted := true } ERROR_THREAD_INTERRUPED

/-- `pull`. -/
def pull (s : SrsFastCoroutine) : SrsFastCoroutine := s.emit (.pulled (s.trdErr.map (·.code)))

/-- The rest of `stop`, behind the join. -/
def endStop (s : SrsFastCoroutine) : SrsFastCoroutine :=
  emit { (if s.cycleDone then s else s.raiseFirst ERROR_THREAD_TERMINATED) with stopping := false }
    .stopped

/-- `stop`, up to its return or up to the join. -/
def stop (s : SrsFastCoroutine) : SrsFastCoroutine :=
  if s.disposed then (s.emit .stopping).emit (if s.stopping then .assertFailed else .stopped)
  else
    let s := interrupt { s.emit .stopping with disposed := true, stopping := true }
    -- When not started, the trd is NULL.
    if s.trd = .null then s.endStop else s

/-- The join of a `stop` returns: the error of the worker is the one in `trd_err`. -/
def join (s : SrsFastCoroutine) : Option SrsFastCoroutine :=
  match s.stopping, s.trd with
  | true, .finished (some err) => some (if s.trdErr = some err then s.endStop else s.emit .assertFailed)
  | true, .finished none => some s.endStop
  | _, _ => none

/-- The thread is scheduled for the first time. -/
def enter (s : SrsFastCoroutine) : Option SrsFastCoroutine :=
  if s.trd = .ready then some (emit { s with trd := .running } .entered) else none

/-- `handler->cycle()` returns, and `cycle` and `pfn` after it.  The error of `pfn` replaces the one that
is there. -/
def finish (s : SrsFastCoroutine) (res : Option Nat) : Option SrsFastCoroutine :=
  if s.trd = .running then
    match res with
    | some code =>
        let s := s.raise code
        some (emit { s with trd := .finished s.trdErr } (.cycled (some code)))
    | none => some (emit { s with trd := .finished none, cycleDone := true } (.cycled none))
  else none

/-- What may happen. -/
inductive Act
  | start (created : Bool)
  | interrupt
  | pull
  | stop
  | join
  | enter
  | finish (res : Option Nat)

/-- What an act leads to. -/
def step (s : SrsFastCoroutine) : Act → Option SrsFastCoroutine
  | .start created => some (s.start created)
  | .interrupt => some s.interrupt
  | .pull => some s.pull
  | .stop => some s.stop
  | .join => s.join
  | .enter => s.enter
  | .finish res => s.finish res

/-- The coroutine among the others. -/
def coroutineSystem : System SrsFastCoroutine Act := ⟨new, step⟩

/-- Nobody calls `stop` while another `stop` is joining. -/
def OneStop (s : SrsFastCoroutine) : Act → Prop
  | .stop => s.stopping = false
  | _ => True

/-! ## The life cycle -/

/-- What holds of the calls, in their order. -/
structure LifeCycle (log : List LifeEvent) : Prop where
  once : log.count .entered ≤ 1
  /-- An error stays. -/
  sticky : Always (fun pre e => e = .pulled none → ∀ code, .pulled (some code) ∉ pre) log
  /-- It is started once, and not after a stop. -/
  refused : Always (fun pre e => .started none ∈ pre ∨ .stopping ∈ pre → e ≠ .started none) log
  asserted : .assertFailed ∉ log
  /-- After a stop, success is the success of the body. -/
  truthful : Always (fun pre e => e = .pulled none → .stopped ∈ pre → .cycled none ∈ pre) log

/-- The thread has entered `handler->cycle()`. -/
def Thread.hasEntered : Thread → Bool
  | .null | .ready => false
  | .running | .finished _ => true

/-- The flags, the thread, the shared error and the log. -/
structure Inv (s : SrsFastCoroutine) : Prop where
  thread : s.started = true ↔ s.trd ≠ .null
  result : ∀ err, s.trd = .finished (some err) → s.trdErr = some err
  done : s.cycleDone = true ↔ s.trd = .finished none
  entered : s.log.count .entered = if Thread.hasEntered s.trd then 1 else 0
  cycled : s.cycleDone = true → .cycled none ∈ s.log
  pulled : ∀ code, .pulled (some code) ∈ s.log → s.trdErr ≠ none
  started : .started none ∈ s.log → s.started = true
  disposed : .stopping ∈ s.log → s.disposed = true
  stopped : .stopped ∈ s.log → s.trdErr ≠ none ∨ s.cycleDone = true
  ended : s.disposed = true → s.stopping = false → s.trdErr ≠ none ∨ s.cycleDone = true
  life : LifeCycle s.log

theorem inv_new : Inv new where
  thread := by simp [new]
  result := by simp [new]
  done := by simp [new]
  entered := rfl
  cycled := by simp [new]
  pulled := by simp [new]
  started := by simp [new]
  disposed := by simp [new]
  stopped := by simp [new]
  ended := by simp [new]
  life := ⟨by simp [new], always_nil, always_nil, by simp [new], always_nil⟩

variable {s s' : SrsFastCoroutine}

/-- A new error changes nothing else, when it is not the result of the thread that is replaced. -/
theorem Inv.raise (h : Inv s) (hfree : ∀ err, s.trd ≠ .finished (some err)) (code : Nat) :
    Inv (s.raise code) :=
  { h with
    result := fun err herr => absurd herr (hfree err)
    pulled := fun _ _ => by simp [SrsFastCoroutine.raise]
    stopped := fun _ => Or.inl (by simp [SrsFastCoroutine.raise])
    ended := fun _ _ => Or.inl (by simp [SrsFastCoroutine.raise]) }

theorem Inv.raiseFirst (h : Inv s) (code : Nat) : Inv (s.raiseFirst code) := by
  rw [SrsFastCoroutine.raiseFirst]
  split
  · rename_i hnone
    refine h.raise (fun err herr => ?_) code
    rw [h.result err herr] at hnone
    exact absurd hnone (by simp)
  · exact h

theorem raiseFirst_ne_none (s : SrsFastCoroutine) (code : Nat) : (s.raiseFirst code).trdErr ≠ none := by
  rw [SrsFastCoroutine.raiseFirst]
  split
  · simp [SrsFastCoroutine.raise]
  · assumption

/-- An event that may be noted in this state. -/
def Fits (s : SrsFastCoroutine) : LifeEvent → Prop
  | .started none => s.started = true ∧ .started none ∉ s.log ∧ .stopping ∉ s.log
  | .started (some _) => True
  | .pulled res => res = s.trdErr.map (·.code)
  | .stopping => s.disposed = true
  | .stopped => s.trdErr ≠ none ∨ s.cycleDone = true
  | .cycled _ => True
  | .entered | .assertFailed => False

theorem LifeCycle.emit (h : Inv s) {e : LifeEvent} (he : Fits s e) : LifeCycle (s.log ++ [e]) where
  once := by
    have hne : e ≠ .entered := by
      rintro rfl
      exact he
    rw [List.count_append, List.count_singleton, if_neg (by simpa using hne)]
    exact h.life.once
  sticky := h.life.sticky.concat <| by
    rintro rfl code hmem
    have hnone : none = s.trdErr.map (·.code) := he
    exact h.pulled code hmem (Option.map_eq_none_iff.1 hnone.symm)
  refused := h.life.refused.concat <| by
    rintro hor rfl
    obtain ⟨-, h1, h2⟩ := he
    exact hor.elim h1 h2
  asserted := by
    rw [List.mem_append, List.mem_singleton, not_or]
    refine ⟨h.life.asserted, ?_⟩
    rintro rfl
    exact he
  truthful := h.life.truthful.concat <| by
    rintro rfl hstopped
    have hnone : none = s.trdErr.map (·.code) := he
    exact h.cycled ((h.stopped hstopped).resolve_left fun hne =>
      hne (Option.map_eq_none_iff.1 hnone.symm))

theorem Inv.emit (h : Inv s) {e : LifeEvent} (he : Fits s e) : Inv (s.emit e) where
  thread := h.thread
  result := h.result
  done := h.done
  entered := by
    have hne : e ≠ .entered := by
      rintro rfl
      exact he
    show (s.log ++ [e]).count .entered = _
    rw [List.count_append, List.count_singleton, if_neg (by simpa using hne)]
    exact h.entered
  cycled hdone := List.mem_append_left _ (h.cycled hdone)
  pulled code hmem := by
    rcases List.mem_append.1 hmem with hmem | hmem
    · exact h.pulled code hmem
    · obtain rfl := List.mem_singleton.1 hmem
      have hsome : some code = s.trdErr.map (·.code) := he
      intro hnone
      have hnone' : s.trdErr = none := hnone
      rw [hnone'] at hsome
      cases hsome
  started hmem := by
    rcases List.mem_append.1 hmem with hmem | hmem
    · exact h.started hmem
    · obtain rfl := List.mem_singleton.1 hmem
      exact he.1
  disposed hmem := by
    rcases List.mem_append.1 hmem with hmem | hmem
    · exact h.disposed hmem
    · obtain rfl := List.mem_singleton.1 hmem
      exact he
  stopped hmem := by
    rcases List.mem_append.1 hmem with hmem | hmem
    · exact h.stopped hmem
    · obtain rfl := List.mem_singleton.1 hmem
      exact he
  ended := h.ended
  life := LifeCycle.emit h he

/-! ## The calls -/

theorem start_inv (h : Inv s) (created : Bool) : Inv (s.start created) := by
  rw [start]
  by_cases hrefused : (s.started || s.disposed) = true
  · rw [if_pos hrefused]
    exact (h.raiseFirst _).emit trivial
  · rw [if_neg hrefused]
    rw [Bool.not_eq_true, Bool.or_eq_false_iff] at hrefused
    have hnull : s.trd = .null := by
      by_contra hne
      rw [h.thread.2 hne] at hrefused
      exact absurd hrefused.1 (by simp)
    have hstarted : .started none ∉ s.log := by
      intro hmem
      rw [h.started hmem] at hrefused
      exact absurd hrefused.1 (by simp)
    have hstopping : .stopping ∉ s.log := by
      intro hmem
      rw [h.disposed hmem] at hrefused
      exact absurd hrefused.2 (by simp)
    have hundone : s.cycleDone = false := by
      rw [← Bool.not_eq_true, h.done, hnull]
      simp
    cases created with
    | false =>
      have hsame : ({ s with trd := .null } : SrsFastCoroutine) = s := by rw [← hnull]
      simp only [Bool.not_false, if_true, hsame]
      exact (h.raise (fun err herr => by rw [hnull] at herr; cases herr) _).emit trivial
    | true =>
      have hready : Inv { s with trd := .ready, started := true } :=
        { h with
          thread := by simp
          result := by simp
          done := by simp [hundone]
          entered := by
            have hentered := h.entered
            rw [hnull] at hentered
            exact hentered
          started := fun _ => rfl }
      exact hready.emit ⟨rfl, hstarted, hstopping⟩

theorem interrupt_inv (h : Inv s) : Inv s.interrupt := by
  rw [interrupt]
  split
  · exact h
  · have hset : Inv { s with interrupted := true } := { h with }
    exact hset.raiseFirst _

theorem pull_inv (h : Inv s) : Inv s.pull := h.emit rfl

/-- At the end of a `stop` there is an error, or the body has returned success. -/
theorem endStop_inv (h : Inv s) : Inv s.endStop := by
  rw [endStop]
  by_cases hdone : s.cycleDone = true
  · rw [if_pos hdone]
    have hset : Inv { s with stopping := false } := { h with ended := fun _ _ => Or.inr hdone }
    exact hset.emit (Or.inr hdone)
  · rw [if_neg hdone]
    have hsome : (s.raiseFirst ERROR_THREAD_TERMINATED).trdErr ≠ none := raiseFirst_ne_none s _
    have hraised := h.raiseFirst ERROR_THREAD_TERMINATED
    have hset : Inv { s.raiseFirst ERROR_THREAD_TERMINATED with stopping := false } :=
      { hraised with ended := fun _ _ => Or.inl hsome }
    exact hset.emit (Or.inl hsome)

theorem stop_inv (h : Inv s) (hone : s.stopping = false) : Inv s.stop := by
  rw [stop]
  by_cases hdisposed : s.disposed = true
  · rw [if_pos hdisposed, hone, if_neg Bool.false_ne_true]
    have hcalled : Inv (s.emit .stopping) := h.emit hdisposed
    exact hcalled.emit (h.ended hdisposed hone)
  · rw [if_neg hdisposed]
    have hset : Inv { s with disposed := true, stopping := true } :=
      { h with
        disposed := fun _ => rfl
        ended := by simp }
    have hcalled : Inv (emit { s with disposed := true, stopping := true } .stopping) :=
      hset.emit rfl
    have hinterrupted := interrupt_inv hcalled
    simp only
    split
    · exact endStop_inv hinterrupted
    · exact hinterrupted

/-- The assertion behind the join does not fail. -/
theorem join_inv (h : Inv s) (hj : s.join = some s') : Inv s' := by
  unfold join at hj
  split at hj
  · rename_i err _ htrd
    rw [if_pos (h.result err htrd), Option.some.injEq] at hj
    exact hj ▸ endStop_inv h
  · rw [Option.some.injEq] at hj
    exact hj ▸ endStop_inv h
  · cases hj

theorem enter_inv (h : Inv s) (he : s.enter = some s') : Inv s' := by
  rw [enter] at he
  split at he
  · rename_i hready
    cases he
    have hentered := h.entered
    rw [hready] at hentered
    have hcount : (s.log ++ [LifeEvent.entered]).count .entered = 1 := by
      rw [List.count_append, hentered]
      rfl
    have hmem : ∀ {e : LifeEvent}, e ∈ s.log ++ [.entered] → e ≠ .entered → e ∈ s.log := by
      intro e hmem hne
      exact (List.mem_append.1 hmem).resolve_right fun hc => hne (List.mem_singleton.1 hc)
    exact
      { thread := by
          have hthread := h.thread
          rw [hready] at hthread
          simpa [emit] using hthread
        result := by simp [emit]
        done := by
          have hdone := h.done
          rw [hready] at hdone
          simpa [emit] using hdone
        entered := hcount
        cycled := fun hdone => List.mem_append_left _ (h.cycled hdone)
        pulled := fun code hp => h.pulled code (hmem hp (by simp))
        started := fun hp => h.started (hmem hp (by simp))
        disposed := fun hp => h.disposed (hmem hp (by simp))
        stopped := fun hp => h.stopped (hmem hp (by simp))
        ended := h.ended
        life :=
          { once := hcount.le
            sticky := h.life.sticky.concat (by simp)
            refused := h.life.refused.concat (by simp)
            asserted := fun hc => h.life.asserted (hmem hc (by simp))
            truthful := h.life.truthful.concat (by simp) } }
  · cases he

theorem finish_inv (h : Inv s) {res : Option Nat} (hf : s.finish res = some s') : Inv s' := by
  unfold finish at hf
  split at hf
  · rename_i hrunning
    have hentered := h.entered
    have hthread := h.thread
    rw [hrunning] at hentered hthread
    have hundone : s.cycleDone = false := by
      rw [← Bool.not_eq_true, h.done, hrunning]
      simp
    cases res with
    | some code =>
      cases hf
      have hraised := h.raise (fun err herr => by rw [hrunning] at herr; cases herr) code
      have hset : Inv { s.raise code with trd := .finished (s.raise code).trdErr } :=
        { hraised with
          thread := by simpa [raise] using hthread
          result := fun err herr => by
            injection herr
          done := by simp [raise, hundone]
          entered := hentered }
      exact hset.emit trivial
    | none =>
      cases hf
      have hnoted : Inv (s.emit (.cycled none)) := h.emit trivial
      exact
        { hnoted with
          thread := by simpa [emit] using hthread
          result := by simp [emit]
          done := by simp [emit]
          entered := hnoted.entered.trans (by simp [emit, hrunning, Thread.hasEntered])
          cycled := fun _ => List.mem_append_right _ List.mem_cons_self
          stopped := fun _ => Or.inr rfl
          ended := fun _ _ => Or.inr rfl }
  · cases hf

theorem step_inv {act : Act} (h : Inv s) (hok : OneStop s act) (hs : s.step act = some s') :
    Inv s' := by
  cases act with
  | start created =>
    cases hs
    exact start_inv h created
  | interrupt =>
    cases hs
    exact interrupt_inv h
  | pull =>
    cases hs
    exact pull_inv h
  | stop =>
    cases hs
    exact stop_inv h hok
  | join => exact join_inv h hs
  | enter => exact enter_inv h hs
  | finish res => exact finish_inv h hs

/-- **The life cycle**, for every order of the calls, every outcome of the creation and every end of the
body: the body is entered once, an error stays, a second start is refused, the assertion behind the join
holds, and after a stop `pull` succeeds only if the body has returned success. -/
theorem lifeCycle_of_reaches (h : coroutineSystem.Reaches OneStop s) : LifeCycle s.log :=
  (h.invariant inv_new fun _ _ _ hs hok hstep => step_inv hs hok hstep).life

/-- A coroutine whose body fails while it is stopped. -/
def stoppedWhileRunning : List Act :=
  [.start false, .start true, .enter, .pull, .stop, .start true, .finish (some 1009), .pull, .join, .pull]

theorem lifeCycle_of_reaches_stopped :
    ∃ s, coroutineSystem.run stoppedWhileRunning new = some s ∧ LifeCycle s.log := by
  obtain ⟨s, hs⟩ : ∃ s, coroutineSystem.run stoppedWhileRunning new = some s :=
    Option.isSome_iff_exists.1 (by decide)
  have hmeets : coroutineSystem.Meets OneStop stoppedWhileRunning new := by
    refine ⟨trivial, trivial, trivial, trivial, rfl, trivial, trivial, trivial, trivial, trivial, trivial⟩
  exact ⟨s, hs, lifeCycle_of_reaches (System.reaches_of_run .init hmeets hs)⟩

end SrsFastCoroutine

end HttpProxy
