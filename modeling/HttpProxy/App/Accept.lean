import HttpProxy.App.Coroutine
import HttpProxy.App.Manager
import HttpProxy.Bytes.Basic

/-!
# A client is accepted

`SrsServer::accept_client` and `fd_to_resource` (`src/app/srs_app_server.cpp`, lines 752-830).  The
socket goes to the resource that is made for it, the resource goes to the manager, and only then its
coroutine is started.

* `acceptClient_owner` — the socket is closed, or owned by a resource that the manager holds.
* `acceptClient_atomic_iff` — an error leaves nothing behind, unless the coroutine could not be started.
* `leaked_of_run` — in that case the resource stays for good, since nobody removes it.
-/

namespace HttpProxy

open SrsResourceManager

/-! ## The server -/

/-- `SrsListenerType`. -/
inductive SrsListenerType
  | rtmpStream | httpApi | httpStream | mpegTsOverUdp | flv | httpsApi | httpsStream | tcp | httpProxy
  deriving DecidableEq, Repr

/-- The types that `fd_to_resource` has a resource for. -/
def SrsListenerType.served : SrsListenerType → Bool
  | httpApi | httpsApi | httpProxy => true
  | _ => false

/-- What `accept_client` meets. -/
structure Arrival where
  /-- `srs_get_peer_ip`. -/
  ip : Bytes
  /-- Whether `fcntl` succeeds with `F_GETFD` and with `F_SETFD`. -/
  getFd : Bool
  setFd : Bool
  emptyIpOk : Bool
  /-- Where `new` places the resource. -/
  resource : Addr
  /-- Whether `st_thread_create` gives a thread. -/
  thread : Bool

/-- The errors of `accept_client`. -/
inductive AcceptError
  /-- `ignore empty ip, fd=%d` -/
  | getPeerIp
  /-- `fnctl F_GETFD error! fd=%d` -/
  | getFileInfo
  /-- `fcntl F_SETFD error! fd=%d` -/
  | setFileInfo
  /-- What `start` of the coroutine returns, as `start conn coroutine`. -/
  | start (code : Nat)
  deriving DecidableEq

/-- The code of an error. -/
def AcceptError.code : AcceptError → Nat
  | getPeerIp => 1006
  | getFileInfo => 1039
  | setFileInfo => 1040
  | start code => code

/-- Who has the accepted socket. -/
inductive AcceptedSocket
  | accepted
  | closed
  /-- The destructor of the resource closes it. -/
  | owned (resource : Addr)
  deriving DecidableEq

/-- `new`: there is one more resource. -/
def SrsResourceManager.create (s : SrsResourceManager) (a : Addr) : SrsResourceManager :=
  { s with alive := a :: s.alive, fresh := a :: s.fresh, log := s.log ++ [.created a] }

/-- `conn_manager->add(resource)`. -/
def SrsResourceManager.enqueue (s : SrsResourceManager) (a : Addr) : SrsResourceManager :=
  add { s with fresh := s.fresh.filter (· ≠ a) } a

/-- `fd_to_resource`: the error, or the resource, if there is one, with the socket and the manager. -/
def fdToResource (type : SrsListenerType) (env : Arrival) (s : SrsResourceManager) :
    Except AcceptError (Option Addr × AcceptedSocket × SrsResourceManager) :=
  if env.ip = [] then .error .getPeerIp
  else if env.getFd = false then .error .getFileInfo
  else if env.setFd = false then .error .setFileInfo
  else if type.served then .ok (some env.resource, .owned env.resource, s.create env.resource)
  -- close for no service handler
  else .ok (none, .closed, s)

/-- What `start` of a new coroutine returns. -/
def startResult (created : Bool) : Option Nat :=
  match (SrsFastCoroutine.new.start created).log.getLast? with
  | some (.started res) => res
  | _ => none

/-- What is left when `accept_client` has returned. -/
structure Accepted where
  err : Option AcceptError
  socket : AcceptedSocket
  manager : SrsResourceManager

/-- `accept_client`. -/
def acceptClient (type : SrsListenerType) (env : Arrival) (s : SrsResourceManager) : Accepted :=
  match fdToResource type env s with
  | .error e =>
      if e = .getPeerIp ∧ env.emptyIpOk = true then ⟨none, .closed, s⟩ else ⟨some e, .closed, s⟩
  -- Ignore if no resource found.
  | .ok (none, socket, s) => ⟨none, socket, s⟩
  | .ok (some resource, socket, s) =>
      match startResult env.thread with
      | some code => ⟨some (.start code), socket, s.enqueue resource⟩
      | none => ⟨none, socket, s.enqueue resource⟩

variable {type : SrsListenerType} {env : Arrival} {s s' : SrsResourceManager} {a : Addr}

/-! ## How it ends -/

/-- A resource has been made, and its coroutine cannot be started. -/
def StartFails (type : SrsListenerType) (env : Arrival) : Prop :=
  env.ip ≠ [] ∧ env.getFd = true ∧ env.setFd = true ∧ type.served = true ∧ env.thread = false

/-- What `accept_client` does: the socket is closed, and the manager is as before; or the resource is
added, with the error of its coroutine or with none. -/
theorem acceptClient_cases (type : SrsListenerType) (env : Arrival) (s : SrsResourceManager) :
    (¬ StartFails type env ∧ ∃ err, acceptClient type env s = ⟨err, .closed, s⟩) ∨
    (¬ StartFails type env ∧
      acceptClient type env s = ⟨none, .owned env.resource, (s.create env.resource).enqueue env.resource⟩) ∨
    (StartFails type env ∧ acceptClient type env s =
      ⟨some (.start ERROR_ST_CREATE_CYCLE_THREAD), .owned env.resource,
        (s.create env.resource).enqueue env.resource⟩) := by
  unfold acceptClient fdToResource
  by_cases hip : env.ip = []
  · refine Or.inl ⟨fun h => h.1 hip, ?_⟩
    rw [if_pos hip]
    dsimp only
    split <;> exact ⟨_, rfl⟩
  rw [if_neg hip]
  by_cases hget : env.getFd = false
  · refine Or.inl ⟨fun h => Bool.false_ne_true (hget.symm.trans h.2.1), ?_⟩
    rw [if_pos hget]
    dsimp only
    split <;> exact ⟨_, rfl⟩
  rw [if_neg hget]
  by_cases hset : env.setFd = false
  · refine Or.inl ⟨fun h => Bool.false_ne_true (hset.symm.trans h.2.2.1), ?_⟩
    rw [if_pos hset]
    dsimp only
    split <;> exact ⟨_, rfl⟩
  rw [if_neg hset]
  by_cases hserved : type.served = true
  · rw [if_pos hserved]
    cases hthread : env.thread with
    | true => exact Or.inr (Or.inl ⟨fun h => Bool.false_ne_true (h.2.2.2.2.symm.trans hthread), rfl⟩)
    | false =>
      rw [Bool.not_eq_false] at hget hset
      exact Or.inr (Or.inr ⟨⟨hip, hget, hset, hserved, hthread⟩, rfl⟩)
  · rw [if_neg hserved]
    exact Or.inl ⟨fun h => hserved h.2.2.2.1, _, rfl⟩

theorem enqueue_mem (s : SrsResourceManager) (a : Addr) : a ∈ (s.enqueue a).conns := by
  unfold enqueue add
  split
  · assumption
  · exact List.mem_append_right _ (List.mem_singleton_self a)

/-- The socket is closed, or owned by a resource that the manager holds. -/
theorem acceptClient_owner (type : SrsListenerType) (env : Arrival) (s : SrsResourceManager) :
    (acceptClient type env s).socket = .closed ∨
      ∃ a, (acceptClient type env s).socket = .owned a ∧ a ∈ (acceptClient type env s).manager.conns := by
  obtain ⟨-, err, h⟩ | ⟨-, h⟩ | ⟨-, h⟩ := acceptClient_cases type env s
  · exact Or.inl (by rw [h])
  · exact Or.inr ⟨_, by rw [h], by rw [h]; exact enqueue_mem _ _⟩
  · exact Or.inr ⟨_, by rw [h], by rw [h]; exact enqueue_mem _ _⟩

/-- The socket is closed, or owned by a resource that is queued for removal. -/
def Accepted.Released (r : Accepted) : Prop :=
  r.socket = .closed ∨ ∃ a, r.socket = .owned a ∧ (a ∈ r.manager.zombies ∨ a ∈ r.manager.taken)

/-- An error leaves the same connections behind, and the socket is released. -/
def Accepted.Atomic (s : SrsResourceManager) (r : Accepted) : Prop :=
  r.err ≠ none → (∀ a, a ∈ r.manager.conns ↔ a ∈ s.conns) ∧ r.Released

/-- With a resource that is new to the manager, `accept_client` is atomic exactly where it is not the
start of the coroutine that fails. -/
theorem acceptClient_atomic_iff (type : SrsListenerType) (hnew : env.resource ∉ s.conns) :
    (acceptClient type env s).Atomic s ↔ ¬ StartFails type env := by
  obtain ⟨hno, err, h⟩ | ⟨hno, h⟩ | ⟨hyes, h⟩ := acceptClient_cases type env s
  · rw [h]
    exact iff_of_true (fun _ => ⟨fun a => Iff.rfl, Or.inl rfl⟩) hno
  · rw [h]
    exact iff_of_true (fun herr => absurd rfl herr) hno
  · rw [h]
    refine iff_of_false (fun hatomic => ?_) (not_not_intro hyes)
    exact hnew (((hatomic (Option.some_ne_none _)).1 env.resource).1 (enqueue_mem _ _))

/-- The proxy accepts a client, and there is no memory for a coroutine. -/
def noThread : Arrival :=
  { ip := str "127.0.0.1", getFd := true, setFd := true, emptyIpOk := true, resource := 1, thread := false }

/-- The new connection is held, it is not queued for removal, and it has the socket. -/
theorem accept_noThread :
    ¬ (acceptClient .httpProxy noThread new).Atomic new ∧
      (acceptClient .httpProxy noThread new).manager.conns = [1] ∧
      ¬ (acceptClient .httpProxy noThread new).Released := by
  refine ⟨fun h => ?_, rfl, ?_⟩
  · exact absurd (((h (Option.some_ne_none _)).1 1).1 (List.mem_singleton_self 1)) (by decide)
  · rintro (h | ⟨a, -, h | h⟩)
    · cases h
    · cases h
    · cases h

theorem acceptClient_atomic_iff_noThread :
    (acceptClient .httpProxy noThread new).Atomic new ↔ ¬ StartFails .httpProxy noThread :=
  acceptClient_atomic_iff .httpProxy (by decide)

/-! ## What becomes of the resource -/

/-- The manager behind `new` and `add` is the one behind these two acts. -/
theorem run_create_add (h : a ∉ s.alive) :
    managerSystem.run [.create a, .add a] s = some ((s.create a).enqueue a) := by
  have hcreate : managerSystem.step s (.create a) = some (s.create a) := if_neg h
  have hadd : managerSystem.step (s.create a) (.add a) = some ((s.create a).enqueue a) :=
    if_pos List.mem_cons_self
  rw [System.run, hcreate]
  dsimp only
  rw [System.run, hadd]
  rfl

/-- A resource that exists and is held, and that nobody has removed. -/
structure Held (a : Addr) (s : SrsResourceManager) : Prop where
  conns : a ∈ s.conns
  alive : a ∈ s.alive
  zombies : a ∉ s.zombies
  taken : a ∉ s.taken

theorem held_freeLoop {batch : List Addr} (h : Held a { s with phase := .testing }) (hbatch : a ∉ batch) :
    Held a (freeLoop batch s) := by
  cases batch with
  | nil => exact h
  | cons c rest => exact ⟨h.conns, h.alive, h.zombies, hbatch⟩

/-- A batch without the resource is disposed. -/
theorem held_disposeLoop {rest : List Addr} : ∀ {done : List Addr} {s : SrsResourceManager},
    Held a { s with phase := .testing } → a ∉ done ++ rest → Held a (disposeLoop done rest s) := by
  induction rest with
  | nil =>
    intro done s h hbatch
    rw [List.append_nil] at hbatch
    exact held_freeLoop ⟨h.conns, h.alive, h.zombies, List.not_mem_nil⟩ hbatch
  | cons c rest ih =>
    intro done s h hbatch
    have hne : a ≠ c := by
      rintro rfl
      exact hbatch (by simp)
    have hbatch' : a ∉ done ++ [c] ++ rest := by simpa using hbatch
    have hconns : a ∈ s.conns.erase c := (List.mem_erase_of_ne hne).2 h.conns
    unfold disposeLoop
    by_cases hzero : s.handlers = 0
    · simp only [if_pos hzero]
      exact ih ⟨hconns, h.alive, h.zombies, List.not_mem_nil⟩ hbatch'
    · simp only [if_neg hzero]
      exact ⟨hconns, h.alive, h.zombies, hbatch'⟩

theorem held_manage (h : Held a s) (hs : s.manage = some s') : Held a s' := by
  have htaken := h.taken
  unfold taken at htaken
  cases managed hs with
  | pull _ => exact ⟨h.conns, h.alive, h.zombies, List.not_mem_nil⟩
  | sleep _ _ => exact ⟨h.conns, h.alive, h.zombies, List.not_mem_nil⟩
  | clear _ => exact held_disposeLoop ⟨h.conns, h.alive, List.not_mem_nil, List.not_mem_nil⟩ h.zombies
  | callback hphase =>
    rw [hphase] at htaken
    exact ⟨h.conns, h.alive, h.zombies, htaken⟩
  | dispose hphase =>
    rw [hphase] at htaken
    exact held_disposeLoop ⟨h.conns, h.alive, h.zombies, List.not_mem_nil⟩ htaken
  | @free c rest hphase =>
    rw [hphase] at htaken
    obtain ⟨hne, hrest⟩ := not_or.1 (mt List.mem_cons.2 htaken)
    have halive : a ∈ s.alive.filter (· ≠ c) := List.mem_filter.2 ⟨h.alive, by simpa using hne⟩
    exact held_freeLoop ⟨h.conns, halive, h.zombies, List.not_mem_nil⟩ hrest
  | wake _ => exact ⟨h.conns, h.alive, h.zombies, List.not_mem_nil⟩

theorem held_signal (h : Held a s) : Held a s.signal := by
  unfold signal
  split
  · exact ⟨h.conns, h.alive, h.zombies, List.not_mem_nil⟩
  · exact h

theorem held_remove {b : Addr} (h : Held a s) (hb : b ≠ a) : Held a (s.doRemove b) := by
  have hzombies : a ∉ s.zombies ++ [b] := by
    rw [List.mem_append, List.mem_singleton, not_or]
    exact ⟨h.zombies, Ne.symm hb⟩
  unfold doRemove
  split
  · exact h
  · split
    · exact held_signal ⟨h.conns, h.alive, hzombies, h.taken⟩
    · exact ⟨h.conns, h.alive, hzombies, h.taken⟩

/-- No act but its removal changes anything for a resource. -/
theorem held_step (h : Held a s) {act : Act} (hact : act ≠ .remove a) (hs : s.step act = some s') :
    Held a s' := by
  cases act with
  | create b =>
    obtain ⟨-, rfl⟩ : b ∉ s.alive ∧ _ := by simpa [step] using hs
    exact ⟨h.conns, List.mem_cons_of_mem _ h.alive, h.zombies, h.taken⟩
  | add b =>
    obtain ⟨-, hs⟩ : b ∈ s.fresh ∧ _ := by simpa only [step, Option.ite_none_right_eq_some] using hs
    obtain rfl := Option.some.inj hs
    unfold add
    split
    · exact ⟨h.conns, h.alive, h.zombies, h.taken⟩
    · exact ⟨List.mem_append_left _ h.conns, h.alive, h.zombies, h.taken⟩
  | remove b =>
    obtain ⟨-, hs⟩ : b ∈ s.alive ∧ _ := by simpa only [step, Option.ite_none_right_eq_some] using hs
    have hne : b ≠ a := fun heq => hact (congrArg Act.remove heq)
    exact Option.some.inj hs ▸ held_remove h hne
  | callback i =>
    change s.callback i = some s' at hs
    unfold callback at hs
    split at hs
    · cases hs
    · split at hs
      · exact Option.some.inj hs ▸ held_signal ⟨h.conns, h.alive, h.zombies, h.taken⟩
      · exact Option.some.inj hs ▸ ⟨h.conns, h.alive, h.zombies, h.taken⟩
  | manage => exact held_manage h hs
  | interrupt =>
    change s.interrupt = some s' at hs
    unfold interrupt at hs
    split at hs
    · exact Option.some.inj hs ▸ ⟨h.conns, h.alive, h.zombies, List.not_mem_nil⟩
    · exact Option.some.inj hs ▸ ⟨h.conns, h.alive, h.zombies, List.not_mem_nil⟩
    · cases hs
  | setHandlers n => exact Option.some.inj hs ▸ ⟨h.conns, h.alive, h.zombies, h.taken⟩

/-- A resource whose coroutine could not be started is in the manager for good: nobody but its own
coroutine removes it. -/
theorem leaked_of_run {acts : List Act} (hnew : env.resource ∉ s.zombies ++ s.taken)
    (hfails : StartFails type env) (hacts : .remove env.resource ∉ acts)
    (hrun : managerSystem.run acts (acceptClient type env s).manager = some s') :
    (acceptClient type env s).socket = .owned env.resource ∧ Held env.resource s' := by
  rw [List.mem_append, not_or] at hnew
  obtain ⟨hno, -⟩ | ⟨hno, -⟩ | ⟨-, h⟩ := acceptClient_cases type env s
  · exact absurd hfails hno
  · exact absurd hfails hno
  rw [h] at hrun ⊢
  refine ⟨rfl, ?_⟩
  have hheld : Held env.resource ((s.create env.resource).enqueue env.resource) := by
    refine ⟨enqueue_mem _ _, ?_, ?_, ?_⟩
    all_goals unfold enqueue add; split
    · exact List.mem_cons_self
    · exact List.mem_cons_self
    · exact hnew.1
    · exact hnew.1
    · exact hnew.2
    · exact hnew.2
  refine System.run_invariant (I := Held env.resource)
    (fun act hact s s' hI hs => held_step hI ?_ hs) hheld hrun
  rintro rfl
  exact hacts hact

end HttpProxy
