import HttpProxy.App.Tunnel

/-!
# What the tunnel loses

`pass` (`src/app/srs_app_http_conn.cpp`, lines 1089-1111) compares the number of bytes it has read with
itself, where it means the number it has written: it returns 0 after every read, whatever becomes of the
block.

* `Sink.Takes`, `WholeWrites` — the next write is not cut short.
* `Faithful` — each side has received what has been read from the other.
* `moments` — the states of the loop of `processHttpsTunnel`, after each pass.
* `tunnel_faithful_iff` — a pass, and a run of the loop, lose nothing exactly if no write is cut short.
-/

namespace HttpProxy

/-- The next write does not end before all of the bytes are sent. -/
def Sink.Takes (out : Sink) (bs : Bytes) : Prop := ∀ n e es, out.future = .error n e :: es → bs.length ≤ n

theorem Sink.takes_iff {out : Sink} {bs : Bytes} : (out.write bs).2.sent = out.sent ++ bs ↔ out.Takes bs := by
  unfold write Takes
  cases out.future with
  | nil => exact iff_of_true rfl (by simp)
  | cons ev es =>
    cases ev with
    | ok => exact iff_of_true rfl (by simp)
    | error n e =>
      have hlen : bs.take n = bs ↔ bs.length ≤ n := List.take_eq_self_iff bs
      simp only [List.append_cancel_left_eq, hlen]
      constructor
      · intro hle n' e' es' heq
        cases heq
        exact hle
      · intro h
        exact h n e es rfl

namespace SrsHttpxProxyConn

variable {req : SrsHttpMessage} {c s : SrsHttpxProxyConn} {b : Bool} {bs : Bytes}

/-- The block that a pass in the direction `b` reads, if it reads one. -/
def block? (c : SrsHttpxProxyConn) (b : Bool) : Option Bytes :=
  (((if b then c.client .http else c.server .http).skt.read IOBUFSIZE).1).toOption

/-- The transport that it writes to. -/
def outOf (c : SrsHttpxProxyConn) (b : Bool) : Sink :=
  if b then (c.server .http).out else (c.client .http).out

/-- The write of the pass is not cut short. -/
def WholeWrites (c : SrsHttpxProxyConn) (b : Bool) : Prop := ∀ bs, c.block? b = some bs → (c.outOf b).Takes bs

/-- A pass returns 0 only if all bytes that it has read have been written to the other side. -/
def PassFaithful (req : SrsHttpMessage) (b : Bool) (c : SrsHttpxProxyConn) : Prop :=
  (pass req b c).1 = true → ∀ bs, c.block? b = some bs →
    (pass req b c).2.receivedBy .http b = c.receivedBy .http b ++ bs

/-- The bytes that have been read for the direction `b`. -/
def readFor (b : Bool) (events : List Event) : Bytes :=
  events.flatMap fun
    | .tunnelled _ toServer bytes => if toServer = b then bytes else []
    | _ => []

/-- Since `c`, each side has received exactly what has been read from the other. -/
structure Faithful (c s : SrsHttpxProxyConn) : Prop where
  later : c.trace.length ≤ s.trace.length
  received : ∀ b, s.receivedBy .http b = c.receivedBy .http b ++ readFor b (s.trace.drop c.trace.length)

/-- The states of the loop, before and after each pass. -/
def moments (req : SrsHttpMessage) : List (Option (Bool × Bool)) → SrsHttpxProxyConn → List SrsHttpxProxyConn
  | [], c => [c]
  | none :: _, c => [c]
  | some (fromClient, fromServer) :: polls, c =>
      let r₁ := passIf fromClient req true c
      let r₂ := passIf fromServer req false r₁.2
      c :: r₁.2 :: if r₁.1 then r₂.2 :: if r₂.1 then moments req polls r₂.2 else [] else []

/-- No write of the loop is cut short. -/
def Completes (req : SrsHttpMessage) : List (Option (Bool × Bool)) → SrsHttpxProxyConn → Prop
  | [], _ => True
  | none :: _, _ => True
  | some (fromClient, fromServer) :: polls, c =>
      let r₁ := passIf fromClient req true c
      let r₂ := passIf fromServer req false r₁.2
      (fromClient = true → c.WholeWrites true) ∧ (r₁.1 = true →
        (fromServer = true → r₁.2.WholeWrites false) ∧ (r₂.1 = true → Completes req polls r₂.2))

/-! ## One pass -/

theorem receivedBy_outOf (c : SrsHttpxProxyConn) (b : Bool) : c.receivedBy .http b = (c.outOf b).sent := by
  cases b <;> rfl

/-- Nothing is read: the loop ends, and nothing has changed but the socket. -/
theorem pass_none (req : SrsHttpMessage) (hc : c.dest? ≠ none) (h : c.block? b = none) :
    (pass req b c).1 = false ∧ (pass req b c).2.trace = c.trace ∧ (pass req b c).2.dest? = c.dest? ∧
      ∀ b', (pass req b c).2.receivedBy .http b' = c.receivedBy .http b' := by
  cases b with
  | true =>
    cases hread : ((c.client .http).skt.read IOBUFSIZE).1 with
    | ok bs => simp [block?, hread, Except.toOption] at h
    | error e =>
      have hpass : pass req true c = (false, c.setClient .http { c.client .http with
          skt := ((c.client .http).skt.read IOBUFSIZE).2 }) := by
        simp [pass, hread]
      rw [hpass]
      exact ⟨rfl, by simp, by simp, fun b' => by cases b' <;> rfl⟩
  | false =>
    cases hread : ((c.server .http).skt.read IOBUFSIZE).1 with
    | ok bs => simp [block?, hread, Except.toOption] at h
    | error e =>
      have hpass : pass req false c = (false, c.setServer .http { c.server .http with
          skt := ((c.server .http).skt.read IOBUFSIZE).2 }) := by
        simp [pass, hread]
      rw [hpass]
      refine ⟨rfl, by simp, by simp, fun b' => ?_⟩
      cases b' with
      | true =>
        simp only [receivedBy, if_true]
        rw [server_setServer hc]
      | false => rfl

/-- A block is read: the pass returns 0, and the other side has received what was written of it. -/
theorem pass_some (req : SrsHttpMessage) (hc : c.dest? ≠ none) (h : c.block? b = some bs) :
    (pass req b c).1 = true ∧ (pass req b c).2.trace = c.trace ++ [.tunnelled req b bs] ∧
      (pass req b c).2.dest? = c.dest? ∧
      (pass req b c).2.receivedBy .http b = ((c.outOf b).write bs).2.sent ∧
      (pass req b c).2.receivedBy .http (!b) = c.receivedBy .http (!b) := by
  cases b with
  | true =>
    cases hread : ((c.client .http).skt.read IOBUFSIZE).1 with
    | error e => simp [block?, hread, Except.toOption] at h
    | ok bs' =>
      obtain rfl : bs' = bs := by simpa [block?, hread, Except.toOption] using h
      have hpass : pass req true c = (true, ((c.setClient .http { c.client .http with
          skt := ((c.client .http).skt.read IOBUFSIZE).2 }).toServer .http [bs']).log
            (.tunnelled req true bs')) := by
        simp [pass, hread]
      have hserver : (pass req true c).2.server .http = { c.server .http with
          out := (writeEach false [bs'] (c.server .http).out).2.2 } := by
        rw [hpass]
        exact server_setServer (by simpa using hc) _
      refine ⟨by rw [hpass], by rw [hpass]; simp, by rw [hpass]; simp, ?_, by rw [hpass]; rfl⟩
      simp only [receivedBy, if_true, hserver]
      rfl
  | false =>
    cases hread : ((c.server .http).skt.read IOBUFSIZE).1 with
    | error e => simp [block?, hread, Except.toOption] at h
    | ok bs' =>
      obtain rfl : bs' = bs := by simpa [block?, hread, Except.toOption] using h
      have hpass : pass req false c = (true, ((c.setServer .http { c.server .http with
          skt := ((c.server .http).skt.read IOBUFSIZE).2 }).toClient .http [bs']).log
            (.tunnelled req false bs')) := by
        simp [pass, hread]
      have hserver : (pass req false c).2.server .http = { c.server .http with
          skt := ((c.server .http).skt.read IOBUFSIZE).2 } := by
        rw [hpass]
        exact server_setServer hc _
      refine ⟨by rw [hpass], by rw [hpass]; simp, by rw [hpass]; simp, by rw [hpass]; rfl, ?_⟩
      simp only [receivedBy, Bool.not_false, if_true, hserver]

theorem passFaithful_iff (hc : c.dest? ≠ none) : PassFaithful req b c ↔ c.WholeWrites b := by
  cases hread : c.block? b with
  | none => simp [PassFaithful, WholeWrites, hread]
  | some bs =>
    obtain ⟨hok, -, -, hreceived, -⟩ := pass_some req hc hread
    simp only [PassFaithful, WholeWrites, hread, hok, hreceived, Option.some.injEq, forall_eq', true_implies,
      receivedBy_outOf, Sink.takes_iff]

theorem readFor_append (b : Bool) (events events' : List Event) :
    readFor b (events ++ events') = readFor b events ++ readFor b events' := by simp [readFor]

theorem Faithful.refl (c : SrsHttpxProxyConn) : Faithful c c := ⟨Nat.le_refl _, fun b => by simp [readFor]⟩

/-- A pass on a connection that has lost nothing. -/
theorem Faithful.pass_iff (h : Faithful c s) (hs : s.dest? ≠ none) :
    Faithful c (pass req b s).2 ↔ s.WholeWrites b := by
  cases hread : s.block? b with
  | none =>
    obtain ⟨-, htrace, -, hreceived⟩ := pass_none req hs hread
    refine iff_of_true ⟨by rw [htrace]; exact h.later, fun b' => ?_⟩ fun bs hbs => ?_
    · rw [htrace, hreceived]
      exact h.received b'
    · rw [hread] at hbs
      cases hbs
  | some bs =>
    obtain ⟨-, htrace, -, hreceived, hother⟩ := pass_some req hs hread
    have hdrop : (s.trace ++ [Event.tunnelled req b bs]).drop c.trace.length =
        s.trace.drop c.trace.length ++ [.tunnelled req b bs] := List.drop_append_of_le_length h.later
    have hself : readFor b [Event.tunnelled req b bs] = bs := by simp [readFor]
    have hnone : readFor (!b) [Event.tunnelled req b bs] = [] := by cases b <;> simp [readFor]
    have htaken : s.WholeWrites b ↔ ((s.outOf b).write bs).2.sent = (s.outOf b).sent ++ bs := by
      simp only [WholeWrites, hread, Option.some.injEq, forall_eq', Sink.takes_iff]
    rw [htaken]
    constructor
    · intro h'
      have hnow := h'.received b
      rw [htrace, hdrop, readFor_append, hself, ← List.append_assoc, ← h.received b, hreceived,
        receivedBy_outOf] at hnow
      exact hnow
    · intro hall
      refine ⟨?_, fun b' => ?_⟩
      · rw [htrace, List.length_append]
        exact Nat.le_add_right_of_le h.later
      · rw [htrace, hdrop, readFor_append, ← List.append_assoc, ← h.received b']
        by_cases hb : b' = b
        · subst hb
          rw [hself, hreceived, hall, receivedBy_outOf]
        · obtain rfl : b' = !b := by cases b <;> cases b' <;> simp_all
          rw [hnone, hother, List.append_nil]

theorem Faithful.passIf_iff (req : SrsHttpMessage) (b : Bool) (h : Faithful c s)
    (hs : s.dest? ≠ none) (readable : Bool) :
    Faithful c (passIf readable req b s).2 ↔ (readable = true → s.WholeWrites b) := by
  unfold passIf
  cases readable with
  | false => simpa using h
  | true => simpa using h.pass_iff hs

theorem passIf_dest? (req : SrsHttpMessage) (b : Bool) (hs : s.dest? ≠ none) (readable : Bool) :
    (passIf readable req b s).2.dest? ≠ none := by
  unfold passIf
  split_ifs
  · cases hread : s.block? b with
    | none => rw [(pass_none req hs hread).2.2.1]; exact hs
    | some bs => rw [(pass_some req hs hread).2.2.1]; exact hs
  · exact hs

/-! ## The loop -/

theorem Faithful.moments_iff {polls : List (Option (Bool × Bool))} (h : Faithful c s) (hs : s.dest? ≠ none) :
    (∀ m ∈ moments req polls s, Faithful c m) ↔ Completes req polls s := by
  induction polls generalizing s with
  | nil => simpa [moments, Completes] using h
  | cons poll polls ih =>
    cases poll with
    | none => simpa [moments, Completes] using h
    | some r =>
      obtain ⟨fromClient, fromServer⟩ := r
      have hdest₁ := passIf_dest? req true hs fromClient
      have hdest₂ := passIf_dest? req false hdest₁ fromServer
      have hfirst := h.passIf_iff req true hs fromClient
      simp only [moments, Completes, List.forall_mem_cons]
      rw [and_iff_right h, ← hfirst]
      refine and_congr_right fun h₁ => ?_
      have hsecond := h₁.passIf_iff req false hdest₁ fromServer
      rw [← hsecond]
      by_cases hgo : (passIf fromClient req true s).1 = true
      · rw [if_pos hgo, List.forall_mem_cons]
        simp only [hgo, true_implies]
        refine and_congr_right fun h₂ => ?_
        split_ifs with hgo'
        · simp only [hgo', true_implies]
          exact ih h₂ hdest₂
        · simp [hgo']
      · simp [hgo]

/-- The loop ends in one of these states, with the polls that are left. -/
theorem tunnelLoop_mem_moments (polls : List (Option (Bool × Bool))) (c : SrsHttpxProxyConn) :
    ∃ m ∈ moments req polls c, ∃ rest, tunnelLoop req polls c = m.setPolls rest := by
  induction polls generalizing c with
  | nil => exact ⟨c, by simp [moments], [], rfl⟩
  | cons poll polls ih =>
    cases poll with
    | none => exact ⟨c, by simp [moments], polls, rfl⟩
    | some r =>
      simp only [moments, tunnelLoop]
      split_ifs
      · obtain ⟨m, hm, rest, heq⟩ := ih (passIf r.2 req false (passIf r.1 req true c).2).2
        exact ⟨m, by simp [hm], rest, heq⟩
      · exact ⟨_, by simp, polls, rfl⟩
      · exact ⟨_, by simp, polls, rfl⟩

/-- **Nothing is lost silently** exactly if no write is cut short: by a pass, which returns 0 whenever it has
read something, and at every moment of the loop, whatever the polls report. -/
theorem tunnel_faithful_iff (req : SrsHttpMessage) (hc : c.dest? ≠ none) :
    (∀ b, PassFaithful req b c ↔ c.WholeWrites b) ∧
      ∀ polls, ((∀ m ∈ moments req polls c, Faithful c m) ↔ Completes req polls c) :=
  ⟨fun _ => passFaithful_iff hc, fun _ => (Faithful.refl c).moments_iff hc⟩

/-- A tunnel in which the client has sent `abc`, and the first write to the server ends after a byte. -/
def cutShort : SrsHttpxProxyConn :=
  { init (linkOf [str "abc"]) [] [] (.error .socketRead) (.error .socketRead) with
    svrSkt := some ⟨str "a", 443, ⟨[], ⟨[], [.error 1 .socketWrite]⟩⟩⟩ }

theorem tunnel_faithful_iff_cutShort :
    (∀ b, PassFaithful .new b cutShort ↔ cutShort.WholeWrites b) ∧
      ∀ polls, ((∀ m ∈ moments .new polls cutShort, Faithful cutShort m) ↔ Completes .new polls cutShort) :=
  tunnel_faithful_iff .new (by decide)

/-- The pass returns 0, and two of the three bytes are lost. -/
theorem not_passFaithful_cutShort :
    (pass .new true cutShort).1 = true ∧ cutShort.block? true = some (str "abc") ∧
      (pass .new true cutShort).2.receivedBy .http true = str "a" ∧ ¬ PassFaithful .new true cutShort := by
  have hpass : (pass .new true cutShort).1 = true := by decide
  have hblock : cutShort.block? true = some (str "abc") := by decide
  have hreceived : (pass .new true cutShort).2.receivedBy .http true = str "a" := by decide
  refine ⟨hpass, hblock, hreceived, fun h => ?_⟩
  have hall := h hpass _ hblock
  rw [hreceived] at hall
  exact absurd hall (by decide)

end SrsHttpxProxyConn

end HttpProxy
