import HttpProxy.App.Turn

/-!
# Where requests go

Two properties of every run of a connection: which upstream connection a request is
written to, and that nothing is written upstream for a blocked destination.

* `forwards` — for every forwarded request, the connection it went to and the
  destination it names.
* `forwards_match_iff` — the two agree for all requests exactly when all of them name
  the same destination, because `svr_skt` is made once, for the first.
* `enforced_of_connect` — the block list is enforced in every run whose `CONNECT`
  request is not for a blocked domain; the domain of that request is never looked up.
-/

namespace HttpProxy

namespace SrsHttpxProxyConn

variable {cfg : ProxyConfig} {p : Path} {c s : SrsHttpxProxyConn}

/-! ## The connection of a request -/

/-- A forwarded request: the host and port of the connection it was written to, and
those it names. -/
def forwardOf : Event → Option ((Bytes × Int) × (Bytes × Int))
  | .forward host port m _ _ _ => some ((host, port), destOf m)
  | _ => none

/-- The forwarded requests of a run. -/
def forwards (t : List Event) : List ((Bytes × Int) × (Bytes × Int)) := t.filterMap forwardOf

@[simp] theorem forwards_append (t t' : List Event) : forwards (t ++ t') = forwards t ++ forwards t' :=
  List.filterMap_append

theorem forwards_sentEvents (cfg : ProxyConfig) (p : Path) (c : SrsHttpxProxyConn)
    (m : SrsHttpMessage) (src : Source) :
    forwards (sentEvents cfg p c m src) = [(target cfg p c m, destOf m)] := by
  cases p <;> rfl

theorem forwards_tunnelled {m : SrsHttpMessage} {ts : List Event} (h : ∀ t ∈ ts, IsTunnelled m t) :
    forwards ts = [] := by
  refine List.filterMap_eq_nil_iff.2 fun e he => ?_
  obtain ⟨b, bs, rfl⟩ := h e he
  rfl

/-- A turn forwards at most one request. -/
theorem TurnEvents.forwards_eq {es : List Event} (h : TurnEvents cfg p c es) :
    forwards es = [] ∨ ∃ m, forwards es = [(target cfg p c m, destOf m)] := by
  cases h with
  | silent => exact Or.inl rfl
  | blocked ws hm hb => exact Or.inl rfl
  | refused hm hb => exact Or.inl rfl
  | unanswered err hm hb =>
    exact Or.inr ⟨_, by rw [forwards_append, forwards_sentEvents]; rfl⟩
  | @answered m r src e ts hm hb he hts =>
    cases he
    refine Or.inr ⟨m, ?_⟩
    rw [forwards_append, forwards_append, forwards_sentEvents, forwards_tunnelled hts]
    rfl

/-- All requests have gone to the destination of one of them. -/
def SameConnection (t : List Event) : Prop :=
  ∃ d, (∀ x ∈ forwards t, x.1 = d) ∧ (forwards t = [] ∨ ∃ x ∈ forwards t, x.2 = d)

/-- The invariant between two turns: `svr_skt` is for the destination of a request that
has been forwarded to it. -/
def Aimed (c : SrsHttpxProxyConn) : Prop :=
  match c.dest? with
  | none => forwards c.trace = []
  | some d => (∀ x ∈ forwards c.trace, x.1 = d) ∧ ∃ x ∈ forwards c.trace, x.2 = d

theorem Aimed.sameConnection (h : Aimed c) : SameConnection c.trace := by
  rw [Aimed] at h
  cases hd : c.dest? with
  | none =>
    rw [hd] at h
    exact ⟨([], 0), by simp [h], Or.inl h⟩
  | some d =>
    rw [hd] at h
    exact ⟨d, h.1, Or.inr h.2⟩

/-- One more request keeps the connection. -/
theorem Aimed.forwarded (h : Aimed c) (hhip : cfg.nextHip = none) {m : SrsHttpMessage}
    {t : List Event} (ht : forwards t = forwards c.trace ++ [(target cfg .http c m, destOf m)]) :
    (∀ x ∈ forwards t, x.1 = target cfg .http c m) ∧ ∃ x ∈ forwards t, x.2 = target cfg .http c m := by
  have htarget : target cfg .http c m = c.dest?.getD (destOf m) := by simp [target, hhip]
  rw [htarget] at ht ⊢
  rw [ht]
  rw [Aimed] at h
  cases hd : c.dest? with
  | none =>
    rw [hd] at h
    simp [h]
  | some d =>
    rw [hd] at h
    obtain ⟨hall, x, hx, hxd⟩ := h
    refine ⟨fun y hy => ?_, x, by simp [hx], hxd⟩
    rcases List.mem_append.1 hy with hy | hy
    · exact hall y hy
    · rw [List.mem_singleton.1 hy]

theorem transaction_aimed (hhip : cfg.nextHip = none) :
    Proc.Spec Aimed (transaction cfg .http) (fun _ => Aimed) (fun _ s => SameConnection s.trace) := by
  intro c hc
  refine (transaction_events cfg .http c).conseq (fun _ h => h) ?_ ?_ c rfl
  · rintro - s ⟨⟨m, src, es, htrace, hevents, hdest⟩, -⟩
    have hes : forwards es = [] := by
      have h := hevents.forwards_eq
      rw [forwards_append, forwards_sentEvents] at h
      rcases h with h | ⟨m', h⟩
      · simp at h
      · exact (List.cons.inj h).2
    have hf : forwards s.trace = forwards c.trace ++ [(target cfg .http c m, destOf m)] := by
      rw [htrace, forwards_append, forwards_append, forwards_sentEvents, hes, List.append_nil]
    rw [Aimed, hdest rfl]
    exact hc.forwarded hhip hf
  · rintro - s ⟨es, htrace, hevents⟩
    rcases hevents.forwards_eq with hes | ⟨m, hes⟩
    · have hf : forwards s.trace = forwards c.trace := by rw [htrace, forwards_append, hes, List.append_nil]
      have := hc.sameConnection
      rwa [SameConnection, ← hf] at this
    · have hf : forwards s.trace = forwards c.trace ++ [(target cfg .http c m, destOf m)] := by
        rw [htrace, forwards_append, hes]
      obtain ⟨h1, h2⟩ := hc.forwarded hhip hf
      exact ⟨_, h1, Or.inr h2⟩

/-- What a run of the connection records. -/
def httpTrace (cfg : ProxyConfig) (fuel : Nat) (c : SrsHttpxProxyConn) : List Event :=
  (processHttpConnection cfg fuel c).2.trace

theorem sameConnection_run (hhip : cfg.nextHip = none) (fuel : Nat) (hc : Aimed c) :
    SameConnection (httpTrace cfg fuel c) := by
  have h : Proc.Spec Aimed (processHttpConnection cfg fuel) (fun _ _ => False)
      (fun _ s => SameConnection s.trace) :=
    Proc.Spec.forever (transaction_aimed hhip) (fun s hs => Aimed.sameConnection hs) fuel
  replace h := h c hc
  rw [httpTrace]
  split at h
  · exact h.elim
  · rename_i heq
    rw [heq]
    exact h

/-- **The destination of a request.**  On a plain HTTP connection without a next proxy,
whatever the client and the servers send, every request is written to a connection
opened to the host and port it names if and only if all forwarded requests name the
same host and port. -/
theorem forwards_match_iff (hhip : cfg.nextHip = none) (fuel : Nat) (cltSkt : Link)
    (net : List (Except SrsError Link)) (polls : List (Option (Bool × Bool)))
    (sh ch : Except SrsError Link) :
    (∀ x ∈ forwards (httpTrace cfg fuel (init cltSkt net polls sh ch)), x.1 = x.2) ↔
      ∀ x ∈ forwards (httpTrace cfg fuel (init cltSkt net polls sh ch)),
        ∀ y ∈ forwards (httpTrace cfg fuel (init cltSkt net polls sh ch)), x.2 = y.2 := by
  obtain ⟨d, hall, hone⟩ := sameConnection_run hhip fuel
    (show Aimed (init cltSkt net polls sh ch) from rfl)
  constructor
  · intro h x hx y hy
    rw [← h x hx, ← h y hy, hall x hx, hall y hy]
  · intro h x hx
    rcases hone with hnil | ⟨y, hy, hyd⟩
    · rw [hnil] at hx
      simp at hx
    · rw [hall x hx, ← hyd, h x hx y hy]

/-- A connection that delivers the given pieces and takes every write. -/
def linkOf (pieces : List Bytes) : Link := ⟨Socket.ofPieces pieces, ⟨[], []⟩⟩

/-- A client connection on which no tunnel and no TLS is tried. -/
def plainConn (client : List Bytes) (servers : List (List Bytes)) : SrsHttpxProxyConn :=
  init (linkOf client) (servers.map fun pieces => .ok (linkOf pieces)) []
    (.error .socketRead) (.error .socketRead)

/-- A configuration without next proxy that blocks the given domains. -/
def blockConfig (blackList : List Bytes) (decrypt : Bool) : ProxyConfig :=
  ⟨⟨blackList, [], decrypt⟩, none, none, fun _ => str "blocked"⟩

/-- A request for a host. -/
def getRequest (host : Bytes) : Bytes := str "GET / HTTP/1.1\r\nHost: " ++ host ++ crlf ++ crlf

/-- A response without a body. -/
def emptyResponse : Bytes := str "HTTP/1.1 200 OK\r\nContent-Length: 0\r\n\r\n"

/-- A client that asks twice for the same host. -/
def sameHostTrace : List Event :=
  httpTrace (blockConfig [] true) 2 (plainConn [getRequest (str "a"), getRequest (str "a")]
    [[emptyResponse], [emptyResponse]])

/-- Two requests for the same host. -/
theorem forwards_match_same_host :
    forwards sameHostTrace ≠ [] ∧ ∀ x ∈ forwards sameHostTrace, x.1 = x.2 :=
  ⟨by decide +kernel, (forwards_match_iff rfl 2 _ _ [] _ _).2 (by decide +kernel)⟩

/-- The second request, for another host, goes to the server of the first. -/
theorem forwards_wrong_host :
    ¬ ∀ x ∈ forwards (httpTrace (blockConfig [] true) 2 (plainConn [getRequest (str "a"),
      getRequest (str "b")] [[emptyResponse], [emptyResponse]])), x.1 = x.2 := by
  decide +kernel

/-! ## The block list -/

/-- The request for which an event writes client bytes upstream. -/
def sentFor : Event → Option SrsHttpMessage
  | .forward _ _ m _ _ _ => some m
  | .connectForwarded m _ => some m
  | .tunnelled m true _ => some m
  | _ => none

/-- The `CONNECT` request of a connection. -/
def connectOf : Event → Option SrsHttpMessage
  | .connectRequest m => some m
  | _ => none

/-- Is the destination of the request on the block list? -/
def blackListed (policy : SrsPolicy) (m : SrsHttpMessage) : Bool :=
  policy.matchBlackList m.getDestDomain

/-- No client bytes have been written upstream for a blocked request, nor for any request
when the `CONNECT` it arrived in is blocked. -/
def Enforced (policy : SrsPolicy) (t : List Event) : Prop :=
  ∀ e ∈ t, ∀ m ∈ sentFor e, blackListed policy m = false ∧
    ∀ e' ∈ t, ∀ m' ∈ connectOf e', blackListed policy m' = false

instance (policy : SrsPolicy) (t : List Event) : Decidable (Enforced policy t) :=
  inferInstanceAs (Decidable (∀ e ∈ t, ∀ m ∈ sentFor e, blackListed policy m = false ∧
    ∀ e' ∈ t, ∀ m' ∈ connectOf e', blackListed policy m' = false))

/-- Everything that is written upstream is for a request that is not blocked, or for the
`CONNECT` request. -/
def Checked (policy : SrsPolicy) (t : List Event) : Prop :=
  ∀ e ∈ t, ∀ m, sentFor e = some m → blackListed policy m = false ∨ .connectRequest m ∈ t

theorem Checked.append {policy : SrsPolicy} {t es : List Event} (h : Checked policy t)
    (hes : ∀ e ∈ es, ∀ m, sentFor e = some m → blackListed policy m = false ∨ .connectRequest m ∈ t) :
    Checked policy (t ++ es) := by
  intro e he m hm
  have key : blackListed policy m = false ∨ .connectRequest m ∈ t := by
    rcases List.mem_append.1 he with he | he
    · exact h e he m hm
    · exact hes e he m hm
  exact key.imp id fun hc => List.mem_append_left _ hc

theorem sentFor_tunnelled {m m' : SrsHttpMessage} {e : Event} (h : IsTunnelled m e)
    (hm : sentFor e = some m') : m' = m := by
  obtain ⟨b, bs, rfl⟩ := h
  cases b with
  | true => exact (Option.some.inj hm).symm
  | false => simp [sentFor] at hm

/-- Behind a `CONNECT` request only its own bytes are written upstream. -/
theorem ConnectEvent.sentFor_eq {m m' : SrsHttpMessage} {e : Event} (h : ConnectEvent m e)
    (hm : sentFor e = some m') : m' = m := by
  cases h with
  | forwarded ws => exact (Option.some.inj hm).symm
  | tunnelled he => exact sentFor_tunnelled he hm
  | opened host port => simp [sentFor] at hm
  | response r => simp [sentFor] at hm
  | noResponse err => simp [sentFor] at hm

/-- In a turn only a request that is not blocked is written upstream. -/
theorem TurnEvent.sentFor_eq {e : Event} (h : TurnEvent cfg p c e) {m : SrsHttpMessage}
    (hm : sentFor e = some m) : blackListed cfg.policy m = false := by
  cases h with
  | forward hp hb => exact Option.some.inj hm ▸ hb
  | tunnelled hb he => exact sentFor_tunnelled he hm ▸ hb
  | relay he =>
    cases he
    simp [sentFor] at hm
  | request m' => simp [sentFor] at hm
  | blocked m' ws => simp [sentFor] at hm
  | opened host port => simp [sentFor] at hm
  | response r => simp [sentFor] at hm
  | noResponse err => simp [sentFor] at hm

theorem processRequests_checked (memory : Bytes) (cfg : ProxyConfig) (fuel : Nat) :
    Proc.Spec (fun c => Checked cfg.policy c.trace) (processRequestsIn memory cfg fuel) (fun _ _ => False)
      (fun _ s => Checked cfg.policy s.trace) := by
  refine processRequests_rule (fun _ h => h) (fun p c hc => ?_) ?_ memory fuel
  · refine (transaction_events cfg p c).conseq (fun _ h => h) ?_ ?_ c rfl
    · rintro - s ⟨⟨m, src, es, htrace, hevents, -⟩, -⟩
      rw [htrace]
      exact hc.append fun e he m' hm' => Or.inl ((hevents.mem he).sentFor_eq hm')
    · rintro - s ⟨es, htrace, hevents⟩
      rw [htrace]
      exact hc.append fun e he m' hm' => Or.inl ((hevents.mem he).sentFor_eq hm')
  · rintro c m s s' hc hreq ⟨es, htrace, hall⟩
    have hs : Checked cfg.policy s.trace := by
      rw [hreq]
      exact hc.append (by simp [sentFor])
    have hchecked : Checked cfg.policy s'.trace := by
      rw [htrace]
      refine hs.append fun e he m' hm' => Or.inr ?_
      rw [(hall e he).sentFor_eq hm', hreq]
      simp
    exact ⟨hchecked, fun _ => hchecked⟩

/-- **The block list.**  For every policy, and whatever client and servers send, in a run in
which no `CONNECT` request is for a blocked domain, no bytes of the client are written
upstream for a blocked destination. -/
theorem enforced_of_connect (memory : Bytes) (cfg : ProxyConfig) (fuel : Nat) (cltSkt : Link)
    (net : List (Except SrsError Link)) (polls : List (Option (Bool × Bool)))
    (sh ch : Except SrsError Link)
    (h : ∀ e ∈ requestsTrace memory cfg fuel (init cltSkt net polls sh ch), ∀ m ∈ connectOf e,
      blackListed cfg.policy m = false) :
    Enforced cfg.policy (requestsTrace memory cfg fuel (init cltSkt net polls sh ch)) := by
  have hchecked : Checked cfg.policy (requestsTrace memory cfg fuel (init cltSkt net polls sh ch)) :=
    requestsTrace_rule (processRequests_checked memory cfg fuel) (by simp [Checked, init])
  intro e he m hm
  refine ⟨?_, h⟩
  rcases hchecked e he m hm with hb | hc
  · exact hb
  · exact h _ hc m rfl

/-- A `CONNECT` request. -/
def connectHeader (host : Bytes) : Bytes := str "CONNECT " ++ host ++ str " HTTP/1.1\r\n\r\n"

/-- The request for which the block page is sent. -/
def blockedFor : Event → Option SrsHttpMessage
  | .blocked m _ => some m
  | _ => none

/-- A decrypted connection to `a`, on which `a` is asked for, and then `evil`. -/
def decryptedTrace : List Event :=
  requestsTrace (List.replicate 8 0) (blockConfig [str "evil"] true) 3
    (init (linkOf [connectHeader (str "a:443")]) [.ok (linkOf [])] [] (.ok (linkOf [emptyResponse]))
      (.ok (linkOf [getRequest (str "a"), getRequest (str "evil")])))

/-- The `CONNECT` request is allowed, the first request is sent, and the second one is blocked. -/
theorem enforced_of_connect_decrypted :
    (decryptedTrace.filterMap connectOf).map (·.getDestDomain) = [str "a"] ∧
      (decryptedTrace.filterMap sentFor).map (·.getDestDomain) = [str "a"] ∧
      (decryptedTrace.filterMap blockedFor).map (·.getDestDomain) = [str "evil"] ∧
      Enforced (blockConfig [str "evil"] true).policy decryptedTrace :=
  ⟨by decide +kernel, by decide +kernel, by decide +kernel,
    enforced_of_connect (List.replicate 8 0) (blockConfig [str "evil"] true) 3 _ _ _ _ _
      (by decide +kernel)⟩

/-- A `CONNECT` to a blocked domain is tunnelled, and what the client sends is passed on. -/
theorem not_enforced_connect :
    ¬ Enforced (blockConfig [str "evil"] false).policy (requestsTrace (List.replicate 8 0)
      (blockConfig [str "evil"] false) 1
      (init (linkOf [connectHeader (str "evil:443"), str "hello"]) [.ok (linkOf [])]
        [some (true, false)] (.error .socketRead) (.error .socketRead))) := by
  decide +kernel

end SrsHttpxProxyConn

end HttpProxy
