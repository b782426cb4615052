import HttpProxy.App.Destination
import HttpProxy.App.Exchange

/-!
# Responses and the requests they belong to

A client connection whose servers answer every request.  On plain HTTP every request has a
connection of its own, but the buffer of the server parser is the same for all of them; on HTTPS
there is one connection.

* `paired_of_turns` — the responses that the client receives belong to its requests, in every run
  in which each reply is a final response that the proxy can relay.
* `separate_of_turns` — on plain HTTP a response depends on nothing that was received on another
  connection, in every run in which no bytes that follow a response are read together with it.
-/

namespace HttpProxy

open SrsHttpParser

namespace SrsHttpxProxyConn

variable {cfg : ProxyConfig} {p : Path} {c s : SrsHttpxProxyConn} {S : Servers} {pa : Option Bytes} {k : Nat}
  {t es : List Event}

/-! ## Events -/

/-- A request is parsed. -/
def isRequest : Event → Bool
  | .request _ => true
  | _ => false

/-- The number of requests that have been parsed. -/
def requests (t : List Event) : Nat := t.countP isRequest

/-- The final responses that are relayed. -/
def finals (t : List Event) : List Event := t.filter isFinal

@[simp] theorem requests_append (t t' : List Event) : requests (t ++ t') = requests t + requests t' :=
  List.countP_append

theorem finals_eq (t : List Event) : finals t = (relays t).filter isFinal := by
  rw [finals, relays, List.filter_filter]
  refine List.filter_congr fun e _ => ?_
  cases e <;> simp [isFinal, isRelay]

theorem requests_tunnelled {m : SrsHttpMessage} (h : ∀ e ∈ es, IsTunnelled m e) : requests es = 0 := by
  refine List.countP_eq_zero.2 fun e he => ?_
  obtain ⟨b, bs, rfl⟩ := h e he
  simp [isRequest]

theorem requests_sentEvents (m : SrsHttpMessage) (src : Source) :
    requests (sentEvents cfg p c m src) = 1 := by
  cases p <;> rfl

/-- A turn parses one request at most. -/
theorem TurnEvents.requests_le (h : TurnEvents cfg p c es) : requests es ≤ 1 := by
  cases h with
  | silent => exact Nat.zero_le 1
  | blocked ws hm hb => exact Nat.le_refl 1
  | refused hm hb => exact Nat.le_refl 1
  | unanswered err hm hb =>
    rw [requests_append, requests_sentEvents]
    exact Nat.le_refl 1
  | answered hm hb he hts =>
    rw [requests_append, requests_append, requests_sentEvents, requests_tunnelled hts]
    cases he
    exact Nat.le_refl 1

/-! ## Pairing -/

/-- The final response to a request has been relayed when the next request is parsed, and the `i`-th
final response is the `i`-th answer. -/
structure Paired (pa : Option Bytes) (as : List Sent) (t : List Event) : Prop where
  inTurn : ∀ t', t' <+: t → requests t' ≤ (finals t').length + 1
  shown : ∀ (i : Nat) (e : Event), (finals t)[i]? = some e → ∃ a : Sent, as[i]? = some a ∧ a.Shown pa e

/-- The same without interim responses. -/
structure Tells (pa : Option Bytes) (S : Servers) (t : List Event) : Prop where
  inTurn : ∀ t', t' <+: t → requests t' ≤ (relays t').length + 1
  shown : ∀ (i : Nat) (e : Event), (relays t)[i]? = some e →
    isFinal e = true ∧ ∃ r : Reply, S.replies[i]? = some r ∧ r.final.Shown pa e

theorem Tells.finals_eq (h : Tells pa S t) {t' : List Event} (hpre : t' <+: t) : finals t' = relays t' := by
  rw [SrsHttpxProxyConn.finals_eq, List.filter_eq_self]
  intro e he
  obtain ⟨u, rfl⟩ := hpre
  obtain ⟨i, hi⟩ := List.mem_iff_getElem?.1 he
  refine (h.shown i e ?_).1
  rw [relays_append, List.getElem?_append_left (List.getElem?_eq_some_iff.1 hi).1, hi]

theorem Tells.paired (h : Tells pa S t) : Paired pa (S.replies.map Reply.final) t := by
  refine ⟨fun t' ht' => ?_, fun i e hi => ?_⟩
  · rw [h.finals_eq ht']
    exact h.inTurn t' ht'
  · rw [h.finals_eq (List.prefix_refl t)] at hi
    obtain ⟨-, r, hr, hshown⟩ := h.shown i e hi
    exact ⟨r.final, by rw [List.getElem?_map, hr]; rfl, hshown⟩

/-- One turn more. -/
theorem Tells.append (h : Tells pa S t) (ht : requests t ≤ (relays t).length) (hes : requests es ≤ 1)
    (hshows : relays es = [] ∨ ∃ (e : Event) (r : Reply), relays es = [e] ∧ isFinal e = true ∧
      S.replies[(relays t).length]? = some r ∧ r.final.Shown pa e) : Tells pa S (t ++ es) := by
  refine ⟨fun t' ht' => ?_, fun i e hi => ?_⟩
  · obtain ⟨u, hu⟩ := ht'
    rcases List.append_eq_append_iff.1 hu with ⟨v, rfl, -⟩ | ⟨v, rfl, rfl⟩
    · exact h.inTurn t' (List.prefix_append t' v)
    · rw [requests_append] at hes
      rw [requests_append, relays_append, List.length_append]
      omega
  · rw [relays_append, List.getElem?_append] at hi
    split_ifs at hi with hlt
    · exact h.shown i e hi
    · rcases hshows with hnil | ⟨e', r, hone, hfin, hr, hshown⟩
      · rw [hnil] at hi
        simp at hi
      · rw [hone, List.getElem?_singleton] at hi
        split_ifs at hi with h0
        obtain rfl := Option.some.inj hi
        rw [show i = (relays t).length by omega]
        exact ⟨hfin, r, hr, hshown⟩

/-! ## Runs -/

/-- The loop over the requests begins: nothing has been parsed, the servers have everything ahead,
and the client takes every write. -/
structure Begins (S : Servers) (s : SrsHttpxProxyConn) : Prop where
  next : S.At 0 s
  out : (s.client S.path).out.Reliable
  fresh : requests s.trace = 0 ∧ relays s.trace = []

/-- What holds between the turns. -/
structure Between (pa : Option Bytes) (S : Servers) (s : SrsHttpxProxyConn) : Prop where
  next : S.At (relays s.trace).length s
  out : (s.client S.path).out.Reliable
  requests : requests s.trace ≤ (relays s.trace).length
  tells : Tells pa S s.trace

theorem Begins.between (h : Begins S s) : Between pa S s := by
  obtain ⟨hreq, hrel⟩ := h.fresh
  refine ⟨by rw [hrel]; exact h.next, h.out, by rw [hreq]; exact Nat.zero_le _, fun t' ht' => ?_,
    fun i e hi => ?_⟩
  · have := ht'.sublist.countP_le (p := isRequest)
    unfold SrsHttpxProxyConn.requests at *
    omega
  · rw [hrel] at hi
    simp at hi

theorem transaction_between (hc : Between cfg.publicAddress S c)
    (hready : S.Ready cfg.publicAddress (relays c.trace).length c) :
    Proc.Spec (· = c) (transaction cfg S.path) (fun _ => Between cfg.publicAddress S)
      (fun _ s => Tells cfg.publicAddress S s.trace) := by
  refine ((transaction_events cfg S.path c).and (turn_spec hc.next hready hc.out)).conseq (fun _ h => h) ?_ ?_
  · rintro - s ⟨⟨⟨m, src, es, htrace, hevents, -⟩, -⟩, hnext, hout, es', e, r, htrace', hone, hfin,
      hr, hshown⟩
    obtain rfl := List.append_cancel_left (htrace.symm.trans htrace')
    have hlen : (relays s.trace).length = (relays c.trace).length + 1 := by
      rw [htrace', relays_append, List.length_append, hone]
      rfl
    have hle := hevents.requests_le
    refine ⟨by rw [hlen]; exact hnext, hout, ?_, ?_⟩
    · have := hc.requests
      rw [hlen, htrace, requests_append]
      omega
    · rw [htrace]
      exact hc.tells.append hc.requests hle (.inr ⟨e, r, hone, hfin, hr, hshown⟩)
  · rintro - s ⟨⟨es, htrace, hevents⟩, hshows⟩
    rw [htrace]
    refine hc.tells.append hc.requests hevents.requests_le ?_
    rcases hshows with ⟨es', htrace', hquiet⟩ | ⟨es', e, r, htrace', hone, hfin, hr, hshown⟩
    · obtain rfl := List.append_cancel_left (htrace.symm.trans htrace')
      exact .inl hquiet
    · obtain rfl := List.append_cancel_left (htrace.symm.trans htrace')
      exact .inr ⟨e, r, hone, hfin, hr, hshown⟩

/-- What the loop over the requests records. -/
def loopTrace (cfg : ProxyConfig) (p : Path) (fuel : Nat) (s : SrsHttpxProxyConn) : List Event :=
  (Proc.forever .running (transaction cfg p) fuel s).2.trace

theorem tells_of_turns (h : Begins S s)
    (hready : ∀ s', Proc.Turns (transaction cfg S.path) s s' →
      S.Ready cfg.publicAddress (relays s'.trace).length s') (fuel : Nat) :
    Tells cfg.publicAddress S (loopTrace cfg S.path fuel s) :=
  Proc.forever_of_turns (C := fun s' => S.Ready cfg.publicAddress (relays s'.trace).length s')
    (E := fun s' => Tells cfg.publicAddress S s'.trace)
    (fun c hc => transaction_between hc.1 hc.2 c rfl) (fun _ h => h.tells) h.between hready fuel

/-- **Pairing.**  For all clients and all servers: if before every turn the next reply is a final
response without interim responses in front of it that the proxy can relay, the final response to a
request is relayed before the next request is parsed, and the `i`-th final response that the client
receives is the one to the `i`-th request. -/
theorem paired_of_turns (cfg : ProxyConfig) (S : Servers) {s : SrsHttpxProxyConn} (h : Begins S s)
    (hready : ∀ s', Proc.Turns (transaction cfg S.path) s s' →
      S.Ready cfg.publicAddress (relays s'.trace).length s') (fuel : Nat) :
    Paired cfg.publicAddress (S.replies.map Reply.final) (loopTrace cfg S.path fuel s) :=
  (tells_of_turns h hready fuel).paired

/-- On plain HTTP the loop begins with the connection. -/
theorem begins_init {cltSkt : Link} (hout : cltSkt.out.Reliable) (us : List Served)
    (polls : List (Option (Bool × Bool))) (sh ch : Except SrsError Link) :
    Begins (.perRequest us) (init cltSkt (us.map fun u => .ok ⟨u.skt, u.out⟩) polls sh ch) :=
  ⟨⟨rfl, ⟨[], by simp, by simp [init]⟩, rfl⟩, hout, rfl, rfl⟩

/-- A server that sends its reply in pieces. -/
def servedIn (r : Reply) (surplus : Bytes) (pieces : List Bytes) (h : pieces.flatten = r.bytes ++ surplus) :
    Served :=
  ⟨r, surplus, Socket.ofPieces pieces, ⟨[], []⟩, Socket.healthy_ofPieces pieces,
    by rw [Socket.pending_ofPieces, h]⟩

/-- A client that talks to the given servers on plain HTTP. -/
def clientOf (client : List Bytes) (us : List Served) : SrsHttpxProxyConn :=
  init (linkOf client) (us.map fun u => .ok ⟨u.skt, u.out⟩) [] (.error .socketRead) (.error .socketRead)

/-- A reply without interim responses and without a body. -/
def emptyReply : Reply := ⟨[], ⟨emptyResponse, [], []⟩⟩

/-- The same reply behind a `100 Continue`. -/
def continueReply : Reply := ⟨[⟨str "HTTP/1.1 100 Continue\r\n\r\n", [], []⟩], ⟨emptyResponse, [], []⟩⟩

def emptyServed : Served := servedIn emptyReply [] [emptyResponse] (by decide)

def continueServed : Served :=
  servedIn continueReply [] [str "HTTP/1.1 100 Continue\r\n\r\n", emptyResponse] (by decide)

/-- A reply with a body. -/
def helloReply : Reply := ⟨[], ⟨str "HTTP/1.1 200 OK\r\nContent-Length: 5\r\n\r\n", str "hello", str "hello"⟩⟩

/-- The reply alone. -/
def helloServed : Served :=
  servedIn helloReply [] [str "HTTP/1.1 200 OK\r\nContent-Length: 5\r\n\r\n", str "hello"] (by decide)

/-- A header and a body of the length that the header gives can be relayed. -/
theorem relayable_of_length {a : Sent} {status : Nat} {n : Int}
    (hhead : acceptsHeader .response a.header = true ∧
      (a.message pa).map (fun m => (m.status, m.chunked, m.contentLength)) = some (status, false, n))
    (hfinal : ¬ (100 ≤ status ∧ status < 200 ∧ status ≠ 101))
    (hpayload : a.payload = a.wire) (hn : -1 ≤ n) (hlen : a.wire.length = n.toNat)
    (hlt : a.wire.length < 2 ^ 31) : a.Relayable pa := by
  obtain ⟨hacc, hfacts⟩ := hhead
  refine ⟨(isHeader_of_accepts hacc).1, ?_⟩
  cases hm : a.message pa with
  | none =>
    rw [hm] at hfacts
    cases hfacts
  | some m =>
    rw [hm] at hfacts
    obtain ⟨hstatus, hbody⟩ := Prod.mk.inj (Option.some.inj hfacts)
    refine ⟨m, rfl, by rw [Interim, hstatus]; exact hfinal, ?_⟩
    rw [hpayload]
    exact bodyFits_of_length hbody hn hlen hlt

theorem relayable_emptyReply : emptyReply.final.Relayable none :=
  @relayable_of_length none emptyReply.final 200 0 (by decide) (by decide) rfl
    (by decide) rfl (by decide)

theorem relayable_helloReply : helloReply.final.Relayable none :=
  @relayable_of_length none helloReply.final 200 5 (by decide +kernel) (by decide) rfl
    (by decide) (by decide) (by decide)

/-! ### Two requests on plain HTTP -/

/-- A client that sends two requests, the second one to a server that sends nothing else. -/
def twoClient (u : Served) : SrsHttpxProxyConn :=
  clientOf [getRequest (str "a"), getRequest (str "a")] [u, emptyServed]

theorem begins_twoClient (u : Served) :
    Begins (.perRequest [u, emptyServed]) (twoClient u) :=
  begins_init (by simp [linkOf, Sink.Reliable]) [u, emptyServed] [] (.error .socketRead) (.error .socketRead)

/-- What the second reply is read from. -/
def secondSource (u : Served) : Source :=
  ⟨(Proc.after (transaction (blockConfig [] true) .http) 1 (twoClient u)).serverBuffer,
    Socket.ofPieces [emptyResponse]⟩

/-- What the client is like behind the first turns. -/
@[mk_iff]
structure Turning (u : Served) : Prop where
  one : (relays (Proc.after (transaction (blockConfig [] true) .http) 1 (twoClient u)).trace).length = 1
  two : (relays (Proc.after (transaction (blockConfig [] true) .http) 2 (twoClient u)).trace).length = 2
  last : (transaction (blockConfig [] true) .http
    (Proc.after (transaction (blockConfig [] true) .http) 2 (twoClient u))).1.isOk = false
  nbBuffer : (secondSource u).buffer.nbBuffer = SRS_DEFAULT_RECV_BUFFER_SIZE
  delivers : (secondSource u).Delivers [emptyResponse]

/-- Before every turn the next reply can be relayed, if the first server sends the end of its reply
in a segment of its own. -/
theorem ready_twoClient {u : Served} {t : Socket} (hreply : u.reply = helloReply)
    (hskt : u.skt = Socket.ofPieces [helloReply.final.header, helloReply.final.wire] ++ t)
    (hturns : Turning u) (s' : SrsHttpxProxyConn)
    (h : Proc.Turns (transaction (blockConfig [] true) .http) (twoClient u) s') :
    (Servers.perRequest [u, emptyServed]).Ready none (relays s'.trace).length s' := by
  obtain ⟨k, hk, rfl⟩ := h.eq_after hturns.last
  obtain rfl | rfl | rfl : k = 0 ∨ k = 1 ∨ k = 2 := by omega
  · intro v hv
    obtain rfl : u = v := Option.some.inj hv
    rw [hreply]
    have htakes : TakesHeader .response
        ⟨.mk0, Socket.ofPieces [helloReply.final.header, helloReply.final.wire]⟩
        helloReply.final.header :=
      takesHeader_of_delivers (by decide +kernel) rfl (by decide +kernel)
    exact ⟨rfl, relayable_helloReply, _, t, hskt, by decide, htakes⟩
  · intro v hv
    rw [hturns.one] at hv
    obtain rfl : emptyServed = v := Option.some.inj hv
    have htakes : TakesHeader .response (secondSource u) emptyResponse :=
      takesHeader_of_delivers hturns.delivers hturns.nbBuffer (by decide +kernel)
    exact ⟨rfl, relayable_emptyReply, _, [], rfl, by decide, htakes⟩
  · intro v hv
    rw [hturns.two] at hv
    cases hv

theorem turning_hello : Turning helloServed := (turning_iff _).2 (by decide +kernel)

/-! ### Two requests on a decrypted connection -/

/-- The replies on the one connection to the server. -/
def twoReplies : Servers := .oneStream [helloReply, emptyReply]

/-- The state behind the two handshakes. -/
def decryptedClient : SrsHttpxProxyConn :=
  (handshakes (init (linkOf [connectHeader (str "a:443")]) [] []
    (.ok (linkOf [helloReply.final.header, str "hello", emptyResponse]))
    (.ok (linkOf [getRequest (str "a"), getRequest (str "a")])))).2

theorem begins_decryptedClient : Begins twoReplies decryptedClient := by
  refine ⟨⟨⟨by decide +kernel, Socket.healthy_ofPieces _⟩, trivial, rfl⟩, ?_, by decide⟩
  show Sink.Reliable ⟨[], []⟩
  simp [Sink.Reliable]

/-- The state behind some of the turns. -/
def behindTurns (n : Nat) : SrsHttpxProxyConn :=
  Proc.after (transaction (blockConfig [] true) .https) n decryptedClient

/-- What the turns come to. -/
theorem behindTurns_eq :
    ((behindTurns 0).serverSource .https).Delivers [helloReply.final.header] ∧
    ((relays (behindTurns 1).trace).length = 1 ∧
      ((behindTurns 1).serverSource .https).Delivers [emptyResponse] ∧
      ((behindTurns 1).serverSource .https).buffer.nbBuffer = SRS_DEFAULT_RECV_BUFFER_SIZE) ∧
    (relays (behindTurns 2).trace).length = 2 ∧
    (transaction (blockConfig [] true) .https (behindTurns 2)).1.isOk = false := by
  decide

theorem ready_decryptedClient (s' : SrsHttpxProxyConn)
    (h : Proc.Turns (transaction (blockConfig [] true) .https) decryptedClient s') :
    twoReplies.Ready none (relays s'.trace).length s' := by
  obtain ⟨hfirst, ⟨hone, hsecond, hbuffer⟩, htwo, hlast⟩ := behindTurns_eq
  obtain ⟨k, hk, rfl⟩ := h.eq_after (n := 2) hlast
  obtain rfl | rfl | rfl : k = 0 ∨ k = 1 ∨ k = 2 := by omega
  · intro r hr
    obtain rfl : helloReply = r := Option.some.inj hr
    exact ⟨rfl, relayable_helloReply, takesHeader_of_delivers hfirst rfl (by decide)⟩
  · intro r hr
    rw [show (relays (Proc.after _ 1 decryptedClient).trace).length = 1 from hone] at hr
    obtain rfl : emptyReply = r := Option.some.inj hr
    exact ⟨rfl, relayable_emptyReply, takesHeader_of_delivers hsecond hbuffer (by decide)⟩
  · intro r hr
    rw [show (relays (Proc.after _ 2 decryptedClient).trace).length = 2 from htwo] at hr
    cases hr

/-- Two requests and their responses, on each path. -/
theorem paired_of_turns_two :
    ((finals (loopTrace (blockConfig [] true) .http 3 (twoClient helloServed))).length = 2 ∧
      Paired none [helloReply.final, emptyReply.final]
        (loopTrace (blockConfig [] true) .http 3 (twoClient helloServed))) ∧
    (finals (loopTrace (blockConfig [] true) .https 3 decryptedClient)).length = 2 ∧
      Paired none [helloReply.final, emptyReply.final]
        (loopTrace (blockConfig [] true) .https 3 decryptedClient) :=
  ⟨⟨by decide +kernel, paired_of_turns (blockConfig [] true) (.perRequest [helloServed, emptyServed])
      (begins_twoClient helloServed) (ready_twoClient (t := []) rfl rfl turning_hello) 3⟩,
    by decide +kernel, paired_of_turns (blockConfig [] true) twoReplies begins_decryptedClient
      ready_decryptedClient 3⟩

/-- Behind a `100 Continue` the next request is parsed before the final response is relayed. -/
theorem not_paired_continue :
    ¬ Paired none ((Servers.perRequest [continueServed, continueServed]).replies.map Reply.final)
      (loopTrace (blockConfig [] true) .http 2
        (clientOf [getRequest (str "a"), getRequest (str "a")] [continueServed, continueServed])) := by
  intro h
  have hle := h.inTurn _ (List.prefix_refl _)
  revert hle
  decide +kernel

/-! ## Connections of their own -/

/-- A request is sent right behind the connect that was made for it. -/
def OwnConnection (t : List Event) : Prop :=
  ∀ i host port m body ws stop, t[i]? = some (.forward host port m body ws stop) →
    ∃ j, i = j + 2 ∧ t[j]? = some (.request m) ∧ t[j + 1]? = some (.opened host port)

theorem ownConnection_append {t t' : List Event} (h : OwnConnection t) (h' : OwnConnection t') :
    OwnConnection (t ++ t') := by
  intro i host port m body ws stop hi
  rw [List.getElem?_append] at hi
  split_ifs at hi with hlt
  · obtain ⟨j, rfl, h1, h2⟩ := h i host port m body ws stop hi
    refine ⟨j, rfl, ?_, ?_⟩
    · rw [List.getElem?_append_left (by omega), h1]
    · rw [List.getElem?_append_left (by omega), h2]
  · obtain ⟨j, hj, h1, h2⟩ := h' _ host port m body ws stop hi
    refine ⟨t.length + j, by omega, ?_, ?_⟩
    · rw [List.getElem?_append_right (by omega), Nat.add_sub_cancel_left, h1]
    · rw [List.getElem?_append_right (by omega), show t.length + j + 1 - t.length = j + 1 by omega, h2]

/-- Events without a forwarded request. -/
theorem ownConnection_of_forwards (h : ∀ e ∈ t, ∀ host port m body ws stop,
    e ≠ .forward host port m body ws stop) : OwnConnection t :=
  fun _ host port m body ws stop hi => absurd rfl (h _ (List.mem_of_getElem? hi) host port m body ws stop)

/-- On plain HTTP every turn connects for its request. -/
theorem TurnEvents.ownConnection (h : TurnEvents cfg .http c es) : OwnConnection es := by
  have hsent : ∀ m src, OwnConnection (sentEvents cfg .http c m src) := by
    intro m src i host port m' body ws stop hi
    rcases i with _ | _ | _ | i
    · cases hi
    · cases hi
    · cases hi
      exact ⟨0, rfl, rfl, rfl⟩
    · cases hi
  cases h with
  | silent => exact ownConnection_of_forwards (by simp)
  | blocked ws hm hb => exact ownConnection_of_forwards (by simp)
  | refused hm hb => exact ownConnection_of_forwards (by simp)
  | unanswered err hm hb => exact ownConnection_append (hsent _ _) (ownConnection_of_forwards (by simp))
  | answered hm hb he hts =>
    refine ownConnection_append (ownConnection_append (hsent _ _) (ownConnection_of_forwards ?_))
      (ownConnection_of_forwards ?_)
    · cases he
      simp
    · intro e he' host port m' body ws stop heq
      obtain ⟨b, bs, rfl⟩ := hts e he'
      cases heq

theorem loopTrace_ownConnection (cfg : ProxyConfig) (fuel : Nat) (h : OwnConnection s.trace) :
    OwnConnection (loopTrace cfg .http fuel s) := by
  have hturn : Proc.Keeps (fun s => OwnConnection s.trace) (transaction cfg .http) := by
    intro c hc
    refine (transaction_events cfg .http c).conseq (fun _ h => h) ?_ ?_ c rfl
    · rintro - s ⟨⟨m, src, es, htrace, hevents, -⟩, -⟩
      rw [htrace]
      exact ownConnection_append hc hevents.ownConnection
    · rintro - s ⟨es, htrace, hevents⟩
      rw [htrace]
      exact ownConnection_append hc hevents.ownConnection
  exact (hturn.forever fuel).apply h

/-- Two relays of the same response: the headers agree, and the bodies carry the same payload. -/
def SameResponse (e e' : Event) : Prop :=
  ∃ m payload wire wire' ws ws' stop stop', e = .relay m ws stop ∧ e' = .relay m ws' stop' ∧
    ws.flatten = m.rawHeader ++ wire ∧ ws'.flatten = m.rawHeader ++ wire' ∧
    m.framing.Carries wire payload ∧ m.framing.Carries wire' payload

theorem sameResponse_of_shown {a : Sent} {e e' : Event} (h : a.Shown pa e) (h' : a.Shown pa e') :
    SameResponse e e' := by
  cases e with
  | relay m ws stop =>
    cases e' with
    | relay m' ws' stop' =>
      obtain ⟨hm, wire, hws, hcarries⟩ := h
      obtain ⟨hm', wire', hws', hcarries'⟩ := h'
      obtain rfl := Option.some.inj (hm.symm.trans hm')
      exact ⟨m, a.payload, wire, wire', ws, ws', stop, stop', rfl, rfl, hws, hws', hcarries, hcarries'⟩
    | _ => exact h'.elim
  | _ => exact h.elim

/-- **Connections do not mix.**  On plain HTTP every forwarded request goes out on a connection that
was opened for it, and, if before every turn of two runs the next reply can be relayed and its end is
the end of a segment: the `i`-th response that is relayed is the answer of the `i`-th connection, and
it is the same in both runs when they differ in what servers send behind their replies. -/
theorem separate_of_turns (cfg : ProxyConfig) {us us' : List Served}
    (hreplies : us.map Served.reply = us'.map Served.reply) {s s' : SrsHttpxProxyConn}
    (h : Begins (.perRequest us) s) (h' : Begins (.perRequest us') s') (hown : OwnConnection s.trace)
    (hready : ∀ r, Proc.Turns (transaction cfg .http) s r →
      (Servers.perRequest us).Ready cfg.publicAddress (relays r.trace).length r)
    (hready' : ∀ r, Proc.Turns (transaction cfg .http) s' r →
      (Servers.perRequest us').Ready cfg.publicAddress (relays r.trace).length r) (fuel : Nat) :
    OwnConnection (loopTrace cfg .http fuel s) ∧
      (∀ (i : Nat) (e : Event), (relays (loopTrace cfg .http fuel s))[i]? = some e →
        ∃ u : Served, us[i]? = some u ∧ u.reply.final.Shown cfg.publicAddress e) ∧
      ∀ (i : Nat) (e e' : Event), (relays (loopTrace cfg .http fuel s))[i]? = some e →
        (relays (loopTrace cfg .http fuel s'))[i]? = some e' → SameResponse e e' := by
  have ht := tells_of_turns h hready fuel
  have ht' := tells_of_turns h' hready' fuel
  refine ⟨loopTrace_ownConnection cfg fuel hown, fun i e hi => ?_, fun i e e' hi hi' => ?_⟩
  · obtain ⟨-, r, hr, hshown⟩ := ht.shown i e hi
    obtain ⟨u, hu, rfl⟩ := Option.map_eq_some_iff.1 ((List.getElem?_map ..).symm.trans hr)
    exact ⟨u, hu, hshown⟩
  · obtain ⟨-, r, hr, hshown⟩ := ht.shown i e hi
    obtain ⟨-, r', hr', hshown'⟩ := ht'.shown i e' hi'
    rw [Servers.replies, hreplies] at hr
    obtain rfl := Option.some.inj (hr.symm.trans hr')
    exact sameResponse_of_shown hshown hshown'

/-- The status of the response that is relayed. -/
def relayStatus : Event → Nat
  | .relay m _ _ => m.status
  | _ => 0

/-- A response that no one has asked for. -/
def surplusResponse : Bytes := str "HTTP/1.1 404 Not Found\r\nContent-Length: 0\r\n\r\n"

/-- The same reply with a response behind its body, in one segment. -/
def surplusServed : Served :=
  servedIn helloReply surplusResponse [str "HTTP/1.1 200 OK\r\nContent-Length: 5\r\n\r\n",
    str "hello" ++ surplusResponse] (by decide)

/-- The same reply, with that response in a segment of its own. -/
def laterServed : Served :=
  servedIn helloReply surplusResponse [str "HTTP/1.1 200 OK\r\nContent-Length: 5\r\n\r\n",
    str "hello", surplusResponse] (by decide)

theorem turning_later : Turning laterServed := (turning_iff _).2 (by decide +kernel)

/-- Two runs with two requests, which differ in what the first server sends behind its reply. -/
theorem separate_of_turns_later :
    helloServed.surplus = [] ∧ laterServed.surplus = surplusResponse ∧
      (relays (loopTrace (blockConfig [] true) .http 3 (twoClient helloServed))).length = 2 ∧
      (relays (loopTrace (blockConfig [] true) .http 3 (twoClient laterServed))).length = 2 ∧
      ∀ (i : Nat) (e e' : Event),
        (relays (loopTrace (blockConfig [] true) .http 3 (twoClient helloServed)))[i]? = some e →
        (relays (loopTrace (blockConfig [] true) .http 3 (twoClient laterServed)))[i]? = some e' →
        SameResponse e e' := by
  have hreplies : [helloServed, emptyServed].map Served.reply =
      [laterServed, emptyServed].map Served.reply := rfl
  refine ⟨rfl, rfl, by decide +kernel, by decide +kernel, ?_⟩
  exact (separate_of_turns (blockConfig [] true) hreplies (begins_twoClient helloServed)
    (begins_twoClient laterServed) (ownConnection_of_forwards fun e he => (List.not_mem_nil he).elim)
    (ready_twoClient (t := []) rfl rfl turning_hello)
    (ready_twoClient (t := [.data surplusResponse]) rfl rfl turning_later) 3).2.2

/-- What a client receives that sends two requests. -/
def twoRelays (u : Served) : List Event :=
  relays (loopTrace (blockConfig [] true) .http 2 (twoClient u))

/-- The response behind the first reply is relayed as the second one. -/
theorem not_separate_surplus :
    [helloServed, emptyServed].map Served.reply = [surplusServed, emptyServed].map Served.reply ∧
      ¬ ∀ (i : Nat) (e e' : Event), (twoRelays helloServed)[i]? = some e →
        (twoRelays surplusServed)[i]? = some e' → SameResponse e e' := by
  refine ⟨rfl, fun h => ?_⟩
  have hstatus : (twoRelays helloServed)[1]?.map relayStatus = some 200 ∧
      (twoRelays surplusServed)[1]?.map relayStatus = some 404 := by decide +kernel
  obtain ⟨e, he, h200⟩ := Option.map_eq_some_iff.1 hstatus.1
  obtain ⟨e', he', h404⟩ := Option.map_eq_some_iff.1 hstatus.2
  obtain ⟨m, payload, wire, wire', ws, ws', stop, stop', rfl, rfl, -⟩ := h 1 e e' he he'
  exact absurd (h200.symm.trans h404) (by decide)

end SrsHttpxProxyConn

end HttpProxy
