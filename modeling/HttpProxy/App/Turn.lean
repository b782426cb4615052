import HttpProxy.App.Proxy

/-!
# What one turn of the proxy records

`transaction` is taken apart once here: whatever a turn runs into, the events it
records have one of the shapes of `TurnEvents`, and a turn that goes on to the next
request has been answered.  What holds of every run is derived from this.

* `ParsedTo` — `parse_message` returned a message.
* `transaction_events` — the events of one turn, with the state it leaves.
* `processRequests_rule` — what every turn keeps holds of every run.
* `StepsKeep`, `StepsKeep.processRequestsIn` — so does what every step keeps.
-/

namespace HttpProxy

namespace SrsHttpxProxyConn

/-- `parse_message` on `src` returned `m` and left `src'`. -/
structure ParsedTo (cfg : ProxyConfig) (o : SrsHttpParser) (src : Source) (m : SrsHttpMessage)
    (src' : Source) : Prop where
  err : (SrsHttpParser.parseMessage cfg.publicAddress o src).err = none
  msg : (SrsHttpParser.parseMessage cfg.publicAddress o src).msg = some m
  src : (SrsHttpParser.parseMessage cfg.publicAddress o src).src = src'

/-- The destination a request names. -/
def destOf (m : SrsHttpMessage) : Bytes × Int := (m.getDestDomain, m.getDestPort)

/-- Where a request goes: on plain HTTP to the next proxy, or to the host and port for
which `svr_skt` was made. -/
def target (cfg : ProxyConfig) (p : Path) (c : SrsHttpxProxyConn) (m : SrsHttpMessage) :
    Bytes × Int :=
  match p with
  | .http => cfg.nextHip.getD (c.dest?.getD (destOf m))
  | .https => c.upstream

/-- On plain HTTP every request opens a connection. -/
def opens (p : Path) (d : Bytes × Int) : List Event :=
  match p with
  | .http => [.opened d.1 d.2]
  | .https => []

/-- A request goes out, with the body that is read from `src` behind `reqBody`. -/
def forwardEvent (d : Bytes × Int) (reqBody : Bytes) (m : SrsHttpMessage) (src : Source) : Event :=
  .forward d.1 d.2 m src
    (m.rawHeader :: requestWrites m.framing (reqBody ++ (bodyReadAll m src).data))
    (bodyReadAll m src).stop

/-- A response goes back, as it was parsed and read from the server. -/
inductive RelayEvent (cfg : ProxyConfig) (p : Path) (m : SrsHttpMessage) : Event → Prop
  | intro {src₀ src : Source} {out : Sink} (hm : ParsedTo cfg (.new .response) src₀ m src) :
      RelayEvent cfg p m (.relay m (m.rawHeader :: (relayResponse p m src out).writes)
        (relayResponse p m src out).stop)

/-- Bytes in a tunnel that was set up by `m`. -/
def IsTunnelled (m : SrsHttpMessage) (e : Event) : Prop := ∃ b bs, e = .tunnelled m b bs

/-- The events up to the forwarded request. -/
def sentEvents (cfg : ProxyConfig) (p : Path) (c : SrsHttpxProxyConn) (m : SrsHttpMessage)
    (src : Source) : List Event :=
  .request m :: opens p (target cfg p c m) ++ [forwardEvent (target cfg p c m) c.reqBody m src]

/-- The events of a turn that starts in the state `c`. -/
inductive TurnEvents (cfg : ProxyConfig) (p : Path) (c : SrsHttpxProxyConn) : List Event → Prop
  | silent : TurnEvents cfg p c []
  | blocked {m : SrsHttpMessage} {src : Source} (ws : List Bytes)
      (hm : ParsedTo cfg c.parser (c.clientSource p) m src)
      (hb : cfg.policy.matchBlackList m.getDestDomain = true) :
      TurnEvents cfg p c [.request m, .blocked m ws]
  | refused {m : SrsHttpMessage} {src : Source} (hm : ParsedTo cfg c.parser (c.clientSource p) m src)
      (hb : cfg.policy.matchBlackList m.getDestDomain = false) : TurnEvents cfg p c [.request m]
  | unanswered {m : SrsHttpMessage} {src : Source} (err : Option SrsError)
      (hm : ParsedTo cfg c.parser (c.clientSource p) m src)
      (hb : cfg.policy.matchBlackList m.getDestDomain = false) :
      TurnEvents cfg p c (sentEvents cfg p c m src ++ [.noResponse err])
  | answered {m r : SrsHttpMessage} {src : Source} {e : Event} {ts : List Event}
      (hm : ParsedTo cfg c.parser (c.clientSource p) m src)
      (hb : cfg.policy.matchBlackList m.getDestDomain = false) (he : RelayEvent cfg p r e)
      (hts : ∀ t ∈ ts, IsTunnelled m t) :
      TurnEvents cfg p c (sentEvents cfg p c m src ++ [.response r, e] ++ ts)

/-- A single event of a turn. -/
inductive TurnEvent (cfg : ProxyConfig) (p : Path) (c : SrsHttpxProxyConn) : Event → Prop
  | request (m : SrsHttpMessage) : TurnEvent cfg p c (.request m)
  | blocked (m : SrsHttpMessage) (ws : List Bytes) : TurnEvent cfg p c (.blocked m ws)
  | opened (host : Bytes) (port : Int) : TurnEvent cfg p c (.opened host port)
  | forward {m : SrsHttpMessage} {src : Source} (hm : ParsedTo cfg c.parser (c.clientSource p) m src)
      (hb : cfg.policy.matchBlackList m.getDestDomain = false) :
      TurnEvent cfg p c (forwardEvent (target cfg p c m) c.reqBody m src)
  | response (r : SrsHttpMessage) : TurnEvent cfg p c (.response r)
  | noResponse (err : Option SrsError) : TurnEvent cfg p c (.noResponse err)
  | relay {r : SrsHttpMessage} {e : Event} (he : RelayEvent cfg p r e) : TurnEvent cfg p c e
  | tunnelled {m : SrsHttpMessage} {e : Event}
      (hb : cfg.policy.matchBlackList m.getDestDomain = false) (he : IsTunnelled m e) :
      TurnEvent cfg p c e

/-! ## The steps -/

variable {cfg : ProxyConfig} {p : Path} {c s : SrsHttpxProxyConn} {m r : SrsHttpMessage}
  {src : Source}

theorem TurnEvent.of_mem_sentEvents {e : Event} (hm : ParsedTo cfg c.parser (c.clientSource p) m src)
    (hb : cfg.policy.matchBlackList m.getDestDomain = false) (he : e ∈ sentEvents cfg p c m src) :
    TurnEvent cfg p c e := by
  simp only [sentEvents, List.cons_append, List.mem_cons, List.mem_append, List.not_mem_nil,
    or_false] at he
  rcases he with rfl | he | rfl
  · exact .request m
  · cases p with
    | http => exact List.mem_singleton.1 he ▸ .opened _ _
    | https => simp [opens] at he
  · exact .forward hm hb

theorem TurnEvents.mem {es : List Event} (h : TurnEvents cfg p c es) {e : Event} (he : e ∈ es) :
    TurnEvent cfg p c e := by
  cases h with
  | silent => simp at he
  | blocked ws hm hb =>
    simp only [List.mem_cons, List.not_mem_nil, or_false] at he
    rcases he with rfl | rfl
    · exact .request _
    · exact .blocked _ _
  | refused hm hb => exact List.mem_singleton.1 he ▸ .request _
  | unanswered err hm hb =>
    rcases List.mem_append.1 he with he | he
    · exact .of_mem_sentEvents hm hb he
    · exact List.mem_singleton.1 he ▸ .noResponse _
  | answered hm hb hr hts =>
    rcases List.mem_append.1 he with he | he
    · rcases List.mem_append.1 he with he | he
      · exact .of_mem_sentEvents hm hb he
      · simp only [List.mem_cons, List.not_mem_nil, or_false] at he
        rcases he with rfl | rfl
        · exact .response _
        · exact .relay hr
    · exact .tunnelled hb (hts e he)

theorem upstream_eq (s : SrsHttpxProxyConn) : s.upstream = s.dest?.getD ([], 0) := rfl

/-- A request has been parsed, and nothing else has happened. -/
structure AfterRequest (cfg : ProxyConfig) (p : Path) (c : SrsHttpxProxyConn) (m : SrsHttpMessage)
    (src : Source) (event : Event) (s : SrsHttpxProxyConn) : Prop where
  parsed : ParsedTo cfg c.parser (c.clientSource p) m src
  trace : s.trace = c.trace ++ [event]
  dest : s.dest? = c.dest?
  reqBody : s.reqBody = c.reqBody
  source : s.clientSource p = src

theorem parseRequest_spec (cfg : ProxyConfig) (p : Path) (event : SrsHttpMessage → Event)
    (c : SrsHttpxProxyConn) :
    Proc.Spec (· = c) (parseRequest cfg p event)
      (fun m s => ∃ src, AfterRequest cfg p c m src (event m) s)
      (fun _ s => s.trace = c.trace) := by
  rintro s rfl
  rw [parseRequest]
  cases herr : (SrsHttpParser.parseMessage cfg.publicAddress s.parser (s.clientSource p)).err with
  | some e => simp
  | none =>
    cases hmsg : (SrsHttpParser.parseMessage cfg.publicAddress s.parser (s.clientSource p)).msg with
    | none => simp
    | some m =>
      refine ⟨_, ⟨herr, hmsg, rfl⟩, ?_, ?_, ?_, ?_⟩
      · simp
      · simp
      · simp
      · exact setClientSource_clientSource s p _

/-- The upstream connection is there. -/
structure AfterOpen (cfg : ProxyConfig) (p : Path) (c : SrsHttpxProxyConn) (m : SrsHttpMessage)
    (src : Source) (s : SrsHttpxProxyConn) : Prop where
  parsed : ParsedTo cfg c.parser (c.clientSource p) m src
  trace : s.trace = c.trace ++ .request m :: opens p (target cfg p c m)
  upstream : s.upstream = target cfg p c m
  dest : p = .http → s.dest? = some (target cfg p c m)
  reqBody : s.reqBody = c.reqBody
  source : s.clientSource p = src

theorem connect_spec (svr : SrsTcpClient) (c : SrsHttpxProxyConn) :
    Proc.Spec (· = c) (connect svr)
      (fun _ s => s.trace = c.trace ++ [.opened svr.host svr.port] ∧
        s.dest? = some (svr.host, svr.port) ∧ s.reqBody = c.reqBody ∧
        s.clientSource .http = c.clientSource .http)
      (fun _ s => s.trace = c.trace) := by
  rintro s rfl
  rw [connect]
  cases s.net with
  | nil => rfl
  | cons r net =>
    cases r with
    | error e => rfl
    | ok io => exact ⟨rfl, rfl, rfl, rfl⟩

theorem openUpstream_apply (cfg : ProxyConfig) (m : SrsHttpMessage) (s : SrsHttpxProxyConn) :
    openUpstream cfg m s = connect
      (match cfg.nextHip with
        | some hop => ⟨hop.1, hop.2, .closed⟩
        | none => s.svrSkt.getD ⟨m.getDestDomain, m.getDestPort, .closed⟩) s := by
  cases h : cfg.nextHip <;> simp only [openUpstream, h] <;> rfl

theorem openUpstream_spec (h : AfterRequest cfg .http c m src (.request m) s) :
    Proc.Spec (· = s) (openUpstream cfg m) (fun _ s' => AfterOpen cfg .http c m src s')
      (fun _ s' => s'.trace = s.trace) := by
  rintro s' rfl
  rw [openUpstream_apply]
  generalize hsvr : (match cfg.nextHip with
    | some hop => SrsTcpClient.mk hop.1 hop.2 .closed
    | none => s'.svrSkt.getD ⟨m.getDestDomain, m.getDestPort, .closed⟩) = svr
  have htarget : (svr.host, svr.port) = target cfg .http c m := by
    rw [target, ← h.dest, ← hsvr]
    cases cfg.nextHip with
    | some hop => rfl
    | none => cases hskt : s'.svrSkt <;> simp [dest?, destOf, hskt]
  refine (connect_spec svr s').conseq (fun _ h => h) ?_ (fun _ _ h => h) s' rfl
  rintro - s'' ⟨htrace, hdest, hbody, hsrc⟩
  refine ⟨h.parsed, ?_, ?_, fun _ => ?_, hbody.trans h.reqBody, hsrc.trans h.source⟩
  · rw [htrace, h.trace, ← htarget, opens]
    simp
  · rw [upstream_eq, hdest, htarget]
    rfl
  · rw [hdest, htarget]

/-- The request has been sent. -/
structure AfterForward (cfg : ProxyConfig) (p : Path) (c : SrsHttpxProxyConn) (m : SrsHttpMessage)
    (src : Source) (s : SrsHttpxProxyConn) : Prop where
  parsed : ParsedTo cfg c.parser (c.clientSource p) m src
  trace : s.trace = c.trace ++ sentEvents cfg p c m src
  dest : p = .http → s.dest? = some (target cfg p c m)

theorem forward_spec (h : AfterOpen cfg p c m src s) :
    Proc.Spec (· = s) (forward p m) (fun _ s' => AfterForward cfg p c m src s')
      (fun _ _ => False) := by
  refine Proc.Spec.modify ?_
  rintro s' rfl
  refine ⟨h.parsed, ?_, fun hp => ?_⟩
  · simp [h.trace, h.upstream, h.source, h.reqBody, sentEvents, forwardEvent]
  · simpa using h.dest hp

/-- A response has been parsed. -/
structure AfterResponse (cfg : ProxyConfig) (p : Path) (s : SrsHttpxProxyConn) (r : SrsHttpMessage)
    (s' : SrsHttpxProxyConn) : Prop where
  parsed : ParsedTo cfg (.new .response) (s.serverSource p) r (s'.serverSource p)
  trace : s'.trace = s.trace ++ [.response r]
  dest : s'.dest? = s.dest?
  reqBody : s'.reqBody = s.reqBody

theorem parseResponse_spec (cfg : ProxyConfig) (p : Path) (s : SrsHttpxProxyConn)
    (hs : p = .http → s.dest? ≠ none) :
    Proc.Spec (· = s) (parseResponse cfg p) (fun r s' => AfterResponse cfg p s r s')
      (fun _ s' => ∃ err, s'.trace = s.trace ++ [.noResponse err]) := by
  rintro s rfl
  rw [parseResponse]
  cases herr : (SrsHttpParser.parseMessage cfg.publicAddress (.new .response) (s.serverSource p)).err with
  | some e => exact ⟨some e, by simp⟩
  | none =>
    cases hmsg : (SrsHttpParser.parseMessage cfg.publicAddress (.new .response) (s.serverSource p)).msg with
    | none => exact ⟨none, by simp⟩
    | some m =>
      refine ⟨⟨herr, hmsg, ?_⟩, ?_, ?_, ?_⟩
      · exact (setServerSource_serverSource s p _ hs).symm
      · simp
      · simp
      · simp

theorem relay_spec (h : AfterResponse cfg p s₀ r s) :
    Proc.Spec (· = s) (relay p r)
      (fun _ s' => ∃ e, RelayEvent cfg p r e ∧ s'.trace = s.trace ++ [e] ∧ s'.dest? = s.dest?)
      (fun _ s' => ∃ e, RelayEvent cfg p r e ∧ s'.trace = s.trace ++ [e]) := by
  have hsrc : (s.toClient p [r.rawHeader]).serverSource p = s.serverSource p := by
    cases p <;> rfl
  have hevent := @RelayEvent.intro cfg p r _ _ ((s.toClient p [r.rawHeader]).client p).out h.parsed
  rintro s' rfl
  rw [relay]
  simp only [hsrc]
  cases (relayResponse p r (s'.serverSource p) ((s'.toClient p [r.rawHeader]).client p).out).exit with
  | none => exact ⟨_, hevent, by simp, by simp⟩
  | some e => exact ⟨_, hevent, by simp⟩

/-- A state that differs from another by bytes that went through a tunnel. -/
structure Tunnelled (m : SrsHttpMessage) (s s' : SrsHttpxProxyConn) : Prop where
  trace : ∃ ts, s'.trace = s.trace ++ ts ∧ ∀ t ∈ ts, IsTunnelled m t
  dest : s'.dest? = s.dest?

theorem Tunnelled.refl (m : SrsHttpMessage) (s : SrsHttpxProxyConn) : Tunnelled m s s :=
  ⟨⟨[], by simp, by simp⟩, rfl⟩

theorem Tunnelled.trans {s₁ s₂ s₃ : SrsHttpxProxyConn} (h : Tunnelled m s₁ s₂)
    (h' : Tunnelled m s₂ s₃) : Tunnelled m s₁ s₃ := by
  obtain ⟨ts, hts, hall⟩ := h.trace
  obtain ⟨ts', hts', hall'⟩ := h'.trace
  refine ⟨⟨ts ++ ts', by rw [hts', hts, List.append_assoc], fun t ht => ?_⟩, h'.dest.trans h.dest⟩
  rcases List.mem_append.1 ht with ht | ht
  · exact hall t ht
  · exact hall' t ht

theorem pass_tunnelled (m : SrsHttpMessage) (b : Bool) (s : SrsHttpxProxyConn) :
    Tunnelled m s (pass m b s).2 := by
  rw [pass]
  cases b with
  | true =>
    cases hread : Socket.read (s.client .http).skt IOBUFSIZE with
    | mk res s' =>
      cases res with
      | ok bs =>
        exact ⟨⟨[.tunnelled m true bs], by simp [hread], by simpa using ⟨true, bs, rfl⟩⟩, by simp [hread]⟩
      | error e => exact ⟨⟨[], by simp [hread], by simp⟩, by simp [hread]⟩
  | false =>
    cases hread : Socket.read (s.server .http).skt IOBUFSIZE with
    | mk res s' =>
      cases res with
      | ok bs =>
        exact ⟨⟨[.tunnelled m false bs], by simp [hread], by simpa using ⟨false, bs, rfl⟩⟩,
          by simp [hread]⟩
      | error e => exact ⟨⟨[], by simp [hread], by simp⟩, by simp [hread]⟩

theorem passIf_tunnelled (b : Bool) (m : SrsHttpMessage) (b' : Bool) (s : SrsHttpxProxyConn) :
    Tunnelled m s (passIf b m b' s).2 := by
  rw [passIf]
  split_ifs
  · exact pass_tunnelled m b' s
  · exact Tunnelled.refl m s

theorem tunnelLoop_tunnelled (m : SrsHttpMessage) (polls : List (Option (Bool × Bool)))
    (s : SrsHttpxProxyConn) : Tunnelled m s (tunnelLoop m polls s) := by
  have hpolls : ∀ (s : SrsHttpxProxyConn) ps, Tunnelled m s (s.setPolls ps) := fun s ps =>
    ⟨⟨[], by simp, by simp⟩, by simp⟩
  induction polls generalizing s with
  | nil => exact hpolls s []
  | cons poll polls ih =>
    cases poll with
    | none => exact hpolls s polls
    | some r =>
      simp only [tunnelLoop]
      have h₁ := passIf_tunnelled r.1 m true s
      have h₂ := passIf_tunnelled r.2 m false (passIf r.1 m true s).2
      split_ifs
      · exact (h₁.trans h₂).trans (ih _)
      · exact (h₁.trans h₂).trans (hpolls _ _)
      · exact h₁.trans (hpolls _ _)

/-! ## The turn -/

/-- The request of a turn has been answered, and the connection waits for the next. -/
structure TurnDone (cfg : ProxyConfig) (p : Path) (c s : SrsHttpxProxyConn) : Prop where
  events : ∃ m src es, s.trace = c.trace ++ (sentEvents cfg p c m src ++ es) ∧
    TurnEvents cfg p c (sentEvents cfg p c m src ++ es) ∧
    (p = .http → s.dest? = some (target cfg p c m))
  reqBody : s.reqBody = []

theorem openFor_spec (h : AfterRequest cfg p c m src (.request m) s) :
    Proc.Spec (· = s) (openFor cfg p m) (fun _ s' => AfterOpen cfg p c m src s')
      (fun _ s' => s'.trace = s.trace) := by
  cases p with
  | http => exact openUpstream_spec h
  | https =>
    refine Proc.Spec.pure ?_
    rintro s' rfl
    refine ⟨h.parsed, h.trace, ?_, fun hp => Path.noConfusion hp, h.reqBody, h.source⟩
    rw [upstream_eq, h.dest]
    rfl

theorem endTurn_spec (m r : SrsHttpMessage) (s : SrsHttpxProxyConn) :
    Proc.Spec (· = s) (endTurn m r) (fun _ s' => Tunnelled m s s' ∧ s'.reqBody = [])
      (fun _ s' => s' = s) := by
  refine Proc.Spec.ite (fun _ => Proc.Spec.exit fun s' h => h) fun _ => ?_
  refine Proc.Spec.bind (Q := fun _ s' => Tunnelled m s s') (Proc.Spec.ite (fun _ => ?_) fun _ => ?_)
    fun _ => Proc.Spec.modify fun s' (h : Tunnelled m s s') =>
      ⟨⟨by simpa using h.trace, by simpa using h.dest⟩, rfl⟩
  · refine Proc.Spec.modify ?_
    rintro s' rfl
    exact tunnelLoop_tunnelled m _ s'
  · refine Proc.Spec.pure ?_
    rintro s' rfl
    exact Tunnelled.refl m s'

/-- What a turn that does not go on records. -/
def TurnLeft (cfg : ProxyConfig) (p : Path) (c s : SrsHttpxProxyConn) : Prop :=
  ∃ es, s.trace = c.trace ++ es ∧ TurnEvents cfg p c es

theorem serve_spec (h : AfterRequest cfg p c m src (.request m) s)
    (hb : cfg.policy.matchBlackList m.getDestDomain = false) :
    Proc.Spec (· = s) (serve cfg p m) (fun _ s' => TurnDone cfg p c s')
      (fun _ s' => TurnLeft cfg p c s') := by
  refine Proc.Spec.bind ((openFor_spec h).conseq (fun _ h => h) (fun _ _ h => h) fun _ s' h' =>
    ⟨_, h'.trans h.trace, .refused h.parsed hb⟩) fun _ => ?_
  intro s₁ h₁
  refine Proc.Spec.bind ((forward_spec h₁).conseq (fun _ h => h) (fun _ _ h => h)
    fun _ _ h => h.elim) (fun _ => ?_) s₁ rfl
  intro s₂ h₂
  have hserver : p = .http → s₂.dest? ≠ none := fun hp => by rw [h₂.dest hp]; simp
  refine Proc.Spec.bind ((parseResponse_spec cfg p s₂ hserver).conseq (fun _ h => h)
    (fun _ _ h => h) ?_) (fun r => ?_) s₂ rfl
  · rintro - s' ⟨err, htrace⟩
    exact ⟨_, by rw [htrace, h₂.trace, List.append_assoc], .unanswered err h₂.parsed hb⟩
  intro s₃ h₃
  have hend : ∀ {e : Event} {s₄ : SrsHttpxProxyConn} {ts : List Event}, RelayEvent cfg p r e →
    s₄.trace = s₃.trace ++ [e] →
      (∀ t ∈ ts, IsTunnelled m t) →
      s₄.trace ++ ts = c.trace ++ (sentEvents cfg p c m src ++ ([.response r, e] ++ ts)) ∧
        TurnEvents cfg p c (sentEvents cfg p c m src ++ ([.response r, e] ++ ts)) := by
    intro e s₄ ts he htrace hts
    refine ⟨?_, ?_⟩
    · rw [htrace, h₃.trace, h₂.trace]
      simp
    · rw [← List.append_assoc]
      exact .answered h₂.parsed hb he hts
  refine Proc.Spec.bind ((relay_spec h₃).conseq (fun _ h => h) (fun _ _ h => h) ?_) (fun _ => ?_) s₃ rfl
  · rintro - s' ⟨e, he, htrace⟩
    obtain ⟨h1, h2⟩ := @hend e _ [] he htrace (by simp)
    exact ⟨_, by rwa [List.append_nil] at h1, h2⟩
  rintro s₄ ⟨e, he, htrace, hdest⟩
  refine (endTurn_spec m r s₄).conseq (fun _ h => h) ?_ ?_ s₄ rfl
  · rintro - s' ⟨htunnel, hbody⟩
    obtain ⟨ts, hts, hall⟩ := htunnel.trace
    obtain ⟨h1, h2⟩ := hend he htrace hall
    refine ⟨⟨m, src, _, hts.trans h1, h2, fun hp => ?_⟩, hbody⟩
    rw [htunnel.dest, hdest, h₃.dest, h₂.dest hp]
  · rintro - s' rfl
    obtain ⟨h1, h2⟩ := @hend e _ [] he htrace (by simp)
    exact ⟨_, by rwa [List.append_nil] at h1, h2⟩

/-- **One turn.**  Whatever happens, the events of a turn are `TurnEvents`; a turn that is not
the last one has forwarded and answered a request. -/
theorem transaction_events (cfg : ProxyConfig) (p : Path) (c : SrsHttpxProxyConn) :
    Proc.Spec (· = c) (transaction cfg p) (fun _ s => TurnDone cfg p c s)
      (fun _ s => TurnLeft cfg p c s) := by
  refine Proc.Spec.bind ((parseRequest_spec cfg p .request c).conseq (fun _ h => h)
    (fun _ _ h => h) fun _ s h => ⟨[], by simp [h], .silent⟩) fun m => ?_
  rintro s ⟨src, hreq⟩
  refine Proc.Spec.ite (P := (· = s)) (fun hb => ?_) (fun hb => ?_) s rfl
  · refine Proc.Spec.bind (Q := fun _ s' => s'.trace = s.trace ++ [.blocked m (prepare403block cfg m)])
      (Proc.Spec.modify ?_) fun _ => Proc.Spec.exit fun s' hs' => ?_
    · rintro s' rfl
      simp
    · exact ⟨_, by rw [hs', hreq.trace, List.append_assoc]; rfl, .blocked _ hreq.parsed hb⟩
  · exact serve_spec hreq (Bool.not_eq_true _ ▸ hb)

/-! ## Runs -/

/-- What may be recorded between the `CONNECT` request `m` and the first request behind it. -/
inductive ConnectEvent (m : SrsHttpMessage) : Event → Prop
  | opened (host : Bytes) (port : Int) : ConnectEvent m (.opened host port)
  | forwarded (ws : List Bytes) : ConnectEvent m (.connectForwarded m ws)
  | response (r : SrsHttpMessage) : ConnectEvent m (.response r)
  | noResponse (err : Option SrsError) : ConnectEvent m (.noResponse err)
  | tunnelled {e : Event} (he : IsTunnelled m e) : ConnectEvent m e

/-- A state behind another, with events of a `CONNECT` request in between. -/
def ConnectStep (m : SrsHttpMessage) (c s : SrsHttpxProxyConn) : Prop :=
  ∃ es, s.trace = c.trace ++ es ∧ ∀ e ∈ es, ConnectEvent m e

theorem ConnectStep.of_trace (h : s.trace = c.trace) : ConnectStep m c s :=
  ⟨[], by simp [h], by simp⟩

theorem ConnectStep.of_event {e : Event} (h : s.trace = c.trace ++ [e]) (he : ConnectEvent m e) :
    ConnectStep m c s := ⟨[e], h, by simpa using he⟩

theorem ConnectStep.trans {s₁ s₂ s₃ : SrsHttpxProxyConn} (h : ConnectStep m s₁ s₂)
    (h' : ConnectStep m s₂ s₃) : ConnectStep m s₁ s₃ := by
  obtain ⟨es, hes, hall⟩ := h
  obtain ⟨es', hes', hall'⟩ := h'
  refine ⟨es ++ es', by rw [hes', hes, List.append_assoc], fun e he => ?_⟩
  rcases List.mem_append.1 he with he | he
  · exact hall e he
  · exact hall' e he

theorem openTunnel_spec (cfg : ProxyConfig) (m : SrsHttpMessage) (c : SrsHttpxProxyConn) :
    Proc.Spec (· = c) (openTunnel cfg m)
      (fun _ s => ConnectStep m c s ∧ s.reqBody = c.reqBody) (fun _ s => ConnectStep m c s) := by
  have hconnect : ∀ svr : SrsTcpClient, Proc.Spec (· = c) (connect svr)
      (fun _ s => (ConnectStep m c s ∧ s.reqBody = c.reqBody) ∧ s.dest? ≠ none)
      (fun _ s => ConnectStep m c s) := by
    intro svr
    refine (connect_spec svr c).conseq (fun _ h => h) ?_ fun _ s h => .of_trace h
    rintro - s ⟨htrace, hdest, hbody, -⟩
    exact ⟨⟨.of_event htrace (.opened _ _), hbody⟩, by rw [hdest]; simp⟩
  rw [openTunnel]
  cases cfg.nextHip with
  | none => exact (hconnect _).conseq (fun _ h => h) (fun _ _ h => h.1) fun _ _ h => h
  | some hop =>
    refine Proc.Spec.bind (hconnect _) fun _ => Proc.Spec.bind
      (Q := fun _ s => (ConnectStep m c s ∧ s.reqBody = c.reqBody) ∧ s.dest? ≠ none)
      (Proc.Spec.modify ?_) fun _ => ?_
    · rintro s ⟨⟨hs, hbody⟩, hdest⟩
      refine ⟨⟨hs.trans (.of_event ?_ (.forwarded [m.rawHeader])), by simpa using hbody⟩,
        by simpa using hdest⟩
      simp
    · refine Proc.Spec.bind (Q := fun _ s => ConnectStep m c s ∧ s.reqBody = c.reqBody) ?_
        fun _ => Proc.Spec.pure fun _ h => h
      rintro s ⟨⟨hs, hbody⟩, hdest⟩
      refine (parseResponse_spec cfg .http s fun _ => hdest).conseq (fun _ h => h) ?_ ?_ s rfl
      · intro r s' hr
        exact ⟨hs.trans (.of_event hr.trace (.response r)), hr.reqBody.trans hbody⟩
      · rintro - s' ⟨err, htrace⟩
        exact hs.trans (.of_event htrace (.noResponse err))

theorem handshakes_spec (c : SrsHttpxProxyConn) :
    Proc.Spec (· = c) handshakes (fun _ s => s.trace = c.trace ∧ s.reqBody = c.reqBody)
      (fun _ s => s.trace = c.trace) := by
  rintro s rfl
  rw [handshakes]
  cases s.serverHandshake with
  | error e => rfl
  | ok svrSsl =>
    cases s.clientHandshake with
    | error e => simp
    | ok cltSsl => simp

/-- **Runs of a connection.**  What holds at first, is kept by the `CONNECT` request and what
belongs to it, and is kept by every turn, holds between the turns (`J`) and wherever the
connection is left (`X`). -/
theorem processRequests_rule {cfg : ProxyConfig} {J : SrsHttpxProxyConn → Prop}
    {X : List Event → Prop} (hX : ∀ s, J s → X s.trace)
    (hturn : ∀ p, Proc.Spec J (transaction cfg p) (fun _ => J) (fun _ s => X s.trace))
    (hconnect : ∀ c m s s', J c → s.trace = c.trace ++ [.connectRequest m] → ConnectStep m s s' →
      X s'.trace ∧ (s'.reqBody = c.reqBody → J s')) (memory : Bytes) (fuel : Nat) :
    Proc.Spec J (processRequestsIn memory cfg fuel) (fun _ _ => False) (fun _ s => X s.trace) := by
  have hrun : ∀ p, Proc.Spec J (Proc.forever .running (transaction cfg p) fuel) (fun _ _ => False)
      (fun _ s => X s.trace) := fun p => Proc.Spec.forever (hturn p) hX fuel
  have hhttps : Proc.Spec J (processHttpsConnection cfg fuel) (fun _ _ => False)
      (fun _ s => X s.trace) := by
    intro c hc
    refine Proc.Spec.bind ((parseRequest_spec cfg .http .connectRequest c).conseq (fun _ h => h)
      (fun _ _ h => h) fun _ s h => by rw [h]; exact hX c hc) (fun m => ?_) c rfl
    rintro s ⟨src, hreq⟩
    have hstep : ∀ {s'}, ConnectStep m s s' → X s'.trace ∧ (s'.reqBody = c.reqBody → J s') :=
      fun h => hconnect c m s _ hc hreq.trace h
    refine Proc.Spec.bind ((openTunnel_spec cfg m s).conseq (fun _ h => h) (fun _ _ h => h)
      fun _ s' h => (hstep h).1) (fun _ => ?_) s rfl
    rintro s₁ ⟨h₁, hbody₁⟩
    refine Proc.Spec.ite (P := (· = s₁)) (fun _ => ?_) (fun _ => ?_) s₁ rfl
    · refine Proc.Spec.bind (Q := fun _ s' => ConnectStep m s s') (Proc.Spec.modify ?_) fun _ =>
        Proc.Spec.bind (Q := fun _ s' => ConnectStep m s s') (Proc.Spec.modify ?_) fun _ =>
          Proc.Spec.exit fun s' h => (hstep h).1
      · rintro s' rfl
        exact h₁.trans (.of_trace (by simp))
      · intro s' h
        obtain ⟨ts, hts, hall⟩ := (tunnelLoop_tunnelled m s'.polls s').trace
        exact h.trans ⟨ts, hts, fun e he => .tunnelled (hall e he)⟩
    · refine Proc.Spec.bind ((handshakes_spec s₁).conseq (fun _ h => h) ?_ ?_) fun _ => hrun .https
      · rintro - s' ⟨htrace, hbody⟩
        exact (hstep (h₁.trans (.of_trace htrace))).2 ((hbody.trans hbody₁).trans hreq.reqBody)
      · rintro - s' htrace
        exact (hstep (h₁.trans (.of_trace htrace))).1
  intro c hc
  rw [processRequestsIn]
  cases checkHttpOrHttpsIn memory c with
  | error e => exact hX c hc
  | ok b =>
    cases b with
    | true => exact hhttps c hc
    | false => exact hrun .http c hc

/-- What a run of `process_requests` records, for what the buffer of its peek holds before. -/
def requestsTrace (memory : Bytes) (cfg : ProxyConfig) (fuel : Nat) (c : SrsHttpxProxyConn) : List Event :=
  (processRequestsIn memory cfg fuel c).2.trace

/-- The rule, read off the trace. -/
theorem requestsTrace_rule {memory : Bytes} {cfg : ProxyConfig} {X : List Event → Prop} {fuel : Nat}
    {J : SrsHttpxProxyConn → Prop}
    (h : Proc.Spec J (processRequestsIn memory cfg fuel) (fun _ _ => False) (fun _ s => X s.trace))
    (hc : J c) : X (requestsTrace memory cfg fuel c) := by
  have h1 := h c hc
  rw [requestsTrace]
  split at h1
  · exact h1.elim
  · rename_i heq
    rw [heq]
    exact h1

/-! ## Invariants of the steps -/

/-- Every step of a connection keeps `I`. -/
structure StepsKeep (cfg : ProxyConfig) (I : SrsHttpxProxyConn → Prop) : Prop where
  parseRequest : ∀ p, Proc.Keeps I (parseRequest cfg p .request)
  parseConnect : Proc.Keeps I (SrsHttpxProxyConn.parseRequest cfg .http .connectRequest)
  /-- What is connected has not been connected before, or it is `svr_skt` as it is. -/
  connect : ∀ svr s, svr.io = .closed ∨ s.svrSkt = some svr → I s → I (connect svr s).2
  toClient : ∀ s p ws, I s → I (s.toClient p ws)
  blocked : ∀ s m ws, I s → I (s.log (.blocked m ws))
  connectForwarded : ∀ s m, I s →
    I ((s.toServer .http [m.rawHeader]).log (.connectForwarded m [m.rawHeader]))
  forward : ∀ p m, Proc.Keeps I (forward p m)
  parseResponse : ∀ p, Proc.Keeps I (parseResponse cfg p)
  relay : ∀ p r, Proc.Keeps I (relay p r)
  pass : ∀ m b s, I s → I (pass m b s).2
  setPolls : ∀ s ps, I s → I (s.setPolls ps)
  endTurn : ∀ s info, I s → I ((s.writeAccessLog info).setReqBody [])
  handshakes : Proc.Keeps I handshakes

namespace StepsKeep

variable {I : SrsHttpxProxyConn → Prop}

theorem openFor (h : StepsKeep cfg I) (m : SrsHttpMessage) :
    Proc.Keeps I (SrsHttpxProxyConn.openFor cfg p m) := by
  cases p with
  | https => exact Proc.Keeps.pure
  | http =>
    refine Proc.keeps_of_apply (x := openUpstream cfg m) fun s hs => ?_
    rw [openUpstream_apply]
    refine h.connect _ s ?_ hs
    cases cfg.nextHip with
    | some hop => exact .inl rfl
    | none =>
      cases hskt : s.svrSkt with
      | none => exact .inl rfl
      | some t => exact .inr rfl

theorem tunnelLoop (h : StepsKeep cfg I) (m : SrsHttpMessage) (polls : List (Option (Bool × Bool)))
    (hs : I s) : I (tunnelLoop m polls s) := by
  have hpassIf : ∀ b b' {s}, I s → I (passIf b m b' s).2 := by
    intro b b' s hs
    unfold passIf
    split_ifs
    · exact h.pass m b' s hs
    · exact hs
  induction polls generalizing s with
  | nil => exact h.setPolls s [] hs
  | cons poll polls ih =>
    cases poll with
    | none => exact h.setPolls s polls hs
    | some r =>
      have h₁ := hpassIf r.1 true hs
      have h₂ := hpassIf r.2 false h₁
      simp only [SrsHttpxProxyConn.tunnelLoop]
      split_ifs
      · exact ih h₂
      · exact h.setPolls _ polls h₂
      · exact h.setPolls _ polls h₁

theorem processHttpsTunnel (h : StepsKeep cfg I) (m : SrsHttpMessage) :
    Proc.Keeps I (processHttpsTunnel m) :=
  Proc.Keeps.modify fun s hs => h.tunnelLoop m s.polls hs

theorem transaction (h : StepsKeep cfg I) (p : Path) : Proc.Keeps I (transaction cfg p) := by
  refine (h.parseRequest p).bind fun m => Proc.Keeps.ite ?_ ?_
  · exact (Proc.Keeps.modify fun s hs => h.blocked _ m _ (h.toClient s p _ hs)).bind fun _ =>
      Proc.Keeps.exit
  · refine (h.openFor m).bind fun _ => (h.forward p m).bind fun _ => (h.parseResponse p).bind fun r =>
      (h.relay p r).bind fun _ => Proc.Keeps.ite Proc.Keeps.exit ?_
    exact (Proc.Keeps.ite (h.processHttpsTunnel m) Proc.Keeps.pure).bind fun _ =>
      Proc.Keeps.modify fun s hs => h.endTurn s _ hs

theorem openTunnel (h : StepsKeep cfg I) (m : SrsHttpMessage) : Proc.Keeps I (openTunnel cfg m) := by
  have hconnect : ∀ host port, Proc.Keeps I (SrsHttpxProxyConn.connect ⟨host, port, .closed⟩) :=
    fun host port => Proc.keeps_of_apply fun s hs => h.connect _ s (.inl rfl) hs
  unfold SrsHttpxProxyConn.openTunnel
  cases cfg.nextHip with
  | none => exact hconnect _ _
  | some hop =>
    exact (hconnect _ _).bind fun _ =>
      (Proc.Keeps.modify fun s hs => h.connectForwarded s m hs).bind fun _ =>
        (h.parseResponse .http).bind fun _ => Proc.Keeps.pure

/-- What every step keeps, a run keeps. -/
theorem processRequestsIn (h : StepsKeep cfg I) (memory : Bytes) (fuel : Nat) :
    Proc.Keeps I (processRequestsIn memory cfg fuel) := by
  have hhttps : Proc.Keeps I (processHttpsConnection cfg fuel) := by
    refine h.parseConnect.bind fun m => (h.openTunnel m).bind fun _ => Proc.Keeps.ite ?_ ?_
    · exact (Proc.Keeps.modify fun s hs => h.toClient s .http _ hs).bind fun _ =>
        (h.processHttpsTunnel m).bind fun _ => Proc.Keeps.exit
    · exact h.handshakes.bind fun _ => (h.transaction .https).forever fuel
  refine Proc.keeps_of_apply fun s hs => ?_
  unfold SrsHttpxProxyConn.processRequestsIn
  cases checkHttpOrHttpsIn memory s with
  | error e => exact hs
  | ok b =>
    cases b with
    | true => exact hhttps.apply hs
    | false => exact ((h.transaction .http).forever fuel).apply hs

end StepsKeep

end SrsHttpxProxyConn

end HttpProxy
