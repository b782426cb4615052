import HttpProxy.App.Destination
import HttpProxy.App.Responses

/-!
# The access log

A line is written at the end of a turn, behind the `break` of a connection that is not kept alive
(`src/app/srs_app_http_conn.cpp`, lines 780-797 and 1060-1077), and whatever the unchecked writes to
the client returned.

* `exchange` — a turn up to its response; `transaction_eq` is the turn behind it.
* `RelayedWhole`, `relayedWhole` — the responses that the client has received with the body that the
  RFC assigns to them.
* `transaction_logs` — the line of a turn.
* `EndTells`, `Accounted` — where the end of the relay tells whether the body has arrived.
* `accessLog_of_turns` — in runs of such turns the log has the lines that it should have.
-/

namespace HttpProxy

namespace SrsHttpxProxyConn

open SrsHttpParser SrsHttpResponseReader

variable {cfg : ProxyConfig} {p : Path} {c s : SrsHttpxProxyConn} {L : List SrsAccessLogInfo}

/-! ## A turn up to its response -/

/-- A request, its response, and what the server sends from the response on. -/
structure Exchanged where
  req : SrsHttpMessage
  resp : SrsHttpMessage
  sends : Bytes

/-- A turn up to its response. -/
def exchange (cfg : ProxyConfig) (p : Path) : ProxyM Exchanged := do
  let req ← parseRequest cfg p .request
  if cfg.policy.matchBlackList req.getDestDomain then
    block cfg p req
    Proc.exit (.returned none)
  else
    openFor cfg p req
    forward p req
    let c ← Proc.get
    let resp ← parseResponse cfg p
    pure ⟨req, resp, (c.serverSource p).unread⟩

/-- What is left of a turn: the relay of the response, and its end. -/
def finishTurn (p : Path) (x : Exchanged) : ProxyM Unit := do
  relay p x.resp
  endTurn x.req x.resp

theorem transaction_eq (cfg : ProxyConfig) (p : Path) :
    transaction cfg p = exchange cfg p >>= finishTurn p := by
  rw [exchange, Proc.bind_assoc, transaction]
  refine congrArg _ (funext fun req => ?_)
  split
  · funext c
    rfl
  · rw [serve, Proc.bind_assoc]
    refine congrArg _ (funext fun _ => ?_)
    rw [Proc.bind_assoc]
    refine congrArg _ (funext fun _ => ?_)
    rw [Proc.bind_assoc]
    funext c
    show (parseResponse cfg p >>= fun resp => relay p resp >>= fun _ => endTurn req resp) c =
      ((parseResponse cfg p >>= fun resp => pure ⟨req, resp, (c.serverSource p).unread⟩) >>= finishTurn p) c
    rw [Proc.bind_assoc]
    rfl

/-- The response has just been parsed. -/
theorem exchange_fresh : Proc.Spec (fun _ => True) (exchange cfg p) (fun x _ => Fresh x.resp)
    fun _ _ => True := by
  have hany : ∀ {α : Type} (x : ProxyM α), Proc.Spec (fun _ => True) x (fun _ _ => True) fun _ _ => True := by
    intro α x s _
    rcases x s with ⟨_ | _, _⟩ <;> trivial
  refine (hany _).bind fun req => Proc.Spec.ite (fun _ => ?_) fun _ => ?_
  · exact (hany _).bind fun _ => Proc.Spec.exit fun _ _ => trivial
  · refine (hany _).bind fun _ => (hany _).bind fun _ => (hany _).bind fun c => ?_
    refine Proc.Spec.bind (Q := fun resp _ => Fresh resp) ?_ fun resp => Proc.Spec.pure fun _ h => h
    intro s _
    unfold parseResponse
    simp only
    cases hmsg : (parseMessage cfg.publicAddress (new .response) (s.serverSource p)).msg with
    | none => cases (parseMessage cfg.publicAddress (new .response) (s.serverSource p)).err <;> trivial
    | some m =>
      cases (parseMessage cfg.publicAddress (new .response) (s.serverSource p)).err with
      | none => exact parseMessage_fresh hmsg
      | some e => trivial

/-! ## What is relayed completely -/

/-- The bytes `U` are a header of a response and the bytes `X`, and `f` is how the RFC finds the end of
the body among these. -/
structure Answer (method : HttpMethod) (U H X : Bytes) (f : Rfc.Framing) : Prop where
  bytes : U = H ++ X
  header : IsHeader .response H
  framing : ∃ r hp, readHead .response H = .ok r ∧ r.head.hp = some hp ∧
    f = Rfc.framing method hp.statusCode r.head.fields

/-- The client receives the header of the message and, in the form that the framing has, the body that
the RFC assigns. -/
def Received (p : Path) (m : SrsHttpMessage) (X : Bytes) (f : Rfc.Framing) (c : SrsHttpxProxyConn) : Prop :=
  ∃ b T wire, Rfc.Assigned f X b T ∧ f.Carries wire b ∧
    ((relay p m c).2.client p).out.sent = (c.client p).out.sent ++ m.rawHeader ++ wire

/-- The response is relayed completely. -/
def RelayedWhole (p : Path) (x : Exchanged) (c : SrsHttpxProxyConn) : Prop :=
  ∃ H X f, Answer x.req.method x.sends H X f ∧ Received p x.resp X f c

/-- The line for an exchange. -/
def infoOf (x : Exchanged) : SrsAccessLogInfo := ⟨x.req.getDestDomain, x.resp.status⟩

open Classical in
/-- The line that a turn should write. -/
noncomputable def wholeOf (cfg : ProxyConfig) (p : Path) (c : SrsHttpxProxyConn) : List SrsAccessLogInfo :=
  match exchange cfg p c with
  | (.ok x, s) => if RelayedWhole p x s then [infoOf x] else []
  | (.error _, _) => []

/-- The responses that are relayed completely in the loop over the requests, in their order, with the
domains of their requests. -/
noncomputable def relayedWhole (cfg : ProxyConfig) (p : Path) : Nat → SrsHttpxProxyConn → List SrsAccessLogInfo
  | 0, _ => []
  | fuel + 1, c =>
      wholeOf cfg p c ++
        match transaction cfg p c with
        | (.ok (), s) => relayedWhole cfg p fuel s
        | (.error _, _) => []

/-- A string starts with one header at most. -/
theorem Answer.unique {method : HttpMethod} {U H X H' X' : Bytes} {f f' : Rfc.Framing}
    (h : Answer method U H X f) (h' : Answer method U H' X' f') : X = X' ∧ f = f' := by
  obtain ⟨hbytes, hheader, r, hp, hr, hhp, hf⟩ := h
  obtain ⟨hbytes', hheader', r', hp', hr', hhp', hf'⟩ := h'
  -- a header is complete at its last byte, and not before
  have hle : ∀ {H H' X X' : Bytes} {r : Head.Reading}, H ++ X = H' ++ X' → IsHeader .response H →
      IsHeader .response H' → readHead .response H = .ok r → H'.length ≤ H.length := by
    intro H H' X X' r heq hH hH' hr
    by_contra hlt
    have htake : H'.take H.length = H := by
      have := congrArg (List.take H.length) heq
      rw [List.take_left, List.take_append_of_le_length (by omega)] at this
      exact this.symm
    exact hH.ends r hr (hH'.before H.length (by omega) r (by rw [htake]; exact hr))
  have heq : H ++ X = H' ++ X' := by rw [← hbytes, ← hbytes']
  have hlen : H.length = H'.length :=
    Nat.le_antisymm (hle heq.symm hheader' hheader hr') (hle heq hheader hheader' hr)
  obtain ⟨rfl, rfl⟩ := List.append_inj heq hlen
  obtain rfl := Except.ok.inj (hr.symm.trans hr')
  obtain rfl := Option.some.inj (hhp.symm.trans hhp')
  exact ⟨rfl, hf.trans hf'.symm⟩

/-! ## The log is written at one place -/

/-- What is in the log. -/
def LogIs (L : List SrsAccessLogInfo) (c : SrsHttpxProxyConn) : Prop := c.accessLog = L

section Frame

variable (c) (l : Link) (src : Source) (ws : List Bytes)

@[simp] theorem setClient_accessLog : (c.setClient p l).accessLog = c.accessLog := by cases p <;> rfl

@[simp] theorem setServer_accessLog : (c.setServer p l).accessLog = c.accessLog := by cases p <;> rfl

@[simp] theorem setClientSource_accessLog : (c.setClientSource p src).accessLog = c.accessLog := by
  cases p <;> rfl

@[simp] theorem setServerSource_accessLog : (c.setServerSource p src).accessLog = c.accessLog := by
  cases p <;> rfl

@[simp] theorem toClient_accessLog : (c.toClient p ws).accessLog = c.accessLog := by cases p <;> rfl

@[simp] theorem toServer_accessLog : (c.toServer p ws).accessLog = c.accessLog := by cases p <;> rfl

@[simp] theorem setParser_accessLog (o : SrsHttpParser) : (c.setParser o).accessLog = c.accessLog := rfl

@[simp] theorem setServerParser_accessLog (o : SrsHttpParser) :
    (c.setServerParser o).accessLog = c.accessLog := rfl

@[simp] theorem setReqBody_accessLog (b : Bytes) : (c.setReqBody b).accessLog = c.accessLog := rfl

@[simp] theorem setPolls_accessLog (ps : List (Option (Bool × Bool))) :
    (c.setPolls ps).accessLog = c.accessLog := rfl

@[simp] theorem log_accessLog (e : Event) : (c.log e).accessLog = c.accessLog := rfl

end Frame

theorem parseRequest_log (event : SrsHttpMessage → Event) :
    Proc.Keeps (LogIs L) (parseRequest cfg p event) := by
  apply Proc.keeps_of_apply
  intro s hs
  unfold parseRequest
  simp only
  split <;> simpa [LogIs] using hs

theorem parseResponse_log : Proc.Keeps (LogIs L) (parseResponse cfg p) := by
  apply Proc.keeps_of_apply
  intro s hs
  unfold parseResponse
  simp only
  split <;> simpa [LogIs] using hs

theorem connect_log (svr : SrsTcpClient) : Proc.Keeps (LogIs L) (connect svr) := by
  apply Proc.keeps_of_apply
  intro s hs
  unfold connect
  split <;> exact hs

theorem openFor_log (req : SrsHttpMessage) : Proc.Keeps (LogIs L) (openFor cfg p req) := by
  cases p with
  | https => exact Proc.Keeps.pure
  | http =>
    apply Proc.keeps_of_apply
    intro s hs
    show LogIs L (openUpstream cfg req s).2
    rw [openUpstream_apply]
    exact (connect_log _).apply hs

theorem exchange_log : Proc.Keeps (LogIs L) (exchange cfg p) := by
  apply (parseRequest_log .request).bind
  intro req
  apply Proc.Keeps.ite
  · apply Proc.Keeps.bind
    · exact (Proc.Keeps.modify fun s hs => by simpa [LogIs] using hs).bind fun _ => Proc.Keeps.exit
    · exact fun _ => Proc.Keeps.exit
  · apply (openFor_log req).bind
    intro _
    apply Proc.Keeps.bind
    · exact Proc.Keeps.modify fun s hs => by simpa [LogIs] using hs
    · intro _
      apply Proc.Keeps.bind (Proc.keeps_of_apply fun _ hs => hs)
      exact fun _ => parseResponse_log.bind fun _ => Proc.Keeps.pure

theorem relay_log (resp : SrsHttpMessage) : Proc.Keeps (LogIs L) (relay p resp) := by
  apply Proc.keeps_of_apply
  intro s hs
  simpa [relay, LogIs] using hs

theorem pass_log (m : SrsHttpMessage) (b : Bool) (s : SrsHttpxProxyConn) :
    (pass m b s).2.accessLog = s.accessLog := by
  unfold pass
  cases b
  all_goals simp only [if_true, Bool.false_eq_true, if_false]; split <;> simp

theorem passIf_log (b : Bool) (m : SrsHttpMessage) (b' : Bool) (s : SrsHttpxProxyConn) :
    (passIf b m b' s).2.accessLog = s.accessLog := by
  unfold passIf
  split
  · exact pass_log m b' s
  · rfl

theorem tunnelLoop_log (m : SrsHttpMessage) (polls : List (Option (Bool × Bool)))
    (s : SrsHttpxProxyConn) : (tunnelLoop m polls s).accessLog = s.accessLog := by
  induction polls generalizing s with
  | nil => rfl
  | cons poll polls ih =>
    cases poll with
    | none => rfl
    | some r =>
      have h₁ := passIf_log r.1 m true s
      have h₂ := passIf_log r.2 m false (passIf r.1 m true s).2
      simp only [tunnelLoop]
      split_ifs
      · rw [ih, h₂, h₁]
      · rw [setPolls_accessLog, h₂, h₁]
      · rw [setPolls_accessLog, h₁]

theorem upgrade_log (req resp : SrsHttpMessage) : Proc.Keeps (LogIs L) (upgrade req resp) :=
  Proc.Keeps.ite (Proc.Keeps.modify fun s hs => (tunnelLoop_log req s.polls s).trans hs) Proc.Keeps.pure

/-! ## The line of a turn -/

/-- Are the connections kept after the exchange? -/
def Exchanged.Kept (x : Exchanged) : Prop := x.req.keepAlive = true ∧ x.resp.keepAlive = true

instance (x : Exchanged) : Decidable x.Kept := inferInstanceAs (Decidable (_ ∧ _))

/-- The line that a turn writes. -/
def logOf (cfg : ProxyConfig) (p : Path) (c : SrsHttpxProxyConn) : List SrsAccessLogInfo :=
  match exchange cfg p c with
  | (.ok x, s) => if (relay p x.resp s).1.isOk = true ∧ x.Kept then [infoOf x] else []
  | (.error _, _) => []

/-- A response that is passed on is logged where the relay ends and the connection is kept. -/
theorem finishTurn_logs (x : Exchanged) (s : SrsHttpxProxyConn) :
    (finishTurn p x s).2.accessLog = s.accessLog ++
      if (relay p x.resp s).1.isOk = true ∧ x.Kept then [infoOf x] else [] := by
  have hrelay : LogIs s.accessLog (relay p x.resp s).2 := (relay_log x.resp).apply rfl
  rw [finishTurn]
  rcases hres : relay p x.resp s with ⟨e | u, s'⟩
  · rw [hres] at hrelay
    rw [Proc.bind_error hres, if_neg (by simp [Except.isOk, Except.toBool]), List.append_nil]
    exact hrelay
  · rw [hres] at hrelay
    rw [Proc.bind_ok hres, endTurn]
    by_cases hkeep : x.Kept
    · have hupgrade := (upgrade_log x.req x.resp).apply hrelay
      rw [if_neg (by simp [hkeep.1, hkeep.2]), if_pos ⟨rfl, hkeep⟩]
      have hok : upgrade x.req x.resp s' = (.ok (), (upgrade x.req x.resp s').2) := by
        unfold upgrade
        split <;> rfl
      rw [Proc.bind_ok hok]
      exact congrArg (· ++ [infoOf x]) hupgrade
    · rw [if_pos (by simpa [Exchanged.Kept, ← Bool.not_eq_true, or_iff_not_imp_left] using hkeep),
        if_neg fun h => hkeep h.2, List.append_nil]
      exact hrelay

theorem transaction_logs (cfg : ProxyConfig) (p : Path) (c : SrsHttpxProxyConn) :
    (transaction cfg p c).2.accessLog = c.accessLog ++ logOf cfg p c := by
  have hexchange : LogIs c.accessLog (exchange cfg p c).2 := exchange_log.apply rfl
  rw [transaction_eq, logOf]
  cases h : exchange cfg p c with
  | mk res s =>
    rw [h] at hexchange
    cases res with
    | error e =>
      rw [Proc.bind_error h]
      exact hexchange.trans (List.append_nil _).symm
    | ok x =>
      rw [Proc.bind_ok h, finishTurn_logs]
      exact congrArg (· ++ _) hexchange

/-! ## When the end of the relay tells -/

/-- The bytes `X` behind the header of a response with the message `m`, whose connections are kept if
`kept`: the message takes the body for what the RFC takes it for, the reader comes to the end of no
chunked body that is none, and the connections are kept if the body can arrive. -/
def EndTells (m : SrsHttpMessage) (X : Bytes) (kept : Prop) : Rfc.Framing → Prop
  | .none => hasBody m = false ∧ kept
  | .chunked => m.chunked = true ∧
      ((∃ (body : Rfc.Body) (T : Bytes), X = body.wire ++ T ∧
          (body.Understood SRS_DEFAULT_RECV_BUFFER_SIZE → kept)) ∨
        (∀ V, Boundary SRS_DEFAULT_RECV_BUFFER_SIZE X V → Strict SRS_DEFAULT_RECV_BUFFER_SIZE V) ∧
          ((∃ wire b T, X = wire ++ T ∧ ChunkedBody wire b) → kept))
  | .length n => m.chunked = false ∧ m.contentLength = n ∧ n < 2 ^ 31 ∧ (n ≤ X.length → kept)
  | .close => hasBody m = false ∧ (X = [] ↔ kept)

/-- A chunked body without extensions and trailer is one of the RFC. -/
theorem chunked_of_chunkedBody {wire b : Bytes} (h : ChunkedBody wire b) : Rfc.Chunked wire b := by
  induction h with
  | last hline =>
    simpa [Rfc.trailerWire] using
      Rfc.Chunked.last ⟨hline.ne_nil, Rfc.zeros_of_digitsValue hline.digits hline.value⟩ .nil
        (by simp : ∀ f ∈ [], Rfc.TrailerField f)
  | chunk hline hne _ ih => simpa using Rfc.Chunked.chunk hline .nil hne ih

section Response

variable {m : SrsHttpMessage} {X : Bytes} {kept : Prop} {f : Rfc.Framing}

/-- The state behind the header of a response: the server has `X` left, and all writes to the client
succeed. -/
structure Poised (p : Path) (X : Bytes) (c : SrsHttpxProxyConn) : Prop where
  unread : (c.serverSource p).unread = X
  healthy : (c.serverSource p).skt.Healthy
  buffer : (c.serverSource p).buffer.nbBuffer = SRS_DEFAULT_RECV_BUFFER_SIZE
  reliable : (c.client p).out.Reliable

/-- A message without a body ends at once, and the client has its header. -/
theorem Poised.bodiless (h : Poised p X c) (hb : hasBody m = false) :
    (relay p m c).1 = .ok () ∧
      ((relay p m c).2.client p).out.sent = (c.client p).out.sent ++ m.rawHeader := by
  obtain ⟨out, -, hsent, hok, hclient, -⟩ := relay_eq m h.reliable
  have hnothing : relayResponse p m (c.serverSource p) out = ⟨none, none, [], (m.body, c.serverSource p), out⟩ := by
    unfold relayResponse
    rw [if_neg (by simp [hb])]
  rw [hnothing] at hok hclient
  exact ⟨hok.2 rfl, by rw [hclient, hsent]⟩

theorem Poised.received_of_bodiless (h : Poised p X c) (hb : hasBody m = false) :
    Received p m X f c ↔ ∃ b T, Rfc.Assigned f X b T ∧ f.Carries [] b := by
  obtain ⟨-, hsent⟩ := h.bodiless hb
  unfold Received
  rw [hsent]
  constructor
  · rintro ⟨b, T, wire, hassigned, hcarries, hwire⟩
    obtain rfl : wire = [] := List.self_eq_append_right.1 hwire
    exact ⟨b, T, hassigned, hcarries⟩
  · rintro ⟨b, T, hassigned, hcarries⟩
    exact ⟨b, T, [], hassigned, hcarries, (List.append_nil _).symm⟩

/-- The relay of a body ends with the body, and then the client has it. -/
theorem Poised.ends_iff (h : Poised p X c) (hm : Fresh m) (hb : hasBody m = true) :
    ((relay p m c).1 = .ok () ↔ ∃ data T, DrainsTo m (c.serverSource p) data T) ∧
      ∀ data T, DrainsTo m (c.serverSource p) data T → ∃ wire, m.framing.Carries wire data ∧
        ((relay p m c).2.client p).out.sent = (c.client p).out.sent ++ m.rawHeader ++ wire := by
  obtain ⟨out, hout, hsent, hok, hclient, -⟩ := relay_eq m h.reliable
  have hbody := fresh_of_hasBody hm hb
  constructor
  · rw [hok, relayResponse_ends_iff hb hbody h.healthy hout]
    exact ⟨fun ⟨fuel, hstop⟩ => ⟨_, _, fuel, hstop, rfl, rfl⟩, fun ⟨_, _, fuel, hstop, _⟩ => ⟨fuel, hstop⟩⟩
  · rintro data T ⟨fuel, hstop, rfl, -⟩
    obtain ⟨-, -, -, wire, hw, -, h1⟩ := relayResponse_wire (p := p) hb hbody hout hstop
    exact ⟨wire, hw, by rw [hclient, ← hsent, h1]⟩

/-- Of a chunked body that has not come to its end the client has no complete body. -/
theorem Poised.ends_of_chunkedBody (h : Poised p X c) (hm : m.chunked = true) {wire b : Bytes}
    (hwire : ChunkedBody wire b)
    (hsent : ((relay p m c).2.client p).out.sent = (c.client p).out.sent ++ m.rawHeader ++ wire) :
    (relay p m c).1 = .ok () := by
  obtain ⟨out, hout, hheader, hok, hclient, -⟩ := relay_eq m h.reliable
  have hplain : (c.serverSource p).skt.Fails Plain := fun e he => by
    obtain ⟨bs, hbs⟩ := h.healthy _ he
    cases hbs
  have hb : hasBody m = true := by rw [hasBody, hm]; rfl
  have hloop : relayResponse p m (c.serverSource p) out = relayLoop (bodyRead m) m.framing (p = .http)
      ((c.serverSource p).unread.length + 3) ((c.serverSource p).unread.length + 3)
      (m.body, c.serverSource p) out := by
    unfold relayResponse relayBody
    rw [if_pos hb]
  rw [hloop] at hok hclient
  obtain ⟨hwrites, hstop⟩ := @relayLoop_sends _ (bodyRead m) m.framing (decide (p = .http)) _ _
    (bodyRead_readsIn m) ((c.serverSource p).unread.length + 3) ((c.serverSource p).unread.length + 3)
    (m.body, c.serverSource p) hplain out hout
  rw [hclient, hwrites, hheader] at hsent
  obtain rfl := List.append_cancel_left hsent
  by_contra hne
  obtain ⟨parts, hparts, hprefix⟩ := relayLoop_incomplete hm (bodyRead_readsIn m) hplain
    (hstop fun hexit => hne (hok.2 hexit))
  exact not_chunkedBody_prefix hparts hprefix hwire

/-- A body of a length. -/
theorem Poised.received_of_length (h : Poised p X c) (hm : Fresh m) (hc : m.chunked = false) {n : Nat}
    (hn : m.contentLength = n) (hlt : n < 2 ^ 31) :
    (Received p m X (.length n) c ↔ n ≤ X.length) ∧ ((relay p m c).1 = .ok () ↔ n ≤ X.length) := by
  by_cases hzero : n = 0
  · have hb : hasBody m = false := by rw [hasBody, hc, hn, hzero]; rfl
    rw [h.received_of_bodiless hb]
    refine ⟨iff_of_true ⟨_, _, .length (by omega), ?_⟩ (by omega), iff_of_true (h.bodiless hb).1 (by omega)⟩
    rw [hzero]
    rfl
  · have hb : hasBody m = true := by rw [hasBody, hn, decide_eq_true (by omega), Bool.or_true]
    obtain ⟨hends, hsent⟩ := h.ends_iff hm hb
    have hdrains : (∃ data T, DrainsTo m (c.serverSource p) data T) ↔ n ≤ X.length := by
      constructor
      · rintro ⟨data, T, fuel, hstop, -⟩
        rw [show m.framing = lengthFraming n by rw [SrsHttpMessage.framing, hc, hn]; rfl] at hstop
        have := drain_fixed_ends (by omega) h.healthy rfl (by simp [fresh]) hstop
        rw [h.unread] at this
        simpa [fresh] using this
      · intro hle
        exact ⟨_, _, drainsTo_length hc hn hlt h.healthy (by rw [h.unread]; exact hle)⟩
    refine ⟨⟨?_, fun hle => ?_⟩, hends.trans hdrains⟩
    · rintro ⟨b, T, wire, hassigned, -⟩
      cases hassigned with
      | length hle => exact hle
    · have hd := drainsTo_length hc hn hlt h.healthy (by rw [h.unread]; exact hle)
      obtain ⟨wire, hwire, hclient⟩ := hsent _ _ hd
      rw [h.unread] at hwire
      exact ⟨_, _, wire, .length hle, (carries_length hc).1 hwire, hclient⟩

/-- A chunked body. -/
theorem Poised.received_of_chunked (h : Poised p X c) (hm : Fresh m) (hc : m.chunked = true)
    (htells : EndTells m X kept .chunked) :
    (Received p m X .chunked c ↔ (relay p m c).1 = .ok ()) ∧ ((relay p m c).1 = .ok () → kept) := by
  have hb : hasBody m = true := by rw [hasBody, hc]; rfl
  obtain ⟨hends, hsent⟩ := h.ends_iff hm hb
  have hdrains : ∀ data T, DrainsTo m (c.serverSource p) data T ↔ Decodes SRS_DEFAULT_RECV_BUFFER_SIZE X data T := by
    intro data T
    rw [drainsTo_chunked_iff hc h.healthy h.buffer, h.unread]
  -- what is read to its end is a body of the RFC, and the connection is kept
  have hbody : ∀ data T, Decodes SRS_DEFAULT_RECV_BUFFER_SIZE X data T →
      (∃ T', Rfc.Assigned .chunked X data T') ∧ kept := by
    intro data T hd
    rcases htells.2 with ⟨body, T', rfl, hkept⟩ | ⟨hstrict, hkept⟩
    · obtain ⟨hunderstood, rfl⟩ := body.understood_of_decodes hd
      exact ⟨⟨T', .chunked body.chunked⟩, hkept hunderstood⟩
    · obtain ⟨wire, hwire, rfl⟩ := hd.chunkedBody hstrict
      exact ⟨⟨T, .chunked (chunked_of_chunkedBody hwire)⟩, hkept ⟨wire, data, T, rfl, hwire⟩⟩
  refine ⟨⟨?_, fun hok => ?_⟩, fun hok => ?_⟩
  · rintro ⟨b, T, wire, -, hcarries, hclient⟩
    exact h.ends_of_chunkedBody hc hcarries hclient
  · obtain ⟨data, T, hd⟩ := hends.1 hok
    obtain ⟨wire, hwire, hclient⟩ := hsent _ _ hd
    obtain ⟨⟨T', hassigned⟩, -⟩ := hbody data T ((hdrains _ _).1 hd)
    exact ⟨data, T', wire, hassigned, (carries_chunked hc).1 hwire, hclient⟩
  · obtain ⟨data, T, hd⟩ := hends.1 hok
    exact (hbody data T ((hdrains _ _).1 hd)).2

/-- **One response.**  Where the end of the relay tells, the client has received the response exactly if
the relay has ended and the connections are kept. -/
theorem Poised.received_iff (h : Poised p X c) (hm : Fresh m) (htells : EndTells m X kept f) :
    Received p m X f c ↔ (relay p m c).1 = .ok () ∧ kept := by
  cases f with
  | none =>
    obtain ⟨hb, hkept⟩ := htells
    rw [h.received_of_bodiless hb]
    exact iff_of_true ⟨[], X, .none, rfl⟩ ⟨(h.bodiless hb).1, hkept⟩
  | chunked =>
    obtain ⟨hiff, hkept⟩ := h.received_of_chunked hm htells.1 htells
    rw [hiff]
    exact ⟨fun hok => ⟨hok, hkept hok⟩, And.left⟩
  | length n =>
    obtain ⟨hc, hn, hlt, hkept⟩ := htells
    obtain ⟨hreceived, hends⟩ := h.received_of_length hm hc hn hlt
    rw [hreceived, hends]
    exact ⟨fun hle => ⟨hle, hkept hle⟩, And.left⟩
  | close =>
    obtain ⟨hb, hkept⟩ := htells
    rw [h.received_of_bodiless hb, ← hkept]
    constructor
    · rintro ⟨b, T, hassigned, hcarries⟩
      cases hassigned
      exact ⟨(h.bodiless hb).1, hcarries.symm⟩
    · rintro ⟨-, rfl⟩
      exact ⟨[], [], .close, rfl⟩

end Response

/-! ## The lines of a run -/

/-- The condition on an exchange: the response has been taken off what the server sends, with nothing
but its header; server and client work, and the end of the relay tells. -/
def Accountable (p : Path) (x : Exchanged) (s : SrsHttpxProxyConn) : Prop :=
  ∃ H X f, Answer x.req.method x.sends H X f ∧ Poised p X s ∧ EndTells x.resp X x.Kept f

/-- The same of a turn that starts in the state `c`, if it gets a response. -/
def Accounted (cfg : ProxyConfig) (p : Path) (c : SrsHttpxProxyConn) : Prop :=
  ∀ x s, exchange cfg p c = (.ok x, s) → Accountable p x s

theorem Accountable.relayedWhole_iff {x : Exchanged} (h : Accountable p x s) (hm : Fresh x.resp) :
    RelayedWhole p x s ↔ (relay p x.resp s).1 = .ok () ∧ x.Kept := by
  obtain ⟨H, X, f, hanswer, hpoised, htells⟩ := h
  rw [← hpoised.received_iff hm htells]
  constructor
  · rintro ⟨H', X', f', hanswer', hreceived⟩
    obtain ⟨rfl, rfl⟩ := hanswer.unique hanswer'
    exact hreceived
  · exact fun hreceived => ⟨H, X, f, hanswer, hreceived⟩

/-- A turn with the condition writes the line that it should write. -/
theorem logOf_eq (h : Accounted cfg p c) : logOf cfg p c = wholeOf cfg p c := by
  have hfresh := @exchange_fresh cfg p c trivial
  rw [logOf, wholeOf]
  cases hx : exchange cfg p c with
  | mk res s =>
    cases res with
    | error e => rfl
    | ok x =>
      rw [hx] at hfresh
      have hisOk : (relay p x.resp s).1.isOk = true ↔ (relay p x.resp s).1 = .ok () := by
        rcases (relay p x.resp s).1 with e | u
        · simp [Except.isOk, Except.toBool]
        · simp [Except.isOk, Except.toBool]
      simp only [(h x s hx).relayedWhole_iff hfresh, hisOk]

/-- **The access log.**  In every run of the loop over the requests, on plain HTTP and on HTTPS, whose
turns all start in states with the condition, the lines that are written are those of the responses
that are relayed completely. -/
theorem accessLog_of_turns (hturns : ∀ s, Proc.Turns (transaction cfg p) c s → Accounted cfg p s)
    (fuel : Nat) : (Proc.forever .running (transaction cfg p) fuel c).2.accessLog =
      c.accessLog ++ relayedWhole cfg p fuel c := by
  induction fuel generalizing c with
  | zero => exact (List.append_nil _).symm
  | succ fuel ih =>
    have hturn := transaction_logs cfg p c
    rw [logOf_eq (hturns c .refl)] at hturn
    rw [Proc.forever, relayedWhole]
    cases h : transaction cfg p c with
    | mk res s =>
      rw [h] at hturn
      cases res with
      | error e =>
        rw [Proc.bind_error h, List.append_nil]
        exact hturn
      | ok u =>
        rw [Proc.bind_ok h, ih fun s' hs' => hturns s' (.head h hs'), ← List.append_assoc]
        exact congrArg (· ++ _) hturn

/-- A header that is accepted is the front of an answer. -/
theorem answer_of_accepts {method : HttpMethod} {H X : Bytes} {f : Rfc.Framing}
    (hacc : acceptsHeader .response H = true)
    (hf : (readHead .response H).toOption.bind (fun r => r.head.hp.map fun hp =>
      Rfc.framing method hp.statusCode r.head.fields) = some f) : Answer method (H ++ X) H X f := by
  obtain ⟨hH, r, hr⟩ := isHeader_of_accepts hacc
  obtain ⟨hp, hhp⟩ := Option.ne_none_iff_exists'.1 (hH.ends r hr)
  rw [hr] at hf
  have hf : r.head.hp.map (fun hp => Rfc.framing method hp.statusCode r.head.fields) = some f := hf
  rw [hhp] at hf
  exact ⟨rfl, hH, r, hp, hr, hhp, (Option.some.inj hf).symm⟩

/-- What an exchange has found, and where it has left server and client. -/
structure Found where
  sends : Bytes
  method : HttpMethod
  chunked : Bool
  contentLength : Int
  kept : Bool
  skt : Socket
  unread : Bytes
  nbBuffer : Nat
  future : List WriteEvent
  deriving DecidableEq

def foundOf (p : Path) (x : Exchanged) (s : SrsHttpxProxyConn) : Found :=
  ⟨x.sends, x.req.method, x.resp.chunked, x.resp.contentLength, decide x.Kept, (s.serverSource p).skt,
    (s.serverSource p).unread, (s.serverSource p).buffer.nbBuffer, (s.client p).out.future⟩

/-- The same of a turn, `none` when there is no response. -/
def found (cfg : ProxyConfig) (p : Path) (c : SrsHttpxProxyConn) : Option Found :=
  (exchange cfg p c).1.toOption.map fun x => foundOf p x (exchange cfg p c).2

theorem foundOf_eq {x : Exchanged} {d : Option Found} (hd : found cfg p c = d)
    (hx : exchange cfg p c = (.ok x, s)) : some (foundOf p x s) = d := by
  rw [← hd, found, hx]
  rfl

theorem poised_of_foundOf {x : Exchanged} {d : Found} (h : foundOf p x s = d) (hs : d.skt.Healthy)
    (hb : d.nbBuffer = SRS_DEFAULT_RECV_BUFFER_SIZE) (hf : d.future = []) : Poised p d.unread s := by
  subst h
  exact ⟨rfl, hs, hb, by simp [Sink.Reliable, show (s.client p).out.future = [] from hf]⟩

/-- A response of three bytes. -/
def lengthResponse : Bytes := str "HTTP/1.1 200 OK\r\nContent-Length: 3\r\n\r\n"

/-- A client that asks twice; the answers are three bytes, and a chunk of three bytes. -/
def keptClient : SrsHttpxProxyConn :=
  plainConn [getRequest (str "a"), getRequest (str "a")]
    [[lengthResponse, str "abc"], [chunkedResponse, (Rfc.abcBody [] .nil).wire]]

/-- The state behind some of the turns. -/
def keptTurns (n : Nat) : SrsHttpxProxyConn := Proc.after (transaction (blockConfig [] true) .http) n keptClient

/-- What the turns find. -/
theorem keptTurns_eq :
    found (blockConfig [] true) .http (keptTurns 0) = some ⟨lengthResponse ++ str "abc", .get, false, 3, true,
      [.data (str "abc")], str "abc", SRS_DEFAULT_RECV_BUFFER_SIZE, []⟩ ∧
    found (blockConfig [] true) .http (keptTurns 1) = some ⟨chunkedResponse ++ (Rfc.abcBody [] .nil).wire, .get,
      true, -1, true, [.data (Rfc.abcBody [] .nil).wire], (Rfc.abcBody [] .nil).wire,
      SRS_DEFAULT_RECV_BUFFER_SIZE, []⟩ ∧
    found (blockConfig [] true) .http (keptTurns 2) = none ∧
    (transaction (blockConfig [] true) .http (keptTurns 2)).1.isOk = false := by
  decide +kernel

/-- Two responses with a body, on a connection that is kept until the client leaves. -/
theorem accessLog_of_turns_two :
    (Proc.forever .running (transaction (blockConfig [] true) .http) 3 keptClient).2.accessLog =
        [⟨str "a", 200⟩, ⟨str "a", 200⟩] ∧
      (Proc.forever .running (transaction (blockConfig [] true) .http) 3 keptClient).2.accessLog =
        [] ++ relayedWhole (blockConfig [] true) .http 3 keptClient := by
  refine ⟨by decide +kernel, accessLog_of_turns (fun s h => ?_) 3⟩
  obtain ⟨hfirst, hsecond, hend, hlast⟩ := keptTurns_eq
  obtain ⟨k, hk, rfl⟩ := h.eq_after (n := 2) hlast
  intro x s hx
  interval_cases k
  · have hd := Option.some.inj (foundOf_eq hfirst hx)
    refine ⟨lengthResponse, str "abc", .length 3, ?_, poised_of_foundOf hd (by simp) rfl rfl, ?_⟩
    · rw [show x.req.method = .get from congrArg Found.method hd,
        show x.sends = lengthResponse ++ str "abc" from congrArg Found.sends hd]
      exact answer_of_accepts (by decide) (by decide)
    · exact ⟨congrArg Found.chunked hd, congrArg Found.contentLength hd, by decide,
        fun _ => of_decide_eq_true (congrArg Found.kept hd)⟩
  · have hd := Option.some.inj (foundOf_eq hsecond hx)
    refine ⟨chunkedResponse, (Rfc.abcBody [] .nil).wire, .chunked, ?_, poised_of_foundOf hd (by simp) rfl rfl, ?_⟩
    · rw [show x.req.method = .get from congrArg Found.method hd,
        show x.sends = chunkedResponse ++ (Rfc.abcBody [] .nil).wire from congrArg Found.sends hd]
      exact answer_of_accepts (by decide) (by decide)
    · exact ⟨congrArg Found.chunked hd, .inl ⟨Rfc.abcBody [] .nil, [], (List.append_nil _).symm,
        fun _ => of_decide_eq_true (congrArg Found.kept hd)⟩⟩
  · exact absurd (foundOf_eq hend hx) (by simp)

/-- A response without a body, behind which the server closes. -/
def closingResponse : Bytes := str "HTTP/1.1 200 OK\r\nContent-Length: 0\r\nConnection: close\r\n\r\n"

/-- A client that asks once. -/
def askedOnce (response : Bytes) : SrsHttpxProxyConn := plainConn [getRequest (str "a")] [[response]]

theorem wholeOf_eq {x : Exchanged} (hx : exchange cfg p c = (.ok x, s)) (h : RelayedWhole p x s) :
    wholeOf cfg p c = [infoOf x] := by
  rw [wholeOf, hx]
  exact if_pos h

/-- The loop is left with the turn. -/
theorem relayedWhole_of_last (h : (transaction cfg p c).1.isOk = false) (fuel : Nat) :
    relayedWhole cfg p (fuel + 1) c = wholeOf cfg p c := by
  rw [relayedWhole]
  rcases ht : transaction cfg p c with ⟨e | u, s⟩
  · exact List.append_nil _
  · rw [ht] at h
    cases h

/-- A response that gets through to a client that takes every byte, and is not logged. -/
theorem accessLog_closing :
    (processHttpConnection (blockConfig [] true) 2 (askedOnce closingResponse)).2.accessLog = [] ∧
      relayedWhole (blockConfig [] true) .http 2 (askedOnce closingResponse) = [⟨str "a", 200⟩] := by
  refine ⟨by decide, ?_⟩
  obtain ⟨hfound, hinfo, hlast⟩ :
      found (blockConfig [] true) .http (askedOnce closingResponse) = some ⟨closingResponse, .get, false, 0, false,
        [], [], SRS_DEFAULT_RECV_BUFFER_SIZE, []⟩ ∧
      (exchange (blockConfig [] true) .http (askedOnce closingResponse)).1.toOption.map infoOf =
        some ⟨str "a", 200⟩ ∧
      (transaction (blockConfig [] true) .http (askedOnce closingResponse)).1.isOk = false := by decide
  rw [relayedWhole_of_last hlast]
  rcases hx : exchange (blockConfig [] true) .http (askedOnce closingResponse) with ⟨e | x, s⟩
  · rw [hx] at hinfo
    cases hinfo
  · have hd := Option.some.inj (foundOf_eq hfound hx)
    rw [hx] at hinfo
    have hbody : hasBody x.resp = false := by
      rw [hasBody, show x.resp.chunked = false from congrArg Found.chunked hd,
        show x.resp.contentLength = 0 from congrArg Found.contentLength hd]
      rfl
    have hanswer : Answer x.req.method x.sends closingResponse [] (.length 0) := by
      rw [show x.req.method = .get from congrArg Found.method hd,
        show x.sends = closingResponse ++ [] from congrArg Found.sends hd]
      exact answer_of_accepts (by decide) (by decide)
    rw [wholeOf_eq hx ⟨_, _, _, hanswer, ((poised_of_foundOf hd (by simp) rfl rfl).received_of_bodiless hbody).2
      ⟨[], [], .length (Nat.zero_le _), rfl⟩⟩]
    exact congrArg (fun l => [l]) (Option.some.inj hinfo)

end SrsHttpxProxyConn

end HttpProxy
