import HttpProxy.App.Delivery
import HttpProxy.Message.Sent

/-!
# One turn against a server that answers

What a turn of the loop over the requests relays when the server has its reply ready: on plain
HTTP on the connection that is opened for the request, on HTTPS behind the replies to the earlier
requests on the one connection there is.

* `Sent`, `Reply`, `Servers` — what the servers send.
* `Servers.At` — the servers have answered `k` requests, and nothing of that is left.
* `Servers.Ready` — the reply to the next request can be relayed.
* `turn_spec` — one turn takes the servers from one reply to the next.
-/

namespace HttpProxy

open SrsHttpResponseReader SrsHttpParser

/-! ## What servers send -/

/-- The response that is parsed from the header. -/
def Sent.message (pa : Option Bytes) (a : Sent) : Option SrsHttpMessage := headMessage pa (new .response) a.header

/-- A 1xx response, apart from 101. -/
def Interim (m : SrsHttpMessage) : Prop := 100 ≤ m.status ∧ m.status < 200 ∧ m.status ≠ 101

instance (m : SrsHttpMessage) : Decidable (Interim m) := by
  unfold Interim
  infer_instance

/-- What is sent for one request: interim responses, and the final one. -/
structure Reply where
  interim : List Sent
  final : Sent

def Reply.bytes (r : Reply) : Bytes := r.interim.flatMap Sent.bytes ++ r.final.bytes

/-- A connection to a server for one request: the server sends its reply, and behind it bytes that
no one has asked for. -/
structure Served where
  reply : Reply
  surplus : Bytes
  skt : Socket
  out : Sink
  healthy : skt.Healthy
  bytes : skt.pending = reply.bytes ++ surplus

/-- The servers of a client connection: on plain HTTP one for each request, on HTTPS one that
sends its replies on one stream. -/
inductive Servers
  | perRequest (us : List Served)
  | oneStream (rs : List Reply)

/-! ## Answers that can be relayed -/

/-- The http-parser accepts the header, the message is a final response, and the body fits. -/
structure Sent.Relayable (pa : Option Bytes) (a : Sent) : Prop where
  isHeader : IsHeader .response a.header
  message : ∃ m, a.message pa = some m ∧ ¬ Interim m ∧ BodyFits m a.wire a.payload

/-- The relay of a response with the payload of the answer. -/
def Sent.Shown (pa : Option Bytes) (a : Sent) : Event → Prop
  | .relay m ws _ => a.message pa = some m ∧
      ∃ wire, ws.flatten = m.rawHeader ++ wire ∧ m.framing.Carries wire a.payload
  | _ => False

/-- The relay of a response. -/
def isRelay : Event → Bool
  | .relay _ _ _ => true
  | _ => false

/-- The relay of a final response. -/
def isFinal : Event → Bool
  | .relay m _ _ => !decide (Interim m)
  | _ => false

/-- The responses that are relayed. -/
def relays (t : List Event) : List Event := t.filter isRelay

@[simp] theorem relays_append (t t' : List Event) : relays (t ++ t') = relays t ++ relays t' :=
  List.filter_append t t'

namespace Servers

def path : Servers → Path
  | perRequest _ => .http
  | oneStream _ => .https

def replies : Servers → List Reply
  | perRequest us => us.map Served.reply
  | oneStream rs => rs

/-- The connects behind the first `k` ones: one for each server, and all others fail. -/
def Later : Servers → Nat → SrsHttpxProxyConn → Prop
  | perRequest us, k, s => ∃ failed, (∀ r ∈ failed, ∃ e, r = .error e) ∧
      s.net = (us.drop k).map (fun u => .ok ⟨u.skt, u.out⟩) ++ failed
  | oneStream _, _, _ => True

/-- What is still to be read, behind `k` replies, from what has been connected. -/
def rest : Servers → Nat → Bytes
  | perRequest _, _ => []
  | oneStream rs, k => (rs.drop k).flatMap Reply.bytes

/-- The source of the server parser holds the replies behind the first `k` ones. -/
def Holds : Servers → Nat → SrsHttpxProxyConn → Prop
  | perRequest _, _, s => s.serverBuffer.unread = []
  | oneStream rs, k, s =>
      (s.serverSource .https).unread = (rs.drop k).flatMap Reply.bytes ∧ s.svrSsl.skt.Healthy

/-- `k` requests have been answered, and no byte of the answers is left. -/
structure At (S : Servers) (k : Nat) (s : SrsHttpxProxyConn) : Prop where
  holds : S.Holds k s
  later : S.Later k s
  nbBuffer : s.serverBuffer.nbBuffer = SRS_DEFAULT_RECV_BUFFER_SIZE

/-- The reply of the next server is a final response alone; the proxy takes its header and can
relay its body.  On plain HTTP no segment holds the end of the reply and bytes behind it. -/
def Ready (pa : Option Bytes) : Servers → Nat → SrsHttpxProxyConn → Prop
  | perRequest us, k, s => ∀ u, us[k]? = some u → u.reply.interim = [] ∧ u.reply.final.Relayable pa ∧
      ∃ own t, u.skt = own ++ t ∧ own.pending = u.reply.bytes ∧
        TakesHeader .response ⟨s.serverBuffer, own⟩ u.reply.final.header
  | oneStream rs, k, s => ∀ r, rs[k]? = some r → r.interim = [] ∧ r.final.Relayable pa ∧
      TakesHeader .response (s.serverSource .https) r.final.header

end Servers

/-! ## A source with an answer -/

/-- The source holds an answer that can be relayed, and `T` behind it. -/
structure Offers (pa : Option Bytes) (a : Sent) (T : Bytes) (src : Source) : Prop where
  relayable : a.Relayable pa
  takes : TakesHeader .response src a.header
  unread : src.unread = a.bytes ++ T
  healthy : src.skt.Healthy
  nbBuffer : src.buffer.nbBuffer = SRS_DEFAULT_RECV_BUFFER_SIZE

namespace SrsHttpxProxyConn

variable {m : SrsHttpMessage} {src : Source} {a : Sent} {pa : Option Bytes} {T : Bytes} {p q : Path}
  {c s : SrsHttpxProxyConn} {out : Sink}

theorem healthy_fails {s : Socket} (h : s.Healthy) (P : SrsError → Prop) : s.Fails P := by
  intro e he
  obtain ⟨bs, hbs⟩ := h _ he
  cases hbs

/-- The answer is parsed; what comes in later segments does not matter. -/
theorem parse_answer (h : Offers pa a T src) (t : Socket) :
    ∃ m src', a.message pa = some m ∧ ¬ Interim m ∧ BodyFits m a.wire a.payload ∧
      parseMessage pa (new .response) (src.append t) =
        { parseMessage pa (new .response) src with src := src'.append t } ∧
      (parseMessage pa (new .response) src).err = none ∧
      (parseMessage pa (new .response) src).msg = some m ∧
      src'.unread = a.wire ++ T ∧ Leaves src src' := by
  obtain ⟨m, hm, hfinal, hfits⟩ := h.relayable.message
  obtain ⟨herr, hmsg, hun⟩ := parseMessage_header (o := new .response) h.takes hm
  refine ⟨m, (parseMessage pa (new .response) src).src, hm, hfinal, hfits, parseMessage_append herr t, herr,
    hmsg, ?_, parseMessage_took pa _ src⟩
  rw [h.unread, Sent.bytes, List.append_assoc, List.append_cancel_left_eq] at hun
  exact hun.symm

/-- A body that fits is drained, and what lies behind it stays. -/
theorem drainsTo_of_fits {wire payload : Bytes} (hfits : BodyFits m wire payload) (hb : hasBody m = true)
    (hu : src.unread = wire ++ T) (hs : src.skt.Healthy)
    (hbuf : src.buffer.nbBuffer = SRS_DEFAULT_RECV_BUFFER_SIZE) : DrainsTo m src payload T := by
  unfold BodyFits at hfits
  by_cases hc : m.chunked = true
  · rw [if_pos hc] at hfits
    obtain ⟨body, rfl, rfl, hplain⟩ := hfits
    rw [drainsTo_chunked_iff hc hs hbuf, hu]
    exact body.decodes_iff.2 hplain
  · rw [if_neg hc] at hfits
    obtain ⟨rfl, -, hlen, hlt⟩ := hfits
    have hpos : 0 < m.contentLength := by simpa [hasBody, hc] using hb
    have h := drainsTo_length (n := payload.length) (by simpa using hc) (by omega) hlt hs
      (by rw [hu, List.length_append]; omega)
    rwa [hu, List.take_left, List.drop_left] at h

/-- The body is relayed; what comes in later segments does not matter. -/
theorem relay_body {wire payload : Bytes} (hm : Fresh m) (hfits : BodyFits m wire payload)
    (hu : src.unread = wire ++ T) (hs : src.skt.Healthy)
    (hbuf : src.buffer.nbBuffer = SRS_DEFAULT_RECV_BUFFER_SIZE) (hout : out.Reliable) (t : Socket) :
    (relayResponse p m (src.append t) out).exit = none ∧
      (relayResponse p m (src.append t) out).out.Reliable ∧
      (∃ src', (relayResponse p m (src.append t) out).reader.2 = src'.append t ∧ src'.unread = T ∧
        Leaves src src') ∧
      m.framing.Carries (relayResponse p m (src.append t) out).writes.flatten payload := by
  cases hb : hasBody m with
  | false =>
    have hnothing : relayResponse p m (src.append t) out = ⟨none, none, [], (m.body, src.append t), out⟩ := by
      unfold relayResponse
      rw [if_neg (by simp [hb])]
    have hc : m.chunked = false ∧ ¬ 0 < m.contentLength := by simpa [hasBody] using hb
    unfold BodyFits at hfits
    rw [if_neg (by simp [hc.1])] at hfits
    obtain ⟨rfl, -, hlen, -⟩ := hfits
    have hnil : payload = [] := List.eq_nil_of_length_eq_zero (by omega)
    rw [hnothing]
    refine ⟨rfl, hout, ⟨src, rfl, by rw [hu, hnil, List.nil_append], .refl src⟩, ?_⟩
    rw [hnil, carries_length hc.1]
    rfl
  | true =>
    obtain ⟨fuel, hstop, hdata, hrest⟩ := drainsTo_of_fits hfits hb hu hs hbuf
    have happ := drain_append (framed_of_hasBody hb) (healthy_fails hs _) hstop t
    have hbody : m.body = .fresh := fresh_of_hasBody hm hb
    obtain ⟨hexit, hreader, hrel, wire', hwire, hflat, -⟩ :=
      @relayResponse_wire m fuel (src.append t) out p hb hbody hout (by rw [happ]; exact hstop)
    rw [happ] at hreader hwire
    refine ⟨hexit, hrel, ⟨_, hreader, hrest, drain_leaves⟩, ?_⟩
    rw [hflat, ← hdata]
    exact hwire

/-! ## The steps of a turn -/

variable {cfg : ProxyConfig} {S : Servers} {k : Nat} {a : Sent}

/-- No response is relayed between two states. -/
def Quiet (c s : SrsHttpxProxyConn) : Prop := ∃ es, s.trace = c.trace ++ es ∧ relays es = []

theorem Quiet.refl (c : SrsHttpxProxyConn) : Quiet c c := ⟨[], by simp, rfl⟩

theorem Quiet.of_trace (h : s.trace = c.trace) : Quiet c s := ⟨[], by simp [h], rfl⟩

theorem Quiet.of_event {e : Event} (h : s.trace = c.trace ++ [e]) (he : isRelay e = false) : Quiet c s :=
  ⟨[e], h, by simp [relays, he]⟩

theorem Quiet.trans {s₁ s₂ s₃ : SrsHttpxProxyConn} (h : Quiet s₁ s₂) (h' : Quiet s₂ s₃) : Quiet s₁ s₃ := by
  obtain ⟨es, hes, hquiet⟩ := h
  obtain ⟨es', hes', hquiet'⟩ := h'
  exact ⟨es ++ es', by rw [hes', hes, List.append_assoc],
    by rw [relays_append, hquiet, hquiet', List.nil_append]⟩

/-- A step that has nothing to do with the servers. -/
structure Aside (p : Path) (c s : SrsHttpxProxyConn) : Prop where
  buffer : s.serverBuffer = c.serverBuffer
  net : s.net = c.net
  ssl : s.svrSsl.skt = c.svrSsl.skt
  out : (c.client p).out.Reliable → (s.client p).out.Reliable
  quiet : Quiet c s

theorem Aside.refl (p : Path) (c : SrsHttpxProxyConn) : Aside p c c := ⟨rfl, rfl, rfl, id, .refl c⟩

theorem Aside.trans {s₁ s₂ s₃ : SrsHttpxProxyConn} (h : Aside p s₁ s₂) (h' : Aside p s₂ s₃) :
    Aside p s₁ s₃ :=
  ⟨h'.buffer.trans h.buffer, h'.net.trans h.net, h'.ssl.trans h.ssl, fun ho => h'.out (h.out ho),
    h.quiet.trans h'.quiet⟩

/-- What has been answered stays so. -/
theorem at_of_aside (h : S.At k c) (h' : Aside p c s) : S.At k s := by
  obtain ⟨hholds, hlater, hbuf⟩ := h
  refine ⟨?_, ?_, by rw [h'.buffer]; exact hbuf⟩
  · cases S with
    | perRequest us =>
      rw [Servers.Holds, h'.buffer]
      exact hholds
    | oneStream rs =>
      have hsrc : s.serverSource .https = c.serverSource .https := by
        show Source.mk s.serverBuffer s.svrSsl.skt = _
        rw [h'.buffer, h'.ssl]
        rfl
      rw [Servers.Holds, hsrc, h'.ssl]
      exact hholds
  · cases S with
    | perRequest us =>
      rw [Servers.Later, h'.net]
      exact hlater
    | oneStream rs => trivial

theorem log_aside {e : Event} (he : isRelay e = false) (s : SrsHttpxProxyConn) : Aside p s (s.log e) := by
  refine ⟨rfl, rfl, rfl, ?_, .of_event rfl he⟩
  cases p <;> exact id

theorem setClientSource_aside (src : Source) (s : SrsHttpxProxyConn) :
    Aside p s (s.setClientSource p src) := by
  refine ⟨?_, ?_, ?_, ?_, .of_trace (by simp)⟩ <;> cases p <;> first | rfl | exact id

theorem toClient_aside (ws : List Bytes) (s : SrsHttpxProxyConn) : Aside p s (s.toClient q ws) := by
  have hout : ∀ l : Link, l.out.Reliable → (writeEach false ws l.out).2.2.Reliable := by
    intro l hl
    obtain ⟨out', hw, -, hrel⟩ := @writeEach_of_reliable false l.out hl ws
    rw [hw]
    exact hrel
  refine ⟨?_, ?_, ?_, ?_, .of_trace (by simp)⟩
  · cases q <;> rfl
  · cases q <;> rfl
  · cases q <;> rfl
  · cases p <;> cases q <;> first | exact id | exact hout _

theorem toServer_aside (ws : List Bytes) (s : SrsHttpxProxyConn) : Aside p s (s.toServer q ws) := by
  refine ⟨?_, ?_, ?_, ?_, .of_trace (by simp)⟩ <;> cases p <;> cases q <;> first | rfl | exact id

theorem parseRequest_aside (event : SrsHttpMessage → Event) (hevent : ∀ m, isRelay (event m) = false)
    (s : SrsHttpxProxyConn) : Aside p s (parseRequest cfg p event s).2 := by
  have hread : ∀ (src : Source) (o : SrsHttpParser), Aside p s ((s.setClientSource p src).setParser o) :=
    fun src o => (setClientSource_aside src s).trans (by
      refine ⟨rfl, rfl, rfl, ?_, .of_trace rfl⟩
      cases p <;> exact id)
  unfold parseRequest
  simp only
  split
  · exact (hread _ _).trans (log_aside (hevent _) _)
  · exact hread _ _

theorem forward_aside (m : SrsHttpMessage) (s : SrsHttpxProxyConn) : Aside p s (forward p m s).2 := by
  have htrace : (forward p m s).2.trace =
      s.trace ++ [forwardEvent s.upstream s.reqBody m (s.clientSource p)] := by
    simp [forward, forwardEvent]
  refine ⟨?_, ?_, ?_, ?_, .of_event htrace rfl⟩ <;> cases p <;> first | rfl | exact id

theorem forward_server (m : SrsHttpMessage) (s : SrsHttpxProxyConn) :
    (forward p m s).2.serverSource p = s.serverSource p ∧ (forward p m s).2.dest? = s.dest? := by
  constructor
  · cases p with
    | http =>
      cases hskt : s.svrSkt <;>
        simp [forward, serverSource, server, setClientSource, setClient, toServer, setServer,
          setReqBody, log, hskt]
    | https => rfl
  · simp [forward]

theorem pass_aside (m : SrsHttpMessage) (b : Bool) (s : SrsHttpxProxyConn) : Aside p s (pass m b s).2 := by
  have hskt : ∀ (q : Path) (skt : Socket), Aside p s (s.setClient q { s.client q with skt := skt }) := by
    intro q skt
    refine ⟨?_, ?_, ?_, ?_, .of_trace (by simp)⟩ <;> cases p <;> cases q <;> first | rfl | exact id
  have hserver : ∀ skt : Socket, Aside p s (s.setServer .http { s.server .http with skt := skt }) := by
    intro skt
    refine ⟨rfl, rfl, rfl, ?_, .of_trace (by simp)⟩
    cases p <;> exact id
  unfold pass
  cases b with
  | true =>
    simp only [if_true]
    split
    · exact ((hskt .http _).trans (toServer_aside _ _)).trans (log_aside rfl _)
    · exact hskt .http _
  | false =>
    simp only [Bool.false_eq_true, if_false]
    split
    · exact ((hserver _).trans (toClient_aside _ _)).trans (log_aside rfl _)
    · exact hserver _

theorem passIf_aside (readable : Bool) (m : SrsHttpMessage) (b : Bool) (s : SrsHttpxProxyConn) :
    Aside p s (passIf readable m b s).2 := by
  rw [passIf]
  split_ifs
  · exact pass_aside m b s
  · exact .refl p s

theorem tunnelLoop_aside (m : SrsHttpMessage) (polls : List (Option (Bool × Bool))) (s : SrsHttpxProxyConn) :
    Aside p s (tunnelLoop m polls s) := by
  have hpolls : ∀ (s : SrsHttpxProxyConn) ps, Aside p s (s.setPolls ps) := by
    intro s ps
    refine ⟨rfl, rfl, rfl, ?_, .of_trace rfl⟩
    cases p <;> exact id
  induction polls generalizing s with
  | nil => exact hpolls s []
  | cons poll polls ih =>
    cases poll with
    | none => exact hpolls s polls
    | some r =>
      simp only [tunnelLoop]
      have h₁ := passIf_aside (p := p) r.1 m true s
      have h₂ := passIf_aside (p := p) r.2 m false (passIf r.1 m true s).2
      split_ifs
      · exact (h₁.trans h₂).trans (ih _)
      · exact (h₁.trans h₂).trans (hpolls _ _)
      · exact h₁.trans (hpolls _ _)

/-! ## One turn -/

/-- A connection to the next server is there, with its reply, if it has one. -/
structure Facing (pa : Option Bytes) (S : Servers) (k : Nat) (c s : SrsHttpxProxyConn) : Prop where
  offers : ∀ r, S.replies[k]? = some r → ∃ src t, s.serverSource S.path = src.append t ∧
    Offers pa r.final (S.rest (k + 1)) src ∧ (S.path = .https → t = [])
  closed : S.replies[k]? = none → (s.serverSource S.path).unread = [] ∧
    (s.serverSource S.path).skt.Healthy ∧
    (s.serverSource S.path).buffer.nbBuffer = SRS_DEFAULT_RECV_BUFFER_SIZE
  connected : S.path = .http → s.dest? ≠ none
  later : S.Later (k + 1) s
  out : (s.client S.path).out.Reliable
  quiet : Quiet c s

theorem Reply.bytes_of_interim {r : Reply} (h : r.interim = []) : r.bytes = r.final.bytes := by
  rw [Reply.bytes, h]
  rfl

/-- On plain HTTP the next server is connected, or no connect succeeds any more. -/
theorem connect_facing {us : List Served} (hat : (Servers.perRequest us).At k c)
    (hready : (Servers.perRequest us).Ready pa k c) (haside : Aside .http c s)
    (hout : (c.client .http).out.Reliable) (svr : SrsTcpClient) :
    Proc.Spec (· = s) (connect svr) (fun _ => Facing pa (.perRequest us) k c) (fun _ => Quiet c) := by
  obtain ⟨failed, hfailed, hnet⟩ := hat.later
  rw [← haside.net] at hnet
  rintro s rfl
  unfold connect
  cases hdrop : us.drop k with
  | nil =>
    rw [hdrop, List.map_nil, List.nil_append] at hnet
    rw [hnet]
    cases failed with
    | nil => exact haside.quiet.trans (.of_trace rfl)
    | cons r failed =>
      obtain ⟨e, rfl⟩ := hfailed r (by simp)
      exact haside.quiet.trans (.of_trace rfl)
  | cons u rest =>
    have hk : us[k]? = some u := by
      rw [← List.head?_drop, hdrop]
      rfl
    have hrest : us.drop (k + 1) = rest := by rw [← List.tail_drop, hdrop]; rfl
    rw [hdrop, List.map_cons, List.cons_append] at hnet
    rw [hnet]
    simp only
    obtain ⟨hinterim, hrelayable, own, t, hskt, hown, htakes⟩ := hready u hk
    rw [Reply.bytes_of_interim hinterim] at hown
    refine ⟨?_, ?_, fun _ => by rw [log_dest?]; simp [dest?],
      ⟨failed, hfailed, by rw [hrest]; rfl⟩, haside.out hout,
      haside.quiet.trans (.of_event rfl rfl)⟩
    · intro r hr
      obtain rfl : u.reply = r := by simpa [Servers.replies, hk] using hr
      refine ⟨⟨c.serverBuffer, own⟩, t, ?_, ⟨hrelayable, htakes, ?_, ?_, hat.nbBuffer⟩,
        by simp [Servers.path]⟩
      · show Source.mk s.serverBuffer u.skt = _
        rw [haside.buffer, hskt]
        rfl
      · rw [Source.unread, show c.serverBuffer.unread = [] from hat.holds, hown]
        simp [Servers.rest]
      · intro e he
        exact u.healthy e (by rw [hskt]; exact List.mem_append_left t he)
    · intro hr
      simp [Servers.replies, hk] at hr

/-- On HTTPS the replies that are left are on the stream. -/
theorem stream_facing {rs : List Reply} (hat : (Servers.oneStream rs).At k c)
    (hready : (Servers.oneStream rs).Ready pa k c) (haside : Aside .https c s)
    (hout : (c.client .https).out.Reliable) : Facing pa (.oneStream rs) k c s := by
  have hsrc : s.serverSource .https = c.serverSource .https := by
    show Source.mk s.serverBuffer s.svrSsl.skt = _
    rw [haside.buffer, haside.ssl]
    rfl
  obtain ⟨hun, hhealthy⟩ := hat.holds
  refine ⟨?_, ?_, by simp [Servers.path], trivial, haside.out hout, haside.quiet⟩
  · intro r hr
    replace hr : rs[k]? = some r := hr
    obtain ⟨hinterim, hrelayable, htakes⟩ := hready r hr
    refine ⟨c.serverSource .https, [], ?_, ⟨hrelayable, htakes, ?_, hhealthy, hat.nbBuffer⟩, fun _ => rfl⟩
    · show s.serverSource .https = _
      rw [hsrc, Source.append, List.append_nil]
    · obtain ⟨hlt, rfl⟩ := List.getElem?_eq_some_iff.1 hr
      rw [hun, List.drop_eq_getElem_cons hlt, List.flatMap_cons, Reply.bytes_of_interim hinterim]
      rfl
  · intro hr
    replace hr : rs[k]? = none := hr
    show (s.serverSource .https).unread = [] ∧ (s.serverSource .https).skt.Healthy ∧
      (s.serverSource .https).buffer.nbBuffer = _
    rw [hsrc, hun, List.drop_eq_nil_of_le (List.getElem?_eq_none_iff.1 hr)]
    exact ⟨rfl, hhealthy, hat.nbBuffer⟩

/-- `openFor` leads to the next server, or the turn ends. -/
theorem openFor_facing (hat : S.At k c) (hready : S.Ready pa k c) (haside : Aside S.path c s)
    (hout : (c.client S.path).out.Reliable) (m : SrsHttpMessage) :
    Proc.Spec (· = s) (openFor cfg S.path m) (fun _ => Facing pa S k c) (fun _ => Quiet c) := by
  cases S with
  | perRequest us =>
    exact Proc.Spec.of_eq (openUpstream_apply cfg m s) (connect_facing hat hready haside hout _)
  | oneStream rs => exact Proc.Spec.pure fun _ h => h ▸ stream_facing hat hready haside hout

/-- The request is sent. -/
theorem Facing.forward (h : Facing pa S k c s) (m : SrsHttpMessage) :
    Facing pa S k c (forward S.path m s).2 := by
  have haside := forward_aside (p := S.path) m s
  obtain ⟨hsrc, hdest⟩ := forward_server (p := S.path) m s
  refine ⟨?_, ?_, by rw [hdest]; exact h.connected, ?_, haside.out h.out, h.quiet.trans haside.quiet⟩
  · rw [hsrc]
    exact h.offers
  · rw [hsrc]
    exact h.closed
  · have hlater := h.later
    cases S with
    | perRequest us =>
      rw [Servers.Later, ← haside.net] at hlater
      exact hlater
    | oneStream rs => trivial

/-- The response has been parsed, and its body is next. -/
structure Answering (pa : Option Bytes) (S : Servers) (k : Nat) (c : SrsHttpxProxyConn) (m : SrsHttpMessage)
    (s : SrsHttpxProxyConn) : Prop where
  answer : ∃ r, S.replies[k]? = some r ∧ r.final.message pa = some m ∧ ¬ Interim m ∧
    BodyFits m r.final.wire r.final.payload ∧ ∃ (src : Source) (t : Socket),
      s.serverSource S.path = src.append t ∧ src.unread = r.final.wire ++ S.rest (k + 1) ∧
      src.skt.Healthy ∧ src.buffer.nbBuffer = SRS_DEFAULT_RECV_BUFFER_SIZE ∧ (S.path = .https → t = [])
  connected : S.path = .http → s.dest? ≠ none
  later : S.Later (k + 1) s
  out : (s.client S.path).out.Reliable
  quiet : Quiet c s

theorem parseResponse_answering (h : Facing cfg.publicAddress S k c s) :
    Proc.Spec (· = s) (parseResponse cfg S.path) (Answering cfg.publicAddress S k c) (fun _ => Quiet c) := by
  rintro s rfl
  unfold parseResponse
  cases hr : S.replies[k]? with
  | none =>
    obtain ⟨hu, hs, hb⟩ := h.closed hr
    simp only [parseMessage_drained hs hu hb]
    exact h.quiet.trans ((Quiet.of_trace (by simp)).trans (.of_event rfl rfl))
  | some r =>
    obtain ⟨src, t, hsrc, hoffers, ht⟩ := h.offers r hr
    obtain ⟨m, src', hm, hfinal, hfits, hparse, herr, hmsg, hun, hleaves⟩ := parse_answer hoffers t
    obtain ⟨bs, htook⟩ := hleaves
    rw [hsrc, hparse]
    simp only [herr, hmsg]
    have hsource := s.setServerSource_serverSource S.path (src'.append t) h.connected
    refine ⟨⟨r, hr, hm, hfinal, hfits, src', t, ?_, hun, htook.healthy hoffers.healthy,
      htook.nbBuffer.trans hoffers.nbBuffer, ht⟩, ?_, ?_, ?_,
      h.quiet.trans ((Quiet.of_trace (by simp)).trans (.of_event rfl rfl))⟩
    · cases hp : S.path with
      | http => rw [hp] at hsource; exact hsource
      | https => rw [hp] at hsource; exact hsource
    · simpa using h.connected
    · cases S with
      | perRequest us => exact h.later
      | oneStream rs => trivial
    · have hout := h.out
      cases hp : S.path with
      | http => rw [hp] at hout; exact hout
      | https => rw [hp] at hout; exact hout

/-- One response is relayed between two states, the final one of the next reply. -/
def Shows (pa : Option Bytes) (S : Servers) (k : Nat) (c s : SrsHttpxProxyConn) : Prop :=
  ∃ es e r, s.trace = c.trace ++ es ∧ relays es = [e] ∧ isFinal e = true ∧ S.replies[k]? = some r ∧
    r.final.Shown pa e

/-- The response to the request has been relayed. -/
structure Replied (pa : Option Bytes) (S : Servers) (k : Nat) (c s : SrsHttpxProxyConn) : Prop where
  next : S.At (k + 1) s
  out : (s.client S.path).out.Reliable
  shown : Shows pa S k c s

theorem Replied.aside {s' : SrsHttpxProxyConn} (h : Replied pa S k c s) (h' : Aside S.path s s') :
    Replied pa S k c s' := by
  obtain ⟨es, e, r, hes, hfin, hr⟩ := h.shown
  obtain ⟨es', hes', hquiet⟩ := h'.quiet
  exact ⟨at_of_aside h.next h', h'.out h.out, es ++ es', e, r, by rw [hes', hes, List.append_assoc],
    by rw [relays_append, hfin, hquiet, List.append_nil], hr⟩

theorem relay_replied (h : Answering pa S k c m s) :
    Proc.Spec (· = s) (relay S.path m) (fun _ => Replied pa S k c) (fun _ _ => False) := by
  rintro s rfl
  obtain ⟨r, hr, hm, hfinal, hfits, src, t, hsrc, hu, hs, hb, ht⟩ := h.answer
  obtain ⟨out, hout, -, hok, hclient, hserver, htrace⟩ := relay_eq m h.out
  have hserver := hserver h.connected
  rw [hsrc] at hok hclient hserver htrace
  obtain ⟨hexit, hrel, ⟨src', hreader, hrest, bs, htook⟩, hcarries⟩ :=
    @relay_body m src (S.rest (k + 1)) S.path out _ _ (headMessage_fresh hm) hfits hu hs hb hout t
  rw [hreader] at hserver
  have hnext : relay S.path m s = (.ok (), (relay S.path m s).2) := Prod.ext (hok.2 hexit) rfl
  have hnet : (relay S.path m s).2.net = s.net := by
    unfold relay
    cases S.path <;> rfl
  have hbuffer : (relay S.path m s).2.serverBuffer = src'.buffer := congrArg Source.buffer hserver
  rw [hnext]
  refine ⟨⟨?_, ?_, ?_⟩, by rw [hclient]; exact hrel, ?_⟩
  · cases S with
    | perRequest us =>
      rw [Servers.Holds, hbuffer]
      exact (List.append_eq_nil_iff.1 hrest).1
    | oneStream rs =>
      rw [ht rfl, Source.append, List.append_nil] at hserver
      have hskt : (relay (Servers.oneStream rs).path m s).2.svrSsl.skt = src'.skt :=
        congrArg Source.skt hserver
      exact ⟨(congrArg Source.unread hserver).trans hrest, by rw [hskt]; exact htook.healthy hs⟩
  · have hlater := h.later
    cases S with
    | perRequest us =>
      rw [Servers.Later, ← hnet] at hlater
      exact hlater
    | oneStream rs => trivial
  · rw [hbuffer, htook.nbBuffer, hb]
  · obtain ⟨es, hes, hquiet⟩ := h.quiet
    have hrelay : ∀ (ws : List Bytes) (stop : Option SrsError), relays (es ++ [.relay m ws stop]) =
        [.relay m ws stop] := by
      intro ws stop
      rw [relays_append, hquiet]
      rfl
    exact ⟨_, _, r, by rw [htrace, hes, List.append_assoc], hrelay _ _, by simp [isFinal, hfinal], hr, hm, _,
      List.flatten_cons, hcarries⟩

theorem endTurn_replied {req resp : SrsHttpMessage} :
    Proc.Keeps (Replied pa S k c) (endTurn req resp) := by
  refine Proc.Keeps.ite .exit (Proc.Keeps.bind ?_ fun _ => .modify fun s h => ?_)
  · refine Proc.Keeps.ite (.modify fun s h => ?_) .pure
    exact h.aside (tunnelLoop_aside _ _ s)
  · refine h.aside ⟨rfl, rfl, rfl, ?_, .of_trace rfl⟩
    cases S.path <;> exact id

/-- **One turn.**  When the servers have answered `k` requests and the reply to the next one can be
relayed, a turn that comes to its end has relayed its final response, and the servers have answered
one request more; a turn that is left has relayed this response or none. -/
theorem turn_spec (hat : S.At k c) (hready : S.Ready cfg.publicAddress k c)
    (hout : (c.client S.path).out.Reliable) :
    Proc.Spec (· = c) (transaction cfg S.path) (fun _ => Replied cfg.publicAddress S k c)
      (fun _ s => Quiet c s ∨ Shows cfg.publicAddress S k c s) := by
  have hparse : Proc.Keeps (Aside S.path c) (parseRequest cfg S.path .request) :=
    Proc.keeps_of_apply fun s h => h.trans (parseRequest_aside _ (fun _ => rfl) s)
  refine Proc.Spec.bind (hparse.conseq (fun s h => h ▸ .refl S.path c) (fun _ _ h => h)
    fun _ s h => .inl h.quiet) fun m => ?_
  refine Proc.Spec.ite (fun _ => ?_) (fun _ => ?_)
  · refine Proc.Spec.bind (Q := fun _ => Aside S.path c) (.modify fun s h => ?_)
      fun _ => .exit fun s h => .inl h.quiet
    exact h.trans ((toClient_aside _ s).trans (log_aside rfl _))
  · intro s haside
    refine Proc.Spec.bind ((openFor_facing hat hready haside hout m).conseq (fun _ h => h)
      (fun _ _ h => h) fun _ s h => .inl h) (fun _ => ?_) s rfl
    refine Proc.Spec.bind (Q := fun _ => Facing cfg.publicAddress S k c) (.modify fun s h => h.forward m)
      fun _ => ?_
    intro s hface
    refine Proc.Spec.bind ((parseResponse_answering hface).conseq (fun _ h => h) (fun _ _ h => h)
      fun _ s h => .inl h) (fun r => ?_) s rfl
    intro s hans
    refine Proc.Spec.bind ((relay_replied hans).conseq (fun _ h => h) (fun _ _ h => h)
      fun _ s h => h.elim) (fun _ => ?_) s rfl
    exact endTurn_replied.conseq (fun _ h => h) (fun _ _ h => h) fun _ _ h => .inr h.shown

end SrsHttpxProxyConn

end HttpProxy
