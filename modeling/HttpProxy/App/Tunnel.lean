import HttpProxy.App.Destination

/-!
# The tunnel

`pass` and `processHttpsTunnel` (`src/app/srs_app_http_conn.cpp`, lines 1089-1153) connect
the two sockets of a connection, after a `CONNECT` that is not decrypted and after a 101
response.  What has been read into the buffer of a parser together with the header is not
passed on, and the sockets are used as they are, also when TLS runs over them.

* `Flow` — the invariant of the loop: what a peer has received, followed by what waits in the
  socket of the other, stays the same.
* `continuous_iff` — everything arrives exactly when no byte is in a buffer, and on decrypted
  HTTPS exactly when nothing is sent at all.
-/

namespace HttpProxy

namespace SrsHttpxProxyConn

variable {req : SrsHttpMessage} {p : Path} {c s : SrsHttpxProxyConn} {b : Bool}

/-! ## The two directions -/

/-- What has been read into the buffer of a parser: of the client's, for the direction to the
server. -/
def buffered (c : SrsHttpxProxyConn) (toServer : Bool) : Bytes :=
  if toServer then c.buffer.unread else c.serverBuffer.unread

/-- What waits in the socket of the sender. -/
def waiting (c : SrsHttpxProxyConn) (toServer : Bool) : Bytes :=
  if toServer then (c.client .http).skt.pending else (c.server .http).skt.pending

/-- The bytes the sender has sent on its stream and no one has seen yet. -/
def sentBy (c : SrsHttpxProxyConn) (p : Path) (toServer : Bool) : Bytes :=
  if toServer then (c.clientSource p).unread else (c.serverSource p).unread

/-- What the receiver has received on its stream. -/
def receivedBy (c : SrsHttpxProxyConn) (p : Path) (toServer : Bool) : Bytes :=
  if toServer then (c.server p).out.sent else (c.client p).out.sent

theorem sentBy_http (c : SrsHttpxProxyConn) (b : Bool) :
    c.sentBy .http b = c.buffered b ++ c.waiting b := by
  cases b <;> rfl

/-- A tunnel can do its work: there is a server, no write fails, and no read fails before
everything has been read. -/
structure Working (c : SrsHttpxProxyConn) : Prop where
  dest : c.dest? ≠ none
  client : (c.client .http).skt.Healthy
  server : (c.server .http).skt.Healthy
  toClient : (c.client .http).out.Reliable
  toServer : (c.server .http).out.Reliable

/-- The invariant of the tunnel. -/
structure Flow (c s : SrsHttpxProxyConn) : Prop where
  working : Working s
  arrived : ∀ b, ∃ d, s.receivedBy .http b = c.receivedBy .http b ++ d ∧ d ++ s.waiting b = c.waiting b
  client : s.client .https = c.client .https
  server : s.server .https = c.server .https

theorem Flow.refl (h : Working c) : Flow c c :=
  ⟨h, fun b => ⟨[], by simp, by simp⟩, rfl, rfl⟩

theorem Flow.trans {s₁ s₂ s₃ : SrsHttpxProxyConn} (h : Flow s₁ s₂) (h' : Flow s₂ s₃) : Flow s₁ s₃ := by
  refine ⟨h'.working, fun b => ?_, h'.client.trans h.client, h'.server.trans h.server⟩
  obtain ⟨d, hd, hw⟩ := h.arrived b
  obtain ⟨d', hd', hw'⟩ := h'.arrived b
  exact ⟨d ++ d', by rw [hd', hd, List.append_assoc], by rw [List.append_assoc, hw', hw]⟩

theorem server_setServer (h : c.dest? ≠ none) (l : Link) : (c.setServer .http l).server .http = l := by
  cases hskt : c.svrSkt with
  | none => exact absurd (by simp [dest?, hskt]) h
  | some t => simp [setServer, server, hskt]

/-- The bytes `d` have been taken off a socket. -/
def TakenOff (skt : Socket) (d : Bytes) (skt' : Socket) : Prop :=
  skt'.Healthy ∧ d ++ skt'.pending = skt.pending

/-- The bytes `d` have been written. -/
def Written (out : Sink) (d : Bytes) (out' : Sink) : Prop :=
  out'.Reliable ∧ out'.sent = out.sent ++ d

theorem written_writeEach {out : Sink} (h : out.Reliable) (bs : Bytes) :
    Written out bs (writeEach false [bs] out).2.2 := by
  obtain ⟨out', hw, hsent, hrel⟩ := @writeEach_of_reliable false out h [bs]
  rw [hw]
  exact ⟨hrel, by simpa using hsent⟩

/-- What is taken off one socket and written to the other flows. -/
theorem Flow.of_links (hdest : s.dest? = c.dest?) (hc : c.dest? ≠ none) (d₁ d₂ : Bytes)
    (hclient : TakenOff (c.client .http).skt d₁ (s.client .http).skt)
    (hserver : TakenOff (c.server .http).skt d₂ (s.server .http).skt)
    (htoServer : Written (c.server .http).out d₁ (s.server .http).out)
    (htoClient : Written (c.client .http).out d₂ (s.client .http).out)
    (hssl : s.client .https = c.client .https ∧ s.server .https = c.server .https) : Flow c s := by
  refine ⟨⟨by rwa [hdest], hclient.1, hserver.1, htoClient.1, htoServer.1⟩, fun b => ?_, hssl.1, hssl.2⟩
  cases b with
  | true => exact ⟨d₁, htoServer.2, hclient.2⟩
  | false => exact ⟨d₂, htoClient.2, hserver.2⟩

/-! ## One pass -/

theorem takenOff_nil {skt : Socket} (h : skt.Healthy) : TakenOff skt [] skt := ⟨h, rfl⟩

theorem written_nil {out : Sink} (h : out.Reliable) : Written out [] out := ⟨h, by simp⟩

/-- A read of a socket that works takes bytes off it, or there are none. -/
theorem read_cases {skt : Socket} (h : skt.Healthy) :
    (∃ bs, (skt.read IOBUFSIZE).1 = .ok bs ∧ bs ≠ [] ∧ TakenOff skt bs (skt.read IOBUFSIZE).2) ∨
      ∃ e, (skt.read IOBUFSIZE).1 = .error e ∧ skt.pending = [] ∧
        TakenOff skt [] (skt.read IOBUFSIZE).2 := by
  have hhealthy := Socket.healthy_read h IOBUFSIZE
  cases hread : skt.read IOBUFSIZE with
  | mk res skt' =>
    rw [hread] at hhealthy
    cases res with
    | ok bs =>
      obtain ⟨hne, -, hpending⟩ := Socket.read_ok hread
      exact Or.inl ⟨bs, rfl, hne, hhealthy, hpending.symm⟩
    | error e =>
      refine Or.inr ⟨e, rfl, ?_, hhealthy, Socket.read_error hread⟩
      by_contra hne
      obtain ⟨bs, s', hok⟩ := Socket.read_of_healthy h hne (by decide : 0 < IOBUFSIZE)
      rw [hread] at hok
      simp at hok

/-- What a pass in the direction `b` has done: it has moved bytes, or nothing was left. -/
def Passed (b : Bool) (c : SrsHttpxProxyConn) (r : Bool × SrsHttpxProxyConn) : Prop :=
  Flow c r.2 ∧ ((r.1 = true ∧ (r.2.waiting b).length < (c.waiting b).length) ∨
    (r.1 = false ∧ r.2.waiting b = []))

theorem pass_toServer (req : SrsHttpMessage) (hc : Working c) : Passed true c (pass req true c) := by
  rcases read_cases hc.client with ⟨bs, hok, hne, htaken⟩ | ⟨e, herr, hnil, htaken⟩
  · have hpass : pass req true c = (true, ((c.setClient .http { c.client .http with
        skt := ((c.client .http).skt.read IOBUFSIZE).2 }).toServer .http [bs]).log
          (.tunnelled req true bs)) := by
      simp [pass, hok]
    have hserver : (pass req true c).2.server .http = { c.server .http with
        out := (writeEach false [bs] (c.server .http).out).2.2 } := by
      rw [hpass]
      exact server_setServer (by simpa using hc.dest) _
    have hclient : (pass req true c).2.client .http = { c.client .http with
        skt := ((c.client .http).skt.read IOBUFSIZE).2 } := by
      rw [hpass]
      rfl
    refine ⟨Flow.of_links ?_ hc.dest bs [] ?_ ?_ ?_ ?_ ?_, Or.inl ⟨by rw [hpass], ?_⟩⟩
    · rw [hpass]
      simp
    · rw [hclient]
      exact htaken
    · rw [hserver]
      exact takenOff_nil hc.server
    · rw [hserver]
      exact written_writeEach hc.toServer bs
    · rw [hclient]
      exact written_nil hc.toClient
    · rw [hpass]
      exact ⟨rfl, rfl⟩
    · have hlen := congrArg List.length htaken.2
      have hpos := List.length_pos_of_ne_nil hne
      simp only [waiting, if_true, hclient, List.length_append] at hlen ⊢
      omega
  · have hpass : pass req true c = (false, c.setClient .http { c.client .http with
        skt := ((c.client .http).skt.read IOBUFSIZE).2 }) := by
      simp [pass, herr]
    rw [hpass]
    refine ⟨Flow.of_links (by simp) hc.dest [] [] htaken (takenOff_nil hc.server)
      (written_nil hc.toServer) (written_nil hc.toClient) ⟨rfl, rfl⟩, Or.inr ⟨rfl, ?_⟩⟩
    exact htaken.2.trans hnil

theorem pass_toClient (req : SrsHttpMessage) (hc : Working c) : Passed false c (pass req false c) := by
  have hset := server_setServer hc.dest { c.server .http with
    skt := ((c.server .http).skt.read IOBUFSIZE).2 }
  rcases read_cases hc.server with ⟨bs, hok, hne, htaken⟩ | ⟨e, herr, hnil, htaken⟩
  · have hpass : pass req false c = (true, ((c.setServer .http { c.server .http with
        skt := ((c.server .http).skt.read IOBUFSIZE).2 }).toClient .http [bs]).log
          (.tunnelled req false bs)) := by
      simp [pass, hok]
    have hserver : (pass req false c).2.server .http = { c.server .http with
        skt := ((c.server .http).skt.read IOBUFSIZE).2 } := by
      rw [hpass]
      exact hset
    have hclient : (pass req false c).2.client .http = { c.client .http with
        out := (writeEach false [bs] (c.client .http).out).2.2 } := by
      rw [hpass]
      rfl
    refine ⟨Flow.of_links ?_ hc.dest [] bs ?_ ?_ ?_ ?_ ?_, Or.inl ⟨by rw [hpass], ?_⟩⟩
    · rw [hpass]
      simp
    · rw [hclient]
      exact takenOff_nil hc.client
    · rw [hserver]
      exact htaken
    · rw [hserver]
      exact written_nil hc.toServer
    · rw [hclient]
      exact written_writeEach hc.toClient bs
    · rw [hpass]
      exact ⟨rfl, rfl⟩
    · have hlen := congrArg List.length htaken.2
      have hpos := List.length_pos_of_ne_nil hne
      simp only [waiting, Bool.false_eq_true, if_false, hserver, List.length_append] at hlen ⊢
      omega
  · have hpass : pass req false c = (false, c.setServer .http { c.server .http with
        skt := ((c.server .http).skt.read IOBUFSIZE).2 }) := by
      simp [pass, herr]
    rw [hpass]
    refine ⟨Flow.of_links (by simp) hc.dest [] [] (takenOff_nil hc.client) ?_ ?_
      (written_nil hc.toClient) ⟨rfl, rfl⟩, Or.inr ⟨rfl, ?_⟩⟩
    · rw [hset]
      exact htaken
    · rw [hset]
      exact written_nil hc.toServer
    · simp only [waiting, Bool.false_eq_true, if_false, hset]
      exact htaken.2.trans hnil

theorem pass_passed (req : SrsHttpMessage) (b : Bool) (hc : Working c) : Passed b c (pass req b c) := by
  cases b with
  | true => exact pass_toServer req hc
  | false => exact pass_toClient req hc

theorem passIf_flow (readable : Bool) (req : SrsHttpMessage) (b : Bool) (hc : Working c) :
    Flow c (passIf readable req b c).2 := by
  unfold passIf
  split_ifs
  · exact (pass_passed req b hc).1
  · exact Flow.refl hc

/-! ## The loop -/

theorem setPolls_flow (hc : Working c) (polls : List (Option (Bool × Bool))) :
    Flow c (c.setPolls polls) := by
  refine ⟨⟨hc.dest, hc.client, hc.server, hc.toClient, hc.toServer⟩, fun b => ⟨[], ?_, ?_⟩, rfl, rfl⟩
  · cases b <;> simp [receivedBy, setPolls, server, client]
  · cases b <;> simp [waiting, setPolls, server, client]

/-- The invariant holds whatever the polls report. -/
theorem tunnelLoop_flow (req : SrsHttpMessage) (polls : List (Option (Bool × Bool))) (hc : Working c) :
    Flow c (tunnelLoop req polls c) := by
  induction polls generalizing c with
  | nil => exact setPolls_flow hc []
  | cons poll polls ih =>
    cases poll with
    | none => exact setPolls_flow hc polls
    | some r =>
      have h₁ := passIf_flow r.1 req true hc
      have h₂ := passIf_flow r.2 req false h₁.working
      simp only [tunnelLoop]
      split_ifs
      · exact (h₁.trans h₂).trans (ih h₂.working)
      · exact (h₁.trans h₂).trans (setPolls_flow h₂.working polls)
      · exact h₁.trans (setPolls_flow h₁.working polls)

/-- The polls that report the sender of one direction only. -/
def onlyFrom (b : Bool) : Nat → List (Option (Bool × Bool)) :=
  fun n => List.replicate n (some (b, !b))

/-- One turn for one direction. -/
theorem tunnelLoop_only (req : SrsHttpMessage) (b : Bool) (n : Nat) (c : SrsHttpxProxyConn) :
    tunnelLoop req (onlyFrom b (n + 1)) c =
      if (pass req b c).1 then tunnelLoop req (onlyFrom b n) (pass req b c).2
      else (pass req b c).2.setPolls (onlyFrom b n) := by
  cases b with
  | true =>
    rw [onlyFrom, List.replicate_succ]
    simp [tunnelLoop, passIf, onlyFrom]
  | false =>
    rw [onlyFrom, List.replicate_succ]
    simp [tunnelLoop, passIf, onlyFrom]

/-- Enough polls for one direction empty the socket of its sender. -/
theorem tunnelLoop_drains (req : SrsHttpMessage) (b : Bool) {n : Nat} (hc : Working c)
    (hn : (c.waiting b).length ≤ n) : (tunnelLoop req (onlyFrom b n) c).waiting b = [] := by
  have hpolls : ∀ (s : SrsHttpxProxyConn) ps, (s.setPolls ps).waiting b = s.waiting b := by
    intro s ps
    cases b <;> rfl
  induction n generalizing c with
  | zero =>
    show (c.setPolls []).waiting b = []
    rw [hpolls]
    exact List.eq_nil_of_length_eq_zero (Nat.le_zero.1 hn)
  | succ n ih =>
    obtain ⟨hflow, hends⟩ := pass_passed req b hc
    rw [tunnelLoop_only]
    rcases hends with ⟨hok, hlt⟩ | ⟨hfail, hnil⟩
    · rw [if_pos hok]
      exact ih hflow.working (by omega)
    · rw [if_neg (by simp [hfail]), hpolls]
      exact hnil

/-! ## Continuity -/

/-- Whatever the polls report: in either direction the receiver gets a front of what the
sender has sent on its stream behind the header, and all of it when the tunnel has emptied
the socket of the sender. -/
def Continuous (req : SrsHttpMessage) (p : Path) (c : SrsHttpxProxyConn) : Prop :=
  ∀ polls b, ∃ d,
    (processHttpsTunnel req (c.setPolls polls)).2.receivedBy p b = c.receivedBy p b ++ d ∧
      d <+: c.sentBy p b ∧
      ((processHttpsTunnel req (c.setPolls polls)).2.waiting b = [] → d = c.sentBy p b)

theorem tunnel_flow (req : SrsHttpMessage) (polls : List (Option (Bool × Bool))) (hc : Working c) :
    Flow c (processHttpsTunnel req (c.setPolls polls)).2 :=
  (setPolls_flow hc polls).trans (tunnelLoop_flow req polls (setPolls_flow hc polls).working)

theorem Flow.receivedBy_https (h : Flow c s) (b : Bool) :
    s.receivedBy .https b = c.receivedBy .https b := by
  cases b with
  | true => simp only [receivedBy, if_true, h.server]
  | false => simp only [receivedBy, Bool.false_eq_true, if_false, h.client]

/-- A tunnel in which only one sender is polled takes everything off its socket. -/
theorem tunnel_drains (req : SrsHttpMessage) (b : Bool) (hc : Working c) :
    (processHttpsTunnel req (c.setPolls (onlyFrom b (c.waiting b).length))).2.waiting b = [] := by
  refine tunnelLoop_drains req b (setPolls_flow hc _).working ?_
  cases b <;> exact Nat.le_refl _

/-- On decrypted HTTPS nothing arrives. -/
theorem Continuous.sentBy_nil (h : Continuous req .https c) (hc : Working c) (b : Bool) :
    c.sentBy .https b = [] := by
  obtain ⟨d, hd, -, hall⟩ := h (onlyFrom b (c.waiting b).length) b
  rw [(tunnel_flow req _ hc).receivedBy_https] at hd
  rw [← hall (tunnel_drains req b hc)]
  exact List.append_right_eq_self.1 hd.symm

/-- When everything arrives, nothing was in a buffer. -/
theorem Continuous.buffered_nil (h : Continuous req p c) (hc : Working c) (b : Bool) :
    c.buffered b = [] := by
  cases p with
  | http =>
    obtain ⟨d, hd, -, hall⟩ := h (onlyFrom b (c.waiting b).length) b
    obtain ⟨d', hd', hw'⟩ := (tunnel_flow req (onlyFrom b (c.waiting b).length) hc).arrived b
    rw [tunnel_drains req b hc, List.append_nil] at hw'
    have heq : d = c.waiting b := by
      rw [← hw']
      exact List.append_cancel_left (hd.symm.trans hd')
    have hsent := hall (tunnel_drains req b hc)
    rw [sentBy_http, heq] at hsent
    exact List.append_left_eq_self.1 hsent.symm
  | https =>
    have hnil := h.sentBy_nil hc b
    cases b with
    | true => exact (List.append_eq_nil_iff.1 hnil).1
    | false => exact (List.append_eq_nil_iff.1 hnil).1

/-- **Upgrade continuity.**  For a connection with working sockets on which a tunnel starts,
everything that the peers send behind the header arrives, in order, if and only if nothing
has been read into the buffer of a parser and, on decrypted HTTPS, nothing is sent. -/
theorem continuous_iff (req : SrsHttpMessage) (p : Path) (hc : Working c) :
    Continuous req p c ↔
      (∀ b, c.buffered b = []) ∧ (p = .https → ∀ b, c.sentBy .https b = []) := by
  constructor
  · intro h
    refine ⟨h.buffered_nil hc, ?_⟩
    rintro rfl b
    exact h.sentBy_nil hc b
  · rintro ⟨hbuffer, hssl⟩ polls b
    have hflow := tunnel_flow req polls hc
    cases p with
    | http =>
      obtain ⟨d, hd, hw⟩ := hflow.arrived b
      have hsent : c.sentBy .http b = c.waiting b := by rw [sentBy_http, hbuffer b, List.nil_append]
      refine ⟨d, hd, ?_, fun hnil => ?_⟩
      · rw [hsent, ← hw]
        exact List.prefix_append _ _
      · rw [hsent, ← hw, hnil, List.append_nil]
    | https =>
      rw [hssl rfl b]
      exact ⟨[], by rw [hflow.receivedBy_https, List.append_nil], List.nil_prefix, fun _ => rfl⟩

/-! ## The tunnel of a `CONNECT` request -/

/-- `process_https_connection` up to the tunnel. -/
def connectPart (cfg : ProxyConfig) : ProxyM SrsHttpMessage := do
  let req ← parseRequest cfg .http .connectRequest
  openTunnel cfg req
  Proc.modify fun c => c.toClient .http [connectionEstablished]
  pure req

/-- Without decryption, a connection is this part and the tunnel. -/
theorem processHttpsConnection_of_tunnel (cfg : ProxyConfig) (fuel : Nat) (c : SrsHttpxProxyConn)
    (h : cfg.policy.isHttpsDescryptEnable = false) :
    processHttpsConnection cfg fuel c =
      (connectPart cfg >>= fun req => processHttpsTunnel req >>= fun _ => Proc.exit (.returned none)) c := by
  unfold processHttpsConnection
  cases h1 : parseRequest cfg .http .connectRequest c with
  | mk res s₁ =>
    cases res with
    | error e =>
      have hpart : connectPart cfg c = (.error e, s₁) := Proc.bind_error h1
      rw [Proc.bind_error h1, Proc.bind_error hpart]
    | ok req =>
      rw [Proc.bind_ok h1]
      cases h2 : openTunnel cfg req s₁ with
      | mk res s₂ =>
        cases res with
        | error e =>
          have hpart : connectPart cfg c = (.error e, s₂) := by
            unfold connectPart
            rw [Proc.bind_ok h1, Proc.bind_error h2]
          rw [Proc.bind_error h2, Proc.bind_error hpart]
        | ok u =>
          have hpart : connectPart cfg c = (.ok req, s₂.toClient .http [connectionEstablished]) := by
            unfold connectPart
            rw [Proc.bind_ok h1, Proc.bind_ok h2]
            rfl
          rw [Proc.bind_ok h2, if_pos (by simp [h]), Proc.bind_ok hpart]
          rfl

/-- A connection on which the client asks for a tunnel to `a`, in the given pieces. -/
def connectConn (pieces : List Bytes) : SrsHttpxProxyConn :=
  init (linkOf pieces) [.ok (linkOf [])] [] (.error .socketRead) (.error .socketRead)

/-- The connection when that tunnel starts. -/
def tunnelConn (pieces : List Bytes) : SrsHttpxProxyConn :=
  (connectPart (blockConfig [] false) (connectConn pieces)).2

theorem working_tunnelConn {pieces : List Bytes} (h : (tunnelConn pieces).dest? ≠ none ∧
    (∃ n, (tunnelConn pieces).client .http = ⟨Socket.ofPieces n, ⟨connectionEstablished, []⟩⟩) ∧
    (tunnelConn pieces).server .http = ⟨[], ⟨[], []⟩⟩) : Working (tunnelConn pieces) := by
  obtain ⟨hdest, ⟨n, hclient⟩, hserver⟩ := h
  refine ⟨hdest, ?_, ?_, ?_, ?_⟩
  · rw [hclient]
    exact Socket.healthy_ofPieces n
  · rw [hserver]
    simp
  · rw [hclient]
    simp [Sink.Reliable]
  · rw [hserver]
    simp [Sink.Reliable]

/-- The client waits for the answer before it sends more. -/
theorem continuous_iff_connect :
    Continuous .new .http (tunnelConn [connectHeader (str "a:443"), str "hello"]) :=
  (continuous_iff .new .http (working_tunnelConn ⟨by decide, ⟨[str "hello"], by decide⟩,
    by decide⟩)).2 ⟨by decide, by simp⟩

/-- The client sends its first bytes together with the request: they are lost. -/
theorem not_continuous_early_bytes :
    ∃ req c, connectPart (blockConfig [] false) (connectConn [connectHeader (str "a:443") ++ str "hello"]) =
      (.ok req, c) ∧ Working c ∧ ¬ Continuous req .http c := by
  have hok : (connectPart (blockConfig [] false)
      (connectConn [connectHeader (str "a:443") ++ str "hello"])).1.toOption.isSome = true := by
    decide
  have hworking : Working (tunnelConn [connectHeader (str "a:443") ++ str "hello"]) :=
    working_tunnelConn ⟨by decide, ⟨[], by decide⟩, by decide⟩
  have hearly : (tunnelConn [connectHeader (str "a:443") ++ str "hello"]).buffered true = str "hello" := by
    decide
  unfold tunnelConn at hworking hearly
  cases hrun : connectPart (blockConfig [] false)
      (connectConn [connectHeader (str "a:443") ++ str "hello"]) with
  | mk res c =>
    rw [hrun] at hok hworking hearly
    cases res with
    | error e => simp [Except.toOption] at hok
    | ok req =>
      refine ⟨req, c, rfl, hworking, fun h => ?_⟩
      have hnil := h.buffered_nil hworking true
      rw [show c.buffered true = str "hello" from hearly] at hnil
      exact absurd hnil (by decide)

end SrsHttpxProxyConn

end HttpProxy
