import HttpProxy.App.Policy
import HttpProxy.App.Relay
import HttpProxy.Control.Proc
import HttpProxy.Message.Parser

/-!
# `SrsHttpxProxyConn`: one client connection of the proxy

`src/app/srs_app_http_conn.cpp`, lines 494-1153.  A connection is served as plain
HTTP or, when it starts with `CONNECT`, as HTTPS; HTTPS is tunnelled or decrypted,
and what is decrypted is relayed by the same steps as plain HTTP.  The steps of one
request (`transaction`) take the path as a parameter.

The environment is part of the state: how the next connects end, what the polls of
the tunnel report, and the decrypted streams that the two TLS handshakes set up.
What the connection does is recorded in `trace`.
-/

namespace HttpProxy

/-- A connection: what is still to be read from it, and its writing side. -/
structure Link where
  skt : Socket
  out : Sink
  deriving DecidableEq, Repr

/-- A connection that has not been opened. -/
def Link.closed : Link := ⟨[], ⟨[], []⟩⟩

/-- `SrsTcpClient`: the host and port it was constructed with, and its socket. -/
structure SrsTcpClient where
  host : Bytes
  port : Int
  io : Link
  deriving DecidableEq, Repr

/-- What the proxy is configured with. -/
structure ProxyConfig where
  policy : SrsPolicy
  /-- The next proxy, when `get_next_hip_proxy_enabled()`. -/
  nextHip : Option (Bytes × Int)
  /-- What `srs_get_public_internet_address` returns, if it comes back. -/
  publicAddress : Option Bytes
  /-- `getNotification`, the block page for a domain. -/
  notification : Bytes → Bytes

/-- What a connection does, in the order in which it happens. -/
inductive Event
  /-- A request was parsed. -/
  | request (m : SrsHttpMessage)
  /-- The `CONNECT` request was parsed. -/
  | connectRequest (m : SrsHttpMessage)
  /-- An upstream connection was opened. -/
  | opened (host : Bytes) (port : Int)
  /-- A request was written upstream, to a connection opened to `host` and `port`: its
  header and then its body, which was read from `body` until `stop`. -/
  | forward (host : Bytes) (port : Int) (m : SrsHttpMessage) (body : Source) (writes : List Bytes)
      (stop : Option SrsError)
  /-- The `CONNECT` request was written to the next proxy. -/
  | connectForwarded (m : SrsHttpMessage) (writes : List Bytes)
  /-- A response was parsed. -/
  | response (m : SrsHttpMessage)
  /-- No response was parsed. -/
  | noResponse (err : Option SrsError)
  /-- A response was written to the client: its header and its body, which was read
  until `stop`. -/
  | relay (m : SrsHttpMessage) (writes : List Bytes) (stop : Option SrsError)
  /-- A request was answered by the proxy itself. -/
  | blocked (m : SrsHttpMessage) (writes : List Bytes)
  /-- Bytes were passed through the tunnel that was set up by a request. -/
  | tunnelled (m : SrsHttpMessage) (toServer : Bool) (bytes : Bytes)

/-- `SrsAccessLogInfo`, without the address of the client, which all lines of a connection share. -/
structure SrsAccessLogInfo where
  domain : Bytes
  statusCode : Nat
  deriving DecidableEq, Repr

/-- A client connection. -/
structure SrsHttpxProxyConn where
  cltSkt : Link
  /-- The decrypted stream of the client. -/
  cltSsl : Link
  /-- `svr_skt`, `none` for NULL. -/
  svrSkt : Option SrsTcpClient
  /-- The decrypted stream of the server. -/
  svrSsl : Link
  parser : SrsHttpParser
  /-- The buffer of `parser`. -/
  buffer : SrsFastStream
  serverParser : SrsHttpParser
  /-- The buffer of `server_parser`. -/
  serverBuffer : SrsFastStream
  reqBody : Bytes
  /-- How the next connects end; a connect that is not listed fails. -/
  net : List (Except SrsError Link)
  /-- What the next polls report: whether client and server are readable, `none` for an
  error. -/
  polls : List (Option (Bool × Bool))
  /-- What the handshakes with the server and with the client set up. -/
  serverHandshake : Except SrsError Link
  clientHandshake : Except SrsError Link
  trace : List Event
  /-- What was passed to `write_access_log`. -/
  accessLog : List SrsAccessLogInfo

/-- `strcasecmp(a, b) == 0`. -/
def strcasecmpEq (a b : Bytes) : Bool := decide ((cString a).map tolower = (cString b).map tolower)

namespace SrsHttpxProxyConn

/-- A connection when `do_cycle` starts. -/
def init (cltSkt : Link) (net : List (Except SrsError Link)) (polls : List (Option (Bool × Bool)))
    (serverHandshake clientHandshake : Except SrsError Link) : SrsHttpxProxyConn :=
  { cltSkt := cltSkt, cltSsl := .closed, svrSkt := none, svrSsl := .closed
    parser := .new .request, buffer := .mk0, serverParser := .new .response, serverBuffer := .mk0
    reqBody := [], net := net, polls := polls, serverHandshake := serverHandshake
    clientHandshake := clientHandshake, trace := [], accessLog := [] }

/-- The stream on which the client talks HTTP. -/
def client (c : SrsHttpxProxyConn) : Path → Link
  | .http => c.cltSkt
  | .https => c.cltSsl

def setClient (c : SrsHttpxProxyConn) (p : Path) (l : Link) : SrsHttpxProxyConn :=
  match p with
  | .http => { c with cltSkt := l }
  | .https => { c with cltSsl := l }

/-- The stream on which the server talks HTTP. -/
def server (c : SrsHttpxProxyConn) : Path → Link
  | .http => (c.svrSkt.map (·.io)).getD .closed
  | .https => c.svrSsl

def setServer (c : SrsHttpxProxyConn) (p : Path) (l : Link) : SrsHttpxProxyConn :=
  match p with
  | .http => { c with svrSkt := c.svrSkt.map fun t => { t with io := l } }
  | .https => { c with svrSsl := l }

/-- The host and port of the upstream connection. -/
def upstream (c : SrsHttpxProxyConn) : Bytes × Int :=
  (c.svrSkt.map fun t => (t.host, t.port)).getD ([], 0)

/-- What the client parser reads from. -/
def clientSource (c : SrsHttpxProxyConn) (p : Path) : Source := ⟨c.buffer, (c.client p).skt⟩

/-- What the server parser reads from. -/
def serverSource (c : SrsHttpxProxyConn) (p : Path) : Source := ⟨c.serverBuffer, (c.server p).skt⟩

/-- The client source has been read from. -/
def setClientSource (c : SrsHttpxProxyConn) (p : Path) (src : Source) : SrsHttpxProxyConn :=
  { c.setClient p { c.client p with skt := src.skt } with buffer := src.buffer }

/-- The server source has been read from. -/
def setServerSource (c : SrsHttpxProxyConn) (p : Path) (src : Source) : SrsHttpxProxyConn :=
  { c.setServer p { c.server p with skt := src.skt } with serverBuffer := src.buffer }

/-- Bytes are written to the client, whatever the writes return. -/
def toClient (c : SrsHttpxProxyConn) (p : Path) (writes : List Bytes) : SrsHttpxProxyConn :=
  c.setClient p { c.client p with out := (writeEach false writes (c.client p).out).2.2 }

/-- Bytes are written to the server, whatever the writes return. -/
def toServer (c : SrsHttpxProxyConn) (p : Path) (writes : List Bytes) : SrsHttpxProxyConn :=
  c.setServer p { c.server p with out := (writeEach false writes (c.server p).out).2.2 }

def setParser (c : SrsHttpxProxyConn) (o : SrsHttpParser) : SrsHttpxProxyConn := { c with parser := o }

def setServerParser (c : SrsHttpxProxyConn) (o : SrsHttpParser) : SrsHttpxProxyConn :=
  { c with serverParser := o }

def setReqBody (c : SrsHttpxProxyConn) (body : Bytes) : SrsHttpxProxyConn := { c with reqBody := body }

def setPolls (c : SrsHttpxProxyConn) (polls : List (Option (Bool × Bool))) : SrsHttpxProxyConn :=
  { c with polls := polls }

/-- Record an event. -/
def log (c : SrsHttpxProxyConn) (e : Event) : SrsHttpxProxyConn := { c with trace := c.trace ++ [e] }

/-- `write_access_log`. -/
def writeAccessLog (c : SrsHttpxProxyConn) (info : SrsAccessLogInfo) : SrsHttpxProxyConn :=
  { c with accessLog := c.accessLog ++ [info] }

/-- The host and port of `svr_skt`, if there is one. -/
def dest? (c : SrsHttpxProxyConn) : Option (Bytes × Int) := c.svrSkt.map fun t => (t.host, t.port)

section Frame

variable (c : SrsHttpxProxyConn) (p : Path) (l : Link) (src : Source) (ws : List Bytes)
  (o : SrsHttpParser) (b : Bytes) (ps : List (Option (Bool × Bool))) (e : Event)
  (info : SrsAccessLogInfo)

@[simp] theorem setClient_client : (c.setClient p l).client p = l := by cases p <;> rfl

@[simp] theorem setClientSource_clientSource : (c.setClientSource p src).clientSource p = src := by
  cases p <;> rfl

/-- On plain HTTP there must be a connection to read from. -/
theorem setServerSource_serverSource (h : p = .http → c.dest? ≠ none) :
    (c.setServerSource p src).serverSource p = src := by
  cases p with
  | https => rfl
  | http =>
    cases hskt : c.svrSkt with
    | none => exact absurd (by simp [dest?, hskt]) (h rfl)
    | some t => simp [setServerSource, setServer, serverSource, server, hskt]

@[simp] theorem setReqBody_reqBody : (c.setReqBody b).reqBody = b := rfl

@[simp] theorem log_trace : (c.log e).trace = c.trace ++ [e] := rfl

@[simp] theorem setClient_trace : (c.setClient p l).trace = c.trace := by cases p <;> rfl

@[simp] theorem setServer_trace : (c.setServer p l).trace = c.trace := by cases p <;> rfl

@[simp] theorem setClientSource_trace : (c.setClientSource p src).trace = c.trace :=
  by cases p <;> rfl

@[simp] theorem setServerSource_trace : (c.setServerSource p src).trace = c.trace :=
  by cases p <;> rfl

@[simp] theorem toClient_trace : (c.toClient p ws).trace = c.trace := by cases p <;> rfl

@[simp] theorem toServer_trace : (c.toServer p ws).trace = c.trace := by cases p <;> rfl

@[simp] theorem setParser_trace : (c.setParser o).trace = c.trace := rfl

@[simp] theorem setServerParser_trace : (c.setServerParser o).trace = c.trace := rfl

@[simp] theorem setReqBody_trace : (c.setReqBody b).trace = c.trace := rfl

@[simp] theorem setPolls_trace : (c.setPolls ps).trace = c.trace := rfl

@[simp] theorem writeAccessLog_trace : (c.writeAccessLog info).trace = c.trace := rfl

@[simp] theorem setClient_reqBody : (c.setClient p l).reqBody = c.reqBody := by cases p <;> rfl

@[simp] theorem setServer_reqBody : (c.setServer p l).reqBody = c.reqBody := by cases p <;> rfl

@[simp] theorem setClientSource_reqBody : (c.setClientSource p src).reqBody = c.reqBody :=
  by cases p <;> rfl

@[simp] theorem setServerSource_reqBody : (c.setServerSource p src).reqBody = c.reqBody :=
  by cases p <;> rfl

@[simp] theorem toClient_reqBody : (c.toClient p ws).reqBody = c.reqBody := by cases p <;> rfl

@[simp] theorem toServer_reqBody : (c.toServer p ws).reqBody = c.reqBody := by cases p <;> rfl

@[simp] theorem setParser_reqBody : (c.setParser o).reqBody = c.reqBody := rfl

@[simp] theorem setServerParser_reqBody : (c.setServerParser o).reqBody = c.reqBody := rfl

@[simp] theorem setPolls_reqBody : (c.setPolls ps).reqBody = c.reqBody := rfl

@[simp] theorem log_reqBody : (c.log e).reqBody = c.reqBody := rfl

@[simp] theorem setClient_dest? : (c.setClient p l).dest? = c.dest? := by cases p <;> rfl

@[simp] theorem setServer_dest? : (c.setServer p l).dest? = c.dest? := by
  cases p with
  | http => cases h : c.svrSkt <;> simp [setServer, dest?, h]
  | https => rfl

@[simp] theorem setClientSource_dest? : (c.setClientSource p src).dest? = c.dest? :=
  by cases p <;> rfl

@[simp] theorem setServerSource_dest? : (c.setServerSource p src).dest? = c.dest? := by
  show (c.setServer p _).dest? = _
  simp

@[simp] theorem toClient_dest? : (c.toClient p ws).dest? = c.dest? := by cases p <;> rfl

@[simp] theorem toServer_dest? : (c.toServer p ws).dest? = c.dest? := by simp [toServer]

@[simp] theorem setParser_dest? : (c.setParser o).dest? = c.dest? := rfl

@[simp] theorem setServerParser_dest? : (c.setServerParser o).dest? = c.dest? := rfl

@[simp] theorem setReqBody_dest? : (c.setReqBody b).dest? = c.dest? := rfl

@[simp] theorem setPolls_dest? : (c.setPolls ps).dest? = c.dest? := rfl

@[simp] theorem log_dest? : (c.log e).dest? = c.dest? := rfl

@[simp] theorem writeAccessLog_dest? : (c.writeAccessLog info).dest? = c.dest? := rfl

end Frame

/-- A function of the connection. -/
abbrev ProxyM := Proc SrsHttpxProxyConn Exit

/-! ## The steps of a transaction -/

/-- `parser->parse_message`; the event says which kind of request it is. -/
def parseRequest (cfg : ProxyConfig) (p : Path) (event : SrsHttpMessage → Event) :
    ProxyM SrsHttpMessage := fun c =>
  let r := SrsHttpParser.parseMessage cfg.publicAddress c.parser (c.clientSource p)
  let c' := (c.setClientSource p r.src).setParser r.parser
  match r.err, r.msg with
  | none, some m => (.ok m, c'.log (event m))
  | err, _ => (.error (.returned err), c')

/-- `server_parser->initialize` and `server_parser->parse_message`. -/
def parseResponse (cfg : ProxyConfig) (p : Path) : ProxyM SrsHttpMessage := fun c =>
  let r := SrsHttpParser.parseMessage cfg.publicAddress (.new .response) (c.serverSource p)
  let c' := (c.setServerSource p r.src).setServerParser r.parser
  match r.err, r.msg with
  | none, some m => (.ok m, c'.log (.response m))
  | err, _ => (.error (.returned err), c'.log (.noResponse err))

/-- The header and body of `prepare403block`. -/
def prepare403block (cfg : ProxyConfig) (req : SrsHttpMessage) : List Bytes :=
  let body := cfg.notification req.getDestDomain
  let m := SrsHttpMessage.new.setBasic .response .delete 403 0
  let header := ((m.header.setContentType (str "text/html")).set (str "Connection")
    (str "close")).setContentLength body.length
  [({ m with header := header }).restoreHttpHeader.rawHeader, body]

/-- A blocked request is answered, and the connection ends. -/
def block (cfg : ProxyConfig) (p : Path) (req : SrsHttpMessage) : ProxyM Unit := do
  Proc.modify fun c => (c.toClient p (prepare403block cfg req)).log (.blocked req (prepare403block cfg req))
  Proc.exit (.returned none)

/-- `svr_skt->connect()`, for `svr_skt` set to `svr`. -/
def connect (svr : SrsTcpClient) : ProxyM Unit := fun c =>
  match c.net with
  | .ok io :: net =>
      (.ok (), { c with svrSkt := some { svr with io := io }, net := net }.log (.opened svr.host svr.port))
  | .error e :: net => (.error (.returned (some e)), { c with svrSkt := some svr, net := net })
  | [] => (.error (.returned (some .socketTimeout)), { c with svrSkt := some svr })

/-- The upstream connection of plain HTTP: `svr_skt` is made for the next proxy, or for
the destination when there is none yet, and connected. -/
def openUpstream (cfg : ProxyConfig) (req : SrsHttpMessage) : ProxyM Unit := do
  let c ← Proc.get
  match cfg.nextHip with
  | some (ip, port) => connect ⟨ip, port, .closed⟩
  | none => connect (c.svrSkt.getD ⟨req.getDestDomain, req.getDestPort, .closed⟩)

/-- Is there a body to be passed on? -/
def hasBody (m : SrsHttpMessage) : Bool := m.chunked || decide (0 < m.contentLength)

/-- `body_read_all`, for a message with a body.  Every read takes a byte or comes to an end,
which bounds their number. -/
def bodyReadAll (m : SrsHttpMessage) (src : Source) : SrsHttpResponseReader.Drained :=
  if hasBody m then
    SrsHttpResponseReader.srsIoutilReadAll m.framing (src.unread.length + 3) m.body src
  else ⟨none, [], m.body, src⟩

/-- The request is written to the server: its header, and its body behind what
`req_body` holds. -/
def forward (p : Path) (req : SrsHttpMessage) : ProxyM Unit := Proc.modify fun c =>
  let d := bodyReadAll req (c.clientSource p)
  let body := c.reqBody ++ d.data
  let writes := req.rawHeader :: requestWrites req.framing body
  (((c.setClientSource p d.src).toServer p writes).setReqBody body).log
    (.forward c.upstream.1 c.upstream.2 req (c.clientSource p) writes d.stop)

/-- A read of the body of a message. -/
def bodyRead (m : SrsHttpMessage) : BodyRead (SrsHttpResponseReader × Source) := fun r =>
  let res := SrsHttpResponseReader.read m.framing r.1 r.2
    SrsHttpResponseReader.SRS_HTTP_READ_CACHE_BYTES
  (res.err, res.data, res.reader, res.src)

/-- The relay of the body of a response, if it has one. -/
def relayResponse (p : Path) (m : SrsHttpMessage) (src : Source) (out : Sink) :
    Relayed (SrsHttpResponseReader × Source) :=
  if hasBody m then relayBody p (bodyRead m) m.framing (src.unread.length + 3) (m.body, src) out
  else ⟨none, none, [], (m.body, src), out⟩

/-- The response is written to the client. -/
def relay (p : Path) (resp : SrsHttpMessage) : ProxyM Unit := fun c =>
  let c₁ := c.toClient p [resp.rawHeader]
  let res := relayResponse p resp (c₁.serverSource p) (c₁.client p).out
  let c₂ := (c₁.setServerSource p res.reader.2).setClient p { c₁.client p with out := res.out }
  (match res.exit with
    | none => .ok ()
    | some e => .error e,
    c₂.log (.relay resp (resp.rawHeader :: res.writes) res.stop))

/-! ## The tunnel -/

/-- The size of the buffer of `pass`. -/
def IOBUFSIZE : Nat := 4096

/-- `pass`, from the client to the server or back, on the sockets as they are: whether it
succeeded. -/
def pass (req : SrsHttpMessage) (toServer : Bool) (c : SrsHttpxProxyConn) : Bool × SrsHttpxProxyConn :=
  let src := if toServer then c.client .http else c.server .http
  let res := src.skt.read IOBUFSIZE
  let c' := if toServer then c.setClient .http { src with skt := res.2 }
    else c.setServer .http { src with skt := res.2 }
  match res.1 with
  | .ok bs =>
      (true, (if toServer then c'.toServer .http [bs] else c'.toClient .http [bs]).log
        (.tunnelled req toServer bs))
  | .error _ => (false, c')

/-- `pass` in a direction that is readable. -/
def passIf (readable : Bool) (req : SrsHttpMessage) (toServer : Bool) (c : SrsHttpxProxyConn) :
    Bool × SrsHttpxProxyConn :=
  if readable then pass req toServer c else (true, c)

/-- The loop of `processHttpsTunnel`, over what the polls report. -/
def tunnelLoop (req : SrsHttpMessage) :
    List (Option (Bool × Bool)) → SrsHttpxProxyConn → SrsHttpxProxyConn
  | [], c => c.setPolls []
  | none :: polls, c => c.setPolls polls
  | some (fromClient, fromServer) :: polls, c =>
      let r₁ := passIf fromClient req true c
      if r₁.1 then
        let r₂ := passIf fromServer req false r₁.2
        if r₂.1 then tunnelLoop req polls r₂.2 else r₂.2.setPolls polls
      else r₁.2.setPolls polls

/-- `processHttpsTunnel`. -/
def processHttpsTunnel (req : SrsHttpMessage) : ProxyM Unit :=
  Proc.modify fun c => tunnelLoop req c.polls c

/-! ## The connection -/

/-- The upstream connection of a request; on HTTPS it has been there since the `CONNECT`. -/
def openFor (cfg : ProxyConfig) (p : Path) (req : SrsHttpMessage) : ProxyM Unit :=
  match p with
  | .http => openUpstream cfg req
  | .https => pure ()

/-- After a 101 the connection is tunnelled. -/
def upgrade (req resp : SrsHttpMessage) : ProxyM Unit :=
  if resp.status = 101 then processHttpsTunnel req else pure ()

/-- The end of a turn; without keep-alive the connection is left, and nothing is logged. -/
def endTurn (req resp : SrsHttpMessage) : ProxyM Unit :=
  if !req.keepAlive || !resp.keepAlive then Proc.exit (.returned none)
  else do
    upgrade req resp
    Proc.modify fun c => (c.writeAccessLog ⟨req.getDestDomain, resp.status⟩).setReqBody []

/-- A request that is not blocked is sent to the server, and the response to the client. -/
def serve (cfg : ProxyConfig) (p : Path) (req : SrsHttpMessage) : ProxyM Unit := do
  openFor cfg p req
  forward p req
  let resp ← parseResponse cfg p
  relay p resp
  endTurn req resp

/-- One turn of the loop over the requests. -/
def transaction (cfg : ProxyConfig) (p : Path) : ProxyM Unit := do
  let req ← parseRequest cfg p .request
  if cfg.policy.matchBlackList req.getDestDomain then block cfg p req else serve cfg p req

/-- `process_http_connection`, for at most `fuel` requests. -/
def processHttpConnection (cfg : ProxyConfig) (fuel : Nat) : ProxyM Unit :=
  Proc.forever .running (transaction cfg .http) fuel

/-- The answer to a `CONNECT` request. -/
def connectionEstablished : Bytes := str "HTTP/1.1 200 Connection Established" ++ crlf ++ crlf

/-- The upstream connection of HTTPS.  The next proxy is sent the `CONNECT` request. -/
def openTunnel (cfg : ProxyConfig) (req : SrsHttpMessage) : ProxyM Unit :=
  match cfg.nextHip with
  | some (ip, port) => do
      connect ⟨ip, port, .closed⟩
      Proc.modify fun c =>
        (c.toServer .http [req.rawHeader]).log (.connectForwarded req [req.rawHeader])
      let _ ← parseResponse cfg .http
      pure ()
  | none => connect ⟨req.getDestDomain, req.getDestPort, .closed⟩

/-- The handshake with the server, and with the client behind the answer. -/
def handshakes : ProxyM Unit := fun c =>
  match c.serverHandshake with
  | .error e => (.error (.returned (some e)), c)
  | .ok svrSsl =>
      let c' := { c with svrSsl := svrSsl }.toClient .http [connectionEstablished]
      match c.clientHandshake with
      | .error e => (.error (.returned (some e)), c')
      | .ok cltSsl => (.ok (), { c' with cltSsl := cltSsl })

/-- `process_https_connection`, for at most `fuel` requests. -/
def processHttpsConnection (cfg : ProxyConfig) (fuel : Nat) : ProxyM Unit := do
  let req ← parseRequest cfg .http .connectRequest
  openTunnel cfg req
  if !cfg.policy.isHttpsDescryptEnable || cfg.policy.matchTunnelDomainList req.getDestDomain then
    Proc.modify fun c => c.toClient .http [connectionEstablished]
    processHttpsTunnel req
    Proc.exit (.returned none)
  else
    handshakes
    Proc.forever .running (transaction cfg .https) fuel

/-- What `peek` sees: the front of the next piece of data. -/
def peek : Socket → Nat → Except SrsError Bytes
  | [], _ => .error .socketPeek
  | .error e :: _, _ => .error (if e = .socketTimeout then .socketTimeout else .socketPeek)
  | .data bs :: s, size => if bs = [] then peek s size else .ok (bs.take size)

/-- `check_http_or_https`, for what the eight bytes of `buf` hold before. -/
def checkHttpOrHttpsIn (memory : Bytes) (c : SrsHttpxProxyConn) : Except SrsError Bool :=
  match peek c.cltSkt.skt 8 with
  | .error e => .error e
  | .ok buf => .ok (strcasecmpEq ((buf ++ memory.drop buf.length).set 7 0) (str "CONNECT" ++ [0]))

/-- `process_requests`. -/
def processRequestsIn (memory : Bytes) (cfg : ProxyConfig) (fuel : Nat) : ProxyM Unit := fun c =>
  match checkHttpOrHttpsIn memory c with
  | .error e => (.error (.returned (some e)), c)
  | .ok true => processHttpsConnection cfg fuel c
  | .ok false => processHttpConnection cfg fuel c

end SrsHttpxProxyConn

end HttpProxy
