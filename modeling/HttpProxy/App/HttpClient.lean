import HttpProxy.Message.ReadBack

/-!
# `SrsHttpClient`: requests of the program itself

`src/app/srs_app_http_client.cpp`.  The client keeps its connection from one request to the next.  It is
disconnected by `initialize`, and when a connection cannot be made or a write fails.

* `request`, `connect`, `step` — the calls, with what the network does during each of them.
* `requests_of_run` — over any sequence of calls every request that is written is the one that was asked
  for, to the server of the last `initialize`, and through TLS exactly if that says so.
* `request_reads_iff` — when the text of a request is read as that request.
-/

namespace HttpProxy

open HttpParser SrsHttpParser Head

/-- `SRS_CONSTS_HTTP_DEFAULT_PORT`. -/
def SRS_CONSTS_HTTP_DEFAULT_PORT : Int := 80

/-- `ERROR_HTTPS_NOT_SUPPORTED`. -/
def ERROR_HTTPS_NOT_SUPPORTED : Nat := 4041

/-- A `SrsTcpClient` that is connected, with the timeouts it was given. -/
structure ClientTransport where
  host : Bytes
  port : Int
  recvTimeout : Int
  sendTimeout : Int
  deriving DecidableEq, Repr

/-- `SrsHttpClient`.  The parser has the buffer that the responses are read into. -/
structure SrsHttpClient where
  schema : Bytes
  host : Bytes
  port : Int
  timeout : Int
  recvTimeout : Int
  headers : OrdMap Bytes Bytes
  parser : Option SrsHttpParser
  buffer : SrsFastStream
  transport : Option ClientTransport
  /-- `ssl_transport` is not NULL. -/
  sslTransport : Bool

/-- A request on the wire, and how its write ended. -/
structure SentRequest where
  host : Bytes
  port : Int
  /-- It was written through TLS. -/
  secure : Bool
  text : Bytes
  err : Option SrsError
  deriving DecidableEq, Repr

/-- What the network does during a call: the connection, the handshake, the write, and what comes
back. -/
structure Net where
  connect : Option SrsError
  handshake : Option SrsError
  write : Option SrsError
  response : Socket

/-- What a call returns, or that it reads through a null pointer. -/
inductive Answer
  | returned (err : Option SrsError) (msg : Option SrsHttpMessage)
  | fault

namespace SrsHttpClient

/-- `SRS_UTIME_NO_TIMEOUT`. -/
def SRS_UTIME_NO_TIMEOUT : Int := -1

/-- The constructor. -/
def new : SrsHttpClient :=
  ⟨[], [], 0, SRS_UTIME_NO_TIMEOUT, SRS_UTIME_NO_TIMEOUT, .empty, none, .mk0, none, false⟩

/-- `disconnect`. -/
def disconnect (s : SrsHttpClient) : SrsHttpClient := { s with transport := none, sslTransport := false }

/-- The value of `Host`. -/
def endpoint (host : Bytes) (port : Int) : Bytes :=
  if 0 < port ∧ port ≠ SRS_CONSTS_HTTP_DEFAULT_PORT then
    host ++ str ":" ++ SrsHttpHeader.srsInt2str port
  else host

/-- The fields that `initialize` sets. -/
def defaultHeaders (host : Bytes) (port : Int) (headers : OrdMap Bytes Bytes) : OrdMap Bytes Bytes :=
  (((headers.insert (str "Host") (endpoint host port)).insert (str "Connection") (str "Keep-Alive")).insert
    (str "User-Agent") RTMP_SIG_SRS_SERVER).insert (str "Content-Type") (str "application/json")

/-- `initialize`, whose parser can always be initialized. -/
def initializeClient (s : SrsHttpClient) (schema host : Bytes) (port timeout : Int) : SrsHttpClient :=
  let s := { s with parser := some (.new .response), buffer := .mk0 }
  let s := { s with schema := schema, host := host, port := port, timeout := timeout, recvTimeout := timeout }
  let s := s.disconnect
  { s with headers := defaultHeaders host port s.headers }

/-- `set_header`. -/
def setHeader (s : SrsHttpClient) (k v : Bytes) : SrsHttpClient :=
  { s with headers := s.headers.insert k v }

/-- `set_recv_timeout`, which the connection that there is does not get to know. -/
def setRecvTimeout (s : SrsHttpClient) (tm : Int) : SrsHttpClient := { s with recvTimeout := tm }

/-- `connect`; `https` is whether the program is built with `SRS_HTTPS`. -/
def connect (https : Bool) (s : SrsHttpClient) (net : Net) : Option SrsError × SrsHttpClient :=
  if s.transport.isSome then (none, s)
  else
    match net.connect with
    | some e => (some e, s.disconnect)
    | none =>
        let s := { s with transport := some ⟨s.host, s.port, s.recvTimeout, s.timeout⟩ }
        if s.schema ≠ str "https" then (none, s)
        else if https then
          match net.handshake with
          | some e => (some e, s.disconnect)
          | none => (none, { s with sslTransport := true })
        -- the connection stays as it is
        else (some (.other ERROR_HTTPS_NOT_SUPPORTED), s)

/-- The text of a request. -/
def requestText (method : HttpMethod) (path : Bytes) (headers : OrdMap Bytes Bytes) (req : Bytes) : Bytes :=
  requestLine method path ++ (headers.entries.flatMap fun e => SrsHttpHeader.fieldLine e.1 e.2) ++ crlf ++ req

/-- The rest of `post` and `get`, once there is a connection. -/
def exchange (pa : Option Bytes) (s : SrsHttpClient) (t : ClientTransport) (text : Bytes) (net : Net) :
    Answer × List SentRequest × SrsHttpClient :=
  let w : SentRequest := ⟨t.host, t.port, s.sslTransport, text, net.write⟩
  match net.write with
  | some e => (.returned (some e) none, [w], s.disconnect)
  | none =>
      match s.parser with
      | none => (.fault, [w], s)
      | some parser =>
          match parseMessage pa parser ⟨s.buffer, net.response⟩ with
          | ⟨err, msg, parser', src⟩ =>
              (.returned err msg, [w], { s with parser := some parser', buffer := src.buffer })

/-- `post` and `get`, but for the path. -/
def request (pa : Option Bytes) (https : Bool) (s : SrsHttpClient) (method : HttpMethod) (path req : Bytes)
    (net : Net) : Answer × List SentRequest × SrsHttpClient :=
  -- always set the content length
  let s := s.setHeader (str "Content-Length") (SrsHttpHeader.srsInt2str req.length)
  match s.connect https net with
  | (some e, s) => (.returned (some e) none, [], s)
  | (none, s) =>
      match s.transport with
      | none => (.fault, [], s)
      | some t => s.exchange pa t (requestText method path s.headers req) net

/-- `post`. -/
def post (pa : Option Bytes) (https : Bool) (s : SrsHttpClient) (path req : Bytes) (net : Net) :
    Answer × List SentRequest × SrsHttpClient :=
  s.request pa https .post (if path = [] then str "/" else path) req net

/-- `get`. -/
def get (pa : Option Bytes) (https : Bool) (s : SrsHttpClient) (path req : Bytes) (net : Net) :
    Answer × List SentRequest × SrsHttpClient :=
  s.request pa https .get path req net

/-- The calls. -/
inductive Call
  | initializeClient (schema host : Bytes) (port timeout : Int)
  | setHeader (k v : Bytes)
  | setRecvTimeout (tm : Int)
  | post (path req : Bytes)
  | get (path req : Bytes)

/-- One call. -/
def step (pa : Option Bytes) (https : Bool) (s : SrsHttpClient) (net : Net) :
    Call → Answer × List SentRequest × SrsHttpClient
  | .initializeClient schema host port timeout =>
      (.returned none none, [], s.initializeClient schema host port timeout)
  | .setHeader k v => (.returned none none, [], s.setHeader k v)
  | .setRecvTimeout tm => (.returned none none, [], s.setRecvTimeout tm)
  | .post path req => s.post pa https path req net
  | .get path req => s.get pa https path req net

/-- A sequence of calls: what each of them returns and writes, up to a fault. -/
def run (pa : Option Bytes) (https : Bool) : List (Call × Net) → SrsHttpClient → List (Answer × List SentRequest)
  | [], _ => []
  | (call, net) :: calls, s =>
      match s.step pa https net call with
      | (.fault, ws, _) => [(.fault, ws)]
      | (.returned err msg, ws, s') => (.returned err msg, ws) :: run pa https calls s'

/-! ## What is asked for -/

/-- What the calls have set. -/
structure Settings where
  schema : Bytes
  host : Bytes
  port : Int
  headers : OrdMap Bytes Bytes

/-- A request, and where it shall go. -/
structure Asked where
  schema : Bytes
  host : Bytes
  port : Int
  text : Bytes

/-- The settings for a request. -/
def Settings.withLength (c : Settings) (req : Bytes) : Settings :=
  { c with headers := c.headers.insert (str "Content-Length") (SrsHttpHeader.srsInt2str req.length) }

/-- The request that is asked for. -/
def Settings.ask (c : Settings) (method : HttpMethod) (path req : Bytes) : Asked :=
  ⟨c.schema, c.host, c.port, requestText method path (c.withLength req).headers req⟩

/-- What a call sets and asks for, whatever the network does. -/
def Settings.step (c : Settings) : Call → Settings × Option Asked
  | .initializeClient schema host port _ => (⟨schema, host, port, defaultHeaders host port c.headers⟩, none)
  | .setHeader k v => ({ c with headers := c.headers.insert k v }, none)
  | .setRecvTimeout _ => (c, none)
  | .post path req => (c.withLength req, some (c.ask .post (if path = [] then str "/" else path) req))
  | .get path req => (c.withLength req, some (c.ask .get path req))

/-- What a sequence of calls asks for, and the network of each. -/
def asks : List (Call × Net) → Settings → List (Option Asked × Net)
  | [], _ => []
  | (call, net) :: calls, c => ((c.step call).2, net) :: asks calls (c.step call).1

/-- Nothing stands in the way of a connection, with TLS if the schema is `https`. -/
def Connects (https : Bool) (schema : Bytes) (net : Net) : Prop :=
  net.connect = none ∧ (schema = str "https" → https = true ∧ net.handshake = none)

/-- A call has done what it was asked for: a request is written once, to its server, and through TLS
exactly if the schema is `https` and the program has it; or nothing is written, because there is no connection
to be had, and then the call does not succeed.  It does not succeed either if the write has failed. -/
def Answers (https : Bool) : Option Asked × Net → Answer × List SentRequest → Prop
  | (none, _), (_, ws) => ws = []
  | (some q, net), (r, ws) =>
      (ws = [] ∧ ¬ Connects https q.schema net ∧ ∀ msg, r ≠ .returned none msg) ∨
        ws = [⟨q.host, q.port, https && decide (q.schema = str "https"), q.text, net.write⟩] ∧
          ∀ msg, r = .returned none msg → net.write = none

/-! ## Over all calls -/

section Run

variable {pa : Option Bytes} {https : Bool} {s : SrsHttpClient} {c : Settings} {net : Net}

/-- The client has the settings, and a connection that it has is one to this server, with TLS or
without. -/
structure Agrees (https : Bool) (c : Settings) (s : SrsHttpClient) : Prop where
  schema : s.schema = c.schema
  host : s.host = c.host
  port : s.port = c.port
  headers : s.headers = c.headers
  server : ∀ t ∈ s.transport, t.host = c.host ∧ t.port = c.port
  plain : s.transport = none → s.sslTransport = false
  secure : s.transport.isSome = true → s.sslTransport = (https && decide (c.schema = str "https"))

theorem Agrees.disconnect (h : Agrees https c s) : Agrees https c s.disconnect :=
  ⟨h.schema, h.host, h.port, h.headers, fun _ ht => (nomatch ht), fun _ => rfl, fun ht => (nomatch ht)⟩

theorem Agrees.setHeader (h : Agrees https c s) (k v : Bytes) :
    Agrees https { c with headers := c.headers.insert k v } (s.setHeader k v) :=
  ⟨h.schema, h.host, h.port, by rw [← h.headers]; rfl, h.server, h.plain, h.secure⟩

/-- **A connection** that is made is one to the server, and without an error there is one. -/
theorem Agrees.connect (h : Agrees https c s) (net : Net) :
    Agrees https c (s.connect https net).2 ∧
      ((s.connect https net).1 = none → (s.connect https net).2.transport.isSome = true) := by
  unfold SrsHttpClient.connect
  by_cases ht : s.transport.isSome = true
  · rw [if_pos ht]
    exact ⟨h, fun _ => ht⟩
  rw [if_neg ht]
  have hplain : s.sslTransport = false := h.plain (by simpa using ht)
  have hserver : ∀ t ∈ some (ClientTransport.mk s.host s.port s.recvTimeout s.timeout),
      t.host = c.host ∧ t.port = c.port := by
    intro t ht
    cases ht
    exact ⟨h.host, h.port⟩
  cases net.connect with
  | some e => exact ⟨h.disconnect, fun hn => (nomatch hn)⟩
  | none =>
    dsimp only
    by_cases hs : s.schema = str "https"
    · rw [if_neg (not_not_intro hs)]
      have hc : c.schema = str "https" := h.schema ▸ hs
      cases https with
      | false =>
        refine ⟨⟨h.schema, h.host, h.port, h.headers, hserver, fun hn => (nomatch hn), fun _ => ?_⟩,
          fun hn => (nomatch hn)⟩
        exact hplain
      | true =>
        rw [if_pos rfl]
        cases net.handshake with
        | some e =>
          exact ⟨⟨h.schema, h.host, h.port, h.headers, fun _ ht => (nomatch ht), fun _ => rfl,
            fun ht => (nomatch ht)⟩, fun hn => (nomatch hn)⟩
        | none =>
          refine ⟨⟨h.schema, h.host, h.port, h.headers, hserver, fun hn => (nomatch hn), fun _ => ?_⟩,
            fun _ => rfl⟩
          simp [hc]
    · rw [if_pos hs]
      have hc : c.schema ≠ str "https" := h.schema ▸ hs
      refine ⟨⟨h.schema, h.host, h.port, h.headers, hserver, fun hn => (nomatch hn), fun _ => ?_⟩,
        fun _ => rfl⟩
      simp [hplain, hc]

/-- A connection that is not made is one that something stands in the way of. -/
theorem not_connects {e : SrsError} (h : (s.connect https net).1 = some e) : ¬ Connects https s.schema net := by
  rintro ⟨hconnect, htls⟩
  unfold SrsHttpClient.connect at h
  by_cases ht : s.transport.isSome = true
  · rw [if_pos ht] at h
    cases h
  rw [if_neg ht, hconnect] at h
  simp only at h
  by_cases hs : s.schema = str "https"
  · obtain ⟨rfl, hhandshake⟩ := htls hs
    rw [if_neg (not_not_intro hs), if_pos rfl, hhandshake] at h
    cases h
  · rw [if_pos hs] at h
    cases h

/-- **An exchange** writes its text once, to the server. -/
theorem Agrees.exchange (h : Agrees https c s) {t : ClientTransport} (ht : s.transport = some t)
    (pa : Option Bytes) (text : Bytes) (net : Net) :
    Agrees https c (s.exchange pa t text net).2.2 ∧
      (s.exchange pa t text net).2.1 =
        [⟨c.host, c.port, https && decide (c.schema = str "https"), text, net.write⟩] ∧
      ∀ msg, (s.exchange pa t text net).1 = .returned none msg → net.write = none := by
  obtain ⟨hhost, hport⟩ := h.server t ht
  have hsec := h.secure (by rw [ht]; rfl)
  rw [← hsec, ← hhost, ← hport]
  unfold SrsHttpClient.exchange
  cases hw : net.write with
  | some e => exact ⟨h.disconnect, rfl, fun msg hm => (nomatch hm)⟩
  | none =>
    cases s.parser with
    | none => exact ⟨h, rfl, fun _ _ => rfl⟩
    | some parser =>
      exact ⟨⟨h.schema, h.host, h.port, h.headers, h.server, h.plain, h.secure⟩, rfl, fun _ _ => rfl⟩

/-- **A request** is written once, to the server, or it fails. -/
theorem Agrees.request (h : Agrees https c s) (pa : Option Bytes) (method : HttpMethod) (path req : Bytes)
    (net : Net) :
    Agrees https (c.withLength req) (s.request pa https method path req net).2.2 ∧
      Answers https (some (c.ask method path req), net)
        ((s.request pa https method path req net).1, (s.request pa https method path req net).2.1) := by
  unfold SrsHttpClient.request
  have h₁ : Agrees https (c.withLength req)
      (s.setHeader (str "Content-Length") (SrsHttpHeader.srsInt2str req.length)) := h.setHeader _ _
  obtain ⟨hc, hsome⟩ := h₁.connect net
  have hnot (e : SrsError) : (SrsHttpClient.connect https
      (s.setHeader (str "Content-Length") (SrsHttpHeader.srsInt2str req.length)) net).1 = some e →
      ¬ Connects https c.schema net := fun he => h₁.schema ▸ not_connects he
  dsimp only
  generalize SrsHttpClient.connect https
    (s.setHeader (str "Content-Length") (SrsHttpHeader.srsInt2str req.length)) net = r at hc hsome hnot ⊢
  obtain ⟨err, s'⟩ := r
  cases err with
  | some e => exact ⟨hc, .inl ⟨rfl, hnot e rfl, fun msg hm => (nomatch hm)⟩⟩
  | none =>
    obtain ⟨t, ht⟩ := Option.isSome_iff_exists.mp (hsome rfl)
    dsimp only at ht ⊢
    rw [ht]
    have hh : s'.headers = (c.withLength req).headers := hc.headers
    rw [hh]
    obtain ⟨ha, hws, hok⟩ := hc.exchange ht pa (requestText method path (c.withLength req).headers req) net
    exact ⟨ha, .inr ⟨hws, hok⟩⟩

/-- **A call** keeps the agreement with the settings, and does what it was asked for. -/
theorem Agrees.step (h : Agrees https c s) (pa : Option Bytes) (net : Net) (call : Call) :
    Agrees https (c.step call).1 (s.step pa https net call).2.2 ∧
      Answers https ((c.step call).2, net) ((s.step pa https net call).1, (s.step pa https net call).2.1) := by
  cases call with
  | initializeClient schema host port timeout =>
    refine ⟨⟨rfl, rfl, rfl, ?_, fun _ ht => (nomatch ht), fun _ => rfl, fun ht => (nomatch ht)⟩, rfl⟩
    exact congrArg (defaultHeaders host port) h.headers
  | setHeader k v => exact ⟨h.setHeader k v, rfl⟩
  | setRecvTimeout tm => exact ⟨⟨h.schema, h.host, h.port, h.headers, h.server, h.plain, h.secure⟩, rfl⟩
  | post path req => exact h.request pa .post _ req net
  | get path req => exact h.request pa .get path req net

/-- **Requests** of a client, from any state on. -/
theorem Agrees.run (pa : Option Bytes) (calls : List (Call × Net)) (h : Agrees https c s) :
    List.Forall₂ (Answers https) ((asks calls c).take (run pa https calls s).length)
      (run pa https calls s) := by
  induction calls generalizing s c with
  | nil => exact .nil
  | cons call calls ih =>
    obtain ⟨call, net⟩ := call
    obtain ⟨hs, ha⟩ := h.step pa net call
    simp only [SrsHttpClient.run, asks]
    generalize SrsHttpClient.step pa https s net call = r at hs ha ⊢
    obtain ⟨r, ws, s'⟩ := r
    cases r with
    | fault => exact .cons ha .nil
    | returned err msg => exact .cons ha (ih hs)

end Run

/-- The settings of a new client. -/
def Settings.new : Settings := ⟨[], [], 0, .empty⟩

/-- **Requests of a client**, over any sequence of calls and whatever the network does in each of them. -/
theorem requests_of_run (pa : Option Bytes) (https : Bool) (calls : List (Call × Net)) :
    List.Forall₂ (Answers https)
      ((asks calls .new).take (run pa https calls new).length) (run pa https calls new) := by
  apply Agrees.run
  exact ⟨rfl, rfl, rfl, rfl, fun _ ht => (nomatch ht), fun _ => rfl, fun ht => (nomatch ht)⟩

/-! ## A request that is read -/

/-- The header of a request. -/
def requestHead (method : HttpMethod) (path : Bytes) (headers : OrdMap Bytes Bytes) : Bytes :=
  requestLine method path ++ (linesOf headers.entries ++ crlf)

theorem requestText_eq (method : HttpMethod) (path : Bytes) (headers : OrdMap Bytes Bytes) (req : Bytes) :
    requestText method path headers req = requestHead method path headers ++ req := by
  simp only [requestText, requestHead, linesOf, List.append_assoc]

/-- The header is read as the one of this request, with a body of this size. -/
def RequestReads (method : HttpMethod) (path : Bytes) (headers : OrdMap Bytes Bytes) (size : Nat) : Prop :=
  IsHeader .request (requestHead method path headers) ∧
    ∃ r hp, readHead .request (requestHead method path headers) = .ok r ∧ r.head.hp = some hp ∧
      hp.method = method ∧ r.head.url = path ∧ r.head.fields = headers.entries.reverse ∧
      hp.contentLength = size ∧ hp.flags.chunked = false

section Read

variable {c : Settings} {method : HttpMethod} {path req : Bytes}

theorem isContentLength_length : isContentLength (str "Content-Length") = true := by decide

/-- A length has one value. -/
theorem LengthValue.unique {ds ws ds' ws' : Bytes} {b b' : Bool} {n n' : Nat} (h : LengthValue ds ws b n)
    (h' : LengthValue ds' ws' b' n') (heq : ds ++ ws = ds' ++ ws') : n = n' := by
  have hds := takeWhile_lengthValue h [] (by simp)
  rw [List.append_nil, heq] at hds
  have hds' := takeWhile_lengthValue h' [] (by simp)
  rw [List.append_nil, hds] at hds'
  rw [← h.value, hds', h'.value]

/-- The digits of a size. -/
theorem isNum_size {n : Nat} : ∀ d ∈ SrsHttpHeader.srsInt2str n, HttpProxy.isNum d = true := by
  rw [SrsHttpHeader.srsInt2str, if_neg (by omega), Int.natAbs_natCast]
  exact fun d hd => decimal_isNum hd

/-- The value of `Content-Length`. -/
theorem lengthValue_size {n : Nat} (hn : n < 2 ^ 63) : LengthValue (SrsHttpHeader.srsInt2str n) [] false n := by
  have hsize : SrsHttpHeader.srsInt2str n = SrsHttpHeader.decimal n := by
    rw [SrsHttpHeader.srsInt2str, if_neg (by omega), Int.natAbs_natCast]
  refine ⟨?_, isNum_size, by simp, by simp, ?_, ?_⟩
  · rw [hsize]
    exact SrsHttpHeader.decimal_ne_nil n
  · rw [hsize]
    exact SrsHttpHeader.digitsValue_decimal n
  · simp only [maxLengthTens, ULLONG_MAX]
    omega

theorem mem_withLength {f : Bytes × Bytes} (hf : f ∈ (c.withLength req).headers.entries) :
    f = (str "Content-Length", SrsHttpHeader.srsInt2str req.length) ∨ f ∈ c.headers.entries :=
  OrdMap.mem_insertIn hf

theorem length_mem_withLength :
    (str "Content-Length", SrsHttpHeader.srsInt2str req.length) ∈ (c.withLength req).headers.entries :=
  ((c.withLength req).headers.find?_eq_some_iff).1 (c.headers.find?_insert_self _ _)

/-- The length is the only one. -/
theorem length_unique (hone : ∀ f ∈ c.headers.entries, isContentLength f.1 = true → f.1 = str "Content-Length")
    {f : Bytes × Bytes} (hf : f ∈ (c.withLength req).headers.entries) (hn : isContentLength f.1 = true) :
    f = (str "Content-Length", SrsHttpHeader.srsInt2str req.length) := by
  have hkey : f.1 = str "Content-Length" := by
    rcases mem_withLength hf with rfl | hf
    · rfl
    · exact hone f hf hn
  have hfind := ((c.withLength req).headers.find?_eq_some_iff).2 (show (f.1, f.2) ∈ _ from hf)
  rw [hkey] at hfind
  have hvalue := hfind.symm.trans (c.headers.find?_insert_self _ _)
  exact Prod.ext hkey (Option.some.inj hvalue)

theorem oneLength_withLength
    (hone : ∀ f ∈ c.headers.entries, isContentLength f.1 = true → f.1 = str "Content-Length") :
    OneLength [] (c.withLength req).headers.entries := by
  refine ⟨?_, by simp⟩
  have hnodup : (c.withLength req).headers.entries.Nodup := (OrdMap.nodup_keys _).of_map
  refine hnodup.imp_of_mem fun {f g} hf hg hne hfn => ?_
  by_contra hgn
  apply hne
  rw [length_unique hone hf hfn, length_unique hone hg (by simpa using hgn)]

/-- A digit is a byte of a value, and neither a blank nor the end of a line. -/
theorem digit_value (ch : Byte) : HttpProxy.isNum ch = true →
    (ch ≠ chr ' ' ∧ ch ≠ 9) ∧ isHeaderChar ch = true ∧ ch ≠ CR ∧ ch ≠ LF :=
  forall_byte (P := fun ch => HttpProxy.isNum ch = true →
    (ch ≠ chr ' ' ∧ ch ≠ 9) ∧ isHeaderChar ch = true ∧ ch ≠ CR ∧ ch ≠ LF) (by decide +kernel) ch

/-- Every header is a line of its own, the length among them. -/
theorem line_withLength (hL : ∀ f ∈ c.headers.entries, Line f) :
    ∀ f ∈ (c.withLength req).headers.entries, Line f := by
  intro f hf
  rcases mem_withLength hf with rfl | hf
  · refine ⟨show str "Content-Length" ≠ [] by decide,
      show ∀ d ∈ str "Content-Length", token d ≠ 0 from List.all_iff_forall_prop.1 rfl, ?_⟩
    apply written_of_all
    · intro d hd
      exact (digit_value d (isNum_size d (List.mem_of_mem_head? hd))).1
    · intro d hd
      exact (digit_value d (isNum_size d hd)).2
  · exact hL f hf

/-- The condition is enough. -/
theorem requestReads_of_readable (hm : SrsHttpMessage.restoredMethod method ≠ []) (hL : ∀ f ∈ c.headers.entries, Line f)
    (hone : ∀ f ∈ c.headers.entries, isContentLength f.1 = true → f.1 = str "Content-Length")
    (hsize : req.length < 2 ^ 63) (hurl : isUrlClosed (urlRun (urlStart method) path) = true)
    (hplain : ∀ f ∈ (c.withLength req).headers.entries, isChunkedField f = false)
    (hroom : (requestHead method path (c.withLength req).headers).length ≤ HTTP_MAX_HEADER_SIZE) :
    RequestReads method path (c.withLength req).headers req.length := by
  obtain ⟨q, hq, hfirst, hn⟩ := begins_requestLine hm hurl
    (by rw [requestHead, List.length_append] at hroom; omega)
  have hlen : ∀ f ∈ (c.withLength req).headers.entries, isContentLength f.1 = true → LengthText f.2 := by
    intro f hf hn
    rw [length_unique hone hf hn]
    exact ⟨_, [], req.length, (List.append_nil _).symm, lengthValue_size hsize⟩
  have hframing : ¬ BothFramings (c.withLength req).headers.entries := by
    rintro ⟨⟨f, hf, hc⟩, -⟩
    rw [hplain f hf] at hc
    cases hc
  obtain ⟨hH, r, hp, hr, hhp, hline, hu, hfields⟩ := header_of_lines hq (inside_start hfirst)
    (.inl hfirst.state) (hn.trans (Nat.zero_add _)) (line_withLength hL) (oneLength_withLength hone) hroom
    hlen hframing
  refine ⟨hH, r, hp, hr, hhp, hline.1.trans hfirst.method, hu, hfields, ?_⟩
  have hmem : ∀ f, f ∈ r.head.fields ↔ f ∈ (c.withLength req).headers.entries := by
    intro f
    rw [hfields, List.mem_reverse]
  rcases hH.length_cases hr hhp with ⟨-, hnone⟩ | ⟨hc, g, hg, hgn, ⟨ds, ws, b, heq, hval⟩, -⟩
  · have := hnone _ ((hmem _).2 length_mem_withLength)
    rw [isContentLength_length] at this
    cases this
  · refine ⟨?_, hc⟩
    rw [length_unique hone ((hmem g).1 hg) hgn] at heq
    exact LengthValue.unique hval (lengthValue_size hsize) (heq.symm.trans (List.append_nil _).symm)

/-- **When a request is read.**  Whatever headers are set, each a line of its own and none of them
another spelling of `Content-Length`: the header that `post` and `get` write is read as a request with this
method, this path, these fields and the size of the body, if and only if the path is complete as a url, no
chunked `Transfer-Encoding` is set, and there is room. -/
theorem request_reads_iff (hm : method = .post ∨ method = .get) (hL : ∀ f ∈ c.headers.entries, Line f)
    (hone : ∀ f ∈ c.headers.entries, isContentLength f.1 = true → f.1 = str "Content-Length")
    (hsize : req.length < 2 ^ 63) :
    RequestReads method path (c.withLength req).headers req.length ↔
      isUrlClosed (urlRun (urlStart method) path) = true ∧
        (∀ f ∈ (c.withLength req).headers.entries, isChunkedField f = false) ∧
        (requestHead method path (c.withLength req).headers).length ≤ HTTP_MAX_HEADER_SIZE := by
  have hword : SrsHttpMessage.restoredMethod method ≠ [] := by
    rcases hm with rfl | rfl <;> decide
  constructor
  · rintro ⟨hH, r, hp, hr, hhp, hmethod, hu, -, -, -⟩
    have hroom := hH.length_le hr
    have hurl := (hH.firstLine hr hhp).2 rfl
    rw [hmethod, hu] at hurl
    refine ⟨hurl, ?_, hroom⟩
    obtain ⟨q, hq, hfirst, hn⟩ := begins_requestLine hword hurl
      (by rw [requestHead, List.length_append] at hroom; omega)
    have hframing := (plain_of_header hq (inside_start hfirst) (.inl hfirst.state)
      (hn.trans (Nat.zero_add _)) (line_withLength hL) (oneLength_withLength hone) hroom hr).2
    intro f hf
    by_contra hc
    exact hframing ⟨⟨f, hf, by simpa using hc⟩, _, length_mem_withLength, isContentLength_length⟩
  · rintro ⟨hurl, hplain, hroom⟩
    exact requestReads_of_readable hword hL hone hsize hurl hplain hroom

end Read

/-- The settings of a client for `a.com:1985`. -/
def exampleSettings : Settings := (Settings.new.step (.initializeClient (str "http") (str "a.com") 1985 0)).1

theorem entries_exampleSettings : exampleSettings.headers.entries =
    [(str "Connection", str "Keep-Alive"), (str "Content-Type", str "application/json"),
      (str "Host", str "a.com:1985"), (str "User-Agent", str "SRS/5.0.61(Bee)")] := by decide

theorem line_exampleSettings : ∀ f ∈ exampleSettings.headers.entries, Line f := by
  intro f hf
  rw [entries_exampleSettings] at hf
  simp only [List.mem_cons, List.not_mem_nil, or_false] at hf
  obtain rfl | rfl | rfl | rfl := hf
  all_goals
    exact ⟨by decide, List.all_iff_forall_prop.1 rfl, written_known (by decide) rfl⟩

/-- A request with two bytes. -/
theorem request_reads_iff_post :
    RequestReads .post (str "/api/v1") (exampleSettings.withLength (str "{}")).headers 2 := by
  refine (@request_reads_iff exampleSettings .post (str "/api/v1") (str "{}") (.inl rfl) line_exampleSettings
    ?_ (by decide)).2 ⟨by decide, by decide, by decide +kernel⟩
  rw [entries_exampleSettings]
  decide

end SrsHttpClient

end HttpProxy
