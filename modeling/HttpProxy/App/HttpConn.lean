import HttpProxy.App.Relay
import HttpProxy.Control.Proc
import HttpProxy.Message.Sent
import HttpProxy.Message.Transport

/-!
# `SrsHttpConn`: a connection of the HTTP API

`src/app/srs_app_http_conn.cpp`, lines 164-222: requests are parsed one after the other, and each is
given to a handler, which may read its body or leave it.

* `Handler` — what a handler does with the body of a request.
* `SrsHttpConn.processRequests` — the loop over the requests.
* `SrsHttpConn.inStep_of_turns` — in every run whose handlers read the bodies to their ends, every
  request is parsed from behind the body of the one in front of it.
-/

namespace HttpProxy

open SrsHttpResponseReader SrsHttpParser

/-! ## Handlers -/

/-- What a handler does with the body of a request: it reads for some bytes and goes on with what the
read returns, or it returns itself.  A read for no bytes would be an assertion failure. -/
inductive Handler
  | done (err : Option SrsError)
  | read (size : Nat) (hsize : 0 < size) (next : Option SrsError → Bytes → Handler)

/-- What a handler leaves behind. -/
structure Handled where
  err : Option SrsError
  reader : SrsHttpResponseReader
  src : Source

namespace Handler

/-- `serve_http`, on the body of a request. -/
def serveHttp (f : BodyFraming) : Handler → SrsHttpResponseReader → Source → Handled
  | done err, r, src => ⟨err, r, src⟩
  | read size _ next, r, src =>
      let res := SrsHttpResponseReader.read f r src size
      (next res.err res.data).serveHttp f res.reader res.src

/-- A handler stays inside of the body. -/
theorem serveHttp_inBody {f : BodyFraming} {T : Bytes} (h : Handler) {r : SrsHttpResponseReader}
    {src : Source}
    (hin : InBody f T r src) : InBody f T (h.serveHttp f r src).reader (h.serveHttp f r src).src := by
  induction h generalizing r src with
  | done err => exact hin
  | read size hsize next ih => exact ih _ _ (read_inBody hin hsize)

end Handler

/-- `SrsHttpCorsMux::serve_http`: an `OPTIONS` request is answered at once, all others go to the next
handler.  `answered` is what `final_request` returns. -/
def corsServeHttp (answered : Option SrsError) (next : SrsHttpMessage → Handler)
    (r : SrsHttpMessage) : Handler :=
  if r.method = .options then .done answered else next r

/-! ## The connection -/

/-- What the connection has around it. -/
structure HttpConnConfig where
  publicAddress : Option Bytes
  /-- The handlers that the requests find, by the number of the request. -/
  mux : Nat → SrsHttpMessage → Handler
  /-- What the answer to an `OPTIONS` request returns. -/
  answered : Option SrsError
  /-- `process_request` has no `return` for a request that was served, and `process_requests` none
  behind its loop: what the caller gets then. -/
  fallen : Option SrsError

/-- A connection.  `trace` has, for every request that was parsed, the source at which it starts. -/
structure SrsHttpConn where
  parser : SrsHttpParser
  /-- The buffer of the parser and the socket. -/
  source : Source
  reqId : Nat
  /-- The last request and the reader of its body. -/
  last : Option (SrsHttpMessage × SrsHttpResponseReader)
  trace : List (Source × SrsHttpMessage)

namespace SrsHttpConn

/-- `do_cycle`: the parser takes requests, and `on_start` allows JSONP. -/
def init (skt : Socket) : SrsHttpConn :=
  ⟨{ SrsHttpParser.new .request with jsonp := true }, ⟨.mk0, skt⟩, 0, none, []⟩

/-- A function of the connection. -/
abbrev ConnM := Proc SrsHttpConn Exit

/-- `parser->parse_message`. -/
def parseMessage (cfg : HttpConnConfig) : ConnM SrsHttpMessage := fun c =>
  let r := SrsHttpParser.parseMessage cfg.publicAddress c.parser c.source
  let c' := { c with parser := r.parser, source := r.src }
  match r.err, r.msg with
  | none, some m => (.ok m, { c' with trace := c.trace ++ [(c.source, m)] })
  | err, _ => (.error (.returned err), c')

/-- `process_request`. -/
def processRequest (cfg : HttpConnConfig) (req : SrsHttpMessage) : ConnM Unit := fun c =>
  let res := (corsServeHttp cfg.answered (cfg.mux c.reqId) req).serveHttp req.framing req.body c.source
  let c' := { c with source := res.src, last := some (req, res.reader) }
  match res.err, cfg.fallen with
  | none, none => (.ok (), c')
  | none, some e => (.error (.returned (some e)), c')
  | some e, _ => (.error (.returned (some e)), c')

/-- One turn of the loop over the requests. -/
def turn (cfg : HttpConnConfig) : ConnM Unit := do
  let req ← parseMessage cfg
  processRequest cfg req
  if !req.keepAlive then Proc.exit (.returned cfg.fallen)
  else Proc.modify fun c => { c with reqId := c.reqId + 1 }

/-- `process_requests`, for at most `fuel` requests. -/
def processRequests (cfg : HttpConnConfig) (fuel : Nat) : ConnM Unit :=
  Proc.forever .running (turn cfg) fuel

/-! ## Requests one behind the other -/

variable {cfg : HttpConnConfig} {rs : List Sent} {pa : Option Bytes} {c : SrsHttpConn}

/-- Every request is parsed from the first byte behind the body of the one in front of it. -/
def InStep (rs : List Sent) (t : List (Source × SrsHttpMessage)) : Prop :=
  ∀ (i : Nat) (start : Source) (m : SrsHttpMessage), t[i]? = some (start, m) →
    start.unread = (rs.drop i).flatMap Sent.bytes

theorem InStep.append {t : List (Source × SrsHttpMessage)} {start : Source} {m : SrsHttpMessage}
    (h : InStep rs t) (hstart : start.unread = (rs.drop t.length).flatMap Sent.bytes) :
    InStep rs (t ++ [(start, m)]) := by
  intro i start' m' hi
  rw [List.getElem?_append] at hi
  split_ifs at hi with hlt
  · exact h i start' m' hi
  · rw [List.getElem?_singleton] at hi
    split_ifs at hi with h0
    obtain ⟨rfl, rfl⟩ := Prod.mk.inj (Option.some.inj hi)
    rw [hstart, show i = t.length by omega]

/-- The body of the last request has been read to its end, if it has one. -/
def BodyRead (c : SrsHttpConn) : Prop :=
  ∀ m r, c.last = some (m, r) → m.chunked = true ∨ 0 < m.contentLength → r.isEof = true

/-- The body of the last request has been read, the header of the next one can be taken off the
source, and its body is one that the reader understands. -/
structure Prepared (pa : Option Bytes) (rs : List Sent) (c : SrsHttpConn) : Prop where
  bodyRead : BodyRead c
  takes : ∀ a, rs[c.trace.length]? = some a → TakesHeader .request c.source a.header
  fits : ∀ a m, rs[c.trace.length]? = some a → headMessage pa c.parser a.header = some m →
    BodyFits m a.wire a.payload

/-- What holds between the turns. -/
structure Between (rs : List Sent) (c : SrsHttpConn) : Prop where
  type : c.parser.type = .request
  healthy : c.source.skt.Healthy
  nbBuffer : c.source.buffer.nbBuffer = SRS_DEFAULT_RECV_BUFFER_SIZE
  place : BodyRead c → c.source.unread = (rs.drop c.trace.length).flatMap Sent.bytes
  inStep : InStep rs c.trace

/-- What holds when a request has been parsed: its body comes next. -/
structure Behind (rs : List Sent) (m : SrsHttpMessage) (c : SrsHttpConn) : Prop where
  type : c.parser.type = .request
  body : InBody m.framing ((rs.drop c.trace.length).flatMap Sent.bytes) m.body c.source
  inStep : InStep rs c.trace

theorem parseMessage_behind :
    Proc.Spec (fun c => Between rs c ∧ Prepared cfg.publicAddress rs c) (parseMessage cfg) (Behind rs)
      (fun _ c => InStep rs c.trace) := by
  rintro c ⟨hc, hnext⟩
  have hu := hc.place hnext.bodyRead
  have htype := (SrsHttpParser.parseMessage_type cfg.publicAddress c.parser c.source).trans hc.type
  obtain ⟨bs, htook⟩ := parseMessage_took cfg.publicAddress c.parser c.source
  unfold parseMessage
  cases hr : rs[c.trace.length]? with
  | none =>
    -- all requests have been parsed
    rw [List.drop_eq_nil_of_le (List.getElem?_eq_none_iff.1 hr)] at hu
    simp only [parseMessage_drained hc.healthy hu hc.nbBuffer]
    exact hc.inStep
  | some a =>
    have htakes : TakesHeader c.parser.type c.source a.header := by rw [hc.type]; exact hnext.takes a hr
    obtain ⟨hH, r, hread⟩ : IsHeader c.parser.type a.header ∧
      ∃ r, readHead c.parser.type a.header = .ok r := by
      obtain ⟨bl, base, L, x, hblocks⟩ := htakes
      obtain ⟨rx, hrx⟩ := hblocks.accepted
      obtain ⟨r, hread, -⟩ := read_append_ok hrx
      exact ⟨hblocks.isHeader, r, hread⟩
    cases hm : headMessage cfg.publicAddress c.parser a.header with
    | none =>
      -- no message is made of the header
      obtain ⟨herr, hmsg, -⟩ := parseMessage_takes cfg.publicAddress htakes hread
      cases herr' : (SrsHttpParser.parseMessage cfg.publicAddress c.parser c.source).err with
      | some e =>
        simp only [herr']
        exact hc.inStep
      | none =>
        cases hmsg' : (SrsHttpParser.parseMessage cfg.publicAddress c.parser c.source).msg with
        | none =>
          simp only [herr', hmsg']
          exact hc.inStep
        | some m =>
          rw [headMessage_eq_some_iff.2 ⟨r, hread, Prod.ext (herr.symm.trans herr')
            (hmsg.symm.trans hmsg')⟩] at hm
          cases hm
    | some m =>
      obtain ⟨herr, hmsg, hsplit⟩ := parseMessage_header htakes hm
      simp only [herr, hmsg]
      have hdrop : rs.drop c.trace.length = a :: rs.drop (c.trace.length + 1) := by
        rw [List.drop_eq_getElem?_toList_append, hr]
        rfl
      refine ⟨htype, ?_, hc.inStep.append hu⟩
      rw [hdrop, List.flatMap_cons, Sent.bytes, List.append_assoc] at hu
      rw [List.length_append, List.length_singleton]
      exact inBody_request hc.type hH hm (hnext.fits a m hr hm)
        (List.append_cancel_left (hsplit.symm.trans hu)) (htook.healthy hc.healthy)
          (htook.nbBuffer.trans hc.nbBuffer)

theorem processRequest_between (req : SrsHttpMessage) :
    Proc.Spec (Behind rs req) (processRequest cfg req) (fun _ => Between rs)
      (fun _ c => InStep rs c.trace) := by
  intro c hc
  have hin := Handler.serveHttp_inBody (corsServeHttp cfg.answered (cfg.mux c.reqId) req) hc.body
  unfold processRequest
  cases herr :
      ((corsServeHttp cfg.answered (cfg.mux c.reqId) req).serveHttp req.framing req.body
        c.source).err with
  | some e =>
    simp only [herr]
    exact hc.inStep
  | none =>
    cases hfallen : cfg.fallen with
    | some e =>
      simp only [herr]
      exact hc.inStep
    | none =>
      simp only [herr]
      refine ⟨hc.type, hin.healthy, hin.nbBuffer, fun hread => ?_, hc.inStep⟩
      by_cases hbody : req.chunked = true ∨ 0 < req.contentLength
      · exact hin.unread_of_isEof (hread req _ rfl hbody)
      · rw [not_or, Bool.not_eq_true, Int.not_lt] at hbody
        exact hin.unread_of_length_zero hbody.1 hbody.2

/-- One turn, from a state that is prepared for it. -/
theorem turn_between :
    Proc.Spec (fun c => Between rs c ∧ Prepared cfg.publicAddress rs c) (turn cfg) (fun _ => Between rs)
      (fun _ c => InStep rs c.trace) := by
  refine parseMessage_behind.bind fun req => (processRequest_between req).bind fun _ => ?_
  refine .ite (fun _ => .exit fun c hc => hc.inStep) fun _ => .modify fun c hc => ?_
  exact ⟨hc.type, hc.healthy, hc.nbBuffer, hc.place, hc.inStep⟩

/-- The requests are on their way, and nothing has been parsed. -/
structure Begins (rs : List Sent) (skt : Socket) : Prop where
  healthy : skt.Healthy
  pending : skt.pending = rs.flatMap Sent.bytes

theorem Begins.between {skt : Socket} (h : Begins rs skt) : Between rs (init skt) :=
  ⟨rfl, h.healthy, rfl, fun _ => h.pending, fun i start m hi => by simp [init] at hi⟩

/-- **Requests in step.**  For all clients, all requests and all handlers: if before every turn the
body of the last request has been read to its end, and the next request can be taken off the source,
every request is parsed from the first byte behind the body of the request in front of it. -/
theorem inStep_of_turns (cfg : HttpConnConfig) {rs : List Sent} {skt : Socket} (h : Begins rs skt)
    (hprepared : ∀ c, Proc.Turns (turn cfg) (init skt) c → Prepared cfg.publicAddress rs c) (fuel : Nat) :
    InStep rs (processRequests cfg fuel (init skt)).2.trace :=
  Proc.forever_of_turns (E := fun c => InStep rs c.trace) turn_between
    (fun _ hc => hc.inStep) h.between hprepared
    fuel

/-- `SrsMytest` answers a request and does not read its body. -/
def ignoresBody : HttpConnConfig := ⟨none, fun _ _ => .done none, none, none⟩

/-- A handler that reads once. -/
def readsOnce : HttpConnConfig :=
  ⟨none, fun _ _ => .read 4096 (by decide) fun err _ => .done err, none, none⟩

def postFive : Bytes := str "POST /a HTTP/1.1\r\nHost: a\r\nContent-Length: 5\r\n\r\n"

def getNext : Bytes := str "GET /b HTTP/1.1\r\nHost: b\r\n\r\n"

/-- A request with a body, which arrives behind the header, and a request without one. -/
def twoRequests : List Sent := [⟨postFive, str "hello", str "hello"⟩, ⟨getNext, [], []⟩]

def twoPieces : Socket := Socket.ofPieces [postFive, str "hello", getNext]

theorem begins_twoPieces : Begins twoRequests twoPieces :=
  ⟨Socket.healthy_ofPieces _, by rw [twoPieces, Socket.pending_ofPieces]; decide⟩

/-- Before the first turn. -/
theorem prepared_post : Prepared none twoRequests (init twoPieces) := by
  refine ⟨fun m r hr => (by cases hr), fun a ha => ?_, fun a m ha hm => ?_⟩
  · obtain rfl := Option.some.inj ha
    exact takesHeader_of_delivers (by decide) rfl (by decide)
  · obtain rfl := Option.some.inj ha
    have hfacts : (headMessage none (init twoPieces).parser postFive).map
        (fun m => (m.chunked, m.contentLength)) = some (false, 5) := by decide
    rw [hm] at hfacts
    exact bodyFits_of_length (Option.some.inj hfacts) (by decide) (by decide) (by decide)

/-- The state behind some of the turns. -/
def behindTurns (n : Nat) : SrsHttpConn := Proc.after (turn readsOnce) n (init twoPieces)

/-- What the turns come to. -/
theorem behindTurns_eq :
    ((behindTurns 1).trace.length = 1 ∧ (behindTurns 1).last.all (fun x => x.2.isEof) = true ∧
      (behindTurns 1).source.Delivers [getNext] ∧
      (behindTurns 1).source.buffer.nbBuffer = SRS_DEFAULT_RECV_BUFFER_SIZE ∧
      (headMessage none (behindTurns 1).parser getNext).map (fun m => (m.chunked, m.contentLength)) =
        some (false, -1)) ∧
    ((behindTurns 2).trace.length = 2 ∧
      (behindTurns 2).last.all (fun x => decide (x.1.chunked = false ∧ x.1.contentLength = -1)) = true) ∧
    ((turn readsOnce) (behindTurns 2)).1.isOk = false := by
  decide

/-- Before the second turn. -/
theorem prepared_get : Prepared none twoRequests (behindTurns 1) := by
  obtain ⟨⟨hone, heof, hdelivers, hbuffer, hfacts⟩, -⟩ := behindTurns_eq
  refine ⟨fun m r hr _ => ?_, fun a ha => ?_, fun a m ha hm => ?_⟩
  · rw [hr] at heof
    exact heof
  · rw [hone] at ha
    obtain rfl := Option.some.inj ha
    exact takesHeader_of_delivers hdelivers hbuffer (by decide)
  · rw [hone] at ha
    obtain rfl := Option.some.inj ha
    rw [show headMessage none (behindTurns 1).parser getNext = some m from hm] at hfacts
    exact bodyFits_of_length (Option.some.inj hfacts) (by decide) (by decide) (by decide)

/-- Behind the last request. -/
theorem prepared_end : Prepared none twoRequests (behindTurns 2) := by
  obtain ⟨-, ⟨htwo, hlast⟩, -⟩ := behindTurns_eq
  refine ⟨fun m r hr hbody => ?_, fun a ha => ?_, fun a m ha => ?_⟩
  · rw [hr] at hlast
    obtain ⟨hc, hl⟩ : m.chunked = false ∧ m.contentLength = -1 := of_decide_eq_true hlast
    rw [hc, hl] at hbody
    simp at hbody
  · rw [htwo] at ha
    cases ha
  · rw [htwo] at ha
    cases ha

theorem prepared_twoPieces (c : SrsHttpConn) (h : Proc.Turns (turn readsOnce) (init twoPieces) c) :
    Prepared readsOnce.publicAddress twoRequests c := by
  obtain ⟨k, hk, rfl⟩ := h.eq_after (n := 2) behindTurns_eq.2.2
  obtain rfl | rfl | rfl : k = 0 ∨ k = 1 ∨ k = 2 := by omega
  · exact prepared_post
  · exact prepared_get
  · exact prepared_end

/-- Two requests, the first one with a body that is read. -/
theorem inStep_of_turns_two :
    (processRequests readsOnce 3 (init twoPieces)).2.trace.length = 2 ∧
      InStep twoRequests (processRequests readsOnce 3 (init twoPieces)).2.trace :=
  ⟨by decide +kernel, inStep_of_turns readsOnce begins_twoPieces prepared_twoPieces 3⟩

/-- A request whose body is a request. -/
def outerPost : Sent := ⟨str "POST /a HTTP/1.1\r\nHost: a\r\nContent-Length: 28\r\n\r\n", getNext, getNext⟩

/-- A body that is not read is parsed as the next request. -/
theorem not_inStep_unread :
    Begins [outerPost] (Socket.ofPieces [outerPost.header, getNext]) ∧
      ¬ InStep [outerPost] (processRequests ignoresBody 2
        (init (Socket.ofPieces [outerPost.header, getNext]))).2.trace := by
  refine ⟨⟨Socket.healthy_ofPieces _, by rw [Socket.pending_ofPieces]; decide⟩, fun h => ?_⟩
  have hsecond : ((processRequests ignoresBody 2
      (init (Socket.ofPieces [outerPost.header, getNext]))).2.trace[1]?).map (fun x => x.1.unread) =
        some getNext := by decide +kernel
  obtain ⟨⟨start, m⟩, hm, hstart⟩ := Option.map_eq_some_iff.1 hsecond
  exact absurd ((h 1 start m hm).symm.trans hstart) (by decide)

end SrsHttpConn

end HttpProxy
