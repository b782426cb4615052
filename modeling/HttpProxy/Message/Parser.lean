import HttpProxy.Message.Message
import HttpProxy.Parser.Execute

/-!
# `SrsHttpParser`: reading a message header from a connection

`src/protocol/srs_protocol_http_conn.cpp`, lines 12-299.  The header is read with
the embedded http-parser, block by block as the bytes arrive; the callbacks
collect the url and the fields, and remember two places in the buffer
(`p_header_tail`, `p_body_start`) from which the length of the header is found
out again at the end, because the http-parser runs on into the body.

A pointer into the buffer is an offset from the start of its memory.
-/

namespace HttpProxy

/-- `enum SrsHttpParseState`. -/
inductive SrsHttpParseState
  | init
  | start
  | headerComplete
  | body
  | messageComplete
  deriving DecidableEq, Repr

/-- `state >= SrsHttpParseStateHeaderComplete`. -/
def SrsHttpParseState.headerDone : SrsHttpParseState → Bool
  | .init | .start => false
  | .headerComplete | .body | .messageComplete => true

/-- What the callbacks work on. -/
structure SrsHttpParser where
  type : HttpParserType
  /-- Whether allow jsonp parse. -/
  jsonp : Bool
  /-- The http parser. -/
  parser : HttpParser
  state : SrsHttpParseState
  /-- The http parser when the header was complete. -/
  hpHeader : Option HttpParser
  url : Bytes
  fieldName : Bytes
  fieldValue : Bytes
  header : SrsHttpHeader
  /-- Point to the start of body, `none` for NULL. -/
  pBodyStart : Option Nat
  /-- To discover the length of header, point to the last few bytes in header. -/
  pHeaderTail : Option Nat
  deriving DecidableEq

namespace SrsHttpParser

/-- `initialize(type)`. -/
def new (type : HttpParserType) : SrsHttpParser :=
  ⟨type, false, .init type, .init, none, [], [], [], .empty, none, none⟩

/-- The fresh state at the start of `parse_message`. -/
def reset (o : SrsHttpParser) : SrsHttpParser := { new o.type with jsonp := o.jsonp }

/-! ## The callbacks -/

/-- `on_url`, where `pos` is the pointer `at`. -/
def onUrl (o : SrsHttpParser) (pos : Nat) (bytes : Bytes) : SrsHttpParser :=
  { o with url := o.url ++ bytes, pHeaderTail := some pos }

/-- The end of a field: it is put into the header, `Set-Cookie` into its own list. -/
def flushField (o : SrsHttpParser) : SrsHttpParser :=
  if o.fieldName = [] then o
  else
    { o with
      header :=
        if o.fieldName = str "Set-Cookie" ∨ o.fieldName = str "set-cookie" then
          o.header.addCookie o.fieldValue
        else o.header.set o.fieldName o.fieldValue
      fieldName := []
      fieldValue := [] }

/-- `on_header_field`. -/
def onHeaderField (o : SrsHttpParser) (pos : Nat) (bytes : Bytes) : SrsHttpParser :=
  { o.flushField with fieldName := o.flushField.fieldName ++ bytes, pHeaderTail := some pos }

/-- `on_header_value`. -/
def onHeaderValue (o : SrsHttpParser) (pos : Nat) (bytes : Bytes) : SrsHttpParser :=
  if bytes = [] then o
  else { o with fieldValue := o.fieldValue ++ bytes, pHeaderTail := some pos }

/-- `on_body`. -/
def onBody (o : SrsHttpParser) (pos : Nat) : SrsHttpParser :=
  { o with state := .body, pBodyStart := some pos }

/-- The callbacks, for a block that lies at `[base, base + size)` of the buffer. -/
def callback (base size : Nat) (o : SrsHttpParser) : Callback → SrsHttpParser
  | .data .url pos bytes => o.onUrl (base + pos) bytes
  | .data .headerField pos bytes => o.onHeaderField (base + pos) bytes
  | .data .headerValue pos bytes => o.onHeaderValue (base + pos) bytes
  | .data .body pos _ => o.onBody (base + pos)
  | .notify .messageBegin => { o with state := .start }
  | .notify (.headersComplete hp) =>
      { o with hpHeader := some hp, state := .headerComplete, pBodyStart := some (base + size) }
  | .notify .messageComplete => { o with state := .messageComplete }

/-! ## `parse_message_imp` -/

/-- The search for CRLFCRLF from `p_header_tail` on, up to `p_body_start`: the
position behind it. -/
def findHeaderEnd (mem : Bytes) (tail bodyStart : Nat) : Option Nat :=
  (findSub crlfcrlf ((mem.take bodyStart).drop tail)).map fun k => tail + k + 4

/-- The bytes to consume after an execution: what the parser consumed, or what the
search makes of it. -/
def headerBytes (o : SrsHttpParser) (b : SrsFastStream) (consumed : Nat) : Int :=
  match o.pHeaderTail, o.pBodyStart with
  | some tail, some bodyStart =>
      if b.p < bodyStart then
        match findHeaderEnd b.data tail bodyStart with
        | some stop => (stop : Int) - b.p
        | none => consumed
      else consumed
  | _, _ => consumed

/-- `read_slice` of the bytes to consume. -/
def consume (o : SrsHttpParser) (b : SrsFastStream) (consumed : Nat) :
    Except SrsError (SrsHttpParser × SrsFastStream) :=
  if o.headerBytes b consumed < 0 then .error .assertFailed
  else
    match b.readSlice (o.headerBytes b consumed).toNat with
    | .error e => .error e
    | .ok (_, b') => .ok (o, b')

/-- One execution of the http-parser on what is buffered. -/
def executeBuffer (o : SrsHttpParser) (b : SrsFastStream) :
    Except SrsError (SrsHttpParser × SrsFastStream) :=
  match o.parser.execute b.unread with
  | .error _ => .error .httpParseHeader
  | .ok x =>
      (x.callbacks.foldl (callback b.p b.size) { o with parser := x.parser }).consume b x.consumed

/-- The loop of `parse_message_imp`, for at most `fuel` turns. -/
def parseLoop : Nat → SrsHttpParser → Source → Option SrsError × SrsHttpParser × Source
  | 0, o, src => (some .assertFailed, o, src)
  | fuel + 1, o, src =>
      let more (o : SrsHttpParser) (src : Source) :=
        match src.grow (src.buffer.size + 1) with
        | (some e, src') => (some e, o, src')
        | (none, src') => parseLoop fuel o src'
      if src.buffer.size = 0 then more o src
      else
        match o.executeBuffer src.buffer with
        | .error e => (some e, o, src)
        | .ok (o', b') =>
            if o'.state.headerDone then (none, o', { src with buffer := b' })
            else more o' { src with buffer := b' }

/-- `parse_message_imp`: the loop, and the field that is still open.  Every turn
reads at least one byte, which bounds their number. -/
def parseMessageImp (o : SrsHttpParser) (src : Source) :
    Option SrsError × SrsHttpParser × Source :=
  match parseLoop (src.unread.length + 2) o src with
  | (none, o', src') =>
      (none,
        if o'.fieldValue = [] then o'
        else { o' with header := o'.header.set o'.fieldName o'.fieldValue },
        src')
  | r => r

/-! ## `parse_message` -/

/-- The message made of a header that has been read. -/
def toMessage (publicAddress : Option Bytes) (o : SrsHttpParser) : Option SrsError × SrsHttpMessage :=
  match o.hpHeader with
  | none => (some .assertFailed, .new)
  | some hp =>
      let m := (SrsHttpMessage.new.setBasic hp.type hp.method hp.statusCode
        (toInt64 hp.contentLength)).setHeader o.header hp.shouldKeepAlive
      match o.type with
      | .response => (none, m.restoreHttpHeader)
      | .request =>
          match m.setUrl publicAddress o.url o.jsonp with
          | (some e, m') => (some e, m')
          | (none, m') => (none, m'.getHostPort.restoreHttpHeader)

/-- What `parse_message` returns. -/
structure Parsed where
  /-- The error, `none` for `srs_success`. -/
  err : Option SrsError
  msg : Option SrsHttpMessage
  parser : SrsHttpParser
  src : Source

/-- `parse_message`. -/
def parseMessage (publicAddress : Option Bytes) (o : SrsHttpParser) (src : Source) : Parsed :=
  match parseMessageImp o.reset src with
  | (some e, o', src') => ⟨some e, none, o', src'⟩
  | (none, o', src') =>
      match toMessage publicAddress o' with
      | (some e, _) => ⟨some e, none, o', src'⟩
      | (none, m) => ⟨none, some m, o', src'⟩

/-! ## The framing of a message -/

/-- The message has a fresh body reader, unless it has no body; and its length is an
`int64_t`. -/
structure Fresh (m : SrsHttpMessage) : Prop where
  body : m.chunked = true ∨ 0 < m.contentLength → m.body = .fresh
  contentLength : m.contentLength < 2 ^ 63

/-- What is done to a message behind its header leaves the framing alone. -/
theorem Fresh.congr {m m' : SrsHttpMessage} (h : Fresh m) (hc : m'.chunked = m.chunked)
    (hl : m'.contentLength = m.contentLength) (hb : m'.body = m.body) : Fresh m' :=
  ⟨by rw [hc, hl, hb]; exact h.body, by rw [hl]; exact h.contentLength⟩

theorem fresh_setHeader (type : HttpParserType) (method : HttpMethod) (status contentLength : Nat)
    (header : SrsHttpHeader) (keepAlive : Bool) :
    Fresh ((SrsHttpMessage.new.setBasic type method status (toInt64 contentLength)).setHeader header
      keepAlive) := by
  constructor
  · intro h
    simp only [SrsHttpMessage.setHeader] at h ⊢
    rw [if_neg]
    · rfl
    · rintro ⟨hc, hl, -⟩
      rcases h with h | h
      · simp [h] at hc
      · rw [hl] at h
        omega
  · have h1 : toInt64 contentLength < 2 ^ 63 := by
      rw [toInt64]
      have := Int.bmod_lt (x := (contentLength : Int)) (m := 2 ^ 64) (by decide)
      omega
    simp only [SrsHttpMessage.setHeader, SrsHttpMessage.setBasic, SrsHttpMessage.new]
    split_ifs
    · exact h1
    · exact atoll_lt _

theorem fresh_setUrl {m m' : SrsHttpMessage} (hm : Fresh m) {pa : Option Bytes} {url : Bytes} {jsonp : Bool}
    {e : Option SrsError} (h : m.setUrl pa url jsonp = (e, m')) : Fresh m' := by
  rw [SrsHttpMessage.setUrl] at h
  simp only at h
  split at h
  · obtain ⟨-, rfl⟩ := Prod.mk.inj h
    exact hm.congr rfl rfl rfl
  split at h
  · obtain ⟨-, rfl⟩ := Prod.mk.inj h
    exact hm.congr rfl rfl rfl
  · split at h
    · obtain ⟨-, rfl⟩ := Prod.mk.inj h
      exact hm.congr rfl rfl rfl
    · split at h
      · obtain ⟨-, rfl⟩ := Prod.mk.inj h
        exact hm.congr rfl rfl rfl
      · obtain ⟨-, rfl⟩ := Prod.mk.inj h
        exact hm.congr rfl rfl rfl

theorem fresh_getHostPort {m : SrsHttpMessage} (hm : Fresh m) : Fresh m.getHostPort := by
  rw [SrsHttpMessage.getHostPort]
  split_ifs
  · exact hm.congr rfl rfl rfl
  · simp only
    split_ifs
    · exact hm
    · exact hm.congr rfl rfl rfl

theorem toMessage_fresh {pa : Option Bytes} {o : SrsHttpParser} {m : SrsHttpMessage}
    (h : toMessage pa o = (none, m)) : Fresh m := by
  rw [toMessage] at h
  split at h
  · simp at h
  · rename_i hp hhp
    have hm := fresh_setHeader hp.type hp.method hp.statusCode hp.contentLength o.header
      hp.shouldKeepAlive
    simp only at h
    split at h
    · obtain ⟨-, rfl⟩ := Prod.mk.inj h
      exact hm.congr rfl rfl rfl
    · split at h
      · simp at h
      · rename_i m' heq
        obtain ⟨-, rfl⟩ := Prod.mk.inj h
        exact (fresh_getHostPort (fresh_setUrl hm heq)).congr rfl rfl rfl

/-- A parsed message starts with a fresh body reader. -/
theorem parseMessage_fresh {pa : Option Bytes} {o : SrsHttpParser} {src : Source} {m : SrsHttpMessage}
    (h : (parseMessage pa o src).msg = some m) : Fresh m := by
  rw [parseMessage] at h
  split at h
  · simp at h
  · split at h
    · simp at h
    · rename_i m' heq
      simp only [Option.some.injEq] at h
      exact h ▸ toMessage_fresh heq

end SrsHttpParser

end HttpProxy
