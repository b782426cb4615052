import HttpProxy.Parser.Basic

/-!
# The embedded http-parser: one byte

The loop of `http_parser_execute` (`src/protocol/srs_protocol_http_stack.cpp`,
lines 1786-3127) as a function of the parser and one byte.  `goto reexecute` is
the call of the function of the state jumped to.  The loops that run ahead over a
field name, a field value or a body do, byte for byte, what the outer loop would
do, so that they need no function of their own; only the moment at which a header
that is too long is noticed differs, and then parsing fails either way.

What a byte makes the loop do besides changing the parser is listed as actions:
`MARK`, `CALLBACK_DATA` and `CALLBACK_NOTIFY`.  There are no actions for the
callbacks that the program does not set (`on_status`, `on_chunk_header`,
`on_chunk_complete`).
-/

namespace HttpProxy

/-- The tokens that are reported piece by piece. -/
inductive Mark
  | url
  | headerField
  | headerValue
  | body
  deriving DecidableEq, Repr

/-- The events that are reported. -/
inductive Notify
  | messageBegin
  /-- The parser as `on_headers_complete` sees it. -/
  | headersComplete (hp : HttpParser)
  | messageComplete
  deriving DecidableEq, Repr

/-- What a byte makes the loop do. -/
inductive Act
  /-- `MARK`. -/
  | mark (k : Mark)
  /-- `CALLBACK_DATA_`, with the number of bytes from the current one on that belong
  to the token. -/
  | data (k : Mark) (extra : Nat)
  /-- `CALLBACK_NOTIFY_`. -/
  | notify (n : Notify)
  deriving DecidableEq, Repr

/-- The outcome of a byte: the parser, the actions, and whether the function
returns in the middle of its input. -/
structure Out where
  parser : HttpParser
  acts : List Act
  exit : Bool
  deriving DecidableEq, Repr

namespace HttpParser

/-- Go on with the next byte. -/
def next (p : HttpParser) (acts : List Act) : Except HttpErrno Out := .ok ⟨p, acts, false⟩

/-- Go on with the next byte, in another state. -/
def goTo (p : HttpParser) (s : State) (acts : List Act) : Except HttpErrno Out :=
  .ok ⟨{ p with state := s }, acts, false⟩

/-- Actions before those of a state jumped to. -/
def after (acts : List Act) : Except HttpErrno Out → Except HttpErrno Out
  | .ok o => .ok { o with acts := acts ++ o.acts }
  | .error e => .error e

/-- `STRICT_CHECK(ch != c)`, and the next state. -/
def expect (p : HttpParser) (ch c : Byte) (s : State) : Except HttpErrno Out :=
  if ch = c then p.goTo s [] else .error .strict

/-! ## The end of a message -/

/-- `http_message_needs_eof`. -/
def messageNeedsEof (p : HttpParser) : Bool :=
  if p.type = .request then false
  else if p.statusCode / 100 = 1 ∨ p.statusCode = 204 ∨ p.statusCode = 304 then false
  else if p.flags.chunked ∨ p.contentLength ≠ ULLONG_MAX then false
  else true

/-- `http_should_keep_alive`. -/
def shouldKeepAlive (p : HttpParser) : Bool :=
  if 0 < p.httpMajor ∧ 0 < p.httpMinor then
    if p.flags.connectionClose then false else !p.messageNeedsEof
  else
    if p.flags.connectionKeepAlive then !p.messageNeedsEof else false

/-- `start_state`. -/
def startState (t : HttpParserType) : State :=
  match t with
  | .request => .startReq
  | .response => .startRes

/-- `NEW_MESSAGE`. -/
def newMessage (p : HttpParser) : State :=
  if p.shouldKeepAlive then startState p.type else .dead

/-- `s_message_done`. -/
def messageDone (p : HttpParser) : Except HttpErrno Out :=
  .ok ⟨{ p with state := p.newMessage }, [.notify .messageComplete], p.upgrade⟩

/-- `s_headers_done`. -/
def headersDone (p : HttpParser) (ch : Byte) : Except HttpErrno Out :=
  if ch ≠ LF then .error .strict
  else
    let p := { p with nread := 0 }
    let hasBody := p.flags.chunked || (0 < p.contentLength && p.contentLength != ULLONG_MAX)
    if p.upgrade && (p.method == .connect || !hasBody) then
      .ok ⟨{ p with state := p.newMessage }, [.notify .messageComplete], true⟩
    else if p.flags.chunked then p.goTo .chunkSizeStart []
    else if p.contentLength = 0 then p.goTo p.newMessage [.notify .messageComplete]
    else if p.contentLength ≠ ULLONG_MAX then p.goTo .bodyIdentity []
    else if !p.messageNeedsEof then p.goTo p.newMessage [.notify .messageComplete]
    else p.goTo .bodyIdentityEof []

/-- Does the connection change its protocol behind the header? -/
def upgradeOf (p : HttpParser) : Bool :=
  if p.flags.upgrade && p.flags.connectionUpgrade then
    p.type == .request || p.statusCode == 101
  else p.method == .connect

/-- `s_headers_almost_done`. -/
def headersAlmostDone (p : HttpParser) (ch : Byte) : Except HttpErrno Out :=
  if ch ≠ LF then .error .strict
  else if p.flags.trailing then p.messageDone
  else if p.flags.chunked && p.flags.contentLength then .error .unexpectedContentLength
  else
    let p := { p with state := .headersDone, upgrade := p.upgradeOf }
    after [.notify (.headersComplete p)] (p.headersDone ch)

/-! ## Field names -/

/-- `s_header_field_start`. -/
def headerFieldStart (p : HttpParser) (ch : Byte) : Except HttpErrno Out :=
  if ch = CR then p.goTo .headersAlmostDone []
  else if ch = LF then p.headersAlmostDone ch
  else
    let c := token ch
    if c = 0 then .error .invalidHeaderToken
    else
      let hs : HeaderState :=
        if c = chr 'c' then .c
        else if c = chr 'p' then .matchingProxyConnection
        else if c = chr 't' then .matchingTransferEncoding
        else if c = chr 'u' then .matchingUpgrade
        else .general
      { p with index := 0, headerState := hs }.goTo .headerField [.mark .headerField]

/-- One letter of a name or value that is compared with a constant: the state when
it is found, when it goes on, and when the letter differs, and the index. -/
def matchStep (word : Bytes) (found matching differs : HeaderState) (index : Nat) (c : Byte) :
    HeaderState × Nat :=
  if word.length < index + 1 ∨ word.getD (index + 1) 0 ≠ c then (differs, index + 1)
  else if index + 1 = word.length - 1 then (found, index + 1)
  else (matching, index + 1)

/-- The letters of a field name, `c` being the lower-case one. -/
def fieldStep (hs : HeaderState) (index : Nat) (c : Byte) : HeaderState × Nat :=
  match hs with
  | .c => (if c = chr 'o' then .co else .general, index + 1)
  | .co => (if c = chr 'n' then .con else .general, index + 1)
  | .con =>
      (if c = chr 'n' then .matchingConnection
       else if c = chr 't' then .matchingContentLength
       else .general, index + 1)
  | .matchingConnection =>
      matchStep (str "connection") .connection .matchingConnection .general index c
  | .matchingProxyConnection =>
      matchStep (str "proxy-connection") .connection .matchingProxyConnection .general index c
  | .matchingContentLength =>
      matchStep (str "content-length") .contentLength .matchingContentLength .general index c
  | .matchingTransferEncoding =>
      matchStep (str "transfer-encoding") .transferEncoding .matchingTransferEncoding .general
        index c
  | .matchingUpgrade => matchStep (str "upgrade") .upgrade .matchingUpgrade .general index c
  | .connection => (.general, index)
  | .contentLength => (.general, index)
  | .transferEncoding => (.general, index)
  | .upgrade => (.general, index)
  | hs => (hs, index)

/-- `s_header_field`. -/
def headerField (p : HttpParser) (ch : Byte) : Except HttpErrno Out :=
  if token ch ≠ 0 then
    let m := fieldStep p.headerState p.index (token ch)
    { p with headerState := m.1, index := m.2 }.next []
  else if ch = chr ':' then p.goTo .headerValueDiscardWs [.data .headerField 0]
  else .error .invalidHeaderToken

/-! ## Field values -/

/-- The option of a `Connection` field that may start with the letter. -/
def connectionOption (c : Byte) (other : HeaderState) : HeaderState :=
  if c = chr 'k' then .matchingConnectionKeepAlive
  else if c = chr 'c' then .matchingConnectionClose
  else if c = chr 'u' then .matchingConnectionUpgrade
  else other

/-- `s_header_value_start`. -/
def headerValueStart (p : HttpParser) (ch : Byte) : Except HttpErrno Out :=
  let c := lower ch
  let p := { p with state := .headerValue, index := 0 }
  let acts : List Act := [.mark .headerValue]
  match p.headerState with
  | .upgrade => { p with flags := { p.flags with upgrade := true }, headerState := .general }.next acts
  | .transferEncoding =>
      let hs := if c = chr 'c' then HeaderState.matchingTransferEncodingChunked else .general
      { p with headerState := hs }.next acts
  | .contentLength =>
      if !isNum ch then .error .invalidContentLength
      else if p.flags.contentLength then .error .unexpectedContentLength
      else
        { p with
          flags := { p.flags with contentLength := true }
          contentLength := (ch - chr '0').toNat
          headerState := .contentLengthNum }.next acts
  | .contentLengthWs => p.next acts
  | .connection =>
      { p with headerState := connectionOption c .matchingConnectionToken }.next acts
  | .matchingConnectionTokenStart => p.next acts
  | _ => { p with headerState := .general }.next acts

/-- The end of a value whose header state has an effect on the flags. -/
def finishFlags (fl : Flags) (hs : HeaderState) : Flags :=
  match hs with
  | .connectionKeepAlive => { fl with connectionKeepAlive := true }
  | .connectionClose => { fl with connectionClose := true }
  | .connectionUpgrade => { fl with connectionUpgrade := true }
  | .transferEncodingChunked => { fl with chunked := true }
  | _ => fl

/-- A digit of a content length. -/
def contentLengthDigit (p : HttpParser) (ch : Byte) : Except HttpErrno HttpParser :=
  if ch = chr ' ' then .ok { p with headerState := .contentLengthWs }
  else if !isNum ch then .error .invalidContentLength
  else if (ULLONG_MAX - 10) / 10 < p.contentLength then .error .invalidContentLength
  else
    .ok { p with
      headerState := .contentLengthNum
      contentLength := p.contentLength * 10 + (ch - chr '0').toNat }

/-- What follows a known option of a `Connection` field. -/
def connectionToken (p : HttpParser) (ch : Byte) : HttpParser :=
  if ch = chr ',' then
    { p with
      flags := finishFlags p.flags p.headerState
      headerState := .matchingConnectionTokenStart
      index := 0 }
  else if ch ≠ chr ' ' then { p with headerState := .matchingConnectionToken }
  else p

/-- The letters of a field value. -/
def valueStep (p : HttpParser) (ch : Byte) : Except HttpErrno HttpParser :=
  let c := lower ch
  let matched (m : HeaderState × Nat) : Except HttpErrno HttpParser :=
    .ok { p with headerState := m.1, index := m.2 }
  match p.headerState with
  | .general => .ok p
  | .connection => .ok p
  | .transferEncoding => .ok p
  | .contentLength => if ch = chr ' ' then .ok p else p.contentLengthDigit ch
  | .contentLengthNum => p.contentLengthDigit ch
  | .contentLengthWs => if ch = chr ' ' then .ok p else .error .invalidContentLength
  | .matchingTransferEncodingChunked =>
      matched (matchStep (str "chunked") .transferEncodingChunked
        .matchingTransferEncodingChunked .general p.index c)
  | .matchingConnectionTokenStart =>
      let other : HeaderState :=
        if token c ≠ 0 then .matchingConnectionToken
        else if c = chr ' ' ∨ c = 9 then .matchingConnectionTokenStart
        else .general
      .ok { p with headerState := connectionOption c other }
  | .matchingConnectionKeepAlive =>
      matched (matchStep (str "keep-alive") .connectionKeepAlive .matchingConnectionKeepAlive
        .matchingConnectionToken p.index c)
  | .matchingConnectionClose =>
      matched (matchStep (str "close") .connectionClose .matchingConnectionClose
        .matchingConnectionToken p.index c)
  | .matchingConnectionUpgrade =>
      matched (matchStep (str "upgrade") .connectionUpgrade .matchingConnectionUpgrade
        .matchingConnectionToken p.index c)
  | .matchingConnectionToken =>
      if ch = chr ',' then .ok { p with headerState := .matchingConnectionTokenStart, index := 0 }
      else .ok p
  | .transferEncodingChunked =>
      .ok (if ch ≠ chr ' ' then { p with headerState := .general } else p)
  | .connectionKeepAlive => .ok (p.connectionToken ch)
  | .connectionClose => .ok (p.connectionToken ch)
  | .connectionUpgrade => .ok (p.connectionToken ch)
  | _ => .ok { p with headerState := .general }

/-- `s_header_almost_done`. -/
def headerAlmostDone (p : HttpParser) (ch : Byte) : Except HttpErrno Out :=
  if ch ≠ LF then .error .lfExpected else p.goTo .headerValueLws []

/-- `s_header_value`. -/
def headerValue (p : HttpParser) (ch : Byte) : Except HttpErrno Out :=
  if ch = CR then p.goTo .headerAlmostDone [.data .headerValue 0]
  else if ch = LF then after [.data .headerValue 0] (p.headerAlmostDone ch)
  else if !isHeaderChar ch then .error .invalidHeaderToken
  else
    match p.valueStep ch with
    | .ok p' => p'.next []
    | .error e => .error e

/-- `s_header_value_lws`. -/
def headerValueLws (p : HttpParser) (ch : Byte) : Except HttpErrno Out :=
  if ch = chr ' ' ∨ ch = 9 then
    -- treat obsolete line folding as space
    let p := if p.headerState = .contentLengthNum then { p with headerState := .contentLengthWs }
      else p
    p.headerValueStart ch
  else
    -- finished the header
    { p with flags := finishFlags p.flags p.headerState, state := .headerFieldStart }.headerFieldStart ch

/-- `s_header_value_discard_ws`. -/
def headerValueDiscardWs (p : HttpParser) (ch : Byte) : Except HttpErrno Out :=
  if ch = chr ' ' ∨ ch = 9 then p.next []
  else if ch = CR then p.goTo .headerValueDiscardWsAlmostDone []
  else if ch = LF then p.goTo .headerValueDiscardLws []
  else p.headerValueStart ch

/-- `s_header_value_discard_lws`. -/
def headerValueDiscardLws (p : HttpParser) (ch : Byte) : Except HttpErrno Out :=
  if ch = chr ' ' ∨ ch = 9 then p.goTo .headerValueDiscardWs []
  else if p.headerState = .contentLength then .error .invalidContentLength
  else
    -- header value was empty
    let p := { p with flags := finishFlags p.flags p.headerState, state := .headerFieldStart }
    after [.mark .headerValue, .data .headerValue 0] (p.headerFieldStart ch)

/-! ## The first line -/

/-- The method a request may have, by its first letter. -/
def firstMethod (ch : Byte) : Option HttpMethod :=
  if ch = chr 'A' then some .acl
  else if ch = chr 'B' then some .bind
  else if ch = chr 'C' then some .connect
  else if ch = chr 'D' then some .delete
  else if ch = chr 'G' then some .get
  else if ch = chr 'H' then some .head
  else if ch = chr 'L' then some .lock
  else if ch = chr 'M' then some .mkcol
  else if ch = chr 'N' then some .notify
  else if ch = chr 'O' then some .options
  else if ch = chr 'P' then some .post
  else if ch = chr 'R' then some .report
  else if ch = chr 'S' then some .subscribe
  else if ch = chr 'T' then some .trace
  else if ch = chr 'U' then some .unlock
  else none

/-- `s_start_req`. -/
def startReq (p : HttpParser) (ch : Byte) : Except HttpErrno Out :=
  if ch = CR ∨ ch = LF then p.next []
  else
    match firstMethod ch with
    | none => .error .invalidMethod
    | some m =>
        { p with flags := .none, contentLength := ULLONG_MAX, method := m, index := 1 }.goTo
          .reqMethod [.notify .messageBegin]

/-- The method another letter turns the method into. -/
def otherMethod (m : HttpMethod) (pos : Nat) (ch : Byte) : Option HttpMethod :=
  match m, pos with
  | .post, 1 =>
      if ch = chr 'U' then some .put
      else if ch = chr 'A' then some .patch
      else if ch = chr 'R' then some .propfind
      else none
  | .put, 2 => if ch = chr 'R' then some .purge else none
  | .connect, 1 => if ch = chr 'H' then some .checkout else none
  | .connect, 2 => if ch = chr 'P' then some .copy else none
  | .mkcol, 1 =>
      if ch = chr 'O' then some .move
      else if ch = chr 'E' then some .merge
      else if ch = chr '-' then some .msearch
      else none
  | .mkcol, 2 => if ch = chr 'A' then some .mkactivity else none
  | .mkcol, 3 => if ch = chr 'A' then some .mkcalendar else none
  | .subscribe, 1 =>
      if ch = chr 'E' then some .search
      else if ch = chr 'O' then some .source
      else none
  | .report, 2 => if ch = chr 'B' then some .rebind else none
  | .propfind, 4 => if ch = chr 'P' then some .proppatch else none
  | .lock, 1 => if ch = chr 'I' then some .link else none
  | .unlock, 2 =>
      if ch = chr 'S' then some .unsubscribe
      else if ch = chr 'B' then some .unbind
      else none
  | .unlock, 3 => if ch = chr 'I' then some .unlink else none
  | _, _ => none

/-- `s_req_method`. -/
def reqMethod (p : HttpParser) (ch : Byte) : Except HttpErrno Out :=
  let matcher := str p.method.str
  let p' := { p with index := p.index + 1 }
  if ch = 0 then .error .invalidMethod
  else if ch = chr ' ' ∧ matcher.length = p.index then p'.goTo .reqSpacesBeforeUrl []
  else if ch = matcher.getD p.index 0 then p'.next []
  else if (chr 'A' ≤ ch ∧ ch ≤ chr 'Z') ∨ ch = chr '-' then
    match otherMethod p.method p.index ch with
    | some m => { p' with method := m }.next []
    | none => .error .invalidMethod
  else .error .invalidMethod

/-- A character of the url: the state after it, or an error. -/
def urlChar (p : HttpParser) (s : State) (ch : Byte) (acts : List Act) : Except HttpErrno Out :=
  if parseUrlChar s ch = .dead then .error .invalidUrl else p.goTo (parseUrlChar s ch) acts

/-- `s_req_spaces_before_url`. -/
def reqSpacesBeforeUrl (p : HttpParser) (ch : Byte) : Except HttpErrno Out :=
  if ch = chr ' ' then p.next []
  else
    p.urlChar (if p.method = .connect then .reqServerStart else .reqSpacesBeforeUrl) ch [.mark .url]

/-- The states of a url that cannot end there. -/
def urlOpen (p : HttpParser) (ch : Byte) : Except HttpErrno Out :=
  if ch = chr ' ' ∨ ch = CR ∨ ch = LF then .error .invalidUrl else p.urlChar p.state ch []

/-- The states of a url that can end there. -/
def urlClosed (p : HttpParser) (ch : Byte) : Except HttpErrno Out :=
  if ch = chr ' ' then p.goTo .reqHttpStart [.data .url 0]
  else if ch = CR ∨ ch = LF then
    { p with httpMajor := 0, httpMinor := 9 }.goTo
      (if ch = CR then .reqLineAlmostDone else .headerFieldStart) [.data .url 0]
  else p.urlChar p.state ch []

/-- `s_req_http_start`. -/
def reqHttpStart (p : HttpParser) (ch : Byte) : Except HttpErrno Out :=
  if ch = chr ' ' then p.next []
  else if ch = chr 'H' then p.goTo .reqHttpH []
  else if ch = chr 'I' ∧ p.method = .source then p.goTo .reqHttpI []
  else .error .invalidConstant

/-- The major version. -/
def versionMajor (p : HttpParser) (ch : Byte) (s : State) : Except HttpErrno Out :=
  if isNum ch then { p with httpMajor := (ch - chr '0').toNat }.goTo s []
  else .error .invalidVersion

/-- The dot of the version. -/
def versionDot (p : HttpParser) (ch : Byte) (s : State) : Except HttpErrno Out :=
  if ch = chr '.' then p.goTo s [] else .error .invalidVersion

/-- The minor version. -/
def versionMinor (p : HttpParser) (ch : Byte) (s : State) : Except HttpErrno Out :=
  if isNum ch then { p with httpMinor := (ch - chr '0').toNat }.goTo s []
  else .error .invalidVersion

/-- `s_req_http_end`. -/
def reqHttpEnd (p : HttpParser) (ch : Byte) : Except HttpErrno Out :=
  if ch = CR then p.goTo .reqLineAlmostDone []
  else if ch = LF then p.goTo .headerFieldStart []
  else .error .invalidVersion

/-- `s_req_line_almost_done`. -/
def reqLineAlmostDone (p : HttpParser) (ch : Byte) : Except HttpErrno Out :=
  if ch ≠ LF then .error .lfExpected else p.goTo .headerFieldStart []

/-- `s_start_res`. -/
def startRes (p : HttpParser) (ch : Byte) : Except HttpErrno Out :=
  if ch = CR ∨ ch = LF then p.next []
  else if ch = chr 'H' then
    { p with flags := .none, contentLength := ULLONG_MAX }.goTo .resH [.notify .messageBegin]
  else .error .invalidConstant

/-- `s_res_http_end`. -/
def resHttpEnd (p : HttpParser) (ch : Byte) : Except HttpErrno Out :=
  if ch = chr ' ' then p.goTo .resFirstStatusCode [] else .error .invalidVersion

/-- `s_res_first_status_code`. -/
def resFirstStatusCode (p : HttpParser) (ch : Byte) : Except HttpErrno Out :=
  if isNum ch then { p with statusCode := (ch - chr '0').toNat }.goTo .resStatusCode []
  else if ch = chr ' ' then p.next []
  else .error .invalidStatus

/-- `s_res_status`. -/
def resStatus (p : HttpParser) (ch : Byte) : Except HttpErrno Out :=
  if ch = CR then p.goTo .resLineAlmostDone []
  else if ch = LF then p.goTo .headerFieldStart []
  else p.next []

/-- `s_res_status_start`. -/
def resStatusStart (p : HttpParser) (ch : Byte) : Except HttpErrno Out :=
  let p := { p with state := .resStatus, index := 0 }
  if ch = CR ∨ ch = LF then p.resStatus ch else p.next []

/-- `s_res_status_code`. -/
def resStatusCode (p : HttpParser) (ch : Byte) : Except HttpErrno Out :=
  if isNum ch then
    let code := p.statusCode * 10 + (ch - chr '0').toNat
    if 999 < code then .error .invalidStatus else { p with statusCode := code }.next []
  else if ch = chr ' ' then p.goTo .resStatusStart []
  else if ch = CR ∨ ch = LF then { p with state := .resStatusStart }.resStatusStart ch
  else .error .invalidStatus

/-! ## The body -/

/-- `s_body_identity`. -/
def bodyIdentity (p : HttpParser) : Except HttpErrno Out :=
  let p := { p with contentLength := p.contentLength - 1 }
  if p.contentLength = 0 then
    after [.mark .body, .data .body 1] { p with state := .messageDone }.messageDone
  else p.next [.mark .body]

/-- `s_chunk_size_start`. -/
def chunkSizeStart (p : HttpParser) (ch : Byte) : Except HttpErrno Out :=
  match unhex ch with
  | none => .error .invalidChunkSize
  | some d => { p with contentLength := d }.goTo .chunkSize []

/-- `s_chunk_size`. -/
def chunkSize (p : HttpParser) (ch : Byte) : Except HttpErrno Out :=
  if ch = CR then p.goTo .chunkSizeAlmostDone []
  else
    match unhex ch with
    | none => if ch = chr ';' ∨ ch = chr ' ' then p.goTo .chunkParameters [] else .error .invalidChunkSize
    | some d =>
        if (ULLONG_MAX - 16) / 16 < p.contentLength then .error .invalidContentLength
        else { p with contentLength := p.contentLength * 16 + d }.next []

/-- `s_chunk_parameters`. -/
def chunkParameters (p : HttpParser) (ch : Byte) : Except HttpErrno Out :=
  if ch = CR then p.goTo .chunkSizeAlmostDone [] else p.next []

/-- `s_chunk_size_almost_done`. -/
def chunkSizeAlmostDone (p : HttpParser) (ch : Byte) : Except HttpErrno Out :=
  if ch ≠ LF then .error .strict
  else if p.contentLength = 0 then
    { p with nread := 0, flags := { p.flags with trailing := true } }.goTo .headerFieldStart []
  else { p with nread := 0 }.goTo .chunkData []

/-- `s_chunk_data`. -/
def chunkData (p : HttpParser) : Except HttpErrno Out :=
  let p := { p with contentLength := p.contentLength - 1 }
  if p.contentLength = 0 then p.goTo .chunkDataAlmostDone [.mark .body] else p.next [.mark .body]

/-- `s_chunk_data_almost_done`. -/
def chunkDataAlmostDone (p : HttpParser) (ch : Byte) : Except HttpErrno Out :=
  if ch ≠ CR then .error .strict else p.goTo .chunkDataDone [.data .body 0]

/-- `s_chunk_data_done`. -/
def chunkDataDone (p : HttpParser) (ch : Byte) : Except HttpErrno Out :=
  if ch ≠ LF then .error .strict else { p with nread := 0 }.goTo .chunkSizeStart []

/-! ## The loop body -/

/-- `s_dead`. -/
def dead (p : HttpParser) (ch : Byte) : Except HttpErrno Out :=
  if ch = CR ∨ ch = LF then p.next [] else .error .closedConnection

/-- The `switch` over the states. -/
def dispatch (p : HttpParser) (ch : Byte) : Except HttpErrno Out :=
  match p.state with
  | .dead => p.dead ch
  | .startRes => p.startRes ch
  | .resH => p.expect ch (chr 'T') .resHT
  | .resHT => p.expect ch (chr 'T') .resHTT
  | .resHTT => p.expect ch (chr 'P') .resHTTP
  | .resHTTP => p.expect ch (chr '/') .resHttpMajor
  | .resHttpMajor => p.versionMajor ch .resHttpDot
  | .resHttpDot => p.versionDot ch .resHttpMinor
  | .resHttpMinor => p.versionMinor ch .resHttpEnd
  | .resHttpEnd => p.resHttpEnd ch
  | .resFirstStatusCode => p.resFirstStatusCode ch
  | .resStatusCode => p.resStatusCode ch
  | .resStatusStart => p.resStatusStart ch
  | .resStatus => p.resStatus ch
  | .resLineAlmostDone => p.expect ch LF .headerFieldStart
  | .startReq => p.startReq ch
  | .reqMethod => p.reqMethod ch
  | .reqSpacesBeforeUrl => p.reqSpacesBeforeUrl ch
  | .reqSchema | .reqSchemaSlash | .reqSchemaSlashSlash | .reqServerStart => p.urlOpen ch
  | .reqServer | .reqServerWithAt | .reqPath | .reqQueryStringStart | .reqQueryString
  | .reqFragmentStart | .reqFragment => p.urlClosed ch
  | .reqHttpStart => p.reqHttpStart ch
  | .reqHttpH => p.expect ch (chr 'T') .reqHttpHT
  | .reqHttpHT => p.expect ch (chr 'T') .reqHttpHTT
  | .reqHttpHTT => p.expect ch (chr 'P') .reqHttpHTTP
  | .reqHttpI => p.expect ch (chr 'C') .reqHttpIC
  | .reqHttpIC => p.expect ch (chr 'E') .reqHttpHTTP
  | .reqHttpHTTP => p.expect ch (chr '/') .reqHttpMajor
  | .reqHttpMajor => p.versionMajor ch .reqHttpDot
  | .reqHttpDot => p.versionDot ch .reqHttpMinor
  | .reqHttpMinor => p.versionMinor ch .reqHttpEnd
  | .reqHttpEnd => p.reqHttpEnd ch
  | .reqLineAlmostDone => p.reqLineAlmostDone ch
  | .headerFieldStart => p.headerFieldStart ch
  | .headerField => p.headerField ch
  | .headerValueDiscardWs => p.headerValueDiscardWs ch
  | .headerValueDiscardWsAlmostDone => p.expect ch LF .headerValueDiscardLws
  | .headerValueDiscardLws => p.headerValueDiscardLws ch
  | .headerValueStart => p.headerValueStart ch
  | .headerValue => p.headerValue ch
  | .headerValueLws => p.headerValueLws ch
  | .headerAlmostDone => p.headerAlmostDone ch
  | .chunkSizeStart => p.chunkSizeStart ch
  | .chunkSize => p.chunkSize ch
  | .chunkParameters => p.chunkParameters ch
  | .chunkSizeAlmostDone => p.chunkSizeAlmostDone ch
  | .headersAlmostDone => p.headersAlmostDone ch
  | .headersDone => p.headersDone ch
  | .chunkData => p.chunkData
  | .chunkDataAlmostDone => p.chunkDataAlmostDone ch
  | .chunkDataDone => p.chunkDataDone ch
  | .bodyIdentity => p.bodyIdentity
  | .bodyIdentityEof => p.next [.mark .body]
  | .messageDone => p.messageDone

/-- One turn of the loop: count the byte if it belongs to a header, then go to the
state. -/
def stepByte (p : HttpParser) (ch : Byte) : Except HttpErrno Out :=
  if p.state.parsingHeader then
    if HTTP_MAX_HEADER_SIZE < p.nread + 1 then .error .headerOverflow
    else { p with nread := p.nread + 1 }.dispatch ch
  else p.dispatch ch

end HttpParser

end HttpProxy
