import HttpProxy.Bytes.CLib

/-!
# The embedded http-parser: data

`src/protocol/srs_protocol_http_stack.cpp`, lines 1096-1560, and the declarations
in the header file: the states, the character classes and the parser object.

The parser is compiled in strict mode and used for requests or for responses,
never for both at once, so the two states that find out which of them a message
is are left out.  No callback ever asks to skip a body, so there is no flag for
that either.
-/

namespace HttpProxy

/-- The byte of an ASCII character. -/
def chr (c : Char) : Byte := UInt8.ofNat c.toNat

/-- `enum http_parser_type`. -/
inductive HttpParserType
  | request
  | response
  deriving DecidableEq, Repr

/-- `enum http_method`. -/
inductive HttpMethod
  | delete | get | head | post | put | connect | options | trace
  | copy | lock | mkcol | move | propfind | proppatch | search | unlock
  | bind | rebind | unbind | acl
  | report | mkactivity | checkout | merge
  | msearch | notify | subscribe | unsubscribe
  | patch | purge | mkcalendar | link | unlink | source
  deriving DecidableEq, Repr

/-- `method_strings`. -/
def HttpMethod.str : HttpMethod → String
  | .delete => "DELETE" | .get => "GET" | .head => "HEAD" | .post => "POST" | .put => "PUT"
  | .connect => "CONNECT" | .options => "OPTIONS" | .trace => "TRACE"
  | .copy => "COPY" | .lock => "LOCK" | .mkcol => "MKCOL" | .move => "MOVE"
  | .propfind => "PROPFIND" | .proppatch => "PROPPATCH" | .search => "SEARCH"
  | .unlock => "UNLOCK" | .bind => "BIND" | .rebind => "REBIND" | .unbind => "UNBIND"
  | .acl => "ACL" | .report => "REPORT" | .mkactivity => "MKACTIVITY"
  | .checkout => "CHECKOUT" | .merge => "MERGE" | .msearch => "M-SEARCH" | .notify => "NOTIFY"
  | .subscribe => "SUBSCRIBE" | .unsubscribe => "UNSUBSCRIBE" | .patch => "PATCH"
  | .purge => "PURGE" | .mkcalendar => "MKCALENDAR" | .link => "LINK" | .unlink => "UNLINK"
  | .source => "SOURCE"

/-- `enum http_errno`, the parsing-related errors. -/
inductive HttpErrno
  | invalidEofState
  | headerOverflow
  | closedConnection
  | invalidVersion
  | invalidStatus
  | invalidMethod
  | invalidUrl
  | lfExpected
  | invalidHeaderToken
  | invalidContentLength
  | unexpectedContentLength
  | invalidChunkSize
  | invalidConstant
  | strict
  deriving DecidableEq, Repr

/-- `enum state`. -/
inductive State
  | dead
  | startRes | resH | resHT | resHTT | resHTTP | resHttpMajor | resHttpDot | resHttpMinor
  | resHttpEnd | resFirstStatusCode | resStatusCode | resStatusStart | resStatus
  | resLineAlmostDone
  | startReq | reqMethod | reqSpacesBeforeUrl | reqSchema | reqSchemaSlash | reqSchemaSlashSlash
  | reqServerStart | reqServer | reqServerWithAt | reqPath | reqQueryStringStart | reqQueryString
  | reqFragmentStart | reqFragment
  | reqHttpStart | reqHttpH | reqHttpHT | reqHttpHTT | reqHttpHTTP | reqHttpI | reqHttpIC
  | reqHttpMajor | reqHttpDot | reqHttpMinor | reqHttpEnd | reqLineAlmostDone
  | headerFieldStart | headerField | headerValueDiscardWs | headerValueDiscardWsAlmostDone
  | headerValueDiscardLws | headerValueStart | headerValue | headerValueLws | headerAlmostDone
  | chunkSizeStart | chunkSize | chunkParameters | chunkSizeAlmostDone
  | headersAlmostDone | headersDone
  | chunkData | chunkDataAlmostDone | chunkDataDone
  | bodyIdentity | bodyIdentityEof
  | messageDone
  deriving DecidableEq, Repr

/-- `PARSING_HEADER`: all states up to `s_headers_done`. -/
def State.parsingHeader : State → Bool
  | .chunkData | .chunkDataAlmostDone | .chunkDataDone | .bodyIdentity | .bodyIdentityEof
  | .messageDone => false
  | _ => true

/-- `enum header_states`. -/
inductive HeaderState
  | general | c | co | con
  | matchingConnection | matchingProxyConnection | matchingContentLength
  | matchingTransferEncoding | matchingUpgrade
  | connection | contentLength | contentLengthNum | contentLengthWs | transferEncoding | upgrade
  | matchingTransferEncodingChunked
  | matchingConnectionTokenStart | matchingConnectionKeepAlive | matchingConnectionClose
  | matchingConnectionUpgrade | matchingConnectionToken
  | transferEncodingChunked | connectionKeepAlive | connectionClose | connectionUpgrade
  deriving DecidableEq, Repr

/-- `enum flags`. -/
structure Flags where
  chunked : Bool
  connectionKeepAlive : Bool
  connectionClose : Bool
  connectionUpgrade : Bool
  trailing : Bool
  upgrade : Bool
  contentLength : Bool
  deriving DecidableEq, Repr

/-- No flag set. -/
def Flags.none : Flags := ⟨false, false, false, false, false, false, false⟩

/-- `ULLONG_MAX`, the content length of a message that has none. -/
def ULLONG_MAX : Nat := 2 ^ 64 - 1

/-- `HTTP_MAX_HEADER_SIZE`. -/
def HTTP_MAX_HEADER_SIZE : Nat := 80 * 1024

/-- `struct http_parser`. -/
structure HttpParser where
  type : HttpParserType
  flags : Flags
  state : State
  headerState : HeaderState
  /-- Index into current matcher. -/
  index : Nat
  /-- The number of bytes read in various scenarios. -/
  nread : Nat
  contentLength : Nat
  httpMajor : Nat
  httpMinor : Nat
  statusCode : Nat
  method : HttpMethod
  /-- The rest of the connection is in a different protocol. -/
  upgrade : Bool
  deriving DecidableEq, Repr

/-! ## Character classes -/

/-- `LOWER`. -/
def lower (b : Byte) : Byte := b ||| 0x20

/-- `IS_ALPHA`. -/
def isAlpha (b : Byte) : Bool := chr 'a' ≤ lower b && lower b ≤ chr 'z'

/-- `IS_NUM`. -/
def isNum (b : Byte) : Bool := chr '0' ≤ b && b ≤ chr '9'

/-- `IS_ALPHANUM`. -/
def isAlphanum (b : Byte) : Bool := isAlpha b || isNum b

/-- `IS_MARK`. -/
def isMark (b : Byte) : Bool := (str "-_.!~*'()").contains b

/-- `IS_USERINFO_CHAR`. -/
def isUserinfoChar (b : Byte) : Bool := isAlphanum b || isMark b || (str "%;:&=+$,").contains b

/-- `TOKEN`: the lower-case form of a token character, 0 for any other. -/
def token (b : Byte) : Byte :=
  if chr 'A' ≤ b && b ≤ chr 'Z' then b + 32
  else if (chr 'a' ≤ b && b ≤ chr 'z') || isNum b || (str "!#$%&'*+-.^_\x60|~").contains b then b
  else 0

/-- `IS_URL_CHAR`. -/
def isUrlChar (b : Byte) : Bool := 33 ≤ b && b ≤ 126 && b != chr '#' && b != chr '?'

/-- `IS_HEADER_CHAR`. -/
def isHeaderChar (b : Byte) : Bool := b == CR || b == LF || b == 9 || (31 < b && b != 127)

/-- `unhex`. -/
def unhex (b : Byte) : Option Nat := if isXDigit b then digitVal b else none

/-- The cases of `parse_url_char` for the authority of a url. -/
def parseServerChar (ch : Byte) : State :=
  if ch = chr '/' then .reqPath
  else if ch = chr '?' then .reqQueryStringStart
  else if ch = chr '@' then .reqServerWithAt
  else if isUserinfoChar ch ∨ ch = chr '[' ∨ ch = chr ']' then .reqServer
  else .dead

/-- The cases of `parse_url_char` for a query string. -/
def parseQueryChar (ch : Byte) : State :=
  if isUrlChar ch then .reqQueryString
  else if ch = chr '?' then .reqQueryString
  else if ch = chr '#' then .reqFragmentStart
  else .dead

/-- `parse_url_char`; `dead` is the error. -/
def parseUrlChar (s : State) (ch : Byte) : State :=
  if ch = chr ' ' ∨ ch = CR ∨ ch = LF ∨ ch = 9 ∨ ch = 12 then .dead
  else
    match s with
    | .reqSpacesBeforeUrl =>
        if ch = chr '/' ∨ ch = chr '*' then .reqPath
        else if isAlpha ch then .reqSchema
        else .dead
    | .reqSchema =>
        if isAlpha ch then .reqSchema
        else if ch = chr ':' then .reqSchemaSlash
        else .dead
    | .reqSchemaSlash => if ch = chr '/' then .reqSchemaSlashSlash else .dead
    | .reqSchemaSlashSlash => if ch = chr '/' then .reqServerStart else .dead
    | .reqServerWithAt => if ch = chr '@' then .dead else parseServerChar ch
    | .reqServerStart => parseServerChar ch
    | .reqServer => parseServerChar ch
    | .reqPath =>
        if isUrlChar ch then .reqPath
        else if ch = chr '?' then .reqQueryStringStart
        else if ch = chr '#' then .reqFragmentStart
        else .dead
    | .reqQueryStringStart => parseQueryChar ch
    | .reqQueryString => parseQueryChar ch
    | .reqFragmentStart =>
        if isUrlChar ch then .reqFragment
        else if ch = chr '?' then .reqFragment
        else if ch = chr '#' then .reqFragmentStart
        else .dead
    | .reqFragment =>
        if isUrlChar ch then .reqFragment
        else if ch = chr '?' ∨ ch = chr '#' then .reqFragment
        else .dead
    | _ => .dead

end HttpProxy
