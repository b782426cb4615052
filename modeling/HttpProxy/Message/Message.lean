import HttpProxy.Body.Reader
import HttpProxy.Message.Status
import HttpProxy.Message.Uri

/-!
# `SrsHttpMessage`: a parsed message

`src/protocol/srs_protocol_http_conn.cpp`, lines 489-909: what `parse_message`
makes of the header it has read.  The body reader takes its framing from the
message: whether it is chunked, and the content length.
-/

namespace HttpProxy

/-- A message, without the body that is still to be read. -/
structure SrsHttpMessage where
  type : HttpParserType
  method : HttpMethod
  status : Nat
  /-- -1 means infinity chunked mode. -/
  contentLength : Int
  keepAlive : Bool
  chunked : Bool
  header : SrsHttpHeader
  url : Bytes
  ext : Bytes
  uri : SrsHttpUri
  query : OrdMap Bytes Bytes
  jsonp : Bool
  /-- The method in QueryString will override the HTTP method. -/
  jsonpMethod : Bytes
  hostNoPort : Bytes
  /-- The constructor leaves the port unset; 0 stands for whatever is there. -/
  destPort : Int
  rawHeader : Bytes
  /-- The body reader. -/
  body : SrsHttpResponseReader
  deriving DecidableEq

namespace SrsHttpMessage

/-- The constructor. -/
def new : SrsHttpMessage :=
  ⟨.request, .get, 200, -1, true, false, .empty, [], [], .empty, .empty, false, [], [], 0, [],
    .fresh⟩

/-- `set_basic`. -/
def setBasic (m : SrsHttpMessage) (type : HttpParserType) (method : HttpMethod) (status : Nat)
    (contentLength : Int) : SrsHttpMessage :=
  { m with
    type := type
    method := method
    status := status
    contentLength := if m.contentLength = -1 then contentLength else m.contentLength }

/-- `set_header`. -/
def setHeader (m : SrsHttpMessage) (header : SrsHttpHeader) (keepAlive : Bool) : SrsHttpMessage :=
  let chunked := decide (header.get (str "Transfer-Encoding") = str "chunked")
  let clv := header.get (str "Content-Length")
  let contentLength := if clv = [] then m.contentLength else atoll clv
  { m with
    header := header
    keepAlive := keepAlive
    chunked := chunked
    contentLength := contentLength
    body :=
      -- The infinite chunked is only enabled for a response, so close the body of a request.
      if !chunked ∧ contentLength = -1 ∧ m.type = .request then { m.body with isEof := true }
      else m.body }

/-- `query_get`. -/
def queryGet (m : SrsHttpMessage) (key : Bytes) : Bytes := (m.query.find? key).getD []

/-- `host()`: the host of the url, unless the query names another. -/
def host (m : SrsHttpMessage) : Bytes :=
  if m.queryGet (str "vhost") ≠ [] then m.queryGet (str "vhost")
  else if m.queryGet (str "domain") ≠ [] then m.queryGet (str "domain")
  else m.uri.host

/-- `path`. -/
def path (m : SrsHttpMessage) : Bytes := m.uri.path

/-- `query()`, the text of the query. -/
def queryText (m : SrsHttpMessage) : Bytes := m.uri.query

/-- `is_http_connect`. -/
def isHttpConnect (m : SrsHttpMessage) : Bool := m.method == .connect

/-- Neither the url nor the header names a host: `srs_get_public_internet_address` is called. -/
def asksAddress (m : SrsHttpMessage) (url : Bytes) : Bool :=
  !srsStringContains url (str "://") && decide (m.header.get (str "Host") = [])

/-- The url `set_url` parses: with the host in front, when it is only a path.
`publicAddress` is what `srs_get_public_internet_address` returns, for a request without a host. -/
def absoluteUrl (publicAddress : Option Bytes) (m : SrsHttpMessage) (url : Bytes) : Bytes :=
  if srsStringContains url (str "://") then url
  else
    let host := m.header.get (str "Host")
    let host := if host = [] then publicAddress.getD [] else host
    if host = [] then url else str "http://" ++ host ++ url

/-- `set_url`.  The body of `srs_get_public_internet_address` is empty, so what a call does is
undefined: `publicAddress` is a text that it happens to return, and `none` if the program does not come
back from it. -/
def setUrl (publicAddress : Option Bytes) (m : SrsHttpMessage) (url : Bytes) (allowJsonp : Bool) :
    Option SrsError × SrsHttpMessage :=
  let m := { m with url := url }
  if m.isHttpConnect then (none, m)
  else if m.asksAddress url && publicAddress.isNone then (some .noReturn, m)
  else
    match m.uri.initializeFrom (m.absoluteUrl publicAddress url) with
    | (some e, uri) => (some e, { m with uri := uri })
    | (none, uri) =>
        let m := { m with
          uri := uri
          ext := srsPathFilext uri.path
          query := srsParseQueryString uri.query m.query }
        if allowJsonp then
          let jsonp := m.jsonp || decide (m.queryGet (str "callback") ≠ [])
          (none, { m with
            jsonp := jsonp
            jsonpMethod := if jsonp then m.queryGet (str "method") else m.jsonpMethod })
        else (none, m)

/-- The host and port in a text, with the port that stands for none. -/
def hostPort (text : Bytes) (defaultPort : Int) : Bytes × Int :=
  match srsStringSplit text (str ":") with
  | [] => ([], defaultPort)
  | [host] => (host, defaultPort)
  | host :: port :: _ => (host, atoi port)

/-- `get_host_port`. -/
def getHostPort (m : SrsHttpMessage) : SrsHttpMessage :=
  if m.isHttpConnect then
    { m with hostNoPort := (hostPort m.url 443).1, destPort := (hostPort m.url 443).2 }
  else
    let host := m.header.get (str "Host")
    if host = [] then m
    else { m with hostNoPort := (hostPort host 80).1, destPort := (hostPort host 80).2 }

/-- The methods that are written to a restored header; the others are left out. -/
def restoredMethod : HttpMethod → Bytes
  | .get => str "GET"
  | .post => str "POST"
  | .put => str "PUT"
  | .delete => str "DELETE"
  | .options => str "OPTIONS"
  | .connect => str "CONNECT"
  | _ => []

/-- `restore_http_header`. -/
def restoreHttpHeader (m : SrsHttpMessage) : SrsHttpMessage :=
  let first := match m.type with
    | .request => restoredMethod m.method ++ str " " ++ m.url ++ str " HTTP/1.1" ++ crlf
    | .response =>
        str "HTTP/1.1 " ++ SrsHttpHeader.decimal m.status ++ str " " ++
          srsGenerateHttpStatusText m.status ++ crlf
  { m with rawHeader := first ++ m.header.write ++ crlf }

/-- `get_dest_domain`. -/
def getDestDomain (m : SrsHttpMessage) : Bytes := m.hostNoPort

/-- `get_dest_port`. -/
def getDestPort (m : SrsHttpMessage) : Int := m.destPort

/-- What the body reader asks of the message. -/
def framing (m : SrsHttpMessage) : BodyFraming := ⟨m.chunked, m.contentLength⟩

end SrsHttpMessage

end HttpProxy
