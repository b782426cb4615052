import HttpProxy.Parser.Basic
import HttpProxy.Data.OrdMap
import HttpProxy.Message.Header
import HttpProxy.Stream.Socket

/-!
# Strings and URLs

The string helpers of `src/kernel/srs_kernel_utility.cpp`, the url parser of the
embedded http-parser (`http_parser_parse_url`, `http_parse_host`) and
`SrsHttpUri`.
-/

namespace HttpProxy

/-! ## Strings -/

/-- `str.find(flag) != npos`. -/
def srsStringContains (s flag : Bytes) : Bool := (findSub flag s).isSome

/-- The loop of `srs_string_split`, for at most `fuel` pieces. -/
def splitLoop (sep : Bytes) : Nat → Bytes → List Bytes
  | 0, s => [s]
  | fuel + 1, s =>
      match findSub sep s with
      | some k => s.take k :: splitLoop sep fuel (s.drop (k + sep.length))
      | none => [s]

/-- `srs_string_split(s, seperator)`.  Every separator is a byte of `s` at least, so
that its length bounds the turns of the loop. -/
def srsStringSplit (s sep : Bytes) : List Bytes :=
  if sep = [] then [s] else splitLoop sep s.length s

/-- One turn of `srs_string_min_match`: a separator that occurs before the best one takes its place. -/
def minMatchTurn (s : Bytes) (best : Option (Nat × Bytes)) (sep : Bytes) : Option (Nat × Bytes) :=
  match findSub sep s, best with
  | none, _ => best
  | some k, none => some (k, sep)
  | some k, some (k', _) => if k < k' then some (k, sep) else best

/-- `srs_string_min_match`: of the separators that occur, the one that occurs first;
of two that occur at the same place, the one listed first. -/
def srsStringMinMatch (s : Bytes) (seps : List Bytes) : Option (Nat × Bytes) :=
  seps.foldl (minMatchTurn s) none

/-- The loop of `srs_string_split` over several separators. -/
def splitAnyLoop (seps : List Bytes) : Nat → Bytes → List Bytes
  | 0, s => if s = [] then [] else [s]
  | fuel + 1, s =>
      match srsStringMinMatch s seps with
      | some (k, sep) => s.take k :: splitAnyLoop seps fuel (s.drop (k + sep.length))
      | none => if s = [] then [] else [s]

/-- `srs_string_split(str, seperators)`. -/
def srsStringSplitAny (s : Bytes) (seps : List Bytes) : List Bytes := splitAnyLoop seps s.length s

/-- The loop of `srs_string_replace`. -/
def replaceLoop (old new : Bytes) : Nat → Bytes → Bytes
  | 0, s => s
  | fuel + 1, s =>
      match findSub old s with
      | some k => s.take k ++ new ++ replaceLoop old new fuel (s.drop (k + old.length))
      | none => s

/-- `srs_string_replace`. -/
def srsStringReplace (s old new : Bytes) : Bytes :=
  if old = new then s else replaceLoop old new s.length s

/-- `srs_path_filext`: the text from the last dot on. -/
def srsPathFilext (path : Bytes) : Bytes :=
  if path.contains (chr '.') then
    chr '.' :: (path.reverse.takeWhile fun b => b != chr '.').reverse
  else []

/-- The pairs of a list, the last one with an empty value if it is alone. -/
def pairUp : List Bytes → List (Bytes × Bytes)
  | [] => []
  | [k] => [(k, [])]
  | k :: v :: rest => (k, v) :: pairUp rest

/-- The query string flags. -/
def queryFlags : List Bytes := [str "=", str ",", str "&&", str "&", str ";"]

/-- The assignments `query[k] = v` that `srs_parse_query_string` makes.  It counts the
pieces of the text with an `int`. -/
def queryAssignments (q : Bytes) : List (Bytes × Bytes) :=
  pairUp (intLoop (srsStringSplitAny q queryFlags))

/-- `srs_parse_query_string`. -/
def srsParseQueryString (q : Bytes) (query : OrdMap Bytes Bytes) : OrdMap Bytes Bytes :=
  (queryAssignments q).foldl (fun m kv => m.insert kv.1 kv.2) query

/-! ## The url parser -/

/-- `enum http_parser_url_fields`. -/
inductive UrlField
  | schema | host | port | path | query | fragment | userinfo
  deriving DecidableEq, Repr

/-- `struct http_parser_url`: the fields that are set, with offset and length as
16-bit numbers. -/
abbrev HttpParserUrl := UrlField → Option (Nat × Nat)

namespace HttpParserUrl

/-- A field begins at an offset. -/
def begin (u : HttpParserUrl) (f : UrlField) (off len : Nat) : HttpParserUrl :=
  fun g => if g = f then some (off % 2 ^ 16, len) else u g

/-- One more byte of a field. -/
def extend (u : HttpParserUrl) (f : UrlField) : HttpParserUrl :=
  fun g => if g = f then (u f).map fun x => (x.1, (x.2 + 1) % 2 ^ 16) else u g

end HttpParserUrl

/-- The field a state of the url belongs to; the others are delimiters. -/
def urlFieldOf : State → Option UrlField
  | .reqSchema => some .schema
  | .reqServer | .reqServerWithAt => some .host
  | .reqPath => some .path
  | .reqQueryString => some .query
  | .reqFragment => some .fragment
  | _ => none

/-- The loop of `http_parser_parse_url`; `none` is an error.  The result has the
fields and whether an `@` was seen. -/
def parseUrlLoop : State → Option UrlField → Nat → HttpParserUrl → Bool → Bytes →
    Option (HttpParserUrl × Bool)
  | _, _, _, u, foundAt, [] => some (u, foundAt)
  | s, old, off, u, foundAt, ch :: rest =>
      let s' := parseUrlChar s ch
      let foundAt' := foundAt || s' == .reqServerWithAt
      if s' = .dead then none
      else
        match urlFieldOf s' with
        | none => parseUrlLoop s' old (off + 1) u foundAt' rest
        | some f =>
            parseUrlLoop s' (some f) (off + 1)
              (if old = some f then u.extend f else u.begin f off 1) foundAt' rest

/-- `enum http_host_state`. -/
inductive HostState
  | dead | userinfoStart | userinfo | hostStart | v6Start | host | v6 | v6End | v6ZoneStart
  | v6Zone | portStart | port
  deriving DecidableEq, Repr

/-- `IS_HOST_CHAR`. -/
def isHostChar (b : Byte) : Bool := isAlphanum b || b == chr '.' || b == chr '-'

/-- `http_parse_host_char`. -/
def httpParseHostChar (s : HostState) (ch : Byte) : HostState :=
  let portSep : HostState := if ch = chr ':' then .portStart else .dead
  let v6Char : HostState := if isXDigit ch || ch == chr ':' || ch == chr '.' then .v6 else .dead
  let zoneChar : HostState :=
    if isAlphanum ch || (str "%.-_~").contains ch then .v6Zone else .dead
  match s with
  | .userinfo | .userinfoStart =>
      if ch = chr '@' then .hostStart else if isUserinfoChar ch then .userinfo else .dead
  | .hostStart => if ch = chr '[' then .v6Start else if isHostChar ch then .host else .dead
  | .host => if isHostChar ch then .host else portSep
  | .v6End => portSep
  | .v6 =>
      if ch = chr ']' then .v6End
      else if v6Char = .v6 then .v6
      else if ch = chr '%' then .v6ZoneStart
      else .dead
  | .v6Start => v6Char
  | .v6Zone => if ch = chr ']' then .v6End else zoneChar
  | .v6ZoneStart => zoneChar
  | .port | .portStart => if isNum ch then .port else .dead
  | .dead => .dead

/-- A field of the authority goes on, or begins when the state changes. -/
def hostField (u : HttpParserUrl) (f : UrlField) (same : Bool) (off len : Nat) : HttpParserUrl :=
  if same then u.extend f else u.begin f off len

/-- The loop of `http_parse_host`, from offset `off` on; `none` is an error. -/
def parseHostLoop : HostState → Nat → HttpParserUrl → Bytes → Option (HostState × HttpParserUrl)
  | s, _, u, [] => some (s, u)
  | s, off, u, ch :: rest =>
      let s' := httpParseHostChar s ch
      let hostLen := ((u .host).map Prod.snd).getD 0
      match s' with
      | .dead => none
      | .host => parseHostLoop s' (off + 1) (hostField u .host (s == .host) off (hostLen + 1)) rest
      | .v6 => parseHostLoop s' (off + 1) (hostField u .host (s == .v6) off (hostLen + 1)) rest
      | .v6ZoneStart | .v6Zone => parseHostLoop s' (off + 1) (u.extend .host) rest
      | .port => parseHostLoop s' (off + 1) (hostField u .port (s == .port) off 1) rest
      | .userinfo => parseHostLoop s' (off + 1) (hostField u .userinfo (s == .userinfo) off 1) rest
      | _ => parseHostLoop s' (off + 1) u rest

/-- The states in which the authority may not end. -/
def HostState.unfinished : HostState → Bool
  | .hostStart | .v6Start | .v6 | .v6ZoneStart | .v6Zone | .portStart | .userinfo
  | .userinfoStart => true
  | _ => false

/-- `http_parse_host`. -/
def httpParseHost (buf : Bytes) (u : HttpParserUrl) (off len : Nat) (foundAt : Bool) :
    Option HttpParserUrl :=
  match parseHostLoop (if foundAt then .userinfoStart else .hostStart) off (u.begin .host off 0)
      ((buf.drop off).take len) with
  | none => none
  | some (s, u') => if s.unfinished then none else some u'

/-- `get_uri_field`. -/
def getUriField (uri : Bytes) (u : HttpParserUrl) (f : UrlField) : Bytes :=
  match u f with
  | none => []
  | some (off, len) => (uri.drop off).take len

/-- The value of a `char`, which is signed. -/
def charValue (ch : Byte) : Int := if ch < 128 then ch.toNat else (ch.toNat : Int) - 256

/-- The loop over the text of the port, with the value so far as an `unsigned long`; `none` is
an error.  What is no digit is taken for one. -/
def portLoop : Nat → Bytes → Option Nat
  | v, [] => some v
  | v, ch :: rest =>
      let v' := toSize (v * 10 + (charValue ch - charValue (chr '0')))
      if 0xffff < v' then none else portLoop v' rest

/-- `http_parser_parse_url`, with `is_connect` 0; `none` is an error. -/
def httpParserParseUrl (buf : Bytes) : Option HttpParserUrl :=
  if buf = [] then none
  else
    match parseUrlLoop .reqSpacesBeforeUrl none 0 (fun _ => none) false buf with
    | none => none
    | some (u, foundAt) =>
        if (u .schema).isSome && (u .host).isNone then none
        else
          let parsed := match u .host with
            | none => some u
            | some (off, len) => httpParseHost buf u off len foundAt
          match parsed with
          | none => none
          | some u' => (portLoop 0 (getUriField buf u' .port)).map fun _ => u'

/-! ## `SrsHttpUri` -/

/-- `SrsHttpUri`. -/
structure SrsHttpUri where
  url : Bytes
  schema : Bytes
  host : Bytes
  port : Int
  path : Bytes
  query : Bytes
  username : Bytes
  password : Bytes
  queryValues : OrdMap Bytes Bytes
  deriving DecidableEq

namespace SrsHttpUri

/-- The constructor. -/
def empty : SrsHttpUri := ⟨[], [], [], 0, [], [], [], [], .empty⟩

/-- The port a schema stands for. -/
def defaultPort (schema : Bytes) : Int :=
  if schema = str "https" then 443
  else if schema = str "rtmp" then 1935
  else if schema = str "redis" then 6379
  else 80

/-- `parse_query`. -/
def parseQuery (u : SrsHttpUri) : SrsHttpUri :=
  if u.query = [] then u
  else
    let begin := match findSub (str "?") u.query with
      | some k => k + 1
      | none => 0
    { u with queryValues := srsParseQueryString (u.query.drop begin) .empty }

/-- `get_query_by_key`. -/
def getQueryByKey (u : SrsHttpUri) (key : Bytes) : Bytes :=
  match u.queryValues.find? key with
  | none => []
  | some v => v

/-- `initialize(url)`. -/
def initializeFrom (u : SrsHttpUri) (url : Bytes) : Option SrsError × SrsHttpUri :=
  let vhost := findSub (str "://__defaultVhost__") url
  let parsing := if vhost.isSome then
      srsStringReplace url (str "://__defaultVhost__") (str "://safe.vhost.default.ossrs.io")
    else url
  let u := { u with url := url, schema := [], host := [], path := [], query := [] }
  match httpParserParseUrl parsing with
  | none => (some .httpParseUri, u)
  | some hp =>
      let schema := getUriField parsing hp .schema
      let host := if vhost.isSome then str "__defaultVhost__" else getUriField parsing hp .host
      let portField := getUriField parsing hp .port
      let port := if portField = [] then u.port else atoi portField
      let userinfo := getUriField parsing hp .userinfo
      let user := match findSub (str ":") userinfo with
        | some k => (userinfo.take k, userinfo.drop (k + 1))
        | none => (userinfo, u.password)
      (none, parseQuery
        { u with
          schema := schema
          host := host
          port := if port ≤ 0 then defaultPort schema else port
          path := getUriField parsing hp .path
          query := getUriField parsing hp .query
          username := user.1
          password := user.2 })

end SrsHttpUri

end HttpProxy
