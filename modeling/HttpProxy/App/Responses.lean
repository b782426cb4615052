import HttpProxy.App.Delivery
import HttpProxy.Message.Agreement
import HttpProxy.Message.Found

/-!
# The body that belongs to a response

Section 3.3.3 of RFC 7230 says which bytes behind the header of a response are its
body: this depends on the method of the request, on the status, and on the fields.
The proxy looks at two fields only (`src/app/srs_app_http_conn.cpp`, lines 683-753).

* `Rfc.framing`, `Rfc.Assigned` — the rule, and the body it assigns.
* `Suits`, `response_framing` — for which responses the proxy relays the body that the RFC assigns.
-/

namespace HttpProxy

open SrsHttpResponseReader SrsHttpParser HttpParser Head

/-! ## The rule -/

namespace Rfc

/-- How the end of the body of a response is found. -/
inductive Framing
  | none
  | chunked
  | length (n : Nat)
  | close
  deriving DecidableEq

/-- The codings in a value of `Transfer-Encoding`: the elements of the list, without the white
space around them and in small letters. -/
def codings (v : Bytes) : List Bytes :=
  ((v.splitOn 44).map fun c => ((c.dropWhile isOws).rdropWhile isOws).map lower).filter (· ≠ [])

/-- The codings that all fields together name, in their order; the last field is first. -/
def transferCodings (fields : List (Bytes × Bytes)) : List Bytes :=
  (fields.reverse.filter fun f => isTransferEncoding f.1).flatMap fun f => codings f.2

/-- No body at all: an answer to HEAD, a 1xx, a 204 or a 304, or an accepted CONNECT. -/
def Bodiless (method : HttpMethod) (status : Nat) : Prop :=
  method = .head ∨ (100 ≤ status ∧ status < 200) ∨ status = 204 ∨ status = 304 ∨
    (method = .connect ∧ 200 ≤ status ∧ status < 300)

instance (method : HttpMethod) (status : Nat) : Decidable (Bodiless method status) := by
  unfold Bodiless
  infer_instance

/-- Section 3.3.3, for the response to a request with the given method. -/
def framing (method : HttpMethod) (status : Nat) (fields : List (Bytes × Bytes)) : Framing :=
  if Bodiless method status then .none
  else if fields.any fun f => isTransferEncoding f.1 then
    if (transferCodings fields).getLast? = some (str "chunked") then .chunked else .close
  else
    match fields.find? fun f => isContentLength f.1 with
    | some f => .length (lengthOf f.2)
    | none => .close

/-- The chunked bodies with chunks of any size: their bytes and their payload. -/
inductive Chunked : Bytes → Bytes → Prop
  | last {zeros ext : Bytes} {trailer : List Bytes} (hzeros : zeros ≠ [] ∧ ∀ b ∈ zeros, b = 48)
      (hext : ChunkExt ext) (htrailer : ∀ f ∈ trailer, TrailerField f) :
      Chunked (zeros ++ ext ++ crlf ++ trailerWire trailer ++ crlf) []
  | chunk {size ext data wire p : Bytes} (hsize : HexLine size data.length) (hext : ChunkExt ext)
      (hne : data ≠ []) (rest : Chunked wire p) :
      Chunked (size ++ ext ++ crlf ++ data ++ crlf ++ wire) (data ++ p)

/-- When `X` is what the server sends behind the header until it closes, the body is `b`, and `T`
does not belong to the response. -/
inductive Assigned : Framing → Bytes → Bytes → Bytes → Prop
  | none {X : Bytes} : Assigned .none X [] X
  | chunked {wire b T : Bytes} (h : Chunked wire b) : Assigned .chunked (wire ++ T) b T
  | length {X : Bytes} {n : Nat} (h : n ≤ X.length) : Assigned (.length n) X (X.take n) (X.drop n)
  | close {X : Bytes} : Assigned .close X X []

/-- The bytes `wire` carry the body `b`. -/
def Framing.Carries : Framing → Bytes → Bytes → Prop
  | .chunked, wire, b => ChunkedBody wire b
  | _, wire, b => wire = b

theorem Body.chunked (b : Body) : Chunked b.wire b.payload := by
  obtain ⟨chunks, zeros, ext, trailer, hzeros, hext, htrailer⟩ := b
  induction chunks with
  | nil => exact Chunked.last hzeros hext htrailer
  | cons c cs ih => simpa [Body.wire, Body.lastWire, Body.payload,
    Chunk.wire] using Chunked.chunk c.hsize c.hext c.hne ih

end Rfc

namespace SrsHttpxProxyConn

variable {m : SrsHttpMessage} {c : SrsHttpxProxyConn}

/-! ## What the proxy takes for the body -/

/-- The content length of the message, in terms of its fields: a value that the map has under
`Content-Length` goes through `atoll`, one in another spelling comes from the http-parser. -/
def messageLength (fields : List (Bytes × Bytes)) : Int :=
  match fields.find? fun f => isContentLength f.1 with
  | none => -1
  | some f =>
      if lookedUp fields (str "Content-Length") = [] then toInt64 (lengthOf f.2) else clampLong (lengthOf f.2)

/-- Does the message take its body for chunked? -/
def takenChunked (fields : List (Bytes × Bytes)) : Bool :=
  lookedUp fields (str "Transfer-Encoding") = str "chunked"

/-- A response with the header `H` has been parsed, and `X` is what the server sends behind the
header until it closes. -/
structure Answered (pa : Option Bytes) (H : Bytes) (fields : List (Bytes × Bytes)) (m : SrsHttpMessage) (X : Bytes)
    (c : SrsHttpxProxyConn) : Prop where
  header : IsHeader .response H
  parsed : ∃ r, readHead .response H = .ok r ∧ r.head.fields = fields ∧
    (messageOf pa (new .response) r.head).2 = some m
  connected : c.dest? ≠ none
  unread : (c.serverSource .http).unread = X
  healthy : (c.serverSource .http).skt.Healthy
  buffer : (c.serverSource .http).buffer.nbBuffer = SRS_DEFAULT_RECV_BUFFER_SIZE
  reliable : (c.client .http).out.Reliable

section Answer

variable {pa : Option Bytes} {H X b T : Bytes} {fields : List (Bytes × Bytes)} {method : HttpMethod}

/-- There is one content length at most, and the message has it. -/
theorem Answered.framing (h : Answered pa H fields m X c) :
    m.chunked = takenChunked fields ∧ m.contentLength = messageLength fields ∧
      (hasBody m = true → m.body = .fresh) ∧ m.contentLength < 2 ^ 63 := by
  obtain ⟨r, hr, rfl, hm⟩ := h.parsed
  obtain ⟨hp, hhp⟩ := Option.ne_none_iff_exists'.1 (h.header.ends r hr)
  obtain ⟨hchunked, hlength, -⟩ := messageOf_framing hhp hm
  have hfresh : Fresh m := by
    unfold messageOf at hm
    split at hm
    · cases hm
    · rename_i m' heq
      cases hm
      exact toMessage_fresh heq
  refine ⟨hchunked, ?_, fun hb => hfresh.body (by simpa [hasBody] using hb), hfresh.contentLength⟩
  rw [hlength]
  unfold messageLength
  rcases h.header.length_cases hr hhp with ⟨hmax, hnone⟩ | ⟨-, f, hf, hn, ⟨ds, ws, bl, hsplit, hval⟩, honly⟩
  · have hfind : r.head.fields.find? (fun f => isContentLength f.1) = none :=
      List.find?_eq_none.2 fun f hf => by simp [hnone f hf]
    have hnil : lookedUp r.head.fields (str "Content-Length") = [] := by
      by_contra hne
      obtain ⟨f, hf, hn, -⟩ := isContentLength_of_lookedUp hne
      rw [hnone f hf] at hn
      cases hn
    rw [hfind, if_pos hnil, hmax, toInt64_max]
  · obtain ⟨g, hg⟩ := Option.ne_none_iff_exists'.1
      (show r.head.fields.find? (fun f => isContentLength f.1) ≠ none from fun h0 =>
        List.find?_eq_none.1 h0 f hf hn)
    have hgv : g.2 = f.2 := honly g (List.mem_of_find?_eq_some hg)
      (List.find?_some (p := fun f : Bytes × Bytes => isContentLength f.1) hg)
    rw [hg]
    simp only [hgv, hsplit, lengthOf_eq hval]
    split_ifs with hnil
    · rfl
    · obtain ⟨k, hk, hkn, hkv⟩ := isContentLength_of_lookedUp hnil
      rw [← hkv, honly k hk hkn, hsplit, atoll_lengthValue hval]

/-- The http-parser rejects longer lengths. -/
theorem Answered.lengthOf_lt (h : Answered pa H fields m X c) :
    ∀ f ∈ fields, isContentLength f.1 = true → lengthOf f.2 < 2 ^ 64 := by
  obtain ⟨r, hr, rfl, -⟩ := h.parsed
  obtain ⟨hp, hhp⟩ := Option.ne_none_iff_exists'.1 (h.header.ends r hr)
  intro f hf hn
  rcases h.header.length_cases hr hhp with ⟨-, hnone⟩ | ⟨-, g, -, -, ⟨ds, ws, bl, hsplit, hval⟩, honly⟩
  · rw [hnone f hf] at hn
    cases hn
  · rw [honly f hf hn, hsplit, lengthOf_eq hval]
    have hle := hval.le
    simp only [maxLengthTens, ULLONG_MAX] at hle
    omega

/-- A field with that name is looked up only if it is there. -/
theorem mem_of_takenChunked (h : takenChunked fields = true) :
    ∃ f ∈ fields, isTransferEncoding f.1 = true ∧ f.2 = str "chunked" := by
  have h : lookedUp fields (str "Transfer-Encoding") = str "chunked" := of_decide_eq_true h
  obtain ⟨f, hf, hkey, hv⟩ := mem_of_lookedUp
    (show lookedUp fields (str "Transfer-Encoding") ≠ [] by rw [h]; decide)
  refine ⟨f, hf, ?_, hv.trans h⟩
  rw [isTransferEncoding, ← canonicalKey_map_token, hkey]
  decide

/-- The body goes to the client behind the header, in the form that its framing has, and the
server is left behind the body. -/
def Relays (f : Rfc.Framing) (m : SrsHttpMessage) (c : SrsHttpxProxyConn) (b T : Bytes) : Prop :=
  ∃ wire, f.Carries wire b ∧ (relay .http m c).1 = .ok () ∧
    ((relay .http m c).2.client .http).out.sent = (c.client .http).out.sent ++ m.rawHeader ++ wire ∧
    ((relay .http m c).2.serverSource .http).unread = T

variable {f : Rfc.Framing}

/-- Without a body for the message, nothing is relayed and nothing is read. -/
theorem relays_iff_of_bodiless (h : Answered pa H fields m X c) (hb : hasBody m = false) :
    Relays f m c b T ↔ f.Carries [] b ∧ T = X := by
  obtain ⟨out, -, hsent, hok, hclient, hserver, -⟩ := relay_eq m h.reliable
  have hserver := hserver fun _ => h.connected
  have hnothing : relayResponse .http m (c.serverSource .http) out =
      ⟨none, none, [], (m.body, c.serverSource .http), out⟩ := by
    unfold relayResponse
    rw [if_neg (by simp [hb])]
  rw [hnothing] at hok hclient hserver
  unfold Relays
  rw [hclient, hserver, hsent, h.unread]
  constructor
  · rintro ⟨wire, hcarries, -, hwire, rfl⟩
    have hnil : wire = [] := List.self_eq_append_right.1 hwire
    exact ⟨hnil ▸ hcarries, rfl⟩
  · rintro ⟨hcarries, rfl⟩
    exact ⟨[], hcarries, hok.2 rfl, by simp, rfl⟩

/-- With a body for the message, what the reader delivers is relayed, as it is or in chunks. -/
theorem relays_iff_of_body (h : Answered pa H fields m X c) (hb : hasBody m = true) :
    Relays f m c b T ↔ ∃ data, DrainsTo m (c.serverSource .http) data T ∧
      ∃ wire, f.Carries wire b ∧ m.framing.Carries wire data ∧
        ((relay .http m c).2.client .http).out.sent = (c.client .http).out.sent ++ m.rawHeader ++ wire := by
  obtain ⟨out, hout, hsent, hok, hclient, hserver, -⟩ := relay_eq m h.reliable
  have hserver := hserver fun _ => h.connected
  have hbody := h.framing.2.2.1 hb
  have hends := relayResponse_ends_iff (p := .http) hb hbody h.healthy hout
  constructor
  · rintro ⟨wire, hcarries, hexit, hwire, hT⟩
    obtain ⟨fuel, hstop⟩ := hends.1 (hok.1 hexit)
    obtain ⟨-, hreader, -, wire', hw, -, h1⟩ := relayResponse_wire (p := .http) hb hbody hout hstop
    refine ⟨_, ⟨fuel, hstop, rfl, by rw [← hreader, ← hserver, hT]⟩, wire, hcarries, ?_, hwire⟩
    rw [hclient, ← hsent] at hwire
    rw [List.append_cancel_left (hwire.symm.trans h1)]
    exact hw
  · rintro ⟨data, ⟨fuel, hstop, rfl, hT⟩, wire, hcarries, -, hwire⟩
    obtain ⟨hexit, hreader, -⟩ := relayResponse_wire (p := .http) hb hbody hout hstop
    exact ⟨wire, hcarries, hok.2 hexit, hwire, by rw [hserver, hreader, hT]⟩

/-- What the client receives of a body that is drained. -/
theorem sent_of_drainsTo (h : Answered pa H fields m X c) (hb : hasBody m = true) {data : Bytes}
    (hd : DrainsTo m (c.serverSource .http) data T) :
    ∃ wire, m.framing.Carries wire data ∧
      ((relay .http m c).2.client .http).out.sent = (c.client .http).out.sent ++ m.rawHeader ++ wire := by
  obtain ⟨out, hout, hsent, -, hclient, -⟩ := relay_eq m h.reliable
  obtain ⟨fuel, hstop, rfl, -⟩ := hd
  obtain ⟨-, -, -, wire, hw, -, h1⟩ := relayResponse_wire (p := .http) hb (h.framing.2.2.1 hb) hout hstop
  exact ⟨wire, hw, by rw [hclient, ← hsent, h1]⟩

/-! ## When the body of the RFC is relayed -/

/-- What it takes: no body of its own making for a response that has none; for a chunked one the
spelling that the map knows, and a body without extensions and trailer whose chunk sizes fit an
`int` and whose size lines fit the buffer; a content length that fits an `int`; and nothing at all
behind a header that leaves the end of the body to the close of the connection. -/
def Suits (fields : List (Bytes × Bytes)) (X b T : Bytes) : Rfc.Framing → Prop
  | .none => takenChunked fields = false ∧ messageLength fields ≤ 0
  | .chunked => takenChunked fields = true ∧ ∃ body : Rfc.Body, X = body.wire ++ T ∧ b = body.payload ∧
      body.Plain SRS_DEFAULT_RECV_BUFFER_SIZE
  | .length n => n < 2 ^ 31
  | .close => takenChunked fields = false ∧ messageLength fields ≤ 0 ∧ X = []

/-- Coincidences are left out: `Transfer-Encoding` is given once at most, and not beside a
`Content-Length`, and chunks have less than 2^31 bytes. -/
structure Regular (fields : List (Bytes × Bytes)) (f : Rfc.Framing) (X b T : Bytes) : Prop where
  once : (fields.filter fun f => isTransferEncoding f.1).length ≤ 1
  alone : (∃ f ∈ fields, isTransferEncoding f.1 = true) → ∀ f ∈ fields, isContentLength f.1 = false
  sizes : f = .chunked → ∃ body : Rfc.Body, X = body.wire ++ T ∧ b = body.payload

theorem hasBody_eq_false (h : Answered pa H fields m X c) (hc : takenChunked fields = false)
    (hl : messageLength fields ≤ 0) : hasBody m = false := by
  obtain ⟨hchunked, hlength, -⟩ := h.framing
  rw [hasBody, hchunked, hc, hlength, decide_eq_false (by omega)]
  rfl

/-- Without a content length the message has none. -/
theorem messageLength_of_none (h : ∀ f ∈ fields, isContentLength f.1 = false) :
    messageLength fields = -1 := by
  unfold messageLength
  rw [List.find?_eq_none.2 fun f hf => by simp [h f hf]]

/-- What the RFC takes for a length is one, with no transfer coding beside it. -/
theorem framing_length {status n : Nat} (h : Rfc.framing method status fields = .length n) :
    takenChunked fields = false ∧ (∃ f ∈ fields, isContentLength f.1 = true ∧ lengthOf f.2 = n) ∧
      (messageLength fields = toInt64 n ∨ messageLength fields = clampLong n) := by
  unfold Rfc.framing at h
  split_ifs at h with h0 hte
  split at h
  · rename_i f hfind
    obtain rfl := Rfc.Framing.length.inj h
    refine ⟨?_, ⟨f, List.mem_of_find?_eq_some hfind,
      List.find?_some (p := fun f : Bytes × Bytes => isContentLength f.1) hfind, rfl⟩, ?_⟩
    · by_contra hc
      obtain ⟨g, hg, hname, -⟩ := mem_of_takenChunked (by simpa using hc)
      exact hte (List.any_eq_true.2 ⟨g, hg, hname⟩)
    · unfold messageLength
      rw [hfind]
      simp only
      split_ifs
      · exact .inl rfl
      · exact .inr rfl
  · cases h

/-- The chunked body behind a header. -/
theorem Answered.drainsTo_iff (h : Answered pa H fields m X c) (hm : m.chunked = true) {data : Bytes} :
    DrainsTo m (c.serverSource .http) data T ↔ Decodes SRS_DEFAULT_RECV_BUFFER_SIZE X data T := by
  rw [drainsTo_chunked_iff hm h.healthy h.buffer, h.unread]

/-- **Response framing**, what is enough: the proxy relays the body that the RFC assigns. -/
theorem relays_of_suits {status : Nat} (h : Answered pa H fields m X c)
    (ha : Rfc.Assigned (Rfc.framing method status fields) X b T)
    (hs : Suits fields X b T (Rfc.framing method status fields)) :
    Relays (Rfc.framing method status fields) m c b T := by
  obtain ⟨hchunked, hlength, -⟩ := h.framing
  cases hf : Rfc.framing method status fields with
  | none =>
    rw [hf] at ha hs
    cases ha
    exact (relays_iff_of_bodiless h (hasBody_eq_false h hs.1 hs.2)).2 ⟨rfl, rfl⟩
  | chunked =>
    rw [hf] at hs
    obtain ⟨htaken, body, hX, rfl, hplain⟩ := hs
    have hm : m.chunked = true := hchunked.trans htaken
    have hb : hasBody m = true := by rw [hasBody, hm]; rfl
    have hd : DrainsTo m (c.serverSource .http) body.payload T := by
      rw [h.drainsTo_iff hm, hX]
      exact body.decodes_iff.2 hplain
    obtain ⟨wire, hcarries, hsent⟩ := sent_of_drainsTo h hb hd
    exact (relays_iff_of_body h hb).2 ⟨_, hd, wire, (carries_chunked hm).1 hcarries, hcarries, hsent⟩
  | length n =>
    obtain ⟨htaken, -, hn⟩ := framing_length hf
    rw [hf] at ha hs
    have hlt : n < 2 ^ 31 := hs
    have hm : m.chunked = false := hchunked.trans htaken
    have hcl : messageLength fields = n := by
      rcases hn with hn | hn <;> rw [hn]
      · simp only [toInt64, Int.bmod]
        omega
      · exact clampLong_eq_self (by omega) (by omega)
    cases ha with
    | length hle =>
      by_cases hzero : n = 0
      · subst hzero
        exact (relays_iff_of_bodiless h (hasBody_eq_false h htaken (by rw [hcl]; simp))).2
          ⟨by simp [Rfc.Framing.Carries], by simp⟩
      · have hb : hasBody m = true := by
          rw [hasBody, hlength, hcl, decide_eq_true (by omega), Bool.or_true]
        have hd := drainsTo_length hm (hlength.trans hcl) hlt h.healthy (by rw [h.unread]; exact hle)
        rw [h.unread] at hd
        obtain ⟨wire, hwire, hsent⟩ := sent_of_drainsTo h hb hd
        exact (relays_iff_of_body h hb).2 ⟨_, hd, wire, (carries_length hm).1 hwire, hwire, hsent⟩
  | close =>
    rw [hf] at ha hs
    obtain ⟨htaken, hl, rfl⟩ := hs
    cases ha
    exact (relays_iff_of_bodiless h (hasBody_eq_false h htaken hl)).2 ⟨rfl, rfl⟩

/-- A body of a positive length that is drained is not empty, and its length fits an `int`. -/
theorem drained_length (hm : m.chunked = false) (hpos : 0 < m.contentLength) (hlt : m.contentLength < 2 ^ 63)
    {src : Source} (hs : src.skt.Healthy) {data : Bytes} (hd : DrainsTo m src data T) :
    data ≠ [] ∧ (2 ^ 31 ≤ m.contentLength → (data.length : Int) < m.contentLength) := by
  obtain ⟨fuel, hstop, rfl, -⟩ := hd
  have hframing : m.framing = lengthFraming m.contentLength := by rw [SrsHttpMessage.framing, hm]; rfl
  rw [hframing] at hstop ⊢
  refine ⟨?_, fun hbig => ?_⟩
  · cases fuel with
    | zero => simp [drain] at hstop
    | succ fuel =>
      have ht : (SrsHttpResponseReader.fresh.nbTotalRead : Int) < m.contentLength :=
        by simpa [fresh] using hpos
      cases herr : (SrsHttpResponseReader.read (lengthFraming m.contentLength) .fresh src (cached 0)).err with
      | some e =>
        rw [drain_of_error herr] at hstop
        rw [read_fixed hlt rfl ht] at herr
        exact absurd (Option.some.inj hstop) (readSpecified_error hs herr)
      | none =>
        obtain ⟨k, hk, -, -, hdata, hle, -⟩ := read_fixed_ok hlt rfl ht herr
        rw [drain_of_ok herr, hdata]
        refine List.ne_nil_of_length_pos ?_
        simp only [List.length_append, List.length_take]
        omega
  · have hshort := @drain_fixed_rest_short _ .fresh src cached hlt hbig fuel rfl (.inl rfl)
    rw [show SrsHttpResponseReader.fresh.nbTotalRead = 0 from rfl, Nat.zero_add] at hshort
    omega

/-- A single `Transfer-Encoding` that the message takes for chunked says so. -/
theorem transferCodings_of_taken (htaken : takenChunked fields = true)
    (honce : (fields.filter fun f => isTransferEncoding f.1).length ≤ 1) :
    Rfc.transferCodings fields = [str "chunked"] := by
  obtain ⟨f, hf, hname, hv⟩ := mem_of_takenChunked htaken
  have hmem : f ∈ fields.filter fun f => isTransferEncoding f.1 := List.mem_filter.2 ⟨hf, hname⟩
  have hone : fields.filter (fun f => isTransferEncoding f.1) = [f] := by
    match hl : fields.filter (fun f => isTransferEncoding f.1) with
    | [] => rw [hl] at hmem; simp at hmem
    | [g] =>
      rw [hl] at hmem
      obtain rfl := List.mem_singleton.1 hmem
      exact hl
    | _ :: _ :: _ => rw [hl] at honce; simp at honce
  unfold Rfc.transferCodings
  rw [List.filter_reverse, hone]
  simp only [List.reverse_singleton, List.flatMap_singleton, hv]
  decide

/-- When the body goes on to the close of the connection, there is neither a `chunked` at the end of
the transfer codings nor, alone, a length. -/
theorem framing_close {status : Nat} (h : Rfc.framing method status fields = .close)
    (hr : Regular fields .close X b T) :
    takenChunked fields = false ∧ messageLength fields = -1 := by
  unfold Rfc.framing at h
  split_ifs at h with h0 hte hlast
  · refine ⟨?_, messageLength_of_none (hr.alone (List.any_eq_true.1 hte))⟩
    by_contra hc
    rw [transferCodings_of_taken (by simpa using hc) hr.once] at hlast
    exact hlast rfl
  · split at h
    · cases h
    · rename_i hnone
      refine ⟨?_, messageLength_of_none fun f hf => by simpa using List.find?_eq_none.1 hnone f hf⟩
      by_contra hc
      obtain ⟨f, hf, hname, -⟩ := mem_of_takenChunked (by simpa using hc)
      exact hte (List.any_eq_true.2 ⟨f, hf, hname⟩)

/-- A body that the RFC takes for chunked has no length beside it. -/
theorem framing_chunked {status : Nat} (h : Rfc.framing method status fields = .chunked)
    (hr : Regular fields .chunked X b T) : messageLength fields = -1 := by
  unfold Rfc.framing at h
  split_ifs at h with h0 hte hlast
  · exact messageLength_of_none (hr.alone (List.any_eq_true.1 hte))
  · split at h <;> cases h

/-- **Response framing**, what is needed: apart from coincidences, only where the condition holds
does the proxy relay the body that the RFC assigns. -/
theorem suits_of_relays {status : Nat} (h : Answered pa H fields m X c)
    (ha : Rfc.Assigned (Rfc.framing method status fields) X b T)
    (hr : Regular fields (Rfc.framing method status fields) X b T)
    (hrelays : Relays (Rfc.framing method status fields) m c b T) :
    Suits fields X b T (Rfc.framing method status fields) := by
  obtain ⟨hchunked, hlength, hfresh, hlt⟩ := h.framing
  cases hf : Rfc.framing method status fields with
  | none =>
    rw [hf] at ha hrelays
    cases ha
    cases hb : hasBody m with
    | false =>
      simp only [hasBody, Bool.or_eq_false_iff, decide_eq_false_iff_not] at hb
      exact ⟨hchunked ▸ hb.1, by omega⟩
    | true =>
      obtain ⟨data, hd, wire, hcarries, hwire, -⟩ := (relays_iff_of_body h hb).1 hrelays
      have hnil : wire = [] := hcarries
      subst hnil
      cases hm : m.chunked with
      | true =>
        exact absurd ((carries_chunked hm).1 hwire).length_le.1 (by simp)
      | false =>
        have hpos : 0 < m.contentLength := by simpa [hasBody, hm] using hb
        exact absurd ((carries_length hm).1 hwire).symm (drained_length hm hpos hlt h.healthy hd).1
  | chunked =>
    rw [hf] at hr hrelays
    obtain ⟨body, hX, rfl⟩ := hr.sizes rfl
    have hl := framing_chunked hf hr
    cases hm : m.chunked with
    | false =>
      have hb : hasBody m = false := hasBody_eq_false h (hchunked ▸ hm) (by omega)
      exact absurd (((relays_iff_of_bodiless h hb).1 hrelays).1 : ChunkedBody [] _).length_le.1 (by simp)
    | true =>
      have hb : hasBody m = true := by rw [hasBody, hm]; rfl
      obtain ⟨data, hd, wire, hcarries, hwire, -⟩ := (relays_iff_of_body h hb).1 hrelays
      have hdata : data = body.payload := ((carries_chunked hm).1 hwire).payload_unique hcarries
      rw [h.drainsTo_iff hm, hdata, hX] at hd
      exact ⟨hchunked ▸ hm, body, hX, rfl, body.decodes_iff.1 hd⟩
  | length n =>
    obtain ⟨htaken, ⟨g, hg, hname, hgn⟩, hn⟩ := framing_length hf
    have hbound := h.lengthOf_lt g hg hname
    rw [hgn] at hbound
    rw [hf] at ha hrelays
    have hm : m.chunked = false := hchunked.trans htaken
    cases ha with
    | length hle =>
      show n < 2 ^ 31
      by_contra hbig
      have htake : (X.take n).length = n := List.length_take_of_le hle
      cases hb : hasBody m with
      | false =>
        have hnil : [] = X.take n := ((relays_iff_of_bodiless h hb).1 hrelays).1
        rw [← hnil, List.length_nil] at htake
        omega
      | true =>
        have hpos : 0 < m.contentLength := by simpa [hasBody, hm] using hb
        obtain ⟨data, hd, wire, hcarries, hwire, -⟩ := (relays_iff_of_body h hb).1 hrelays
        have hdata : data = X.take n := ((carries_length hm).1 hwire).symm.trans hcarries
        have hshort := (drained_length hm hpos hlt h.healthy hd).2
        rw [hdata, htake] at hshort
        have hcl : m.contentLength ≤ n ∧ 2 ^ 31 ≤ m.contentLength := by
          rw [hlength] at hpos hlt ⊢
          rcases hn with hn | hn <;> rw [hn] at hpos hlt ⊢
          · simp only [toInt64, Int.bmod] at hpos hlt ⊢
            omega
          · simp only [clampLong]
            omega
        have := hshort hcl.2
        omega
  | close =>
    rw [hf] at ha hr hrelays
    obtain ⟨htaken, hl⟩ := framing_close hf hr
    have hb : hasBody m = false := hasBody_eq_false h htaken (by omega)
    cases ha
    have hnil : [] = X := ((relays_iff_of_bodiless h hb).1 hrelays).1
    exact ⟨htaken, by omega, hnil.symm⟩

/-- **Response framing.**  For every request method and every response, the proxy reads and relays
exactly the body that the RFC assigns to the response, if and, apart from coincidences, only if
the response suits it. -/
theorem response_framing {status : Nat} (h : Answered pa H fields m X c)
    (ha : Rfc.Assigned (Rfc.framing method status fields) X b T) :
    (Suits fields X b T (Rfc.framing method status fields) →
        Relays (Rfc.framing method status fields) m c b T) ∧
      (Regular fields (Rfc.framing method status fields) X b T →
        Relays (Rfc.framing method status fields) m c b T →
        Suits fields X b T (Rfc.framing method status fields)) :=
  ⟨relays_of_suits h ha, suits_of_relays h ha⟩

end Answer

/-- A connection to a server that sends `X` and closes. -/
def connectedTo (X : Bytes) : SrsHttpxProxyConn :=
  { init ⟨[], ⟨[], []⟩⟩ [] [] (.error .socketTimeout) (.error .socketTimeout) with
    svrSkt := some ⟨str "a", 80, ⟨[.data X], ⟨[], []⟩⟩⟩ }

/-- A header that is accepted is followed by what the server sends. -/
theorem answered_connectedTo {H X : Bytes} {fields : List (Bytes × Bytes)}
    (hacc : (readHead .response H).toOption.map (fun r => (r.head.fields, r.head.hp.isSome,
      (messageOf none (new .response) r.head).2.isSome)) = some (fields, true, true))
    (hH : IsHeader .response H) : ∃ m, Answered none H fields m X (connectedTo X) := by
  cases hr : readHead .response H with
  | error e =>
    rw [hr] at hacc
    cases hacc
  | ok r =>
    rw [hr] at hacc
    have hfacts := Prod.mk.inj (Option.some.inj hacc)
    obtain ⟨m, hm⟩ := Option.isSome_iff_exists.1 (Prod.mk.inj hfacts.2).2
    exact ⟨m, hH, ⟨r, hr, hfacts.1, hm⟩, by simp [connectedTo, dest?],
      by simp [connectedTo, serverSource, server, init, Source.unread, SrsFastStream.mk0,
        SrsFastStream.unread],
      by simp [connectedTo, serverSource, server], rfl, by simp [connectedTo, client, init, Sink.Reliable]⟩

/-- A body of one chunk behind `chunkedResponse`, and the start of something else. -/
theorem response_framing_chunked :
    ∃ m, Relays .chunked m (connectedTo (str "3\r\nabc\r\n0\r\n\r\nHTTP")) (str "abc") (str "HTTP") := by
  obtain ⟨hH, -⟩ := isHeader_of_accepts (t := .response) (H := chunkedResponse) (by decide)
  obtain ⟨m, h⟩ := @answered_connectedTo chunkedResponse (str "3\r\nabc\r\n0\r\n\r\nHTTP")
    [(str "Transfer-Encoding", str "chunked")] (by decide) hH
  have hf : Rfc.framing .get 200 [(str "Transfer-Encoding", str "chunked")] = .chunked := by decide
  have hX : str "3\r\nabc\r\n0\r\n\r\nHTTP" = (Rfc.abcBody [] .nil).wire ++ str "HTTP" := by decide
  have h1 := (@response_framing m (connectedTo (str "3\r\nabc\r\n0\r\n\r\nHTTP")) none chunkedResponse _
    (str "abc") (str "HTTP") [(str "Transfer-Encoding", str "chunked")] .get 200 h (by
      rw [hf, hX]
      exact .chunked (Rfc.abcBody [] .nil).chunked)).1
  rw [hf] at h1
  refine ⟨m, h1 ⟨by decide, Rfc.abcBody [] .nil, hX, by decide, ⟨rfl, ?_⟩, rfl, ?_⟩⟩
  · simp [Rfc.abcBody]
  · simp [Rfc.abcBody, str]
    decide

/-- A response whose body ends with the connection. -/
def closeResponse : Bytes := str "HTTP/1.1 200 OK\r\nConnection: close\r\n\r\n"

/-- Nothing of the body is relayed. -/
theorem close_not_relayed :
    ∃ m fields, Answered none closeResponse fields m (str "abc") (connectedTo (str "abc")) ∧
      Rfc.Assigned (Rfc.framing .get 200 fields) (str "abc") (str "abc") [] ∧
      ¬ Relays (Rfc.framing .get 200 fields) m (connectedTo (str "abc")) (str "abc") [] := by
  obtain ⟨hH, -⟩ := isHeader_of_accepts (t := .response) (H := closeResponse) (by decide)
  obtain ⟨m, h⟩ := @answered_connectedTo closeResponse (str "abc") [(str "Connection", str "close")]
    (by decide) hH
  have hf : Rfc.framing .get 200 [(str "Connection", str "close")] = .close := by decide
  refine ⟨m, _, h, ?_, fun hrelays => ?_⟩
  · rw [hf]
    exact .close
  · have hb := hasBody_eq_false h (by decide) (by decide)
    exact absurd ((relays_iff_of_bodiless h hb).1 hrelays).2 (by decide)

end SrsHttpxProxyConn

end HttpProxy
