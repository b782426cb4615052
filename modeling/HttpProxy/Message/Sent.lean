import HttpProxy.Body.Completeness
import HttpProxy.Body.Fixed
import HttpProxy.Message.Agreement
import HttpProxy.Message.Taken

/-!
# Messages as they are sent

A message on the wire is a header and the bytes of a body.  The reader of the body is followed here
read by read, whatever sizes the reads have and wherever they stop.

* `Sent`, `BodyFits` — a message on the wire, and the bodies that the reader understands.
* `InBody`, `read_inBody` — the reader is inside the body or at its end, and a read keeps it there.
* `headMessage_closed` — a request without a body has no body to read.
-/

namespace HttpProxy

open SrsHttpResponseReader SrsHttpParser

/-- A message as it is sent, its header and the bytes behind it, and the payload that these stand
for. -/
structure Sent where
  header : Bytes
  wire : Bytes
  payload : Bytes

def Sent.bytes (a : Sent) : Bytes := a.header ++ a.wire

/-- The bytes behind a header are the body that the message has: chunks without extensions and
without a trailer, whose size lines fit the buffer; or as many bytes as the content length says, if
that fits an `int`, and none without a content length. -/
def BodyFits (m : SrsHttpMessage) (wire payload : Bytes) : Prop :=
  if m.chunked then ∃ body : Rfc.Body, wire = body.wire ∧ payload = body.payload ∧
    body.Plain SRS_DEFAULT_RECV_BUFFER_SIZE
  else payload = wire ∧ -1 ≤ m.contentLength ∧ wire.length = m.contentLength.toNat ∧ wire.length < 2 ^ 31

/-- A body without chunks, of the length that the header gives. -/
theorem bodyFits_of_length {m : SrsHttpMessage} {bs : Bytes} {n : Int}
    (h : (m.chunked, m.contentLength) = (false, n)) (hn : -1 ≤ n) (hlen : bs.length = n.toNat)
    (hlt : bs.length < 2 ^ 31) : BodyFits m bs bs := by
  obtain ⟨hc, rfl⟩ := Prod.mk.inj h
  rw [BodyFits, if_neg (by simp [hc])]
  exact ⟨rfl, hn, hlen, hlt⟩

namespace SrsHttpResponseReader

variable {f : BodyFraming} {T : Bytes} {r : SrsHttpResponseReader} {src : Source} {size : Nat}

/-- The reader is in front of the rest of a body, behind which the source has `T`. -/
def InRest (f : BodyFraming) (T : Bytes) (r : SrsHttpResponseReader) (src : Source) : Prop :=
  if f.chunked then
    Going r ∧ ∃ p, Continues SRS_DEFAULT_RECV_BUFFER_SIZE r.nbLeftChunk src.unread p T
  else ∃ n : Nat, f.contentLength = n ∧ n < 2 ^ 31 ∧ r.isEof = false ∧ r.nbTotalRead ≤ n ∧
    ∃ bs : Bytes, bs.length = n - r.nbTotalRead ∧ src.unread = bs ++ T

/-- The reader is inside of a body, or at its end. -/
structure InBody (f : BodyFraming) (T : Bytes) (r : SrsHttpResponseReader) (src : Source) : Prop where
  healthy : src.skt.Healthy
  nbBuffer : src.buffer.nbBuffer = SRS_DEFAULT_RECV_BUFFER_SIZE
  place : (r.isEof = true ∧ src.unread = T) ∨ InRest f T r src

/-- A read of a part of a chunked body. -/
theorem read_inBody_chunked (hf : f.chunked = true) (hs : src.skt.Healthy)
    (hb : src.buffer.nbBuffer = SRS_DEFAULT_RECV_BUFFER_SIZE) (h : InRest f T r src) (hsize : 0 < size) :
    InBody f T (read f r src size).reader (read f r src size).src := by
  rw [InRest, if_pos hf] at h
  obtain ⟨hgo, p, hp⟩ := h
  rw [← hb] at hp
  have herr := read_chunked_healthy hf hs hgo hsize (by rw [hb]; decide) hp
  obtain ⟨k, hleft, hchunk, hlen, hdata, heof, htook⟩ | ⟨hgo', hbehind, hprefix, hcont⟩ :=
    read_chunked_ok hf hgo herr
  · rw [hleft, continues_zero, decodes_zero_iff hchunk] at hp
    obtain ⟨-, -, rfl⟩ := hp
    exact ⟨htook.healthy hs, htook.nbBuffer.trans hb, .inl ⟨heof, htook.unread_drop⟩⟩
  · obtain ⟨q, rfl⟩ := hprefix _ _ hp
    refine ⟨hbehind.healthy hs, hbehind.nbBuffer.trans hb, .inr ?_⟩
    rw [InRest, if_pos hf, ← hb]
    exact ⟨hgo', q, (hcont _ _).1 hp⟩

/-- A read of a part of a body of a given length. -/
theorem read_inBody_length (hf : f.chunked = false) (hs : src.skt.Healthy)
    (hb : src.buffer.nbBuffer = SRS_DEFAULT_RECV_BUFFER_SIZE) (h : InRest f T r src) (hsize : 0 < size) :
    InBody f T (read f r src size).reader (read f r src size).src := by
  rw [InRest, if_neg (by simp [hf])] at h
  obtain ⟨n, hn, hlt, heof, htotal, bs, hbs, hu⟩ := h
  have hframing : f = lengthFraming n := by
    cases f
    simp only at hf hn
    rw [hf, hn]
    rfl
  rw [hframing]
  by_cases hdone : r.nbTotalRead = n
  · have hnil : bs = [] := List.eq_nil_of_length_eq_zero (by omega)
    rw [read_fixed_done (Int.natCast_nonneg n) heof (by rw [hdone])]
    exact ⟨hs, hb, .inl ⟨rfl, by rw [hu, hnil, List.nil_append]⟩⟩
  have hpos : 0 < bs.length := by omega
  have ht : (r.nbTotalRead : Int) < n := by omega
  have herr : (read (lengthFraming n) r src size).err = none := by
    rw [read_fixed (by omega) heof ht]
    refine readSpecified_healthy hs ?_ (by omega)
    rw [hu]
    exact List.append_ne_nil_of_left_ne_nil (List.ne_nil_of_length_pos hpos) T
  obtain ⟨m, hm0, hm, -, -, -, htook, htotal, heof'⟩ := read_fixed_ok (by omega) heof ht herr
  have hdrop := htook.unread_drop
  rw [Int.toNat_natCast] at hm
  rw [toInt32_eq_self (Int.natCast_nonneg n) (by omega)] at heof'
  refine ⟨htook.healthy hs, htook.nbBuffer.trans hb, ?_⟩
  rw [hu, List.drop_append_of_le_length (by omega)] at hdrop
  by_cases hlast : r.nbTotalRead + m = n
  · refine .inl ⟨by rw [heof']; exact decide_eq_true (by omega), ?_⟩
    rw [hdrop, List.drop_eq_nil_of_le (by omega), List.nil_append]
  · refine .inr ?_
    rw [InRest, if_neg (by simp [lengthFraming])]
    exact ⟨n, rfl, hlt, by rw [heof']; exact decide_eq_false (by omega), by omega, bs.drop m,
      by rw [List.length_drop]; omega, hdrop⟩

/-- **Every read keeps the reader inside of the body**, or brings it to its end. -/
theorem read_inBody (h : InBody f T r src) (hsize : 0 < size) :
    InBody f T (read f r src size).reader (read f r src size).src := by
  rcases h.place with ⟨heof, hu⟩ | hrest
  · rw [read_of_eof heof]
    exact ⟨h.healthy, h.nbBuffer, .inl ⟨heof, hu⟩⟩
  · cases hf : f.chunked with
    | true => exact read_inBody_chunked hf h.healthy h.nbBuffer hrest hsize
    | false => exact read_inBody_length hf h.healthy h.nbBuffer hrest hsize

/-- What is left at the end of a body, and behind an empty one. -/
theorem InBody.unread_of_isEof (h : InBody f T r src) (heof : r.isEof = true) : src.unread = T := by
  rcases h.place with ⟨-, hu⟩ | hrest
  · exact hu
  · unfold InRest at hrest
    split_ifs at hrest
    · rw [hrest.1.isEof] at heof
      cases heof
    · obtain ⟨-, -, -, hgoing, -⟩ := hrest
      rw [hgoing] at heof
      cases heof

theorem InBody.unread_of_length_zero (h : InBody f T r src) (hf : f.chunked = false)
    (hn : f.contentLength ≤ 0) :
    src.unread = T := by
  rcases h.place with ⟨-, hu⟩ | hrest
  · exact hu
  · rw [InRest, if_neg (by simp [hf])] at hrest
    obtain ⟨n, hlen, -, -, -, bs, hbs, hu⟩ := hrest
    rw [hu, List.eq_nil_of_length_eq_zero (show bs.length = 0 by omega), List.nil_append]

end SrsHttpResponseReader

namespace SrsHttpParser

variable {pa : Option Bytes} {H : Bytes} {o : SrsHttpParser} {m : SrsHttpMessage}

/-- The body of a request is closed when it has no length and no chunks, all others are open. -/
def Closed (m : SrsHttpMessage) : Prop :=
  m.body = { SrsHttpResponseReader.fresh with
    isEof := decide (m.chunked = false ∧ m.contentLength = -1 ∧ m.type = .request) }

/-- What is done to a message behind its header leaves the body alone. -/
theorem Closed.congr {m m' : SrsHttpMessage} (h : Closed m) (ht : m'.type = m.type)
    (hc : m'.chunked = m.chunked)
    (hl : m'.contentLength = m.contentLength) (hb : m'.body = m.body) : Closed m' := by
  unfold Closed
  rw [ht, hc, hl, hb]
  exact h

theorem closed_setHeader (type : HttpParserType) (method : HttpMethod) (status contentLength : Nat)
    (header : SrsHttpHeader) (keepAlive : Bool) :
    Closed ((SrsHttpMessage.new.setBasic type method status (toInt64 contentLength)).setHeader header
      keepAlive) := by
  unfold Closed
  simp only [SrsHttpMessage.setHeader, SrsHttpMessage.setBasic, SrsHttpMessage.new]
  split_ifs with h1 h2 h2 <;> simp_all [SrsHttpResponseReader.fresh]

theorem closed_setUrl {m m' : SrsHttpMessage} (hm : Closed m) {url : Bytes} {jsonp : Bool}
    {e : Option SrsError} (h : m.setUrl pa url jsonp = (e, m')) : Closed m' := by
  obtain ⟨uri, ext, query, jsonp', jsonpMethod, rfl⟩ := setUrl_cases h
  exact hm.congr rfl rfl rfl rfl

theorem closed_getHostPort (hm : Closed m) : Closed m.getHostPort := by
  unfold SrsHttpMessage.getHostPort
  split_ifs
  · exact hm.congr rfl rfl rfl rfl
  · simp only
    split_ifs
    · exact hm
    · exact hm.congr rfl rfl rfl rfl

/-- A request is made of its header, and without length and chunks it is closed. -/
theorem toMessage_closed (h : toMessage pa o = (none, m)) : Closed m := by
  unfold toMessage at h
  split at h
  · cases h
  · rename_i hp hhp
    have hm := closed_setHeader hp.type hp.method hp.statusCode hp.contentLength o.header hp.shouldKeepAlive
    simp only at h
    split at h
    · obtain ⟨-, rfl⟩ := Prod.mk.inj h
      exact hm.congr rfl rfl rfl rfl
    · split at h
      · cases h
      · rename_i m' heq
        obtain ⟨-, rfl⟩ := Prod.mk.inj h
        exact (closed_getHostPort (closed_setUrl hm heq)).congr rfl rfl rfl rfl

theorem headMessage_closed (hH : IsHeader o.type H) (h : headMessage pa o H = some m) :
    Closed m ∧ m.type = o.type := by
  obtain ⟨r, hr, hm⟩ := headMessage_eq_some_iff.1 h
  obtain ⟨hp, hhp, htype, -⟩ := hH.reported hr
  obtain ⟨m', hsame, -, rfl⟩ := messageOf_eq hhp (show (messageOf pa o r.head).2 = some m by rw [hm])
  refine ⟨?_, hsame.type.trans htype⟩
  unfold messageOf at hm
  split at hm
  · cases hm
  · rename_i heq
    cases hm
    exact toMessage_closed heq

/-- Behind the header of a request the reader is in front of its body. -/
theorem inBody_request {wire payload T : Bytes} {src : Source} (ho : o.type = .request)
    (hH : IsHeader o.type H)
    (h : headMessage pa o H = some m) (hfits : BodyFits m wire payload) (hu : src.unread = wire ++ T)
    (hs : src.skt.Healthy) (hb : src.buffer.nbBuffer = SRS_DEFAULT_RECV_BUFFER_SIZE) :
    InBody m.framing T m.body src := by
  obtain ⟨hbody, htype⟩ := headMessage_closed hH h
  rw [Closed, htype, ho] at hbody
  refine ⟨hs, hb, ?_⟩
  unfold BodyFits at hfits
  by_cases hc : m.chunked = true
  · rw [if_pos hc] at hfits
    obtain ⟨body, rfl, rfl, hplain⟩ := hfits
    rw [show m.body = .fresh by rw [hbody]; simp [hc, fresh]]
    refine .inr ?_
    rw [InRest, if_pos (show m.framing.chunked = true from hc)]
    exact ⟨going_fresh, body.payload, by rw [hu]; exact continues_zero.2 (body.decodes_iff.2 hplain)⟩
  · rw [if_neg hc] at hfits
    obtain ⟨rfl, hge, hlen, hlt⟩ := hfits
    by_cases hl : m.contentLength = -1
    · rw [hl] at hlen
      rw [List.eq_nil_of_length_eq_zero hlen, List.nil_append] at hu
      exact .inl ⟨by rw [hbody]; simpa [hc] using hl, hu⟩
    · rw [show m.body = .fresh by rw [hbody]; simp [hl, fresh]]
      refine .inr ?_
      rw [InRest, if_neg (show ¬ m.framing.chunked = true from hc)]
      exact ⟨payload.length, by show m.contentLength = _; omega, hlt, rfl, Nat.zero_le _, payload, rfl, hu⟩

end SrsHttpParser

end HttpProxy
