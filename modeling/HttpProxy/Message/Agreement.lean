import HttpProxy.Message.Framing

/-!
# Two decisions about the body

Whether a body follows a header, and how long it is, is decided twice: by the
http-parser, which compares names and values letter by letter and regardless of case,
and by `SrsHttpMessage`, which looks up two names in its map and compares the values
found.

* `messageOf_framing` — what the message takes for its framing, in terms of the fields.
* `agrees_iff` — the two agree exactly when the field that the map has under
  `Transfer-Encoding` is spelled `chunked` whenever one of the fields makes the body
  chunked, and no content length exceeds an `int64_t`.
-/

namespace HttpProxy

open SrsHttpParser HttpParser Head

/-! ## What the message is made of -/

/-- What `set_url` may change, whichever way it ends. -/
theorem setUrl_cases {m m' : SrsHttpMessage} {pa : Option Bytes} {url : Bytes} {jsonp : Bool}
    {e : Option SrsError} (h : m.setUrl pa url jsonp = (e, m')) :
    ∃ uri ext query jsonp' jsonpMethod, m' = { m with
      url := url
      uri := uri
      ext := ext
      query := query
      jsonp := jsonp'
      jsonpMethod := jsonpMethod } := by
  unfold SrsHttpMessage.setUrl at h
  simp only at h
  split at h
  · cases h
    exact ⟨_, _, _, _, _, rfl⟩
  · split at h
    · cases h
      exact ⟨_, _, _, _, _, rfl⟩
    · split at h
      · cases h
        exact ⟨_, _, _, _, _, rfl⟩
      · split at h <;> cases h <;> exact ⟨_, _, _, _, _, rfl⟩

/-- What the functions behind `set_header` leave as it is. -/
structure SameHeader (m m' : SrsHttpMessage) : Prop where
  type : m'.type = m.type
  method : m'.method = m.method
  status : m'.status = m.status
  contentLength : m'.contentLength = m.contentLength
  chunked : m'.chunked = m.chunked
  header : m'.header = m.header

theorem sameHeader_setUrl {m m' : SrsHttpMessage} {pa : Option Bytes} {url : Bytes} {jsonp : Bool} {e : Option SrsError}
    (h : m.setUrl pa url jsonp = (e, m')) : SameHeader m m' ∧ m'.url = url := by
  obtain ⟨uri, ext, query, jsonp', jsonpMethod, rfl⟩ := setUrl_cases h
  exact ⟨⟨rfl, rfl, rfl, rfl, rfl, rfl⟩, rfl⟩

theorem sameHeader_getHostPort (m : SrsHttpMessage) : SameHeader m m.getHostPort ∧
    m.getHostPort.url = m.url := by
  unfold SrsHttpMessage.getHostPort
  split_ifs
  · exact ⟨⟨rfl, rfl, rfl, rfl, rfl, rfl⟩, rfl⟩
  · simp only
    split_ifs
    · exact ⟨⟨rfl, rfl, rfl, rfl, rfl, rfl⟩, rfl⟩
    · exact ⟨⟨rfl, rfl, rfl, rfl, rfl, rfl⟩, rfl⟩

/-- The message of a header: `set_basic` and `set_header`, and, for a request, the url. -/
theorem messageOf_eq {pa : Option Bytes} {o : SrsHttpParser} {h : Head} {hp : HttpParser} {m : SrsHttpMessage}
    (hhp : h.hp = some hp) (hm : (messageOf pa o h).2 = some m) :
    ∃ m', SameHeader ((SrsHttpMessage.new.setBasic hp.type hp.method hp.statusCode
        (toInt64 hp.contentLength)).setHeader h.header hp.shouldKeepAlive) m' ∧
      (o.type = .request → m'.url = h.url) ∧ m = m'.restoreHttpHeader := by
  unfold messageOf toMessage at hm
  simp only [hhp] at hm
  cases ht : o.type with
  | response =>
    simp only [ht] at hm
    cases hm
    exact ⟨_, ⟨rfl, rfl, rfl, rfl, rfl, rfl⟩, by simp, rfl⟩
  | request =>
    simp only [ht] at hm
    split at hm
    · cases hm
    · rename_i m₁ heq
      split at heq
      · cases heq
      · rename_i m₂ hurl
        cases heq
        cases hm
        obtain ⟨h1, hu1⟩ := sameHeader_setUrl hurl
        obtain ⟨h2, hu2⟩ := sameHeader_getHostPort m₂
        exact ⟨m₂.getHostPort, ⟨h2.type.trans h1.type, h2.method.trans h1.method, h2.status.trans h1.status,
          h2.contentLength.trans h1.contentLength, h2.chunked.trans h1.chunked, h2.header.trans h1.header⟩,
          fun _ => hu2.trans hu1, rfl⟩

/-- **The framing of a message**, in terms of the fields of its header. -/
theorem messageOf_framing {pa : Option Bytes} {o : SrsHttpParser} {h : Head} {hp : HttpParser}
    {m : SrsHttpMessage} (hhp : h.hp = some hp) (hm : (messageOf pa o h).2 = some m) :
    m.chunked = decide (lookedUp h.fields (str "Transfer-Encoding") = str "chunked") ∧
      m.contentLength =
        (if lookedUp h.fields (str "Content-Length") = [] then toInt64 hp.contentLength
          else atoll (lookedUp h.fields (str "Content-Length"))) ∧
      m.status = hp.statusCode := by
  obtain ⟨m', hsame, -, rfl⟩ := messageOf_eq hhp hm
  refine ⟨?_, ?_, hsame.status⟩
  · show m'.chunked = _
    rw [hsame.chunked, ← header_get]
    simp only [SrsHttpMessage.setHeader]
  · show m'.contentLength = _
    rw [hsame.contentLength, ← header_get]
    simp only [SrsHttpMessage.setHeader, SrsHttpMessage.setBasic, SrsHttpMessage.new, if_true]

/-! ## What the http-parser found -/

theorem isNum_eq (ch : Byte) : isNum ch = isDigitIn 10 ch :=
  forall_byte (P := fun ch => isNum ch = isDigitIn 10 ch) (by decide +kernel) ch

theorem not_isNum_of_isBlank {ch : Byte} (h : isBlank ch) : isNum ch = false := by
  rcases h with rfl | rfl <;> decide

/-- The number a value of `Content-Length` denotes. -/
def lengthOf (v : Bytes) : Nat := digitsValue 10 (v.takeWhile isNum)

theorem lengthOf_eq {ds ws : Bytes} {folded : Bool} {n : Nat} (h : LengthValue ds ws folded n) :
    lengthOf (ds ++ ws) = n := by
  unfold lengthOf
  rw [List.takeWhile_append_of_pos h.isNum]
  have hws : ws.takeWhile isNum = [] := by
    cases ws with
    | nil => rfl
    | cons w ws => simp [not_isNum_of_isBlank (h.isBlank w (by simp))]
  rw [hws, List.append_nil, h.value]

/-- What `atoll` makes of such a value. -/
theorem atoll_lengthValue {ds ws : Bytes} {folded : Bool} {n : Nat} (h : LengthValue ds ws folded n) :
    atoll (ds ++ ws) = clampLong n := by
  rw [atoll_digits h.ne_nil, h.value]
  · intro b hb
    rw [← isNum_eq]
    exact h.isNum b hb
  · intro b hb
    rw [← isNum_eq]
    exact not_isNum_of_isBlank (h.isBlank b hb)

/-- A field that makes the body chunked. -/
def saysChunked (fields : List (Bytes × Bytes)) (folded : List Bool) : Bool :=
  (fields.zip folded).any fun g => isChunkedField g.1 && !g.2

theorem saysChunked_iff (fields : List (Bytes × Bytes)) (folded : List Bool) :
    saysChunked fields folded = true ↔
      ∃ g ∈ fields.zip folded, isChunkedField g.1 = true ∧ g.2 = false := by
  simp [saysChunked]

theorem mem_zip_of_mem {fields : List (Bytes × Bytes)} {fl : List Bool} (hlen : fl.length = fields.length)
    {f : Bytes × Bytes} (hf : f ∈ fields) : ∃ b, (f, b) ∈ fields.zip fl := by
  obtain ⟨i, hi, rfl⟩ := List.getElem_of_mem hf
  refine ⟨fl[i], ?_⟩
  have : (fields.zip fl)[i]? = some (fields[i], fl[i]) := by
    simp [hi, hlen]
  exact List.mem_of_getElem? this

section Header

variable {t : HttpParserType} {H : Bytes} {r : Reading} {hp : HttpParser}

/-- At the end of a header, what the parser found is what the fields say. -/
theorem IsHeader.found (hH : IsHeader t H) (hr : readHead t H = .ok r) (hhp : r.head.hp = some hp) :
    (hp.flags.chunked = true ↔ saysChunked r.head.fields (foldedFields t H) = true) ∧
      LengthIs hp True (lengths (r.head.fields.zip (foldedFields t H))) ∧
      (hp.flags.chunked = true → hp.flags.contentLength = false) ∧
      ∀ g ∈ r.head.fields.zip (foldedFields t H), isContentLength g.1.1 = true → g.1.2 ≠ [] := by
  obtain ⟨hp', hhp', -, hparser, hone⟩ := hH.reported hr
  rw [hhp] at hhp'
  cases hhp'
  have hS := hH.flagsAgree hr
  have hin := hH.not_inField hr
  have hc := hS.chunked
  have hf := hS.full
  have hflags : r.parser.flags = hp.flags := by rw [hparser]
  have hlen : r.parser.contentLength = hp.contentLength := by rw [hparser]
  rw [ended, if_neg (by simp [hin])] at hc hf
  refine ⟨?_, ?_, hone, hf⟩
  · rw [saysChunked_iff, ← hflags]
    exact hc
  · refine hS.length.same ⟨by rw [hflags], by rw [hflags], hlen.symm⟩ fun _ hn => ?_
    rw [hhp] at hn
    cases hn

/-- A header has one `Content-Length` field at most, and the parser its value. -/
theorem IsHeader.length_cases (hH : IsHeader t H) (hr : readHead t H = .ok r) (hhp : r.head.hp = some hp) :
    (hp.contentLength = ULLONG_MAX ∧ ∀ f ∈ r.head.fields, isContentLength f.1 = false) ∨
      hp.flags.chunked = false ∧ ∃ f ∈ r.head.fields, isContentLength f.1 = true ∧
        (∃ ds ws b, f.2 = ds ++ ws ∧ LengthValue ds ws b hp.contentLength) ∧
        ∀ g ∈ r.head.fields, isContentLength g.1 = true → g.2 = f.2 := by
  obtain ⟨-, hl, hone, hfull⟩ := hH.found hr hhp
  have hlen := (hH.flagsAgree hr).len
  have hmem : ∀ g ∈ r.head.fields, isContentLength g.1 = true →
      ∃ b, (g, b) ∈ lengths (r.head.fields.zip (foldedFields t H)) := by
    intro g hg hn
    obtain ⟨b, hb⟩ := mem_zip_of_mem hlen hg
    refine ⟨b, List.mem_filter.2 ⟨hb, ?_⟩⟩
    simp [hn, hfull (g, b) hb hn]
  match hls : lengths (r.head.fields.zip (foldedFields t H)), hl with
  | [], hl =>
    refine .inl ⟨hl.2 trivial, fun f hf => ?_⟩
    by_contra hn
    obtain ⟨b, hb⟩ := hmem f hf (by simpa using hn)
    rw [hls] at hb
    simp at hb
  | [g], hl =>
    have hg : g ∈ lengths (r.head.fields.zip (foldedFields t H)) := by rw [hls]; simp
    obtain ⟨hzip, hkind⟩ := List.mem_filter.1 hg
    obtain ⟨hflag, ds, ws, hsplit, hval⟩ := hl
    have hplain : hp.flags.chunked = false := by
      by_contra hc
      have := hone (by simpa using hc)
      rw [hflag] at this
      cases this
    refine .inr ⟨hplain, g.1, (List.of_mem_zip hzip).1, by simpa using (Bool.and_eq_true _ _ ▸ hkind).1,
      ⟨ds, ws, g.2, hsplit, hval⟩, fun f hf hn => ?_⟩
    obtain ⟨b, hb⟩ := hmem f hf hn
    rw [hls] at hb
    rw [← List.mem_singleton.1 hb]

/-- What is found under `Transfer-Encoding` and reads `chunked` made the body chunked. -/
theorem IsHeader.chunked_of_lookedUp (hH : IsHeader t H) (hr : readHead t H = .ok r)
    (hl : lookedUp r.head.fields (str "Transfer-Encoding") = str "chunked") :
    saysChunked r.head.fields (foldedFields t H) = true := by
  obtain ⟨f, hf, hkey, hv⟩ := mem_of_lookedUp
    (show lookedUp r.head.fields (str "Transfer-Encoding") ≠ [] by rw [hl]; decide)
  have hS := hH.flagsAgree hr
  obtain ⟨b, hb⟩ := mem_zip_of_mem hS.len hf
  have hname : isTransferEncoding f.1 = true := by
    rw [isTransferEncoding, ← canonicalKey_map_token, hkey]
    decide
  rw [hl] at hv
  have hvalue : isChunkedValue f.2 = true := by
    rw [hv]
    decide
  have hfold : b = false := by
    by_contra hb'
    obtain ⟨c, hc, hblank⟩ := (hS.values (f, b) hb).folded (by simpa using hb')
    rw [hv] at hc
    rcases hblank with rfl | rfl <;> revert hc <;> decide
  exact (saysChunked_iff _ _).2 ⟨(f, b), hb, by simp [isChunkedField, hname, hvalue], hfold⟩

/-- What is found under `Content-Length` is the value of a field with that name. -/
theorem isContentLength_of_lookedUp {fields : List (Bytes × Bytes)}
    (h : lookedUp fields (str "Content-Length") ≠ []) :
    ∃ f ∈ fields, isContentLength f.1 = true ∧ f.2 = lookedUp fields (str "Content-Length") := by
  obtain ⟨f, hf, hkey, hv⟩ := mem_of_lookedUp h
  refine ⟨f, hf, ?_, hv⟩
  rw [isContentLength, ← canonicalKey_map_token, hkey]
  decide

end Header

/-! ## The two decisions -/

/-- The content length that the http-parser found, -1 for none. -/
def HttpParser.length (hp : HttpParser) : Int :=
  if hp.contentLength = ULLONG_MAX then -1 else hp.contentLength

/-- The message and the http-parser agree on the body. -/
structure Agrees (m : SrsHttpMessage) (hp : HttpParser) : Prop where
  chunked : m.chunked = true ↔ hp.flags.chunked = true
  length : hp.flags.chunked = false → m.contentLength = hp.length

/-- Where a field makes the body chunked, the last field that goes into the map under the name
`Transfer-Encoding` reads `chunked`, and no content length exceeds an `int64_t`. -/
structure PlainFraming (fields : List (Bytes × Bytes)) (folded : List Bool) : Prop where
  chunked : saysChunked fields folded = true → lookedUp fields (str "Transfer-Encoding") = str "chunked"
  length : ∀ f ∈ fields, isContentLength f.1 = true → lengthOf f.2 < 2 ^ 63

section Message

variable {t : HttpParserType} {H : Bytes} {pa : Option Bytes} {r : Reading} {hp : HttpParser} {o : SrsHttpParser}
  {m : SrsHttpMessage}

theorem toInt64_max : toInt64 (ULLONG_MAX : Int) = -1 := by decide

/-- The content lengths are the same exactly if the one in the header fits an `int64_t`. -/
theorem length_iff (hH : IsHeader t H) (hr : readHead t H = .ok r) (hhp : r.head.hp = some hp)
    (hm : (messageOf pa o r.head).2 = some m) :
    m.contentLength = hp.length ↔
      ∀ f ∈ r.head.fields, isContentLength f.1 = true → lengthOf f.2 < 2 ^ 63 := by
  obtain ⟨-, hlen, -⟩ := messageOf_framing hhp hm
  rcases hH.length_cases hr hhp with ⟨hmax, hnone⟩ | ⟨-, f, hf, hn, ⟨ds, ws, b, hsplit, hval⟩, honly⟩
  · -- there is no such field
    have hnil : lookedUp r.head.fields (str "Content-Length") = [] := by
      by_contra hne
      obtain ⟨f, hf, hn, -⟩ := isContentLength_of_lookedUp hne
      rw [hnone f hf] at hn
      cases hn
    rw [hlen, if_pos hnil, hmax, HttpParser.length, if_pos hmax, toInt64_max]
    refine ⟨fun _ f hf hn => ?_, fun _ => rfl⟩
    rw [hnone f hf] at hn
    cases hn
  · have hbound := hval.le
    have hvalue : lengthOf f.2 = hp.contentLength := by rw [hsplit, lengthOf_eq hval]
    have hne : hp.contentLength ≠ ULLONG_MAX := by
      intro hmax
      rw [hmax] at hbound
      exact absurd hbound (by decide)
    have hlt : hp.contentLength < 2 ^ 64 := by
      simp only [maxLengthTens, ULLONG_MAX] at hbound
      omega
    have hmsg : m.contentLength = toInt64 hp.contentLength ∨
      m.contentLength = clampLong hp.contentLength := by
      rw [hlen]
      by_cases hnil : lookedUp r.head.fields (str "Content-Length") = []
      · exact .inl (if_pos hnil)
      · obtain ⟨g, hg, hgn, hgv⟩ := isContentLength_of_lookedUp hnil
        refine .inr ?_
        rw [if_neg hnil, ← hgv, honly g hg hgn, hsplit, atoll_lengthValue hval]
    have hiff : m.contentLength = hp.length ↔ hp.contentLength < 2 ^ 63 := by
      rw [HttpParser.length, if_neg hne]
      rcases hmsg with h | h <;> rw [h]
      · simp only [toInt64, Int.bmod]
        omega
      · simp only [clampLong]
        omega
    rw [hiff]
    constructor
    · intro h g hg hgn
      rw [honly g hg hgn, hvalue]
      exact h
    · intro h
      have := h f hf hn
      rwa [hvalue] at this

/-- The message and the parser agree exactly if the fields are plain. -/
theorem agrees_iff_plainFraming (hH : IsHeader t H) (hr : readHead t H = .ok r) (hhp : r.head.hp = some hp)
    (hm : (messageOf pa o r.head).2 = some m) :
    Agrees m hp ↔ PlainFraming r.head.fields (foldedFields t H) := by
  obtain ⟨hchunked, -, -⟩ := messageOf_framing hhp hm
  obtain ⟨hfound, -⟩ := hH.found hr hhp
  have hlook := hH.chunked_of_lookedUp hr
  have hlength := length_iff hH hr hhp hm
  have hmc : m.chunked = true ↔ lookedUp r.head.fields (str "Transfer-Encoding") = str "chunked" := by
    rw [hchunked, decide_eq_true_eq]
  constructor
  · intro h
    refine ⟨fun hs => hmc.1 (h.chunked.2 (hfound.2 hs)), fun f hf hn => ?_⟩
    rcases hH.length_cases hr hhp with ⟨-, hnone⟩ | ⟨hplain, -⟩
    · rw [hnone f hf] at hn
      cases hn
    · exact hlength.1 (h.length hplain) f hf hn
  · intro h
    exact ⟨⟨fun hc => hfound.2 (hlook (hmc.1 hc)), fun hc => hmc.2 (h.chunked (hfound.1 hc))⟩,
      fun _ => hlength.2 h.length⟩

/-- **Framing agreement.**  For every header, in whatever pieces it arrives without a cut inside
a field name, the message and the http-parser agree on whether the body is chunked and on its
length, if and only if the field that is looked up reads `chunked` whenever a field makes the
body chunked, and no content length exceeds an `int64_t`. -/
theorem framing_agrees_iff (pa : Option Bytes) {src : Source} {ps : List Bytes} (hH : IsHeader t H)
    (hread : readHead t H = .ok r) (hhp : r.head.hp = some hp) (hd : src.Delivers ps)
    (hps : ps.flatten = H) (hb : src.buffer.nbBuffer = SRS_DEFAULT_RECV_BUFFER_SIZE)
    (hcut : NoNameCut ps) (hm : (parseMessage pa (new t) src).msg = some m) :
    Agrees m hp ↔ PlainFraming r.head.fields (foldedFields t H) := by
  have hmsg := (parseMessage_of_delivers pa (o := new t) hH hd hps hb hcut).2
  rw [show readHead (new t).type H = .ok r from hread, hm] at hmsg
  exact agrees_iff_plainFraming hH hread hhp hmsg.symm

end Message

/-- A response with a chunked body. -/
def chunkedResponse : Bytes := str "HTTP/1.1 200 OK\r\nTransfer-Encoding: chunked\r\n\r\n"

/-- Both take it for chunked. -/
theorem framing_agrees_iff_chunked :
    ∃ m hp, (parseMessage none (new .response) (Source.ofPieces [chunkedResponse])).msg = some m ∧
      hp.flags.chunked = true ∧ Agrees m hp := by
  obtain ⟨hH, r, hr⟩ := isHeader_of_accepts (t := .response) (H := chunkedResponse) (by decide)
  obtain ⟨hp, hhp⟩ := Option.ne_none_iff_exists'.1 (hH.ends r hr)
  have hfacts : (readHead .response chunkedResponse).toOption.map (fun r =>
      (r.head.fields, r.head.hp.map fun hp => hp.flags.chunked)) =
      some ([(str "Transfer-Encoding", str "chunked")], some true) := by decide
  rw [hr] at hfacts
  obtain ⟨hfields, hflag⟩ := Prod.mk.inj (Option.some.inj hfacts)
  rw [hhp] at hflag
  have hmsg : (parseMessage none (new .response) (Source.ofPieces [chunkedResponse])).msg.isSome = true := by
    decide
  obtain ⟨m, hm⟩ := Option.isSome_iff_exists.1 hmsg
  refine ⟨m, hp, hm, Option.some.inj hflag, ?_⟩
  refine (@framing_agrees_iff .response chunkedResponse r hp m none (Source.ofPieces [chunkedResponse])
    [chunkedResponse] hH hr hhp (by decide) (by simp) rfl (noNameCut_of_getLast (by simp)) hm).2 ?_
  rw [hfields]
  exact ⟨fun _ => by decide, by decide⟩

/-- The same in a spelling that the map does not know. -/
def capitalChunked : Bytes := str "HTTP/1.1 200 OK\r\nTransfer-Encoding: Chunked\r\n\r\n"

/-- The http-parser takes the body for chunked, the message does not. -/
theorem framing_disagrees_capital :
    ∃ r hp m, IsHeader .response capitalChunked ∧ readHead .response capitalChunked = .ok r ∧
      r.head.hp = some hp ∧
      (parseMessage none (new .response) (Source.ofPieces [capitalChunked])).msg = some m ∧ ¬ Agrees m hp := by
  obtain ⟨hH, r, hr⟩ := isHeader_of_accepts (t := .response) (H := capitalChunked) (by decide)
  obtain ⟨hp, hhp⟩ := Option.ne_none_iff_exists'.1 (hH.ends r hr)
  have hflag : (readHead .response capitalChunked).toOption.map (fun r =>
      r.head.hp.map fun hp => hp.flags.chunked) = some (some true) := by decide
  rw [hr] at hflag
  have hflag' : r.head.hp.map (fun hp => hp.flags.chunked) = some true := Option.some.inj hflag
  rw [hhp] at hflag'
  have hmsg : (parseMessage none (new .response) (Source.ofPieces [capitalChunked])).msg.map (·.chunked) =
      some false := by decide
  obtain ⟨m, hm, hmc⟩ := Option.map_eq_some_iff.1 hmsg
  refine ⟨r, hp, m, hH, hr, hhp, hm, fun h => ?_⟩
  have := h.chunked.2 (Option.some.inj hflag')
  rw [hmc] at this
  cases this

end HttpProxy
