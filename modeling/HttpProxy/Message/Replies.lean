import HttpProxy.Message.Found
import HttpProxy.Message.Message
import HttpProxy.Message.Writev

/-!
# Responses of the library

The functions that answer a request by themselves: `srs_api_response_json` and
`srs_api_response_jsonp` (`src/app/srs_app_http_api.cpp`, lines 14-56), `srs_go_http_error` and
the redirect handler (`src/protocol/srs_protocol_http_stack.cpp`, lines 97-110 and 419-438).

* `Replied` — a reader finds one header, behind it a body of the length that it declares, and no write
  has failed.
* `sends_writeEach` — pieces that add up to the declared length.
* `library_replied` — all of the functions answer so, unless a location has lines of its own.
-/

namespace HttpProxy

open SrsHttpResponseWriter SrsHttpHeader

/-! ## The functions -/

/-- `srs_api_response_jsonp`. -/
def srsApiResponseJsonp (w : SrsHttpResponseWriter) (callback data : Bytes) :
    Option SrsError × List Attempt × SrsHttpResponseWriter :=
  let w := { w with hdr := w.hdr.setContentLength ((data.length + callback.length + 2 : Nat) : Int) }
  let w := { w with hdr := w.hdr.setContentType (str "text/javascript") }
  SrsHttpResponseWriter.writeEach ((if callback = [] then [] else [callback]) ++ [str "(", data, str ")"]) w

/-- `srs_api_response_json`. -/
def srsApiResponseJson (w : SrsHttpResponseWriter) (data : Bytes) :
    Option SrsError × List Attempt × SrsHttpResponseWriter :=
  let w := { w with hdr := w.hdr.setContentLength (data.length : Int) }
  let w := { w with hdr := w.hdr.setContentType (str "application/json") }
  SrsHttpResponseWriter.writeEach [data] w

/-- `srs_go_http_error`. -/
def srsGoHttpError (w : SrsHttpResponseWriter) (code : Int) (error : Bytes) :
    Option SrsError × List Attempt × SrsHttpResponseWriter :=
  let w := { w with hdr := w.hdr.setContentType (str "text/plain; charset=utf-8") }
  let w := { w with hdr := w.hdr.setContentLength (error.length : Int) }
  SrsHttpResponseWriter.writeEach [error] (w.writeHeader code)

/-- `SrsHttpRedirectHandler`. -/
structure SrsHttpRedirectHandler where
  url : Bytes
  code : Int

namespace SrsHttpRedirectHandler

/-- Where `serve_http` redirects to. -/
def location (h : SrsHttpRedirectHandler) (r : SrsHttpMessage) : Bytes :=
  if r.queryText = [] then h.url else h.url ++ (str "?" ++ r.queryText)

/-- `serve_http`, which does not look at what the calls return. -/
def serveHttp (h : SrsHttpRedirectHandler) (w : SrsHttpResponseWriter) (r : SrsHttpMessage) :
    Option SrsError × List Attempt × SrsHttpResponseWriter :=
  let msg := str "Redirect to " ++ h.location r
  let w := { w with hdr := w.hdr.setContentType (str "text/plain; charset=utf-8") }
  let w := { w with hdr := w.hdr.setContentLength (msg.length : Int) }
  let w := { w with hdr := w.hdr.set (str "Location") (h.location r) }
  let r₁ := (w.writeHeader h.code).step (.write (.data msg))
  let r₂ := r₁.2.2.step .finalRequest
  (none, r₁.2.1 ++ r₂.2.1, r₂.2.2)

end SrsHttpRedirectHandler

/-! ## What they send -/

/-- Behind what was on the wire, a reader finds a header with the status and the length of the body, and
behind it the body and nothing else; no write has failed. -/
structure Replied (io : Sink) (status : Int) (body : Bytes)
    (r : Option SrsError × List Attempt × SrsHttpResponseWriter) : Prop where
  err : r.1 = none
  writes : ∀ a ∈ r.2.1, a.err = none
  wire : ∃ text fields, r.2.2.skt.sent = io.sent ++ text ∧
    Rfc.takeHeader [] text = some (codeLine status :: fields, body) ∧ Rfc.SaysLength fields body.length

/-- The header `H`, which says the length of the body, and the body have been sent; no write has failed. -/
structure SendsWhole (io : Sink) (status : Int) (H : SrsHttpHeader) (body : Bytes)
    (r : Option SrsError × List Attempt × SrsHttpResponseWriter) : Prop where
  err : r.1 = none
  writes : ∀ a ∈ r.2.1, a.err = none
  wire : r.2.2.skt.sent = io.sent ++ headerBlock status H ++ body
  length : H.SaysLength body.length

/-- The lines that a location makes behind its own are no line ends and do not disagree about the body. -/
def OneLine (location body : Bytes) : Prop :=
  ∀ l ∈ linesBehind location, l ≠ [] ∧ Rfc.Accords body.length l

variable {io : Sink} {w : SrsHttpResponseWriter} {h : SrsHttpHeader} {d : Bytes} {ds : List Bytes} {n : Nat}

/-- Pieces one by one end with the first error. -/
theorem writeEach_log (ds : List Bytes) (w : SrsHttpResponseWriter)
    (hnone : (SrsHttpResponseWriter.writeEach ds w).1 = none) :
    ∀ a ∈ (SrsHttpResponseWriter.writeEach ds w).2.1, a.err = none := by
  induction ds generalizing w with
  | nil => simp [SrsHttpResponseWriter.writeEach]
  | cons d ds ih =>
    rw [SrsHttpResponseWriter.writeEach] at hnone ⊢
    cases hwrite : w.writeContent (.data d) with
    | mk err w₁ =>
      rw [hwrite] at hnone
      cases err with
      | some e => cases hnone
      | none =>
        intro a ha
        rcases List.mem_cons.1 ha with rfl | ha
        · rfl
        · exact ih w₁ hnone a ha

/-- One piece is one write. -/
theorem writeEach_one (w : SrsHttpResponseWriter) (d : Bytes) :
    SrsHttpResponseWriter.writeEach [d] w = w.step (.write (.data d)) := by
  show _ = ((w.writeContent (.data d)).1, ([⟨.data d, (w.writeContent (.data d)).1⟩] : List Attempt),
    (w.writeContent (.data d)).2)
  rw [SrsHttpResponseWriter.writeEach]
  cases w.writeContent (.data d) with
  | mk err w₁ => cases err <;> rfl

/-- A header with the length `n` has been written, and nothing has been sent. -/
structure Ready (io : Sink) (code : Int) (n : Nat) (w : SrsHttpResponseWriter) : Prop where
  sound : w.Sound
  wrote : w.headerWrote = true
  unsent : w.headerSent = false
  written : w.written = 0
  wire : w.skt.sent = io.sent
  status : w.status = code
  plans : w.hdr.Plans
  hdr : w.contentLength = w.hdr.contentLength
  length : w.contentLength = n

/-- Pieces that add up to the length in the header. -/
theorem sends_writeEach (d : Bytes) (ds : List Bytes) {w₀ : SrsHttpResponseWriter} {code : Int}
    (h₀ : Ready io code (d :: ds).flatten.length w₀)
    (hdef : w.defaultHeader d.length = w₀) :
    SendsWhole io code (w₀.completeHeader (some d)) (d :: ds).flatten
        (SrsHttpResponseWriter.writeEach (d :: ds) w) ∧
      (SrsHttpResponseWriter.writeEach (d :: ds) w).2.2.Plain ∧
      (SrsHttpResponseWriter.writeEach (d :: ds) w).2.2.written =
        (SrsHttpResponseWriter.writeEach (d :: ds) w).2.2.contentLength := by
  obtain ⟨s, hsend, hs, hwrote, hsent, hlength, hwritten, hbytes⟩ := h₀.sound.sendHeader h₀.wrote (some d)
  rw [h₀.length] at hlength
  rw [h₀.written] at hwritten
  have hplain : s.Plain := ⟨hs, hwrote, hsent, by rw [hlength]; omega⟩
  have heach : SrsHttpResponseWriter.writeEach (d :: ds) w = SrsHttpResponseWriter.writeEach (d :: ds) s := by
    rw [SrsHttpResponseWriter.writeEach, SrsHttpResponseWriter.writeEach,
      writeContent_sent hdef hsend hwrote hsent]
  have hfit : s.written + (d :: ds).flatten.length = s.contentLength := by
    rw [hwritten, hlength, Int.zero_add]
  obtain ⟨log, skt', hcall, hskt, hrel⟩ := hplain.writeEach_fits (Int.le_of_eq hfit)
  have hlog := writeEach_log (d :: ds) w
  rw [heach, hcall] at hlog ⊢
  refine ⟨⟨rfl, hlog rfl, ?_, ?_⟩, hplain.later _ hrel, hfit⟩
  · show skt'.sent = _
    rw [hskt, hbytes, pendingHeader, h₀.unsent, h₀.wire, h₀.status]
    rfl
  · have hsaid := says_completeHeader h₀.plans h₀.hdr (some d)
    rw [h₀.length] at hsaid
    obtain ⟨n, hn, hsaid⟩ := hsaid.resolve_left fun hc => by omega
    obtain rfl : (d :: ds).flatten.length = n := by omega
    exact hsaid

/-! ## The fields that are sent -/

section Fields

variable {P : Bytes × Bytes → Prop} {f : Bytes × Bytes} {key value : Bytes}

/-- `set` adds one field. -/
theorem forall_outFields_set (hset : P (canonicalKey key, value)) (hP : ∀ f ∈ h.outFields, P f) :
    ∀ f ∈ (h.set key value).outFields, P f := by
  intro f hf
  rcases mem_outFields_iff.1 hf with hmem | hcookie
  · rcases mem_set.1 hmem with rfl | ⟨hmem, -⟩
    · exact hset
    · exact hP f (mem_outFields_iff.2 (.inl hmem))
  · exact hP f (mem_outFields_iff.2 (.inr hcookie))

/-- `set` keeps the fields of other names. -/
theorem mem_entries_set (hf : f ∈ h.headers.entries) (hne : f.1 ≠ canonicalKey key) :
    f ∈ (h.set key value).headers.entries := mem_set.2 (.inr ⟨hf, hne⟩)

/-- The fields that `send_header` may add. -/
def addedFields : List (Bytes × Bytes) :=
  [(str "Content-Type", str "application/octet-stream"), (str "Server", RTMP_SIG_SRS_SERVER),
    (str "Transfer-Encoding", str "chunked"), (str "Connection", str "Keep-Alive")]

/-- The other ones are those of the header. -/
theorem forall_outFields_completeHeader (hadded : ∀ f ∈ addedFields, P f) (hP : ∀ f ∈ w.hdr.outFields, P f)
    (data : Option Bytes) : ∀ f ∈ (w.completeHeader data).outFields, P f := by
  have hset {h : SrsHttpHeader} (key value : Bytes) (hmem : (canonicalKey key, value) ∈ addedFields)
      (hP : ∀ f ∈ h.outFields, P f) (c : Prop) [Decidable c] :
      ∀ f ∈ (if c then h.set key value else h).outFields, P f := by
    split_ifs
    · exact forall_outFields_set (hadded _ hmem) hP
    · exact hP
  refine hset _ _ (by decide) (hset _ _ (by decide) (hset _ _ (by decide) ?_ _) _) _
  cases data with
  | none => exact hP
  | some d =>
    have hmem : (canonicalKey (str "Content-Type"), str "application/octet-stream") ∈ addedFields := by decide
    exact hset _ _ hmem hP _

theorem mem_entries_completeHeader (hf : f ∈ w.hdr.headers.entries) (hother : f.1 ∉ addedFields.map Prod.fst)
    (data : Option Bytes) : f ∈ (w.completeHeader data).headers.entries := by
  have hset {h : SrsHttpHeader} (key value : Bytes) (hmem : canonicalKey key ∈ addedFields.map Prod.fst)
      (hf : f ∈ h.headers.entries) (c : Prop) [Decidable c] :
      f ∈ (if c then h.set key value else h).headers.entries := by
    split_ifs
    · exact mem_entries_set hf fun heq => hother (heq ▸ hmem)
    · exact hf
  refine hset _ _ (by decide) (hset _ _ (by decide) (hset _ _ (by decide) ?_ _) _) _
  cases data with
  | none => exact hf
  | some d => exact hset _ _ (by decide) hf _

end Fields

/-- The field is a line of its own. -/
def OwnLine (f : Bytes × Bytes) : Prop := NameLine f.1 ∧ LF ∉ f.2

theorem ownLine_addedFields : ∀ f ∈ addedFields, OwnLine f := by
  unfold OwnLine
  decide

theorem ownLine_contentLength (n : Nat) : OwnLine (canonicalKey (str "Content-Length"), srsInt2str (n : Int)) := by
  refine ⟨show NameLine (canonicalKey (str "Content-Length")) by decide, fun hmem => ?_⟩
  rw [srsInt2str, if_neg (by omega), Int.natAbs_natCast] at hmem
  exact absurd (decimal_isDigitIn n _ hmem) (by decide)

/-- Fields that are lines of their own are found as they were sent. -/
theorem SendsWhole.replied {H : SrsHttpHeader} {body : Bytes} {code : Int}
    {r : Option SrsError × List Attempt × SrsHttpResponseWriter}
    (hr : SendsWhole io code H body r) (hown : ∀ f ∈ H.outFields, OwnLine f) : Replied io code body r := by
  refine ⟨hr.err, hr.writes, headerBlock code H ++ body, ?_⟩
  have hfound := (found_iff code body (fun f hf => (hown f hf).1) hr.length).2 fun f hf l hl => by
    rw [linesBehind_of_notMem (hown f hf).2] at hl
    cases hl
  obtain ⟨fields, htake, hsays⟩ := hfound
  exact ⟨fields, hr.wire.trans (List.append_assoc _ _ _), htake, hsays⟩

/-- The header with a length, and no other field that tells how the body is encoded. -/
theorem saysLength_setContentLength (hs : SameFraming h .empty) (n : Nat) :
    (h.setContentLength n).SaysLength n := by
  have hkey : canonicalKey (str "Content-Length") = str "Content-Length" := by decide
  have hne : ¬ SameName (str "Content-Length") (str "Transfer-Encoding") := by decide
  have hempty (key v name : Bytes) : ¬ SrsHttpHeader.empty.IsField name key v := fun hf => by cases hf.1
  refine ⟨⟨str "Content-Length", decimal n, mem_set.2 (.inl ?_), .refl _⟩, fun key v hf => ?_,
    fun key v hf => ?_⟩
  · rw [hkey]
    rfl
  · rcases mem_set.1 hf.1 with heq | ⟨hold, -⟩
    · obtain rfl : v = decimal n := (Prod.mk.inj heq).2
      exact ⟨decimal_ne_nil n, decimal_isDigitIn n, digitsValue_decimal n⟩
    · exact absurd ((hs.length key v).1 ⟨hold, hf.2⟩) (hempty _ _ _)
  · exact absurd ((hs.coding key v).1 ((isField_set hne key v).1 hf)) (hempty _ _ _)

/-- A fresh writer with such a header, once it is written. -/
theorem ready_writeHeader (hio : io.Reliable) (code : Int) (hn : n < 2 ^ 31) (hlen : h.contentLength = n)
    (hsaid : h.SaysLength n) : Ready io code n (writeHeader { init io with hdr := h } code) := by
  rw [writeHeader_eq rfl]
  exact ⟨⟨rfl, hio, fun _ => rfl, fun _ => rfl⟩, rfl, rfl, rfl, rfl, rfl,
    .inr ⟨n, by omega, hlen, hsaid⟩, rfl, hlen⟩

/-- With a content type and a length `write` adds nothing to the header. -/
theorem defaultHeader_declares (hfirst : w.headerWrote = false) (htype : w.hdr.contentType ≠ [])
    (hlen : w.hdr.contentLength ≠ -1) (size : Nat) : w.defaultHeader size = w.writeHeader 200 := by
  unfold defaultHeader
  rw [if_neg (by simp [hfirst]), if_neg htype]
  simp only [if_neg hlen]

/-- A content type says nothing about how the body is encoded. -/
theorem sameFraming_setContentType (h : SrsHttpHeader) (ct : Bytes) : SameFraming (h.setContentType ct) h :=
  sameFraming_set (by decide) ct

/-- The header of the api: the length, then the content type. -/
theorem says_api (ct : Bytes) (hn : n < 2 ^ 31) :
    ((SrsHttpHeader.empty.setContentLength n).setContentType ct).contentLength = n ∧
    ((SrsHttpHeader.empty.setContentLength n).setContentType ct).SaysLength n := by
  refine ⟨?_, (saysLength_setContentLength (.refl _) n).congr (sameFraming_setContentType _ ct)⟩
  rw [contentLength_setContentType]
  exact contentLength_some (declares_setContentLength _ (by omega))

/-- The header of an error: the content type, then the length. -/
theorem says_error (ct : Bytes) (hn : n < 2 ^ 31) :
    ((SrsHttpHeader.empty.setContentType ct).setContentLength n).contentLength = n ∧
    ((SrsHttpHeader.empty.setContentType ct).setContentLength n).SaysLength n :=
  ⟨contentLength_some (declares_setContentLength _ (by omega)),
    saysLength_setContentLength (sameFraming_setContentType _ ct) n⟩

/-- An answer of the api. -/
theorem replied_api (hio : io.Reliable) {ct : Bytes} (hct : ct ≠ []) (hlf : LF ∉ ct) (d : Bytes) (ds : List Bytes)
    (hn : (d :: ds).flatten.length < 2 ^ 31) :
    Replied io 200 (d :: ds).flatten (SrsHttpResponseWriter.writeEach (d :: ds)
      { init io with hdr :=
          (SrsHttpHeader.empty.setContentLength ((d :: ds).flatten.length : Nat)).setContentType ct }) := by
  obtain ⟨hlen, hsaid⟩ := says_api ct hn
  have htype :
      ((SrsHttpHeader.empty.setContentLength ((d :: ds).flatten.length : Nat)).setContentType
        ct).contentType ≠ [] := by
    have hget := get_set_self
      (SrsHttpHeader.empty.setContentLength ((d :: ds).flatten.length : Nat)) (str "Content-Type") ct
    rw [show canonicalKey (str "Content-Type") = str "Content-Type" by decide] at hget
    exact fun hnil => hct (hget.symm.trans hnil)
  refine (sends_writeEach d ds (ready_writeHeader hio 200 hn hlen hsaid)
    (defaultHeader_declares rfl htype (by rw [hlen]; omega) d.length)).1.replied ?_
  have hname : NameLine (canonicalKey (str "Content-Type")) := by decide
  exact forall_outFields_completeHeader ownLine_addedFields (forall_outFields_set ⟨hname, hlf⟩
    (forall_outFields_set (ownLine_contentLength _) (by simp [outFields, SrsHttpHeader.empty, OrdMap.empty]))) _

/-- An answer with a status. -/
theorem sends_status (hio : io.Reliable) (code : Int) (hn : d.length < 2 ^ 31)
    (hlen : h.contentLength = d.length)
    (hsaid : h.SaysLength d.length) :
    SendsWhole io code ((writeHeader { init io with hdr := h } code).completeHeader (some d)) d
        ((writeHeader { init io with hdr := h } code).step (.write (.data d))) ∧
      ((writeHeader { init io with hdr := h } code).step (.write (.data d))).2.2.Plain ∧
      ((writeHeader { init io with hdr := h } code).step (.write (.data d))).2.2.written =
        ((writeHeader { init io with hdr := h } code).step (.write (.data d))).2.2.contentLength := by
  have hready := ready_writeHeader hio code hn hlen hsaid
  have hsends := sends_writeEach d [] (w := writeHeader { init io with hdr := h } code)
    (by rw [List.flatten_cons, List.flatten_nil, List.append_nil]; exact hready)
      (defaultHeader_of_wrote hready.wrote d.length)
  rw [writeEach_one, List.flatten_cons, List.flatten_nil, List.append_nil] at hsends
  exact hsends

/-- `final_request` adds nothing to a body that is complete. -/
theorem SendsWhole.finalRequest {code : Int} {H : SrsHttpHeader} {body : Bytes}
    {r : Option SrsError × List Attempt × SrsHttpResponseWriter}
    (hr : SendsWhole io code H body r) (hplain : r.2.2.Plain) (hfull : r.2.2.written = r.2.2.contentLength) :
    SendsWhole io code H body
      (none, r.2.1 ++ (r.2.2.step .finalRequest).2.1, (r.2.2.step .finalRequest).2.2) := by
  obtain ⟨err, log, s⟩ := r
  have hfinal : s.finalRequest = (none, s) := by
    unfold SrsHttpResponseWriter.finalRequest
    rw [writeHeader_of_wrote hplain.wrote, sendHeader, if_pos hplain.sent]
    simp only [if_neg hplain.length]
    rw [SrsHttpResponseWriter.write, defaultHeader_of_wrote hplain.wrote, sendHeader, if_pos hplain.sent]
    simp only [Option.getD_none, List.length_nil, Nat.cast_zero, Int.add_zero, if_true]
    have hover : ¬ (s.contentLength ≠ -1 ∧ s.contentLength < s.written) := by
      rw [show s.written = s.contentLength from hfull]
      omega
    rw [if_neg hover]
  have hstep : s.step .finalRequest = (none, [⟨.null 0, none⟩], s) := by
    unfold step
    simp only [hfinal, writeHeader_of_wrote hplain.wrote, if_neg hplain.length]
  simp only [hstep]
  refine ⟨rfl, fun a ha => ?_, hr.wire, hr.length⟩
  rcases List.mem_append.1 ha with ha | ha
  · exact hr.writes a ha
  · rw [List.mem_singleton.1 ha]

/-- An answer of the api without a callback. -/
theorem replied_json (hio : io.Reliable) (data : Bytes) (hdata : data.length < 2 ^ 31) :
    Replied io 200 data (srsApiResponseJson (init io) data) := by
  have hflat : [data].flatten = data := by simp
  have hreplied := replied_api hio (show str "application/json" ≠ [] by decide) (by decide) data []
    (by rw [hflat]; exact hdata)
  rw [hflat] at hreplied
  exact hreplied

/-- An answer of the api with a callback, which may be empty. -/
theorem replied_jsonp (hio : io.Reliable) (callback data : Bytes)
    (hjsonp : (callback ++ str "(" ++ data ++ str ")").length < 2 ^ 31) :
    Replied io 200 (callback ++ str "(" ++ data ++ str ")") (srsApiResponseJsonp (init io) callback data) := by
  have hone : (str "(").length = 1 ∧ (str ")").length = 1 := by decide
  have hlength : (callback ++ str "(" ++ data ++ str ")").length = data.length + callback.length + 2 := by
    simp only [List.length_append, hone.1, hone.2]
    omega
  by_cases hnil : callback = []
  · subst hnil
    have hflat : (str "(" :: [data, str ")"]).flatten = [] ++ str "(" ++ data ++ str ")" := by simp
    have hreplied := replied_api hio (show str "text/javascript" ≠ [] by decide) (by decide) (str "(")
      [data, str ")"] (by rw [hflat]; exact hjsonp)
    rw [hflat, hlength] at hreplied
    exact hreplied
  · have hflat : (callback :: [str "(", data, str ")"]).flatten =
        callback ++ str "(" ++ data ++ str ")" := by
      simp
    have hreplied := replied_api hio (show str "text/javascript" ≠ [] by decide) (by decide) callback
      [str "(", data, str ")"]
      (by rw [hflat]; exact hjsonp)
    rw [hflat, hlength] at hreplied
    rw [srsApiResponseJsonp, if_neg hnil]
    exact hreplied

/-- An error page. -/
theorem replied_goHttpError (hio : io.Reliable) (code : Int) (error : Bytes) (herror : error.length < 2 ^ 31) :
    Replied io code error (srsGoHttpError (init io) code error) := by
  obtain ⟨hlen, hsaid⟩ := says_error (str "text/plain; charset=utf-8") herror
  have hsends := (sends_status hio code herror hlen hsaid).1
  rw [← writeEach_one] at hsends
  refine hsends.replied ?_
  exact forall_outFields_completeHeader ownLine_addedFields (forall_outFields_set (ownLine_contentLength _)
    (forall_outFields_set ⟨by decide, by decide⟩ (by simp [outFields, SrsHttpHeader.empty, OrdMap.empty]))) _

/-- The header of a redirect. -/
def SrsHttpRedirectHandler.header (h : SrsHttpRedirectHandler) (r : SrsHttpMessage) : SrsHttpHeader :=
  ((SrsHttpHeader.empty.setContentType (str "text/plain; charset=utf-8")).setContentLength
    ((str "Redirect to " ++ h.location r).length : Nat)).set (str "Location") (h.location r)

/-- What a redirect sends. -/
theorem sends_redirect (hio : io.Reliable) (h : SrsHttpRedirectHandler) (r : SrsHttpMessage)
    (hredirect : (str "Redirect to " ++ h.location r).length < 2 ^ 31) :
    SendsWhole io h.code
      ((writeHeader { init io with hdr := h.header r } h.code).completeHeader
        (some (str "Redirect to " ++ h.location r)))
      (str "Redirect to " ++ h.location r) (h.serveHttp (init io) r) := by
  obtain ⟨hlen, hsaid⟩ := says_error (str "text/plain; charset=utf-8") hredirect
  have hkey : str "Content-Length" ≠ canonicalKey (str "Location") := by decide
  obtain ⟨hsends, hplain, hfull⟩ := sends_status hio h.code hredirect
    ((contentLength_set hkey _ (h.location r)).trans hlen)
    (hsaid.congr (sameFraming_set (by decide) _))
  exact hsends.finalRequest hplain hfull

/-- The location is the only value that may make other lines. -/
theorem replied_redirect_iff (hio : io.Reliable) (h : SrsHttpRedirectHandler) (r : SrsHttpMessage)
    (hredirect : (str "Redirect to " ++ h.location r).length < 2 ^ 31) :
    Replied io h.code (str "Redirect to " ++ h.location r) (h.serveHttp (init io) r) ↔
      OneLine (h.location r) (str "Redirect to " ++ h.location r) := by
  have hsends := sends_redirect hio h r hredirect
  set w := writeHeader { init io with hdr := h.header r } h.code with hw
  set msg := str "Redirect to " ++ h.location r
  have hhdr : w.hdr = h.header r := rfl
  have hfields : ∀ f ∈ (w.completeHeader (some msg)).outFields,
      OwnLine f ∨ f = (str "Location", h.location r) := by
    refine forall_outFields_completeHeader (fun f hf => .inl (ownLine_addedFields f hf)) ?_ _
    rw [hhdr]
    exact forall_outFields_set (.inr rfl) (forall_outFields_set (.inl (ownLine_contentLength _))
      (forall_outFields_set (.inl ⟨by decide, by decide⟩) (by simp [outFields, SrsHttpHeader.empty, OrdMap.empty])))
  have hkeys : ∀ f ∈ (w.completeHeader (some msg)).outFields, NameLine f.1 := by
    intro f hf
    rcases hfields f hf with hown | rfl
    · exact hown.1
    · exact show NameLine (str "Location") by decide
  have hlocation : (str "Location", h.location r) ∈ (w.completeHeader (some msg)).outFields := by
    refine mem_outFields_iff.2 (.inl (mem_entries_completeHeader ?_
      (show str "Location" ∉ addedFields.map Prod.fst by decide) _))
    exact mem_set.2 (.inl rfl)
  have hfound := found_iff h.code msg hkeys hsends.length
  constructor
  · rintro ⟨-, -, text, fields, hsent, htake, hsays⟩
    have htext : text = headerBlock h.code (w.completeHeader (some msg)) ++ msg :=
      List.append_cancel_left (hsent.symm.trans (hsends.wire.trans (List.append_assoc _ _ _)))
    rw [htext] at htake
    exact hfound.1 ⟨fields, htake, hsays⟩ _ hlocation
  · intro hone
    obtain ⟨fields, htake, hsays⟩ := hfound.2 fun f hf l hl => by
      rcases hfields f hf with hown | rfl
      · rw [linesBehind_of_notMem hown.2] at hl
        cases hl
      · exact hone l hl
    exact ⟨hsends.err, hsends.writes, _, fields, hsends.wire.trans (List.append_assoc _ _ _), htake, hsays⟩

/-- A location without a line feed makes no other line. -/
theorem oneLine_of_notMem {location : Bytes} (h : LF ∉ location) (body : Bytes) : OneLine location body := by
  intro l hl
  rw [linesBehind_of_notMem h] at hl
  cases hl

/-- **Library responses declare their length.** On a transport without failing writes, behind each of
the functions a reader finds one header, whose length is that of the body behind it, and none of the
writes fails; for a redirect, if and only if no line that the location makes is empty or says something
else of the body. -/
theorem library_replied (hio : io.Reliable) (callback data error : Bytes) (code : Int)
    (h : SrsHttpRedirectHandler) (r : SrsHttpMessage)
    (hjsonp : (callback ++ str "(" ++ data ++ str ")").length < 2 ^ 31)
    (herror : error.length < 2 ^ 31)
    (hredirect : (str "Redirect to " ++ h.location r).length < 2 ^ 31) :
    Replied io 200 data (srsApiResponseJson (init io) data) ∧
      Replied io 200 (callback ++ str "(" ++ data ++ str ")") (srsApiResponseJsonp (init io) callback data) ∧
      Replied io code error (srsGoHttpError (init io) code error) ∧
      (Replied io h.code (str "Redirect to " ++ h.location r) (h.serveHttp (init io) r) ↔
        OneLine (h.location r) (str "Redirect to " ++ h.location r)) := by
  refine ⟨replied_json hio data ?_, replied_jsonp hio callback data hjsonp,
    replied_goHttpError hio code error herror,
    replied_redirect_iff hio h r hredirect⟩
  simp only [List.length_append] at hjsonp
  omega

/-- An answer with a callback, one without a page, and a redirect. -/
theorem library_replied_one :
    Replied ⟨[], []⟩ 200 (str "\x7b\x7d") (srsApiResponseJson (init ⟨[], []⟩) (str "\x7b\x7d")) ∧
      Replied ⟨[], []⟩ 200 (str "cb" ++ str "(" ++ str "\x7b\x7d" ++ str ")")
        (srsApiResponseJsonp (init ⟨[], []⟩) (str "cb") (str "\x7b\x7d")) ∧
      Replied ⟨[], []⟩ 404 (str "Not Found") (srsGoHttpError (init ⟨[], []⟩) 404 (str "Not Found")) ∧
      Replied ⟨[], []⟩ 302 (str "Redirect to " ++ SrsHttpRedirectHandler.location ⟨str "/a", 302⟩ .new)
        (SrsHttpRedirectHandler.serveHttp ⟨str "/a", 302⟩ (init ⟨[], []⟩) .new) := by
  have hio : Sink.Reliable ⟨[], []⟩ := by simp [Sink.Reliable]
  obtain ⟨hjson, hjsonp, herror, hredirect⟩ := library_replied hio (str "cb") (str "\x7b\x7d") (str "Not Found") 404
    ⟨str "/a", 302⟩ .new (by decide) (by decide) (by decide)
  exact ⟨hjson, hjsonp, herror, hredirect.2 (oneLine_of_notMem (by decide) _)⟩

/-- Behind an empty line in the location, the rest of the header is a part of the body. -/
theorem library_not_replied :
    ¬ Replied ⟨[], []⟩ 302 (str "Redirect to " ++ SrsHttpRedirectHandler.location ⟨str "/a\r\n\r\nb", 302⟩ .new)
      (SrsHttpRedirectHandler.serveHttp ⟨str "/a\r\n\r\nb", 302⟩ (init ⟨[], []⟩) .new) := by
  have hio : Sink.Reliable ⟨[], []⟩ := by simp [Sink.Reliable]
  rw [replied_redirect_iff hio ⟨str "/a\r\n\r\nb", 302⟩ .new (by decide)]
  exact fun hone => (hone [] (by decide)).1 rfl

end HttpProxy
