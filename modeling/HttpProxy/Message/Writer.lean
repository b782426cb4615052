import HttpProxy.Body.Grammar
import HttpProxy.Message.Header
import HttpProxy.Message.Status
import HttpProxy.Stream.Sink

/-!
# `SrsHttpResponseWriter`: writing a response

`src/protocol/srs_protocol_http_conn.cpp`, lines 911-1158.  The header is written
before the first body byte, and the body either with the declared length or, when
no length has been declared, chunk by chunk: every `write` is one chunk, and
`final_request` writes the zero chunk.

* `writeAll_sent` — what a sequence of writes in chunked mode puts on the wire.
* `decodes_encode` — the decoder reads the encoding back.
* `chunked_round_trip` — the reader delivers what was written, whatever the
  fragmentation, and leaves what follows.
-/

namespace HttpProxy

/-- `RTMP_SIG_SRS_SERVER`. -/
def RTMP_SIG_SRS_SERVER : Bytes := str "SRS/5.0.61(Bee)"

/-- `srs_go_http_detect`, which always falls back. -/
def srsGoHttpDetect (_data : Bytes) : Bytes := str "application/octet-stream"

/-- The response writer. -/
structure SrsHttpResponseWriter where
  skt : Sink
  hdr : SrsHttpHeader
  /-- A filter for the header, `none` for NULL. -/
  hf : Option (SrsHttpHeader → Except SrsError SrsHttpHeader)
  /-- Reply header has been (logically) written. -/
  headerWrote : Bool
  /-- The status code passed to `writeHeader`. -/
  status : Int
  /-- The explicitly-declared Content-Length; or -1. -/
  contentLength : Int
  /-- The number of bytes written in body. -/
  written : Int
  /-- The header's been written to the wire. -/
  headerSent : Bool

namespace SrsHttpResponseWriter

/-- The constructor. -/
def init (io : Sink) : SrsHttpResponseWriter :=
  ⟨io, .empty, none, false, 200, -1, 0, false⟩

/-- `write_header`. -/
def writeHeader (w : SrsHttpResponseWriter) (code : Int) : SrsHttpResponseWriter :=
  if w.headerWrote then w
  else { w with headerWrote := true, status := code, contentLength := w.hdr.contentLength }

/-- The fields `send_header` adds: a content type for the data, the server, the
encoding and the connection. -/
def completeHeader (w : SrsHttpResponseWriter) (data : Option Bytes) : SrsHttpHeader :=
  let h1 := match data with
    | some d =>
        if srsGoHttpBodyAllowd w.status ∧ w.hdr.contentType = [] then
          w.hdr.setContentType (srsGoHttpDetect d)
        else w.hdr
    | none => w.hdr
  let h2 := if h1.get (str "Server") = [] then h1.set (str "Server") RTMP_SIG_SRS_SERVER else h1
  let h3 := if w.contentLength = -1 then h2.set (str "Transfer-Encoding") (str "chunked") else h2
  if h3.get (str "Connection") = [] then h3.set (str "Connection") (str "Keep-Alive") else h3

/-- The header block on the wire. -/
def headerBlock (status : Int) (h : SrsHttpHeader) : Bytes :=
  str "HTTP/1.1 " ++ SrsHttpHeader.srsInt2str status ++ str " " ++
    srsGenerateHttpStatusText status ++ crlf ++ h.write ++ crlf

/-- `send_header`.  Whatever happens to the header, it is tried only once. -/
def sendHeader (w : SrsHttpResponseWriter) (data : Option Bytes) :
    Option SrsError × SrsHttpResponseWriter :=
  if w.headerSent then (none, w)
  else
    let h := w.completeHeader data
    match (match w.hf with | none => .ok h | some f => f h : Except SrsError SrsHttpHeader) with
    | .error e => (some e, { w with headerSent := true, hdr := h })
    | .ok h' =>
        let res := w.skt.write (headerBlock w.status h')
        (res.1, { w with headerSent := true, hdr := h', skt := res.2 })

/-- One chunk of the encoding. -/
def encodeChunk (data : Bytes) : Bytes := fmtX data.length ++ crlf ++ data ++ crlf

/-- The end of the encoding. -/
def lastChunk : Bytes := str "0" ++ crlf ++ crlf

/-- What `write` does first when the header has not been written. -/
def defaultHeader (w : SrsHttpResponseWriter) (size : Nat) : SrsHttpResponseWriter :=
  if w.headerWrote then w
  else
    let h1 := if w.hdr.contentType = [] then w.hdr.setContentType (str "text/plain; charset=utf-8")
      else w.hdr
    let h2 := if h1.contentLength = -1 then h1.setContentLength size else h1
    writeHeader { w with hdr := h2 } 200

/-- `write(data, size)`, where `none` is NULL with size 0. -/
def write (w : SrsHttpResponseWriter) (data : Option Bytes) :
    Option SrsError × SrsHttpResponseWriter :=
  let bytes := data.getD []
  match (w.defaultHeader bytes.length).sendHeader data with
  | (some e, w1) => (some e, w1)
  | (none, w1) =>
      let w2 := { w1 with written := w1.written + bytes.length }
      if w2.contentLength ≠ -1 ∧ w2.contentLength < w2.written then (some .httpContentLength, w2)
      else if bytes = [] then (none, w2)
      else
        let res := w2.skt.write (if w2.contentLength ≠ -1 then bytes else encodeChunk bytes)
        (res.1, { w2 with skt := res.2 })

/-- `final_request`. -/
def finalRequest (w : SrsHttpResponseWriter) : Option SrsError × SrsHttpResponseWriter :=
  match (w.writeHeader 200).sendHeader none with
  | (some e, w1) => (some e, w1)
  | (none, w1) =>
      if w1.contentLength = -1 then
        let res := w1.skt.write lastChunk
        (res.1, { w1 with skt := res.2 })
      else w1.write none

/-- A sequence of writes, until one fails. -/
def writeAll : List Bytes → SrsHttpResponseWriter → Option SrsError × SrsHttpResponseWriter
  | [], w => (none, w)
  | d :: ds, w =>
      match w.write (some d) with
      | (some e, w') => (some e, w')
      | (none, w') => writeAll ds w'

/-! ## What goes on the wire -/

/-- The encoding of a body written in the given pieces. -/
def encode (ds : List Bytes) : Bytes := ds.flatMap encodeChunk ++ lastChunk

/-- The writer is in chunked mode on a transport that does not fail. -/
structure Chunking (w : SrsHttpResponseWriter) : Prop where
  headerWrote : w.headerWrote = true
  contentLength : w.contentLength = -1
  hf : w.hf = none
  reliable : w.skt.Reliable

/-- The header block, if it is still to be sent. -/
def pendingHeader (w : SrsHttpResponseWriter) (data : Option Bytes) : Bytes :=
  if w.headerSent then [] else headerBlock w.status (w.completeHeader data)

variable {w : SrsHttpResponseWriter}

theorem sendHeader_chunking (h : w.Chunking) (data : Option Bytes) :
    ∃ w', w.sendHeader data = (none, w') ∧ w'.Chunking ∧ w'.headerSent = true ∧
      w'.skt.sent = w.skt.sent ++ w.pendingHeader data := by
  rw [sendHeader, pendingHeader]
  split_ifs with hsent
  · exact ⟨w, rfl, h, hsent, by simp⟩
  · simp only [h.hf]
    obtain ⟨s', hwrite, hs', hrel⟩ :=
      Sink.write_of_reliable h.reliable (headerBlock w.status (w.completeHeader data))
    rw [hwrite]
    exact ⟨_, rfl, ⟨h.headerWrote, h.contentLength, rfl, hrel⟩, rfl, hs'⟩

/-- A write in chunked mode is one chunk, behind the header if that is still to
be sent. -/
theorem write_chunking (h : w.Chunking) {d : Bytes} (hd : d ≠ []) :
    ∃ w', w.write (some d) = (none, w') ∧ w'.Chunking ∧ w'.headerSent = true ∧
      w'.skt.sent = w.skt.sent ++ w.pendingHeader (some d) ++ encodeChunk d := by
  obtain ⟨w1, hsend, h1, hsent, hbytes⟩ := sendHeader_chunking h (some d)
  have hdefault : w.defaultHeader d.length = w := by rw [defaultHeader, if_pos h.headerWrote]
  obtain ⟨s', hwrite, hs', hrel⟩ := Sink.write_of_reliable h1.reliable (encodeChunk d)
  refine ⟨{ w1 with written := w1.written + d.length, skt := s' }, ?_, ?_, hsent, ?_⟩
  · simp [write, hdefault, hsend, h1.contentLength, hd, hwrite]
  · exact ⟨h1.headerWrote, h1.contentLength, h1.hf, hrel⟩
  · rw [← hbytes]
    exact hs'

/-- The pieces of a body, one chunk each. -/
theorem writeAll_chunking (h : w.Chunking) {ds : List Bytes} (hds : ∀ d ∈ ds, d ≠ []) :
    ∃ w', writeAll ds w = (none, w') ∧ w'.Chunking ∧
      w'.skt.sent ++ w'.pendingHeader none =
        w.skt.sent ++ w.pendingHeader ds.head? ++ ds.flatMap encodeChunk := by
  induction ds generalizing w with
  | nil => exact ⟨w, rfl, h, by simp⟩
  | cons d ds ih =>
    obtain ⟨w1, hwrite, h1, hsent, hbytes⟩ := write_chunking h (hds d (by simp))
    obtain ⟨w2, hall, h2, hbytes2⟩ := ih h1 fun d hd => hds d (by simp [hd])
    refine ⟨w2, by simp [writeAll, hwrite, hall], h2, ?_⟩
    rw [hbytes2, hbytes]
    simp [pendingHeader, hsent]

theorem finalRequest_chunking (h : w.Chunking) :
    ∃ w', w.finalRequest = (none, w') ∧
      w'.skt.sent = w.skt.sent ++ w.pendingHeader none ++ lastChunk := by
  obtain ⟨w1, hsend, h1, -, hbytes⟩ := sendHeader_chunking h none
  have hheader : w.writeHeader 200 = w := by rw [writeHeader, if_pos h.headerWrote]
  obtain ⟨s', hwrite, hs', -⟩ := Sink.write_of_reliable h1.reliable lastChunk
  refine ⟨{ w1 with skt := s' }, ?_, ?_⟩
  · simp [finalRequest, hheader, hsend, h1.contentLength, hwrite]
  · rw [← hbytes]
    exact hs'

/-- Everything a chunked response puts on the wire: the header block, and the
encoded body. -/
theorem respond_sent (h : w.Chunking) {ds : List Bytes} (hds : ∀ d ∈ ds, d ≠ []) :
    ∃ w1 w2, writeAll ds w = (none, w1) ∧ w1.finalRequest = (none, w2) ∧
      w2.skt.sent = w.skt.sent ++ w.pendingHeader ds.head? ++ encode ds := by
  obtain ⟨w1, hall, h1, hbytes1⟩ := writeAll_chunking h hds
  obtain ⟨w2, hfinal, hbytes2⟩ := finalRequest_chunking h1
  refine ⟨w1, w2, hall, hfinal, ?_⟩
  rw [hbytes2, hbytes1, encode]
  simp

/-- Setting a header without a content length puts the writer in chunked mode. -/
theorem chunking_writeHeader {io : Sink} (hio : io.Reliable) {hdr : SrsHttpHeader}
    (hcl : hdr.get (str "Content-Length") = []) (code : Int) :
    Chunking (writeHeader { init io with hdr := hdr } code) :=
  ⟨rfl, by simp [writeHeader, init, SrsHttpHeader.contentLength, hcl], rfl, hio⟩

/-! ## Reading it back -/

open SrsHttpResponseReader

/-- `%x` writes size lines. -/
theorem hexLine_fmtX (n : Nat) : HexLine (fmtX n) n :=
  ⟨fmtX_ne_nil n, fmtX_isXDigit n, digitsValue_fmtX n⟩

/-- The decoder reads the encoding back, in front of any bytes. -/
theorem decodes_encode {cap : Nat} (hcap : 10 ≤ cap) {ds : List Bytes}
    (hds : ∀ d ∈ ds, d ≠ [] ∧ d.length < 2 ^ 31) (T : Bytes) :
    Decodes cap (encode ds ++ T) ds.flatten T := by
  induction ds with
  | nil =>
    have hdr : chunkAt cap (str "0" ++ crlf ++ crlf ++ T) = some ((str "0").length, 0) := by
      rw [List.append_assoc]
      exact chunkAt_hexLine (n := 0) ⟨by decide, List.all_iff_forall_prop.1 rfl, by decide⟩ (by decide)
        (by show 1 + 2 ≤ cap; omega)
    exact (decodes_last_iff hdr rfl).2 ⟨rfl, rfl⟩
  | cons d ds ih =>
    obtain ⟨hne, hlt⟩ := hds d (by simp)
    have hline := fmtX_length_le hlt
    have hsplit : encode (d :: ds) ++ T =
        fmtX d.length ++ crlf ++ d ++ crlf ++ (encode ds ++ T) := by
      simp [encode, encodeChunk]
    have hdr : chunkAt cap (fmtX d.length ++ crlf ++ d ++ crlf ++ (encode ds ++ T)) =
        some ((fmtX d.length).length, d.length) := by
      rw [List.append_assoc, List.append_assoc]
      exact chunkAt_hexLine (hexLine_fmtX _) hlt (by omega)
    rw [hsplit]
    exact (decodes_chunk_iff hdr hne rfl).2
      ⟨_, rfl, ih fun d hd => hds d (by simp [hd])⟩

/-- **Chunked round trip.**  A response written in chunked mode, in any number of
non-empty pieces, puts its header and an encoded body on the wire; a chunked
reader at the start of that body, on any fragmentation of it and of the bytes `T`
behind it, delivers exactly the pieces and then the end, and leaves `T`. -/
theorem chunked_round_trip {io : Sink} (hio : io.Reliable) {hdr : SrsHttpHeader}
    (hcl : hdr.get (str "Content-Length") = []) (code : Int) {ds : List Bytes}
    (hds : ∀ d ∈ ds, d ≠ [] ∧ d.length < 2 ^ 31) :
    ∃ w1 w2 body, writeAll ds (writeHeader { init io with hdr := hdr } code) = (none, w1) ∧
      w1.finalRequest = (none, w2) ∧
      w2.skt.sent = io.sent ++
        pendingHeader (writeHeader { init io with hdr := hdr } code) ds.head? ++ body ∧
      ∀ (T : Bytes) (owner : BodyFraming) (src : Source) (sizes : Nat → Nat),
        owner.chunked = true → src.skt.Healthy →
        src.buffer.nbBuffer = SRS_DEFAULT_RECV_BUFFER_SIZE → src.unread = body ++ T →
        (∀ i, 0 < sizes i) →
        ∃ fuel, (drain owner sizes fuel fresh src).stop = some .httpResponseEof ∧
          (drain owner sizes fuel fresh src).data = ds.flatten ∧
          (drain owner sizes fuel fresh src).src.unread = T := by
  have hmode := chunking_writeHeader hio hcl code
  obtain ⟨w1, w2, hall, hfinal, hsent⟩ := respond_sent hmode fun d hd => (hds d hd).1
  have hstart : (writeHeader { init io with hdr := hdr } code).skt.sent = io.sent := rfl
  rw [hstart] at hsent
  refine ⟨w1, w2, encode ds, hall, hfinal, hsent, ?_⟩
  intro T owner src sizes hc hs hbuf hunread hpos
  refine (drain_iff_decodes hc hs hpos (by rw [hbuf]; decide)).2 ?_
  rw [hunread, hbuf]
  exact decodes_encode (by decide) hds T

/-- Two pieces on a fresh connection, read back with the rest of the stream behind
them. -/
theorem chunked_round_trip_two_pieces :
    ∃ w1 w2 body,
      writeAll [str "hello", str "!"] (writeHeader (init ⟨[], []⟩) 200) = (none, w1) ∧
      w1.finalRequest = (none, w2) ∧
      w2.skt.sent = pendingHeader (writeHeader (init ⟨[], []⟩) 200) (some (str "hello")) ++ body ∧
      ∀ T : Bytes, ∃ fuel,
        (srsIoutilReadAll ⟨true, -1⟩ fuel fresh
          ⟨SrsFastStream.mk0, [.data (body ++ T)]⟩).data = str "hello!" := by
  obtain ⟨w1, w2, body, hall, hfinal, hsent, hread⟩ :=
    @chunked_round_trip ⟨[], []⟩ (by simp [Sink.Reliable]) .empty (by decide) 200
      [str "hello", str "!"] (by decide)
  refine ⟨w1, w2, body, hall, hfinal, hsent, ?_⟩
  intro T
  obtain ⟨fuel, -, hdata, -⟩ := hread T ⟨true, -1⟩ ⟨SrsFastStream.mk0, [.data (body ++ T)]⟩
    (fun _ => SRS_HTTP_READ_CACHE_BYTES) rfl (by simp) rfl
    (by simp [Source.unread, SrsFastStream.unread, SrsFastStream.mk0]) (fun _ => by decide)
  exact ⟨fuel, hdata⟩

end SrsHttpResponseWriter

end HttpProxy
