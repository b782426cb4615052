import HttpProxy.Message.Message
import HttpProxy.Message.Writer

/-!
# Relaying a body

The two ways in which `SrsHttpxProxyConn` passes a body on
(`src/app/srs_app_http_conn.cpp`): the body of a request is read completely and
written as one chunk, lines 635-658 and 942-965; the body of a response is read
part by part with `srs_ioutil_read_part` (`src/protocol/srs_protocol_utility.cpp`,
lines 132-166) and every part is written as a chunk, lines 683-753 and 989-1033.
The loop over the parts is written twice in the source.  The one for plain HTTP
stops when a write to the client fails, the one for decrypted HTTPS goes on.

The loops work on any `ISrsReader`.

* `srsIoutilReadPart_hands` — a part is a number of pieces; it ends behind 4096
  bytes or with the body.
* `relayLoop_hands` — the parts are the pieces of the body, in order.
* `relayBody_wire` — what the client receives.
-/

namespace HttpProxy

/-- The two paths of a connection: plain HTTP, and HTTPS that is decrypted. -/
inductive Path
  | http
  | https
  deriving DecidableEq, Repr

/-- How a function of the connection is left: with what it returns, or not at all
within the turns it was given. -/
inductive Exit
  | returned (err : Option SrsError)
  | running
  deriving DecidableEq, Repr

/-- The errors that `srs_ioutil_read_all` and `srs_ioutil_read_part` take for the end
of the body. -/
def isBodyEnd : SrsError → Bool
  | .systemFileEof | .httpResponseEof | .httpRequestEof | .httpStreamEof => true
  | _ => false

/-- An `ISrsReader` with states `ρ`, asked for `SRS_HTTP_READ_CACHE_BYTES` bytes. -/
abbrev BodyRead (ρ : Type) := ρ → Option SrsError × Bytes × ρ

variable {ρ : Type}

/-! ## `srs_ioutil_read_part` -/

/-- What a call of `srs_ioutil_read_part` leaves behind. -/
structure Part (ρ : Type) where
  /-- What it returns. -/
  err : Option SrsError
  content : Bytes
  finish : Bool
  /-- The error of the last read, before the end of the body is taken for success. -/
  stop : Option SrsError
  reader : ρ

/-- `srs_ioutil_read_part`, `none` when it has not come back after `fuel` reads. -/
def srsIoutilReadPart (read : BodyRead ρ) (size : Nat) : Nat → Bytes → ρ → Option (Part ρ)
  | 0, _, _ => none
  | fuel + 1, content, r =>
      match read r with
      | (some e, _, r') => some ⟨if isBodyEnd e then none else some e, content, true, some e, r'⟩
      | (none, bs, r') =>
          if size < (content ++ bs).length then some ⟨none, content ++ bs, false, none, r'⟩
          else srsIoutilReadPart read size fuel (content ++ bs) r'

/-! ## The writes -/

/-- Writes in a row: the error that stopped them, and the bytes that were handed
over.  When the writes are not checked, they go on whatever happens. -/
def writeEach (checked : Bool) : List Bytes → Sink → Option SrsError × List Bytes × Sink
  | [], out => (none, [], out)
  | w :: ws, out =>
      let res := out.write w
      if checked ∧ res.1 ≠ none then (res.1, [w], res.2)
      else
        let rest := writeEach checked ws res.2
        (rest.1, w :: rest.2.1, rest.2.2)

/-- The writes of one chunk; the size goes through `%x`, which prints an `unsigned int`. -/
def chunkWrites (body : Bytes) : List Bytes :=
  [fmtX (body.length % 2 ^ 32), crlf, body, crlf]

/-- The writes for a part of a response. -/
def partWrites (m : BodyFraming) (content : Bytes) : List Bytes :=
  if m.chunked then chunkWrites content else if 0 < m.contentLength then [content] else []

/-- The writes at the end of a response. -/
def endWrites (m : BodyFraming) : List Bytes :=
  if m.chunked then [SrsHttpResponseWriter.lastChunk] else []

/-- The writes for the body of a request. -/
def requestWrites (m : BodyFraming) (body : Bytes) : List Bytes :=
  if m.chunked then chunkWrites body ++ [SrsHttpResponseWriter.lastChunk]
  else if 0 < m.contentLength then [body]
  else []

/-! ## The relay loop -/

/-- What the relay loop leaves behind. -/
structure Relayed (ρ : Type) where
  /-- `none` when the loop ended by a `break`, else how the function was left. -/
  exit : Option Exit
  /-- The error of the last read. -/
  stop : Option SrsError
  /-- The bytes handed to each `write`. -/
  writes : List Bytes
  reader : ρ
  out : Sink

/-- The loop over the parts of a response, for at most `fuel` parts of at most
`reads` reads each. -/
def relayLoop (read : BodyRead ρ) (m : BodyFraming) (checked : Bool) (reads : Nat) :
    Nat → ρ → Sink → Relayed ρ
  | 0, r, out => ⟨some .running, none, [], r, out⟩
  | fuel + 1, r, out =>
      match srsIoutilReadPart read 4096 reads [] r with
      | none => ⟨some .running, none, [], r, out⟩
      | some part =>
          match part.err with
          | some e => ⟨some (.returned (some e)), part.stop, [], part.reader, out⟩
          | none =>
              if part.finish ∧ part.content = [] then
                ⟨none, part.stop, endWrites m, part.reader, (writeEach false (endWrites m) out).2.2⟩
              else
                let res := writeEach checked (partWrites m part.content) out
                match res.1 with
                | some e => ⟨some (.returned (some e)), part.stop, res.2.1, part.reader, res.2.2⟩
                | none =>
                    if part.finish then
                      ⟨none, part.stop, res.2.1 ++ endWrites m, part.reader,
                        (writeEach false (endWrites m) res.2.2).2.2⟩
                    else
                      let rest := relayLoop read m checked reads fuel part.reader res.2.2
                      { rest with writes := res.2.1 ++ rest.writes }

/-- The relay of a response body on a path: only on the plain path are the writes
checked. -/
def relayBody (p : Path) (read : BodyRead ρ) (m : BodyFraming) (fuel : Nat) (r : ρ) (out : Sink) :
    Relayed ρ :=
  relayLoop read m (p = .http) fuel fuel r out

/-! ## A body that arrives in pieces -/

open SrsHttpResponseReader SrsHttpResponseWriter

/-- The reader yields the pieces `ds`, each of 1 to 4096 bytes, and then the end of the
body. -/
def Yields (read : BodyRead ρ) : List Bytes → ρ → Prop
  | [], r => ∃ bs r', read r = (some .httpResponseEof, bs, r')
  | d :: ds, r =>
      d ≠ [] ∧ d.length ≤ SRS_HTTP_READ_CACHE_BYTES ∧ ∃ r', read r = (none, d, r') ∧ Yields read ds r'

/-- The reader hands out the pieces `ds`, each of at most 4096 bytes, and then the end of the
body, which leaves it in the state `r'`. -/
def Hands (read : BodyRead ρ) : List Bytes → ρ → ρ → Prop
  | [], r, r' => ∃ bs, read r = (some .httpResponseEof, bs, r')
  | d :: ds, r, r' =>
      d.length ≤ SRS_HTTP_READ_CACHE_BYTES ∧ ∃ r₁, read r = (none, d, r₁) ∧ Hands read ds r₁ r'

variable {read : BodyRead ρ} {m : BodyFraming} {checked : Bool}

theorem Yields.hands {ds : List Bytes} {r : ρ} (h : Yields read ds r) : ∃ r', Hands read ds r r' := by
  induction ds generalizing r with
  | nil =>
    obtain ⟨bs, r', hread⟩ := h
    exact ⟨r', bs, hread⟩
  | cons d ds ih =>
    obtain ⟨-, hlen, r₁, hread, hrest⟩ := h
    obtain ⟨r', hr'⟩ := ih hrest
    exact ⟨r', hlen, r₁, hread, hr'⟩

/-- A part takes the pieces that are left, with the end of the body, or pieces of more
than 4096 bytes from their front. -/
theorem srsIoutilReadPart_hands {ds : List Bytes} {r r' : ρ} (h : Hands read ds r r') {fuel : Nat}
    (hfuel : ds.length < fuel) {content : Bytes} (hc : content.length ≤ 4096) :
    ∃ part, srsIoutilReadPart read 4096 fuel content r = some part ∧ part.err = none ∧
      part.content.length ≤ 8192 ∧
      ((part.finish = true ∧ part.stop = some .httpResponseEof ∧
          part.content = content ++ ds.flatten ∧ part.reader = r') ∨
        (part.finish = false ∧ part.content ≠ [] ∧ ∃ ds₁ ds₂, ds = ds₁ ++ ds₂ ∧ ds₁ ≠ [] ∧
          part.content = content ++ ds₁.flatten ∧ Hands read ds₂ part.reader r')) := by
  induction ds generalizing r fuel content with
  | nil =>
    obtain ⟨bs, hread⟩ := h
    obtain ⟨fuel, rfl⟩ := Nat.exists_eq_add_one_of_ne_zero (Nat.ne_of_gt hfuel)
    rw [srsIoutilReadPart, hread]
    exact ⟨_, rfl, rfl, hc.trans (by decide), Or.inl ⟨rfl, rfl, by simp, rfl⟩⟩
  | cons d ds ih =>
    obtain ⟨hlen, r₁, hread, hrest⟩ := h
    obtain ⟨fuel, rfl⟩ := Nat.exists_eq_add_one_of_ne_zero (by omega : fuel ≠ 0)
    have hd : d.length ≤ 4096 := hlen
    rw [srsIoutilReadPart, hread]
    by_cases hfull : 4096 < (content ++ d).length
    · simp only [if_pos hfull]
      have hne : content ++ d ≠ [] := by
        intro h0
        rw [h0] at hfull
        simp at hfull
      refine ⟨_, rfl, rfl, by simp; omega, Or.inr ⟨rfl, hne, [d], ds, rfl, by simp, ?_, hrest⟩⟩
      simp
    · simp only [if_neg hfull]
      rw [List.length_cons] at hfuel
      obtain ⟨part, hpart, herr, hbound, hends⟩ := ih hrest (by omega : ds.length < fuel)
        (show (content ++ d).length ≤ 4096 by omega)
      refine ⟨part, hpart, herr, hbound, ?_⟩
      rcases hends with ⟨hfin, hstop, hcont, hreader⟩ | ⟨hfin, hcne, ds₁, ds₂, rfl, -, hcont, hy⟩
      · exact Or.inl ⟨hfin, hstop, by simpa using hcont, hreader⟩
      · exact Or.inr ⟨hfin, hcne, d :: ds₁, ds₂, rfl, by simp, by simpa using hcont, hy⟩

/-- On a reliable transport a row of writes sends everything. -/
theorem writeEach_of_reliable {out : Sink} (h : out.Reliable) (ws : List Bytes) :
    ∃ out', writeEach checked ws out = (none, ws, out') ∧ out'.sent = out.sent ++ ws.flatten ∧
      out'.Reliable := by
  induction ws generalizing out with
  | nil => exact ⟨out, rfl, by simp, h⟩
  | cons w ws ih =>
    obtain ⟨out₁, hwrite, hsent, h₁⟩ := Sink.write_of_reliable h w
    obtain ⟨out₂, hrest, hsent₂, h₂⟩ := ih h₁
    refine ⟨out₂, ?_, ?_, h₂⟩
    · rw [writeEach, hwrite]
      simp [hrest]
    · rw [hsent₂, hsent]
      simp

/-- The loop writes the pieces of the body in parts, and then the end. -/
theorem relayLoop_hands {ds : List Bytes} {r r' : ρ} (h : Hands read ds r r') {reads fuel : Nat}
    (hreads : ds.length < reads) (hfuel : ds.length < fuel) {out : Sink} (hout : out.Reliable) :
    ∃ parts : List Bytes, (∀ d ∈ parts, d ≠ [] ∧ d.length ≤ 8192) ∧ parts.flatten = ds.flatten ∧
      (relayLoop read m checked reads fuel r out).exit = none ∧
      (relayLoop read m checked reads fuel r out).reader = r' ∧
      (relayLoop read m checked reads fuel r out).writes = parts.flatMap (partWrites m) ++ endWrites m ∧
      (relayLoop read m checked reads fuel r out).out.Reliable ∧
      (relayLoop read m checked reads fuel r out).out.sent =
        out.sent ++ (parts.flatMap (partWrites m) ++ endWrites m).flatten := by
  induction fuel generalizing ds r out with
  | zero => omega
  | succ fuel ih =>
    obtain ⟨part, hpart, herr, hbound, hends⟩ :=
      srsIoutilReadPart_hands h hreads (show ([] : Bytes).length ≤ 4096 by simp)
    rw [relayLoop, hpart]
    simp only [herr]
    rcases hends with ⟨hfin, hstop, hcont, hreader⟩ | ⟨hfin, hcne, ds₁, ds₂, rfl, hds₁, hcont, hy⟩
    · rw [List.nil_append] at hcont
      by_cases hnil : part.content = []
      · obtain ⟨out', hend, hsent, hrel⟩ := @writeEach_of_reliable false out hout (endWrites m)
        simp only [hfin, hnil, hend]
        exact ⟨[], by simp, by rw [← hcont, hnil]; rfl, rfl, hreader, by simp, hrel, by simpa using hsent⟩
      · obtain ⟨out₁, hw, hs₁, hrel₁⟩ := @writeEach_of_reliable checked out hout (partWrites m part.content)
        obtain ⟨out₂, hend, hs₂, hrel₂⟩ := @writeEach_of_reliable false out₁ hrel₁ (endWrites m)
        simp only [hfin, hnil, hw, hend, and_false, if_false, if_true]
        refine ⟨[part.content], by simpa using ⟨hnil, hbound⟩, by simpa using hcont, trivial, hreader,
          by simp, hrel₂, ?_⟩
        rw [hs₂, hs₁]
        simp
    · rw [List.nil_append] at hcont
      obtain ⟨out₁, hw, hs₁, hrel₁⟩ := @writeEach_of_reliable checked out hout (partWrites m part.content)
      have hlen : ds₂.length < (ds₁ ++ ds₂).length := by
        have := List.length_pos_of_ne_nil hds₁
        simp only [List.length_append]
        omega
      obtain ⟨parts, hparts, hflat, hexit, hreader, hwrites, hrel, hs₂⟩ :=
        ih hy (by omega) (by omega) hrel₁
      simp only [hfin, hw, Bool.false_eq_true, false_and, if_false]
      refine ⟨part.content :: parts, ?_, ?_, hexit, hreader, by simp [hwrites], hrel, ?_⟩
      · intro d hd
        rcases List.mem_cons.1 hd with rfl | hd
        · exact ⟨hcne, hbound⟩
        · exact hparts d hd
      · rw [List.flatten_cons, List.flatten_append, hflat, hcont]
      · rw [hs₂, hs₁]
        simp

/-! ## What the client receives -/

/-- A sequence of chunks, ended by the zero chunk, is a chunked body. -/
theorem chunkedBody_encode {ds : List Bytes} (h : ∀ d ∈ ds, d ≠ []) :
    ChunkedBody (encode ds) ds.flatten := by
  induction ds with
  | nil => exact ChunkedBody.last ⟨by decide, List.all_iff_forall_prop.1 rfl, by decide⟩
  | cons d ds ih =>
    have hrest := ih fun d hd => h d (by simp [hd])
    have := ChunkedBody.chunk (hexLine_fmtX d.length) (h d (by simp)) hrest
    simpa [encode, encodeChunk] using this

theorem chunkWrites_flatten {d : Bytes} (h : d.length < 2 ^ 32) :
    (chunkWrites d).flatten = encodeChunk d := by
  rw [chunkWrites, Nat.mod_eq_of_lt h, encodeChunk]
  simp

theorem partWrites_chunked (hm : m.chunked = true) {parts : List Bytes}
    (h : ∀ d ∈ parts, d.length < 2 ^ 32) :
    (parts.flatMap (partWrites m)).flatten = parts.flatMap encodeChunk := by
  induction parts with
  | nil => rfl
  | cons d ds ih =>
    rw [List.flatMap_cons, List.flatMap_cons, List.flatten_append,
      ih fun d hd => h d (by simp [hd]), partWrites, if_pos hm, chunkWrites_flatten (h d (by simp))]

theorem partWrites_length (hm : m.chunked = false) (hcl : 0 < m.contentLength) (parts : List Bytes) :
    (parts.flatMap (partWrites m)).flatten = parts.flatten := by
  induction parts with
  | nil => rfl
  | cons d ds ih => simp [partWrites, hm, hcl, ih]

/-- The bytes `wire` carry the body `b` of a message. -/
def BodyFraming.Carries (m : BodyFraming) (wire b : Bytes) : Prop :=
  if m.chunked then ChunkedBody wire b else wire = b

/-- What is written of a body that comes to its end, and where the reader is then. -/
theorem relayLoop_wire {ds : List Bytes} {r r' : ρ} (h : Hands read ds r r') {reads fuel : Nat}
    (hreads : ds.length < reads) (hfuel : ds.length < fuel) {out : Sink} (hout : out.Reliable)
    (hm : m.chunked = true ∨ 0 < m.contentLength) :
    (relayLoop read m checked reads fuel r out).exit = none ∧
      (relayLoop read m checked reads fuel r out).reader = r' ∧
      (relayLoop read m checked reads fuel r out).out.Reliable ∧
      ∃ wire, m.Carries wire ds.flatten ∧
        (relayLoop read m checked reads fuel r out).writes.flatten = wire ∧
        (relayLoop read m checked reads fuel r out).out.sent = out.sent ++ wire := by
  obtain ⟨parts, hparts, hflat, hexit, hreader, hwrites, hrel, hsent⟩ :=
    @relayLoop_hands ρ read m checked ds r r' h reads fuel hreads hfuel out hout
  refine ⟨hexit, hreader, hrel, _, ?_, rfl, by rw [hwrites]; exact hsent⟩
  rw [hwrites, BodyFraming.Carries, List.flatten_append, ← hflat]
  split_ifs with hc
  · have hsmall : ∀ d ∈ parts, d.length < 2 ^ 32 := fun d hd =>
      lt_of_le_of_lt (hparts d hd).2 (by decide)
    rw [partWrites_chunked hc hsmall, endWrites, if_pos hc, List.flatten_singleton]
    exact chunkedBody_encode fun d hd => (hparts d hd).1
  · have hc' : m.chunked = false := by simpa using hc
    rw [partWrites_length hc' (hm.resolve_left hc), endWrites, if_neg hc]
    simp

/-- **Response body relay.**  When the body arrives in any number of pieces of 1 to 4096
bytes and then ends, and the client takes every write, then on either path the loop
ends and the client has received: for a chunked response a well-formed chunked body
with the pieces as its payload, for a response with a content length the pieces. -/
theorem relayBody_wire (p : Path) {ds : List Bytes} {r : ρ} (h : Yields read ds r) (m : BodyFraming)
    {fuel : Nat} (hfuel : ds.length < fuel) {out : Sink} (hout : out.Reliable) :
    (relayBody p read m fuel r out).exit = none ∧
      (m.chunked = true → ∃ wire, ChunkedBody wire ds.flatten ∧
        (relayBody p read m fuel r out).out.sent = out.sent ++ wire) ∧
      (m.chunked = false → 0 < m.contentLength →
        (relayBody p read m fuel r out).out.sent = out.sent ++ ds.flatten) := by
  obtain ⟨r', hr'⟩ := h.hands
  have hwire : m.chunked = true ∨ 0 < m.contentLength → (relayBody p read m fuel r out).exit = none ∧
      ∃ wire, m.Carries wire ds.flatten ∧ (relayBody p read m fuel r out).out.sent = out.sent ++ wire := by
    intro hm
    obtain ⟨hexit, -, -, wire, hcarries, -, hsent⟩ :=
      @relayLoop_wire ρ read m (p = .http) ds r r' hr' fuel fuel hfuel hfuel out hout hm
    exact ⟨hexit, wire, hcarries, hsent⟩
  obtain ⟨-, -, -, hexit, -⟩ :=
    @relayLoop_hands ρ read m (p = .http) ds r r' hr' fuel fuel hfuel hfuel out hout
  refine ⟨hexit, fun hm => ?_, fun hm hcl => ?_⟩
  · obtain ⟨-, wire, hcarries, hsent⟩ := hwire (.inl hm)
    rw [BodyFraming.Carries, if_pos hm] at hcarries
    exact ⟨wire, hcarries, hsent⟩
  · obtain ⟨-, wire, hcarries, hsent⟩ := hwire (.inr hcl)
    rw [BodyFraming.Carries, if_neg (by simp [hm])] at hcarries
    rw [hsent, hcarries]

/-- A reader that hands out a list of pieces. -/
def piecesRead : BodyRead (List Bytes)
  | [] => (some .httpResponseEof, [], [])
  | d :: ds => (none, d, ds)

/-- Two pieces on the decrypted path. -/
theorem relayBody_wire_two_pieces :
    ∃ wire, ChunkedBody wire (str "hello!") ∧
      (relayBody .https piecesRead ⟨true, -1⟩ 3 [str "hello", str "!"] ⟨[], []⟩).out.sent = wire := by
  have h : Yields piecesRead [str "hello", str "!"] [str "hello", str "!"] :=
    ⟨by decide, by decide, _, rfl, by decide, by decide, _, rfl, _, _, rfl⟩
  obtain ⟨wire, hwire, hsent⟩ := (relayBody_wire .https h ⟨true, -1⟩ (by decide : 2 < 3)
    (show Sink.Reliable ⟨[], []⟩ by simp [Sink.Reliable])).2.1 rfl
  exact ⟨wire, hwire, hsent⟩

/-! ## Bodies that are complete on the wire -/

/-- No chunked body ends inside a sequence of chunks. -/
theorem not_chunkedBody_prefix {ds : List Bytes} (h : ∀ d ∈ ds, d ≠ []) {pre p : Bytes}
    (hpre : pre <+: ds.flatMap encodeChunk) : ¬ ChunkedBody pre p := by
  intro hbody
  induction ds generalizing pre p with
  | nil =>
    have h1 := hbody.length_le.1
    rw [List.flatMap_nil, List.prefix_nil] at hpre
    rw [hpre, List.length_nil] at h1
    omega
  | cons d ds ih =>
    obtain ⟨line, rest, n, rfl, hline⟩ := hbody.first_line
    obtain ⟨t, ht⟩ := hpre
    have heq : line ++ crlf ++ (rest ++ t) =
        fmtX d.length ++ crlf ++ (d ++ crlf ++ ds.flatMap encodeChunk) := by
      rw [← List.append_assoc, ht]
      simp [encodeChunk]
    obtain ⟨rfl, hrest⟩ := line_unique hline.notMem_CR (hexLine_fmtX _).notMem_CR heq
    have hd := List.length_pos_of_ne_nil (h d (by simp))
    rcases hbody.behind_line hline.notMem_CR with ⟨h0, -, -⟩ | ⟨data, wire, q, hdata, -, rfl, -, hw⟩
    · have := h0.unique (hexLine_fmtX d.length)
      omega
    · have hlen := hdata.unique (hexLine_fmtX d.length)
      have hsplit : data ++ (crlf ++ wire ++ t) = d ++ (crlf ++ ds.flatMap encodeChunk) := by
        simpa using hrest
      obtain ⟨rfl, hr⟩ := List.append_inj hsplit hlen
      have hwire : wire <+: ds.flatMap encodeChunk :=
        ⟨t, List.append_cancel_left (by simpa using hr : crlf ++ (wire ++ t) = crlf ++ _)⟩
      exact ih (fun d hd => h d (by simp [hd])) hwire hw

end HttpProxy
