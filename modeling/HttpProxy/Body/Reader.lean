import HttpProxy.Bytes.CLib
import HttpProxy.Stream.FastStream

/-!
# `SrsHttpResponseReader`: reading the body of a message

`src/protocol/srs_protocol_http_conn.cpp`, lines 301-487.  The reader works on
the buffer that the header was parsed from and on the socket behind it, and has
three modes: chunked, a given content length, and until the peer closes.

A call returns, besides the error, what was stored through `nb_read` and what
was copied to the caller's buffer; both can be set even though the call fails,
so the model keeps them apart (`ReadResult`).

* `readSpecified_ok`, `readSpecified_healthy` — a piece of the body is a
  non-empty prefix of the unread bytes, and on a healthy socket it is there as
  long as bytes are.
* `readChunkLine_ok`, `readChunkLine_healthy` — the size line is the text up to
  the first CRLF, whatever the fragmentation, when it fits the buffer.
* `drain` — call `read` again and again, as `srs_ioutil_read_all` does.
-/

namespace HttpProxy

/-- What the reader asks of the message it belongs to. -/
structure BodyFraming where
  /-- `is_chunked()`. -/
  chunked : Bool
  /-- `content_length()`, with -1 for none. -/
  contentLength : Int
  deriving DecidableEq, Repr

/-- The state of the reader. -/
structure SrsHttpResponseReader where
  isEof : Bool
  /-- The left bytes in chunk. -/
  nbLeftChunk : Nat
  /-- The number of bytes of current chunk. -/
  nbChunk : Nat
  /-- Already read total bytes. -/
  nbTotalRead : Nat
  deriving DecidableEq, Repr

/-- The outcome of one call of `read`. -/
structure ReadResult where
  /-- The error returned, `none` for `srs_success`. -/
  err : Option SrsError
  /-- What was stored through `nb_read`, if anything. -/
  nbRead : Option Nat
  /-- The bytes copied to the caller's buffer. -/
  data : Bytes
  reader : SrsHttpResponseReader
  src : Source

namespace SrsHttpResponseReader

/-- The reader of a message that has just been parsed. -/
def fresh : SrsHttpResponseReader := ⟨false, 0, 0, 0⟩

/-- The bytes `readSpecified` works on: grow by one byte when nothing is buffered. -/
def refill (src : Source) : Option SrsError × Source :=
  if src.buffer.size = 0 then src.grow 1 else (none, src)

/-- The end-of-body test for a given content length.  The length is cast to
`int` here, while `read` compares it as `size_t`. -/
def reachedEnd (owner : BodyFraming) (total : Nat) : Bool :=
  !owner.chunked && owner.contentLength != -1 && decide (toInt32 owner.contentLength ≤ total)

/-- `read_specified`. -/
def readSpecified (owner : BodyFraming) (r : SrsHttpResponseReader) (src : Source)
    (nbData : Nat) : ReadResult :=
  match refill src with
  | (some e, src') => ⟨some e, none, [], r, src'⟩
  | (none, src') =>
      let nbBytes := min nbData src'.buffer.size
      if nbBytes = 0 then ⟨some .assertFailed, none, [], r, src'⟩
      else
        ⟨none, some nbBytes, src'.buffer.unread.take nbBytes,
          { r with
            nbTotalRead := r.nbTotalRead + nbBytes
            isEof := r.isEof || reachedEnd owner (r.nbTotalRead + nbBytes) },
          { src' with buffer := src'.buffer.advance nbBytes (Nat.min_le_right _ _) }⟩

/-! ## Chunked bodies -/

/-- Cut the size line off the buffer, line end included, and overwrite the line
end with NULs. -/
def takeLine (b : SrsFastStream) (k : Nat) (h : k + 2 ≤ b.size) : SrsFastStream :=
  ((b.advance (k + 2) h).poke (b.p + k + 1) 0).poke (b.p + k) 0

/-- The search for the end of the size line, growing the buffer byte by byte.
The buffer is full after `nbBuffer` turns at the latest (the first argument). -/
def readChunkLine : Nat → Source → Except SrsError Bytes × Source
  | 0, src => (.error .readerBufferOverflow, src)
  | n + 1, src =>
      match hfind : findSub crlf src.buffer.unread with
      | some 0 => (.error .httpInvalidChunkHeader, src)
      | some (k + 1) =>
          (.ok (src.buffer.unread.take (k + 1)),
            { src with
              buffer := takeLine src.buffer (k + 1) (by
                have := findSub_add_length_le hfind
                simpa using this) })
      | none =>
          match src.grow (src.buffer.size + 1) with
          | (some e, src') => (.error e, src')
          | (none, src') => readChunkLine n src'

/-- The check of the size line: `strtol` in base 16, narrowed to `int`, must
convert the whole line. -/
def chunkSize (line : Bytes) : Except SrsError Nat :=
  let st := strtol 16 line
  if toInt32 st.value < 0 ∨ st.erange = true ∨ st.parsed ≠ line.length then
    .error .httpInvalidChunkHeader
  else .ok (toInt32 st.value).toNat

/-- The part of `read_chunked` that parses the chunk header. -/
def readChunkHeader (src : Source) : Except SrsError Nat × Source :=
  match readChunkLine (src.buffer.nbBuffer + 1) src with
  | (.error e, src') => (.error e, src')
  | (.ok line, src') => (chunkSize line, src')

/-- The two bytes behind a payload are skipped. -/
def finishChunk (nbRead : Nat) (data : Bytes) (r : SrsHttpResponseReader) (src : Source) :
    ReadResult :=
  match src.grow 2 with
  | (some e, src') => ⟨some e, some nbRead, data, r, src'⟩
  | (none, src') =>
      match src'.buffer.readSlice 2 with
      | .error e => ⟨some e, some nbRead, data, r, src'⟩
      | .ok (_, b) => ⟨none, some nbRead, data, r, { src' with buffer := b }⟩

/-- The part of `read_chunked` behind the chunk header.  When `read_specified`
fails, `nb_bytes` still holds the number of bytes that were asked for. -/
def readChunkData (owner : BodyFraming) (r : SrsHttpResponseReader) (src : Source)
    (nbData : Nat) : ReadResult :=
  if r.nbChunk = 0 then finishChunk 0 [] { r with isEof := true } src
  else if r.nbLeftChunk = 0 then ⟨some .assertFailed, none, [], r, src⟩
  else
    let res := readSpecified owner r src (min r.nbLeftChunk nbData)
    let nbBytes := res.nbRead.getD (min r.nbLeftChunk nbData)
    let r' := { res.reader with nbLeftChunk := r.nbLeftChunk - nbBytes }
    match res.err with
    | some e => ⟨some e, some nbBytes, res.data, r', res.src⟩
    | none =>
        if 0 < r'.nbLeftChunk then ⟨none, some nbBytes, res.data, r', res.src⟩
        else finishChunk nbBytes res.data r' res.src

/-- `read_chunked`. -/
def readChunked (owner : BodyFraming) (r : SrsHttpResponseReader) (src : Source)
    (nbData : Nat) : ReadResult :=
  if r.nbLeftChunk = 0 then
    match readChunkHeader src with
    | (.error e, src') => ⟨some e, none, [], r, src'⟩
    | (.ok n, src') => readChunkData owner { r with nbChunk := n, nbLeftChunk := n } src' nbData
  else readChunkData owner r src nbData

/-- `read`. -/
def read (owner : BodyFraming) (r : SrsHttpResponseReader) (src : Source) (nbData : Nat) :
    ReadResult :=
  if r.isEof then ⟨some .httpResponseEof, none, [], r, src⟩
  else if owner.chunked then readChunked owner r src nbData
  else if owner.contentLength ≠ -1 then
    let max := toSize (owner.contentLength - r.nbTotalRead)
    if max = 0 then ⟨none, none, [], { r with isEof := true }, src⟩
    else readSpecified owner r src (min nbData max)
  else
    let res := readSpecified owner r src nbData
    match res.err with
    | some .socketRead => { res with err := none, reader := { res.reader with isEof := true } }
    | _ => res

/-! ## Reading until the end -/

/-- Where a sequence of reads stops: the error that ended it (`none` while it is
still going on), the bytes delivered so far, and the state. -/
structure Drained where
  stop : Option SrsError
  data : Bytes
  reader : SrsHttpResponseReader
  src : Source

/-- At most `fuel` calls of `read`, the `i`-th for `sizes i` bytes, until one
fails; this is the loop of `srs_ioutil_read_all` with arbitrary read sizes. -/
def drain (owner : BodyFraming) (sizes : Nat → Nat) :
    Nat → SrsHttpResponseReader → Source → Drained
  | 0, r, src => ⟨none, [], r, src⟩
  | fuel + 1, r, src =>
      let res := read owner r src (sizes 0)
      match res.err with
      | some e => ⟨some e, [], res.reader, res.src⟩
      | none =>
          let rest := drain owner (fun i => sizes (i + 1)) fuel res.reader res.src
          { rest with data := res.data ++ rest.data }

/-- The size of the cache of `srs_ioutil_read_all` and `srs_ioutil_read_part`. -/
def SRS_HTTP_READ_CACHE_BYTES : Nat := 4096

/-- `srs_ioutil_read_all`, for at most `fuel` reads. -/
def srsIoutilReadAll (owner : BodyFraming) (fuel : Nat) (r : SrsHttpResponseReader)
    (src : Source) : Drained :=
  drain owner (fun _ => SRS_HTTP_READ_CACHE_BYTES) fuel r src

theorem read_of_eof {owner : BodyFraming} {r : SrsHttpResponseReader} (h : r.isEof = true)
    (src : Source) (nbData : Nat) :
    read owner r src nbData = ⟨some .httpResponseEof, none, [], r, src⟩ := by
  rw [read, if_pos h]

/-- Past the end nothing is delivered any more. -/
theorem drain_of_eof {owner : BodyFraming} {sizes : Nat → Nat} {r : SrsHttpResponseReader}
    (h : r.isEof = true) (fuel : Nat) (src : Source) :
    drain owner sizes (fuel + 1) r src = ⟨some .httpResponseEof, [], r, src⟩ := by
  rw [drain, read_of_eof h]

/-- One successful read, and what follows it. -/
theorem drain_of_ok {owner : BodyFraming} {sizes : Nat → Nat} {r : SrsHttpResponseReader}
    {src : Source} (h : (read owner r src (sizes 0)).err = none) (fuel : Nat) :
    drain owner sizes (fuel + 1) r src =
      { drain owner (fun i => sizes (i + 1)) fuel (read owner r src (sizes 0)).reader
          (read owner r src (sizes 0)).src with
        data := (read owner r src (sizes 0)).data ++
          (drain owner (fun i => sizes (i + 1)) fuel (read owner r src (sizes 0)).reader
            (read owner r src (sizes 0)).src).data } := by
  rw [drain]
  simp only [h]

/-- A failing read ends the sequence. -/
theorem drain_of_error {owner : BodyFraming} {sizes : Nat → Nat} {r : SrsHttpResponseReader}
    {src : Source} {e : SrsError} (h : (read owner r src (sizes 0)).err = some e) (fuel : Nat) :
    drain owner sizes (fuel + 1) r src =
      ⟨some e, [], (read owner r src (sizes 0)).reader, (read owner r src (sizes 0)).src⟩ := by
  rw [drain]
  simp only [h]

/-- One more call behind a sequence of successful ones. -/
theorem drain_snoc {owner : BodyFraming} {sizes : Nat → Nat} {j : Nat} {r : SrsHttpResponseReader}
    {src : Source} (h : (drain owner sizes j r src).stop = none)
    (hread : (read owner (drain owner sizes j r src).reader (drain owner sizes j r src).src
      (sizes j)).err = none) :
    (drain owner sizes (j + 1) r src).stop = none ∧
      (drain owner sizes (j + 1) r src).reader =
        (read owner (drain owner sizes j r src).reader (drain owner sizes j r src).src
          (sizes j)).reader ∧
      (drain owner sizes (j + 1) r src).src =
        (read owner (drain owner sizes j r src).reader (drain owner sizes j r src).src
          (sizes j)).src := by
  induction j generalizing r src sizes with
  | zero =>
    simp only [drain] at hread ⊢
    simp only [hread]
    exact ⟨trivial, trivial, trivial⟩
  | succ j ih =>
    cases herr : (read owner r src (sizes 0)).err with
    | some e => rw [drain_of_error herr] at h; simp at h
    | none =>
      rw [drain_of_ok herr] at h hread ⊢
      rw [drain_of_ok herr]
      exact @ih (fun i => sizes (i + 1)) _ _ h hread

/-- What holds at the start and is kept by every successful call holds wherever a
sequence of successful calls leads. -/
theorem drain_invariant {owner : BodyFraming} {sizes : Nat → Nat}
    {P : SrsHttpResponseReader → Source → Prop}
    (hstep : ∀ r src nbData, P r src → (read owner r src nbData).err = none →
      P (read owner r src nbData).reader (read owner r src nbData).src)
    {j : Nat} {r : SrsHttpResponseReader} {src : Source} (h0 : P r src)
    (h : (drain owner sizes j r src).stop = none) :
    P (drain owner sizes j r src).reader (drain owner sizes j r src).src := by
  induction j generalizing r src sizes with
  | zero => exact h0
  | succ j ih =>
    cases herr : (read owner r src (sizes 0)).err with
    | some e => rw [drain_of_error herr] at h; simp at h
    | none =>
      rw [drain_of_ok herr] at h ⊢
      exact ih (hstep r src (sizes 0) h0 herr) h

/-! ## One piece of the body -/

/-- The bytes `bs` have been taken from the front of the unread bytes, and
nothing else has changed. -/
structure Took (src : Source) (bs : Bytes) (src' : Source) : Prop where
  unread : src.unread = bs ++ src'.unread
  nbBuffer : src'.buffer.nbBuffer = src.buffer.nbBuffer
  healthy : src.skt.Healthy → src'.skt.Healthy

theorem Took.of_grown {src src' : Source} (h : src.Grown src') : Took src [] src' :=
  ⟨h.unread.symm, h.nbBuffer, h.healthy⟩

theorem Took.trans {s₁ s₂ s₃ : Source} {a b : Bytes} (h₁ : Took s₁ a s₂) (h₂ : Took s₂ b s₃) :
    Took s₁ (a ++ b) s₃ :=
  ⟨by rw [h₁.unread, h₂.unread, List.append_assoc], h₂.nbBuffer.trans h₁.nbBuffer,
    fun h => h₂.healthy (h₁.healthy h)⟩

/-- What is left when the first `m` bytes have been taken. -/
theorem Took.unread_drop {src src' : Source} {m : Nat} (h : Took src (src.unread.take m) src') :
    src'.unread = src.unread.drop m := by
  have hsplit := h.unread
  conv_lhs at hsplit => rw [← List.take_append_drop m src.unread]
  exact (List.append_cancel_left hsplit).symm

/-- The buffer gives up its first `n` bytes. -/
theorem took_advance {src : Source} {n : Nat} (h : n ≤ src.buffer.size) :
    Took src (src.unread.take n) { src with buffer := src.buffer.advance n h } := by
  have hlen : n ≤ src.buffer.unread.length := by simpa using h
  refine ⟨?_, rfl, id⟩
  simp only [Source.unread, SrsFastStream.advance_unread]
  rw [List.take_append_of_le_length hlen, ← List.append_assoc, List.take_append_drop]

theorem refill_grown (src : Source) : src.Grown (refill src).2 := by
  rw [refill]
  split_ifs
  · exact Source.grow_grown src 1
  · exact Source.Grown.refl src

theorem refill_size {src : Source} (h : (refill src).1 = none) :
    0 < (refill src).2.buffer.size := by
  rw [refill] at h ⊢
  split_ifs at h ⊢ with h0
  · exact Source.grow_size h
  · exact Nat.pos_of_ne_zero h0

theorem refill_healthy {src : Source} (hs : src.skt.Healthy) (hne : src.unread ≠ []) :
    (refill src).1 = none := by
  rw [refill]
  split_ifs with h0
  · exact Source.grow_success hs src.buffer.nbBuffer_pos (List.length_pos_of_ne_nil hne)
  · rfl

/-- A successful `readSpecified` delivers a non-empty piece, at most as long as
asked for and as the buffer is, and advances the counters by its length. -/
theorem readSpecified_ok {owner : BodyFraming} {r : SrsHttpResponseReader} {src : Source}
    {nbData : Nat} (h : (readSpecified owner r src nbData).err = none) :
    ∃ m, 0 < m ∧ m ≤ nbData ∧ m ≤ src.buffer.nbBuffer ∧ m ≤ src.unread.length ∧
      (readSpecified owner r src nbData).nbRead = some m ∧
      (readSpecified owner r src nbData).data = src.unread.take m ∧
      Took src (src.unread.take m) (readSpecified owner r src nbData).src ∧
      (readSpecified owner r src nbData).reader =
        { r with nbTotalRead := r.nbTotalRead + m,
                 isEof := r.isEof || reachedEnd owner (r.nbTotalRead + m) } := by
  have hg := refill_grown src
  rw [readSpecified] at h ⊢
  cases hr : refill src with
  | mk err src' =>
    rw [hr] at h hg
    cases err with
    | some e => exact absurd h (by simp)
    | none =>
      simp only at h hg ⊢
      by_cases h0 : min nbData src'.buffer.size = 0
      · rw [if_pos h0] at h; exact absurd h (by simp)
      · rw [if_neg h0]
        have hm : min nbData src'.buffer.size ≤ src'.buffer.size := Nat.min_le_right _ _
        have hcap : src'.buffer.size ≤ src.buffer.nbBuffer := by
          rw [← hg.nbBuffer, SrsFastStream.size]
          have := src'.buffer.data_le
          omega
        have hun : src.unread.take (min nbData src'.buffer.size)
            = src'.buffer.unread.take (min nbData src'.buffer.size) := by
          rw [← hg.unread, Source.unread, List.take_append_of_le_length (by simp)]
        refine ⟨min nbData src'.buffer.size, Nat.pos_of_ne_zero h0, Nat.min_le_left _ _,
          hm.trans hcap, ?_, rfl, hun.symm, ?_, rfl⟩
        · rw [← hg.unread, Source.unread, List.length_append, SrsFastStream.length_unread]
          exact hm.trans (Nat.le_add_right _ _)
        · have := (Took.of_grown hg).trans (took_advance hm)
          rwa [List.nil_append, hg.unread] at this

theorem readSpecified_healthy {owner : BodyFraming} {r : SrsHttpResponseReader} {src : Source}
    {nbData : Nat} (hs : src.skt.Healthy) (hne : src.unread ≠ []) (h0 : 0 < nbData) :
    (readSpecified owner r src nbData).err = none := by
  have h1 := refill_healthy hs hne
  have h2 := refill_size h1
  rw [readSpecified]
  cases hr : refill src with
  | mk err src' =>
    rw [hr] at h1 h2
    cases h1
    simp only at h2 ⊢
    rw [if_neg (by omega)]

/-! ## The size line -/

theorem took_takeLine {src : Source} {k : Nat} (h : k + 2 ≤ src.buffer.size) :
    Took src (src.unread.take (k + 2)) { src with buffer := takeLine src.buffer k h } := by
  have h1 := took_advance h
  have h2 : (takeLine src.buffer k h).unread = (src.buffer.advance (k + 2) h).unread := by
    rw [takeLine, SrsFastStream.poke_unread, SrsFastStream.poke_unread]
    · show src.buffer.p + k + 1 < src.buffer.p + (k + 2)
      omega
    · show src.buffer.p + k < src.buffer.p + (k + 2)
      omega
  refine ⟨?_, h1.nbBuffer, h1.healthy⟩
  have h3 := h1.unread
  simp only [Source.unread] at h3 ⊢
  rwa [h2]

/-- The first line end in the buffer is the first one in all the unread bytes. -/
theorem findSub_unread {src : Source} {k : Nat} (h : findSub crlf src.buffer.unread = some k) :
    findSub crlf src.unread = some k := findSub_append h _

/-- A size line that is returned is the text up to the first CRLF; it is not
empty and, with its CRLF, no longer than the buffer. -/
theorem readChunkLine_ok {n : Nat} {src src' : Source} {line : Bytes}
    (h : readChunkLine n src = (.ok line, src')) :
    line ≠ [] ∧ line.length + 2 ≤ src.buffer.nbBuffer ∧
      findSub crlf src.unread = some line.length ∧ Took src (line ++ crlf) src' := by
  induction n generalizing src with
  | zero => simp [readChunkLine] at h
  | succ n ih =>
    rw [readChunkLine] at h
    split at h
    · simp at h
    · rename_i k hfind
      simp only [Prod.mk.injEq, Except.ok.injEq] at h
      obtain ⟨rfl, rfl⟩ := h
      have hle := findSub_add_length_le hfind
      rw [crlf_length, SrsFastStream.length_unread] at hle
      have hlen : (src.buffer.unread.take (k + 1)).length = k + 1 := by
        rw [List.length_take, SrsFastStream.length_unread]
        omega
      have hline : src.buffer.unread.take (k + 1) = src.unread.take (k + 1) := by
        rw [Source.unread, List.take_append_of_le_length (by rw [SrsFastStream.length_unread]; omega)]
      refine ⟨?_, ?_, ?_, ?_⟩
      · intro hc
        rw [hc] at hlen
        simp at hlen
      · rw [hlen]
        have := src.buffer.data_le
        rw [SrsFastStream.size] at hle
        omega
      · rw [hlen]
        exact findSub_unread hfind
      · have htook := took_takeLine (k := k + 1) (by omega)
        have hsplit := findSub_split (findSub_unread hfind)
        have htake : src.unread.take (k + 1 + 2) = src.unread.take (k + 1) ++ crlf := by
          conv_lhs => rw [hsplit]
          rw [List.take_left']
          rw [List.length_append, List.length_take, crlf_length, Nat.min_eq_left]
          rw [Source.unread, List.length_append, SrsFastStream.length_unread]
          omega
        rw [htake, ← hline] at htook
        exact htook
    · cases hg : src.grow (src.buffer.size + 1) with
      | mk err src₁ =>
        rw [hg] at h
        have hgrown := Source.grow_grown src (src.buffer.size + 1)
        rw [hg] at hgrown
        cases err with
        | some e => simp at h
        | none =>
          obtain ⟨h1, h2, h3, h4⟩ := ih h
          exact ⟨h1, by rwa [hgrown.nbBuffer] at h2, by rwa [hgrown.unread] at h3,
            (Took.of_grown hgrown).trans h4⟩

/-- On a healthy socket a non-empty size line that fits the buffer is found. -/
theorem readChunkLine_healthy {n k : Nat} {src : Source} (hs : src.skt.Healthy)
    (hfind : findSub crlf src.unread = some k) (hk : 0 < k)
    (hcap : k + 2 ≤ src.buffer.nbBuffer) (hn : src.buffer.nbBuffer < src.buffer.size + n) :
    ∃ src', readChunkLine n src = (.ok (src.unread.take k), src') := by
  induction n generalizing src with
  | zero =>
    have := src.buffer.data_le
    rw [SrsFastStream.size] at hn
    omega
  | succ n ih =>
    rw [readChunkLine]
    split
    · rename_i h0
      have := (findSub_unread h0).symm.trans hfind
      simp only [Option.some.injEq] at this
      omega
    · rename_i j hj
      have heq := (findSub_unread hj).symm.trans hfind
      simp only [Option.some.injEq] at heq
      subst heq
      have hle := findSub_add_length_le hj
      have hline : src.unread.take (j + 1) = src.buffer.unread.take (j + 1) := by
        rw [Source.unread, List.take_append_of_le_length (by omega)]
      exact ⟨_, by rw [hline]⟩
    · rename_i hnone
      have hsz : src.buffer.size < k + 2 := by
        by_contra hc
        have hpre := (findSub_eq_some_iff.1 hfind).1.2
        rw [Source.unread, List.drop_append_of_le_length (by rw [SrsFastStream.length_unread]; omega)]
          at hpre
        refine (findSub_eq_none_iff (by decide)).1 hnone k ?_
        refine List.prefix_of_prefix_length_le hpre (List.prefix_append _ _) ?_
        rw [List.length_drop, SrsFastStream.length_unread, crlf_length]
        omega
      have hle := findSub_add_length_le hfind
      rw [crlf_length] at hle
      have hok := Source.grow_success hs (show src.buffer.size + 1 ≤ src.buffer.nbBuffer by omega) (by omega)
      have hgrown := Source.grow_grown src (src.buffer.size + 1)
      have hsize := Source.grow_size hok
      cases hg : src.grow (src.buffer.size + 1) with
      | mk err src₁ =>
        rw [hg] at hok hgrown hsize
        cases hok
        simp only at hgrown hsize ⊢
        rw [← hgrown.unread]
        exact ih (hgrown.healthy hs) (by rw [hgrown.unread]; exact hfind)
          (by rw [hgrown.nbBuffer]; exact hcap) (by rw [hgrown.nbBuffer]; omega)

end SrsHttpResponseReader

end HttpProxy
