import HttpProxy.Control.System
import HttpProxy.Message.Writer

/-!
# What a response writer puts on the wire

All the calls of `SrsHttpResponseWriter` (`src/protocol/srs_protocol_http_conn.cpp`, lines
932-1158) in any order, on a transport on which no write fails.

* `writeContent`, `writev`, `step`, `run` — the calls; every `write` that is made, also by
  `writev` and `final_request`, is recorded with what it returned.
* `Counted` — the books of a body with a declared length.
* `answers`, `fitting`, `Call.chunks` — what the calls return and put on the wire, from their
  arguments alone.
* `run_wire` — one header block at most, and behind it the body that the arguments say.
-/

namespace HttpProxy

/-! ## A length in a header -/

/-- A number that a double holds is its own integer part. -/
theorem truncDouble_self {n : Nat} (h : n ≤ 2 ^ 53) : truncDouble n 1 = n := by
  rcases Nat.eq_zero_or_pos n with rfl | hpos
  · decide
  rw [truncDouble, if_neg (by omega)]
  rcases Nat.lt_or_ge n (2 ^ 53) with hlt | hge
  · have he : Nat.log2 n - 52 = 0 := by
      have := (Nat.log2_lt (by omega)).2 hlt
      omega
    simp [he, Nat.mod_one]
  · obtain rfl : n = 2 ^ 53 := by omega
    decide

theorem isXDigit_of_isDigitIn (b : Byte) : isDigitIn 10 b = true → isXDigit b = true :=
  forall_byte (P := fun b => isDigitIn 10 b = true → isXDigit b = true) (by decide +kernel) b

/-- `atof` converts decimal digits. -/
theorem atofInt64_digits {ds : Bytes} (hne : ds ≠ []) (h : ∀ b ∈ ds, isDigitIn 10 b = true)
    (hle : digitsValue 10 ds ≤ 2 ^ 53) : atofInt64 ds = digitsValue 10 ds := by
  obtain ⟨b, t, rfl⟩ := List.exists_cons_of_ne_nil hne
  have hb : isDigitIn 10 b = true := h b (by simp)
  have hspace : (b :: t).dropWhile isSpace = b :: t := by
    simp [List.dropWhile, not_isSpace_of_isDigitIn hb]
  have hsign : signOf (b :: t) = (false, 0) := signOf_of_isDigitIn hb t
  have hname : ¬ (((b :: t).take 3).map (· ||| 32) = str "inf" ∨
      ((b :: t).take 3).map (· ||| 32) = str "nan") := by
    have hfirst : b ||| 32 ≠ 105 ∧ b ||| 32 ≠ 110 := by
      revert hb
      exact forall_byte (P := fun b => isDigitIn 10 b = true → b ||| 32 ≠ 105 ∧ b ||| 32 ≠ 110)
        (by decide +kernel) b
    rintro (hn | hn)
    · exact hfirst.1 (List.cons.inj hn).1
    · exact hfirst.2 (List.cons.inj hn).1
  have hhex : hexPrefixLen 16 (b :: t) = 0 :=
    hexPrefixLen_of_digits fun c hc => isXDigit_of_isDigitIn c (h c hc)
  have htw : (b :: t).takeWhile (isDigitIn 10) = b :: t := List.takeWhile_eq_self_iff.2 h
  rw [atofInt64]
  simp only [hspace, hsign, List.drop_zero, if_neg hname, hhex, if_true, htw, List.drop_length]
  simp [fractionOf, exponentOf, truncDouble_self hle]
  omega

namespace SrsHttpHeader

theorem decimal_isDigitIn (n : Nat) : ∀ b ∈ decimal n, isDigitIn 10 b = true := by
  intro b hb
  rw [decimal] at hb
  split at hb
  · rw [List.mem_singleton.1 hb]
    decide
  · obtain ⟨d, hd, rfl⟩ := List.mem_map.1 (List.mem_reverse.1 hb)
    have hlt : d < 10 := Nat.digits_lt_base (by norm_num) hd
    simp [isDigitIn, digitVal_hexDigit (show d < 16 by omega), hlt]

theorem decimal_ne_nil (n : Nat) : decimal n ≠ [] := by
  rw [decimal]
  split
  · simp
  · rename_i h
    simpa using Nat.digits_ne_nil_iff_ne_zero.2 h

theorem digitsValue_decimal (n : Nat) : digitsValue 10 (decimal n) = n := by
  rw [decimal]
  split
  · rename_i h
    rw [h]
    rfl
  · have hlt : ∀ d ∈ Nat.digits 10 n, d < 16 := fun d hd => by
      have := Nat.digits_lt_base (by norm_num : 1 < 10) hd
      omega
    rw [digitsValue_reverse_map_hexDigit hlt, Nat.ofDigits_digits]

variable {h : SrsHttpHeader}

/-- The header has no content length, or a decimal number that a double holds. -/
def Declares (h : SrsHttpHeader) : Option Nat → Prop
  | none => h.get (str "Content-Length") = []
  | some n => ∃ ds, h.get (str "Content-Length") = ds ∧ ds ≠ [] ∧ (∀ b ∈ ds, isDigitIn 10 b = true) ∧
      digitsValue 10 ds = n ∧ n ≤ 2 ^ 53

theorem contentLength_none (hd : h.Declares none) : h.contentLength = -1 := by
  unfold contentLength
  exact if_pos hd

theorem contentLength_some {n : Nat} (hd : h.Declares (some n)) : h.contentLength = n := by
  obtain ⟨ds, hget, hne, hdigits, rfl, hle⟩ := hd
  unfold contentLength
  rw [hget, if_neg hne, atofInt64_digits hne hdigits hle]

/-- What `set_content_length` writes is declared. -/
theorem declares_setContentLength (h : SrsHttpHeader) {n : Nat} (hn : n ≤ 2 ^ 53) :
    (h.setContentLength n).Declares (some n) := by
  have hkey : canonicalKey (str "Content-Length") = str "Content-Length" := by decide
  have hget : (h.setContentLength n).get (str "Content-Length") = decimal n := by
    have := get_set_self h (str "Content-Length") (srsInt2str n)
    rw [hkey] at this
    exact this
  exact ⟨decimal n, hget, decimal_ne_nil n, decimal_isDigitIn n, digitsValue_decimal n, hn⟩

theorem declares_setContentType {d : Option Nat} (hd : h.Declares d) (ct : Bytes) :
    (h.setContentType ct).Declares d := by
  have hne : str "Content-Length" ≠ canonicalKey (str "Content-Type") := by decide
  have hget := h.get_set_of_ne hne ct
  cases d with
  | none => exact hget.trans hd
  | some n =>
    obtain ⟨ds, hds, hrest⟩ := hd
    exact ⟨ds, hget.trans hds, hrest⟩

end SrsHttpHeader

namespace SrsHttpResponseWriter

/-! ## The calls -/

/-- What is passed to `write`: a NULL with a size, or bytes. -/
inductive Content
  | null (size : Nat)
  | data (bytes : Bytes)

def Content.size : Content → Nat
  | null size => size
  | data bytes => bytes.length

/-- The bytes that are there. -/
def Content.bytes : Content → Bytes
  | null _ => []
  | data bytes => bytes

/-- `data`, `none` for NULL. -/
def Content.toOption : Content → Option Bytes
  | null _ => none
  | data bytes => some bytes

/-- A `write` that was made, and what it returned. -/
structure Attempt where
  content : Content
  err : Option SrsError

/-- `write(data, size)`, also for a NULL with a size. -/
def writeContent (w : SrsHttpResponseWriter) (x : Content) : Option SrsError × SrsHttpResponseWriter :=
  match (w.defaultHeader x.size).sendHeader x.toOption with
  | (some e, w1) => (some e, w1)
  | (none, w1) =>
      let w2 := { w1 with written := w1.written + x.size }
      if w2.contentLength ≠ -1 ∧ w2.contentLength < w2.written then (some .httpContentLength, w2)
      else if x.bytes = [] then (none, w2)
      else
        let res := w2.skt.write (if w2.contentLength ≠ -1 then x.bytes else encodeChunk x.bytes)
        (res.1, { w2 with skt := res.2 })

/-- For bytes, and for a NULL of size 0, this is `write`. -/
theorem writeContent_data (w : SrsHttpResponseWriter) (bytes : Bytes) :
    w.writeContent (.data bytes) = w.write (some bytes) := rfl

theorem writeContent_null (w : SrsHttpResponseWriter) : w.writeContent (.null 0) = w.write none := rfl

/-- The loop of `writev` over the pieces. -/
def writeEach : List Bytes → SrsHttpResponseWriter →
    Option SrsError × List Attempt × SrsHttpResponseWriter
  | [], w => (none, [], w)
  | d :: iov, w =>
      match w.writeContent (.data d) with
      | (some e, w1) => (some e, [⟨.data d, some e⟩], w1)
      | (none, w1) =>
          let rest := writeEach iov w1
          (rest.1, ⟨.data d, none⟩ :: rest.2.1, rest.2.2)

/-- The largest number of pieces of one `writev` of a socket. -/
def limits : Nat := 1024

/-- `srs_write_large_iovs`, for at most `fuel` pieces, where a batch without bytes is no error. -/
def srsWriteLargeIovs : Nat → List Bytes → Sink → Option SrsError × Sink
  | 0, iovs, skt => skt.write iovs.flatten
  | fuel + 1, iovs, skt =>
      if iovs.length ≤ limits then skt.write iovs.flatten
      else
        match skt.write (iovs.take limits).flatten with
        | (some e, skt') => (some e, skt')
        | (none, skt') => srsWriteLargeIovs fuel (iovs.drop limits) skt'

/-- The `size` of a chunk of several pieces, an `int`. -/
def iovSize (iov : List Bytes) : Int := toInt32 iov.flatten.length

/-- `writev`: the pieces one by one, or all in one chunk.  `%x` prints the `int` as unsigned. -/
def writev (w : SrsHttpResponseWriter) (iov : List Bytes) :
    Option SrsError × List Attempt × SrsHttpResponseWriter :=
  if w.headerWrote = false ∨ w.contentLength ≠ -1 then writeEach iov w
  else if iov = [] then (none, [], w)
  else
    match w.sendHeader none with
    | (some e, w1) => (some e, [], w1)
    | (none, w1) =>
        let chunk := [fmtX (iovSize iov % 2 ^ 32).toNat, crlf] ++ iov ++ [crlf]
        let res := srsWriteLargeIovs chunk.length chunk w1.skt
        (res.1, [], { w1 with written := w1.written + iovSize iov, skt := res.2 })

theorem writev_nil (w : SrsHttpResponseWriter) : w.writev [] = (none, [], w) := by
  rw [writev]
  by_cases heach : w.headerWrote = false ∨ w.contentLength ≠ -1
  · rw [if_pos heach]
    rfl
  · rw [if_neg heach, if_pos rfl]

/-- A call of a response writer. -/
inductive Call
  | writeHeader (code : Int)
  | write (x : Content)
  | writev (iov : List Bytes)
  | finalRequest

/-- The sizes that are passed with a call fit an `int`. -/
def Call.Sized : Call → Prop
  | .write x => x.size < 2 ^ 31
  | .writev iov => ∀ d ∈ iov, d.length < 2 ^ 31
  | _ => True

/-- What a call passes to `write`, if there is a length: `final_request` makes a write of nothing. -/
def Call.contents : Call → List Content
  | .writeHeader _ => []
  | .write x => [x]
  | .writev iov => iov.map .data
  | .finalRequest => [.null 0]

/-- A call, with the writes it makes.  `final_request` flushes with a write, if there is a length. -/
def step (w : SrsHttpResponseWriter) : Call → Option SrsError × List Attempt × SrsHttpResponseWriter
  | .writeHeader code => (none, [], w.writeHeader code)
  | .write x => ((w.writeContent x).1, [⟨x, (w.writeContent x).1⟩], (w.writeContent x).2)
  | .writev iov => w.writev iov
  | .finalRequest =>
      (w.finalRequest.1,
        if (w.writeHeader 200).contentLength = -1 then [] else [⟨.null 0, w.finalRequest.1⟩],
        w.finalRequest.2)

/-- What a sequence of calls returns, call by call. -/
def returns : List Call → SrsHttpResponseWriter → List (Option SrsError)
  | [], _ => []
  | c :: cs, w => (w.step c).1 :: returns cs (w.step c).2.2

/-- A sequence of calls: all writes that were made, and the writer. -/
def run : List Call → SrsHttpResponseWriter → List Attempt × SrsHttpResponseWriter
  | [], w => ([], w)
  | c :: cs, w =>
      let r := w.step c
      ((r.2.1 ++ (run cs r.2.2).1), (run cs r.2.2).2)

/-! ## The books -/

/-- The sizes passed with the writes. -/
def total (log : List Attempt) : Nat := (log.map fun a => a.content.size).sum

/-- The data of the writes that were accepted. -/
def accepted (log : List Attempt) : Bytes :=
  log.flatMap fun a => if a.err = none then a.content.bytes else []

/-- The books of a body with a declared length: a write fails exactly if the sizes passed so far,
with this one, sum to more than the length, and then nothing of it is in the body. -/
structure Counted (n : Nat) (log : List Attempt) (body : Bytes) : Prop where
  fails : ∀ pre a post, log = pre ++ a :: post →
    (a.err = some .httpContentLength ↔ n < total (pre ++ [a])) ∧
      (a.err = none ∨ a.err = some .httpContentLength)
  accepts : body = accepted log
  le : body.length ≤ n

/-! ## What the arguments say -/

/-- The sizes of contents. -/
def sizes (xs : List Content) : Nat := (xs.map Content.size).sum

/-- The data of the contents that fit the length `n`, with `sofar` bytes in front of them. -/
def fitting (n : Nat) : Nat → List Content → Bytes
  | _, [] => []
  | sofar, x :: xs => (if sofar + x.size ≤ n then x.bytes else []) ++ fitting n (sofar + x.size) xs

/-- What a call returns when the length is `n` and `sofar` bytes have been passed: if it passes
anything, an error exactly if all that has been passed, this call included, is more than `n`. -/
def answer (n sofar : Nat) (c : Call) : Option SrsError :=
  if c.contents = [] then none
  else if n < sofar + sizes c.contents then some .httpContentLength
  else none

/-- The same of calls in a row. -/
def answers (n : Nat) : Nat → List Call → List (Option SrsError)
  | _, [] => []
  | sofar, c :: cs => answer n sofar c :: answers n (sofar + sizes c.contents) cs

/-- What a call puts on the wire when there is no length: a chunk, or the end. -/
def Call.chunks : Call → Bytes
  | .writeHeader _ => []
  | .write x => if x.bytes = [] then [] else encodeChunk x.bytes
  | .writev iov =>
      if iov = [] then []
      else fmtX (iov.flatten.length % 2 ^ 32) ++ crlf ++ iov.flatten ++ crlf
  | .finalRequest => lastChunk

/-- What is written for a body without a declared length: chunks, and ends. -/
inductive BodyPiece : Bytes → Prop
  | chunk (data : Bytes) : BodyPiece (fmtX (data.length % 2 ^ 32) ++ crlf ++ data ++ crlf)
  | last : BodyPiece lastChunk

/-- A sequence of such pieces. -/
def Pieces (body : Bytes) : Prop := ∃ ps : List Bytes, body = ps.flatten ∧ ∀ p ∈ ps, BodyPiece p

theorem total_append (log log' : List Attempt) : total (log ++ log') = total log + total log' := by
  simp [total]

theorem accepted_append (log log' : List Attempt) :
    accepted (log ++ log') = accepted log ++ accepted log' := by simp [accepted]

/-- As long as no write has failed, the body has been accepted as it was passed. -/
theorem accepted_length_le (log : List Attempt) : (accepted log).length ≤ total log := by
  induction log with
  | nil => simp [accepted]
  | cons a log ih =>
    have hsize : a.content.bytes.length ≤ a.content.size := by
      cases a.content <;> simp [Content.bytes, Content.size]
    rw [show a :: log = [a] ++ log from rfl, accepted_append, total_append, List.length_append]
    simp only [accepted, total, List.flatMap_singleton, List.map_singleton, List.sum_singleton] at ih ⊢
    split_ifs
    · omega
    · simp only [List.length_nil]
      omega

/-- One write more. -/
theorem Counted.snoc {n : Nat} {log : List Attempt} {body : Bytes} (h : Counted n log body) (x : Content) :
    Counted n (log ++ [⟨x, if n < total log + x.size then some .httpContentLength else none⟩])
      (body ++ if n < total log + x.size then [] else x.bytes) := by
  have hfails : Always (fun pre a => (a.err = some .httpContentLength ↔ n < total (pre ++ [a])) ∧
      (a.err = none ∨ a.err = some .httpContentLength)) log := h.fails
  refine ⟨hfails.concat ?_, ?_, ?_⟩
  · rw [total_append]
    simp only [total, List.map_singleton, List.sum_singleton]
    split_ifs with hlt <;> simp [hlt]
  · rw [accepted_append, h.accepts]
    by_cases hlt : n < total log + x.size
    · simp [accepted, hlt]
    · simp [accepted, hlt]
  · rw [List.length_append]
    split_ifs with hlt
    · simpa using h.le
    · have h1 := accepted_length_le log
      have h2 : x.bytes.length ≤ x.size := by cases x <;> simp [Content.bytes, Content.size]
      rw [← h.accepts] at h1
      omega

/-! ## The wire -/

/-- What has been put on the wire behind `io`: the header block, if it has been sent, and a body
that keeps its books.  `declared` is the length in the header before the first call. -/
structure Wired (io : Sink) (declared : Option Nat) (w : SrsHttpResponseWriter) (log : List Attempt)
    (body : Bytes) : Prop where
  hf : w.hf = none
  reliable : w.skt.Reliable
  wire : w.skt.sent = io.sent ++ (if w.headerSent then headerBlock w.status w.hdr else []) ++ body
  quiet : w.headerSent = false → log = [] ∧ body = [] ∧ w.written = 0
  wrote : w.headerSent = true → w.headerWrote = true
  declares : w.headerWrote = false → w.hdr.Declares declared
  length : w.headerWrote = true → ∀ n, declared = some n → w.contentLength = n
  books : w.headerWrote = true → (w.contentLength = -1 ∧ Pieces body) ∨
    ∃ n : Nat, w.contentLength = n ∧ w.written = total log ∧ Counted n log body

variable {io : Sink} {declared : Option Nat} {w : SrsHttpResponseWriter} {log : List Attempt} {body : Bytes}

theorem pieces_nil : Pieces [] := ⟨[], rfl, by simp⟩

theorem Pieces.snoc {piece : Bytes} (h : Pieces body) (hp : BodyPiece piece) : Pieces (body ++ piece) := by
  obtain ⟨ps, rfl, hps⟩ := h
  refine ⟨ps ++ [piece], by simp, fun p hmem => ?_⟩
  rcases List.mem_append.1 hmem with hmem | hmem
  · exact hps p hmem
  · rw [List.mem_singleton.1 hmem]
    exact hp

theorem counted_nil (n : Nat) : Counted n [] [] :=
  ⟨fun pre a post h => by simp at h, rfl, Nat.zero_le _⟩

/-- The header is written, with the length that it has then. -/
theorem wired_name {h : SrsHttpHeader} {d : Option Nat} {code : Int} (hw : Wired io declared w log body)
    (hfirst : w.headerWrote = false) (hd : h.Declares d) (hsame : ∀ n, declared = some n → d = some n) :
    Wired io declared { w with hdr := h, headerWrote := true, status := code, contentLength :=
      h.contentLength }
      log body := by
  have hunsent : w.headerSent = false := by
    by_contra hs
    rw [hw.wrote (by simpa using hs)] at hfirst
    cases hfirst
  obtain ⟨rfl, rfl, hwritten⟩ := hw.quiet hunsent
  refine ⟨hw.hf, hw.reliable, ?_, hw.quiet, fun _ => rfl, by simp, fun _ n hn => ?_, fun _ => ?_⟩
  · have hwire := hw.wire
    simp only [hunsent] at hwire ⊢
    exact hwire
  · rw [hsame n hn] at hd
    exact SrsHttpHeader.contentLength_some hd
  · cases d with
    | none => exact Or.inl ⟨SrsHttpHeader.contentLength_none hd, pieces_nil⟩
    | some n => exact Or.inr ⟨n, SrsHttpHeader.contentLength_some hd, hwritten, counted_nil n⟩

theorem wired_writeHeader (hw : Wired io declared w log body) (code : Int) :
    Wired io declared (w.writeHeader code) log body := by
  unfold writeHeader
  split_ifs with h
  · exact hw
  · have hfirst : w.headerWrote = false := by simpa using h
    exact wired_name hw hfirst (hw.declares hfirst) fun n hn => hn

theorem headerWrote_writeHeader (w : SrsHttpResponseWriter) (code : Int) :
    (w.writeHeader code).headerWrote = true := by
  unfold writeHeader
  split_ifs with h
  · exact h
  · rfl

/-- The header that `write` makes up declares what the header declares, or the size. -/
theorem wired_defaultHeader {size : Nat} (hw : Wired io declared w log body) (hsize : size < 2 ^ 31) :
    Wired io declared (w.defaultHeader size) log body ∧ (w.defaultHeader size).headerWrote = true ∧
      (w.headerWrote = false → (w.defaultHeader size).contentLength ≠ -1) := by
  unfold defaultHeader
  by_cases h : w.headerWrote = true
  · rw [if_pos h]
    exact ⟨hw, h, by simp [h]⟩
  rw [if_neg h]
  have hfirst : w.headerWrote = false := by simpa using h
  simp only
  generalize hh1 : (if w.hdr.contentType = [] then w.hdr.setContentType (str "text/plain; charset=utf-8")
    else w.hdr) = h1
  have hd1 : h1.Declares declared := by
    rw [← hh1]
    split_ifs
    · exact SrsHttpHeader.declares_setContentType (hw.declares hfirst) _
    · exact hw.declares hfirst
  refine ⟨?_, headerWrote_writeHeader _ _, fun _ => ?_⟩
  all_goals rw [writeHeader, if_neg h]
  · cases hdecl : declared with
    | none =>
      rw [hdecl] at hd1
      rw [if_pos (SrsHttpHeader.contentLength_none hd1)]
      exact wired_name (w := w) (hdecl ▸ hw) hfirst (h1.declares_setContentLength (by omega)) (by simp)
    | some n =>
      rw [hdecl] at hd1
      have hlen := SrsHttpHeader.contentLength_some hd1
      rw [if_neg (by omega)]
      exact wired_name (w := w) (hdecl ▸ hw) hfirst hd1 fun n hn => hn
  · show (if h1.contentLength = -1 then h1.setContentLength size else h1).contentLength ≠ -1
    split_ifs with hnone
    · rw [SrsHttpHeader.contentLength_some (h1.declares_setContentLength (by omega))]
      omega
    · exact hnone

/-- The header block is sent once. -/
theorem wired_sendHeader (hw : Wired io declared w log body) (hwrote : w.headerWrote = true)
    (data : Option Bytes) :
    ∃ w1, w.sendHeader data = (none, w1) ∧ Wired io declared w1 log body ∧ w1.headerSent = true ∧
      w1.headerWrote = true ∧ w1.contentLength = w.contentLength ∧ w1.written = w.written := by
  unfold sendHeader
  by_cases hsent : w.headerSent = true
  · rw [if_pos hsent]
    exact ⟨w, rfl, hw, hsent, hwrote, rfl, rfl⟩
  · have hunsent : w.headerSent = false := by simpa using hsent
    obtain ⟨rfl, rfl, hwritten⟩ := hw.quiet hunsent
    obtain ⟨s', hwrite, hs', hrel⟩ :=
      Sink.write_of_reliable hw.reliable (headerBlock w.status (w.completeHeader data))
    have hwire := hw.wire
    simp only [hunsent, Bool.false_eq_true, if_false, List.append_nil] at hwire
    rw [if_neg hsent]
    simp only [hw.hf, hwrite]
    refine ⟨_, rfl, ⟨rfl, hrel, ?_, by simp, fun _ => hwrote, fun h => ?_, hw.length, hw.books⟩, rfl, hwrote,
      rfl, rfl⟩
    · simp [hs', hwire]
    · rw [hwrote] at h
      cases h

/-- Bytes behind the header, with their books. -/
theorem Wired.extend {skt' : Sink} {written' : Int} {log' : List Attempt} {more : Bytes}
    (hw : Wired io declared w log body) (hsent : w.headerSent = true) (hrel : skt'.Reliable)
    (hs' : skt'.sent = w.skt.sent ++ more)
    (hbooks : (w.contentLength = -1 ∧ Pieces (body ++ more)) ∨
      ∃ n : Nat, w.contentLength = n ∧ written' = total log' ∧ Counted n log' (body ++ more)) :
    Wired io declared { w with written := written', skt := skt' } log' (body ++ more) := by
  refine ⟨hw.hf, hrel, ?_, fun h => ?_, hw.wrote, hw.declares, hw.length, fun _ => hbooks⟩
  · show skt'.sent = _
    rw [hs', hw.wire]
    simp
  · rw [hsent] at h
    cases h

theorem BodyPiece.encodeChunk {d : Bytes} (h : d.length < 2 ^ 31) : BodyPiece (encodeChunk d) := by
  have hpiece := BodyPiece.chunk d
  rw [Nat.mod_eq_of_lt (by omega)] at hpiece
  exact hpiece

/-- To send the header changes neither the length nor that it has been written. -/
theorem sendHeader_keeps (w : SrsHttpResponseWriter) (data : Option Bytes) :
    (w.sendHeader data).2.contentLength = w.contentLength ∧
      (w.sendHeader data).2.headerWrote = w.headerWrote := by
  unfold sendHeader
  split_ifs
  · exact ⟨rfl, rfl⟩
  · cases w.hf with
    | none => exact ⟨rfl, rfl⟩
    | some f => cases hfilter : f (w.completeHeader data) <;> simp [hfilter]

/-- Once the header has been written, a write leaves the length. -/
theorem writeContent_keeps {x : Content} (hwrote : w.headerWrote = true) :
    (w.writeContent x).2.contentLength = w.contentLength ∧ (w.writeContent x).2.headerWrote = true := by
  obtain ⟨hlength, hnamed⟩ := sendHeader_keeps w x.toOption
  rw [hwrote] at hnamed
  unfold writeContent
  rw [defaultHeader, if_pos hwrote]
  rcases hsend : w.sendHeader x.toOption with ⟨_ | e, w1⟩
  · rw [hsend] at hlength hnamed
    simp only
    split_ifs <;> exact ⟨hlength, hnamed⟩
  · rw [hsend] at hlength hnamed
    exact ⟨hlength, hnamed⟩

/-- **A write.**  It is entered in the books, and it puts its data behind the header if it is
accepted. -/
theorem wired_writeContent {x : Content} (hw : Wired io declared w log body) (hx : x.size < 2 ^ 31) :
    ∃ more, Wired io declared (w.writeContent x).2 (log ++ [⟨x, (w.writeContent x).1⟩]) (body ++ more) ∧
      (w.writeContent x).2.headerWrote = true ∧ (w.writeContent x).2.headerSent = true ∧
      ((w.writeContent x).2.contentLength = -1 →
        w.headerWrote = true ∧ (w.writeContent x).1 = none ∧ more = (Call.write x).chunks) := by
  obtain ⟨hw0, hwrote0, hlength⟩ := wired_defaultHeader hw hx
  obtain ⟨w1, hsend, hw1, hsent, hwrote, hkeep, -⟩ := wired_sendHeader hw0 hwrote0 x.toOption
  have hfirst : w1.contentLength = -1 → w.headerWrote = true := by
    intro hnone
    by_contra hfirst
    exact hlength (by simpa using hfirst) (hkeep.symm.trans hnone)
  have hlen : x.bytes.length ≤ x.size := by cases x <;> simp [Content.bytes, Content.size]
  unfold writeContent
  rw [hsend]
  simp only
  rcases hw1.books hwrote with ⟨hnone, hpieces⟩ | ⟨n, hn, hwritten, hcounted⟩
  · rw [if_neg (by simp [hnone])]
    by_cases hnil : x.bytes = []
    · rw [if_pos hnil]
      exact ⟨[], hw1.extend hsent hw1.reliable (by simp) (Or.inl ⟨hnone, by simpa using hpieces⟩), hwrote, hsent,
        fun _ => ⟨hfirst hnone, rfl, (if_pos hnil).symm⟩⟩
    · obtain ⟨s', hwrite, hs', hrel⟩ := Sink.write_of_reliable hw1.reliable (encodeChunk x.bytes)
      rw [if_neg hnil, if_neg (by simp [hnone]), hwrite]
      exact ⟨encodeChunk x.bytes, hw1.extend hsent hrel hs'
        (Or.inl ⟨hnone, hpieces.snoc (BodyPiece.encodeChunk (by omega))⟩), hwrote, hsent,
        fun _ => ⟨hfirst hnone, rfl, (if_neg hnil).symm⟩⟩
  · have hc := hcounted.snoc x
    have hbook : w1.written + (x.size : Int) = total (log ++ [⟨x, if n < total log + x.size then
        some SrsError.httpContentLength else none⟩]) := by
      rw [hwritten, total_append]
      simp [total]
    by_cases hover : n < total log + x.size
    · rw [if_pos (by rw [hn, hwritten]; omega)]
      rw [if_pos hover, if_pos hover] at hc
      rw [if_pos hover] at hbook
      exact ⟨[], hw1.extend hsent hw1.reliable (by simp) (Or.inr ⟨n, hn, hbook, hc⟩), hwrote, hsent,
        fun hnone => absurd (hn.symm.trans hnone) (by omega)⟩
    · rw [if_neg (by rw [hn, hwritten]; omega)]
      rw [if_neg hover, if_neg hover] at hc
      rw [if_neg hover] at hbook
      by_cases hnil : x.bytes = []
      · rw [if_pos hnil]
        rw [hnil] at hc
        exact ⟨[], hw1.extend hsent hw1.reliable (by simp) (Or.inr ⟨n, hn, hbook, hc⟩), hwrote, hsent,
          fun hnone => absurd (hn.symm.trans hnone) (by omega)⟩
      · obtain ⟨s', hwrite, hs', hrel⟩ := Sink.write_of_reliable hw1.reliable x.bytes
        rw [if_neg hnil, if_pos (by omega), hwrite]
        exact ⟨x.bytes, hw1.extend hsent hrel hs' (Or.inr ⟨n, hn, hbook, hc⟩), hwrote, hsent,
          fun hnone => absurd (hn.symm.trans hnone) (by omega)⟩

/-- The pieces in a row, one after the other. -/
theorem wired_writeEach {iov : List Bytes} (hw : Wired io declared w log body)
    (hsize : ∀ d ∈ iov, d.length < 2 ^ 31) :
    ∃ more, Wired io declared (writeEach iov w).2.2 (log ++ (writeEach iov w).2.1) (body ++ more) ∧
      (iov ≠ [] → (writeEach iov w).2.2.headerSent = true) ∧
      (w.headerWrote = false ∨ w.contentLength ≠ -1 → iov ≠ [] → (writeEach iov w).2.2.contentLength ≠ -1) := by
  induction iov generalizing w log body with
  | nil => exact ⟨[], by simpa [writeEach] using hw, by simp, by simp⟩
  | cons d iov ih =>
    obtain ⟨more, h1, hwrote, hsent, hnone⟩ := wired_writeContent (x := .data d) hw (hsize d (by simp))
    have hkeep : w.headerWrote = true → _ := fun hwrote => (writeContent_keeps (x := .data d) hwrote).1
    unfold writeEach
    cases hwrite : w.writeContent (.data d) with
    | mk err w1 =>
      rw [hwrite] at h1 hwrote hsent hnone hkeep
      have hlength : w.headerWrote = false ∨ w.contentLength ≠ -1 → w1.contentLength ≠ -1 := by
        rintro (hfirst | hlen) hc
        · rw [(hnone hc).1] at hfirst
          cases hfirst
        · exact hlen ((hkeep (hnone hc).1).symm.trans hc)
      cases err with
      | some e => exact ⟨more, h1, fun _ => hsent, fun hmode _ => hlength hmode⟩
      | none =>
        obtain ⟨more', h2, hsent', hlength'⟩ := ih h1 fun d hd => hsize d (by simp [hd])
        refine ⟨more ++ more', by simpa using h2, fun _ => ?_, fun hmode _ => ?_⟩
        · by_cases hnil : iov = []
          · subst hnil
            exact hsent
          · exact hsent' hnil
        · by_cases hnil : iov = []
          · subst hnil
            exact hlength hmode
          · exact hlength' (.inr (hlength hmode)) hnil

/-- However many pieces there are, all of them are sent. -/
theorem srsWriteLargeIovs_eq (fuel : Nat) (iovs : List Bytes) {skt : Sink} (h : skt.Reliable) :
    ∃ skt', srsWriteLargeIovs fuel iovs skt = (none, skt') ∧ skt'.sent = skt.sent ++ iovs.flatten ∧
      skt'.Reliable := by
  induction fuel generalizing iovs skt with
  | zero => exact Sink.write_of_reliable h iovs.flatten
  | succ fuel ih =>
    rw [srsWriteLargeIovs]
    split_ifs
    · exact Sink.write_of_reliable h iovs.flatten
    · obtain ⟨skt₁, hwrite, hsent, hrel⟩ := Sink.write_of_reliable h (iovs.take limits).flatten
      obtain ⟨skt₂, hrest, hsent₂, hrel₂⟩ := ih (iovs.drop limits) hrel
      refine ⟨skt₂, by rw [hwrite]; exact hrest, ?_, hrel₂⟩
      rw [hsent₂, hsent, List.append_assoc, ← List.flatten_append, List.take_append_drop]

theorem iovSize_mod (iov : List Bytes) : (iovSize iov % 2 ^ 32).toNat = iov.flatten.length % 2 ^ 32 := by
  unfold iovSize toInt32
  have h : (Int.bmod iov.flatten.length (2 ^ 32)) % (2 ^ 32 : Nat) = (iov.flatten.length : Int) %
    (2 ^ 32 : Nat) :=
    Int.bmod_emod
  omega

/-- What a call that passes something leaves, and one in a body without a length. -/
structure Answers (w : SrsHttpResponseWriter) (c : Call) (more : Bytes) : Prop where
  sent : c.contents ≠ [] → (w.step c).2.2.headerSent = true
  chunks : (w.step c).2.2.contentLength = -1 → (w.step c).1 = none ∧ more = c.chunks

theorem wired_writev {iov : List Bytes} (hw : Wired io declared w log body)
    (hsize : ∀ d ∈ iov, d.length < 2 ^ 31) :
    ∃ more, Wired io declared (w.writev iov).2.2 (log ++ (w.writev iov).2.1) (body ++ more) ∧
      Answers w (.writev iov) more := by
  by_cases hnil : iov = []
  · subst hnil
    rw [writev_nil]
    exact ⟨[], by simpa using hw, fun hne => absurd rfl hne, fun _ => ⟨by rw [step, writev_nil], rfl⟩⟩
  by_cases heach : w.headerWrote = false ∨ w.contentLength ≠ -1
  · have hwritev : w.writev iov = writeEach iov w := by rw [writev, if_pos heach]
    obtain ⟨more, h, hsent, hlength⟩ := wired_writeEach hw hsize
    refine ⟨more, by rw [hwritev]; exact h, fun _ => ?_, fun hnone => ?_⟩
    · rw [step, hwritev]
      exact hsent hnil
    · rw [step, hwritev] at hnone
      exact absurd hnone (hlength heach hnil)
  · simp only [not_or, Bool.not_eq_false, ne_eq, not_not] at heach
    obtain ⟨w1, hsend, hw1, hsent, hwrote, hlen, -⟩ := wired_sendHeader hw heach.1 none
    have hnone : w1.contentLength = -1 := hlen.trans heach.2
    obtain ⟨skt', hwrite, hs', hrel⟩ := srsWriteLargeIovs_eq
      ([fmtX (iovSize iov % 2 ^ 32).toNat, crlf] ++ iov ++ [crlf]).length
      ([fmtX (iovSize iov % 2 ^ 32).toNat, crlf] ++ iov ++ [crlf]) hw1.reliable
    have hwritev : w.writev iov = (none, [], { w1 with written := w1.written + iovSize iov, skt := skt' }) := by
      rw [writev, if_neg (by simp [heach]), if_neg hnil, hsend]
      simp only [hwrite]
    have hpieces : Pieces body := (hw1.books hwrote).elim (fun h => h.2) fun ⟨n, hn, _⟩ => by omega
    have hpiece := hpieces.snoc (BodyPiece.chunk iov.flatten)
    refine ⟨_, ?_, fun _ => by rw [step, hwritev]; exact hsent,
      fun _ => ⟨by rw [step, hwritev], by rw [Call.chunks, if_neg hnil]⟩⟩
    rw [hwritev, List.append_nil]
    refine hw1.extend hsent hrel ?_ (Or.inl ⟨hnone, hpiece⟩)
    rw [hs', iovSize_mod]
    simp

/-- `final_request` ends the chunks, or makes a last write of nothing. -/
theorem wired_finalRequest (hw : Wired io declared w log body) :
    ∃ more, Wired io declared (w.step .finalRequest).2.2 (log ++ (w.step .finalRequest).2.1)
      (body ++ more) ∧ Answers w .finalRequest more := by
  have hw0 := wired_writeHeader hw 200
  have hwrote0 := headerWrote_writeHeader w 200
  obtain ⟨w1, hsend, hw1, hsent, hwrote, hlen, -⟩ := wired_sendHeader hw0 hwrote0 none
  by_cases hnone : w1.contentLength = -1
  · have hpieces : Pieces body := (hw1.books hwrote).elim (fun h => h.2) fun ⟨n, hn, _⟩ => by omega
    obtain ⟨s', hwrite, hs', hrel⟩ := Sink.write_of_reliable hw1.reliable lastChunk
    have hstep : w.step .finalRequest = (none, [], { w1 with skt := s' }) := by
      unfold step finalRequest
      simp only [hsend]
      rw [if_pos hnone, if_pos (hlen ▸ hnone), hwrite]
    refine ⟨lastChunk, ?_, fun _ => by rw [hstep]; exact hsent, fun _ => ⟨by rw [hstep], rfl⟩⟩
    rw [hstep, List.append_nil]
    exact hw1.extend hsent hrel hs' (Or.inl ⟨hnone, hpieces.snoc .last⟩)
  · have hstep : w.step .finalRequest = ((w1.writeContent (.null 0)).1,
        [⟨.null 0, (w1.writeContent (.null 0)).1⟩], (w1.writeContent (.null 0)).2) := by
      unfold step finalRequest
      simp only [hsend]
      rw [if_neg hnone, if_neg (hlen ▸ hnone), ← writeContent_null]
    obtain ⟨more, h, -, hsent', -⟩ := wired_writeContent (x := .null 0) hw1 (by simp [Content.size])
    refine ⟨more, by rw [hstep]; exact h, fun _ => by rw [hstep]; exact hsent', fun hc => ?_⟩
    rw [hstep] at hc
    exact absurd ((writeContent_keeps hwrote).1.symm.trans hc) hnone

/-- **One call.** -/
theorem wired_step {c : Call} (hw : Wired io declared w log body) (hc : c.Sized) :
    ∃ more, Wired io declared (w.step c).2.2 (log ++ (w.step c).2.1) (body ++ more) ∧ Answers w c more := by
  cases c with
  | writeHeader code =>
    exact ⟨[], by simpa [step] using wired_writeHeader hw code, fun hne => absurd rfl hne, fun _ => ⟨rfl, rfl⟩⟩
  | write x =>
    obtain ⟨more, h, -, hsent, hnone⟩ := wired_writeContent hw hc
    exact ⟨more, h, fun _ => hsent, fun hc => (hnone hc).2⟩
  | writev iov => exact wired_writev hw hc
  | finalRequest => exact wired_finalRequest hw

/-! ## From the books to the arguments -/

/-- What is passed to `write` is tried until a write fails. -/
inductive Tried : List Content → List Attempt → Option SrsError → Prop
  | all (xs : List Content) : Tried xs (xs.map fun x => ⟨x, none⟩) none
  | stopped (pre : List Content) (x : Content) (rest : List Content) (e : SrsError) :
      Tried (pre ++ x :: rest) (pre.map (fun x => ⟨x, none⟩) ++ [⟨x, some e⟩]) (some e)

theorem tried_write (x : Content) (r : Option SrsError) : Tried [x] [⟨x, r⟩] r := by
  cases r with
  | none => exact .all [x]
  | some e => exact .stopped [] x [] e

theorem tried_writeEach (iov : List Bytes) (w : SrsHttpResponseWriter) :
    Tried (iov.map .data) (writeEach iov w).2.1 (writeEach iov w).1 := by
  induction iov generalizing w with
  | nil => exact .all []
  | cons d iov ih =>
    unfold writeEach
    rcases hwrite : w.writeContent (.data d) with ⟨_ | e, w1⟩
    · have hrest := ih w1
      simp only
      generalize (writeEach iov w1).2.1 = es at hrest ⊢
      generalize (writeEach iov w1).1 = r at hrest ⊢
      rw [List.map_cons]
      generalize iov.map Content.data = xs at hrest ⊢
      cases hrest with
      | all => exact .all (.data d :: xs)
      | stopped pre x rest e => exact .stopped (.data d :: pre) x rest e
    · exact .stopped [] (.data d) (iov.map .data) e

/-- Every call that leaves a length tries what it passes. -/
theorem tried_step {c : Call} (hlen : (w.step c).2.2.contentLength ≠ -1) :
    Tried c.contents (w.step c).2.1 (w.step c).1 := by
  cases c with
  | writeHeader code => exact .all []
  | write x => exact tried_write x _
  | writev iov =>
    by_cases heach : w.headerWrote = false ∨ w.contentLength ≠ -1
    · rw [step, writev, if_pos heach]
      exact tried_writeEach iov w
    · have hnone : w.contentLength = -1 := by
        by_contra hc
        exact heach (.inr hc)
      have hkeep := (sendHeader_keeps w none).1.trans hnone
      rw [step, writev, if_neg heach] at hlen ⊢
      by_cases hnil : iov = []
      · rw [if_pos hnil, hnil]
        exact .all []
      · rw [if_neg hnil] at hlen
        rcases hsend : w.sendHeader none with ⟨_ | e, w1⟩
        all_goals
          rw [hsend] at hlen hkeep
          exact absurd hkeep hlen
  | finalRequest =>
    have hkeep := (sendHeader_keeps (w.writeHeader 200) none).1
    by_cases hnone : (w.writeHeader 200).contentLength = -1
    · refine absurd ?_ hlen
      rw [hnone] at hkeep
      unfold step finalRequest
      rcases hsend : (w.writeHeader 200).sendHeader none with ⟨_ | e, w1⟩
      · rw [hsend] at hkeep
        have hkeep : w1.contentLength = -1 := hkeep
        simp only [if_pos hkeep]
        exact hkeep
      · rw [hsend] at hkeep
        exact hkeep
    · rw [step, if_neg hnone]
      exact tried_write _ _

theorem sizes_append (xs ys : List Content) : sizes (xs ++ ys) = sizes xs + sizes ys := by simp [sizes]

theorem total_map (xs : List Content) : total (xs.map fun x => ⟨x, none⟩) = sizes xs := by
  simp [total, sizes, Function.comp_def]

theorem accepted_map (xs : List Content) :
    accepted (xs.map fun x => ⟨x, none⟩) = xs.flatMap Content.bytes := by
  simp [accepted, List.flatMap_map]

theorem fitting_append (n sofar : Nat) (xs ys : List Content) :
    fitting n sofar (xs ++ ys) = fitting n sofar xs ++ fitting n (sofar + sizes xs) ys := by
  induction xs generalizing sofar with
  | nil => simp [fitting, sizes]
  | cons x xs ih =>
    have hsizes : sofar + x.size + sizes xs = sofar + sizes (x :: xs) := by
      simp only [sizes, List.map_cons, List.sum_cons]
      omega
    rw [List.cons_append, fitting, fitting, ih, hsizes, List.append_assoc]

/-- What fits as a whole fits. -/
theorem fitting_of_le {n sofar : Nat} {xs : List Content} (h : sofar + sizes xs ≤ n) :
    fitting n sofar xs = xs.flatMap Content.bytes := by
  induction xs generalizing sofar with
  | nil => rfl
  | cons x xs ih =>
    simp only [sizes, List.map_cons, List.sum_cons] at h
    rw [fitting, if_pos (by omega), ih (by simp only [sizes]; omega), List.flatMap_cons]

/-- Nothing fits behind the end. -/
theorem fitting_of_lt {n sofar : Nat} {xs : List Content} (h : n < sofar) : fitting n sofar xs = [] := by
  induction xs generalizing sofar with
  | nil => rfl
  | cons x xs ih => rw [fitting, if_neg (by omega), ih (by omega), List.append_nil]

/-- The books hold what has been passed, or both have come to more than the length. -/
structure Entered (n : Nat) (xs : List Content) (log : List Attempt) : Prop where
  total : total log = sizes xs ∨ n < total log ∧ n < sizes xs
  accepted : accepted log = fitting n 0 xs

/-- A call more. -/
theorem Entered.snoc {n : Nat} {xs ys : List Content} {es : List Attempt} {r : Option SrsError} {body : Bytes}
    (h : Entered n xs log) (ht : Tried ys es r) (hcounted : Counted n (log ++ es) body) :
    Entered n (xs ++ ys) (log ++ es) ∧
      r = if ys = [] then none else if n < sizes xs + sizes ys then some .httpContentLength else none := by
  -- a write that was accepted leaves no more than the length, and nothing has been left out
  have hbefore : ∀ (pre : List Content) (post : List Attempt), pre ≠ [] →
      log ++ es = log ++ pre.map (fun x => ⟨x, none⟩) ++ post →
      HttpProxy.SrsHttpResponseWriter.total log = sizes xs ∧ sizes xs + sizes pre ≤ n := by
    intro pre post hne heq
    obtain ⟨front, x, rfl⟩ := (List.eq_nil_or_concat' pre).resolve_left hne
    have hlast := (hcounted.fails (log ++ front.map fun x => ⟨x, none⟩) ⟨x, none⟩ post
      (by rw [heq]; simp)).1
    have hle : ¬ n < _ := fun hlt => by cases hlast.2 hlt
    simp only [total_append, total_map] at hle
    have hone : HttpProxy.SrsHttpResponseWriter.total [⟨x, none⟩] = sizes [x] := total_map [x]
    rw [sizes_append]
    rcases h.total with heq | ⟨hlog, -⟩
    · exact ⟨heq, by omega⟩
    · omega
  cases ht with
  | all =>
    by_cases hnil : ys = []
    · subst hnil
      rw [List.map_nil, List.append_nil, List.append_nil, if_pos rfl]
      exact ⟨h, rfl⟩
    · obtain ⟨heq, hle⟩ := hbefore ys [] hnil (List.append_nil _).symm
      refine ⟨⟨.inl ?_, ?_⟩, ?_⟩
      · rw [total_append, total_map, sizes_append, heq]
      · rw [accepted_append, accepted_map, h.accepted, fitting_append, Nat.zero_add, fitting_of_le hle]
      · rw [if_neg hnil, if_neg (by omega)]
  | stopped pre x rest e =>
    obtain ⟨hiff, herr⟩ := hcounted.fails (log ++ pre.map fun x => ⟨x, none⟩) ⟨x, some e⟩ []
      (List.append_assoc _ _ _).symm
    obtain rfl : e = .httpContentLength := by simpa using herr
    have hover := hiff.1 rfl
    have hone : HttpProxy.SrsHttpResponseWriter.total [⟨x, some .httpContentLength⟩] = x.size := by simp [
      HttpProxy.SrsHttpResponseWriter.total]
    have hrest : sizes (x :: rest) = x.size + sizes rest := by simp [sizes]
    simp only [total_append, total_map, hone] at hover
    rw [if_neg (by simp), sizes_append, hrest]
    have hboth : (HttpProxy.SrsHttpResponseWriter.total log = sizes xs ∧ sizes xs + sizes pre ≤ n) ∨
        pre = [] ∧ n < sizes xs := by
      by_cases hnil : pre = []
      · subst hnil
        have hnone : sizes [] = 0 := rfl
        rcases h.total with heq | ⟨-, hlt⟩
        · by_cases hle : sizes xs ≤ n
          · exact .inl ⟨heq, by omega⟩
          · exact .inr ⟨rfl, by omega⟩
        · exact .inr ⟨rfl, hlt⟩
      · exact .inl (hbefore pre [⟨x, some .httpContentLength⟩] hnil (List.append_assoc _ _ _).symm)
    have hlt : n < sizes xs + (sizes pre + (x.size + sizes rest)) := by
      rcases hboth with ⟨heq, -⟩ | ⟨-, hlt⟩
      · omega
      · omega
    refine ⟨⟨.inr ⟨?_, ?_⟩, ?_⟩, (if_pos hlt).symm⟩
    · simp only [total_append, total_map, hone]
      omega
    · rw [sizes_append, sizes_append, hrest]
      exact hlt
    · have hnothing : HttpProxy.SrsHttpResponseWriter.accepted [⟨x, some .httpContentLength⟩] = [] := by simp [
        HttpProxy.SrsHttpResponseWriter.accepted]
      rw [accepted_append, accepted_append, accepted_map, hnothing, h.accepted, fitting_append, Nat.zero_add,
        List.append_nil]
      rcases hboth with ⟨heq, hle⟩ | ⟨rfl, hxs⟩
      · rw [fitting_append, fitting_of_le hle, fitting, if_neg (by omega), List.nil_append,
          @fitting_of_lt n (sizes xs + sizes pre + x.size) rest (by omega), List.append_nil]
      · rw [@fitting_of_lt n (sizes xs) _ hxs]
        rfl

/-- A call that passes nothing only writes the header, or nothing. -/
theorem step_of_silent {c : Call} (h : c.contents = []) :
    (∃ code, w.step c = (none, [], w.writeHeader code) ∧ c.chunks = []) ∨
      w.step c = (none, [], w) ∧ c.chunks = [] := by
  cases c with
  | writeHeader code => exact .inl ⟨code, rfl, rfl⟩
  | write x => cases h
  | writev iov =>
    obtain rfl : iov = [] := by simpa [Call.contents] using h
    exact .inr ⟨w.writev_nil, rfl⟩
  | finalRequest => cases h

theorem contentLength_writeEach {iov : List Bytes} (hwrote : w.headerWrote = true) :
    (writeEach iov w).2.2.contentLength = w.contentLength := by
  induction iov generalizing w with
  | nil => rfl
  | cons d iov ih =>
    obtain ⟨hlength, hnamed⟩ := writeContent_keeps (x := .data d) hwrote
    unfold writeEach
    rcases hwrite : w.writeContent (.data d) with ⟨_ | e, w1⟩
    · rw [hwrite] at hlength hnamed
      exact (ih hnamed).trans hlength
    · rw [hwrite] at hlength
      exact hlength

/-- Once the header has been written, the length stays. -/
theorem contentLength_step {c : Call} (hwrote : w.headerWrote = true) :
    (w.step c).2.2.contentLength = w.contentLength := by
  have hsame : ∀ code, w.writeHeader code = w := fun code => by rw [writeHeader, if_pos hwrote]
  obtain ⟨hlength, hnamed⟩ := sendHeader_keeps w none
  rw [hwrote] at hnamed
  cases c with
  | writeHeader code => rw [step, hsame]
  | write x => exact (writeContent_keeps hwrote).1
  | writev iov =>
    rw [step, writev]
    split_ifs with heach hnil
    · exact contentLength_writeEach hwrote
    · rfl
    · rcases hsend : w.sendHeader none with ⟨_ | e, w1⟩
      all_goals
        rw [hsend] at hlength
        exact hlength
  | finalRequest =>
    show w.finalRequest.2.contentLength = _
    rw [finalRequest, hsame]
    rcases hsend : w.sendHeader none with ⟨_ | e, w1⟩
    · rw [hsend] at hlength hnamed
      simp only
      split_ifs
      · exact hlength
      · rw [← writeContent_null]
        exact (writeContent_keeps hnamed).1.trans hlength
    · rw [hsend] at hlength
      exact hlength

theorem answers_append (n sofar : Nat) (cs cs' : List Call) :
    answers n sofar (cs ++ cs') =
      answers n sofar cs ++ answers n (sofar + sizes (cs.flatMap Call.contents)) cs' := by
  induction cs generalizing sofar with
  | nil => rfl
  | cons c cs ih =>
    rw [List.cons_append, answers, answers, ih, List.flatMap_cons, sizes_append, Nat.add_assoc]
    rfl

/-- Calls that pass nothing. -/
theorem answers_of_silent {cs : List Call} (h : ∀ c ∈ cs, c.contents = []) (n sofar : Nat) :
    answers n sofar cs = cs.map fun _ => none := by
  induction cs generalizing sofar with
  | nil => rfl
  | cons c cs ih =>
    have hc := h c (by simp)
    rw [answers, answer, if_pos hc, ih fun c hc => h c (by simp [hc])]
    rfl

/-- The calls that have been made, in terms of their arguments: what they have returned, and what they
have put behind the header. -/
structure Served (done : List Call) (w : SrsHttpResponseWriter) (log : List Attempt) (body : Bytes)
    (rs : List (Option SrsError)) : Prop where
  first : w.headerWrote = false → w.contentLength = -1 ∧ ∀ c ∈ done, c.contents = []
  sent : w.headerSent = true ↔ ∃ c ∈ done, c.contents ≠ []
  chunks : w.contentLength = -1 → body = done.flatMap Call.chunks ∧ rs = done.map fun _ => none
  counted : w.headerWrote = true → ∀ n : Nat, w.contentLength = n →
    Entered n (done.flatMap Call.contents) log ∧ rs = answers n 0 done

/-- **One call more.** -/
theorem Served.snoc {done : List Call} {rs : List (Option SrsError)} {c : Call} {more : Bytes}
    (h : Served done w log body rs) (hw : Wired io declared w log body)
    (hw' : Wired io declared (w.step c).2.2 (log ++ (w.step c).2.1) (body ++ more)) (ha : Answers w c more) :
    Served (done ++ [c]) (w.step c).2.2 (log ++ (w.step c).2.1) (body ++ more) (rs ++ [(w.step c).1]) := by
  -- a call that passes nothing leaves what has been sent, and unless it writes the header, everything
  have hsilent : c.contents = [] → (w.step c).2.2.headerSent = w.headerSent ∧
      ((w.step c).2.2.headerWrote = false → (w.step c).2.2 = w) := by
    intro hc
    rcases step_of_silent (w := w) hc with ⟨code, hstep, -⟩ | ⟨hstep, -⟩
    · rw [hstep]
      refine ⟨?_, fun hfirst => ?_⟩
      · rw [writeHeader]
        split_ifs <;> rfl
      · rw [headerWrote_writeHeader] at hfirst
        cases hfirst
    · rw [hstep]
      exact ⟨rfl, fun _ => rfl⟩
  have hfirst : (w.step c).2.2.headerWrote = false → c.contents = [] ∧ (w.step c).2.2 = w := by
    intro hfirst
    have hc : c.contents = [] := by
      by_contra hne
      rw [hw'.wrote (ha.sent hne)] at hfirst
      cases hfirst
    exact ⟨hc, (hsilent hc).2 hfirst⟩
  refine ⟨fun hf => ?_, ?_, fun hnone => ?_, fun hwrote n hn => ?_⟩
  · obtain ⟨hc, hsame⟩ := hfirst hf
    rw [hsame] at hf ⊢
    obtain ⟨hlength, hdone⟩ := h.first hf
    refine ⟨hlength, fun c' hc' => ?_⟩
    rcases List.mem_append.1 hc' with hc' | hc'
    · exact hdone c' hc'
    · rw [List.mem_singleton.1 hc', hc]
  · by_cases hc : c.contents = []
    · rw [(hsilent hc).1, h.sent]
      simp [or_and_right, exists_or, hc]
    · exact iff_of_true (ha.sent hc) ⟨c, by simp, hc⟩
  · have hbefore : w.contentLength = -1 := by
      by_cases hwrote : w.headerWrote = true
      · rwa [contentLength_step hwrote] at hnone
      · exact (h.first (by simpa using hwrote)).1
    obtain ⟨hbody, hrs⟩ := h.chunks hbefore
    obtain ⟨hret, hmore⟩ := ha.chunks hnone
    rw [hbody, hrs, hret, hmore]
    simp
  · have htried := tried_step (w := w) (c := c) (by omega)
    have hcounted : Counted n (log ++ (w.step c).2.1) (body ++ more) := by
      rcases hw'.books hwrote with ⟨hnone, -⟩ | ⟨n', hn', -, hcounted⟩
      · omega
      · obtain rfl : n' = n := by omega
        exact hcounted
    have hbefore : Entered n (done.flatMap Call.contents) log ∧ rs = answers n 0 done := by
      by_cases hwrote : w.headerWrote = true
      · rw [contentLength_step hwrote] at hn
        exact h.counted hwrote n hn
      · have hf : w.headerWrote = false := by simpa using hwrote
        obtain ⟨hlength, hdone⟩ := h.first hf
        have hunsent : w.headerSent = false := by
          by_contra hs
          exact hwrote (hw.wrote (by simpa using hs))
        obtain ⟨rfl, -, -⟩ := hw.quiet hunsent
        rw [List.flatMap_eq_nil_iff.2 hdone, answers_of_silent hdone]
        exact ⟨⟨.inl rfl, rfl⟩, (h.chunks hlength).2⟩
    obtain ⟨hentered, hrs⟩ := hbefore
    obtain ⟨hentered', hret⟩ := hentered.snoc htried hcounted
    refine ⟨by rw [List.flatMap_append, List.flatMap_singleton]; exact hentered', ?_⟩
    rw [answers_append, ← hrs, hret, Nat.zero_add]
    rfl

/-- Any number of calls. -/
theorem served_run {calls done : List Call} {rs : List (Option SrsError)} (hw : Wired io declared w log body)
    (h : Served done w log body rs) (hc : ∀ c ∈ calls, c.Sized) :
    ∃ more, Wired io declared (run calls w).2 (log ++ (run calls w).1) (body ++ more) ∧
      Served (done ++ calls) (run calls w).2 (log ++ (run calls w).1) (body ++ more) (rs ++ returns calls w) := by
  induction calls generalizing w log body done rs with
  | nil => exact ⟨[], by simpa [run] using hw, by simpa [run, returns] using h⟩
  | cons c calls ih =>
    obtain ⟨more, hw', ha⟩ := wired_step hw (hc c (by simp))
    obtain ⟨more', hw'', h''⟩ := ih hw' (h.snoc hw hw' ha) fun c hc' => hc c (by simp [hc'])
    exact ⟨more ++ more', by simpa [run] using hw'', by simpa [run, returns] using h''⟩

/-- A fresh writer, with the header as it was set. -/
theorem wired_init {hdr : SrsHttpHeader} (hio : io.Reliable) (hd : hdr.Declares declared) :
    Wired io declared { init io with hdr := hdr } [] [] :=
  ⟨rfl, hio, by simp [init], fun _ => ⟨rfl, rfl, rfl⟩, by simp [init], fun _ => hd, by simp [init],
    by simp [init]⟩

theorem served_init (hdr : SrsHttpHeader) : Served [] { init io with hdr := hdr } [] [] [] :=
  ⟨fun _ => ⟨rfl, by simp⟩, by simp [init], fun _ => ⟨rfl, rfl⟩, by simp [init]⟩

/-- **What a response writer puts on the wire.**  After any sequence of calls on a transport that
never fails, the wire is empty if no call has passed anything, and else it holds one header block with
the body behind it and nothing else.  There is no length in effect, or a number, which is the one that
the header declared before the first call if it did.  With the length `n` the body is the data that fit
it, and is not longer, and every call that passes something fails with `ERROR_HTTP_CONTENT_LENGTH`
exactly if the sizes passed so far, its own included, sum to more than `n`.  Without a length no call
fails, and the body is the chunks of the calls. -/
theorem run_wire {hdr : SrsHttpHeader} {calls : List Call} (hio : io.Reliable) (hd : hdr.Declares declared)
    (hc : ∀ c ∈ calls, c.Sized) :
    ∃ body,
      ((∀ c ∈ calls, c.contents = []) ∧ (run calls { init io with hdr := hdr }).2.skt.sent = io.sent ∧ body = [] ∨
        (∃ c ∈ calls, c.contents ≠ []) ∧ (run calls { init io with hdr := hdr }).2.skt.sent =
          io.sent ++ headerBlock (run calls { init io with hdr := hdr }).2.status
            (run calls { init io with hdr := hdr }).2.hdr ++ body) ∧
      ((run calls { init io with hdr := hdr }).2.contentLength = -1 ∧ body = calls.flatMap Call.chunks ∧
          returns calls { init io with hdr := hdr } = calls.map (fun _ => none) ∨
        ∃ n : Nat, (run calls { init io with hdr := hdr }).2.contentLength = n ∧
          body = fitting n 0 (calls.flatMap Call.contents) ∧ body.length ≤ n ∧
          returns calls { init io with hdr := hdr } = answers n 0 calls) ∧
      ((run calls { init io with hdr := hdr }).2.headerWrote = true → ∀ n, declared = some n →
        (run calls { init io with hdr := hdr }).2.contentLength = n) := by
  obtain ⟨body, hw, h⟩ := served_run (wired_init hio hd) (served_init hdr) hc
  simp only [List.nil_append] at hw h
  refine ⟨body, ?_, ?_, hw.length⟩
  · cases hsent : (run calls { init io with hdr := hdr }).2.headerSent with
    | true => exact .inr ⟨h.sent.1 hsent, by simpa [hsent] using hw.wire⟩
    | false =>
      obtain ⟨-, hbody, -⟩ := hw.quiet hsent
      refine .inl ⟨fun c hc => ?_, by simpa [hsent, hbody] using hw.wire, hbody⟩
      by_contra hne
      rw [h.sent.2 ⟨c, hc, hne⟩] at hsent
      cases hsent
  · cases hwrote : (run calls { init io with hdr := hdr }).2.headerWrote with
    | false =>
      obtain ⟨hnone, -⟩ := h.first hwrote
      exact .inl ⟨hnone, h.chunks hnone⟩
    | true =>
      rcases hw.books hwrote with ⟨hnone, -⟩ | ⟨n, hn, -, hcounted⟩
      · exact .inl ⟨hnone, h.chunks hnone⟩
      · obtain ⟨hentered, hrs⟩ := h.counted hwrote n hn
        exact .inr ⟨n, hn, hcounted.accepts.trans hentered.accepted, hcounted.le, hrs⟩

/-- Eight bytes for a length of five: the piece that does not fit leaves nothing, and no call after it
succeeds; and three bytes in chunks. -/
theorem run_wire_overflow :
    (∃ hdr body, (run [.write (.data (str "abc")), .writev [str "d", str "efg"], .finalRequest]
          { init ⟨[], []⟩ with hdr := SrsHttpHeader.empty.set (str "Content-Length") (str "5") }).2.skt.sent =
        headerBlock 200 hdr ++ body ∧ body = str "abcd" ∧
      returns [.write (.data (str "abc")), .writev [str "d", str "efg"], .finalRequest]
          { init ⟨[], []⟩ with hdr := SrsHttpHeader.empty.set (str "Content-Length") (str "5") } =
        [none, some .httpContentLength, some .httpContentLength]) ∧
    ∃ hdr body, (run [.writeHeader 404, .write (.data (str "abc")), .write (.null 2), .finalRequest]
          (init ⟨[], []⟩)).2.skt.sent = headerBlock 404 hdr ++ body ∧
      body = str "3\r\nabc\r\n0\r\n\r\n" ∧
      returns [.writeHeader 404, .write (.data (str "abc")), .write (.null 2), .finalRequest]
        (init ⟨[], []⟩) = [none, none, none, none] := by
  constructor
  · have hd : (SrsHttpHeader.empty.set (str "Content-Length") (str "5")).Declares (some 5) :=
      ⟨str "5", by decide +kernel, by decide, by decide +kernel, by decide +kernel, by norm_num⟩
    obtain ⟨body, hsent, hbody, hlength⟩ := @run_wire ⟨[], []⟩ _
      (SrsHttpHeader.empty.set (str "Content-Length") (str "5"))
      [.write (.data (str "abc")), .writev [str "d", str "efg"], .finalRequest] (by simp [Sink.Reliable]) hd
      (by simp [Call.Sized, Content.size]; decide)
    have hfive := hlength (by decide) 5 rfl
    rcases hsent with ⟨hsilent, -⟩ | ⟨-, hsent⟩
    · cases hsilent (.write (.data (str "abc"))) (by simp)
    rcases hbody with ⟨hnone, -⟩ | ⟨n, hn, rfl, -, hrs⟩
    · omega
    · obtain rfl : n = 5 := by omega
      exact ⟨_, _, hsent, by decide, hrs.trans (by decide)⟩
  · obtain ⟨body, hsent, hbody, -⟩ := @run_wire ⟨[], []⟩ none SrsHttpHeader.empty
      [.writeHeader 404, .write (.data (str "abc")), .write (.null 2), .finalRequest] (by simp [Sink.Reliable])
      (show SrsHttpHeader.empty.get (str "Content-Length") = [] by decide)
      (by simp [Call.Sized, Content.size]; decide)
    have hnone : (run [.writeHeader 404, .write (.data (str "abc")), .write (.null 2), .finalRequest]
        (init ⟨[], []⟩)).2.contentLength = -1 := by decide
    rcases hsent with ⟨hsilent, -⟩ | ⟨-, hsent⟩
    · cases hsilent .finalRequest (by simp)
    rcases hbody with ⟨-, rfl, hrs⟩ | ⟨n, hn, -⟩
    · exact ⟨_, _, hsent, by decide, hrs⟩
    · have hn : (run [.writeHeader 404, .write (.data (str "abc")), .write (.null 2), .finalRequest]
          (init ⟨[], []⟩)).2.contentLength = n := hn
      omega

end SrsHttpResponseWriter

end HttpProxy
