import HttpProxy.Body.Completeness
import HttpProxy.Body.Dry
import HttpProxy.Body.Progress

/-!
# Reading on after a failed read

A caller that makes a call again when it has failed at the socket.  The reader changes its counters at
different moments around the reads of the socket: behind a size line the number of bytes that were asked
for is subtracted from what is left of the chunk, even if none of them came, and what is left is nothing
while the line end behind the chunk is still to come.

* `again` — the calls of such a caller.
* `Atomic` — they deliver what they deliver without the failure, and each reports what it delivers.
* `Harmless` — the place of the failure in a chunked body.
* `atomic_iff` — which failures do no harm.
-/

namespace HttpProxy

/-- The errors of the reader itself, after which a caller gives up. -/
def SrsError.ofReader : SrsError → Bool
  | .readerBufferOverflow | .httpInvalidChunkHeader | .httpResponseEof | .assertFailed => true
  | _ => false

/-- The number that is stored through `nb_read` is the number of bytes that are delivered. -/
def ReadResult.Reports (res : ReadResult) : Prop := res.nbRead.getD 0 = res.data.length

/-- Two growing lists come to the same in the end. -/
def SameTotal {α : Type} (x y : Nat → List α) : Prop := (∀ n, ∃ m, x n <+: y m) ∧ ∀ n, ∃ m, y n <+: x m

theorem SameTotal.cons_iff {α : Type} {x y x' y' : Nat → List α} {d : List α} (hx : x 0 = []) (hy : y 0 = [])
    (hx' : ∀ n, x (n + 1) = d ++ x' n) (hy' : ∀ n, y (n + 1) = d ++ y' n) : SameTotal x y ↔
      SameTotal x' y' := by
  have hback : ∀ {x y x' y' : Nat → List α}, x 0 = [] → y 0 = [] → (∀ n, x (n + 1) = d ++ x' n) →
      (∀ n, y (n + 1) = d ++ y' n) → ((∀ n, ∃ m, x n <+: y m) ↔ ∀ n, ∃ m, x' n <+: y' m) := by
    intro x y x' y' hx hy hx' hy'
    constructor
    · intro h n
      obtain ⟨m, hm⟩ := h (n + 1)
      rw [hx'] at hm
      cases m with
      | zero =>
        rw [hy, List.prefix_nil, List.append_eq_nil_iff] at hm
        exact ⟨0, by rw [hm.2]; exact List.nil_prefix⟩
      | succ m =>
        rw [hy', List.prefix_append_right_inj] at hm
        exact ⟨m, hm⟩
    · intro h n
      cases n with
      | zero => exact ⟨0, by rw [hx]; exact List.nil_prefix⟩
      | succ n =>
        obtain ⟨m, hm⟩ := h n
        exact ⟨m + 1, by rw [hx', hy', List.prefix_append_right_inj]; exact hm⟩
  exact and_congr (hback hx hy hx' hy') (hback hy hx hy' hx')

@[simp] theorem Source.append_nil (src : Source) : src.append [] = src := by
  rw [append, List.append_nil]

@[simp] theorem Source.append_unread (src : Source) (t : Socket) : (src.append t).unread =
    src.unread ++ t.pending := by
  simp [append, unread, Socket.pending]

namespace SrsHttpResponseReader

variable {f : BodyFraming} {sizes : Nat → Nat} {r r' : SrsHttpResponseReader} {src src' : Source} {n : Nat}
  {e : SrsError} {s t : Socket}

/-! ## The calls -/

/-- The first `n` calls of a caller that makes a call again when it fails at the socket, and gives up
when the reader says so.  The `i`-th of the calls that come back is for `sizes i` bytes. -/
def again (f : BodyFraming) (sizes : Nat → Nat) : Nat → SrsHttpResponseReader → Source → List ReadResult
  | 0, _, _ => []
  | n + 1, r, src =>
      let res := read f r src (sizes 0)
      res :: match res.err with
        | none => again f (fun i => sizes (i + 1)) n res.reader res.src
        | some e => if e.ofReader then [] else again f sizes n res.reader res.src

/-- What they deliver. -/
def delivered (f : BodyFraming) (sizes : Nat → Nat) (n : Nat) (r : SrsHttpResponseReader)
    (src : Source) : Bytes :=
  (again f sizes n r src).flatMap ReadResult.data

theorem again_ok (h : (read f r src (sizes 0)).err = none) (n : Nat) :
    again f sizes (n + 1) r src = read f r src (sizes 0) ::
      again f (fun i => sizes (i + 1)) n (read f r src (sizes 0)).reader (read f r src (sizes 0)).src := by
  rw [again]
  simp only [h]

theorem again_retry (h : (read f r src (sizes 0)).err = some e) (he : e.ofReader = false) (n : Nat) :
    again f sizes (n + 1) r src = read f r src (sizes 0) ::
      again f sizes n (read f r src (sizes 0)).reader (read f r src (sizes 0)).src := by
  rw [again]
  simp only [h, he, Bool.false_eq_true, if_false]

theorem again_stop (h : (read f r src (sizes 0)).err = some e) (he : e.ofReader = true) (n : Nat) :
    again f sizes (n + 1) r src = [read f r src (sizes 0)] := by
  rw [again]
  simp only [h, he, if_true]

/-- The calls depend on the first one. -/
theorem again_congr (h : read f r src (sizes 0) = read f r' src' (sizes 0)) (n : Nat) :
    again f sizes n r src = again f sizes n r' src' := by
  cases n with
  | zero => rfl
  | succ n => rw [again, again, h]

theorem again_eof (h : r.isEof = true) (n : Nat) :
    ∀ res ∈ again f sizes n r src, res.data = [] ∧ res.Reports := by
  intro res hres
  cases n with
  | zero => cases hres
  | succ n =>
    have hread : read f r src (sizes 0) = _ := read_of_eof h src (sizes 0)
    rw [again_stop (e := .httpResponseEof) (by rw [hread]) rfl, List.mem_singleton, hread] at hres
    rw [hres]
    exact ⟨rfl, rfl⟩

/-! ## Failures that do no harm -/

/-- On `src` a socket read fails, on `src'` it does not: each call reports what it delivers, and in the
end the calls deliver the same bytes. -/
structure Atomic (f : BodyFraming) (sizes : Nat → Nat) (r : SrsHttpResponseReader)
    (src src' : Source) : Prop where
  reports : ∀ n, ∀ res ∈ again f sizes n r src, res.Reports
  total : SameTotal (fun n => delivered f sizes n r src) fun n => delivered f sizes n r src'

/-- A call that does not come to the failure. -/
theorem atomic_ok_iff (hf : f.chunked = true ∨ f.contentLength ≠ -1) (h : (read f r src (sizes 0)).err = none)
    (hrep : (read f r src (sizes 0)).Reports) (s t : Socket) :
    Atomic f sizes r (src.append s) (src.append t) ↔
      Atomic f (fun i => sizes (i + 1)) (read f r src (sizes 0)).reader
        ((read f r src (sizes 0)).src.append s)
        ((read f r src (sizes 0)).src.append t) := by
  have hagain : ∀ t n, again f sizes (n + 1) r (src.append t) = (read f r src (sizes 0)).append t ::
      again f (fun i => sizes (i + 1)) n (read f r src (sizes 0)).reader
        ((read f r src (sizes 0)).src.append t) := by
    intro t n
    have happ : read f r (src.append t) (sizes 0) = (read f r src (sizes 0)).append t :=
      read_append hf (.inl h) t
    rw [again_ok (by rw [happ]; exact h), happ]
    rfl
  have hdelivered : ∀ t n, delivered f sizes (n + 1) r (src.append t) = (read f r src (sizes 0)).data ++
      delivered f (fun i => sizes (i + 1)) n (read f r src (sizes 0)).reader
        ((read f r src (sizes 0)).src.append t) := by
    intro t n
    rw [delivered, delivered, hagain, List.flatMap_cons]
    rfl
  have htotal : SameTotal (fun n => delivered f sizes n r (src.append s))
      (fun n => delivered f sizes n r (src.append t)) ↔
      SameTotal (fun n => delivered f (fun i => sizes (i + 1)) n (read f r src (sizes 0)).reader
          ((read f r src (sizes 0)).src.append s))
        fun n => delivered f (fun i => sizes (i + 1)) n (read f r src (sizes 0)).reader
          ((read f r src (sizes 0)).src.append t) :=
    SameTotal.cons_iff rfl rfl (hdelivered s) (hdelivered t)
  constructor
  · rintro ⟨hreports, hsame⟩
    refine ⟨fun n res hres => hreports (n + 1) res ?_, htotal.1 hsame⟩
    rw [hagain]
    exact List.mem_cons_of_mem _ hres
  · rintro ⟨hreports, hsame⟩
    refine ⟨fun n res hres => ?_, htotal.2 hsame⟩
    cases n with
    | zero => cases hres
    | succ n =>
      rw [hagain] at hres
      rcases List.mem_cons.1 hres with rfl | hres
      · exact hrep
      · exact hreports n res hres

theorem atomic_congr {src₁ src₁' : Source} (h : read f r src (sizes 0) = read f r' src₁ (sizes 0))
    (h' : read f r src' (sizes 0) = read f r' src₁' (sizes 0)) :
    Atomic f sizes r src src' ↔ Atomic f sizes r' src₁ src₁' := by
  have hx : ∀ n, delivered f sizes n r src = delivered f sizes n r' src₁ := fun n => by
    rw [delivered, delivered, again_congr h]
  have hy : ∀ n, delivered f sizes n r src' = delivered f sizes n r' src₁' := fun n => by
    rw [delivered, delivered, again_congr h']
  constructor
  · rintro ⟨hreports, htotal⟩
    refine ⟨fun n => ?_, ?_⟩
    · rw [← again_congr h]
      exact hreports n
    · simpa only [hx, hy] using htotal
  · rintro ⟨hreports, htotal⟩
    refine ⟨fun n => ?_, ?_⟩
    · rw [again_congr h]
      exact hreports n
    · simpa only [hx, hy] using htotal

/-- A read that can be made again does no harm. -/
theorem Repeatable.atomic (h : Repeatable f r src (sizes 0)) (he : e.ofReader = false)
    (hreports : ∀ n, ∀ res ∈ again f sizes n r (src.append t), res.Reports) :
    Atomic f sizes r (src.append (.error e :: t)) (src.append t) := by
  obtain ⟨b, -, -, hall, hfails⟩ := h
  have hread : read f r (src.append (.error e :: t)) (sizes 0) = ⟨some e, none, [], r, ⟨b, t⟩⟩ := by
    rw [hall, hfails]
  have hagain : ∀ n, again f sizes (n + 1) r (src.append (.error e :: t)) =
      ⟨some e, none, [], r, ⟨b, t⟩⟩ :: again f sizes n r (src.append t) := by
    intro n
    rw [again_retry (e := e) (by rw [hread]) he, hread, again_congr (hall t)]
  refine ⟨fun n res hres => ?_, fun n => ?_, fun n => ⟨n + 1, ?_⟩⟩
  · cases n with
    | zero => cases hres
    | succ n =>
      rw [hagain] at hres
      rcases List.mem_cons.1 hres with rfl | hres
      · rfl
      · exact hreports n res hres
  · cases n with
    | zero => exact ⟨0, List.nil_prefix⟩
    | succ n =>
      refine ⟨n, ?_⟩
      simp only [delivered, hagain, List.flatMap_cons, List.nil_append]
      exact List.prefix_refl _
  · simp only [delivered, hagain, List.flatMap_cons, List.nil_append]
    exact List.prefix_refl _

/-- Calls that deliver nothing. -/
theorem atomic_of_nil (h : ∀ n, ∀ res ∈ again f sizes n r src, res.data = [] ∧ res.Reports)
    (h' : ∀ n, ∀ res ∈ again f sizes n r src', res.data = [] ∧ res.Reports) : Atomic f sizes r src src' := by
  have hnil : ∀ {src}, (∀ n, ∀ res ∈ again f sizes n r src, res.data = [] ∧ res.Reports) →
      ∀ n, delivered f sizes n r src = [] := by
    intro src h n
    rw [delivered, List.flatMap_eq_nil_iff]
    exact fun res hres => (h n res hres).1
  refine ⟨fun n res hres => (h n res hres).2, fun n => ⟨0, ?_⟩, fun n => ⟨0, ?_⟩⟩
  · simp only [hnil h]
    exact List.nil_prefix
  · simp only [hnil h']
    exact List.nil_prefix

/-! ## Bodies of a given length -/

theorem readSpecified_reports (f : BodyFraming) (r : SrsHttpResponseReader) (src : Source) (size : Nat) :
    (readSpecified f r src size).Reports := by
  rw [readSpecified]
  split
  · rfl
  · simp only
    split_ifs
    · rfl
    · simp [ReadResult.Reports, List.length_take, SrsFastStream.length_unread]

/-- Every call reports what it delivers. -/
theorem read_length_reports (hf : f.chunked = false) (hn : f.contentLength ≠ -1) (r : SrsHttpResponseReader)
    (src : Source) (size : Nat) : (read f r src size).Reports := by
  rw [read, if_neg (show ¬ f.chunked = true by simp [hf]), if_pos hn]
  simp only
  split_ifs
  · rfl
  · rfl
  · exact readSpecified_reports _ _ _ _

theorem again_length_reports (hf : f.chunked = false) (hn : f.contentLength ≠ -1) (n : Nat) :
    ∀ res ∈ again f sizes n r src, res.Reports := by
  induction n generalizing sizes r src with
  | zero =>
    intro res hres
    cases hres
  | succ n ih =>
    intro res hres
    rw [again] at hres
    rcases List.mem_cons.1 hres with rfl | hres
    · exact read_length_reports hf hn _ _ _
    · cases herr : (read f r src (sizes 0)).err with
      | none =>
        simp only [herr] at hres
        exact ih res hres
      | some e =>
        simp only [herr] at hres
        split_ifs at hres
        · cases hres
        · exact ih res hres

/-- **A body of a given length** is read on wherever the socket fails. -/
theorem atomic_length (hf : f.chunked = false) (hn : f.contentLength ≠ -1) (hs : src.skt.Healthy)
    (hpos : ∀ i, 0 < sizes i) (he : e.ofReader = false) (t : Socket) :
    Atomic f sizes r (src.append (.error e :: t)) (src.append t) := by
  -- every call that does not come to the failure takes a byte, or is the last one
  induction hlen : src.unread.length using Nat.strong_induction_on generalizing r src sizes with
  | _ len ih =>
    have hframed : f.chunked = true ∨ f.contentLength ≠ -1 := .inr hn
    cases heof : r.isEof with
    | true => exact atomic_of_nil (again_eof heof) (again_eof heof)
    | false =>
      by_cases hmax : toSize (f.contentLength - r.nbTotalRead) = 0
      · have hread : read f r src (sizes 0) = ⟨none, none, [], { r with isEof := true }, src⟩ := by
          rw [read, if_neg (by simp [heof]), if_neg (by simp [hf]), if_pos hn]
          simp only
          rw [if_pos hmax]
        rw [atomic_ok_iff hframed (by rw [hread]) (by rw [hread]; rfl), hread]
        exact atomic_of_nil (again_eof rfl) (again_eof rfl)
      · have hread : read f r src (sizes 0) =
            readSpecified f r src (min (sizes 0) (toSize (f.contentLength - r.nbTotalRead))) := by
          rw [read, if_neg (by simp [heof]), if_neg (by simp [hf]), if_pos hn]
          simp only
          rw [if_neg hmax]
        by_cases hnil : src.unread = []
        · exact (read_dry_length hf hn heof hmax hs hnil).atomic he (again_length_reports hf hn)
        · have herr : (read f r src (sizes 0)).err = none := by
            rw [hread]
            exact readSpecified_healthy hs hnil (by have := hpos 0; omega)
          obtain ⟨m, hm0, -, -, hmlen, -, -, htook, -⟩ := readSpecified_ok (by rw [← hread]; exact herr)
          rw [atomic_ok_iff hframed herr (read_length_reports hf hn _ _ _)]
          rw [← hread] at htook
          refine ih _ ?_ (htook.healthy hs) (fun i => hpos (i + 1)) rfl
          rw [htook.unread_drop, List.length_drop]
          omega

/-! ## Chunked bodies -/

theorem readChunkLine_error_unread {src' : Source} (h : readChunkLine n src = (.error e, src')) :
    src'.unread = src.unread ∧ src'.buffer.nbBuffer = src.buffer.nbBuffer := by
  induction n generalizing src with
  | zero =>
    cases h
    exact ⟨rfl, rfl⟩
  | succ n ih =>
    rw [readChunkLine] at h
    split at h
    · cases h
      exact ⟨rfl, rfl⟩
    · cases h
    · have hg := src.grow_grown (src.buffer.size + 1)
      cases hgrow : src.grow (src.buffer.size + 1) with
      | mk err src₁ =>
        rw [hgrow] at h hg
        cases err with
        | some e' =>
          cases h
          exact ⟨hg.unread, hg.nbBuffer⟩
        | none =>
          obtain ⟨h1, h2⟩ := ih h
          exact ⟨h1.trans hg.unread, h2.trans hg.nbBuffer⟩

/-- A size line that is not accepted: the reader gives up, or the bytes are still there. -/
theorem readChunkHeader_error_cases {src' : Source} (h : readChunkHeader src = (.error e, src')) :
    e.ofReader = true ∨ (src'.unread = src.unread ∧ src'.buffer.nbBuffer = src.buffer.nbBuffer) := by
  rw [readChunkHeader] at h
  split at h
  · rename_i e' src₁ hline
    cases h
    exact .inr (readChunkLine_error_unread hline)
  · simp only [Prod.mk.injEq, chunkSize] at h
    split_ifs at h
    · cases h.1
      exact .inl rfl
    · cases h.1

theorem finishChunk_reader (k : Nat) (data : Bytes) (r : SrsHttpResponseReader) (src : Source) :
    (finishChunk k data r src).reader = r ∧ (finishChunk k data r src).nbRead = some k := by
  rw [finishChunk]
  split
  · exact ⟨rfl, rfl⟩
  · split <;> exact ⟨rfl, rfl⟩

/-- No chunk with data comes next. -/
def Calm (cap : Nat) (S : Bytes) : Prop := ∀ k n, chunkAt cap S = some (k, n) → n = 0

/-- Then nothing is delivered any more, whatever the socket does. -/
theorem again_calm (hf : f.chunked = true) (hr : Going r) (hleft : r.nbLeftChunk = 0)
    (hcalm : Calm src.buffer.nbBuffer src.unread) (n : Nat) :
    ∀ res ∈ again f sizes n r src, res.data = [] ∧ res.Reports := by
  induction n generalizing src with
  | zero =>
    intro res hres
    cases hres
  | succ n ih =>
    have hread : read f r src (sizes 0) = readChunked f r src (sizes 0) := read_eq_readChunked hf hr
    rw [readChunked, if_pos hleft] at hread
    cases hheader : readChunkHeader src with
    | mk res src' =>
      rw [hheader] at hread
      cases res with
      | error e' =>
        simp only at hread
        rcases readChunkHeader_error_cases hheader with he | ⟨hu, hnb⟩
        · rw [again_stop (e := e') (by rw [hread]) he, hread]
          simp [ReadResult.Reports]
        · cases he : e'.ofReader with
          | true =>
            rw [again_stop (e := e') (by rw [hread]) he, hread]
            simp [ReadResult.Reports]
          | false =>
            rw [again_retry (e := e') (by rw [hread]) he, hread, List.forall_mem_cons]
            exact ⟨⟨rfl, rfl⟩, ih (by rw [hu, hnb]; exact hcalm)⟩
      | ok m =>
        obtain ⟨k, hchunk, -⟩ := readChunkHeader_ok hheader
        obtain rfl := hcalm k m hchunk
        -- the last chunk
        simp only at hread
        rw [show readChunkData f { r with nbChunk := 0, nbLeftChunk := 0 } src' (sizes 0) =
          finishChunk 0 [] { r with nbChunk := 0, nbLeftChunk := 0, isEof :=
            true } src' from if_pos rfl] at hread
        obtain ⟨hreader, hnb⟩ := finishChunk_reader 0 []
          { r with nbChunk := 0, nbLeftChunk := 0, isEof := true } src'
        have heof : (read f r src (sizes 0)).reader.isEof = true := by rw [hread, hreader]
        have hfirst : (read f r src (sizes 0)).data = [] ∧ (read f r src (sizes 0)).Reports := by
          rw [hread, ReadResult.Reports, hnb, finishChunk_data]
          exact ⟨rfl, rfl⟩
        rw [again, List.forall_mem_cons]
        refine ⟨hfirst, ?_⟩
        cases (read f r src (sizes 0)).err with
        | none => exact again_eof heof n
        | some e' =>
          simp only
          split_ifs
          · simp
          · exact again_eof heof n

/-- Behind an accepted size line the reader is inside the chunk. -/
theorem read_header (hf : f.chunked = true) (hr : Going r) (hleft : r.nbLeftChunk = 0) {src₁ : Source}
    (h : readChunkHeader src = (.ok n, src₁)) (hn : 0 < n) (t : Socket) (size : Nat) :
    read f r (src.append t) size = read f { r with nbChunk := n, nbLeftChunk := n } (src₁.append t) size := by
  rw [read_eq_readChunked hf hr, read_eq_readChunked hf (going_header hr), readChunked, if_pos hleft,
    readChunkHeader_append h, readChunked, if_neg (show ¬ n = 0 by omega)]

/-- Inside a chunk of which bytes have come. -/
theorem read_inside {size : Nat} (hf : f.chunked = true) (hr : Going r) (hleft : 0 < r.nbLeftChunk)
    (hs : src.skt.Healthy) (hne : src.unread ≠ []) (hsize : 0 < size) :
    ∃ (m : Nat) (r' : SrsHttpResponseReader) (src' : Source), 0 < m ∧ m ≤ r.nbLeftChunk ∧
      m ≤ src.unread.length ∧
      Going r' ∧ r'.nbLeftChunk = r.nbLeftChunk - m ∧ Took src (src.unread.take m) src' ∧
      ∀ t, read f r (src.append t) size =
        if m < r.nbLeftChunk then ⟨none, some m, src.unread.take m, r', src'.append t⟩
        else finishChunk m (src.unread.take m) r' (src'.append t) := by
  have herr : (readSpecified f r src (min r.nbLeftChunk size)).err = none :=
    readSpecified_healthy hs hne (by omega)
  obtain ⟨m, hm0, hm, -, hmlen, hnb, hdata, htook, hreader⟩ := readSpecified_ok herr
  have hgoing : Going { (readSpecified f r src (min r.nbLeftChunk size)).reader with
      nbLeftChunk := r.nbLeftChunk - m } := by
    rw [hreader]
    refine ⟨?_, fun _ => hr.nbChunk hleft⟩
    show (r.isEof || reachedEnd f (r.nbTotalRead + m)) = false
    rw [hr.isEof, reachedEnd, hf]
    rfl
  refine ⟨m, _, _, hm0, by omega, hmlen, hgoing, rfl, htook, fun t => ?_⟩
  rw [read_eq_readChunked hf hr, readChunked, if_neg (by omega), readChunkData, if_neg (hr.nbChunk hleft),
    if_neg (by omega), readSpecified_append herr]
  simp only [ReadResult.append, herr, hnb, hdata, Option.getD_some]
  by_cases hlt : m < r.nbLeftChunk
  · rw [if_pos hlt, if_pos (by omega)]
  · rw [if_neg hlt, if_neg (by omega)]

/-- Inside a chunk of which nothing has come: the call returns the number of bytes that it asked for. -/
theorem read_inside_dry (hf : f.chunked = true) (hr : Going r) (hleft : 0 < r.nbLeftChunk)
    (hs : src.skt.Healthy)
    (hnil : src.unread = []) (e : SrsError) (t : Socket) (size : Nat) :
    (read f r (src.append (.error e :: t)) size).nbRead = some (min r.nbLeftChunk size) ∧
      (read f r (src.append (.error e :: t)) size).data = [] := by
  obtain ⟨b, -, -, hall, hfails⟩ := readSpecified_dry (f := f) hs hnil
  rw [read_eq_readChunked hf hr, readChunked, if_neg (by omega), readChunkData, if_neg (hr.nbChunk hleft),
    if_neg (by omega), hall, hfails]
  exact ⟨rfl, rfl⟩

/-- A line end is no size line. -/
theorem calm_crlf (cap : Nat) (S : Bytes) : Calm cap (crlf ++ S) := by
  intro k n hchunk
  have hfirst : findSub crlf (crlf ++ S) = some 0 := findSub_of_head_notMem (l := []) List.not_mem_nil
  obtain ⟨hline, -⟩ := chunkAt_eq_some_iff.1 hchunk
  obtain ⟨hfind, hpos, -⟩ := sizeLineAt_eq_some_iff.1 hline
  rw [hfirst] at hfind
  have := Option.some.inj hfind
  omega

end SrsHttpResponseReader

namespace Rfc

open SrsHttpResponseReader

/-! ## The place of the failure -/

/-- The reader takes the chunk: it has no extension, and its size line fits the buffer. -/
def Chunk.Taken (c : Chunk) (cap : Nat) : Prop := c.ext = [] ∧ c.size.length + 2 ≤ cap

instance (c : Chunk) (cap : Nat) : Decidable (c.Taken cap) := inferInstanceAs (Decidable (_ ∧ _))

/-- A failure behind `k` bytes does no harm: it does not come in the data of a chunk, nor at the line end
behind a chunk that is followed by another one. -/
def Harmless (cap : Nat) : List Chunk → Nat → Prop
  | [], _ => True
  | c :: cs, k =>
      c.Taken cap → c.size.length + 2 ≤ k →
        c.data.length ≤ k - (c.size.length + 2) ∧
        (k - (c.size.length + 2) < c.data.length + 2 → ∀ c' ∈ cs.head?, ¬ c'.Taken cap) ∧
        (c.data.length + 2 ≤ k - (c.size.length + 2) →
          Harmless cap cs (k - (c.size.length + 2) - (c.data.length + 2)))

/-- The same inside a chunk, of which `left` bytes are still to come, and in front of one for `left = 0`. -/
def HarmlessIn (cap left : Nat) (cs : List Chunk) (k : Nat) : Prop :=
  if left = 0 then Harmless cap cs k
  else left ≤ k ∧ (k < left + 2 → ∀ c ∈ cs.head?, ¬ c.Taken cap) ∧
    (left + 2 ≤ k → Harmless cap cs (k - (left + 2)))

/-- What is to come of a body: the rest of a chunk of which `left` bytes are missing, the chunks `cs`, and
`R` behind them. -/
def Ahead (left : Nat) (cs : List Chunk) (R S : Bytes) : Prop :=
  if left = 0 then S = cs.flatMap Chunk.wire ++ R
  else ∃ d, d.length = left ∧ S = d ++ (crlf ++ (cs.flatMap Chunk.wire ++ R))

variable {cap left : Nat} {c : Chunk} {cs : List Chunk} {R S : Bytes}

theorem harmlessIn_sub {m k : Nat} (hm : m < left) (hk : m ≤ k) :
    HarmlessIn cap (left - m) cs (k - m) ↔ HarmlessIn cap left cs k := by
  rw [HarmlessIn, HarmlessIn, if_neg (by omega), if_neg (by omega)]
  refine and_congr (by omega) (and_congr (imp_congr_left (by omega)) ?_)
  rw [show k - m - (left - m + 2) = k - (left + 2) by omega]
  exact imp_congr_left (by omega)

theorem harmlessIn_whole {k : Nat} (hleft : 0 < left) (hk : left + 2 ≤ k) :
    HarmlessIn cap 0 cs (k - (left + 2)) ↔ HarmlessIn cap left cs k := by
  rw [HarmlessIn, HarmlessIn, if_pos rfl, if_neg (by omega)]
  constructor
  · intro h
    exact ⟨by omega, fun hlt => absurd hlt (by omega), fun _ => h⟩
  · rintro ⟨-, -, h⟩
    exact h hk

theorem harmlessIn_lineEnd {k : Nat} (hleft : 0 < left) (hk : left ≤ k) (hlt : k < left + 2) :
    HarmlessIn cap left cs k ↔ ∀ c ∈ cs.head?, ¬ c.Taken cap := by
  rw [HarmlessIn, if_neg (by omega)]
  constructor
  · rintro ⟨-, h, -⟩
    exact h hlt
  · intro h
    exact ⟨hk, fun _ => h, fun hge => absurd hge (by omega)⟩

theorem harmlessIn_header {k : Nat} (hc : c.Taken cap) (hk : c.size.length + 2 ≤ k) :
    HarmlessIn cap c.data.length cs (k - (c.size.length + 2)) ↔ HarmlessIn cap 0 (c :: cs) k := by
  have hpos : 0 < c.data.length := List.length_pos_of_ne_nil c.hne
  rw [HarmlessIn, HarmlessIn, if_pos rfl, if_neg (by omega)]
  exact ⟨fun h _ _ => h, fun h => h hc hk⟩

theorem Ahead.drop {m : Nat} (h : Ahead left cs R S) (hm : m < left) : Ahead (left - m) cs R (S.drop m) := by
  rw [Ahead, if_neg (by omega)] at h
  rw [Ahead, if_neg (by omega)]
  obtain ⟨d, hd, rfl⟩ := h
  exact ⟨d.drop m, by rw [List.length_drop, hd], by rw [List.drop_append_of_le_length (by omega)]⟩

/-- Behind the data comes the line end. -/
theorem Ahead.data (h : Ahead left cs R S) (hleft : 0 < left) :
    left + 2 ≤ S.length ∧ S.drop left = crlf ++ (cs.flatMap Chunk.wire ++ R) ∧
      Ahead 0 cs R (S.drop (left + 2)) := by
  rw [Ahead, if_neg (by omega)] at h
  obtain ⟨d, rfl, rfl⟩ := h
  refine ⟨?_, List.drop_left, ?_⟩
  · simp only [List.length_append, crlf_length]
    omega
  · rw [Ahead, if_pos rfl, ← List.drop_drop, List.drop_left]
    exact List.drop_left' crlf_length

/-- The bytes of a chunk that is taken. -/
theorem Ahead.chunk (h : Ahead 0 (c :: cs) R S) (hc : c.Taken cap) :
    S = (c.size ++ crlf) ++ (c.data ++ (crlf ++ (cs.flatMap Chunk.wire ++ R))) := by
  rw [Ahead, if_pos rfl] at h
  rw [h, List.flatMap_cons, Chunk.wire, hc.1, List.append_nil]
  simp only [List.append_assoc]

/-- A chunk that is taken. -/
theorem Ahead.header (h : Ahead 0 (c :: cs) R S) (hc : c.Taken cap) :
    S.take (c.size.length + 2) = c.size ++ crlf ∧ Ahead c.data.length cs R (S.drop (c.size.length + 2)) := by
  have hpos : 0 < c.data.length := List.length_pos_of_ne_nil c.hne
  have hlen : (c.size ++ crlf).length = c.size.length + 2 := by rw [List.length_append, crlf_length]
  rw [h.chunk hc, ← hlen, List.take_left, List.drop_left, Ahead, if_neg (by omega)]
  exact ⟨rfl, c.data, rfl, rfl⟩

/-- No chunk that is taken comes next. -/
theorem Ahead.calm (h : Ahead 0 cs R S) (hcs : ∀ c ∈ cs.head?, ¬ c.Taken cap) (hR : Calm cap R) :
    Calm cap S := by
  rw [Ahead, if_pos rfl] at h
  subst h
  cases cs with
  | nil => exact hR
  | cons c cs =>
    intro k n hchunk
    have hwire : (c :: cs).flatMap Chunk.wire ++ R =
        c.size ++ c.ext ++ crlf ++ (c.data ++ crlf ++ (cs.flatMap Chunk.wire ++ R)) := by
      simp only [List.flatMap_cons, Chunk.wire, List.append_assoc]
    rw [hwire, chunkAt_rfc_iff c.hsize c.hlt c.hext] at hchunk
    exact absurd ⟨hchunk.1, hchunk.2.1⟩ (hcs c rfl)

/-- The last chunk carries no data. -/
theorem Body.calm_last (b : Body) (cap : Nat) (T : Bytes) : Calm cap (b.lastWire ++ T) := by
  intro k n hchunk
  have hwire : b.lastWire ++ T = b.zeros ++ b.ext ++ crlf ++ (trailerWire b.trailer ++ crlf ++ T) := by
    simp only [Body.lastWire, List.append_assoc]
  rw [hwire, chunkAt_rfc_iff b.hexLine_zeros (by decide) b.hext] at hchunk
  exact hchunk.2.2.2

/-! ## The calls in a body -/

variable {f : BodyFraming} {sizes : Nat → Nat} {r : SrsHttpResponseReader} {src : Source} {e : SrsError}

/-- The size line of a chunk that is taken. -/
theorem Chunk.readChunkHeader (hc : c.Taken src.buffer.nbBuffer) (hs : src.skt.Healthy)
    (h : src.unread.take (c.size.length + 2) = c.size ++ crlf) :
    ∃ src₁, SrsHttpResponseReader.readChunkHeader src = (.ok c.data.length, src₁) ∧
      Took src (src.unread.take (c.size.length + 2)) src₁ := by
  have hsplit : src.unread = c.size ++ crlf ++ src.unread.drop (c.size.length + 2) := by
    rw [← h, List.take_append_drop]
  have hchunk : chunkAt src.buffer.nbBuffer src.unread = some (c.size.length, c.data.length) := by
    rw [hsplit]
    exact chunkAt_hexLine c.hsize c.hlt hc.2
  obtain ⟨src₁, hheader⟩ := readChunkHeader_healthy hs hchunk
  obtain ⟨k, hk, htook⟩ := readChunkHeader_ok hheader
  rw [hchunk] at hk
  obtain ⟨rfl, -⟩ := Prod.mk.inj (Option.some.inj hk)
  exact ⟨src₁, hheader, htook⟩

/-- Without a failure each call reports what it delivers. -/
theorem again_ahead (hf : f.chunked = true) (hr : Going r) (hs : src.skt.Healthy)
    (hcap : 2 ≤ src.buffer.nbBuffer) (hpos : ∀ i, 0 < sizes i) (hR : Calm src.buffer.nbBuffer R)
    (h : Ahead r.nbLeftChunk cs R src.unread) (n : Nat) : ∀ res ∈ again f sizes n r src, res.Reports := by
  induction hlen : src.unread.length using Nat.strong_induction_on generalizing r src sizes cs n with
  | _ len ih =>
    rcases Nat.eq_zero_or_pos r.nbLeftChunk with hleft | hleft
    · by_cases hcs : ∀ c ∈ cs.head?, ¬ c.Taken src.buffer.nbBuffer
      · rw [hleft] at h
        exact fun res hres => (again_calm hf hr hleft (h.calm hcs hR) n res hres).2
      · push Not at hcs
        obtain ⟨c, hc, htaken⟩ := hcs
        obtain ⟨cs, rfl⟩ := List.head?_eq_some_iff.1 hc
        rw [hleft] at h
        obtain ⟨htake, hrest⟩ := h.header htaken
        obtain ⟨src₁, hheader, htook⟩ := Chunk.readChunkHeader htaken hs htake
        have hread := read_header hf hr hleft hheader (List.length_pos_of_ne_nil c.hne) [] (sizes 0)
        rw [Source.append_nil, Source.append_nil] at hread
        rw [again_congr hread]
        rw [← htook.unread_drop] at hrest
        have hheaderlen := congrArg List.length htake
        rw [List.length_take, List.length_append, crlf_length] at hheaderlen
        refine ih _ ?_ (going_header hr) (htook.healthy hs) (by rw [htook.nbBuffer]; exact hcap) hpos
          (by rw [htook.nbBuffer]; exact hR) hrest n rfl
        rw [htook.unread_drop, List.length_drop]
        omega
    · obtain ⟨hlong, -, hnext⟩ := h.data hleft
      obtain ⟨m, r', src', hm0, hm, hmlen, hr', hleft', htook, hread⟩ :=
        read_inside hf hr hleft hs (List.ne_nil_of_length_pos (by omega)) (hpos 0)
      replace hread := hread []
      rw [Source.append_nil, Source.append_nil] at hread
      have hdata : (src.unread.take m).length = m := List.length_take_of_le hmlen
      cases n with
      | zero =>
        intro res hres
        cases hres
      | succ n =>
        by_cases hlt : m < r.nbLeftChunk
        · rw [if_pos hlt] at hread
          rw [again_ok (by rw [hread]), hread, List.forall_mem_cons]
          have hrest : Ahead r'.nbLeftChunk cs R src'.unread := by
            rw [hleft', htook.unread_drop]
            exact h.drop hlt
          refine ⟨hdata.symm, ih _ ?_ hr' (htook.healthy hs) (by rw [htook.nbBuffer]; exact hcap)
            (fun i => hpos (i + 1)) (by rw [htook.nbBuffer]; exact hR) hrest n rfl⟩
          rw [htook.unread_drop, List.length_drop]
          omega
        · obtain rfl : m = r.nbLeftChunk := by omega
          rw [if_neg (Nat.lt_irrefl _)] at hread
          have herr : (finishChunk r.nbLeftChunk (src.unread.take r.nbLeftChunk) r' src').err = none := by
            refine finishChunk_healthy (htook.healthy hs) ?_ (by rw [htook.nbBuffer]; exact hcap)
            rw [htook.unread_drop, List.length_drop]
            omega
          obtain ⟨h2, hfdata, hfreader, htook2⟩ := finishChunk_ok herr
          obtain ⟨-, hnb⟩ := finishChunk_reader r.nbLeftChunk (src.unread.take r.nbLeftChunk) r' src'
          rw [again_ok (by rw [hread]; exact herr), hread, List.forall_mem_cons, hfreader]
          have hu : (finishChunk r.nbLeftChunk (src.unread.take r.nbLeftChunk) r' src').src.unread =
              src.unread.drop (r.nbLeftChunk + 2) := by
            rw [htook2.unread_drop, htook.unread_drop, List.drop_drop]
          have hrest : Ahead r'.nbLeftChunk cs R
              (finishChunk r.nbLeftChunk (src.unread.take r.nbLeftChunk) r' src').src.unread := by
            rw [hleft', hu, Nat.sub_self]
            exact hnext
          refine ⟨?_, ih _ ?_ hr' (htook2.healthy (htook.healthy hs))
            (by rw [htook2.nbBuffer, htook.nbBuffer]; exact hcap) (fun i => hpos (i + 1))
            (by rw [htook2.nbBuffer, htook.nbBuffer]; exact hR) hrest n rfl⟩
          · rw [ReadResult.Reports, hnb, hfdata, hdata]
            rfl
          · rw [hu, List.length_drop]
            omega

/-- A chunk that is taken delivers its data. -/
theorem delivered_ne_nil (hf : f.chunked = true) (hr : Going r) (hleft : r.nbLeftChunk = 0)
    (hs : src.skt.Healthy)
    (hpos : ∀ i, 0 < sizes i) (hc : c.Taken src.buffer.nbBuffer) (h : Ahead 0 (c :: cs) R src.unread) :
    delivered f sizes 1 r src ≠ [] := by
  obtain ⟨htake, hrest⟩ := h.header hc
  obtain ⟨src₁, hheader, htook⟩ := Chunk.readChunkHeader hc hs htake
  have hdata := List.length_pos_of_ne_nil c.hne
  have hread := read_header hf hr hleft hheader hdata [] (sizes 0)
  rw [Source.append_nil, Source.append_nil] at hread
  rw [← htook.unread_drop] at hrest
  obtain ⟨hlong, -, -⟩ := hrest.data hdata
  obtain ⟨m, r', src', hm0, -, hmlen, -, -, -, hinside⟩ :=
    read_inside (r := { r with nbChunk := c.data.length, nbLeftChunk := c.data.length }) hf
      (going_header hr) hdata
      (htook.healthy hs) (List.ne_nil_of_length_pos (by omega)) (hpos 0)
  replace hinside := hinside []
  rw [Source.append_nil, Source.append_nil] at hinside
  have hfirst : (read f r src (sizes 0)).data = src₁.unread.take m := by
    rw [hread, hinside]
    split_ifs
    · rfl
    · rw [finishChunk_data]
  have hne : src₁.unread.take m ≠ [] :=
    List.ne_nil_of_length_pos (by rw [List.length_take_of_le hmlen]; exact hm0)
  rw [delivered, again, List.flatMap_cons, hfirst]
  exact List.append_ne_nil_of_left_ne_nil hne _

/-! ## What is delivered of a body -/

section LineEnd

variable {t : Socket} {m : Nat} {r' : SrsHttpResponseReader} {src' : Source}

/-- A failure at the line end behind the data of a chunk: the data are delivered and the call fails, and
the next call takes the line end for a size line. -/
theorem again_lineEnd (hf : f.chunked = true) (hs : src'.skt.Healthy) (hcap : 2 ≤ src'.buffer.nbBuffer)
    (he : e.ofReader = false) (hr' : Going r') (hleft' : r'.nbLeftChunk = 0) {data : Bytes}
      (hm : data.length = m)
    (hfew : src'.unread.length < 2) (hline : crlf <+: (src'.append t).unread)
    (hread : read f r (src.append (.error e :: t)) (sizes 0) = finishChunk m data r'
      (src'.append (.error e :: t))) :
    (∀ n, delivered f sizes (n + 1) r (src.append (.error e :: t)) = data) ∧
      ∀ n, ∀ res ∈ again f sizes n r (src.append (.error e :: t)), res.Reports := by
  obtain ⟨b, -, hbu, hfinish⟩ := finishChunk_dry hs hcap hfew
  have hfailed : read f r (src.append (.error e :: t)) (sizes 0) = ⟨some e, some m, data, r', ⟨b, t⟩⟩ := by
    rw [hread, hfinish]
  have hstuck : ∀ n, ∀ res ∈ again f sizes n r' ⟨b, t⟩, res.data = [] ∧ res.Reports := by
    obtain ⟨x, hx⟩ := hline
    refine again_calm hf hr' hleft' ?_
    rw [show Source.unread ⟨b, t⟩ = crlf ++ x by rw [hx, Source.append_unread, ← hbu]; rfl]
    exact calm_crlf _ _
  constructor
  · intro n
    rw [delivered, again_retry (e := e) (by rw [hfailed]) he, hfailed, List.flatMap_cons,
      List.flatMap_eq_nil_iff.2 fun res hres => (hstuck n res hres).1, List.append_nil]
  · intro n res hres
    cases n with
    | zero => cases hres
    | succ n =>
      rw [again_retry (e := e) (by rw [hfailed]) he, hfailed] at hres
      rcases List.mem_cons.1 hres with rfl | hres
      · exact hm.symm
      · exact (hstuck n res hres).2

/-- The data of the chunk stay the only ones if and only if no chunk follows. -/
theorem sameTotal_lineEnd (hf : f.chunked = true) (hs : src'.skt.Healthy) (hcap : 2 ≤ src'.buffer.nbBuffer)
    (hpos : ∀ i, 0 < sizes i) (hR : Calm src'.buffer.nbBuffer R) (hr' : Going r')
      (hleft' : r'.nbLeftChunk = 0)
    {data : Bytes} {x : Nat → Bytes} (hx0 : x 0 = []) (hx : ∀ n, x (n + 1) = data)
      (hlong : 2 ≤ src'.unread.length)
    (hnext : Ahead 0 cs R (src'.unread.drop 2))
      (hread : read f r src (sizes 0) = finishChunk m data r' src') :
    SameTotal x (fun n => delivered f sizes n r src) ↔ ∀ c ∈ cs.head?, ¬ c.Taken src'.buffer.nbBuffer := by
  have herr : (finishChunk m data r' src').err = none := finishChunk_healthy hs hlong hcap
  obtain ⟨-, hdata, hreader, htook⟩ := finishChunk_ok herr
  rw [← htook.unread_drop] at hnext
  have hy : ∀ n, delivered f sizes (n + 1) r src =
      data ++ delivered f (fun i => sizes (i + 1)) n r' (finishChunk m data r' src').src := by
    intro n
    rw [delivered, delivered, again_ok (by rw [hread]; exact herr), hread, List.flatMap_cons, hdata, hreader]
  constructor
  · -- the data of the next chunk are missing
    rintro ⟨-, hback⟩ c hc htaken
    obtain ⟨cs, rfl⟩ := List.head?_eq_some_iff.1 hc
    obtain ⟨k, hk⟩ := hback 2
    have hmore : delivered f (fun i => sizes (i + 1)) 1 r' (finishChunk m data r' src').src ≠ [] :=
      delivered_ne_nil hf hr' hleft' (htook.healthy hs) (fun i => hpos (i + 1))
        (by rw [htook.nbBuffer]; exact htaken) hnext
    have hlen := hk.length_le
    simp only [hy, List.length_append] at hlen
    have := List.length_pos_of_ne_nil hmore
    cases k with
    | zero =>
      rw [hx0, List.length_nil] at hlen
      omega
    | succ k =>
      rw [hx] at hlen
      omega
  · intro hcs
    have hcalm : ∀ n, delivered f (fun i => sizes (i + 1)) n r' (finishChunk m data r' src').src = [] := by
      intro n
      refine List.flatMap_eq_nil_iff.2 fun res hres => ?_
      exact (again_calm hf hr' hleft' (by rw [htook.nbBuffer]; exact hnext.calm hcs hR) n res hres).1
    have heq : ∀ n, x n = delivered f sizes n r src := by
      intro n
      cases n with
      | zero => exact hx0
      | succ n => rw [hx, hy, hcalm, List.append_nil]
    exact ⟨fun n => ⟨n, by rw [heq]⟩, fun n => ⟨n, by rw [heq]⟩⟩

end LineEnd

/-- Bytes that end inside a size line have no line end. -/
theorem Chunk.no_lineEnd (c : Chunk) {l m : Bytes} (htake : (l ++ m).take (c.size.length + 2) = c.size ++ crlf)
    (hshort : l.length < c.size.length + 2) : findSub crlf l = none := by
  cases hfind : findSub crlf l with
  | none => rfl
  | some k =>
    have hsplit : l ++ m = c.size ++ crlf ++ (l ++ m).drop (c.size.length + 2) := by
      rw [← htake, List.take_append_drop]
    have hline : findSub crlf (c.size ++ crlf ++ (l ++ m).drop (c.size.length + 2)) = some c.size.length :=
      findSub_of_head_notMem c.hsize.notMem_CR
    have hk := findSub_append hfind m
    rw [hsplit, hline] at hk
    have := Option.some.inj hk
    have := findSub_add_length_le hfind
    rw [crlf_length] at this
    omega

/-- **Chunked bodies**: from any point inside a body on. -/
theorem atomic_ahead (hf : f.chunked = true) (hr : Going r) (hs : src.skt.Healthy)
    (hcap : 2 ≤ src.buffer.nbBuffer)
    (hpos : ∀ i, 0 < sizes i) (he : e.ofReader = false) {t : Socket} (ht : t.Healthy)
    (hR : Calm src.buffer.nbBuffer R) (h : Ahead r.nbLeftChunk cs R (src.append t).unread) :
    Atomic f sizes r (src.append (.error e :: t)) (src.append t) ↔
      HarmlessIn src.buffer.nbBuffer r.nbLeftChunk cs src.unread.length := by
  have hst : ∀ {src : Source}, src.skt.Healthy → (src.append t).skt.Healthy := by
    intro src hs ev hev
    rcases List.mem_append.1 hev with hev | hev
    · exact hs ev hev
    · exact ht ev hev
  induction hlen : src.unread.length using Nat.strong_induction_on generalizing r src sizes cs with
  | _ len ih =>
    subst hlen
    rcases Nat.eq_zero_or_pos r.nbLeftChunk with hleft | hleft
    · rw [hleft] at h ⊢
      by_cases hcs : ∀ c ∈ cs.head?, ¬ c.Taken src.buffer.nbBuffer
      · -- no data come any more
        have hcalm := h.calm hcs hR
        have hcalm' : Calm src.buffer.nbBuffer (src.append (.error e :: t)).unread := by
          rw [Source.append_unread] at hcalm ⊢
          exact hcalm
        refine iff_of_true (atomic_of_nil (again_calm hf hr hleft hcalm') (again_calm hf hr hleft hcalm)) ?_
        rw [HarmlessIn, if_pos rfl]
        cases cs with
        | nil => trivial
        | cons c cs => exact fun hc => absurd hc (hcs c rfl)
      · push Not at hcs
        obtain ⟨c, hc, htaken⟩ := hcs
        obtain ⟨cs, rfl⟩ := List.head?_eq_some_iff.1 hc
        obtain ⟨htake, hrest⟩ := h.header htaken
        rw [Source.append_unread] at htake hrest
        have hlong := congrArg List.length htake
        rw [List.length_take, List.length_append, List.length_append, crlf_length] at hlong
        by_cases hheader : c.size.length + 2 ≤ src.unread.length
        · -- the size line comes before the failure
          rw [List.take_append_of_le_length hheader] at htake
          rw [List.drop_append_of_le_length hheader] at hrest
          obtain ⟨src₁, hok, htook⟩ := Chunk.readChunkHeader htaken hs htake
          have hread := read_header hf hr hleft hok (List.length_pos_of_ne_nil c.hne)
          have hiff := ih src₁.unread.length (by rw [htook.unread_drop, List.length_drop]; omega)
            (going_header (n := c.data.length) hr) (htook.healthy hs)
              (by rw [htook.nbBuffer]; exact hcap) hpos
            (by rw [htook.nbBuffer]; exact hR)
            (by rw [Source.append_unread, htook.unread_drop]; exact hrest) rfl
          rw [htook.nbBuffer, htook.unread_drop, List.length_drop, harmlessIn_header htaken hheader] at hiff
          exact (atomic_congr (hread _ _) (hread _ _)).trans hiff
        · -- the reader waits for the size line
          have hfind := c.no_lineEnd htake (by omega)
          have hrepeat : Repeatable f r src (sizes 0) :=
            read_dry_chunked hf hr hleft hs hfind (by have := htaken.2; omega)
          refine iff_of_true (hrepeat.atomic he ?_) ?_
          · exact again_ahead hf hr (hst hs) hcap hpos hR (by rw [hleft]; exact h)
          · rw [HarmlessIn, if_pos rfl]
            exact fun _ hge => absurd hge hheader
    · obtain ⟨hlong, hdrop, hnext⟩ := h.data hleft
      rw [Source.append_unread] at hlong hdrop hnext
      by_cases hnil : src.unread = []
      · -- inside a chunk, and nothing has come
        obtain ⟨hnb, hdata⟩ := read_inside_dry hf hr hleft hs hnil e t (sizes 0)
        refine iff_of_false ?_ ?_
        · intro hatomic
          have hfirst := hatomic.reports 1 _ (List.mem_cons_self ..)
          rw [ReadResult.Reports, hnb, hdata] at hfirst
          have := hpos 0
          simp only [Option.getD_some, List.length_nil] at hfirst
          omega
        · rw [HarmlessIn, if_neg (by omega), hnil]
          rintro ⟨hle, -⟩
          rw [List.length_nil] at hle
          omega
      · obtain ⟨m, r', src', hm0, hm, hmlen, hr', hleft', htook, hread⟩ :=
          read_inside hf hr hleft hs hnil (hpos 0)
        have hshort := hread []
        rw [Source.append_nil, Source.append_nil] at hshort
        have hdata : (src.unread.take m).length = m := List.length_take_of_le hmlen
        by_cases hlt : m < r.nbLeftChunk
        · -- a part of the chunk
          rw [if_pos hlt] at hshort
          have hiff := ih src'.unread.length (by rw [htook.unread_drop, List.length_drop]; omega) hr'
            (htook.healthy hs) (by rw [htook.nbBuffer]; exact hcap) (fun i => hpos (i + 1))
            (by rw [htook.nbBuffer]; exact hR)
            (by rw [Source.append_unread, htook.unread_drop, hleft', ← List.drop_append_of_le_length hmlen,
              ← Source.append_unread]; exact h.drop hlt) rfl
          rw [htook.nbBuffer, hleft', htook.unread_drop, List.length_drop, harmlessIn_sub hlt hmlen] at hiff
          rw [atomic_ok_iff (.inl hf) (by rw [hshort]) (by rw [hshort]; exact hdata.symm), hshort]
          exact hiff
        · obtain rfl : m = r.nbLeftChunk := by omega
          simp only [Nat.lt_irrefl, if_false] at hread hshort
          rw [Nat.sub_self] at hleft'
          by_cases hend : r.nbLeftChunk + 2 ≤ src.unread.length
          · -- the whole chunk
            have herr : (finishChunk r.nbLeftChunk (src.unread.take r.nbLeftChunk) r' src').err = none := by
              refine finishChunk_healthy (htook.healthy hs) ?_ (by rw [htook.nbBuffer]; exact hcap)
              rw [htook.unread_drop, List.length_drop]
              omega
            obtain ⟨-, hfdata, hfreader, htook2⟩ := finishChunk_ok herr
            obtain ⟨-, hnb⟩ := finishChunk_reader r.nbLeftChunk (src.unread.take r.nbLeftChunk) r' src'
            have hreports : (finishChunk r.nbLeftChunk (src.unread.take r.nbLeftChunk) r' src').Reports := by
              rw [ReadResult.Reports, hnb, hfdata, hdata]
              rfl
            rw [atomic_ok_iff (.inl hf) (by rw [hshort]; exact herr)
              (by rw [hshort]; exact hreports), hshort, hfreader]
            generalize finishChunk r.nbLeftChunk (src.unread.take r.nbLeftChunk) r' src' = res at *
            have hu : res.src.unread = src.unread.drop (r.nbLeftChunk + 2) := by
              rw [htook2.unread_drop, htook.unread_drop, List.drop_drop]
            have hnb' : res.src.buffer.nbBuffer = src.buffer.nbBuffer := htook2.nbBuffer.trans htook.nbBuffer
            have hiff := ih res.src.unread.length (by rw [hu, List.length_drop]; omega) hr'
              (htook2.healthy (htook.healthy hs)) (by rw [hnb']; exact hcap) (fun i => hpos (i + 1))
              (by rw [hnb']; exact hR)
              (by rw [Source.append_unread, hu, hleft',
                ← List.drop_append_of_le_length hend]; exact hnext) rfl
            rw [hnb', hleft', hu, List.length_drop, harmlessIn_whole hleft hend] at hiff
            exact hiff
          · -- the line end is missing
            have hfew : src'.unread.length < 2 := by
              rw [htook.unread_drop, List.length_drop]
              omega
            have hu : (src'.append t).unread = (src.unread ++ t.pending).drop r.nbLeftChunk := by
              rw [Source.append_unread, htook.unread_drop, List.drop_append_of_le_length hmlen]
            obtain ⟨hx, hreports⟩ := again_lineEnd (t := t) hf (htook.healthy hs)
              (by rw [htook.nbBuffer]; exact hcap) he
              hr' hleft' hdata hfew (by rw [hu, hdrop]; exact List.prefix_append _ _) (hread _)
            have htotal := sameTotal_lineEnd
              (x := fun n => delivered f sizes n r (src.append (.error e :: t))) hf
              (hst (htook.healthy hs)) (by rw [Source.append_buffer, htook.nbBuffer]; exact hcap) hpos
              (by rw [Source.append_buffer, htook.nbBuffer]; exact hR) hr' hleft' rfl hx
              (by rw [hu, List.length_drop]; omega) (by rw [hu, List.drop_drop]; exact hnext) (hread t)
            rw [Source.append_buffer, htook.nbBuffer] at htotal
            rw [harmlessIn_lineEnd hleft hmlen (by omega), ← htotal]
            exact ⟨fun h => h.total, fun h => ⟨hreports, h⟩⟩

/-- **Reading on after a failure.**  For every body, chunked or of a given length, every fragmentation, all
read sizes and every point at which the socket fails once: the calls of a caller that reads on deliver the
same bytes as without the failure, and each reports what it delivers, if and only if the failure does not
come in the data of a chunk, nor at the line end behind a chunk that is followed by another one. -/
theorem atomic_iff (hf : f.chunked = true ∨ f.contentLength ≠ -1) (b : Body) {T : Bytes} {t : Socket}
    (hs : src.skt.Healthy) (ht : t.Healthy) (he : e.ofReader = false) (hpos : ∀ i, 0 < sizes i)
    (hbuf : src.buffer.nbBuffer = SRS_DEFAULT_RECV_BUFFER_SIZE)
    (hunread : f.chunked = true → (src.append t).unread = b.wire ++ T) :
    Atomic f sizes fresh (src.append (.error e :: t)) (src.append t) ↔
      (f.chunked = true → Harmless SRS_DEFAULT_RECV_BUFFER_SIZE b.chunks src.unread.length) := by
  cases hc : f.chunked with
  | false =>
    have hn := hf.resolve_left (by rw [hc]; decide)
    exact iff_of_true (atomic_length hc hn hs hpos he t) fun h => by cases h
  | true =>
    have hahead : Ahead 0 b.chunks (b.lastWire ++ T) (src.append t).unread := by
      rw [Ahead, if_pos rfl, hunread hc, Body.wire, List.append_assoc]
    rw [← hbuf, atomic_ahead hc going_fresh hs (by rw [hbuf]; decide) hpos he ht (b.calm_last _ T) hahead]
    exact ⟨fun h _ => h, fun h => h rfl⟩

/-- What comes of the chunk `abc` before a failure in its size line, and behind it. -/
theorem atomic_iff_abc :
    Atomic ⟨true, -1⟩ (fun _ => 4096) fresh
        (Source.append ⟨SrsFastStream.mk0, [.data (str "3")]⟩
          [.error .socketTimeout, .data (str "\r\nabc\r\n0\r\n\r\n")])
        (Source.append ⟨SrsFastStream.mk0, [.data (str "3")]⟩ [.data (str "\r\nabc\r\n0\r\n\r\n")]) ↔
      (true = true → Harmless SRS_DEFAULT_RECV_BUFFER_SIZE (abcBody [] .nil).chunks 1) :=
  atomic_iff (.inl rfl) (abcBody [] .nil) (T := []) (by simp) (by simp) rfl (fun _ => by decide) rfl
    fun _ => by decide

/-- A failure in the data of the chunk: the call that fails reports the two bytes that are missing. -/
theorem not_atomic_abc :
    ∃ (b : Body) (src : Source) (t : Socket), src.buffer = SrsFastStream.mk0 ∧
      (src.append t).unread = b.wire ∧
      ¬ Atomic ⟨true, -1⟩ (fun _ => 4096) fresh (src.append (.error .socketTimeout :: t)) (src.append t) := by
  refine ⟨abcBody [] .nil, ⟨SrsFastStream.mk0, [.data (str "3\r\na")]⟩, [.data (str "bc\r\n0\r\n\r\n")], rfl,
    by decide, fun h => ?_⟩
  have hsecond : ((again ⟨true, -1⟩ (fun _ => 4096) 2 fresh
    (Source.append ⟨SrsFastStream.mk0, [.data (str "3\r\na")]⟩
      [.error .socketTimeout, .data (str "bc\r\n0\r\n\r\n")]))[1]?).map (fun res => (res.nbRead, res.data)) =
        some (some 2, []) := by decide
  obtain ⟨res, hres, hfacts⟩ := Option.map_eq_some_iff.1 hsecond
  have hreports := h.reports 2 res (List.mem_of_getElem? hres)
  rw [ReadResult.Reports, (Prod.mk.inj hfacts).1, (Prod.mk.inj hfacts).2] at hreports
  cases hreports

end Rfc

end HttpProxy
