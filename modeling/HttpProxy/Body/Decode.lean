import HttpProxy.Body.Reader

/-!
# What the chunked reader computes

The reader is a state machine that is entered anew for every piece of the body,
on whatever part of the stream happens to be buffered.  What it computes is a
function of the byte string alone: `Decodes cap S p T` walks over `S` from size
line to size line and says that the payloads are `p` and that `T` follows, where
`cap` is the size of the buffer, which bounds the size lines.

* `readChunkHeader_ok`, `readChunkData_ok` — what one successful call has taken
  from the stream.
* `drain_sound` — reads that end at the end of the body have decoded the bytes
  they consumed.
* `drain_complete` — on a healthy socket every decodable string is decoded.
* `drain_iff_decodes` — both, for every fragmentation and all read sizes.
-/

namespace HttpProxy

namespace SrsHttpResponseReader

/-! ## Decoding a byte string -/

/-- The length of the size line at the front of `S`: the text up to the first
CRLF, which must not be empty and must fit the buffer together with its CRLF. -/
def sizeLineAt (cap : Nat) (S : Bytes) : Option Nat :=
  match findSub crlf S with
  | some k => if 0 < k ∧ k + 2 ≤ cap then some k else none
  | none => none

/-- The chunk header at the front of `S`: the length of its line, and the size
that the reader makes of it. -/
def chunkAt (cap : Nat) (S : Bytes) : Option (Nat × Nat) :=
  match sizeLineAt cap S with
  | some k =>
      match chunkSize (S.take k) with
      | .ok n => some (k, n)
      | .error _ => none
  | none => none

/-- The reader decodes `S` to the payload `p` and stops in front of `T`. -/
inductive Decodes (cap : Nat) : Bytes → Bytes → Bytes → Prop
  | last {S : Bytes} {k : Nat} (hdr : chunkAt cap S = some (k, 0))
      (fits : k + 2 + 2 ≤ S.length) : Decodes cap S [] (S.drop (k + 2 + 2))
  | chunk {S p T : Bytes} {k n : Nat} (hdr : chunkAt cap S = some (k, n)) (pos : 0 < n)
      (fits : k + 2 + n + 2 ≤ S.length) (rest : Decodes cap (S.drop (k + 2 + n + 2)) p T) :
      Decodes cap S ((S.drop (k + 2)).take n ++ p) T

theorem sizeLineAt_eq_some_iff {cap k : Nat} {S : Bytes} :
    sizeLineAt cap S = some k ↔ findSub crlf S = some k ∧ 0 < k ∧ k + 2 ≤ cap := by
  rw [sizeLineAt]
  cases findSub crlf S with
  | none => simp
  | some j =>
    simp only [Option.ite_none_right_eq_some, Option.some.injEq]
    constructor
    · rintro ⟨h, rfl⟩; exact ⟨rfl, h⟩
    · rintro ⟨rfl, h⟩; exact ⟨h, rfl⟩

theorem chunkAt_eq_some_iff {cap k n : Nat} {S : Bytes} :
    chunkAt cap S = some (k, n) ↔ sizeLineAt cap S = some k ∧ chunkSize (S.take k) = .ok n := by
  rw [chunkAt]
  cases sizeLineAt cap S with
  | none => simp
  | some j =>
    constructor
    · intro h
      cases hc : chunkSize (S.take j) with
      | error e => simp [hc] at h
      | ok m =>
        simp only [hc, Option.some.injEq, Prod.mk.injEq] at h
        obtain ⟨rfl, rfl⟩ := h
        exact ⟨rfl, hc⟩
    · rintro ⟨hj, hc⟩
      cases hj
      simp only [hc]

/-- A chunk header lies inside the string, and leaves room for it in the buffer. -/
theorem chunkAt_le {cap k n : Nat} {S : Bytes} (h : chunkAt cap S = some (k, n)) :
    0 < k ∧ k + 2 ≤ S.length ∧ k + 2 ≤ cap := by
  obtain ⟨hline, -⟩ := chunkAt_eq_some_iff.1 h
  obtain ⟨hfind, hpos, hcap⟩ := sizeLineAt_eq_some_iff.1 hline
  exact ⟨hpos, findSub_add_length_le hfind, hcap⟩

/-! ## One call -/

section Call

variable {owner : BodyFraming} {r : SrsHttpResponseReader} {src src' : Source} {n k nbData : Nat}

/-- An accepted chunk header is the one at the front of the unread bytes. -/
theorem readChunkHeader_ok (h : readChunkHeader src = (.ok n, src')) :
    ∃ k, chunkAt src.buffer.nbBuffer src.unread = some (k, n) ∧
      Took src (src.unread.take (k + 2)) src' := by
  rw [readChunkHeader] at h
  split at h
  · simp at h
  · rename_i line src₁ hline
    simp only [Prod.mk.injEq] at h
    obtain ⟨hsize, rfl⟩ := h
    obtain ⟨hne, hcap, hfind, htook⟩ := readChunkLine_ok hline
    have htake : src.unread.take line.length = line := by
      rw [htook.unread, List.append_assoc, List.take_left]
    refine ⟨line.length, chunkAt_eq_some_iff.2 ⟨sizeLineAt_eq_some_iff.2
      ⟨hfind, List.length_pos_of_ne_nil hne, hcap⟩, by rw [htake]; exact hsize⟩, ?_⟩
    have htake2 : src.unread.take (line.length + 2) = line ++ crlf := by
      rw [htook.unread, List.take_left' (by simp)]
    rwa [htake2]

/-- On a healthy socket a chunk header is accepted whenever there is one. -/
theorem readChunkHeader_healthy (hs : src.skt.Healthy)
    (h : chunkAt src.buffer.nbBuffer src.unread = some (k, n)) :
    ∃ src', readChunkHeader src = (.ok n, src') := by
  obtain ⟨hline, hsize⟩ := chunkAt_eq_some_iff.1 h
  obtain ⟨hfind, hpos, hcap⟩ := sizeLineAt_eq_some_iff.1 hline
  obtain ⟨src', hread⟩ := readChunkLine_healthy (n := src.buffer.nbBuffer + 1) hs hfind hpos hcap
    (by omega)
  exact ⟨src', by simp only [readChunkHeader, hread, hsize]⟩

/-- The two bytes behind a chunk are taken unseen. -/
theorem finishChunk_ok {nbRead : Nat} {data : Bytes}
    (h : (finishChunk nbRead data r src).err = none) :
    2 ≤ src.unread.length ∧ (finishChunk nbRead data r src).data = data ∧
      (finishChunk nbRead data r src).reader = r ∧
      Took src (src.unread.take 2) (finishChunk nbRead data r src).src := by
  have hg := Source.grow_grown src 2
  rw [finishChunk] at h ⊢
  cases hgrow : src.grow 2 with
  | mk err src₁ =>
    have hsize := @Source.grow_size src 2
    rw [hgrow] at h hg hsize
    cases err with
    | some e => simp at h
    | none =>
      have hsize2 := hsize rfl
      simp only [SrsFastStream.readSlice_of_le hsize2]
      refine ⟨?_, trivial, trivial, ?_⟩
      · rw [← hg.unread, Source.unread, List.length_append, SrsFastStream.length_unread]
        exact hsize2.trans (Nat.le_add_right _ _)
      · have := (Took.of_grown hg).trans (took_advance hsize2)
        rwa [List.nil_append, hg.unread] at this

theorem finishChunk_healthy {nbRead : Nat} {data : Bytes} (hs : src.skt.Healthy)
    (hlen : 2 ≤ src.unread.length) (hcap : 2 ≤ src.buffer.nbBuffer) :
    (finishChunk nbRead data r src).err = none := by
  have hok := Source.grow_success hs hcap hlen
  rw [finishChunk]
  cases hgrow : src.grow 2 with
  | mk err src₁ =>
    have hsize := @Source.grow_size src 2
    rw [hgrow] at hok hsize
    cases hok
    simp only [SrsFastStream.readSlice_of_le (hsize rfl)]

/-- What a successful call behind a chunk header of a non-empty chunk has done:
taken a part of the chunk, or its rest with the two bytes behind it. -/
theorem readChunkData_ok (hc : owner.chunked = true) (hchunk : r.nbChunk ≠ 0)
    (h : (readChunkData owner r src nbData).err = none) :
    ∃ m, 0 < m ∧ m ≤ r.nbLeftChunk ∧
      (readChunkData owner r src nbData).data = src.unread.take m ∧
      (readChunkData owner r src nbData).reader.isEof = r.isEof ∧
      (readChunkData owner r src nbData).reader.nbChunk = r.nbChunk ∧
      (readChunkData owner r src nbData).reader.nbLeftChunk = r.nbLeftChunk - m ∧
      (m < r.nbLeftChunk → m ≤ src.unread.length ∧
        Took src (src.unread.take m) (readChunkData owner r src nbData).src) ∧
      (m = r.nbLeftChunk → m + 2 ≤ src.unread.length ∧
        Took src (src.unread.take (m + 2)) (readChunkData owner r src nbData).src) := by
  rw [readChunkData, if_neg hchunk] at h ⊢
  split_ifs at h ⊢ with hleft
  simp only at h ⊢
  cases hread : (readSpecified owner r src (min r.nbLeftChunk nbData)).err with
  | some e => rw [hread] at h; simp at h
  | none =>
    obtain ⟨m, hm0, hm, -, hmle, hnb, hdata, htook, hreader⟩ := readSpecified_ok hread
    have heof : reachedEnd owner (r.nbTotalRead + m) = false := by simp [reachedEnd, hc]
    rw [hread] at h
    simp only [hnb, Option.getD_some, hreader, heof, Bool.or_false] at h ⊢
    refine ⟨m, hm0, by omega, ?_⟩
    split_ifs at h ⊢ with hmore
    · exact ⟨hdata, rfl, rfl, rfl, fun _ => ⟨hmle, htook⟩, fun hc => absurd hc (by omega)⟩
    · obtain ⟨hlen2, hdata2, hreader2, htook2⟩ := finishChunk_ok h
      rw [htook.unread_drop] at hlen2 htook2
      rw [List.length_drop] at hlen2
      rw [hdata2, hreader2]
      refine ⟨hdata, rfl, rfl, rfl, fun hc => absurd hc (by omega), fun _ => ⟨by omega, ?_⟩⟩
      have := htook.trans htook2
      rwa [← List.take_add] at this

/-- On a healthy socket a call inside a chunk succeeds if the rest of the chunk
and two more bytes are there. -/
theorem readChunkData_healthy (hs : src.skt.Healthy) (hchunk : r.nbChunk ≠ 0)
    (hleft : 0 < r.nbLeftChunk) (hpos : 0 < nbData)
    (hlen : r.nbLeftChunk + 2 ≤ src.unread.length) (hcap : 2 ≤ src.buffer.nbBuffer) :
    (readChunkData owner r src nbData).err = none := by
  have hread : (readSpecified owner r src (min r.nbLeftChunk nbData)).err = none :=
    readSpecified_healthy hs (List.ne_nil_of_length_pos (by omega)) (by omega)
  obtain ⟨m, hm0, hm, -, hmle, hnb, hdata, htook, hreader⟩ := readSpecified_ok hread
  rw [readChunkData, if_neg hchunk, if_neg (by omega)]
  simp only [hread, hnb, Option.getD_some]
  split_ifs with hmore
  · rfl
  · refine finishChunk_healthy (htook.healthy hs) ?_ (by rw [htook.nbBuffer]; exact hcap)
    rw [htook.unread_drop, List.length_drop]
    omega

/-- On a healthy socket none of the errors of a call is the end of the body. -/
theorem readChunkLine_error {e : SrsError} (hs : src.skt.Healthy)
    (h : readChunkLine n src = (.error e, src')) : e ≠ .httpResponseEof := by
  induction n generalizing src with
  | zero =>
    simp only [readChunkLine, Prod.mk.injEq, Except.error.injEq] at h
    rw [← h.1]
    decide
  | succ n ih =>
    rw [readChunkLine] at h
    split at h
    · simp only [Prod.mk.injEq, Except.error.injEq] at h
      rw [← h.1]
      decide
    · simp at h
    · have hg := Source.grow_grown src (src.buffer.size + 1)
      have he := fun e => @Source.grow_error_of_healthy src (src.buffer.size + 1) e hs
      cases hgrow : src.grow (src.buffer.size + 1) with
      | mk err src₁ =>
        rw [hgrow] at h hg he
        cases err with
        | none => exact ih (hg.healthy hs) h
        | some e' =>
          simp only [Prod.mk.injEq, Except.error.injEq] at h
          rcases he e' rfl with h' | h' <;> rw [← h.1, h'] <;> decide

theorem readChunkHeader_error {e : SrsError} (hs : src.skt.Healthy)
    (h : readChunkHeader src = (.error e, src')) : e ≠ .httpResponseEof := by
  rw [readChunkHeader] at h
  split at h
  · rename_i e' src₁ hline
    simp only [Prod.mk.injEq, Except.error.injEq] at h
    rw [← h.1]
    exact readChunkLine_error hs hline
  · simp only [Prod.mk.injEq, chunkSize] at h
    split_ifs at h
    · rw [← Except.error.inj h.1]
      decide
    · simp at h

theorem finishChunk_error {nbRead : Nat} {data : Bytes} {e : SrsError} (hs : src.skt.Healthy)
    (h : (finishChunk nbRead data r src).err = some e) : e ≠ .httpResponseEof := by
  have he := fun e => @Source.grow_error_of_healthy src 2 e hs
  rw [finishChunk] at h
  cases hgrow : src.grow 2 with
  | mk err src₁ =>
    have hsize := @Source.grow_size src 2
    rw [hgrow] at h he hsize
    cases err with
    | some e' =>
      cases h
      rcases he e rfl with h' | h' <;> rw [h'] <;> decide
    | none => simp [SrsFastStream.readSlice_of_le (hsize rfl)] at h

theorem readSpecified_error {e : SrsError} (hs : src.skt.Healthy)
    (h : (readSpecified owner r src nbData).err = some e) : e ≠ .httpResponseEof := by
  rw [readSpecified] at h
  split at h
  · rename_i e' src₁ hrefill
    cases h
    rw [refill] at hrefill
    split_ifs at hrefill
    · have hgrow : (src.grow 1).1 = some e := by rw [hrefill]
      rcases Source.grow_error_of_healthy hs hgrow with h' | h' <;> rw [h'] <;> decide
    · simp at hrefill
  · simp only at h
    split_ifs at h
    cases h
    decide

theorem readChunkData_error {e : SrsError} (hs : src.skt.Healthy)
    (h : (readChunkData owner r src nbData).err = some e) : e ≠ .httpResponseEof := by
  rw [readChunkData] at h
  split_ifs at h
  · exact finishChunk_error hs h
  · cases h
    decide
  · simp only at h
    cases hread : (readSpecified owner r src (min r.nbLeftChunk nbData)).err with
    | some e' =>
      rw [hread] at h
      cases h
      exact readSpecified_error hs hread
    | none =>
      obtain ⟨m, -, -, -, -, -, -, htook, -⟩ := readSpecified_ok hread
      rw [hread] at h
      split_ifs at h
      exact finishChunk_error (htook.healthy hs) h

end Call

/-! ## All calls -/

/-- What the reader still has to decode when `left` bytes of the current chunk
are to come. -/
def Continues (cap left : Nat) (S p T : Bytes) : Prop :=
  if left = 0 then Decodes cap S p T
  else left + 2 ≤ S.length ∧ ∃ q, p = S.take left ++ q ∧ Decodes cap (S.drop (left + 2)) q T

theorem continues_zero {cap : Nat} {S p T : Bytes} :
    Continues cap 0 S p T ↔ Decodes cap S p T := by simp [Continues]

theorem continues_pos {cap left : Nat} {S p T : Bytes} (h : 0 < left) :
    Continues cap left S p T ↔ left + 2 ≤ S.length ∧
      ∃ q, p = S.take left ++ q ∧ Decodes cap (S.drop (left + 2)) q T := by
  rw [Continues, if_neg (by omega)]

/-- A part of a chunk. -/
theorem continues_part {cap left m : Nat} {S p T : Bytes} (hm : m < left) :
    Continues cap left S (S.take m ++ p) T ↔ m ≤ S.length ∧ Continues cap (left - m) (S.drop m) p T := by
  rw [continues_pos (by omega), continues_pos (by omega)]
  have h1 : S.take left = S.take m ++ (S.drop m).take (left - m) := by
    rw [← List.take_add]
    congr 1
    omega
  have h2 : (S.drop m).drop (left - m + 2) = S.drop (left + 2) := by
    rw [List.drop_drop]
    congr 1
    omega
  rw [h1, h2, List.length_drop]
  simp only [List.append_assoc, List.append_cancel_left_eq]
  constructor
  · rintro ⟨h, q⟩; exact ⟨by omega, by omega, q⟩
  · rintro ⟨h, h', q⟩; exact ⟨by omega, q⟩

/-- The rest of a chunk. -/
theorem continues_whole {cap left : Nat} {S p T : Bytes} (h0 : 0 < left) :
    Continues cap left S (S.take left ++ p) T ↔
      left + 2 ≤ S.length ∧ Continues cap 0 (S.drop (left + 2)) p T := by
  rw [continues_pos h0, continues_zero]
  simp only [List.append_cancel_left_eq]
  constructor
  · rintro ⟨h, q, rfl, hq⟩; exact ⟨h, hq⟩
  · rintro ⟨h, hq⟩; exact ⟨h, p, rfl, hq⟩

/-- A chunk header in front of its chunk. -/
theorem continues_header {cap k n : Nat} {S p T : Bytes} (hdr : chunkAt cap S = some (k, n))
    (hn : 0 < n) : Decodes cap S p T ↔ Continues cap n (S.drop (k + 2)) p T := by
  rw [continues_pos hn, List.length_drop, List.drop_drop]
  have hle := (chunkAt_le hdr).2.1
  constructor
  · rintro (⟨hdr', -⟩ | ⟨hdr', -, hfits, hrest⟩)
    · rw [hdr] at hdr'
      simp only [Option.some.injEq, Prod.mk.injEq] at hdr'
      omega
    · rw [hdr] at hdr'
      cases hdr'
      exact ⟨by omega, _, rfl, by rwa [show k + 2 + (n + 2) = k + 2 + n + 2 by omega]⟩
  · rintro ⟨hlen, q, rfl, hrest⟩
    exact Decodes.chunk hdr hn (by omega)
      (by rwa [show k + 2 + (n + 2) = k + 2 + n + 2 by omega] at hrest)

/-- The last chunk at the front of a string. -/
theorem decodes_zero_iff {cap k : Nat} {S p T : Bytes} (hdr : chunkAt cap S = some (k, 0)) :
    Decodes cap S p T ↔ k + 2 + 2 ≤ S.length ∧ p = [] ∧ T = S.drop (k + 2 + 2) := by
  constructor
  · rintro (⟨hdr', hfits⟩ | ⟨hdr', hpos, -, -⟩)
    · rw [hdr] at hdr'
      cases hdr'
      exact ⟨hfits, rfl, rfl⟩
    · rw [hdr] at hdr'
      cases hdr'
      exact absurd hpos (Nat.lt_irrefl 0)
  · rintro ⟨hfits, rfl, rfl⟩
    exact Decodes.last hdr hfits

section Drain

variable {owner : BodyFraming} {r : SrsHttpResponseReader} {src : Source} {sizes : Nat → Nat}
  {nbData : Nat} {p T : Bytes}

/-- The reader is in the middle of a body: the end has not been seen, and the
bytes left belong to a chunk. -/
structure Going (r : SrsHttpResponseReader) : Prop where
  isEof : r.isEof = false
  nbChunk : 0 < r.nbLeftChunk → r.nbChunk ≠ 0

theorem going_fresh : Going fresh := ⟨rfl, fun h => absurd h (Nat.lt_irrefl 0)⟩

/-- The source after a call that has taken something. -/
structure Behind (src src' : Source) : Prop where
  nbBuffer : src'.buffer.nbBuffer = src.buffer.nbBuffer
  healthy : src.skt.Healthy → src'.skt.Healthy
  lt : src'.unread.length < src.unread.length

theorem Behind.of_took {src src' : Source} {m : Nat} (h : Took src (src.unread.take m) src')
    (h0 : 0 < m) (hm : m ≤ src.unread.length) : Behind src src' :=
  ⟨h.nbBuffer, h.healthy, by rw [h.unread_drop, List.length_drop]; omega⟩

/-- A successful call inside a chunk moves the decoding forward. -/
theorem readChunkData_continues (hc : owner.chunked = true) (hr : Going r) (hleft : 0 < r.nbLeftChunk)
    (h : (readChunkData owner r src nbData).err = none) :
    Going (readChunkData owner r src nbData).reader ∧
      Behind src (readChunkData owner r src nbData).src ∧
      (∀ cap p T, Continues cap r.nbLeftChunk src.unread p T →
        (readChunkData owner r src nbData).data <+: p) ∧
      ∀ cap p T, Continues cap r.nbLeftChunk src.unread
          ((readChunkData owner r src nbData).data ++ p) T ↔
        Continues cap (readChunkData owner r src nbData).reader.nbLeftChunk
          (readChunkData owner r src nbData).src.unread p T := by
  obtain ⟨m, hm0, hm, hdata, heof, hchunk, hleft', hpart, hwhole⟩ :=
    readChunkData_ok hc (hr.nbChunk hleft) h
  refine ⟨⟨heof.trans hr.isEof, fun _ => by rw [hchunk]; exact hr.nbChunk hleft⟩, ?_, ?_, ?_⟩
  · rcases Nat.lt_or_eq_of_le hm with hlt | heq
    · exact Behind.of_took (hpart hlt).2 hm0 (hpart hlt).1
    · exact Behind.of_took (hwhole heq).2 (by omega) (hwhole heq).1
  · intro cap p T hp
    obtain ⟨-, q, rfl, -⟩ := (continues_pos hleft).1 hp
    rw [hdata]
    exact (List.take_prefix_take_left hm).trans (List.prefix_append _ _)
  · intro cap p T
    rw [hdata, hleft']
    rcases Nat.lt_or_eq_of_le hm with hlt | heq
    · rw [continues_part hlt, (hpart hlt).2.unread_drop]
      exact and_iff_right (hpart hlt).1
    · have h2 := (hwhole heq).2.unread_drop
      have h1 := (hwhole heq).1
      rw [heq, Nat.sub_self, continues_whole hleft, ← heq, h2]
      exact and_iff_right h1

theorem read_eq_readChunked (hc : owner.chunked = true) (hr : Going r) :
    read owner r src nbData = readChunked owner r src nbData := by
  rw [read, if_neg (by simp [hr.isEof]), if_pos hc]

/-- The state in which the payload of a chunk is read, its header being accepted. -/
theorem going_header {n : Nat} (hr : Going r) :
    Going { r with nbChunk := n, nbLeftChunk := n } :=
  ⟨hr.isEof, fun h => by simpa using Nat.ne_of_gt h⟩

/-- What one successful call has done: it has taken the last chunk, or it has
moved the decoding forward. -/
theorem read_chunked_ok (hc : owner.chunked = true) (hr : Going r)
    (h : (read owner r src nbData).err = none) :
    (∃ k, r.nbLeftChunk = 0 ∧ chunkAt src.buffer.nbBuffer src.unread = some (k, 0) ∧
      k + 2 + 2 ≤ src.unread.length ∧ (read owner r src nbData).data = [] ∧
      (read owner r src nbData).reader.isEof = true ∧
      Took src (src.unread.take (k + 2 + 2)) (read owner r src nbData).src) ∨
    (Going (read owner r src nbData).reader ∧ Behind src (read owner r src nbData).src ∧
      (∀ p T, Continues src.buffer.nbBuffer r.nbLeftChunk src.unread p T →
        (read owner r src nbData).data <+: p) ∧
      ∀ p T, Continues src.buffer.nbBuffer r.nbLeftChunk src.unread
          ((read owner r src nbData).data ++ p) T ↔
        Continues src.buffer.nbBuffer (read owner r src nbData).reader.nbLeftChunk
          (read owner r src nbData).src.unread p T) := by
  rw [read_eq_readChunked hc hr, readChunked] at h ⊢
  by_cases hleft : r.nbLeftChunk = 0
  · rw [if_pos hleft] at h ⊢
    cases hhdr : readChunkHeader src with
    | mk res src₁ =>
      rw [hhdr] at h
      cases res with
      | error e => simp at h
      | ok n =>
        obtain ⟨k, hchunk, htook⟩ := readChunkHeader_ok hhdr
        have hlen := (chunkAt_le hchunk).2.1
        simp only at h ⊢
        rcases Nat.eq_zero_or_pos n with rfl | hn
        · left
          rw [readChunkData, if_pos rfl] at h ⊢
          obtain ⟨h2, hdata, hreader, htook2⟩ := finishChunk_ok h
          rw [htook.unread_drop] at h2 htook2
          rw [List.length_drop] at h2
          refine ⟨k, hleft, hchunk, by omega, hdata, by rw [hreader], ?_⟩
          have := htook.trans htook2
          rwa [← List.take_add] at this
        · right
          obtain ⟨hgo, hbehind, hprefix, hcont⟩ :=
            readChunkData_continues hc (going_header hr) hn h
          rw [htook.unread_drop] at hprefix hcont
          refine ⟨hgo, ⟨hbehind.nbBuffer.trans htook.nbBuffer,
            fun hs => hbehind.healthy (htook.healthy hs), ?_⟩, ?_, ?_⟩
          · have := hbehind.lt
            rw [htook.unread_drop, List.length_drop] at this
            omega
          · intro p T hp
            rw [hleft, continues_zero, continues_header hchunk hn] at hp
            exact hprefix _ _ _ hp
          · intro p T
            rw [← hcont, hleft, continues_zero]
            exact continues_header hchunk hn
  · rw [if_neg hleft] at h ⊢
    right
    obtain ⟨hgo, hbehind, hprefix, hcont⟩ :=
      readChunkData_continues hc hr (Nat.pos_of_ne_zero hleft) h
    exact ⟨hgo, hbehind, fun p T => hprefix _ p T, fun p T => hcont _ p T⟩

/-- On a healthy socket no call in the middle of a body reports its end. -/
theorem read_chunked_error {e : SrsError} (hc : owner.chunked = true) (hs : src.skt.Healthy)
    (hr : Going r) (h : (read owner r src nbData).err = some e) : e ≠ .httpResponseEof := by
  rw [read_eq_readChunked hc hr, readChunked] at h
  split_ifs at h
  · split at h
    · cases h
      exact readChunkHeader_error hs ‹_›
    · obtain ⟨k, -, htook⟩ := readChunkHeader_ok ‹_›
      exact readChunkData_error (htook.healthy hs) h
  · exact readChunkData_error hs h

/-- On a healthy socket a call succeeds as long as there is something to decode. -/
theorem read_chunked_healthy (hc : owner.chunked = true) (hs : src.skt.Healthy) (hr : Going r)
    (hpos : 0 < nbData) (hcap : 2 ≤ src.buffer.nbBuffer)
    (h : Continues src.buffer.nbBuffer r.nbLeftChunk src.unread p T) :
    (read owner r src nbData).err = none := by
  rw [read_eq_readChunked hc hr, readChunked]
  by_cases hleft : r.nbLeftChunk = 0
  · rw [if_pos hleft]
    rw [hleft, continues_zero] at h
    obtain ⟨k, n, hchunk, hfits⟩ : ∃ k n, chunkAt src.buffer.nbBuffer src.unread = some (k, n) ∧
        k + 2 + n + 2 ≤ src.unread.length := by
      cases h with
      | last hdr fits => exact ⟨_, _, hdr, fits⟩
      | chunk hdr pos fits rest => exact ⟨_, _, hdr, fits⟩
    obtain ⟨src₁, hhdr⟩ := readChunkHeader_healthy hs hchunk
    obtain ⟨k', hchunk', htook⟩ := readChunkHeader_ok hhdr
    rw [hchunk] at hchunk'
    cases hchunk'
    have hlen : n + 2 ≤ src₁.unread.length := by
      rw [htook.unread_drop, List.length_drop]
      omega
    have hcap' : 2 ≤ src₁.buffer.nbBuffer := by rw [htook.nbBuffer]; exact hcap
    simp only [hhdr]
    rcases Nat.eq_zero_or_pos n with rfl | hn
    · rw [readChunkData, if_pos rfl]
      exact finishChunk_healthy (htook.healthy hs) (by omega) hcap'
    · exact readChunkData_healthy (htook.healthy hs) (Nat.ne_of_gt hn) hn hpos hlen hcap'
  · have hleft' := Nat.pos_of_ne_zero hleft
    rw [if_neg hleft]
    exact readChunkData_healthy hs (hr.nbChunk hleft') hleft' hpos
      ((continues_pos hleft').1 h).1 hcap

/-- **Soundness.**  When the reads end with the end of the body, the bytes they
consumed have been decoded to the bytes they delivered. -/
theorem drain_sound (hc : owner.chunked = true) (hs : src.skt.Healthy) (hr : Going r) {fuel : Nat}
    (h : (drain owner sizes fuel r src).stop = some .httpResponseEof) :
    Continues src.buffer.nbBuffer r.nbLeftChunk src.unread (drain owner sizes fuel r src).data
      (drain owner sizes fuel r src).src.unread := by
  induction fuel generalizing r src sizes with
  | zero => simp [drain] at h
  | succ fuel ih =>
    cases herr : (read owner r src (sizes 0)).err with
    | some e =>
      rw [drain_of_error herr] at h
      exact absurd (Option.some.inj h) (read_chunked_error hc hs hr herr)
    | none =>
      rw [drain_of_ok herr] at h ⊢
      simp only at h ⊢
      obtain ⟨k, hleft, hchunk, hlen, hdata, heof, htook⟩ | ⟨hgo, hbehind, -, hcont⟩ :=
        read_chunked_ok hc hr herr
      · cases fuel with
        | zero => simp [drain] at h
        | succ fuel =>
          rw [drain_of_eof heof, hdata, hleft, continues_zero, htook.unread_drop]
          exact Decodes.last hchunk hlen
      · have hrest := ih (hbehind.healthy hs) hgo h
        rw [hbehind.nbBuffer] at hrest
        exact (hcont _ _).2 hrest

/-- **Completeness.**  On a healthy socket whatever can be decoded is decoded. -/
theorem drain_complete (hc : owner.chunked = true) (hs : src.skt.Healthy) (hr : Going r)
    (hpos : ∀ i, 0 < sizes i) (hcap : 2 ≤ src.buffer.nbBuffer)
    (h : Continues src.buffer.nbBuffer r.nbLeftChunk src.unread p T) :
    ∃ fuel, (drain owner sizes fuel r src).stop = some .httpResponseEof ∧
      (drain owner sizes fuel r src).data = p ∧ (drain owner sizes fuel r src).src.unread = T := by
  -- every call takes at least one byte
  induction hn : src.unread.length using Nat.strong_induction_on generalizing r src sizes p with
  | _ len ih =>
    have herr := read_chunked_healthy hc hs hr (hpos 0) hcap h
    obtain ⟨k, hleft, hchunk, hlen, hdata, heof, htook⟩ | ⟨hgo, hbehind, hprefix, hcont⟩ :=
      read_chunked_ok hc hr herr
    · rw [hleft, continues_zero, decodes_zero_iff hchunk] at h
      obtain ⟨-, rfl, rfl⟩ := h
      refine ⟨2, ?_⟩
      rw [drain_of_ok herr, drain_of_eof heof]
      exact ⟨rfl, by simp [hdata], htook.unread_drop⟩
    · obtain ⟨q, rfl⟩ := hprefix _ _ h
      have hrest := (hcont _ _).1 h
      rw [← hbehind.nbBuffer] at hrest
      obtain ⟨fuel, hstop, hdata, hsrc⟩ := ih _ (by have := hbehind.lt; omega)
        (hbehind.healthy hs) hgo (fun i => hpos (i + 1))
        (by rw [hbehind.nbBuffer]; exact hcap) hrest rfl
      refine ⟨fuel + 1, ?_⟩
      rw [drain_of_ok herr]
      exact ⟨hstop, by simp only [hdata], hsrc⟩

/-- **The chunked reader refines the decoder**, whatever the fragmentation and
the read sizes. -/
theorem drain_iff_decodes (hc : owner.chunked = true) (hs : src.skt.Healthy)
    (hpos : ∀ i, 0 < sizes i) (hcap : 2 ≤ src.buffer.nbBuffer) :
    (∃ fuel, (drain owner sizes fuel fresh src).stop = some .httpResponseEof ∧
      (drain owner sizes fuel fresh src).data = p ∧
      (drain owner sizes fuel fresh src).src.unread = T) ↔
    Decodes src.buffer.nbBuffer src.unread p T := by
  constructor
  · rintro ⟨fuel, hstop, rfl, rfl⟩
    exact continues_zero.1 (drain_sound hc hs going_fresh hstop)
  · intro h
    exact drain_complete hc hs going_fresh hpos hcap (continues_zero.2 h)

end Drain

end SrsHttpResponseReader

end HttpProxy
