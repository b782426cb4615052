import HttpProxy.Body.Grammar

/-!
# What the chunked reader accepts

The reader is laxer than the grammar: `strtol` allows white space, a sign and a
`0x` in front of the digits, its result is narrowed to `int`, and the two bytes
behind a payload are skipped unseen.  This file says exactly which inputs are
read as the grammar says.

* `Boundary cap S T` — reading `S`, the decoder comes to expect a size line at
  the front of `T`.
* `Strict cap T` — the size line there is written plainly and the payload is
  followed by CRLF, if the reader accepts them at all.
* `Sound` — the reader accepts size lines and payloads only as the grammar has
  them, and what it has consumed at the end is a chunked body.
* `sound_iff_strict` — the reader is sound on an input if and only if the input
  is strict at every boundary.
-/

namespace HttpProxy

namespace SrsHttpResponseReader

/-! ## Size lines -/

/-- The line starts neither with white space or a sign nor with `0x`. -/
def PlainStart : Bytes → Prop
  | [] => True
  | [b] => isSpace b = false ∧ b ≠ 43 ∧ b ≠ 45
  | b :: x :: _ => isSpace b = false ∧ b ≠ 43 ∧ b ≠ 45 ∧ ¬ (b = 48 ∧ (x = 120 ∨ x = 88))

theorem plainStart_cons {b : Byte} {t : Bytes} (h : PlainStart (b :: t)) :
    isSpace b = false ∧ b ≠ 43 ∧ b ≠ 45 := by
  cases t with
  | nil => exact h
  | cons x t => exact ⟨h.1, h.2.1, h.2.2.1⟩

theorem HexLine.plainStart {line : Bytes} {n : Nat} (h : HexLine line n) : PlainStart line := by
  have hb : ∀ b ∈ line, isSpace b = false ∧ b ≠ 43 ∧ b ≠ 45 := by
    intro b hb
    have hx := h.digits b hb
    refine ⟨not_isSpace_of_isDigitIn hx, ?_, ?_⟩
    · rintro rfl; exact absurd hx (by decide)
    · rintro rfl; exact absurd hx (by decide)
  match line, h, hb with
  | [], _, _ => trivial
  | [b], _, hb => exact hb b (by simp)
  | b :: x :: t, h, hb =>
    obtain ⟨h1, h2, h3⟩ := hb b (by simp)
    refine ⟨h1, h2, h3, ?_⟩
    rintro ⟨-, hx⟩
    have hdig := h.digits x (by simp)
    rcases hx with rfl | rfl <;> exact absurd hdig (by decide)

theorem signOf_of_ne {b : Byte} (h43 : b ≠ 43) (h45 : b ≠ 45) (s : Bytes) :
    signOf (b :: s) = (false, 0) := by
  unfold signOf
  split
  · rename_i heq; exact absurd (List.cons.inj heq).1 h45
  · rename_i heq; exact absurd (List.cons.inj heq).1 h43
  · rfl

theorem hexPrefixLen_of_plainStart {line : Bytes} (h : PlainStart line) :
    hexPrefixLen 16 line = 0 := by
  unfold hexPrefixLen
  split
  · rename_i x d t
    exact if_neg fun hc => h.2.2.2 ⟨rfl, hc.2.1⟩
  · rfl

/-- On a plainly written line `strtol` converts the digits at its front. -/
theorem strtol_plainStart {line : Bytes} (h : PlainStart line) :
    (strtol 16 line).parsed = (line.takeWhile isXDigit).length := by
  cases line with
  | nil => rfl
  | cons b t =>
    obtain ⟨hsp, h43, h45⟩ := plainStart_cons h
    have hws : (b :: t).takeWhile isSpace = [] := by simp [List.takeWhile, hsp]
    have hx : isDigitIn 16 = isXDigit := rfl
    rw [strtol]
    simp only [hws, List.length_nil, List.drop_zero, signOf_of_ne h43 h45, Nat.zero_add,
      hexPrefixLen_of_plainStart h, hx]
    by_cases hnil : (b :: t).takeWhile isXDigit = []
    · rw [if_pos hnil, hnil]
      rfl
    · rw [if_neg hnil]

theorem chunkSize_ok {line : Bytes} {n : Nat} (h : chunkSize line = .ok n) :
    (strtol 16 line).parsed = line.length ∧ n = (toInt32 (strtol 16 line).value).toNat := by
  rw [chunkSize] at h
  by_cases hbad : toInt32 (strtol 16 line).value < 0 ∨ (strtol 16 line).erange = true ∨
      (strtol 16 line).parsed ≠ line.length
  · rw [if_pos hbad] at h
    simp at h
  · rw [if_neg hbad] at h
    simp only [not_or, not_not] at hbad
    exact ⟨hbad.2.2, (Except.ok.inj h).symm⟩

/-- What an accepted size line says, if it is written plainly. -/
theorem chunkSize_plainStart {line : Bytes} {n : Nat} (h : chunkSize line = .ok n)
    (hne : line ≠ []) (hplain : PlainStart line) (hval : digitsValue 16 line < 2 ^ 31) :
    HexLine line n := by
  have hlen := (chunkSize_ok h).1
  rw [strtol_plainStart hplain] at hlen
  have hall : line.takeWhile isXDigit = line :=
    List.IsPrefix.eq_of_length (List.takeWhile_prefix _) hlen
  have hdig : ∀ b ∈ line, isXDigit b = true := List.takeWhile_eq_self_iff.1 hall
  refine ⟨hne, hdig, ?_⟩
  have hok := chunkSize_hexLine ⟨hne, hdig, rfl⟩ hval
  rw [h] at hok
  exact (Except.ok.inj hok).symm

/-- Whatever is accepted is below `2 ^ 31`. -/
theorem chunkSize_lt {line : Bytes} {n : Nat} (h : chunkSize line = .ok n) : n < 2 ^ 31 := by
  rw [(chunkSize_ok h).2, toInt32, Int.bmod]
  omega

/-! ## Boundaries -/

/-- Reading `S`, the decoder comes to expect a size line at the front of `T`. -/
inductive Boundary (cap : Nat) (S : Bytes) : Bytes → Prop
  | start : Boundary cap S S
  | next {T : Bytes} {k n : Nat} (h : Boundary cap S T) (hdr : chunkAt cap T = some (k, n))
      (pos : 0 < n) (fits : k + 2 + n + 2 ≤ T.length) : Boundary cap S (T.drop (k + 2 + n + 2))

/-- If there is a size line at the front of `T` that the reader accepts, it is
written plainly and denotes a number below `2 ^ 31`, and the payload is followed
by CRLF. -/
def Strict (cap : Nat) (T : Bytes) : Prop :=
  ∀ k n, chunkAt cap T = some (k, n) →
    PlainStart (T.take k) ∧ digitsValue 16 (T.take k) < 2 ^ 31 ∧
      (k + 2 + n + 2 ≤ T.length → crlf <+: T.drop (k + 2 + n))

theorem Boundary.shift {cap : Nat} {S U : Bytes} {k n : Nat} (hdr : chunkAt cap S = some (k, n))
    (pos : 0 < n) (fits : k + 2 + n + 2 ≤ S.length)
    (h : Boundary cap (S.drop (k + 2 + n + 2)) U) : Boundary cap S U := by
  induction h with
  | start => exact .next .start hdr pos fits
  | next _ hdr' pos' fits' ih => exact .next ih hdr' pos' fits'

/-- What stands at the front of a string, when a size line is accepted there. -/
theorem split_chunkAt {cap k n : Nat} {T : Bytes} (h : chunkAt cap T = some (k, n)) :
    T.take k ≠ [] ∧ T = T.take k ++ crlf ++ T.drop (k + 2) := by
  obtain ⟨hline, -⟩ := chunkAt_eq_some_iff.1 h
  obtain ⟨hfind, hpos, -⟩ := sizeLineAt_eq_some_iff.1 hline
  refine ⟨?_, findSub_split hfind⟩
  have := findSub_add_length_le hfind
  rw [Ne, List.take_eq_nil_iff, not_or]
  exact ⟨by omega, List.ne_nil_of_length_pos (by omega)⟩

theorem Strict.hexLine {cap k n : Nat} {T : Bytes} (h : Strict cap T)
    (hdr : chunkAt cap T = some (k, n)) : HexLine (T.take k) n := by
  obtain ⟨hplain, hval, -⟩ := h k n hdr
  exact chunkSize_plainStart (chunkAt_eq_some_iff.1 hdr).2 (split_chunkAt hdr).1 hplain hval

/-- The bytes from a boundary to the end of its chunk. -/
theorem Strict.split {cap k n : Nat} {T : Bytes} (h : Strict cap T)
    (hdr : chunkAt cap T = some (k, n)) (fits : k + 2 + n + 2 ≤ T.length) :
    T = T.take k ++ crlf ++ (T.drop (k + 2)).take n ++ crlf ++ T.drop (k + 2 + n + 2) := by
  obtain ⟨t, ht⟩ := (h k n hdr).2.2 fits
  have h1 : T.drop (k + 2) = (T.drop (k + 2)).take n ++ T.drop (k + 2 + n) := by
    rw [← List.drop_drop (j := k + 2), List.take_append_drop]
  have h2 : T.drop (k + 2 + n + 2) = t := by
    rw [← List.drop_drop (j := k + 2 + n), ← ht, List.drop_left' crlf_length]
  conv_lhs => rw [(split_chunkAt hdr).2, h1, ← ht, ← h2]
  simp only [List.append_assoc]

/-- Where every boundary is strict, what is decoded is a chunked body. -/
theorem Decodes.chunkedBody {cap : Nat} {S p T : Bytes} (h : Decodes cap S p T)
    (hstrict : ∀ U, Boundary cap S U → Strict cap U) :
    ∃ wire, ChunkedBody wire p ∧ S = wire ++ T := by
  induction h with
  | @last S k hdr fits =>
    have hst := hstrict S .start
    refine ⟨_, .last (hst.hexLine hdr), ?_⟩
    have hsplit := hst.split hdr (by omega)
    simpa using hsplit
  | @chunk S p T k n hdr pos fits rest ih =>
    have hst := hstrict S .start
    obtain ⟨wire, hwire, hrest⟩ := ih fun U hU => hstrict U (hU.shift hdr pos fits)
    have hlen : ((S.drop (k + 2)).take n).length = n := by
      rw [List.length_take, List.length_drop]
      omega
    have hline : HexLine (S.take k) ((S.drop (k + 2)).take n).length := by
      rw [hlen]
      exact hst.hexLine hdr
    refine ⟨_, .chunk hline (List.ne_nil_of_length_pos (by omega)) hwire, ?_⟩
    conv_lhs => rw [hst.split hdr fits, hrest]
    simp only [List.append_assoc]

/-! ## Inside a chunk -/

section Run

variable {owner : BodyFraming} {sizes : Nat → Nat} {cap k n nbData : Nat} {S T : Bytes}
  {r : SrsHttpResponseReader} {src : Source}

/-- The reader is at the boundary `T` or inside the chunk that starts there. -/
structure InChunk (cap : Nat) (T : Bytes) (k n : Nat) (r : SrsHttpResponseReader)
    (src : Source) : Prop where
  hdr : chunkAt cap T = some (k, n)
  going : Going r
  nbBuffer : src.buffer.nbBuffer = cap
  place : (r.nbLeftChunk = 0 ∧ src.unread = T) ∨
    (0 < r.nbLeftChunk ∧ r.nbLeftChunk ≤ n ∧ src.unread = T.drop (k + 2 + (n - r.nbLeftChunk)))

theorem InChunk.suffix (h : InChunk cap T k n r src) : src.unread <:+ T := by
  rcases h.place with ⟨-, h⟩ | ⟨-, -, h⟩
  · rw [h]
  · rw [h]
    exact List.drop_suffix _ _

/-- The call has come to the end of the chunk at `T`: it has taken the last bytes
of it, the two behind the payload included. -/
structure Ended (T : Bytes) (k n : Nat) (src : Source) (res : ReadResult) : Prop where
  fits : k + 2 + n + 2 ≤ T.length
  unread : res.src.unread = T.drop (k + 2 + n + 2)
  took : ∃ bs, 2 ≤ bs.length ∧ Took src bs res.src
  last : n = 0 → res.reader.isEof = true
  going : 0 < n → Going res.reader
  nbLeftChunk : res.reader.nbLeftChunk = 0

/-- One call behind an accepted chunk header. -/
theorem readChunkData_inChunk (hc : owner.chunked = true) (hdr : chunkAt cap T = some (k, n))
    (hcap : src.buffer.nbBuffer = cap) (hr : Going r) (hleft : 0 < r.nbLeftChunk)
    (hle : r.nbLeftChunk ≤ n) (hplace : src.unread = T.drop (k + 2 + (n - r.nbLeftChunk)))
    (h : (readChunkData owner r src nbData).err = none) :
    (InChunk cap T k n (readChunkData owner r src nbData).reader
        (readChunkData owner r src nbData).src ∧
      0 < (readChunkData owner r src nbData).reader.nbLeftChunk) ∨
    Ended T k n src (readChunkData owner r src nbData) := by
  have hlen := (chunkAt_le hdr).2.1
  obtain ⟨m, hm0, hm, -, heof, hchunk, hleft', hpart, hwhole⟩ :=
    readChunkData_ok hc (hr.nbChunk hleft) h
  have hgo : Going (readChunkData owner r src nbData).reader :=
    ⟨heof.trans hr.isEof, fun _ => by rw [hchunk]; exact hr.nbChunk hleft⟩
  rcases Nat.lt_or_eq_of_le hm with hlt | heq
  · left
    obtain ⟨-, htook⟩ := hpart hlt
    refine ⟨⟨hdr, hgo, htook.nbBuffer.trans hcap, Or.inr ⟨by omega, by omega, ?_⟩⟩, by omega⟩
    rw [htook.unread_drop, hplace, List.drop_drop, hleft']
    congr 1
    omega
  · right
    obtain ⟨hfits, htook⟩ := hwhole heq
    rw [hplace, List.length_drop] at hfits
    refine ⟨by omega, ?_, ⟨_, ?_, htook⟩, fun hn => absurd hn (by omega), fun _ => hgo, by omega⟩
    · rw [htook.unread_drop, hplace, List.drop_drop]
      congr 1
      omega
    · rw [List.length_take, hplace, List.length_drop]
      omega

/-- One call at a boundary or inside a chunk stays inside the chunk or ends it. -/
theorem read_inChunk (hc : owner.chunked = true) (hin : InChunk cap T k n r src)
    (h : (read owner r src nbData).err = none) :
    (InChunk cap T k n (read owner r src nbData).reader (read owner r src nbData).src ∧
      0 < (read owner r src nbData).reader.nbLeftChunk) ∨
    Ended T k n src (read owner r src nbData) := by
  rw [read_eq_readChunked hc hin.going, readChunked] at h ⊢
  rcases hin.place with ⟨hleft, hplace⟩ | ⟨hleft, hle, hplace⟩
  · rw [if_pos hleft] at h ⊢
    cases hhdr : readChunkHeader src with
    | mk res src₁ =>
      rw [hhdr] at h
      cases res with
      | error e => simp at h
      | ok n' =>
        obtain ⟨k', hchunk, htook⟩ := readChunkHeader_ok hhdr
        rw [hin.nbBuffer, hplace, hin.hdr] at hchunk
        cases hchunk
        have hsrc : src₁.unread = T.drop (k + 2) := by rw [htook.unread_drop, hplace]
        simp only at h ⊢
        rcases Nat.eq_zero_or_pos n with rfl | hn
        · right
          rw [readChunkData, if_pos rfl] at h ⊢
          obtain ⟨h2, -, hreader, htook2⟩ := finishChunk_ok h
          rw [hsrc, List.length_drop] at h2
          have hle := (chunkAt_le hin.hdr).2.1
          refine ⟨by omega, ?_, ⟨_, ?_, htook.trans htook2⟩, fun _ => by rw [hreader],
            fun hc => absurd hc (Nat.lt_irrefl 0), by rw [hreader]⟩
          · rw [htook2.unread_drop, hsrc, List.drop_drop]
          · rw [List.length_append, hsrc, List.length_take, List.length_take, List.length_drop]
            omega
        · rcases readChunkData_inChunk hc hin.hdr (htook.nbBuffer.trans hin.nbBuffer)
            (going_header hin.going) hn (Nat.le_refl n) (by simpa using hsrc) h with hmid | hend
          · exact Or.inl hmid
          · right
            obtain ⟨bs, hbs, htook2⟩ := hend.took
            exact ⟨hend.fits, hend.unread, ⟨_, by rw [List.length_append]; omega, htook.trans htook2⟩,
              hend.last, hend.going, hend.nbLeftChunk⟩
  · rw [if_neg (Nat.ne_of_gt hleft)] at h ⊢
    exact readChunkData_inChunk hc hin.hdr hin.nbBuffer hin.going hleft hle hplace h

/-- On a healthy socket a call succeeds if the whole chunk is there. -/
theorem read_inChunk_healthy (hc : owner.chunked = true) (hs : src.skt.Healthy)
    (hpos : 0 < nbData) (hin : InChunk cap T k n r src) (hfits : k + 2 + n + 2 ≤ T.length) :
    (read owner r src nbData).err = none := by
  have hcap := (chunkAt_le hin.hdr).2.2
  have hk := (chunkAt_le hin.hdr).1
  rw [read_eq_readChunked hc hin.going, readChunked]
  rcases hin.place with ⟨hleft, hplace⟩ | ⟨hleft, hle, hplace⟩
  · have hdr := hin.hdr
    rw [← hin.nbBuffer, ← hplace] at hdr
    obtain ⟨src₁, hhdr⟩ := readChunkHeader_healthy hs hdr
    obtain ⟨k', hchunk, htook⟩ := readChunkHeader_ok hhdr
    rw [hdr] at hchunk
    cases hchunk
    have hcap1 : 2 ≤ src₁.buffer.nbBuffer := by rw [htook.nbBuffer, hin.nbBuffer]; omega
    have hlen : n + 2 ≤ src₁.unread.length := by
      rw [htook.unread_drop, hplace, List.length_drop]
      omega
    rw [if_pos hleft]
    simp only [hhdr]
    rcases Nat.eq_zero_or_pos n with rfl | hn
    · rw [readChunkData, if_pos rfl]
      exact finishChunk_healthy (htook.healthy hs) (by omega) hcap1
    · exact readChunkData_healthy (htook.healthy hs) (Nat.ne_of_gt hn) hn hpos hlen hcap1
  · rw [if_neg (Nat.ne_of_gt hleft)]
    refine readChunkData_healthy hs (hin.going.nbChunk hleft) hleft hpos ?_ ?_
    · rw [hplace, List.length_drop]
      omega
    · rw [hin.nbBuffer]
      omega

/-! ## Runs -/

/-- A chunk that is there is read to its end. -/
theorem reach_ended (hc : owner.chunked = true) (hpos : ∀ i, 0 < sizes i) {j : Nat}
    (hstop : (drain owner sizes j fresh src).stop = none)
    (hs : (drain owner sizes j fresh src).src.skt.Healthy)
    (hin : InChunk cap T k n (drain owner sizes j fresh src).reader
      (drain owner sizes j fresh src).src)
    (hfits : k + 2 + n + 2 ≤ T.length) :
    ∃ i, (drain owner sizes i fresh src).stop = none ∧
      (drain owner sizes i fresh src).src.skt.Healthy ∧
      InChunk cap T k n (drain owner sizes i fresh src).reader
        (drain owner sizes i fresh src).src ∧
      (read owner (drain owner sizes i fresh src).reader (drain owner sizes i fresh src).src
        (sizes i)).err = none ∧
      Ended T k n (drain owner sizes i fresh src).src
        (read owner (drain owner sizes i fresh src).reader (drain owner sizes i fresh src).src
          (sizes i)) := by
  induction hlen : (drain owner sizes j fresh src).src.unread.length using Nat.strong_induction_on
    generalizing j with
  | _ len ih =>
    have hread := read_inChunk_healthy hc hs (hpos j) hin hfits
    rcases read_inChunk hc hin hread with ⟨hmid, -⟩ | hend
    · obtain ⟨hstop', hreader, hsrc⟩ := drain_snoc hstop hread
      obtain ⟨_, _, _, _, _, heof, _⟩ | ⟨-, hbehind, -, -⟩ := read_chunked_ok hc hin.going hread
      · rw [hmid.going.isEof] at heof
        cases heof
      · rw [← hreader, ← hsrc] at hmid
        rw [← hsrc] at hbehind
        exact ih _ (by have := hbehind.lt; omega) hstop' (hbehind.healthy hs) hmid rfl
    · exact ⟨j, hstop, hs, hin, hread, hend⟩

/-- Every boundary is reached. -/
theorem reach_boundary (hc : owner.chunked = true) (hs : src.skt.Healthy)
    (hpos : ∀ i, 0 < sizes i) (hT : Boundary src.buffer.nbBuffer src.unread T) :
    ∃ i, (drain owner sizes i fresh src).stop = none ∧
      (drain owner sizes i fresh src).src.skt.Healthy ∧
      Going (drain owner sizes i fresh src).reader ∧
      (drain owner sizes i fresh src).reader.nbLeftChunk = 0 ∧
      (drain owner sizes i fresh src).src.buffer.nbBuffer = src.buffer.nbBuffer ∧
      (drain owner sizes i fresh src).src.unread = T := by
  induction hT with
  | start => exact ⟨0, rfl, hs, going_fresh, rfl, rfl, rfl⟩
  | next _ hdr pos fits ih =>
    obtain ⟨i, hstop, hs', hgo, hleft, hcap, hplace⟩ := ih
    obtain ⟨j, hstop, hs', hin, hread, hend⟩ :=
      reach_ended hc hpos hstop hs' ⟨hdr, hgo, hcap, Or.inl ⟨hleft, hplace⟩⟩ fits
    obtain ⟨hstop', hreader, hsrc⟩ := drain_snoc hstop hread
    obtain ⟨bs, -, htook⟩ := hend.took
    refine ⟨j + 1, hstop', ?_, ?_, ?_, ?_, ?_⟩
    · rw [hsrc]; exact htook.healthy hs'
    · rw [hreader]; exact hend.going pos
    · rw [hreader]; exact hend.nbLeftChunk
    · rw [hsrc, htook.nbBuffer]; exact hin.nbBuffer
    · rw [hsrc]; exact hend.unread

/-- The reader is at a boundary of `S`, or inside the chunk that starts at one. -/
def Within (cap : Nat) (S : Bytes) (r : SrsHttpResponseReader) (src : Source) : Prop :=
  ∃ T, Boundary cap S T ∧ Going r ∧ src.buffer.nbBuffer = cap ∧
    ((r.nbLeftChunk = 0 ∧ src.unread = T) ∨
      (0 < r.nbLeftChunk ∧ ∃ k n, InChunk cap T k n r src))

/-- A successful call has accepted the size line, if it was at one. -/
theorem Within.inChunk (hc : owner.chunked = true) (hw : Within cap S r src)
    (h : (read owner r src nbData).err = none) :
    ∃ T k n, Boundary cap S T ∧ InChunk cap T k n r src := by
  obtain ⟨T, hT, hgo, hcap, ⟨hleft, hplace⟩ | ⟨-, k, n, hin⟩⟩ := hw
  · rw [read_eq_readChunked hc hgo, readChunked, if_pos hleft] at h
    cases hhdr : readChunkHeader src with
    | mk res src₁ =>
      rw [hhdr] at h
      cases res with
      | error e => simp at h
      | ok n =>
        obtain ⟨k, hchunk, -⟩ := readChunkHeader_ok hhdr
        rw [hcap, hplace] at hchunk
        exact ⟨T, k, n, hT, hchunk, hgo, hcap, Or.inl ⟨hleft, hplace⟩⟩
  · exact ⟨T, k, n, hT, hin⟩

theorem within_step (hc : owner.chunked = true)
    (hw : r.isEof = true ∨ Within cap S r src) (h : (read owner r src nbData).err = none) :
    (read owner r src nbData).reader.isEof = true ∨
      Within cap S (read owner r src nbData).reader (read owner r src nbData).src := by
  rcases hw with heof | hw
  · rw [read_of_eof heof] at h
    cases h
  obtain ⟨T, k, n, hT, hin⟩ := hw.inChunk hc h
  rcases read_inChunk hc hin h with ⟨hmid, hleft⟩ | hend
  · exact Or.inr ⟨T, hT, hmid.going, hmid.nbBuffer, Or.inr ⟨hleft, k, n, hmid⟩⟩
  · rcases Nat.eq_zero_or_pos n with hn | hn
    · exact Or.inl (hend.last hn)
    · obtain ⟨bs, -, htook⟩ := hend.took
      exact Or.inr ⟨_, .next hT hin.hdr hn hend.fits, hend.going hn,
        htook.nbBuffer.trans hin.nbBuffer, Or.inl ⟨hend.nbLeftChunk, hend.unread⟩⟩

/-- Every state that is reached before the end lies within the input. -/
theorem reached_within (hc : owner.chunked = true) {i : Nat}
    (hstop : (drain owner sizes i fresh src).stop = none)
    (heof : (drain owner sizes i fresh src).reader.isEof = false) :
    Within src.buffer.nbBuffer src.unread (drain owner sizes i fresh src).reader
      (drain owner sizes i fresh src).src := by
  have hinv := drain_invariant
    (P := fun r s => r.isEof = true ∨ Within src.buffer.nbBuffer src.unread r s)
    (fun r s nbData hw h => within_step hc hw h) (r := fresh) (j := i)
    (Or.inr ⟨src.unread, .start, going_fresh, rfl, Or.inl ⟨rfl, rfl⟩⟩) hstop
  rcases hinv with h | h
  · rw [heof] at h
    cases h
  · exact h

/-! ## Soundness -/

/-- The reader accepts only what the grammar allows: at the end it has consumed a
chunked body and delivered its payloads; a size line is accepted only if it is
hexadecimal, and `nb_chunk` is then the number it denotes; and a chunk is ended
only by CRLF. -/
structure Sound (owner : BodyFraming) (sizes : Nat → Nat) (src : Source) : Prop where
  body : ∀ fuel, (drain owner sizes fuel fresh src).stop = some .httpResponseEof →
    ∃ wire, ChunkedBody wire (drain owner sizes fuel fresh src).data ∧
      src.unread = wire ++ (drain owner sizes fuel fresh src).src.unread
  sizeLine : ∀ i, (drain owner sizes i fresh src).stop = none →
    (drain owner sizes i fresh src).reader.isEof = false →
    (drain owner sizes i fresh src).reader.nbLeftChunk = 0 →
    ∀ n src', readChunkHeader (drain owner sizes i fresh src).src = (.ok n, src') →
      ∃ line, HexLine line n ∧ Took (drain owner sizes i fresh src).src (line ++ crlf) src'
  payload : ∀ i, (drain owner sizes i fresh src).stop = none →
    (drain owner sizes i fresh src).reader.isEof = false →
    (read owner (drain owner sizes i fresh src).reader (drain owner sizes i fresh src).src
      (sizes i)).err = none →
    (read owner (drain owner sizes i fresh src).reader (drain owner sizes i fresh src).src
      (sizes i)).reader.nbLeftChunk = 0 →
    ∃ bs, Took (drain owner sizes i fresh src).src (bs ++ crlf)
      (read owner (drain owner sizes i fresh src).reader (drain owner sizes i fresh src).src
        (sizes i)).src

/-- The last two of some bytes in front of a place in the string. -/
theorem prefix_drop_iff {m : Nat} {T X bs eol : Bytes} (hT : T = X ++ bs ++ T.drop (m + 2))
    (hm : m + 2 ≤ T.length) (h2 : 2 ≤ bs.length) (heol : eol.length = 2) :
    eol <+: T.drop m ↔ ∃ bs', bs = bs' ++ eol := by
  have hlen := congrArg List.length hT
  simp only [List.length_append, List.length_drop] at hlen
  have hdrop : T.drop m = bs.drop (bs.length - 2) ++ T.drop (m + 2) := by
    conv_lhs => rw [hT]
    rw [List.append_assoc, List.drop_append, List.drop_eq_nil_of_le (by omega), List.nil_append,
      List.drop_append_of_le_length (by omega)]
    congr 2
    omega
  constructor
  · intro h
    rw [hdrop] at h
    have heq : eol = bs.drop (bs.length - 2) := by
      have := List.prefix_of_prefix_length_le h (List.prefix_append _ _)
        (by rw [List.length_drop]; omega)
      exact this.eq_of_length (by rw [List.length_drop]; omega)
    exact ⟨bs.take (bs.length - 2), by rw [heq, List.take_append_drop]⟩
  · rintro ⟨bs', rfl⟩
    rw [hdrop, List.length_append, heol, Nat.add_sub_cancel, List.drop_left]
    exact List.prefix_append _ _

/-- What an ended chunk has in front of the next one. -/
theorem Ended.crlf_iff {res : ReadResult} (h : Ended T k n src res) (hsuf : src.unread <:+ T) :
    crlf <+: T.drop (k + 2 + n) ↔ ∃ bs, Took src (bs ++ crlf) res.src := by
  obtain ⟨bs, hbs, htook⟩ := h.took
  obtain ⟨X, hX⟩ := hsuf
  have hT : T = X ++ bs ++ T.drop (k + 2 + n + 2) := by
    rw [← h.unread, List.append_assoc, ← htook.unread, hX]
  rw [prefix_drop_iff hT h.fits hbs crlf_length]
  constructor
  · rintro ⟨bs', rfl⟩
    exact ⟨bs', htook⟩
  · rintro ⟨bs', htook'⟩
    have := htook.unread.symm.trans htook'.unread
    exact ⟨bs', List.append_cancel_right this⟩

/-- **Strict inputs are read soundly.** -/
theorem sound_of_strict (hc : owner.chunked = true) (hs : src.skt.Healthy)
    (hstrict : ∀ T, Boundary src.buffer.nbBuffer src.unread T → Strict src.buffer.nbBuffer T) :
    Sound owner sizes src where
  body := by
    intro fuel hstop
    exact (continues_zero.1 (drain_sound hc hs going_fresh hstop)).chunkedBody hstrict
  sizeLine := by
    intro i hstop heof hleft n src' hhdr
    obtain ⟨T, hT, -, hcap, ⟨-, hplace⟩ | ⟨hleft', -⟩⟩ := reached_within hc hstop heof
    · obtain ⟨k, hchunk, htook⟩ := readChunkHeader_ok hhdr
      rw [hcap, hplace] at hchunk
      refine ⟨T.take k, (hstrict T hT).hexLine hchunk, ?_⟩
      have htake : T.take (k + 2) = T.take k ++ crlf := by
        conv_lhs => rw [(split_chunkAt hchunk).2]
        have := (chunkAt_le hchunk).2.1
        rw [List.take_left' (by rw [List.length_append, List.length_take, crlf_length]; omega)]
      rwa [hplace, htake] at htook
    · omega
  payload := by
    intro i hstop heof hread hleft
    obtain ⟨T, k, n, hT, hin⟩ := (reached_within hc hstop heof).inChunk hc hread
    rcases read_inChunk hc hin hread with ⟨-, hleft'⟩ | hend
    · omega
    · exact (hend.crlf_iff hin.suffix).1 ((hstrict T hT k n hin.hdr).2.2 hend.fits)

/-- **Only strict inputs are read soundly.** -/
theorem Sound.strict (h : Sound owner sizes src) (hc : owner.chunked = true) (hs : src.skt.Healthy)
    (hpos : ∀ i, 0 < sizes i) (hT : Boundary src.buffer.nbBuffer src.unread T) :
    Strict src.buffer.nbBuffer T := by
  intro k n hdr
  obtain ⟨i, hstop, hs', hgo, hleft, hcap, hplace⟩ := reach_boundary hc hs hpos hT
  have hdr' := hdr
  rw [← hcap, ← hplace] at hdr'
  obtain ⟨src', hhdr⟩ := readChunkHeader_healthy hs' hdr'
  obtain ⟨line, hline, htook⟩ := h.sizeLine i hstop hgo.isEof hleft n src' hhdr
  obtain ⟨k', hchunk, htook'⟩ := readChunkHeader_ok hhdr
  rw [hdr'] at hchunk
  cases hchunk
  have hk : line = T.take k := by
    have heq := List.append_cancel_right (htook.unread.symm.trans htook'.unread)
    rw [hplace] at heq
    have hlen := congrArg List.length heq
    have := (chunkAt_le hdr).2.1
    rw [List.length_append, crlf_length, List.length_take] at hlen
    have := congrArg (List.take k) heq
    rwa [List.take_left' (by omega), List.take_take, Nat.min_eq_left (by omega)] at this
  subst hk
  refine ⟨hline.plainStart, ?_, ?_⟩
  · rw [hline.value]
    exact chunkSize_lt (chunkAt_eq_some_iff.1 hdr).2
  · intro hfits
    obtain ⟨j, hstop, -, hin, hread, hend⟩ :=
      reach_ended hc hpos hstop hs' ⟨hdr, hgo, hcap, Or.inl ⟨hleft, hplace⟩⟩ hfits
    exact (hend.crlf_iff hin.suffix).2
      (h.payload j hstop hin.going.isEof hread hend.nbLeftChunk)

/-- **Soundness of the chunked reader.**  For every fragmentation and all read
sizes, the reader is sound on an input if and only if the input is strict at
every boundary. -/
theorem sound_iff_strict (hc : owner.chunked = true) (hs : src.skt.Healthy)
    (hpos : ∀ i, 0 < sizes i) :
    Sound owner sizes src ↔
      ∀ T, Boundary src.buffer.nbBuffer src.unread T → Strict src.buffer.nbBuffer T :=
  ⟨fun h _ hT => h.strict hc hs hpos hT, sound_of_strict hc hs⟩

/-- A body that arrives in two pieces. -/
theorem sound_iff_strict_abc :
    Sound ⟨true, -1⟩ (fun _ => 4096)
        ⟨SrsFastStream.mk0, [.data (str "3\r\nab"), .data (str "c\r\n0\r\n\r\n")]⟩ ↔
      ∀ T, Boundary 131072 (str "3\r\nabc\r\n0\r\n\r\n") T → Strict 131072 T :=
  sound_iff_strict rfl (by simp) (fun _ => by decide)

/-- `0x3` is accepted as a size line. -/
theorem not_sound_hex_prefix :
    ¬ Sound ⟨true, -1⟩ (fun _ => 4096)
      ⟨SrsFastStream.mk0, [.data (str "0x3\r\nabc\r\n0\r\n\r\n")]⟩ := by
  intro h
  have hstrict := h.strict rfl (by simp) (fun _ => by decide) .start
  obtain ⟨hplain, -⟩ := hstrict 3 3 (by decide)
  have h0x : PlainStart (48 :: 120 :: [51]) := hplain
  exact h0x.2.2.2 ⟨rfl, Or.inl rfl⟩

end Run

end SrsHttpResponseReader

end HttpProxy
