import HttpProxy.Body.Soundness

/-!
# Chunked bodies as RFC 7230 has them

Section 4.1 of the RFC allows more than the writer produces: chunk extensions
behind a size, and header fields behind the last chunk.  The reader knows
neither: `strtol` stops at the `;` of an extension and the line is rejected, and
the two bytes behind the last size line are taken for the end of the body, so
that the rest of a trailer is left in front of the next message.  And a size line
has to fit the buffer.

* `Rfc.Body` — the chunked bodies of the RFC, with their payload and their bytes.
* `Rfc.Body.decodes_iff` — which of them are decoded.
* `drain_rfc_iff` — which of them the reader delivers, for every fragmentation
  and all read sizes.
-/

namespace HttpProxy

namespace Rfc

open SrsHttpResponseReader

/-! ## The grammar -/

/-- `tchar`. -/
def isTchar (b : Byte) : Bool :=
  (48 ≤ b && b ≤ 57) || (65 ≤ b && b ≤ 90) || (97 ≤ b && b ≤ 122) ||
    (str "!#$%&'*+-.^_\x60|~").contains b

/-- `token`. -/
def Token (s : Bytes) : Prop := s ≠ [] ∧ ∀ b ∈ s, isTchar b = true

/-- The bytes of a field value or of a quoted string: no control character but a
tab. -/
def isText (b : Byte) : Bool := b == 9 || (32 ≤ b && b ≠ 127)

/-- The inside of a quoted string: `qdtext` and `quoted-pair`. -/
inductive QuotedText : Bytes → Prop
  | nil : QuotedText []
  | qdtext {b : Byte} {s : Bytes} (hb : isText b = true ∧ b ≠ 34 ∧ b ≠ 92) (hs : QuotedText s) :
      QuotedText (b :: s)
  | pair {b : Byte} {s : Bytes} (hb : isText b = true) (hs : QuotedText s) :
      QuotedText (92 :: b :: s)

/-- `chunk-ext-val`, a token or a quoted string. -/
inductive ExtVal : Bytes → Prop
  | token {s : Bytes} (h : Token s) : ExtVal s
  | quoted {s : Bytes} (h : QuotedText s) : ExtVal (34 :: s ++ [34])

/-- `chunk-ext`: any number of names, each behind a `;` and with an optional value. -/
inductive ChunkExt : Bytes → Prop
  | nil : ChunkExt []
  | name {n e : Bytes} (hn : Token n) (he : ChunkExt e) : ChunkExt (59 :: n ++ e)
  | value {n v e : Bytes} (hn : Token n) (hv : ExtVal v) (he : ChunkExt e) :
      ChunkExt (59 :: n ++ 61 :: v ++ e)

/-- A field value with the white space around it; it may be folded. -/
inductive FieldValue : Bytes → Prop
  | nil : FieldValue []
  | text {b : Byte} {s : Bytes} (hb : isText b = true) (hs : FieldValue s) : FieldValue (b :: s)
  | fold {b : Byte} {s : Bytes} (hb : b = 32 ∨ b = 9) (hs : FieldValue s) :
      FieldValue (crlf ++ b :: s)

/-- A field of the trailer, without its line end. -/
def TrailerField (f : Bytes) : Prop :=
  ∃ name value, Token name ∧ FieldValue value ∧ f = name ++ 58 :: value

/-- A chunk: the size line, its extensions, and the data. -/
structure Chunk where
  size : Bytes
  ext : Bytes
  data : Bytes
  hsize : HexLine size data.length
  hext : ChunkExt ext
  hne : data ≠ []
  hlt : data.length < 2 ^ 31

/-- A chunked body. -/
structure Body where
  chunks : List Chunk
  /-- The size line of the last chunk. -/
  zeros : Bytes
  ext : Bytes
  trailer : List Bytes
  hzeros : zeros ≠ [] ∧ ∀ b ∈ zeros, b = 48
  hext : ChunkExt ext
  htrailer : ∀ f ∈ trailer, TrailerField f

/-- The bytes of a chunk. -/
def Chunk.wire (c : Chunk) : Bytes := c.size ++ c.ext ++ crlf ++ c.data ++ crlf

/-- The bytes of the trailer. -/
def trailerWire (fs : List Bytes) : Bytes := fs.flatMap fun f => f ++ crlf

/-- The bytes of the body from the last chunk on. -/
def Body.lastWire (b : Body) : Bytes := b.zeros ++ b.ext ++ crlf ++ trailerWire b.trailer ++ crlf

/-- The bytes of the body. -/
def Body.wire (b : Body) : Bytes := b.chunks.flatMap Chunk.wire ++ b.lastWire

/-- What the body carries. -/
def Body.payload (b : Body) : Bytes := b.chunks.flatMap Chunk.data

/-- The bodies the reader understands: without extensions and trailer, and with
size lines that fit a buffer of `cap` bytes. -/
structure Body.Plain (b : Body) (cap : Nat) : Prop where
  noExt : b.ext = [] ∧ ∀ c ∈ b.chunks, c.ext = []
  noTrailer : b.trailer = []
  fits : b.zeros.length + 2 ≤ cap ∧ ∀ c ∈ b.chunks, c.size.length + 2 ≤ cap

/-! ## Size lines with extensions -/

theorem token_ne_CR {s : Bytes} (h : Token s) : CR ∉ s := fun hc =>
  absurd (h.2 CR hc) (by decide)

theorem quotedText_ne_CR {s : Bytes} (h : QuotedText s) : CR ∉ s := by
  induction h with
  | nil => simp
  | qdtext hb _ ih =>
    rintro (_ | ⟨_, hc⟩)
    · exact absurd hb.1 (by decide)
    · exact ih hc
  | pair hb _ ih =>
    rintro (_ | ⟨_, _ | ⟨_, hc⟩⟩)
    · exact absurd hb (by decide)
    · exact ih hc

theorem extVal_ne_CR {s : Bytes} (h : ExtVal s) : CR ∉ s := by
  cases h with
  | token h => exact token_ne_CR h
  | quoted h =>
    intro hc
    simp only [List.cons_append, List.mem_cons, List.mem_append, List.not_mem_nil, or_false] at hc
    rcases hc with hc | hc | hc
    · exact absurd hc (by decide)
    · exact quotedText_ne_CR h hc
    · exact absurd hc (by decide)

/-- An extension does not contain a line end. -/
theorem chunkExt_ne_CR {s : Bytes} (h : ChunkExt s) : CR ∉ s := by
  induction h with
  | nil => simp
  | name hn _ ih =>
    intro hc
    rw [List.mem_append, List.mem_cons] at hc
    rcases hc with (hc | hc) | hc
    · exact absurd hc (by decide)
    · exact token_ne_CR hn hc
    · exact ih hc
  | value hn hv _ ih =>
    intro hc
    simp only [List.mem_append, List.mem_cons] at hc
    rcases hc with ((hc | hc) | hc | hc) | hc
    · exact absurd hc (by decide)
    · exact token_ne_CR hn hc
    · exact absurd hc (by decide)
    · exact extVal_ne_CR hv hc
    · exact ih hc

/-- An extension that is not empty starts with a `;`. -/
theorem chunkExt_head {s : Bytes} (h : ChunkExt s) : s = [] ∨ ∃ t, s = 59 :: t := by
  cases h with
  | nil => exact Or.inl rfl
  | name => exact Or.inr ⟨_, rfl⟩
  | @value n v e => exact Or.inr ⟨n ++ 61 :: v ++ e, rfl⟩

/-- A size line is accepted only without an extension. -/
theorem ext_nil_of_chunkSize_ok {size ext : Bytes} {n m : Nat} (hsize : HexLine size n)
    (hext : ChunkExt ext) (h : chunkSize (size ++ ext) = .ok m) : ext = [] := by
  rcases chunkExt_head hext with hnil | ⟨t, rfl⟩
  · exact hnil
  · exfalso
    obtain ⟨b, s, rfl⟩ := List.exists_cons_of_ne_nil hsize.ne_nil
    have hplain : PlainStart (b :: s ++ 59 :: t) := by
      have h1 := hsize.plainStart
      cases s with
      | nil => exact ⟨h1.1, h1.2.1, h1.2.2, by rintro ⟨-, hc | hc⟩ <;> exact absurd hc (by decide)⟩
      | cons x s => exact h1
    have htake : (b :: s ++ 59 :: t).takeWhile isXDigit = b :: s := by
      rw [List.takeWhile_append_of_pos hsize.digits]
      simp [List.takeWhile, show isXDigit 59 = false by decide]
    have hlen := (chunkSize_ok h).1
    rw [strtol_plainStart hplain, htake, List.length_append, List.length_cons (a := 59)] at hlen
    omega

/-- What it takes for the size line to be read as a chunk header. -/
theorem chunkAt_rfc_iff {cap n k m : Nat} {size ext rest : Bytes} (hsize : HexLine size n)
    (hn : n < 2 ^ 31) (hext : ChunkExt ext) :
    chunkAt cap (size ++ ext ++ crlf ++ rest) = some (k, m) ↔
      ext = [] ∧ size.length + 2 ≤ cap ∧ k = size.length ∧ m = n := by
  have hcr : CR ∉ size ++ ext := by
    rw [List.mem_append, not_or]
    exact ⟨hsize.notMem_CR, chunkExt_ne_CR hext⟩
  constructor
  · intro h
    obtain ⟨hline, hsz⟩ := chunkAt_eq_some_iff.1 h
    obtain ⟨hfind, -, hcap⟩ := sizeLineAt_eq_some_iff.1 hline
    have hk : (size ++ ext).length = k := by
      have hfirst : findSub crlf (size ++ ext ++ crlf ++ rest) = some (size ++ ext).length :=
        findSub_of_head_notMem hcr
      exact Option.some.inj (hfirst.symm.trans hfind)
    subst hk
    rw [List.append_assoc, List.take_left] at hsz
    have hnil := ext_nil_of_chunkSize_ok hsize hext hsz
    subst hnil
    rw [List.append_nil] at hsz hcap ⊢
    rw [chunkSize_hexLine hsize hn] at hsz
    exact ⟨rfl, hcap, rfl, (Except.ok.inj hsz).symm⟩
  · rintro ⟨rfl, hcap, rfl, rfl⟩
    rw [List.append_nil]
    exact chunkAt_hexLine hsize hn hcap

/-! ## Decoding a body -/

theorem digitsValue_zeros {s : Bytes} (h : ∀ b ∈ s, b = 48) : digitsValue 16 s = 0 := by
  induction s using List.reverseRecOn with
  | nil => rfl
  | append_singleton s b ih =>
    rw [digitsValue_append, ih fun b hb => h b (by simp [hb]), h b (by simp)]
    rfl

/-- Digits that denote 0 are all zeros. -/
theorem zeros_of_digitsValue {s : Bytes} (hs : ∀ b ∈ s, isXDigit b = true) (h : digitsValue 16 s = 0) :
    ∀ b ∈ s, b = 48 := by
  induction s using List.reverseRecOn with
  | nil => simp
  | append_singleton s b ih =>
    rw [digitsValue_append] at h
    have hb : b = 48 := by
      have hx := hs b (by simp)
      have hv : (digitVal b).getD 0 = 0 := by omega
      unfold isXDigit isDigitIn at hx
      unfold digitVal at hv hx
      refine UInt8.toNat_inj.1 (show b.toNat = 48 from ?_)
      split_ifs at hv hx with h1 h2 h3
      all_goals simp only [Option.getD_some] at hv
      all_goals omega
    intro c hc
    rcases List.mem_append.1 hc with hc | hc
    · exact ih (fun b hb => hs b (by simp [hb])) (by omega) c hc
    · rw [List.mem_singleton.1 hc, hb]

theorem Body.hexLine_zeros (b : Body) : HexLine b.zeros 0 :=
  ⟨b.hzeros.1, fun c hc => by rw [b.hzeros.2 c hc]; decide, digitsValue_zeros b.hzeros.2⟩

/-- A decoded string has a chunk header at its front. -/
theorem chunkAt_of_decodes {cap : Nat} {S p T : Bytes} (h : Decodes cap S p T) :
    ∃ k n, chunkAt cap S = some (k, n) := by
  cases h with
  | last hdr _ => exact ⟨_, _, hdr⟩
  | chunk hdr _ _ _ => exact ⟨_, _, hdr⟩

/-- A trailer with a field is not empty. -/
theorem trailerWire_eq_nil_iff {fs : List Bytes} : trailerWire fs = [] ↔ fs = [] := by
  constructor
  · intro h
    cases fs with
    | nil => rfl
    | cons f fs =>
      have := congrArg List.length h
      simp only [trailerWire, List.flatMap_cons, List.length_append, crlf_length,
        List.length_nil] at this
      omega
  · rintro rfl
    rfl

/-- The end of a body. -/
theorem Body.decodes_last_iff (b : Body) {cap : Nat} {p T : Bytes} :
    Decodes cap (b.lastWire ++ T) p T ↔
      p = [] ∧ b.ext = [] ∧ b.trailer = [] ∧ b.zeros.length + 2 ≤ cap := by
  have hwire : b.lastWire ++ T =
      b.zeros ++ b.ext ++ crlf ++ (trailerWire b.trailer ++ crlf ++ T) := by
    simp only [Body.lastWire, List.append_assoc]
  rw [hwire]
  constructor
  · intro h
    obtain ⟨k, n, hdr⟩ := chunkAt_of_decodes h
    obtain ⟨hext, hcap, rfl, rfl⟩ := (chunkAt_rfc_iff b.hexLine_zeros (by decide) b.hext).1 hdr
    rw [decodes_zero_iff hdr] at h
    obtain ⟨-, rfl, hT⟩ := h
    refine ⟨rfl, hext, ?_, hcap⟩
    have hlen := congrArg List.length hT
    simp only [hext, List.length_drop, List.length_append, crlf_length, List.length_nil] at hlen
    rw [← trailerWire_eq_nil_iff, ← List.length_eq_zero_iff]
    omega
  · rintro ⟨rfl, hext, htrailer, hcap⟩
    have hdr := (@chunkAt_rfc_iff cap _ _ _ _ _ (trailerWire b.trailer ++ crlf ++ T)
      b.hexLine_zeros (by decide) b.hext).2 ⟨hext, hcap, rfl, rfl⟩
    rw [hext, htrailer, List.append_nil] at hdr ⊢
    simp only [trailerWire, List.flatMap_nil, List.nil_append] at hdr ⊢
    rw [← List.append_assoc] at hdr ⊢
    exact (SrsHttpResponseReader.decodes_last_iff hdr crlf_length).2 ⟨rfl, rfl⟩

/-- A chunk of a body. -/
theorem Chunk.decodes_iff (c : Chunk) {cap : Nat} {S p T : Bytes} :
    Decodes cap (c.wire ++ S) p T ↔
      c.ext = [] ∧ c.size.length + 2 ≤ cap ∧ ∃ q, p = c.data ++ q ∧ Decodes cap S q T := by
  have hwire : c.wire ++ S = c.size ++ c.ext ++ crlf ++ (c.data ++ crlf ++ S) := by
    simp only [Chunk.wire, List.append_assoc]
  have hiff : ∀ k n, chunkAt cap (c.wire ++ S) = some (k, n) ↔
      c.ext = [] ∧ c.size.length + 2 ≤ cap ∧ k = c.size.length ∧ n = c.data.length := by
    intro k n
    rw [hwire]
    exact chunkAt_rfc_iff c.hsize c.hlt c.hext
  have hplain : c.ext = [] → c.wire ++ S = c.size ++ crlf ++ c.data ++ crlf ++ S := by
    intro hext
    rw [Chunk.wire, hext, List.append_nil]
  constructor
  · intro h
    obtain ⟨k, n, hdr⟩ := chunkAt_of_decodes h
    obtain ⟨hext, hcap, rfl, rfl⟩ := (hiff k n).1 hdr
    rw [hplain hext] at h hdr
    exact ⟨hext, hcap, (decodes_chunk_iff hdr c.hne crlf_length).1 h⟩
  · rintro ⟨hext, hcap, hq⟩
    have hdr := (hiff _ _).2 ⟨hext, hcap, rfl, rfl⟩
    rw [hplain hext] at hdr ⊢
    exact (decodes_chunk_iff hdr c.hne crlf_length).2 hq

/-- The chunks of a body, one after the other. -/
theorem decodes_chunks_iff {cap : Nat} {cs : List Chunk} {S p T : Bytes} :
    Decodes cap (cs.flatMap Chunk.wire ++ S) (cs.flatMap Chunk.data ++ p) T ↔
      (∀ c ∈ cs, c.ext = [] ∧ c.size.length + 2 ≤ cap) ∧ Decodes cap S p T := by
  induction cs with
  | nil => simp
  | cons c cs ih =>
    rw [List.flatMap_cons, List.flatMap_cons, List.append_assoc, List.append_assoc,
      Chunk.decodes_iff, List.forall_mem_cons]
    simp only [List.append_cancel_left_eq, exists_eq_left', ih]
    tauto

/-- **Which bodies are decoded**: those without extensions and trailer whose size
lines fit the buffer. -/
theorem Body.decodes_iff (b : Body) {cap : Nat} {T : Bytes} :
    Decodes cap (b.wire ++ T) b.payload T ↔ b.Plain cap := by
  have h := @decodes_chunks_iff cap b.chunks (b.lastWire ++ T) [] T
  rw [List.append_nil, ← List.append_assoc] at h
  rw [Body.wire, Body.payload, h, b.decodes_last_iff]
  constructor
  · rintro ⟨hcs, -, hext, htrailer, hcap⟩
    exact ⟨⟨hext, fun c hc => (hcs c hc).1⟩, htrailer, hcap, fun c hc => (hcs c hc).2⟩
  · rintro ⟨⟨hext, hexts⟩, htrailer, hcap, hcaps⟩
    exact ⟨fun c hc => ⟨hexts c hc, hcaps c hc⟩, rfl, hext, htrailer, hcap⟩

/-- The bodies that are read to their end: the reader sees no extension, and every size line fits. -/
structure Body.Understood (b : Body) (cap : Nat) : Prop where
  noExt : b.ext = [] ∧ ∀ c ∈ b.chunks, c.ext = []
  fits : b.zeros.length + 2 ≤ cap ∧ ∀ c ∈ b.chunks, c.size.length + 2 ≤ cap

/-- Chunks that are decoded with what follows them. -/
theorem chunks_of_decodes {cap : Nat} {cs : List Chunk} {S p T : Bytes}
    (h : Decodes cap (cs.flatMap Chunk.wire ++ S) p T) :
    (∀ c ∈ cs, c.ext = [] ∧ c.size.length + 2 ≤ cap) ∧
      ∃ q, p = cs.flatMap Chunk.data ++ q ∧ Decodes cap S q T := by
  induction cs generalizing p with
  | nil => exact ⟨by simp, p, rfl, h⟩
  | cons c cs ih =>
    rw [List.flatMap_cons, List.append_assoc, Chunk.decodes_iff] at h
    obtain ⟨hext, hfits, q, rfl, hq⟩ := h
    obtain ⟨hcs, q', rfl, hrest⟩ := ih hq
    exact ⟨List.forall_mem_cons.2 ⟨⟨hext, hfits⟩, hcs⟩, q', by rw [List.flatMap_cons, List.append_assoc], hrest⟩

/-- A body of the RFC that is decoded has been understood, whatever is taken for its end. -/
theorem Body.understood_of_decodes (b : Body) {cap : Nat} {p T T' : Bytes}
    (h : Decodes cap (b.wire ++ T) p T') : b.Understood cap ∧ p = b.payload := by
  rw [Body.wire, List.append_assoc] at h
  obtain ⟨hcs, q, rfl, hlast⟩ := chunks_of_decodes h
  rw [show b.lastWire ++ T = b.zeros ++ b.ext ++ crlf ++ (trailerWire b.trailer ++ crlf ++ T) by
    simp only [Body.lastWire, List.append_assoc]] at hlast
  obtain ⟨k, n, hdr⟩ := chunkAt_of_decodes hlast
  obtain ⟨hext, hcap, rfl, rfl⟩ := (chunkAt_rfc_iff b.hexLine_zeros (by decide) b.hext).1 hdr
  rw [decodes_zero_iff hdr] at hlast
  obtain ⟨-, rfl, -⟩ := hlast
  exact ⟨⟨⟨hext, fun c hc => (hcs c hc).1⟩, hcap, fun c hc => (hcs c hc).2⟩, by rw [List.append_nil, Body.payload]⟩

/-- **Completeness of the chunked reader.**  For every body of the RFC, followed by
any bytes, for every fragmentation and all read sizes: the reader delivers the
payload and the end and leaves the bytes that follow, if and only if the body has
no chunk extension and no trailer field and its size lines fit the buffer. -/
theorem drain_rfc_iff (b : Body) {T : Bytes} {owner : BodyFraming} {src : Source}
    {sizes : Nat → Nat} (hc : owner.chunked = true) (hs : src.skt.Healthy)
    (hpos : ∀ i, 0 < sizes i) (hbuf : src.buffer.nbBuffer = SRS_DEFAULT_RECV_BUFFER_SIZE)
    (hunread : src.unread = b.wire ++ T) :
    (∃ fuel, (drain owner sizes fuel fresh src).stop = some .httpResponseEof ∧
      (drain owner sizes fuel fresh src).data = b.payload ∧
      (drain owner sizes fuel fresh src).src.unread = T) ↔
    b.Plain SRS_DEFAULT_RECV_BUFFER_SIZE := by
  rw [drain_iff_decodes hc hs hpos (by rw [hbuf]; decide), hunread, hbuf]
  exact b.decodes_iff

/-- A body of one chunk, `abc`. -/
def abcBody (ext : Bytes) (hext : ChunkExt ext) : Body :=
  ⟨[⟨str "3", ext, str "abc", ⟨by decide, List.all_iff_forall_prop.1 rfl, by decide⟩, hext, by decide, by decide⟩],
    str "0", [], [], ⟨by decide, List.all_iff_forall_prop.1 rfl⟩, .nil, by simp⟩

/-- The chunk without an extension, with the start of another message behind it. -/
theorem drain_rfc_iff_abc :
    (∃ fuel, (drain ⟨true, -1⟩ (fun _ => 4096) fuel fresh
        ⟨SrsFastStream.mk0, [.data (str "3\r\nab"), .data (str "c\r\n0\r\n\r\nGET")]⟩).stop
          = some .httpResponseEof ∧
      (drain ⟨true, -1⟩ (fun _ => 4096) fuel fresh
        ⟨SrsFastStream.mk0, [.data (str "3\r\nab"), .data (str "c\r\n0\r\n\r\nGET")]⟩).data
          = str "abc" ∧
      (drain ⟨true, -1⟩ (fun _ => 4096) fuel fresh
        ⟨SrsFastStream.mk0, [.data (str "3\r\nab"),
          .data (str "c\r\n0\r\n\r\nGET")]⟩).src.unread = str "GET") ↔
      (abcBody [] .nil).Plain SRS_DEFAULT_RECV_BUFFER_SIZE :=
  drain_rfc_iff (abcBody [] .nil) rfl (by simp) (fun _ => by decide) rfl (by decide)

/-- The chunk with the extension `;a`, which is not delivered. -/
theorem not_drain_rfc_ext :
    ∃ (b : Body) (src : Source), src.skt.Healthy ∧ src.unread = b.wire ∧
      src.buffer = SrsFastStream.mk0 ∧
      ¬ ∃ fuel, (drain ⟨true, -1⟩ (fun _ => 4096) fuel fresh src).stop = some .httpResponseEof ∧
        (drain ⟨true, -1⟩ (fun _ => 4096) fuel fresh src).data = b.payload ∧
        (drain ⟨true, -1⟩ (fun _ => 4096) fuel fresh src).src.unread = [] := by
  have hext : ChunkExt (59 :: str "a" ++ []) := .name ⟨by decide, List.all_iff_forall_prop.1 rfl⟩ .nil
  have hwire : ∀ w, (Source.mk SrsFastStream.mk0 [.data w]).unread = w := by
    intro w
    simp [Source.unread, SrsFastStream.unread, SrsFastStream.mk0]
  refine ⟨abcBody _ hext, ⟨SrsFastStream.mk0, [.data (abcBody _ hext).wire]⟩, by simp,
    hwire _, rfl, ?_⟩
  rw [drain_iff_decodes rfl (by simp) (fun _ => by decide)
    (show 2 ≤ SrsFastStream.mk0.nbBuffer by decide), hwire, ← List.append_nil (abcBody _ hext).wire,
    Body.decodes_iff]
  rintro ⟨⟨-, hexts⟩, -, -⟩
  have hnil := hexts _ (List.mem_singleton.2 rfl)
  exact List.cons_ne_nil _ _ hnil

end Rfc

end HttpProxy
