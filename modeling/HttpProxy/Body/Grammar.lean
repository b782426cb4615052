import HttpProxy.Body.Decode

/-!
# Well-formed chunked bodies

The chunked transfer coding without extensions and trailers, as a grammar, and
how the decoder reads it.

* `HexLine` — a size line of hexadecimal digits and the number it denotes.
* `ChunkedBody wire p` — `wire` is a sequence of chunks ended by a zero chunk, and
  `p` are the payloads.
* `chunkAt_hexLine` — the decoder reads a hexadecimal size line below `2 ^ 31`
  correctly.
* `decodes_chunk_iff`, `decodes_last_iff` — one chunk at the front of a string.
* `ChunkedBody.behind_line` — what stands behind the first line of a body.
* `ChunkedBody.length_le` — a body takes at least five bytes more than its payload,
  and ten when it has one.
-/

namespace HttpProxy

namespace SrsHttpResponseReader

/-- A size line: one or more hexadecimal digits, denoting `n`. -/
structure HexLine (line : Bytes) (n : Nat) : Prop where
  ne_nil : line ≠ []
  digits : ∀ b ∈ line, isXDigit b = true
  value : digitsValue 16 line = n

/-- A well-formed sequence of chunks, ended by a zero chunk. -/
inductive ChunkedBody : Bytes → Bytes → Prop
  | last {line : Bytes} (hline : HexLine line 0) : ChunkedBody (line ++ crlf ++ crlf) []
  | chunk {line data wire p : Bytes} (hline : HexLine line data.length) (hne : data ≠ [])
      (rest : ChunkedBody wire p) :
      ChunkedBody (line ++ crlf ++ data ++ crlf ++ wire) (data ++ p)

theorem HexLine.notMem_CR {line : Bytes} {n : Nat} (h : HexLine line n) : CR ∉ line := by
  intro hc
  have := h.digits CR hc
  exact absurd this (by decide)

/-- The line is found, however the string goes on. -/
theorem sizeLineAt_of_notMem {cap : Nat} {line rest : Bytes} (hne : line ≠ []) (hcr : CR ∉ line)
    (hcap : line.length + 2 ≤ cap) : sizeLineAt cap (line ++ crlf ++ rest) = some line.length :=
  sizeLineAt_eq_some_iff.2
    ⟨findSub_of_head_notMem hcr, List.length_pos_of_ne_nil hne, hcap⟩

theorem chunkSize_hexLine {line : Bytes} {n : Nat} (h : HexLine line n) (hn : n < 2 ^ 31) :
    chunkSize line = .ok n := by
  have h1 : clampLong (n : Int) = n := clampLong_eq_self (by omega) (by omega)
  have h2 : toInt32 (n : Int) = n := toInt32_eq_self (by omega) (by omega)
  rw [chunkSize, strtol_digits h.ne_nil h.digits]
  simp only [h.value, h1, h2]
  rw [if_neg]
  · simp
  · simp

/-- The decoder reads a size line below `2 ^ 31` that fits the buffer. -/
theorem chunkAt_hexLine {cap n : Nat} {line rest : Bytes} (h : HexLine line n) (hn : n < 2 ^ 31)
    (hcap : line.length + 2 ≤ cap) :
    chunkAt cap (line ++ crlf ++ rest) = some (line.length, n) := by
  refine chunkAt_eq_some_iff.2 ⟨sizeLineAt_of_notMem h.ne_nil h.notMem_CR hcap, ?_⟩
  rw [List.append_assoc, List.take_left]
  exact chunkSize_hexLine h hn

/-- A chunk at the front, whatever the two bytes behind the payload are. -/
theorem decodes_chunk_iff {cap : Nat} {line data eol rest p T : Bytes}
    (hdr : chunkAt cap (line ++ crlf ++ data ++ eol ++ rest) = some (line.length, data.length))
    (hne : data ≠ []) (heol : eol.length = 2) :
    Decodes cap (line ++ crlf ++ data ++ eol ++ rest) p T ↔
      ∃ q, p = data ++ q ∧ Decodes cap rest q T := by
  have hpos : 0 < data.length := List.length_pos_of_ne_nil hne
  have hdrop : (line ++ crlf ++ data ++ eol ++ rest).drop (line.length + 2) = data ++ (eol ++ rest) := by
    rw [List.append_assoc, List.append_assoc, List.drop_left' (by simp)]
  rw [continues_header hdr hpos, hdrop, continues_pos hpos, List.take_left,
    ← List.append_assoc, List.drop_left' (by simp [heol])]
  refine and_iff_right ?_
  simp only [List.length_append, heol]
  omega

/-- The zero chunk at the front, whatever the two bytes behind it are. -/
theorem decodes_last_iff {cap : Nat} {line eol rest p T : Bytes}
    (hdr : chunkAt cap (line ++ crlf ++ eol ++ rest) = some (line.length, 0))
    (heol : eol.length = 2) :
    Decodes cap (line ++ crlf ++ eol ++ rest) p T ↔ p = [] ∧ T = rest := by
  have hdrop : (line ++ crlf ++ eol ++ rest).drop (line.length + 2 + 2) = rest :=
    List.drop_left' (by simp [heol])
  rw [decodes_zero_iff hdr, hdrop]
  refine and_iff_right ?_
  simp only [List.length_append, crlf_length, heol]
  omega

/-! ## Reading the grammar backwards -/

theorem HexLine.unique {line : Bytes} {n m : Nat} (h : HexLine line n) (h' : HexLine line m) :
    n = m := h.value.symm.trans h'.value

/-- A line is the text up to the first carriage return. -/
theorem line_unique {line line' rest rest' : Bytes} (h : CR ∉ line) (h' : CR ∉ line')
    (heq : line ++ crlf ++ rest = line' ++ crlf ++ rest') : line = line' ∧ rest = rest' := by
  have h1 : findSub crlf (line ++ crlf ++ rest) = some line.length := findSub_of_head_notMem h
  have h2 : findSub crlf (line' ++ crlf ++ rest') = some line'.length := findSub_of_head_notMem h'
  rw [heq, h2, Option.some.injEq] at h1
  rw [List.append_assoc, List.append_assoc] at heq
  obtain ⟨hline, hrest⟩ := List.append_inj heq h1.symm
  exact ⟨hline, List.append_cancel_left hrest⟩

/-- Behind the first line stands the end of the body, or a chunk and a body. -/
theorem ChunkedBody.behind_line {line rest p : Bytes} (hcr : CR ∉ line)
    (h : ChunkedBody (line ++ crlf ++ rest) p) :
    (HexLine line 0 ∧ rest = crlf ∧ p = []) ∨
      ∃ data wire q, HexLine line data.length ∧ data ≠ [] ∧ rest = data ++ crlf ++ wire ∧
        p = data ++ q ∧ ChunkedBody wire q := by
  generalize hw : line ++ crlf ++ rest = w at h
  cases h with
  | last hline =>
    obtain ⟨rfl, rfl⟩ := line_unique hcr hline.notMem_CR hw
    exact Or.inl ⟨hline, rfl, rfl⟩
  | @chunk line' data wire q hline hne hrest =>
    have hw' : line ++ crlf ++ rest = line' ++ crlf ++ (data ++ crlf ++ wire) := by
      simpa using hw
    obtain ⟨rfl, rfl⟩ := line_unique hcr hline.notMem_CR hw'
    exact Or.inr ⟨data, wire, q, hline, hne, rfl, rfl, hrest⟩

theorem ChunkedBody.length_le {wire p : Bytes} (h : ChunkedBody wire p) :
    p.length + 5 ≤ wire.length ∧ (p ≠ [] → p.length + 10 ≤ wire.length) := by
  induction h with
  | last hline =>
    have := List.length_pos_of_ne_nil hline.ne_nil
    refine ⟨?_, fun h => absurd rfl h⟩
    simp only [List.length_append, crlf_length, List.length_nil]
    omega
  | chunk hline hne hrest ih =>
    have := List.length_pos_of_ne_nil hline.ne_nil
    have := ih.1
    simp only [List.length_append, crlf_length]
    omega

/-- A body starts with a size line. -/
theorem ChunkedBody.first_line {wire p : Bytes} (h : ChunkedBody wire p) :
    ∃ line rest n, wire = line ++ crlf ++ rest ∧ HexLine line n := by
  cases h with
  | last hline => exact ⟨_, _, _, rfl, hline⟩
  | @chunk line data wire q hline hne hrest =>
    exact ⟨line, data ++ crlf ++ wire, _, by simp, hline⟩

/-- A body has one payload. -/
theorem ChunkedBody.payload_unique {wire p q : Bytes} (h : ChunkedBody wire p) (h' : ChunkedBody wire q) :
    p = q := by
  induction h generalizing q with
  | @last line hline =>
    rcases h'.behind_line hline.notMem_CR with ⟨-, -, rfl⟩ | ⟨data, wire, q, hdata, hne, -, -, -⟩
    · rfl
    · have hn := hline.unique hdata
      exact absurd (List.length_eq_zero_iff.1 hn.symm) hne
  | @chunk line data wire p hline hne hrest ih =>
    have hsplit : line ++ crlf ++ data ++ crlf ++ wire = line ++ crlf ++ (data ++ crlf ++ wire) := by simp
    rw [hsplit] at h'
    rcases h'.behind_line hline.notMem_CR with ⟨h0, -, -⟩ | ⟨data', wire', q, hdata, -, heq, rfl, hw⟩
    · have hn := hline.unique h0
      exact absurd (List.length_eq_zero_iff.1 hn) hne
    · rw [List.append_assoc, List.append_assoc] at heq
      obtain ⟨rfl, hr⟩ := List.append_inj heq (hline.unique hdata)
      rw [ih (List.append_cancel_left hr ▸ hw)]

end SrsHttpResponseReader

end HttpProxy
