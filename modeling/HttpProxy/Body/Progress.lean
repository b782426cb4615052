import HttpProxy.Body.Decode

/-!
# Reading always comes to an end

Whatever the socket does, a read of a body takes a byte, fails, or notices the end of
the body, so a sequence of reads stops.  The other way round, the number of turns that a
sequence of reads is given does not matter once it has stopped.

* `read_progress` — what a successful read uses up.
* `read_leaves`, `drain_leaves` — however it ends, a read takes bytes off the front only.
* `drain_stops` — as many reads as there are unread bytes, and a few more, are enough.
* `drain_of_le` — more turns change nothing.
-/

namespace HttpProxy

namespace SrsHttpResponseReader

variable {owner : BodyFraming} {r : SrsHttpResponseReader} {src : Source} {nbData : Nat}
  {sizes : Nat → Nat}

theorem length_of_took {src src' : Source} {m : Nat} (h : Took src (src.unread.take m) src')
    (hm : 0 < m) (hlen : m ≤ src.unread.length) : src'.unread.length < src.unread.length := by
  rw [h.unread_drop, List.length_drop]
  omega

theorem readSpecified_progress (h : (readSpecified owner r src nbData).err = none) :
    (readSpecified owner r src nbData).src.unread.length < src.unread.length := by
  obtain ⟨m, hm, -, -, hlen, -, -, htook, -⟩ := readSpecified_ok h
  exact length_of_took htook hm hlen

theorem finishChunk_progress {k : Nat} {data : Bytes} (h : (finishChunk k data r src).err = none) :
    (finishChunk k data r src).src.unread.length < src.unread.length := by
  obtain ⟨hlen, -, -, htook⟩ := finishChunk_ok h
  exact length_of_took htook (by decide) hlen

theorem readChunkData_progress (h : (readChunkData owner r src nbData).err = none) :
    (readChunkData owner r src nbData).src.unread.length < src.unread.length := by
  rw [readChunkData] at h ⊢
  split_ifs at h ⊢ with hchunk hleft
  · exact finishChunk_progress h
  · simp only at h ⊢
    cases hread : (readSpecified owner r src (min r.nbLeftChunk nbData)).err with
    | some e => rw [hread] at h; simp at h
    | none =>
      have h1 := readSpecified_progress hread
      rw [hread] at h
      simp only at h ⊢
      split_ifs at h ⊢
      · exact h1
      · exact (finishChunk_progress h).trans h1

theorem readChunked_progress (h : (readChunked owner r src nbData).err = none) :
    (readChunked owner r src nbData).src.unread.length < src.unread.length := by
  rw [readChunked] at h ⊢
  split_ifs at h ⊢ with hleft
  · cases hh : readChunkHeader src with
    | mk res src' =>
      cases res with
      | error e => simp [hh] at h
      | ok n =>
        rw [hh] at h
        obtain ⟨k, hchunk, htook⟩ := readChunkHeader_ok hh
        have h1 := readChunkData_progress h
        have hle := (chunkAt_le hchunk).2.1
        have h2 := length_of_took htook (by omega) (by omega)
        exact h1.trans h2
  · exact readChunkData_progress h

/-- The length of the body is known, or it is chunked: it does not go on until the peer
closes. -/
def Framed (owner : BodyFraming) : Prop := owner.chunked = true ∨ owner.contentLength ≠ -1

/-- A successful read takes a byte, or notices the end of the body. -/
theorem read_progress (hf : Framed owner) (h : (read owner r src nbData).err = none) :
    (read owner r src nbData).reader.isEof = true ∨
      (read owner r src nbData).src.unread.length < src.unread.length := by
  by_cases heof : r.isEof = true
  · rw [read_of_eof heof] at h
    simp at h
  rw [read, if_neg heof] at h ⊢
  split_ifs at h ⊢ with hc hcl
  · exact Or.inr (readChunked_progress h)
  · simp only at h ⊢
    split_ifs at h ⊢
    · exact Or.inl rfl
    · exact Or.inr (readSpecified_progress h)
  · exact absurd hf (by simp [Framed, hc, hcl])

/-- Two more reads than there are unread bytes come to an end. -/
theorem drain_stops (hf : Framed owner) {fuel : Nat} (hfuel : src.unread.length + 1 < fuel) :
    (drain owner sizes fuel r src).stop ≠ none := by
  induction fuel generalizing r src sizes with
  | zero => omega
  | succ fuel ih =>
    cases herr : (read owner r src (sizes 0)).err with
    | some e => simp [drain_of_error herr]
    | none =>
      rw [drain_of_ok herr]
      rcases read_progress hf herr with heof | hlt
      · obtain ⟨fuel, rfl⟩ := Nat.exists_eq_add_one_of_ne_zero (by omega : fuel ≠ 0)
        simp [drain_of_eof heof]
      · exact ih (by omega)

/-- Once the reads have stopped, more turns change nothing. -/
theorem drain_of_le {fuel fuel' : Nat} (h : (drain owner sizes fuel r src).stop ≠ none)
    (hle : fuel ≤ fuel') : drain owner sizes fuel' r src = drain owner sizes fuel r src := by
  induction fuel generalizing r src sizes fuel' with
  | zero => exact absurd rfl h
  | succ fuel ih =>
    obtain ⟨fuel', rfl⟩ := Nat.exists_eq_add_one_of_ne_zero (by omega : fuel' ≠ 0)
    cases herr : (read owner r src (sizes 0)).err with
    | some e => rw [drain_of_error herr, drain_of_error herr]
    | none =>
      rw [drain_of_ok herr] at h
      rw [drain_of_ok herr, drain_of_ok herr, ih h (by omega)]

/-- Where some number of reads leads, enough reads lead. -/
theorem drain_eq_of_stops (hf : Framed owner) {fuel fuel' : Nat}
    (h : (drain owner sizes fuel r src).stop ≠ none) (hfuel : src.unread.length + 1 < fuel') :
    drain owner sizes fuel' r src = drain owner sizes fuel r src := by
  rcases Nat.le_total fuel fuel' with hle | hle
  · exact drain_of_le h hle
  · exact (drain_of_le (drain_stops hf hfuel) hle).symm

/-! ## What a read leaves -/

/-- `src'` is `src` without some bytes of its front. -/
def Leaves (src src' : Source) : Prop := ∃ bs, Took src bs src'

theorem Leaves.refl (src : Source) : Leaves src src := ⟨[], .of_grown (.refl src)⟩

theorem Leaves.trans {s₁ s₂ s₃ : Source} (h₁ : Leaves s₁ s₂) (h₂ : Leaves s₂ s₃) : Leaves s₁ s₃ := by
  obtain ⟨a, ha⟩ := h₁
  obtain ⟨b, hb⟩ := h₂
  exact ⟨a ++ b, ha.trans hb⟩

theorem Leaves.of_grown {src src' : Source} (h : src.Grown src') : Leaves src src' := ⟨[], .of_grown h⟩

theorem leaves_readSlice {n : Nat} {bs : Bytes} {b : SrsFastStream}
    (h : src.buffer.readSlice n = .ok (bs, b)) : Leaves src { src with buffer := b } := by
  unfold SrsFastStream.readSlice at h
  split_ifs at h with hn
  obtain ⟨-, rfl⟩ := Prod.mk.inj (Except.ok.inj h)
  exact ⟨_, took_advance hn⟩

theorem readSpecified_leaves : Leaves src (readSpecified owner r src nbData).src := by
  have hg := Leaves.of_grown (refill_grown src)
  rw [readSpecified]
  cases hr : refill src with
  | mk err src' =>
    rw [hr] at hg
    cases err with
    | some e => exact hg
    | none =>
      simp only
      split_ifs
      · exact hg
      · exact hg.trans ⟨_, took_advance (Nat.min_le_right _ _)⟩

theorem readChunkLine_leaves {n : Nat} : Leaves src (readChunkLine n src).2 := by
  induction n generalizing src with
  | zero => exact .refl src
  | succ n ih =>
    rw [readChunkLine]
    split
    · exact .refl src
    · exact ⟨_, took_takeLine _⟩
    · have hg := Leaves.of_grown (src.grow_grown (src.buffer.size + 1))
      cases hgrow : src.grow (src.buffer.size + 1) with
      | mk err src' =>
        rw [hgrow] at hg
        cases err with
        | some e => exact hg
        | none => exact hg.trans ih

theorem readChunkHeader_leaves : Leaves src (readChunkHeader src).2 := by
  have hl := @readChunkLine_leaves src (src.buffer.nbBuffer + 1)
  rw [readChunkHeader]
  cases hline : readChunkLine (src.buffer.nbBuffer + 1) src with
  | mk res src' =>
    rw [hline] at hl
    cases res <;> exact hl

theorem finishChunk_leaves {k : Nat} {data : Bytes} : Leaves src (finishChunk k data r src).src := by
  have hg := Leaves.of_grown (src.grow_grown 2)
  rw [finishChunk]
  cases hgrow : src.grow 2 with
  | mk err src' =>
    rw [hgrow] at hg
    cases err with
    | some e => exact hg
    | none =>
      simp only
      split
      · exact hg
      · rename_i hslice
        exact hg.trans (leaves_readSlice hslice)

theorem readChunkData_leaves : Leaves src (readChunkData owner r src nbData).src := by
  rw [readChunkData]
  split_ifs
  · exact finishChunk_leaves
  · exact .refl src
  · have hread := @readSpecified_leaves owner r src (min r.nbLeftChunk nbData)
    simp only
    split
    · exact hread
    · split_ifs
      · exact hread
      · exact hread.trans finishChunk_leaves

/-- However a read ends, it has taken bytes off the front only. -/
theorem read_leaves : Leaves src (read owner r src nbData).src := by
  rw [read]
  split_ifs
  · exact .refl src
  · rw [readChunked]
    split_ifs
    · have hh := @readChunkHeader_leaves src
      cases hheader : readChunkHeader src with
      | mk res src' =>
        rw [hheader] at hh
        cases res with
        | error e => exact hh
        | ok n => exact hh.trans readChunkData_leaves
    · exact readChunkData_leaves
  · simp only
    split_ifs
    · exact .refl src
    · exact readSpecified_leaves
  · simp only
    split <;> exact readSpecified_leaves

theorem drain_leaves {fuel : Nat} : Leaves src (drain owner sizes fuel r src).src := by
  induction fuel generalizing r src sizes with
  | zero => exact .refl src
  | succ fuel ih =>
    cases herr : (read owner r src (sizes 0)).err with
    | some e =>
      rw [drain_of_error herr]
      exact read_leaves
    | none =>
      rw [drain_of_ok herr]
      exact read_leaves.trans ih

/-! ## The size of a piece -/

theorem readSpecified_data_le : (readSpecified owner r src nbData).data.length ≤ nbData := by
  rw [readSpecified]
  split
  · exact Nat.zero_le _
  · simp only
    split_ifs
    · exact Nat.zero_le _
    · simp only [List.length_take]
      omega

theorem finishChunk_data {k : Nat} {data : Bytes} : (finishChunk k data r src).data = data := by
  rw [finishChunk]
  split
  · rfl
  · split <;> rfl

theorem readChunkData_data_le : (readChunkData owner r src nbData).data.length ≤ nbData := by
  rw [readChunkData]
  split_ifs
  · rw [finishChunk_data]
    exact Nat.zero_le _
  · exact Nat.zero_le _
  · have h := @readSpecified_data_le owner r src (min r.nbLeftChunk nbData)
    simp only
    split
    · exact h.trans (Nat.min_le_right _ _)
    · split_ifs
      · exact h.trans (Nat.min_le_right _ _)
      · rw [finishChunk_data]
        exact h.trans (Nat.min_le_right _ _)

/-- A read delivers no more than it was asked for. -/
theorem read_data_le : (read owner r src nbData).data.length ≤ nbData := by
  rw [read]
  split_ifs
  · exact Nat.zero_le _
  · rw [readChunked]
    split_ifs
    · split
      · exact Nat.zero_le _
      · exact readChunkData_data_le
    · exact readChunkData_data_le
  · simp only
    split_ifs
    · exact Nat.zero_le _
    · exact readSpecified_data_le.trans (Nat.min_le_left _ _)
  · simp only
    split
    · exact readSpecified_data_le
    · exact readSpecified_data_le

end SrsHttpResponseReader

end HttpProxy
