import HttpProxy.Body.Reader

/-!
# What the socket can do to a read

Two facts about everything that reads from a socket through the buffer, stated function by
function.  What lies behind in the socket does not matter to a call that succeeds: the same
call on a socket with more events behind does the same and leaves them alone.  And a call
fails with an error of the socket, or with one of its own.

* `Source.append` — a source with more events behind.
* `Socket.Fails` — the errors a socket reports; `OwnErrors` — the errors of the readers.
* `read_append`, `read_fails` — the two facts for a read of a body.
-/

namespace HttpProxy

namespace Socket

/-- All errors that the socket will report satisfy `P`. -/
def Fails (P : SrsError → Prop) (s : Socket) : Prop := ∀ e, SocketEvent.error e ∈ s → P e

variable {P : SrsError → Prop}

theorem Fails.tail {ev : SocketEvent} {s : Socket} (h : Fails P (ev :: s)) : Fails P s :=
  fun e he => h e (List.mem_cons_of_mem _ he)

theorem Fails.data {bs : Bytes} {s : Socket} (h : Fails P s) : Fails P (.data bs :: s) := by
  intro e he
  rcases List.mem_cons.1 he with he | he
  · cases he
  · exact h e he

theorem fails_read {s : Socket} (h : Fails P s) (size : Nat) : Fails P (read s size).2 := by
  induction s with
  | nil => exact h
  | cons ev s ih =>
    cases ev with
    | error e => exact h.tail
    | data ds =>
      rw [read]
      split_ifs
      · exact h
      · exact ih h.tail
      · exact h.tail
      · exact h.tail.data

theorem read_fails {s s' : Socket} {size : Nat} {e : SrsError} (h : Fails P s) (h0 : P .socketRead)
    (hread : read s size = (.error e, s')) : P e := by
  induction s with
  | nil =>
    simp only [read, Prod.mk.injEq, Except.error.injEq] at hread
    exact hread.1 ▸ h0
  | cons ev s ih =>
    cases ev with
    | error e' =>
      simp only [read, Prod.mk.injEq, Except.error.injEq] at hread
      exact hread.1 ▸ h e' (by simp)
    | data ds =>
      rw [read] at hread
      split_ifs at hread
      · simp only [Prod.mk.injEq, Except.error.injEq] at hread
        exact hread.1 ▸ h0
      · exact ih h.tail hread
      · simp at hread
      · simp at hread

/-- A read that succeeds does not see what lies behind. -/
theorem read_append {s s' : Socket} {size : Nat} {bs : Bytes} (h : read s size = (.ok bs, s'))
    (t : Socket) : read (s ++ t) size = (.ok bs, s' ++ t) := by
  induction s with
  | nil => simp [read] at h
  | cons ev s ih =>
    cases ev with
    | error e => simp [read] at h
    | data ds =>
      rw [read] at h
      rw [List.cons_append, read]
      split_ifs at h ⊢
      · simp at h
      · exact ih h
      · simp only [Prod.mk.injEq] at h ⊢
        exact ⟨h.1, by rw [h.2]⟩
      · simp only [Prod.mk.injEq] at h ⊢
        exact ⟨h.1, by rw [← h.2]; rfl⟩

end Socket

/-! ## The buffer -/

namespace SrsFastStream

variable {P : SrsError → Prop}

theorem growLoop_append {required n : Nat} {b : SrsFastStream} {s : Socket}
    (h : (growLoop required n b s).1 = none) (t : Socket) :
    growLoop required n b (s ++ t) =
      (none, (growLoop required n b s).2.1, (growLoop required n b s).2.2 ++ t) := by
  induction n generalizing b s with
  | zero => rfl
  | succ n ih =>
    rw [growLoop] at h
    rw [growLoop, growLoop]
    split_ifs at h ⊢
    · rfl
    · cases hread : s.read b.freeSpace with
      | mk res s' =>
        rw [hread] at h
        cases res with
        | error e => simp at h
        | ok bs =>
          rw [Socket.read_append hread]
          exact ih h

theorem grow_append {required : Nat} {b : SrsFastStream} {s : Socket}
    (h : (b.grow s required).1 = none) (t : Socket) :
    b.grow (s ++ t) required = (none, (b.grow s required).2.1, (b.grow s required).2.2 ++ t) := by
  rw [grow] at h
  rw [grow, grow]
  split_ifs at h ⊢
  · rfl
  · exact growLoop_append h t

theorem growLoop_fails {required n : Nat} {b : SrsFastStream} {s : Socket} (hs : s.Fails P)
    (h0 : P .socketRead) : (growLoop required n b s).2.2.Fails P ∧
      ∀ e, (growLoop required n b s).1 = some e → P e := by
  induction n generalizing b s with
  | zero => exact ⟨hs, by simp [growLoop]⟩
  | succ n ih =>
    rw [growLoop]
    split_ifs
    · exact ⟨hs, by simp⟩
    · have hs' := Socket.fails_read hs b.freeSpace
      cases hread : s.read b.freeSpace with
      | mk res s' =>
        rw [hread] at hs'
        cases res with
        | error e =>
          refine ⟨hs', fun e' he' => ?_⟩
          exact Option.some.inj he' ▸ Socket.read_fails hs h0 hread
        | ok bs => exact ih hs'

end SrsFastStream

/-- The readers' own errors satisfy `P`. -/
structure OwnErrors (P : SrsError → Prop) : Prop where
  socketRead : P .socketRead
  readerBufferOverflow : P .readerBufferOverflow
  httpInvalidChunkHeader : P .httpInvalidChunkHeader
  assertFailed : P .assertFailed

namespace Source

variable {P : SrsError → Prop}

/-- The source with more events behind. -/
def append (src : Source) (t : Socket) : Source := ⟨src.buffer, src.skt ++ t⟩

@[simp] theorem append_buffer (src : Source) (t : Socket) : (src.append t).buffer = src.buffer := rfl

theorem append_unread_length (src : Source) (t : Socket) :
    src.unread.length ≤ (src.append t).unread.length := by
  simp [unread, append, Socket.pending]

theorem grow_append {src : Source} {required : Nat} (h : (src.grow required).1 = none) (t : Socket) :
    (src.append t).grow required = (none, (src.grow required).2.append t) := by
  rw [grow, append, SrsFastStream.grow_append h]
  rfl

theorem grow_fails {src : Source} {required : Nat} (hs : src.skt.Fails P) (hP : OwnErrors P) :
    (src.grow required).2.skt.Fails P ∧ ∀ e, (src.grow required).1 = some e → P e := by
  rw [grow, SrsFastStream.grow]
  split_ifs
  · exact ⟨hs, by simp⟩
  · exact ⟨hs, fun e he => Option.some.inj he ▸ hP.readerBufferOverflow⟩
  · exact SrsFastStream.growLoop_fails hs hP.socketRead

end Source

/-! ## The reader -/

/-- The outcome of a read, with more events behind. -/
def ReadResult.append (res : ReadResult) (t : Socket) : ReadResult :=
  { res with src := res.src.append t }

namespace SrsHttpResponseReader

variable {P : SrsError → Prop} {owner : BodyFraming} {r : SrsHttpResponseReader} {src : Source}
  {nbData : Nat}

/-- What a call that may fail with errors `P` guarantees on such a socket. -/
structure FailsWith (P : SrsError → Prop) (res : ReadResult) : Prop where
  skt : res.src.skt.Fails P
  err : ∀ e, res.err = some e → P e

theorem refill_append (h : (refill src).1 = none) (t : Socket) :
    refill (src.append t) = (none, (refill src).2.append t) := by
  by_cases h0 : src.buffer.size = 0
  · have h1 : refill src = src.grow 1 := if_pos h0
    have h2 : refill (src.append t) = (src.append t).grow 1 := if_pos h0
    rw [h1] at h ⊢
    rw [h2]
    exact Source.grow_append h t
  · have h1 : refill src = (none, src) := if_neg h0
    have h2 : refill (src.append t) = (none, src.append t) := if_neg h0
    rw [h1, h2]

theorem refill_fails (hs : src.skt.Fails P) (hP : OwnErrors P) :
    (refill src).2.skt.Fails P ∧ ∀ e, (refill src).1 = some e → P e := by
  rw [refill]
  split_ifs
  · exact Source.grow_fails hs hP
  · exact ⟨hs, by simp⟩

theorem readSpecified_append (h : (readSpecified owner r src nbData).err = none) (t : Socket) :
    readSpecified owner r (src.append t) nbData = (readSpecified owner r src nbData).append t := by
  rw [readSpecified] at h
  rw [readSpecified, readSpecified]
  cases hr : refill src with
  | mk err src' =>
    rw [hr] at h
    cases err with
    | some e => simp at h
    | none =>
      have happ : refill (src.append t) = (none, src'.append t) := by
        rw [refill_append (by rw [hr]) t, hr]
      rw [happ]
      by_cases h0 : min nbData src'.buffer.size = 0
      · simp only [Source.append_buffer, h0]
        rfl
      · simp only [Source.append_buffer, h0]
        rfl

theorem readSpecified_fails (hs : src.skt.Fails P) (hP : OwnErrors P) :
    FailsWith P (readSpecified owner r src nbData) := by
  have hr := refill_fails hs hP
  rw [readSpecified]
  cases hrefill : refill src with
  | mk err src' =>
    rw [hrefill] at hr
    cases err with
    | some e => exact ⟨hr.1, hr.2⟩
    | none =>
      simp only
      split_ifs
      · exact ⟨hr.1, fun e he => Option.some.inj he ▸ hP.assertFailed⟩
      · exact ⟨hr.1, by simp⟩

theorem readChunkLine_append {n : Nat} {src' : Source} {line : Bytes}
    (h : readChunkLine n src = (.ok line, src')) (t : Socket) :
    readChunkLine n (src.append t) = (.ok line, src'.append t) := by
  induction n generalizing src with
  | zero => simp [readChunkLine] at h
  | succ n ih =>
    rw [readChunkLine] at h
    rw [readChunkLine]
    split at h
    · simp at h
    · rename_i k hfind
      split
      · rename_i h0
        rw [Source.append_buffer, hfind] at h0
        simp at h0
      · rename_i k' hfind'
        rw [Source.append_buffer, hfind] at hfind'
        obtain rfl : k = k' := Nat.succ.inj (Option.some.inj hfind')
        simp only [Prod.mk.injEq, Except.ok.injEq] at h
        obtain ⟨rfl, rfl⟩ := h
        rfl
      · rename_i hnone
        rw [Source.append_buffer, hfind] at hnone
        simp at hnone
    · rename_i hnone
      split
      · rename_i h0
        rw [Source.append_buffer, hnone] at h0
        simp at h0
      · rename_i k' hfind'
        rw [Source.append_buffer, hnone] at hfind'
        simp at hfind'
      · cases hg : src.grow (src.buffer.size + 1) with
        | mk err src₁ =>
          rw [hg] at h
          cases err with
          | some e => simp at h
          | none =>
            have happ := Source.grow_append (by rw [hg]) t
            rw [hg] at happ
            rw [Source.append_buffer, happ]
            exact ih h

theorem readChunkLine_fails {n : Nat} (hs : src.skt.Fails P) (hP : OwnErrors P) :
    (readChunkLine n src).2.skt.Fails P ∧ ∀ e, (readChunkLine n src).1 = .error e → P e := by
  induction n generalizing src with
  | zero => exact ⟨hs, fun e he => Except.error.inj he ▸ hP.readerBufferOverflow⟩
  | succ n ih =>
    rw [readChunkLine]
    split
    · exact ⟨hs, fun e he => Except.error.inj he ▸ hP.httpInvalidChunkHeader⟩
    · exact ⟨hs, by simp⟩
    · have hg := @Source.grow_fails P src (src.buffer.size + 1) hs hP
      cases hgrow : src.grow (src.buffer.size + 1) with
      | mk err src' =>
        rw [hgrow] at hg
        cases err with
        | some e => exact ⟨hg.1, fun e' he' => Except.error.inj he' ▸ hg.2 e rfl⟩
        | none => exact ih hg.1

theorem readChunkHeader_append {n : Nat} {src' : Source} (h : readChunkHeader src = (.ok n, src'))
    (t : Socket) : readChunkHeader (src.append t) = (.ok n, src'.append t) := by
  rw [readChunkHeader] at h
  rw [readChunkHeader, Source.append_buffer]
  cases hline : readChunkLine (src.buffer.nbBuffer + 1) src with
  | mk res src₁ =>
    rw [hline] at h
    cases res with
    | error e => simp at h
    | ok line =>
      simp only [Prod.mk.injEq] at h
      rw [readChunkLine_append hline, ← h.2]
      simp only [h.1]

theorem readChunkHeader_fails (hs : src.skt.Fails P) (hP : OwnErrors P) :
    (readChunkHeader src).2.skt.Fails P ∧ ∀ e, (readChunkHeader src).1 = .error e → P e := by
  have hl := @readChunkLine_fails P src (src.buffer.nbBuffer + 1) hs hP
  rw [readChunkHeader]
  cases hline : readChunkLine (src.buffer.nbBuffer + 1) src with
  | mk res src₁ =>
    rw [hline] at hl
    cases res with
    | error e => exact ⟨hl.1, fun e' he' => Except.error.inj he' ▸ hl.2 e rfl⟩
    | ok line =>
      refine ⟨hl.1, fun e he => ?_⟩
      simp only [chunkSize] at he
      split_ifs at he
      exact Except.error.inj he ▸ hP.httpInvalidChunkHeader

theorem finishChunk_append {k : Nat} {data : Bytes} (h : (finishChunk k data r src).err = none)
    (t : Socket) : finishChunk k data r (src.append t) = (finishChunk k data r src).append t := by
  rw [finishChunk] at h
  rw [finishChunk, finishChunk]
  cases hg : src.grow 2 with
  | mk err src' =>
    rw [hg] at h
    cases err with
    | some e => simp at h
    | none =>
      have happ := Source.grow_append (by rw [hg]) t
      rw [hg] at happ
      rw [happ]
      simp only [Source.append_buffer]
      split <;> rfl

theorem finishChunk_fails {k : Nat} {data : Bytes} (hs : src.skt.Fails P) (hP : OwnErrors P) :
    FailsWith P (finishChunk k data r src) := by
  have hg := @Source.grow_fails P src 2 hs hP
  rw [finishChunk]
  cases hgrow : src.grow 2 with
  | mk err src' =>
    rw [hgrow] at hg
    cases err with
    | some e => exact ⟨hg.1, hg.2⟩
    | none =>
      simp only [SrsFastStream.readSlice]
      split
      · rename_i heq
        split_ifs at heq
        exact ⟨hg.1, fun e he => by
          rw [← Except.error.inj heq] at he
          exact Option.some.inj he ▸ hP.assertFailed⟩
      · exact ⟨hg.1, by simp⟩

theorem readChunkData_append (h : (readChunkData owner r src nbData).err = none) (t : Socket) :
    readChunkData owner r (src.append t) nbData = (readChunkData owner r src nbData).append t := by
  rw [readChunkData] at h
  rw [readChunkData, readChunkData]
  split_ifs at h ⊢
  · exact finishChunk_append h t
  · simp only at h ⊢
    cases herr : (readSpecified owner r src (min r.nbLeftChunk nbData)).err with
    | some e => simp [herr] at h
    | none =>
      rw [herr] at h
      have happ := readSpecified_append herr t
      rw [happ]
      simp only [ReadResult.append, herr]
      simp only at h
      split_ifs at h ⊢
      · rfl
      · exact finishChunk_append h t

theorem readChunkData_fails (hs : src.skt.Fails P) (hP : OwnErrors P) :
    FailsWith P (readChunkData owner r src nbData) := by
  rw [readChunkData]
  split_ifs
  · exact finishChunk_fails hs hP
  · exact ⟨hs, fun e he => Option.some.inj he ▸ hP.assertFailed⟩
  · have hr := @readSpecified_fails P owner r src (min r.nbLeftChunk nbData) hs hP
    simp only
    split
    · rename_i e herr
      exact ⟨hr.skt, fun e' he' => Option.some.inj he' ▸ hr.err e herr⟩
    · split_ifs
      · exact ⟨hr.skt, by simp⟩
      · exact finishChunk_fails hr.skt hP

/-- A read that succeeds does not see what lies behind, when the body has an end of its own. -/
theorem read_append (hf : owner.chunked = true ∨ owner.contentLength ≠ -1)
    (h : (read owner r src nbData).err = none ∨ r.isEof = true) (t : Socket) :
    read owner r (src.append t) nbData = (read owner r src nbData).append t := by
  by_cases heof : r.isEof = true
  · rw [read_of_eof heof, read_of_eof heof]
    rfl
  replace h := h.resolve_right heof
  rw [read, if_neg heof] at h
  rw [read, read, if_neg heof, if_neg heof]
  split_ifs at h ⊢ with hc hcl
  · rw [readChunked] at h
    rw [readChunked, readChunked]
    split_ifs at h ⊢
    · cases hh : readChunkHeader src with
      | mk res src' =>
        rw [hh] at h
        cases res with
        | error e => simp at h
        | ok n =>
          rw [readChunkHeader_append hh]
          exact readChunkData_append h t
    · exact readChunkData_append h t
  · simp only at h ⊢
    split_ifs at h ⊢
    · rfl
    · exact readSpecified_append h t
  · exact absurd hf (by simp [hc, hcl])

/-- A read fails at the end of the body, or with an error that satisfies `P`. -/
theorem read_fails (hs : src.skt.Fails P) (hP : OwnErrors P) :
    (read owner r src nbData).src.skt.Fails P ∧
      ∀ e, (read owner r src nbData).err = some e → (e = .httpResponseEof ∧ r.isEof = true) ∨ P e := by
  have key : ∀ {res : ReadResult}, FailsWith P res →
      res.src.skt.Fails P ∧ ∀ e, res.err = some e → (e = .httpResponseEof ∧ r.isEof = true) ∨ P e :=
    fun h => ⟨h.skt, fun e he => Or.inr (h.err e he)⟩
  rw [read]
  split_ifs with heof
  · exact ⟨hs, fun e he => Or.inl ⟨(Option.some.inj he).symm, heof⟩⟩
  · rw [readChunked]
    split_ifs
    · have hh := readChunkHeader_fails hs hP
      cases hheader : readChunkHeader src with
      | mk res src' =>
        rw [hheader] at hh
        cases res with
        | error e => exact ⟨hh.1, fun e' he' => Or.inr (Option.some.inj he' ▸ hh.2 e rfl)⟩
        | ok n => exact key (readChunkData_fails hh.1 hP)
    · exact key (readChunkData_fails hs hP)
  · simp only
    split_ifs
    · exact ⟨hs, by simp⟩
    · exact key (readSpecified_fails hs hP)
  · have hr := @readSpecified_fails P owner r src nbData hs hP
    simp only
    split
    · exact ⟨hr.skt, by simp⟩
    · exact key hr

/-- Only the reader itself says that the body has come to its end. -/
theorem ownErrors_ne_eof : OwnErrors (· ≠ .httpResponseEof) := by
  constructor <;> decide

/-- Reads up to the end of the body do not see what lies behind. -/
theorem drain_append (hf : owner.chunked = true ∨ owner.contentLength ≠ -1)
    (hs : src.skt.Fails (· ≠ .httpResponseEof)) {sizes : Nat → Nat} {fuel : Nat}
    (h : (drain owner sizes fuel r src).stop = some .httpResponseEof) (t : Socket) :
    drain owner sizes fuel r (src.append t) =
      { drain owner sizes fuel r src with src := (drain owner sizes fuel r src).src.append t } := by
  induction fuel generalizing r src sizes with
  | zero => simp [drain] at h
  | succ fuel ih =>
    obtain ⟨hskt, hfail⟩ := @read_fails _ owner r src (sizes 0) hs ownErrors_ne_eof
    cases herr : (read owner r src (sizes 0)).err with
    | some e =>
      rw [drain_of_error herr] at h ⊢
      obtain rfl := Option.some.inj h
      have heof : r.isEof = true := (hfail _ herr).elim (fun h => h.2) fun h => absurd rfl h
      have happ : read owner r (src.append t) (sizes 0) = (read owner r src (sizes 0)).append t :=
        read_append hf (Or.inr heof) t
      rw [drain_of_error (show (read owner r (src.append t) (sizes 0)).err = _ by rw [happ]; exact herr),
        happ]
      rfl
    | none =>
      rw [drain_of_ok herr] at h ⊢
      have happ : read owner r (src.append t) (sizes 0) = (read owner r src (sizes 0)).append t :=
        read_append hf (Or.inl herr) t
      rw [drain_of_ok (show (read owner r (src.append t) (sizes 0)).err = _ by rw [happ]; exact herr), happ]
      have hrest := ih hskt h
      simp only [ReadResult.append, hrest]

end SrsHttpResponseReader

end HttpProxy
