import HttpProxy.Message.Wire

/-!
# Response writers that go on alike

A handler changes the header of its writer through `header()`, and makes calls, in any order
(`src/protocol/srs_protocol_http_conn.cpp`, lines 911-1158), on a transport on which no write fails.

* `Action`, `act`, `actAll` — changes and calls.
* `Reachable`, `Sound` — the writers there are, and what is true of them.
* `Alike` — two writers that differ only in what no later action reads.
* `Alike.actAll` — they put the same on the wire, whatever is done with both.
-/

namespace HttpProxy

/-- A field of another name does not change the length. -/
theorem SrsHttpHeader.contentLength_set {key : Bytes}
    (hne : str "Content-Length" ≠ canonicalKey key) (h : SrsHttpHeader)
    (value : Bytes) : (h.set key value).contentLength = h.contentLength := by
  unfold contentLength
  rw [h.get_set_of_ne hne]

theorem SrsHttpHeader.contentLength_setContentType (h : SrsHttpHeader) (ct : Bytes) :
    (h.setContentType ct).contentLength = h.contentLength := contentLength_set (by decide) h ct

namespace SrsHttpResponseWriter

/-! ## Actions -/

/-- What is done with a writer: a change of the header, or a call. -/
inductive Action
  | modify (f : SrsHttpHeader → SrsHttpHeader)
  | call (c : Call)

/-- The writer after an action. -/
def act (w : SrsHttpResponseWriter) : Action → SrsHttpResponseWriter
  | .modify f => { w with hdr := f w.hdr }
  | .call c => (w.step c).2.2

/-- The writer after a sequence of actions. -/
def actAll : List Action → SrsHttpResponseWriter → SrsHttpResponseWriter
  | [], w => w
  | a :: acts, w => actAll acts (w.act a)

/-- The writers that actions lead to, from a fresh one. -/
def Reachable (w : SrsHttpResponseWriter) : Prop :=
  ∃ (io : Sink) (acts : List Action), io.Reliable ∧ w = actAll acts (init io)

/-! ## Two writers -/

/-- What is true of every writer. -/
structure Sound (w : SrsHttpResponseWriter) : Prop where
  hf : w.hf = none
  reliable : w.skt.Reliable
  wrote : w.headerSent = true → w.headerWrote = true
  fresh : w.headerWrote = false → w.written = 0

/-- Two writers with the same on the wire that go on alike.  The header does not matter once it has
been sent, and the number of written bytes does not once it is over the length. -/
structure Alike (a b : SrsHttpResponseWriter) : Prop where
  left : a.Sound
  right : b.Sound
  sent : a.skt.sent = b.skt.sent
  headerWrote : a.headerWrote = b.headerWrote
  headerSent : a.headerSent = b.headerSent
  status : a.status = b.status
  contentLength : a.contentLength = b.contentLength
  hdr : a.headerSent = false → a.hdr = b.hdr
  written : a.written = b.written ∨
    a.contentLength ≠ -1 ∧ a.contentLength < a.written ∧ a.contentLength < b.written

variable {a b w : SrsHttpResponseWriter}

theorem Sound.unsent (h : w.Sound) (hfirst : w.headerWrote = false) : w.headerSent = false := by
  by_contra hs
  rw [h.wrote (by simpa using hs)] at hfirst
  cases hfirst

theorem Sound.alike (h : w.Sound) : Alike w w :=
  ⟨h, h, rfl, rfl, rfl, rfl, rfl, fun _ => rfl, .inl rfl⟩

theorem sound_init {io : Sink} (hio : io.Reliable) : (init io).Sound :=
  ⟨rfl, hio, by simp [init], by simp [init]⟩

theorem headerWrote_defaultHeader (w : SrsHttpResponseWriter) (size : Nat) :
    (w.defaultHeader size).headerWrote = true := by
  unfold defaultHeader
  by_cases hwrote : w.headerWrote = true
  · rw [if_pos hwrote, hwrote]
  · rw [if_neg hwrote]
    exact headerWrote_writeHeader _ _

namespace Alike

/-- The books agree on whether the length is exceeded. -/
theorem over_iff (h : Alike a b) (n : Nat) :
    (a.contentLength ≠ -1 ∧ a.contentLength < a.written + n) ↔
      (b.contentLength ≠ -1 ∧ b.contentLength < b.written + n) := by
  have hlen := h.contentLength
  rcases h.written with hw | ⟨hne, ha, hb⟩
  · rw [hlen, hw]
  · exact iff_of_true ⟨hne, by omega⟩ ⟨by omega, by omega⟩

theorem modify (h : Alike a b) (f : SrsHttpHeader → SrsHttpHeader) :
    Alike { a with hdr := f a.hdr } { b with hdr := f b.hdr } :=
  ⟨⟨h.left.hf, h.left.reliable, h.left.wrote, h.left.fresh⟩,
    ⟨h.right.hf, h.right.reliable, h.right.wrote, h.right.fresh⟩, h.sent, h.headerWrote, h.headerSent,
    h.status, h.contentLength, fun hs => congrArg f (h.hdr hs), h.written⟩

/-- The header is written, from the same header. -/
theorem named (h : Alike a b) (hfirst : a.headerWrote = false) (hdr : SrsHttpHeader) (code : Int) :
    Alike { a with hdr := hdr, headerWrote := true, status := code, contentLength := hdr.contentLength }
      { b with hdr := hdr, headerWrote := true, status := code, contentLength := hdr.contentLength } := by
  have hfirst' : b.headerWrote = false := h.headerWrote ▸ hfirst
  refine ⟨⟨h.left.hf, h.left.reliable, fun _ => rfl, by simp⟩,
    ⟨h.right.hf, h.right.reliable, fun _ => rfl, by simp⟩,
    h.sent, rfl, h.headerSent, rfl, rfl, fun _ => rfl, .inl ?_⟩
  exact (h.left.fresh hfirst).trans (h.right.fresh hfirst').symm

theorem writeHeader (h : Alike a b) (code : Int) : Alike (a.writeHeader code) (b.writeHeader code) := by
  unfold SrsHttpResponseWriter.writeHeader
  rw [← h.headerWrote]
  split_ifs with hwrote
  · exact h
  · have hfirst : a.headerWrote = false := by simpa using hwrote
    rw [← h.hdr (h.left.unsent hfirst)]
    exact h.named hfirst a.hdr code

theorem defaultHeader (h : Alike a b) (size : Nat) : Alike (a.defaultHeader size) (b.defaultHeader size) := by
  unfold SrsHttpResponseWriter.defaultHeader
  rw [← h.headerWrote]
  by_cases hwrote : a.headerWrote = true
  · rw [if_pos hwrote, if_pos hwrote]
    exact h
  · have hfirst : a.headerWrote = false := by simpa using hwrote
    rw [if_neg hwrote, if_neg hwrote, ← h.hdr (h.left.unsent hfirst)]
    simp only [SrsHttpResponseWriter.writeHeader, hfirst, Bool.false_eq_true, if_false]
    exact h.named hfirst _ 200

/-- The same bytes are sent, and the books go on. -/
theorem send (h : Alike a b) {skt skt' : Sink} (hrel : skt.Reliable) (hrel' : skt'.Reliable)
    (hsent : skt.sent = skt'.sent) : Alike { a with skt := skt } { b with skt := skt' } :=
  ⟨⟨h.left.hf, hrel, h.left.wrote, h.left.fresh⟩, ⟨h.right.hf, hrel', h.right.wrote, h.right.fresh⟩, hsent,
    h.headerWrote, h.headerSent, h.status, h.contentLength, h.hdr, h.written⟩

theorem write (h : Alike a b) (bs : Bytes) :
    (a.skt.write bs).1 = (b.skt.write bs).1 ∧
      Alike { a with skt := (a.skt.write bs).2 } { b with skt := (b.skt.write bs).2 } := by
  obtain ⟨skt, hwrite, hsent, hrel⟩ := Sink.write_of_reliable h.left.reliable bs
  obtain ⟨skt', hwrite', hsent', hrel'⟩ := Sink.write_of_reliable h.right.reliable bs
  rw [hwrite, hwrite']
  exact ⟨rfl, h.send hrel hrel' (by rw [hsent, hsent', h.sent])⟩

theorem add (h : Alike a b) (hwrote : a.headerWrote = true) (n : Nat) :
    Alike { a with written := a.written + n } { b with written := b.written + n } := by
  have hwrote' : b.headerWrote = true := h.headerWrote ▸ hwrote
  refine ⟨⟨h.left.hf, h.left.reliable, h.left.wrote, fun hf => ?_⟩,
    ⟨h.right.hf, h.right.reliable, h.right.wrote, fun hf => ?_⟩, h.sent, h.headerWrote,
      h.headerSent, h.status,
    h.contentLength, h.hdr, ?_⟩
  · rw [show a.headerWrote = false from hf] at hwrote
    cases hwrote
  · rw [show b.headerWrote = false from hf] at hwrote'
    cases hwrote'
  · rcases h.written with hw | ⟨hne, ha, hb⟩
    · exact .inl (by show a.written + n = b.written + n; rw [hw])
    · exact .inr ⟨hne, by show a.contentLength < a.written + n; omega,
        by show a.contentLength < b.written + n; omega⟩

theorem sendHeader (h : Alike a b) (hwrote : a.headerWrote = true) (data : Option Bytes) :
    ∃ a' b', a.sendHeader data = (none, a') ∧ b.sendHeader data = (none, b') ∧ Alike a' b' ∧
      a'.headerWrote = true ∧ a'.headerSent = true ∧ a'.contentLength = a.contentLength := by
  unfold SrsHttpResponseWriter.sendHeader
  rw [← h.headerSent]
  by_cases hsent : a.headerSent = true
  · rw [if_pos hsent, if_pos hsent]
    exact ⟨a, b, rfl, rfl, h, hwrote, hsent, rfl⟩
  · have hunsent : a.headerSent = false := by simpa using hsent
    have hcomplete : a.completeHeader data = b.completeHeader data := by
      unfold completeHeader
      rw [h.status, h.contentLength, h.hdr hunsent]
    have hwrote' : b.headerWrote = true := h.headerWrote ▸ hwrote
    obtain ⟨skt, hwrite, hbytes, hrel⟩ :=
      Sink.write_of_reliable h.left.reliable (headerBlock a.status (a.completeHeader data))
    obtain ⟨skt', hwrite', hbytes', hrel'⟩ :=
      Sink.write_of_reliable h.right.reliable (headerBlock a.status (a.completeHeader data))
    rw [if_neg hsent, if_neg hsent]
    simp only [h.left.hf, h.right.hf, ← hcomplete, ← h.status, hwrite, hwrite']
    refine ⟨_, _, rfl, rfl, ⟨⟨rfl, hrel, fun _ => hwrote, h.left.fresh⟩,
      ⟨rfl, hrel', fun _ => hwrote', h.right.fresh⟩,
      ?_, h.headerWrote, rfl, rfl, h.contentLength, by simp, h.written⟩, hwrote, rfl, rfl⟩
    rw [hbytes, hbytes', h.sent]

/-- A write returns the same, and leaves writers that go on alike. -/
theorem writeContent (h : Alike a b) (x : Content) :
    (a.writeContent x).1 = (b.writeContent x).1 ∧ Alike (a.writeContent x).2 (b.writeContent x).2 := by
  obtain ⟨a₁, b₁, ha, hb, h₁, hwrote₁, -, -⟩ :=
    (h.defaultHeader x.size).sendHeader (headerWrote_defaultHeader a x.size) x.toOption
  have h₂ := h₁.add hwrote₁ x.size
  unfold SrsHttpResponseWriter.writeContent
  simp only [ha, hb]
  by_cases hover : a₁.contentLength ≠ -1 ∧ a₁.contentLength < a₁.written + x.size
  · rw [if_pos hover, if_pos ((h₁.over_iff x.size).1 hover)]
    exact ⟨rfl, h₂⟩
  rw [if_neg hover, if_neg fun hb => hover ((h₁.over_iff x.size).2 hb)]
  split_ifs with hnil hplain hplain' hplain'
  · exact ⟨rfl, h₂⟩
  · exact h₂.write x.bytes
  · exact absurd (h₁.contentLength ▸ hplain) hplain'
  · exact absurd (h₁.contentLength ▸ hplain') hplain
  · exact h₂.write (encodeChunk x.bytes)

theorem writeEach (h : Alike a b) (iov : List Bytes) :
    (SrsHttpResponseWriter.writeEach iov a).1 = (SrsHttpResponseWriter.writeEach iov b).1 ∧
      (SrsHttpResponseWriter.writeEach iov a).2.1 = (SrsHttpResponseWriter.writeEach iov b).2.1 ∧
      Alike (SrsHttpResponseWriter.writeEach iov a).2.2 (SrsHttpResponseWriter.writeEach iov b).2.2 := by
  induction iov generalizing a b with
  | nil => exact ⟨rfl, rfl, h⟩
  | cons d iov ih =>
    obtain ⟨herr, h₁⟩ := h.writeContent (.data d)
    unfold SrsHttpResponseWriter.writeEach
    cases hwrite : a.writeContent (.data d) with
    | mk err a₁ =>
      cases hwrite' : b.writeContent (.data d) with
      | mk err' b₁ =>
        rw [hwrite, hwrite'] at herr h₁
        obtain rfl : err = err' := herr
        cases err with
        | some e => exact ⟨rfl, rfl, h₁⟩
        | none =>
          obtain ⟨herr, hlog, hrest⟩ := ih h₁
          exact ⟨herr, congrArg (List.cons _) hlog, hrest⟩

end Alike

namespace Alike

theorem writev (h : Alike a b) (iov : List Bytes) :
    (a.writev iov).1 = (b.writev iov).1 ∧ (a.writev iov).2.1 = (b.writev iov).2.1 ∧
      Alike (a.writev iov).2.2 (b.writev iov).2.2 := by
  unfold SrsHttpResponseWriter.writev
  rw [← h.headerWrote, ← h.contentLength]
  split_ifs with heach hnil
  · exact h.writeEach iov
  · exact ⟨rfl, rfl, h⟩
  · simp only [not_or, Bool.not_eq_false, ne_eq, not_not] at heach
    obtain ⟨a₁, b₁, ha, hb, h₁, hwrote₁, -, hlen₁⟩ := h.sendHeader heach.1 none
    obtain ⟨skt, hwrite, hsent, hrel⟩ := srsWriteLargeIovs_eq
      ([fmtX (iovSize iov % 2 ^ 32).toNat, crlf] ++ iov ++ [crlf]).length
      ([fmtX (iovSize iov % 2 ^ 32).toNat, crlf] ++ iov ++ [crlf]) h₁.left.reliable
    obtain ⟨skt', hwrite', hsent', hrel'⟩ := srsWriteLargeIovs_eq
      ([fmtX (iovSize iov % 2 ^ 32).toNat, crlf] ++ iov ++ [crlf]).length
      ([fmtX (iovSize iov % 2 ^ 32).toNat, crlf] ++ iov ++ [crlf]) h₁.right.reliable
    have hwritten : a₁.written = b₁.written := by
      rcases h₁.written with hw | ⟨hne, -⟩
      · exact hw
      · exact absurd (hlen₁.trans heach.2) hne
    simp only [ha, hb, hwrite, hwrite']
    have hwrote' : b₁.headerWrote = true := h₁.headerWrote ▸ hwrote₁
    refine ⟨trivial, trivial, ⟨⟨h₁.left.hf, hrel, h₁.left.wrote, fun hf => ?_⟩,
      ⟨h₁.right.hf, hrel', h₁.right.wrote, fun hf => ?_⟩,
      by rw [hsent, hsent', h₁.sent], h₁.headerWrote, h₁.headerSent, h₁.status, h₁.contentLength, h₁.hdr,
      .inl (by show a₁.written + _ = b₁.written + _; rw [hwritten])⟩⟩
    · rw [show a₁.headerWrote = false from hf] at hwrote₁
      cases hwrote₁
    · rw [show b₁.headerWrote = false from hf] at hwrote'
      cases hwrote'

theorem finalRequest (h : Alike a b) :
    (a.finalRequest).1 = (b.finalRequest).1 ∧ Alike a.finalRequest.2 b.finalRequest.2 := by
  obtain ⟨a₁, b₁, ha, hb, h₁, -, -, -⟩ :=
    (h.writeHeader 200).sendHeader (headerWrote_writeHeader a 200) none
  unfold SrsHttpResponseWriter.finalRequest
  simp only [ha, hb]
  by_cases hnone : a₁.contentLength = -1
  · rw [if_pos hnone, if_pos (h₁.contentLength ▸ hnone)]
    exact h₁.write lastChunk
  · rw [if_neg hnone, if_neg fun hb => hnone (h₁.contentLength.trans hb), ← writeContent_null,
      ← writeContent_null]
    exact h₁.writeContent (.null 0)

/-- **One call** keeps two writers alike, returns the same from both and makes the same writes. -/
theorem step (h : Alike a b) (c : Call) :
    (a.step c).1 = (b.step c).1 ∧ (a.step c).2.1 = (b.step c).2.1 ∧ Alike (a.step c).2.2 (b.step c).2.2 := by
  cases c with
  | writeHeader code => exact ⟨rfl, rfl, h.writeHeader code⟩
  | write x =>
    obtain ⟨herr, halike⟩ := h.writeContent x
    exact ⟨herr, by show [_] = [_]; rw [herr], halike⟩
  | writev iov => exact h.writev iov
  | finalRequest =>
    obtain ⟨herr, halike⟩ := h.finalRequest
    refine ⟨herr, ?_, halike⟩
    show (if _ then _ else _) = if _ then _ else _
    rw [herr, (h.writeHeader 200).contentLength]

theorem act (h : Alike a b) (x : Action) : Alike (a.act x) (b.act x) := by
  cases x with
  | modify f => exact h.modify f
  | call c => exact (h.step c).2.2

/-- Any number of actions. -/
theorem actAll (h : Alike a b) (acts : List Action) :
    Alike (SrsHttpResponseWriter.actAll acts a) (SrsHttpResponseWriter.actAll acts b) := by
  induction acts generalizing a b with
  | nil => exact h
  | cons x acts ih => exact ih (h.act x)

end Alike

theorem Reachable.sound (h : w.Reachable) : w.Sound := by
  obtain ⟨io, acts, hio, rfl⟩ := h
  exact ((sound_init hio).alike.actAll acts).left

end SrsHttpResponseWriter

end HttpProxy
