import HttpProxy.Message.Alike
import HttpProxy.Stream.Iovs

/-!
# `writev` and `write`

`SrsHttpResponseWriter::writev` (`src/protocol/srs_protocol_http_conn.cpp`, lines 1017-1096) against
`write` (lines 958-1015) of the concatenated pieces.

* `srsWriteLargeIovs_stSocket` — what a writer sends through is an `SrsStSocket`.
* `Transport`, `pnwrite` — what `writev` stores through its last argument.
* `SameWire`, `WritevAgrees` — what it means that the two agree.
* `AgreesWhen` — when they do, in terms of the writer before the call and the list.
* `writev_agrees_iff` — the two conditions are the same.
-/

namespace HttpProxy

/-! ## What is stored -/

/-- A transport of either kind. -/
inductive Transport
  | st (skt : Sink)
  | ssl (conn : SslConnection)

/-- The `writev` of whichever it is. -/
def transport : ReadWriter Transport where
  writev iov nwrite
    | .st skt => let r := stSocket.writev iov nwrite skt; (r.1, r.2.1, .st r.2.2)
    | .ssl conn => let r := sslConnection.writev iov nwrite conn; (r.1, r.2.1, .ssl r.2.2)
  sent
    | .st skt => skt.sent
    | .ssl conn => conn.sent

/-- No write fails. -/
def Transport.Reliable : Transport → Prop
  | .st skt => skt.Reliable
  | .ssl conn => conn.Reliable

/-- A `writev` that succeeds stores no less than what it has written. -/
theorem transport_counts (iov : List Bytes) {nwrite : Int} (hn : 0 ≤ nwrite) {t : Transport}
    (ht : t.Reliable) :
    (∃ e r, transport.writev iov (some nwrite) t = (some e, r)) ∨
      ∃ m t', transport.writev iov (some nwrite) t = (none, some m, t') ∧ t'.Reliable ∧
        (iov.flatten.length : Int) ≤ m := by
  cases t with
  | st skt =>
    by_cases hnil : iov.flatten = []
    · exact .inl ⟨.socketWrite, _, by simp only [transport, stSocket, if_pos hnil]; rfl⟩
    · obtain ⟨skt', hrel, -, hwrite⟩ := stSocket_writes.writev iov nwrite skt ht hnil
      exact .inr ⟨_, .st skt', by simp only [transport, hwrite]; rfl, hrel, by simp⟩
  | ssl conn =>
    obtain ⟨conn', hrel, -, hwrite⟩ := SslConnection.writev_reliable iov (s := conn) ht nwrite
    exact .inr ⟨_, .ssl conn', by simp only [transport, sslConnection, hwrite]; rfl, hrel, by omega⟩

theorem writeBatches_counts {limits fuel : Nat} (hlimits : 0 < limits) (iovs : List Bytes)
    (hfuel : iovs.length ≤ fuel) (nwrite m : Int) (hn : 0 ≤ nwrite) {t : Transport} (ht : t.Reliable) :
    (∃ e r, writeBatches transport limits fuel iovs nwrite (some m) t = (some e, r)) ∨
      ∃ m' t', writeBatches transport limits fuel iovs nwrite (some m) t = (none, some m', t') ∧
        m + iovs.flatten.length ≤ m' := by
  induction fuel generalizing iovs nwrite m t with
  | zero =>
    obtain rfl : iovs = [] := List.eq_nil_of_length_eq_zero (by omega)
    exact .inr ⟨m, t, rfl, by simp⟩
  | succ fuel ih =>
    rw [writeBatches]
    by_cases h : iovs = []
    · subst h
      exact .inr ⟨m, t, rfl, by simp⟩
    rw [if_neg h]
    have hpos := List.length_pos_of_ne_nil h
    rcases transport_counts (iovs.take limits) hn ht with ⟨e, r, hwrite⟩ | ⟨n, t₁, hwrite, ht₁, hle⟩
    · exact .inl ⟨e, _, by rw [hwrite]⟩
    · have hsplit : iovs.flatten.length = (iovs.take limits).flatten.length +
        (iovs.drop limits).flatten.length := by
        rw [← List.length_append, ← List.flatten_append, List.take_append_drop]
      rcases ih (iovs.drop limits) (by rw [List.length_drop]; omega) n (m + n) (by omega) ht₁
        with ⟨e, r, hrest⟩ | ⟨m', t₂, hrest, hle'⟩
      · exact .inl ⟨e, r, by rw [hwrite]; exact hrest⟩
      · exact .inr ⟨m', t₂, by rw [hwrite]; exact hrest, by omega⟩

/-- However the pieces are batched, and whatever is counted twice, the count is not too small. -/
theorem srsWriteLargeIovs_counts (limits : Nat) (hlimits : 0 < limits) (iovs : List Bytes) {t : Transport}
    (ht : t.Reliable) :
    (∃ e r, srsWriteLargeIovs transport limits iovs (some 0) t = (some e, r)) ∨
      ∃ m t', srsWriteLargeIovs transport limits iovs (some 0) t = (none, some m, t') ∧
        (iovs.flatten.length : Int) ≤ m := by
  rw [srsWriteLargeIovs]
  split_ifs
  · rcases transport_counts iovs (Int.le_refl 0) ht with herr | ⟨m, t', hwrite, -, hle⟩
    · exact .inl herr
    · exact .inr ⟨m, t', hwrite, hle⟩
  · rcases writeBatches_counts hlimits iovs (Nat.le_refl iovs.length) 0 0 (Int.le_refl 0) ht with
      herr | ⟨m, t', hwrite, hle⟩
    · exact .inl herr
    · exact .inr ⟨m, t', hwrite, by omega⟩

namespace SrsHttpResponseWriter

/-! ## The two transports and the sink -/

theorem writeBatches_stSocket {fuel : Nat} {iovs : List Bytes} (hne : iovs ≠ []) (hfuel : iovs.length ≤ fuel)
    (hb : ∀ b ∈ batches limits fuel iovs, b.flatten ≠ []) (nwrite : Int) (pnwrite : Option Int) (skt : Sink) :
    (writeBatches stSocket limits fuel iovs nwrite pnwrite skt).1 = (srsWriteLargeIovs fuel iovs skt).1 ∧
      (writeBatches stSocket limits fuel iovs nwrite pnwrite skt).2.2 = (srsWriteLargeIovs fuel iovs skt).2 := by
  induction fuel generalizing iovs nwrite pnwrite skt with
  | zero => exact absurd (List.eq_nil_of_length_eq_zero (by omega)) hne
  | succ fuel ih =>
    rw [batches, if_neg hne] at hb
    have hfirst : (iovs.take limits).flatten ≠ [] := hb _ List.mem_cons_self
    rw [writeBatches, if_neg hne, srsWriteLargeIovs]
    simp only [stSocket, if_neg hfirst]
    by_cases hlen : iovs.length ≤ limits
    · -- the last batch
      rw [if_pos hlen, List.take_of_length_le hlen, List.drop_of_length_le hlen]
      rcases skt.write iovs.flatten with ⟨_ | e, skt'⟩
      · cases fuel <;> exact ⟨rfl, rfl⟩
      · exact ⟨rfl, rfl⟩
    · rw [if_neg hlen]
      rcases skt.write (iovs.take limits).flatten with ⟨_ | e, skt'⟩
      · have hpos : 0 < iovs.length - limits := by omega
        exact ih (List.ne_nil_of_length_pos (by rw [List.length_drop]; exact hpos))
          (by rw [List.length_drop]; have : 0 < limits := by decide
              omega)
          (fun b hmem => hb b (List.mem_cons_of_mem _ hmem)) _ _ _
      · exact ⟨rfl, rfl⟩

/-- What the writer sends through is an `SrsStSocket`, for which a batch without bytes is an error. -/
theorem srsWriteLargeIovs_stSocket {iovs : List Bytes} (hb : Batched limits iovs) (pnwrite : Option Int) (skt : Sink) :
    (HttpProxy.srsWriteLargeIovs stSocket limits iovs pnwrite skt).1 =
        (srsWriteLargeIovs iovs.length iovs skt).1 ∧
      (HttpProxy.srsWriteLargeIovs stSocket limits iovs pnwrite skt).2.2 =
        (srsWriteLargeIovs iovs.length iovs skt).2 := by
  rw [HttpProxy.srsWriteLargeIovs]
  rw [Batched] at hb
  by_cases hlen : iovs.length ≤ limits
  · rw [if_pos hlen] at hb ⊢
    have hcall : srsWriteLargeIovs iovs.length iovs skt = skt.write iovs.flatten := by
      cases hfuel : iovs.length with
      | zero => rfl
      | succ n => rw [srsWriteLargeIovs, if_pos hlen]
    simp only [hcall, stSocket, if_neg hb]
    rcases skt.write iovs.flatten with ⟨_ | e, skt'⟩ <;> exact ⟨rfl, rfl⟩
  · rw [if_neg hlen] at hb ⊢
    exact writeBatches_stSocket (List.ne_nil_of_length_pos (by omega)) (Nat.le_refl _) hb 0 pnwrite skt

/-! ## What `writev` stores -/

/-- `*pnwrite` after `writev`, when it was `k`.  The pieces of a chunk go to `t`; `none` if that fails,
which it does on an `SrsStSocket` for pieces without bytes. -/
def pnwrite (w : SrsHttpResponseWriter) (iov : List Bytes) (k : Int) (t : Transport) : Option Int :=
  if w.headerWrote = false ∨ w.contentLength ≠ -1 then some ((iov.map List.length).sum : Nat)
  else if iov = [] then some k
  else
    match HttpProxy.srsWriteLargeIovs transport limits
      ([fmtX (iovSize iov % 2 ^ 32).toNat, crlf] ++ iov ++ [crlf])
        (some 0) t with
    | (none, nwrite, _) => nwrite
    | (some _, _, _) => none

/-! ## Agreement -/

/-- The body is written in chunks. -/
def InChunks (w : SrsHttpResponseWriter) : Prop := w.headerWrote = true ∧ w.contentLength = -1

/-- The wires of two writers, with `sent` on both before: the same, up to the division of a chunked
body into chunks. -/
def SameWire (sent : Bytes) (a b : SrsHttpResponseWriter) : Prop :=
  a.skt.sent = b.skt.sent ∨
    a.InChunks ∧ b.InChunks ∧ ∃ (head tail : Bytes) (ds ds' : List Bytes),
        a.skt.sent = sent ++ head ++ ds.flatMap encodeChunk ++ tail ∧
        b.skt.sent = sent ++ head ++ ds'.flatMap encodeChunk ++ tail ∧ ds.flatten = ds'.flatten ∧
        ∀ d ∈ ds ++ ds', d ≠ []

/-- `writev` returns what a `write` of everything returns, has the same on the wire after any further
actions, and counts the payload. -/
structure WritevAgrees (w : SrsHttpResponseWriter) (iov : List Bytes) (k : Int) (t : Transport) : Prop where
  err : (w.writev iov).1 = (w.writeContent (.data iov.flatten)).1
  wire : ∀ acts, SameWire w.skt.sent (actAll acts (w.writev iov).2.2)
    (actAll acts (w.writeContent (.data iov.flatten)).2)
  count : (w.writev iov).1 = none → w.pnwrite iov k t = some (iov.flatten.length : Int)

/-- The first piece that is not empty, or nothing. -/
def firstPiece : List Bytes → Bytes
  | [] => []
  | d :: iov => if d = [] then firstPiece iov else d

/-- With the length `n` and `written` bytes so far, either everything fits, or the first piece does
not. -/
def Fits (n written : Int) (iov : List Bytes) : Prop :=
  written + iov.flatten.length ≤ n ∨ n < written + (firstPiece iov).length

/-- When the two agree. -/
def AgreesWhen (w : SrsHttpResponseWriter) (iov : List Bytes) (k : Int) : Prop :=
  if w.headerWrote = false then
    iov ≠ [] ∧ if w.hdr.contentLength = -1 then iov.tail.flatten = [] else Fits w.hdr.contentLength 0 iov
  else if w.contentLength ≠ -1 then
    if iov = [] then w.headerSent = true ∧ w.written ≤ w.contentLength else Fits w.contentLength w.written iov
  else iov = [] ∧ w.headerSent = true ∧ k = 0

/-! ## A body with a length -/

/-- The header has been sent, and there is a length. -/
structure Plain (s : SrsHttpResponseWriter) : Prop where
  sound : s.Sound
  wrote : s.headerWrote = true
  sent : s.headerSent = true
  length : s.contentLength ≠ -1

variable {s w : SrsHttpResponseWriter} {iov : List Bytes} {d : Bytes}

/-- Later in the body. -/
theorem Plain.later (h : s.Plain) (written' : Int) {skt' : Sink} (hrel : skt'.Reliable) :
    Plain { s with written := written', skt := skt' } :=
  ⟨⟨h.sound.hf, hrel, h.sound.wrote, fun hf => by rw [h.wrote] at hf; cases hf⟩, h.wrote, h.sent, h.length⟩

theorem Plain.writeContent_eq (h : s.Plain) (d : Bytes) :
    s.writeContent (.data d) =
      if s.contentLength < s.written + d.length then
        (some .httpContentLength, { s with written := s.written + d.length })
      else if d = [] then (none, { s with written := s.written + d.length })
      else ((s.skt.write d).1, { s with written := s.written + d.length, skt := (s.skt.write d).2 }) := by
  have hlen := h.length
  rw [writeContent_data, write, defaultHeader, if_pos h.wrote, sendHeader, if_pos h.sent]
  simp only [Option.getD_some, ne_eq, hlen, not_false_eq_true, true_and, if_true]

theorem Plain.writeContent_fits (h : s.Plain) (hle : s.written + d.length ≤ s.contentLength) :
    ∃ skt', s.writeContent (.data d) = (none, { s with written := s.written + d.length, skt := skt' }) ∧
      skt'.sent = s.skt.sent ++ d ∧ skt'.Reliable := by
  rw [h.writeContent_eq, if_neg (Int.not_lt.2 hle)]
  by_cases hnil : d = []
  · subst hnil
    exact ⟨s.skt, by rw [if_pos rfl], by simp, h.sound.reliable⟩
  · obtain ⟨skt', hwrite, hsent, hrel⟩ := Sink.write_of_reliable h.sound.reliable d
    exact ⟨skt', by rw [if_neg hnil, hwrite], hsent, hrel⟩

theorem Plain.writeContent_over (h : s.Plain) (hlt : s.contentLength < s.written + d.length) :
    s.writeContent (.data d) = (some .httpContentLength, { s with written := s.written + d.length }) := by
  rw [h.writeContent_eq, if_pos hlt]

/-- Pieces that fit are sent one by one. -/
theorem Plain.writeEach_fits (h : s.Plain) (hle : s.written + iov.flatten.length ≤ s.contentLength) :
    ∃ log skt', writeEach iov s =
        (none, log, { s with written := s.written + iov.flatten.length, skt := skt' }) ∧
      skt'.sent = s.skt.sent ++ iov.flatten ∧ skt'.Reliable := by
  induction iov generalizing s with
  | nil => exact ⟨[], s.skt, by simp [writeEach], by simp, h.sound.reliable⟩
  | cons d iov ih =>
    rw [List.flatten_cons, List.length_append] at hle
    obtain ⟨skt₁, hwrite, hsent₁, hrel₁⟩ := h.writeContent_fits (d := d) (by omega)
    obtain ⟨log, skt₂, hrest, hsent₂, hrel₂⟩ := ih (h.later (s.written + d.length) hrel₁)
      (by show s.written + d.length + iov.flatten.length ≤ s.contentLength; omega)
    refine ⟨⟨.data d, none⟩ :: log, skt₂, ?_, ?_, hrel₂⟩
    · rw [writeEach, hwrite]
      simp only [hrest]
      rw [List.flatten_cons, List.length_append, Int.natCast_add, Int.add_assoc]
    · rw [hsent₂]
      simp [hsent₁]

/-- Pieces that do not fit: the write that is too long fails, and nothing has been sent exactly if that
is the first one. -/
theorem Plain.writeEach_over (h : s.Plain) (hne : iov ≠ [])
    (hlt : s.contentLength < s.written + iov.flatten.length) :
    ∃ log written' skt' more, writeEach iov s =
        (some .httpContentLength, log, { s with written := written', skt := skt' }) ∧
      s.contentLength < written' ∧ skt'.Reliable ∧ skt'.sent = s.skt.sent ++ more ∧
      (more = [] ↔ s.contentLength < s.written + (firstPiece iov).length) := by
  induction iov generalizing s with
  | nil => exact absurd rfl hne
  | cons d iov ih =>
    rw [List.flatten_cons, List.length_append] at hlt
    rw [writeEach]
    by_cases hover : s.contentLength < s.written + d.length
    · -- this piece is too long
      rw [h.writeContent_over hover]
      refine ⟨_, _, s.skt, [], rfl, hover, h.sound.reliable, by simp, iff_of_true rfl ?_⟩
      rw [firstPiece]
      split_ifs with hnil
      · rw [hnil] at hover
        simp only [List.length_nil] at hover
        omega
      · exact hover
    · obtain ⟨skt₁, hwrite, hsent₁, hrel₁⟩ := h.writeContent_fits (d := d) (by omega)
      have hne' : iov ≠ [] := by
        rintro rfl
        simp only [List.flatten_nil, List.length_nil] at hlt
        omega
      obtain ⟨log, written', skt', more, hrest, hover', hrel', hsent', hmore⟩ :=
        ih (h.later (s.written + d.length) hrel₁) hne'
          (by show s.contentLength < s.written + d.length + iov.flatten.length; omega)
      rw [hwrite]
      refine ⟨⟨.data d, none⟩ :: log, written', skt', d ++ more, by simp only [hrest], hover', hrel', ?_, ?_⟩
      · rw [hsent']
        simp [hsent₁]
      · rw [firstPiece]
        split_ifs with hnil
        · subst hnil
          simpa using hmore
        · exact iff_of_false (by simp [hnil]) (by omega)

/-- After both calls the writers go on alike. -/
theorem Plain.alike_of_fits (h : s.Plain) {skt skt' : Sink} (hrel : skt.Reliable) (hrel' : skt'.Reliable)
    (hsent : skt.sent = skt'.sent) {x y : Int} (hxy : x = y ∨ s.contentLength < x ∧ s.contentLength < y) :
    Alike { s with written := x, skt := skt } { s with written := y, skt := skt' } :=
  ⟨(h.later x hrel).sound, (h.later y hrel').sound, hsent, rfl, rfl, rfl, rfl, fun _ => rfl,
    hxy.imp id fun hxy => ⟨h.length, hxy⟩⟩

/-- What the pieces one by one do, and everything at once. -/
theorem Plain.agree (h : s.Plain) (hne : iov ≠ []) :
    ((writeEach iov s).1 = (s.writeContent (.data iov.flatten)).1) ∧
      (Fits s.contentLength s.written iov →
        Alike (writeEach iov s).2.2 (s.writeContent (.data iov.flatten)).2) ∧
      (¬ Fits s.contentLength s.written iov →
        (writeEach iov s).2.2.skt.sent ≠ (s.writeContent (.data iov.flatten)).2.skt.sent ∧
          (writeEach iov s).2.2.contentLength ≠ -1) := by
  by_cases hle : s.written + iov.flatten.length ≤ s.contentLength
  · obtain ⟨log, skt₁, heach, hsent₁, hrel₁⟩ := h.writeEach_fits hle
    obtain ⟨skt₂, hall, hsent₂, hrel₂⟩ := h.writeContent_fits hle
    rw [heach, hall]
    exact ⟨rfl, fun _ => h.alike_of_fits hrel₁ hrel₂ (by rw [hsent₁, hsent₂]) (.inl rfl),
      fun hf => absurd (.inl hle) hf⟩
  · obtain ⟨log, written', skt', more, heach, hover, hrel, hsent, hmore⟩ := h.writeEach_over hne (by omega)
    have hall := h.writeContent_over (d := iov.flatten) (by omega)
    rw [heach, hall]
    refine ⟨rfl, fun hf => ?_, fun hf => ⟨fun heq => ?_, h.length⟩⟩
    · obtain rfl : more = [] := hmore.2 (hf.resolve_left hle)
      rw [List.append_nil] at hsent
      exact h.alike_of_fits hrel h.sound.reliable hsent (.inr ⟨hover, by omega⟩)
    · obtain rfl : more = [] := List.self_eq_append_right.1 (heq.symm.trans hsent)
      exact hf (.inr (hmore.1 rfl))

/-! ## The header before the body -/

theorem headerBlock_ne_nil (status : Int) (h : SrsHttpHeader) : headerBlock status h ≠ [] := by
  simp [headerBlock, crlf]

theorem Sound.sendHeader (h : w.Sound) (hwrote : w.headerWrote = true) (data : Option Bytes) :
    ∃ s, w.sendHeader data = (none, s) ∧ s.Sound ∧ s.headerWrote = true ∧ s.headerSent = true ∧
      s.contentLength = w.contentLength ∧ s.written = w.written ∧
      s.skt.sent = w.skt.sent ++ w.pendingHeader data := by
  rw [SrsHttpResponseWriter.sendHeader, pendingHeader]
  by_cases hsent : w.headerSent = true
  · rw [if_pos hsent, if_pos hsent]
    exact ⟨w, rfl, h, hwrote, hsent, rfl, rfl, by simp⟩
  · obtain ⟨skt', hwrite, hbytes, hrel⟩ :=
      Sink.write_of_reliable h.reliable (headerBlock w.status (w.completeHeader data))
    rw [if_neg hsent, if_neg hsent]
    simp only [h.hf, hwrite]
    exact ⟨_, rfl, ⟨rfl, hrel, fun _ => hwrote, h.fresh⟩, hwrote, rfl, rfl, rfl, hbytes⟩

/-- The content type that is detected does not depend on the data. -/
theorem sendHeader_some (w : SrsHttpResponseWriter) (d d' : Bytes) :
    w.sendHeader (some d) = w.sendHeader (some d') := rfl

/-- Once the header has been written and sent, a write is what is left of it. -/
theorem writeContent_sent {w₀ : SrsHttpResponseWriter} (hw : w.defaultHeader d.length = w₀)
    (hsend : w₀.sendHeader (some d) = (none, s)) (hwrote : s.headerWrote = true)
      (hsent : s.headerSent = true) :
    w.writeContent (.data d) = s.writeContent (.data d) := by
  rw [writeContent_data, writeContent_data, write, write]
  simp only [Option.getD_some]
  rw [hw, hsend, defaultHeader, if_pos hwrote, SrsHttpResponseWriter.sendHeader, if_pos hsent]

/-- The default header has the length that is declared. -/
theorem defaultHeader_declared (hfirst : w.headerWrote = false) (hlen : w.hdr.contentLength ≠ -1)
    (size size' : Nat) :
    w.defaultHeader size = w.defaultHeader size' ∧ (w.defaultHeader size).contentLength =
      w.hdr.contentLength ∧
      (w.defaultHeader size).written = w.written := by
  have hkeep : (if w.hdr.contentType = [] then w.hdr.setContentType (str "text/plain; charset=utf-8")
      else w.hdr).contentLength = w.hdr.contentLength := by
    split_ifs
    · exact SrsHttpHeader.contentLength_setContentType _ _
    · rfl
  unfold defaultHeader SrsHttpResponseWriter.writeHeader
  simp only [hfirst, Bool.false_eq_true, if_false, hkeep, if_neg hlen]
  exact ⟨trivial, trivial, trivial⟩

/-- Without a declared length it is the size of the write. -/
theorem defaultHeader_undeclared (hfirst : w.headerWrote = false) (hlen : w.hdr.contentLength = -1)
    (size : Nat)
    (hsize : size < 2 ^ 31) :
    (w.defaultHeader size).contentLength = size ∧ (w.defaultHeader size).written = w.written := by
  have hkeep : (if w.hdr.contentType = [] then w.hdr.setContentType (str "text/plain; charset=utf-8")
      else w.hdr).contentLength = -1 := by
    split_ifs
    · exact (SrsHttpHeader.contentLength_setContentType _ _).trans hlen
    · exact hlen
  unfold defaultHeader SrsHttpResponseWriter.writeHeader
  simp only [hfirst, Bool.false_eq_true, if_false, hkeep, if_true]
  exact ⟨SrsHttpHeader.contentLength_some (SrsHttpHeader.declares_setContentLength _ (by omega)), trivial⟩

/-- Where a body with a length begins, for a first write of `d`. -/
theorem Sound.plain (h : w.Sound) (d : Bytes) (hlen : (w.defaultHeader d.length).contentLength ≠ -1) :
    ∃ s, s.Plain ∧ (w.defaultHeader d.length).sendHeader (some d) = (none, s) ∧
      s.contentLength = (w.defaultHeader d.length).contentLength ∧
        s.written = (w.defaultHeader d.length).written := by
  obtain ⟨s, hsend, hsound, hwrote, hsent, hlength, hwritten, -⟩ :=
    ((h.alike.defaultHeader d.length).left).sendHeader (headerWrote_defaultHeader w d.length) (some d)
  exact ⟨s, ⟨hsound, hwrote, hsent, by rw [hlength]; exact hlen⟩, hsend, hlength, hwritten⟩

/-! ## When they agree -/

variable {k : Int} {t : Transport}

theorem pnwrite_plain (h : w.headerWrote = false ∨ w.contentLength ≠ -1) (iov : List Bytes)
    (k : Int) (t : Transport) :
    w.pnwrite iov k t = some (iov.flatten.length : Int) := by
  rw [pnwrite, if_pos h, List.length_flatten]

/-- In a chunk its own bytes are counted, too. -/
theorem pnwrite_chunk (hwrote : w.headerWrote = true) (hlen : w.contentLength = -1) (hne : iov ≠ []) (k : Int)
    (ht : t.Reliable) : w.pnwrite iov k t ≠ some (iov.flatten.length : Int) := by
  rw [pnwrite, if_neg (by simp [hwrote, hlen]), if_neg hne]
  rcases srsWriteLargeIovs_counts limits (by decide)
    ([fmtX (iovSize iov % 2 ^ 32).toNat, crlf] ++ iov ++ [crlf]) ht with ⟨e, r, hcall⟩ | ⟨m, t', hcall, hle⟩
  · rw [hcall]
    simp
  · rw [hcall]
    intro heq
    obtain rfl : m = iov.flatten.length := Option.some.inj heq
    simp only [List.cons_append, List.nil_append, List.flatten_cons, List.flatten_append, List.length_append,
      List.flatten_nil, crlf_length] at hle
    omega

/-- Once the header has been sent, an empty write only looks at the books. -/
theorem writeContent_nil (hwrote : w.headerWrote = true) (hsent : w.headerSent = true) :
    w.writeContent (.data []) =
      (if w.contentLength ≠ -1 ∧ w.contentLength < w.written then some .httpContentLength else none, w) := by
  rw [writeContent_data, write, defaultHeader, if_pos hwrote, SrsHttpResponseWriter.sendHeader, if_pos hsent]
  simp only [Option.getD_some, List.length_nil, Nat.cast_zero, Int.add_zero, if_true]
  split_ifs <;> rfl

/-- Before that it sends the header. -/
theorem Sound.writeContent_nil_unsent (h : w.Sound) (hunsent : w.headerSent = false) :
    (w.writeContent (.data [])).2.skt.sent ≠ w.skt.sent := by
  obtain ⟨s, hsend, -, hwrote, hsent, -, -, hbytes⟩ :=
    ((h.alike.defaultHeader 0).left).sendHeader (headerWrote_defaultHeader w 0) (some [])
  rw [writeContent_sent (d := []) rfl hsend hwrote hsent, writeContent_nil hwrote hsent, hbytes]
  have hskt : (w.defaultHeader 0).skt = w.skt ∧ (w.defaultHeader 0).headerSent = false := by
    unfold defaultHeader SrsHttpResponseWriter.writeHeader
    split_ifs <;> exact ⟨rfl, hunsent⟩
  rw [pendingHeader, hskt.1, hskt.2]
  simp [headerBlock_ne_nil]

/-- A wire that has not grown is like no other. -/
theorem SameWire.eq {sent : Bytes} {a b : SrsHttpResponseWriter} (h : SameWire sent a b)
    (ha : a.skt.sent = sent) :
    b.skt.sent = sent := by
  rcases h with heq | ⟨-, -, head, tail, ds, ds', hleft, hright, hflat, hne⟩
  · exact heq.symm.trans ha
  · rw [ha, List.append_assoc, List.append_assoc] at hleft
    have hnil := List.self_eq_append_right.1 hleft
    obtain ⟨rfl, hrest⟩ := List.append_eq_nil_iff.1 hnil
    obtain ⟨hchunks, rfl⟩ := List.append_eq_nil_iff.1 hrest
    have hds : ds = [] := by
      cases ds with
      | nil => rfl
      | cons d ds => simp [encodeChunk, crlf] at hchunks
    rw [hds, List.flatten_nil] at hflat
    have hds' : ds' = [] := by
      cases ds' with
      | nil => rfl
      | cons d ds' =>
        rw [List.flatten_cons] at hflat
        exact absurd (List.append_eq_nil_iff.1 hflat.symm).1 (hne d (by simp))
    rw [hright, hds']
    simp

/-- With a length, when the header is the same for the first piece and for all of them. -/
theorem agrees_iff_fits (h : w.Sound) (hmode : w.headerWrote = false ∨ w.contentLength ≠ -1)
    (hsame : w.defaultHeader d.length = w.defaultHeader (d :: iov).flatten.length)
    (hlen : (w.defaultHeader d.length).contentLength ≠ -1) :
    WritevAgrees w (d :: iov) k t ↔
      Fits (w.defaultHeader d.length).contentLength (w.defaultHeader d.length).written (d :: iov) := by
  obtain ⟨s, hs, hsend, hlength, hwritten⟩ := h.plain d hlen
  have hfirst := writeContent_sent rfl hsend hs.wrote hs.sent
  have hall : w.writeContent (.data (d :: iov).flatten) = s.writeContent (.data (d :: iov).flatten) :=
    writeContent_sent hsame.symm ((sendHeader_some _ _ d).trans hsend) hs.wrote hs.sent
  have heach : writeEach (d :: iov) w = writeEach (d :: iov) s := by rw [writeEach, writeEach, hfirst]
  have hwritev : w.writev (d :: iov) = writeEach (d :: iov) s := by rw [writev, if_pos hmode, heach]
  obtain ⟨herr, hfits, hnot⟩ := hs.agree (List.cons_ne_nil d iov)
  rw [← hlength, ← hwritten]
  constructor
  · intro hag
    by_contra hf
    obtain ⟨hdiffer, hplain⟩ := hnot hf
    rcases hag.wire [] with hwire | ⟨⟨-, hchunks⟩, -⟩
    · rw [hwritev, hall] at hwire
      exact hdiffer hwire
    · rw [hwritev] at hchunks
      exact hplain hchunks
  · intro hf
    refine ⟨by rw [hwritev, hall]; exact herr, fun acts => .inl ?_, fun _ => pnwrite_plain hmode _ _ _⟩
    rw [hwritev, hall]
    exact ((hfits hf).actAll acts).sent

/-- Nothing is written by an empty list. -/
theorem agrees_nil (h : w.Sound) : WritevAgrees w [] k t ↔
    w.headerSent = true ∧ if w.contentLength ≠ -1 then w.written ≤ w.contentLength else k = 0 := by
  have hwritev : w.writev [] = (none, [], w) := by
    rw [writev]
    by_cases hmode : w.headerWrote = false ∨ w.contentLength ≠ -1
    · rw [if_pos hmode]
      rfl
    · rw [if_neg hmode, if_pos rfl]
  constructor
  · intro hag
    have hsent : w.headerSent = true := by
      by_contra hunsent
      have hwire := hag.wire []
      rw [hwritev] at hwire
      exact h.writeContent_nil_unsent (by simpa using hunsent) (hwire.eq rfl)
    refine ⟨hsent, ?_⟩
    split_ifs with hlen
    · have herr := hag.err
      rw [hwritev, List.flatten_nil, writeContent_nil (h.wrote hsent) hsent] at herr
      by_contra hover
      rw [if_pos ⟨hlen, by omega⟩] at herr
      cases herr
    · have hcount := hag.count (by rw [hwritev])
      rw [pnwrite, if_neg (by simp [h.wrote hsent, not_not.1 hlen]), if_pos rfl] at hcount
      simpa using hcount
  · rintro ⟨hsent, hcond⟩
    have hall : w.writeContent (.data [].flatten) = (none, w) := by
      rw [List.flatten_nil, writeContent_nil (h.wrote hsent) hsent, if_neg]
      rintro ⟨hlen, hover⟩
      rw [if_pos hlen] at hcond
      omega
    refine ⟨by rw [hwritev, hall], fun acts => .inl (by rw [hwritev, hall]), fun _ => ?_⟩
    by_cases hlen : w.contentLength = -1
    · rw [if_neg (not_not.2 hlen)] at hcond
      rw [pnwrite, if_neg (by simp [h.wrote hsent, hlen]), if_pos rfl, hcond]
      rfl
    · exact pnwrite_plain (.inr hlen) _ _ _

/-- The header has not been written. -/
theorem agrees_first (h : w.Sound) (hsize : (d :: iov).flatten.length < 2 ^ 31)
    (hfirst : w.headerWrote = false) :
    WritevAgrees w (d :: iov) k t ↔
      if w.hdr.contentLength = -1 then iov.flatten = [] else Fits w.hdr.contentLength 0 (d :: iov) := by
  have hzero : w.written = 0 := h.fresh hfirst
  rw [List.flatten_cons, List.length_append] at hsize
  split_ifs with hlen
  · obtain ⟨hlength, hwritten⟩ := defaultHeader_undeclared hfirst hlen d.length (by omega)
    by_cases hrest : iov.flatten = []
    · -- the length is that of the first piece, and there is nothing else
      have hsame : w.defaultHeader d.length = w.defaultHeader (d :: iov).flatten.length := by
        rw [List.flatten_cons, hrest, List.append_nil]
      refine iff_of_true ((agrees_iff_fits h (.inl hfirst) hsame (by omega)).2 (.inl ?_)) hrest
      rw [hlength, hwritten, hzero, List.flatten_cons, hrest, List.append_nil]
      omega
    · -- the other pieces do not fit, but everything at once does
      refine iff_of_false (fun hag => ?_) hrest
      have hpos := List.length_pos_of_ne_nil hrest
      obtain ⟨s, hs, hsend, hlength₁, hwritten₁⟩ := h.plain d (by omega)
      have hone := writeContent_sent rfl hsend hs.wrote hs.sent
      have hwritev : w.writev (d :: iov) = writeEach (d :: iov) s := by
        rw [writev, if_pos (.inl hfirst), writeEach, writeEach, hone]
      have hover : (w.writev (d :: iov)).1 = some .httpContentLength := by
        rw [hwritev, (hs.agree (List.cons_ne_nil d iov)).1, hs.writeContent_over]
        rw [hlength₁, hwritten₁, hlength, hwritten, hzero, List.flatten_cons, List.length_append]
        omega
      obtain ⟨hlength', hwritten'⟩ := defaultHeader_undeclared hfirst hlen (d :: iov).flatten.length
        (by rw [List.flatten_cons, List.length_append]; omega)
      obtain ⟨s', hs', hsend', hlength₂, hwritten₂⟩ := h.plain (d :: iov).flatten (by omega)
      obtain ⟨skt', hall, -⟩ := hs'.writeContent_fits (d := (d :: iov).flatten)
        (by rw [hlength₂, hwritten₂, hlength', hwritten', hzero]; omega)
      have herr := hag.err
      rw [hover, writeContent_sent rfl hsend' hs'.wrote hs'.sent, hall] at herr
      cases herr
  · obtain ⟨hsame, hlength, hwritten⟩ := defaultHeader_declared hfirst hlen d.length (d :: iov).flatten.length
    rw [agrees_iff_fits h (.inl hfirst) hsame (by rw [hlength]; exact hlen), hlength, hwritten, hzero]

/-- **`writev` agrees with `write`** exactly if: the header has not been written, and the list is not
empty and all of it after its first piece is (when no length is declared), or it fits the declared
length or does not with its first bytes; or there is a length, and the list fits or does not with its
first bytes, or is empty when the header has been sent and the length is not exceeded; or the body is
in chunks and there is nothing to do. -/
theorem writev_agrees_iff (hw : w.Reachable) (hsize : iov.flatten.length < 2 ^ 31) (ht : t.Reliable) :
    WritevAgrees w iov k t ↔ AgreesWhen w iov k := by
  have h := hw.sound
  rw [AgreesWhen]
  cases hwrote : w.headerWrote with
  | false =>
    rw [if_pos rfl]
    cases iov with
    | nil =>
      have hunsent := h.unsent hwrote
      exact iff_of_false (fun hag => by simpa [hunsent] using (agrees_nil h).1 hag) fun hc => hc.1 rfl
    | cons d iov =>
      rw [agrees_first h hsize hwrote, List.tail_cons]
      exact (and_iff_right (List.cons_ne_nil d iov)).symm
  | true =>
    rw [if_neg (by simp)]
    by_cases hlen : w.contentLength = -1
    · rw [if_neg (not_not.2 hlen)]
      cases iov with
      | nil =>
        rw [agrees_nil h, if_neg (not_not.2 hlen)]
        simp
      | cons d iov =>
        refine iff_of_false (fun hag => ?_) (by simp)
        refine pnwrite_chunk hwrote hlen (List.cons_ne_nil d iov) k ht (hag.count ?_)
        obtain ⟨s, hsend, hs, -⟩ := h.sendHeader hwrote none
        obtain ⟨skt', hwrite, -⟩ := srsWriteLargeIovs_eq
          ([fmtX (iovSize (d :: iov) % 2 ^ 32).toNat, crlf] ++ (d :: iov) ++ [crlf]).length
          ([fmtX (iovSize (d :: iov) % 2 ^ 32).toNat, crlf] ++ (d :: iov) ++ [crlf]) hs.reliable
        rw [writev, if_neg (by simp [hwrote, hlen]), if_neg (List.cons_ne_nil d iov), hsend]
        simp only [hwrite]
    · rw [if_pos hlen]
      cases iov with
      | nil => rw [agrees_nil h, if_pos hlen, if_pos rfl]
      | cons d iov =>
        have hsame (size : Nat) : w.defaultHeader size = w := by rw [defaultHeader, if_pos hwrote]
        rw [if_neg (List.cons_ne_nil d iov), agrees_iff_fits h (.inr hlen) (by rw [hsame, hsame])
          (by rw [hsame]; exact hlen), hsame]

/-- In a body of five bytes, after the first two. -/
def laterWriter : SrsHttpResponseWriter :=
  actAll [.modify fun h => h.setContentLength 5, .call (.writeHeader 200), .call (.write (.data (str "ab")))]
    (init ⟨[], []⟩)

theorem laterWriter_reachable : laterWriter.Reachable :=
  ⟨⟨[], []⟩, _, by simp [Sink.Reliable], rfl⟩

theorem laterWriter_agrees (iov : List Bytes) (hne : iov ≠ []) (k : Int) :
    AgreesWhen laterWriter iov k ↔ Fits 5 2 iov := by
  have hwrote : laterWriter.headerWrote = true := by decide
  have hlen : laterWriter.contentLength = 5 := by decide
  have hwritten : laterWriter.written = 2 := by decide
  rw [AgreesWhen, hwrote, hlen, hwritten, if_neg (by simp), if_pos (by decide), if_neg hne]

/-- Pieces for the rest of it, some of them empty; and one byte more. -/
theorem writev_agrees_iff_later :
    WritevAgrees laterWriter [[], str "c", [], str "de", []] 0 (.st ⟨[], []⟩) ∧
      ¬ WritevAgrees laterWriter [[], str "c", [], str "def", []] 7 (.ssl ⟨[], []⟩) := by
  constructor
  · rw [writev_agrees_iff laterWriter_reachable (by decide) (by simp [Transport.Reliable, Sink.Reliable]),
      laterWriter_agrees _ (by decide)]
    exact .inl (by decide)
  · rw [writev_agrees_iff laterWriter_reachable (by decide) (by simp [Transport.Reliable, SslConnection.Reliable]),
      laterWriter_agrees _ (by decide), Fits]
    decide
/-- Two pieces: the first one decides about the length, and the second one does not fit. -/
theorem writev_not_agrees :
    (init ⟨[], []⟩).Reachable ∧ Transport.Reliable (.st ⟨[], []⟩) ∧
      ((init ⟨[], []⟩).writev [str "a", str "b"]).1 = some .httpContentLength ∧
      ((init ⟨[], []⟩).writeContent (.data [str "a", str "b"].flatten)).1 = none ∧
      ¬ WritevAgrees (init ⟨[], []⟩) [str "a", str "b"] 0 (.st ⟨[], []⟩) := by
  have hpieces : ((init ⟨[], []⟩).writev [str "a", str "b"]).1 = some .httpContentLength := by decide
  have hall : ((init ⟨[], []⟩).writeContent (.data [str "a", str "b"].flatten)).1 = none := by decide
  refine ⟨⟨⟨[], []⟩, [], by simp [Sink.Reliable], rfl⟩,
    by simp [Transport.Reliable, Sink.Reliable], hpieces, hall,
    fun hag => ?_⟩
  have herr := hag.err
  rw [hpieces, hall] at herr
  cases herr

end SrsHttpResponseWriter

end HttpProxy
