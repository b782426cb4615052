import HttpProxy.Message.Sent
import HttpProxy.Message.StartLines

/-!
# Responses that are written and read again

The header that `SrsHttpResponseWriter` sends, against the parser of the same program, which reads
the responses of other servers.

* `headerBlock_reads_iff` — when the header is read as a response with the status and the fields.
* `lookedUp_eq` — what is looked up in a header that has been read.
* `response_round_trip` — a response that is written in chunks is read back, header and body.
-/

namespace HttpProxy

open HttpParser SrsHttpParser Head SrsHttpResponseWriter SrsHttpResponseReader

/-! ## Status codes -/

namespace Head

variable {p : HttpParser} {h : Head} {m : HttpMethod} {x a : Bytes}

/-- More than three digits are refused. -/
theorem digits_refused (hp : InFirst m (digitsValue 10 a) .resStatusCode p)
    (hx : ∀ c ∈ x, HttpProxy.isNum c = true) (hle : digitsValue 10 a ≤ 999)
    (hbig : 999 < digitsValue 10 (a ++ x)) (rest : Bytes) : ∃ e, read p h (x ++ rest) = .error e := by
  induction x generalizing p a h with
  | nil =>
    rw [List.append_nil] at hbig
    omega
  | cons c x ih =>
    have hc : HttpProxy.isNum c = true := hx c (by simp)
    have hvalue : digitsValue 10 (a ++ [c]) = digitsValue 10 a * 10 + (c - chr '0').toNat := by
      rw [digitsValue_append, (digitVal_isNum c hc).1]
      rfl
    have hpar : p.state.parsingHeader = true := by rw [hp.state]; rfl
    rw [List.cons_append, read]
    by_cases hroom : HTTP_MAX_HEADER_SIZE < p.nread + 1
    · exact ⟨_, by rw [stepByte, if_pos hpar, if_pos hroom]⟩
    have hcode : (counted p).statusCode = digitsValue 10 a := hp.status
    have hstep : p.stepByte c = (counted p).resStatusCode c := by
      rw [stepByte, if_pos hpar, if_neg hroom]
      show (counted p).dispatch c = _
      simp only [dispatch, show (counted p).state = .resStatusCode from hp.state]
    by_cases hsmall : 999 < digitsValue 10 (a ++ [c])
    · rw [hvalue] at hsmall
      refine ⟨.invalidStatus, ?_⟩
      rw [hstep, resStatusCode, if_pos hc, hcode]
      simp only [if_pos hsmall]
    · rw [show a ++ c :: x = a ++ [c] ++ x by simp] at hbig
      obtain ⟨p', hp'⟩ : ∃ p', p' = { counted p with statusCode := digitsValue 10 (a ++ [c]) } := ⟨_, rfl⟩
      have hnext : (counted p).resStatusCode c = .ok ⟨p', [], false⟩ := by
        rw [hvalue] at hsmall hp'
        rw [resStatusCode, if_pos hc, hcode, hp']
        simp only [if_neg hsmall]
        rfl
      have hfirst : InFirst m (digitsValue 10 (a ++ [c])) .resStatusCode p' := by
        rw [hp']
        exact ⟨hp.state, hp.method, rfl, hp.flags, hp.length⟩
      obtain ⟨e, he⟩ := ih (h := h.step [] p'.state.phase c) hfirst
        (fun d hd => hx d (List.mem_cons_of_mem _ hd)) (by omega) hbig
      refine ⟨e, ?_⟩
      rw [hstep, hnext]
      simp only [Bool.false_eq_true, if_false, he]

end Head

/-- The first line of a response, with any status. -/
def codeLine (status : Int) : Bytes :=
  str "HTTP/1.1 " ++ SrsHttpHeader.srsInt2str status ++ str " " ++ srsGenerateHttpStatusText status

theorem codeLine_natCast (status : Nat) : codeLine status = statusLine status := by
  rw [codeLine, statusLine, SrsHttpHeader.srsInt2str, if_neg (by omega), Int.natAbs_natCast]

/-- No other status is read. -/
theorem status_of_read {status : Int} {rest : Bytes} {r : Reading}
    (hr : readHead .response (codeLine status ++ rest) = .ok r) : 0 ≤ status ∧ status ≤ 999 := by
  obtain ⟨q, hq, hfirst, hn⟩ := begins_version
  have herror : ∀ {bs : Bytes}, (∃ e, read q .empty bs = .error e) →
      readHead .response (str "HTTP/1.1 " ++ bs) ≠ .ok r := by
    rintro bs ⟨e, he⟩ h
    rw [readHead, Head.read_append, hq] at h
    simp only [Bool.false_eq_true, if_false, he] at h
    cases h
  simp only [codeLine, List.append_assoc] at hr
  have hpar : q.state.parsingHeader = true := by rw [hfirst.state]; rfl
  have hroom : ¬ HTTP_MAX_HEADER_SIZE < q.nread + 1 := by
    rw [hn]
    decide
  have hstep : ∀ c, q.stepByte c = (counted q).resFirstStatusCode c := by
    intro c
    rw [stepByte, if_pos hpar, if_neg hroom]
    show (counted q).dispatch c = _
    simp only [dispatch, show (counted q).state = .resFirstStatusCode from hfirst.state]
  by_cases hneg : status < 0
  · refine absurd hr (herror ⟨.invalidStatus, ?_⟩)
    rw [SrsHttpHeader.srsInt2str, if_pos hneg, List.cons_append, Head.read, hstep]
    rfl
  refine ⟨by omega, ?_⟩
  by_contra hbig
  refine absurd hr (herror ?_)
  obtain ⟨c, x, hdec⟩ := List.exists_cons_of_ne_nil (SrsHttpHeader.decimal_ne_nil status.natAbs)
  have hnum : ∀ d ∈ c :: x, HttpProxy.isNum d = true := fun d hd => decimal_isNum (hdec ▸ hd)
  have hvalue : digitsValue 10 ([c] ++ x) = status.natAbs := by
    rw [List.singleton_append, ← hdec, SrsHttpHeader.digitsValue_decimal]
  obtain ⟨q₁, hq₁, hfirst₁, -⟩ := begins_firstDigit (h := .empty) hfirst (hnum c (by simp)) (by omega)
  have hdigit := (digitVal_isNum c (hnum c (by simp))).2
  obtain ⟨e, he⟩ := digits_refused (h := .empty) (x := x) (a := [c]) hfirst₁
    (fun d hd => hnum d (List.mem_cons_of_mem _ hd))
    (by rw [digitsValue_singleton (hnum c (by simp))]; omega)
    (by omega) (str " " ++ (srsGenerateHttpStatusText status ++ rest))
  refine ⟨e, ?_⟩
  rw [SrsHttpHeader.srsInt2str, if_neg hneg, hdec, List.cons_append, ← List.singleton_append,
    Head.read_append, hq₁]
  simp only [Bool.false_eq_true, if_false, he]
  rfl

/-! ## Header blocks -/

/-- The block is read as a response with the status and the fields. -/
def BlockReads (status : Int) (h : SrsHttpHeader) : Prop :=
  IsHeader .response (headerBlock status h) ∧
    ∃ r hp, readHead .response (headerBlock status h) = .ok r ∧ r.head.hp = some hp ∧
      (hp.statusCode : Int) = status ∧ r.head.fields = h.outFields.reverse

/-- What a header must be like to be read: three digits of a status, numbers as lengths, one kind of
framing, and room. -/
structure Readable (status : Int) (h : SrsHttpHeader) : Prop where
  status_nonneg : 0 ≤ status
  status_le : status ≤ 999
  length : ∀ f ∈ h.outFields, isContentLength f.1 = true → LengthText f.2
  one : ¬ BothFramings h.outFields
  room : (headerBlock status h).length ≤ HTTP_MAX_HEADER_SIZE

section Block

variable {status : Int} {h : SrsHttpHeader}

theorem headerBlock_eq (status : Int) (h : SrsHttpHeader) :
    headerBlock status h = codeLine status ++ crlf ++ (linesOf h.outFields ++ crlf) := by
  simp only [headerBlock, codeLine, SrsHttpHeader.write_eq, linesOf, List.append_assoc]

/-- The first line of a block. -/
theorem codeLine_read (h0 : 0 ≤ status) (h1 : status ≤ 999)
    (hroom : (codeLine status ++ crlf).length ≤ HTTP_MAX_HEADER_SIZE) :
    ∃ q, readHead .response (codeLine status ++ crlf) =
        .ok ⟨q, { Head.empty with url := [] }, (codeLine status ++ crlf).length, false⟩ ∧
      Inside q q { Head.empty with url := [] } ∧ AtLine q ∧ q.nread = (codeLine status ++ crlf).length ∧
      (q.statusCode : Int) = status := by
  obtain ⟨n, rfl⟩ := Int.eq_ofNat_of_zero_le h0
  rw [codeLine_natCast] at hroom ⊢
  obtain ⟨q, hq, hfirst, hn⟩ := begins_statusLine (by omega) hroom
  refine ⟨q, hq, inside_start hfirst, .inl hfirst.state, hn.trans (Nat.zero_add _), ?_⟩
  rw [hfirst.status]

theorem blockReads_of_readable (hL : ∀ f ∈ h.outFields, Line f) (ha : OneLength [] h.outFields)
    (hR : Readable status h) : BlockReads status h := by
  have hroom := hR.room
  rw [headerBlock_eq] at hroom
  obtain ⟨q, hq, hI, hl, hn, hstatus⟩ := codeLine_read hR.status_nonneg hR.status_le
    (by rw [List.length_append] at hroom; omega)
  obtain ⟨hH, r, hp, hr, hhp, hline, -, hfields⟩ :=
    header_of_lines hq hI hl hn hL ha hroom hR.length hR.one
  rw [← headerBlock_eq] at hH hr
  exact ⟨hH, r, hp, hr, hhp, by rw [hline.2, hstatus], hfields⟩

theorem readable_of_read {r : Reading} (hL : ∀ f ∈ h.outFields, Line f) (ha : OneLength [] h.outFields)
    (hH : IsHeader .response (headerBlock status h))
    (hr : readHead .response (headerBlock status h) = .ok r) : Readable status h := by
  have hroom := hH.length_le hr
  rw [headerBlock_eq] at hr hroom
  obtain ⟨h0, h1⟩ := status_of_read (by rw [← List.append_assoc]; exact hr)
  obtain ⟨q, hq, hI, hl, hn, -⟩ := codeLine_read h0 h1 (by rw [List.length_append] at hroom; omega)
  obtain ⟨hlen, hone⟩ := plain_of_header hq hI hl hn hL ha hroom hr
  exact ⟨h0, h1, hlen, hone, by rwa [headerBlock_eq]⟩

/-- **When a response header is read.**  A header whose fields are lines of their own, with one
content length at most, is read as a response with the same status and the same fields in the
order in which they were written, if and only if it is readable. -/
theorem headerBlock_reads_iff (hL : ∀ f ∈ h.outFields, Line f) (ha : OneLength [] h.outFields) :
    BlockReads status h ↔ Readable status h := by
  constructor
  · rintro ⟨hH, r, hp, hr, -⟩
    exact readable_of_read hL ha hH hr
  · exact blockReads_of_readable hL ha

/-- A text without line ends, and without a blank in front. -/
theorem written_of_all {v : Bytes} (hfront : ∀ c ∈ v.head?, c ≠ chr ' ' ∧ c ≠ 9)
    (hrest : ∀ c ∈ v, isHeaderChar c = true ∧ c ≠ CR ∧ c ≠ LF) : Written v := by
  refine ⟨⟨fun c hc hb => ?_, fun c hc => ?_, by simp⟩, fun c hc => (hrest c hc).2⟩
  · exact hb.elim (hfront c hc).1 (hfront c hc).2
  · exact (hrest c (List.mem_of_mem_tail hc)).1

/-- The same of a text that is known, its bytes tested one by one. -/
theorem written_known {c : Byte} {v : Bytes} (hfront : c ≠ chr ' ' ∧ c ≠ 9)
    (hrest : (c :: v).all (fun b => isHeaderChar b = true ∧ b ≠ CR ∧ b ≠ LF) = true) : Written (c :: v) := by
  refine written_of_all ?_ (List.all_iff_forall_prop.1 hrest)
  rintro _ ⟨⟩
  exact hfront

/-- A header with one field. -/
def jsonHeader : SrsHttpHeader := SrsHttpHeader.empty.set (str "Content-Type") (str "application/json")

theorem outFields_jsonHeader :
    jsonHeader.outFields = [(str "Content-Type", str "application/json")] := by decide

theorem line_jsonHeader : ∀ f ∈ jsonHeader.outFields, Line f := by
  intro f hf
  rw [outFields_jsonHeader] at hf
  rw [List.mem_singleton.1 hf]
  exact ⟨by decide, show ∀ c ∈ str "Content-Type", token c ≠ 0 from List.all_iff_forall_prop.1 rfl,
    written_known (by decide) rfl⟩

/-- One field behind a line without a body. -/
theorem headerBlock_reads_iff_json : BlockReads 204 jsonHeader := by
  refine (headerBlock_reads_iff line_jsonHeader ?_).2 ⟨by decide, by decide, ?_, ?_, by decide⟩
  · rw [outFields_jsonHeader]
    exact ⟨List.pairwise_singleton _ _, by simp⟩
  · rw [outFields_jsonHeader]
    intro f hf hn
    rw [List.mem_singleton.1 hf] at hn
    exact absurd hn (by decide)
  · rw [outFields_jsonHeader]
    rintro ⟨-, f, hf, hn⟩
    rw [List.mem_singleton.1 hf] at hn
    exact absurd hn (by decide)

end Block

/-! ## What is looked up -/

/-- A header that can be sent: lines, under their canonical names. -/
structure SrsHttpHeader.Sendable (h : SrsHttpHeader) : Prop where
  line : ∀ f ∈ h.outFields, Line f
  canonical : ∀ e ∈ h.headers.entries, canonicalKey e.1 = e.1
  length : ∀ e ∈ h.headers.entries, isContentLength e.1 = true → e.1 = str "Content-Length"

namespace SrsHttpHeader

variable {h : SrsHttpHeader} {key value : Bytes}

theorem mem_outFields_iff {f : Bytes × Bytes} :
    f ∈ h.outFields ↔ f ∈ h.headers.entries ∨ ∃ v ∈ h.cookieList, f = (str "Set-Cookie", v) := by
  simp only [outFields, List.mem_append, List.mem_map, eq_comm]

theorem mem_entries_of_get (hv : h.get key ≠ []) : (key, h.get key) ∈ h.headers.entries := by
  unfold get at hv ⊢
  cases hfind : h.headers.find? key with
  | none => simp [hfind] at hv
  | some v => exact (OrdMap.find?_eq_some_iff _).1 hfind

theorem get_of_mem_entries (hm : (key, value) ∈ h.headers.entries) : h.get key = value := by
  rw [get, (OrdMap.find?_eq_some_iff _).2 hm]
  rfl

/-- **The fields that are looked up in a header that has been read** are those that were set. -/
theorem lookedUp_eq (hs : h.Sendable) (hkey : key ≠ str "Set-Cookie")
    (hcanonical : canonicalKey key = key) (hlisted : isListed key = false) :
    lookedUp h.outFields.reverse key = h.get key := by
  -- a field that is found under the name is the one of the map
  have hfound : ∀ f ∈ h.outFields, canonicalKey f.1 = key → f.2 = h.get key := by
    intro f hf hk
    rcases mem_outFields_iff.1 hf with hm | ⟨v, -, rfl⟩
    · rw [hs.canonical f hm] at hk
      subst hk
      exact (get_of_mem_entries hm).symm
    · exact absurd (show str "Set-Cookie" = key from hk) (Ne.symm hkey)
  by_cases hl : lookedUp h.outFields.reverse key = []
  · rw [hl]
    by_contra hv
    have hm := mem_entries_of_get (Ne.symm hv)
    have hout : (key, h.get key) ∈ h.outFields.reverse :=
      List.mem_reverse.2 (mem_outFields_iff.2 (.inl hm))
    have hstored : (key, h.get key) ∈ Head.stored h.outFields.reverse := by
      cases hrev : h.outFields.reverse with
      | nil => simp [hrev] at hout
      | cons f fs =>
        rw [hrev] at hout
        refine List.mem_map.2 ⟨(key, h.get key), ?_, by rw [hcanonical]⟩
        rcases List.mem_cons.1 hout with rfl | hout
        · rw [if_neg (Ne.symm hv)]
          exact List.mem_append_left _ (List.mem_singleton_self _)
        · exact List.mem_append_right _ (List.mem_filter.2 ⟨hout, by rw [hlisted]; rfl⟩)
    cases hfind : OrdMap.findIn key (Head.stored h.outFields.reverse) with
    | none => exact OrdMap.findIn_eq_none_iff.1 hfind _ hstored rfl
    | some w =>
      obtain ⟨f, hf, heq⟩ := mem_stored (OrdMap.mem_of_findIn hfind)
      obtain ⟨hk, hw⟩ := Prod.mk.inj heq
      rw [lookedUp, hfind] at hl
      have hval := hfound f (List.mem_reverse.1 hf) hk.symm
      rw [← hw, show w = [] from hl] at hval
      exact hv hval
  · obtain ⟨f, hf, hk, hv⟩ := mem_of_lookedUp hl
    rw [← hv]
    exact hfound f (List.mem_reverse.1 hf) hk

theorem Sendable.oneLength (hs : h.Sendable) : OneLength [] h.outFields := by
  refine ⟨?_, by simp⟩
  have hcookie : isContentLength (str "Set-Cookie") = false := by decide
  refine List.pairwise_append.2 ⟨?_, ?_, ?_⟩
  · refine (List.pairwise_map.1 h.headers.nodup_keys).imp_of_mem fun {f g} hf hg hne hl => ?_
    by_contra hc
    exact hne ((hs.length f hf hl).trans (hs.length g hg (by simpa using hc)).symm)
  · exact List.pairwise_map.2 (List.pairwise_of_forall fun _ _ hl => by rw [hcookie] at hl; cases hl)
  · intro f _ g hg _
    obtain ⟨v, -, rfl⟩ := List.mem_map.1 hg
    exact hcookie

/-- Setting a field. -/
theorem Sendable.set (hs : h.Sendable) (hcanonical : canonicalKey key = key) (hline : Line (key, value))
    (hlength : isContentLength key = true → key = str "Content-Length") : (h.set key value).Sendable := by
  have hmem : ∀ e ∈ (h.set key value).headers.entries, e = (key, value) ∨ e ∈ h.headers.entries := by
    intro e he
    have := OrdMap.mem_insertIn he
    rwa [hcanonical] at this
  refine ⟨fun f hf => ?_, fun e he => ?_, fun e he hl => ?_⟩
  · rcases mem_outFields_iff.1 hf with hf | hc
    · rcases hmem f hf with rfl | hf
      · exact hline
      · exact hs.line f (mem_outFields_iff.2 (.inl hf))
    · exact hs.line f (mem_outFields_iff.2 (.inr hc))
  · rcases hmem e he with rfl | he
    · exact hcanonical
    · exact hs.canonical e he
  · rcases hmem e he with rfl | he
    · exact hlength hl
    · exact hs.length e he hl

theorem Sendable.set_if (hs : h.Sendable) (p : Prop) [Decidable p] (hcanonical : canonicalKey key = key)
    (hline : Line (key, value)) (hlength : isContentLength key = false) :
    (if p then h.set key value else h).Sendable := by
  split_ifs
  · exact hs.set hcanonical hline fun hl => by rw [hlength] at hl; cases hl
  · exact hs

theorem get_set_if {key' : Bytes} (p : Prop) [Decidable p] (hne : key' ≠ canonicalKey key) :
    (if p then h.set key value else h).get key' = h.get key' := by
  split_ifs
  · exact h.get_set_of_ne hne value
  · rfl

end SrsHttpHeader

namespace SrsHttpResponseWriter

variable {w : SrsHttpResponseWriter}

/-- The fields that the writer adds can be sent. -/
theorem sendable_completeHeader (hs : w.hdr.Sendable) (data : Option Bytes) :
    (w.completeHeader data).Sendable := by
  have htype : Written (str "application/octet-stream") :=
    written_known (by decide) rfl
  have hserver : Written RTMP_SIG_SRS_SERVER := written_known (by decide) rfl
  have hchunked : Written (str "chunked") := written_known (by decide) rfl
  have hkeep : Written (str "Keep-Alive") := written_known (by decide) rfl
  have hrest : ∀ h1 : SrsHttpHeader, h1.Sendable →
      (let h2 := if h1.get (str "Server") = [] then h1.set (str "Server") RTMP_SIG_SRS_SERVER else h1
       let h3 := if w.contentLength = -1 then h2.set (str "Transfer-Encoding") (str "chunked") else h2
       if h3.get (str "Connection") = [] then h3.set (str "Connection") (str "Keep-Alive")
       else h3).Sendable := by
    intro h1 hs1
    have hs2 : (if h1.get (str "Server") = [] then h1.set (str "Server") RTMP_SIG_SRS_SERVER
        else h1).Sendable := hs1.set_if _ (by decide)
      ⟨by decide, List.all_iff_forall_prop.1 rfl, hserver⟩ (by decide)
    exact (hs2.set_if (w.contentLength = -1) (by decide)
      ⟨by decide, List.all_iff_forall_prop.1 rfl, hchunked⟩ (by decide)).set_if _ (by decide)
        ⟨by decide, List.all_iff_forall_prop.1 rfl, hkeep⟩ (by decide)
  cases data with
  | none => exact hrest _ hs
  | some d =>
    have hname : Line (str "Content-Type", srsGoHttpDetect d) :=
      ⟨show str "Content-Type" ≠ [] by decide,
        show ∀ c ∈ str "Content-Type", token c ≠ 0 from List.all_iff_forall_prop.1 rfl, htype⟩
    exact hrest _ (hs.set_if _ (by decide) hname (by decide))

/-- What the writer adds leaves the content length alone. -/
theorem completeHeader_length (w : SrsHttpResponseWriter) (data : Option Bytes) :
    (w.completeHeader data).get (str "Content-Length") = w.hdr.get (str "Content-Length") := by
  unfold completeHeader
  simp only
  rw [SrsHttpHeader.get_set_if _ (by decide), SrsHttpHeader.get_set_if _ (by decide),
    SrsHttpHeader.get_set_if _ (by decide)]
  cases data with
  | none => rfl
  | some d => exact SrsHttpHeader.get_set_if _ (by decide)

/-- Without a content length the encoding is that of chunks. -/
theorem completeHeader_chunked (hn : w.contentLength = -1) (data : Option Bytes) :
    (w.completeHeader data).get (str "Transfer-Encoding") = str "chunked" := by
  unfold completeHeader
  simp only [if_pos hn]
  rw [SrsHttpHeader.get_set_if _ (by decide)]
  exact SrsHttpHeader.get_set_self _ (str "Transfer-Encoding") _

/-! ## A body with a length -/

/-- A response: its pieces and its end. -/
def respond (ds : List Bytes) (w : SrsHttpResponseWriter) : Option SrsError × SrsHttpResponseWriter :=
  match writeAll ds w with
  | (some e, w') => (some e, w')
  | (none, w') => w'.finalRequest

/-- The writer counts `k` bytes of a body of `n`. -/
structure Metered (n k : Nat) (w : SrsHttpResponseWriter) : Prop where
  headerWrote : w.headerWrote = true
  contentLength : w.contentLength = n
  written : w.written = k
  hf : w.hf = none
  reliable : w.skt.Reliable

variable {n k : Nat}

theorem sendHeader_metered (h : Metered n k w) (data : Option Bytes) :
    ∃ w', w.sendHeader data = (none, w') ∧ Metered n k w' ∧ w'.headerSent = true ∧
      w'.skt.sent = w.skt.sent ++ w.pendingHeader data := by
  rw [sendHeader, pendingHeader]
  split_ifs with hsent
  · exact ⟨w, rfl, h, hsent, by simp⟩
  · obtain ⟨s', hwrite, hs', hrel⟩ :=
      Sink.write_of_reliable h.reliable (headerBlock w.status (w.completeHeader data))
    simp only [h.hf, hwrite]
    exact ⟨_, rfl, ⟨h.headerWrote, h.contentLength, h.written, rfl, hrel⟩, rfl, hs'⟩

/-- A write that fits puts its bytes behind the header. -/
theorem write_metered (h : Metered n k w) (data : Option Bytes) (hle : k + (data.getD []).length ≤ n) :
    ∃ w', w.write data = (none, w') ∧ Metered n (k + (data.getD []).length) w' ∧ w'.headerSent = true ∧
      w'.skt.sent = w.skt.sent ++ w.pendingHeader data ++ data.getD [] := by
  obtain ⟨w1, hsend, h1, hsent, hbytes⟩ := sendHeader_metered h data
  have hdefault : ∀ size, w.defaultHeader size = w := fun size => by
    rw [defaultHeader, if_pos h.headerWrote]
  have hwritten : (w1.written + (data.getD []).length : Int) = (k + (data.getD []).length : Nat) := by
    rw [h1.written]
    push_cast
    rfl
  have hfits : ¬ (w1.contentLength ≠ -1 ∧ w1.contentLength < w1.written + (data.getD []).length) := by
    rw [hwritten, h1.contentLength]
    omega
  rw [write, hdefault, hsend]
  simp only [if_neg hfits]
  by_cases hnil : data.getD [] = []
  · rw [if_pos hnil]
    refine ⟨_, rfl, ⟨h1.headerWrote, h1.contentLength, hwritten, h1.hf, h1.reliable⟩, hsent, ?_⟩
    rw [hnil, List.append_nil]
    exact hbytes
  · obtain ⟨s', hwrite, hs', hrel⟩ := Sink.write_of_reliable h1.reliable (data.getD [])
    rw [if_neg hnil, if_pos (by rw [h1.contentLength]; omega), hwrite]
    refine ⟨_, rfl, ⟨h1.headerWrote, h1.contentLength, hwritten, h1.hf, hrel⟩, hsent, ?_⟩
    rw [← hbytes]
    exact hs'

theorem writeAll_metered (h : Metered n k w) (ds : List Bytes) (hle : k + ds.flatten.length ≤ n) :
    ∃ w', writeAll ds w = (none, w') ∧ Metered n (k + ds.flatten.length) w' ∧
      w'.skt.sent ++ w'.pendingHeader none =
        w.skt.sent ++ w.pendingHeader ds.head? ++ ds.flatten := by
  induction ds generalizing w k with
  | nil => exact ⟨w, rfl, h, by simp⟩
  | cons d ds ih =>
    rw [List.flatten_cons, List.length_append] at hle ⊢
    obtain ⟨w1, hwrite, h1, hsent, hbytes⟩ := write_metered h (some d)
      (by simp only [Option.getD_some]; omega)
    simp only [Option.getD_some] at h1 hbytes
    obtain ⟨w2, hall, h2, hbytes2⟩ := ih h1 (by omega)
    refine ⟨w2, by simp [writeAll, hwrite, hall], by rwa [← Nat.add_assoc], ?_⟩
    rw [hbytes2, hbytes]
    simp [pendingHeader, hsent]

/-- Everything that a response with a length puts on the wire. -/
theorem respond_metered (h : Metered n 0 w) {ds : List Bytes} (hle : ds.flatten.length ≤ n) :
    ∃ w', respond ds w = (none, w') ∧
      w'.skt.sent = w.skt.sent ++ w.pendingHeader ds.head? ++ ds.flatten := by
  obtain ⟨w1, hall, h1, hbytes1⟩ := writeAll_metered h ds (by omega)
  rw [Nat.zero_add] at h1
  obtain ⟨w2, hsend, h2, hsent, hbytes2⟩ := sendHeader_metered h1 none
  obtain ⟨w3, hwrite, -, -, hbytes3⟩ := write_metered h2 none
    (by simp only [Option.getD_none, List.length_nil]; omega)
  have hheader : w1.writeHeader 200 = w1 := by rw [writeHeader, if_pos h1.headerWrote]
  have hlength : w2.contentLength ≠ -1 := by
    rw [h2.contentLength]
    omega
  refine ⟨w3, ?_, ?_⟩
  · simp only [respond, hall, finalRequest, hheader, hsend, if_neg hlength, hwrite]
  · have hpending : w2.pendingHeader none = [] := by rw [pendingHeader, if_pos hsent]
    rw [hbytes3, hbytes2, hbytes1, hpending]
    simp

/-! ## There and back -/

/-- The bytes behind the header: chunks, or the pieces as they are. -/
def wireBody (hdr : SrsHttpHeader) (ds : List Bytes) : Bytes :=
  if hdr.get (str "Content-Length") = [] then encode ds else ds.flatten

variable {io : Sink} {hdr : SrsHttpHeader} {code : Int} {ds : List Bytes}

/-- The writer with its header and its status. -/
def started (io : Sink) (hdr : SrsHttpHeader) (code : Int) : SrsHttpResponseWriter :=
  writeHeader { init io with hdr := hdr } code

/-- The header of a response, as it is on the wire. -/
def sentHeader (io : Sink) (hdr : SrsHttpHeader) (code : Int) (ds : List Bytes) : SrsHttpHeader :=
  (started io hdr code).completeHeader ds.head?

/-- The header has no content length, or that of the pieces. -/
def Fitting (hdr : SrsHttpHeader) (ds : List Bytes) : Prop :=
  hdr.get (str "Content-Length") = [] ∨
    hdr.Declares (some ds.flatten.length) ∧ ds.flatten.length < 2 ^ 31

theorem respond_started (hio : io.Reliable) (hds : ∀ d ∈ ds, d ≠ []) (hfit : Fitting hdr ds) :
    ∃ w, respond ds (started io hdr code) = (none, w) ∧
      w.skt.sent = io.sent ++ headerBlock code (sentHeader io hdr code ds) ++ wireBody hdr ds := by
  have hpending : (started io hdr code).pendingHeader ds.head? =
      headerBlock code (sentHeader io hdr code ds) := rfl
  rw [← hpending]
  rcases hfit with hnone | ⟨hdecl, hlt⟩
  · obtain ⟨w1, w2, hall, hfinal, hsent⟩ := respond_sent (chunking_writeHeader hio hnone code) hds
    refine ⟨w2, ?_, ?_⟩
    · simp only [respond, started, hall, hfinal]
    · rw [wireBody, if_pos hnone]
      exact hsent
  · have hlength := SrsHttpHeader.contentLength_some hdecl
    have hmetered : Metered ds.flatten.length 0 (started io hdr code) :=
      ⟨rfl, hlength, rfl, rfl, hio⟩
    obtain ⟨w, hresp, hsent⟩ := respond_metered hmetered (le_refl _)
    obtain ⟨t, hget, hne, -⟩ := hdecl
    refine ⟨w, hresp, ?_⟩
    rw [wireBody, if_neg (by rw [hget]; exact hne)]
    exact hsent

variable {pa : Option Bytes} {o : SrsHttpParser} {src : Source} {m : SrsHttpMessage} {T : Bytes} {r : Reading}
  {hp : HttpParser} {sizes : Nat → Nat}

/-- The message of a header that has been sent. -/
theorem message_of_sent (pa : Option Bytes) {h : SrsHttpHeader} (ho : o.type = .response) (hs : h.Sendable)
    (hH : IsHeader .response (headerBlock code h))
    (hr : readHead .response (headerBlock code h) = .ok r) :
    ∃ m, headMessage pa o (headerBlock code h) = some m ∧ m.body = SrsHttpResponseReader.fresh ∧
      (m.status : Int) = code ∧
      (∀ key, canonicalKey key = key → isListed key = false → m.header.get key = h.get key) ∧
      m.chunked = decide (h.get (str "Transfer-Encoding") = str "chunked") ∧
      (h.get (str "Content-Length") ≠ [] → m.contentLength = atoll (h.get (str "Content-Length"))) := by
  obtain ⟨-, r', hp, hr', hhp, hstatus, hfields⟩ :=
    blockReads_of_readable hs.line hs.oneLength (readable_of_read hs.line hs.oneLength hH hr)
  obtain ⟨m, hm⟩ : ∃ m, messageOf pa o r'.head = (none, some m) := by
    unfold messageOf toMessage
    simp only [hhp, ho]
    exact ⟨_, rfl⟩
  have hhead : headMessage pa o (headerBlock code h) = some m :=
    headMessage_eq_some_iff.2 ⟨r', by rw [ho]; exact hr', hm⟩
  have hsome : (messageOf pa o r'.head).2 = some m := by rw [hm]
  obtain ⟨hbody, htype⟩ := headMessage_closed (by rw [ho]; exact hH) hhead
  obtain ⟨hchunked, hlength, hcode⟩ := messageOf_framing hhp hsome
  have hget : ∀ key, canonicalKey key = key → isListed key = false →
      lookedUp r'.head.fields key = h.get key := by
    intro key hkey hlisted
    rw [hfields]
    refine SrsHttpHeader.lookedUp_eq hs ?_ hkey hlisted
    rintro rfl
    revert hlisted
    decide
  rw [hget _ (by decide) (by decide)] at hchunked hlength
  refine ⟨m, hhead, ?_, by rw [hcode]; exact hstatus, fun key hkey hlisted => ?_, hchunked, fun hne => ?_⟩
  · rw [Closed, htype, ho] at hbody
    rw [hbody]
    simp [SrsHttpResponseReader.fresh]
  · obtain ⟨m', hsame, -, rfl⟩ := messageOf_eq hhp hsome
    rw [← hget key hkey hlisted, ← header_get]
    exact congrArg (·.get key) hsame.header
  · rw [hlength, if_neg hne]

/-- The framing that the message has is the one that the writer has used. -/
theorem framing_of_sent (hfit : Fitting hdr ds)
    (hone : ¬ BothFramings (sentHeader io hdr code ds).outFields)
    (hchunked : m.chunked =
      decide ((sentHeader io hdr code ds).get (str "Transfer-Encoding") = str "chunked"))
    (hlength : (sentHeader io hdr code ds).get (str "Content-Length") ≠ [] →
      m.contentLength = atoll ((sentHeader io hdr code ds).get (str "Content-Length"))) :
    (hdr.get (str "Content-Length") = [] ∧ m.framing.chunked = true) ∨
      (hdr.get (str "Content-Length") ≠ [] ∧ m.framing = lengthFraming ds.flatten.length ∧
        ds.flatten.length < 2 ^ 31) := by
  have hcl : (sentHeader io hdr code ds).get (str "Content-Length") = hdr.get (str "Content-Length") :=
    completeHeader_length (started io hdr code) ds.head?
  rcases hfit with hnone | ⟨⟨t, hget, hne, hdigits, hvalue, -⟩, hlt⟩
  · refine .inl ⟨hnone, ?_⟩
    have hte := completeHeader_chunked (w := started io hdr code)
      (SrsHttpHeader.contentLength_none hnone) ds.head?
    rw [sentHeader, hte] at hchunked
    exact hchunked
  · have hcl' : (sentHeader io hdr code ds).get (str "Content-Length") = t := hcl.trans hget
    have hm : m.contentLength = ds.flatten.length := by
      have hatoll := @atoll_digits t [] hne hdigits (by simp)
      rw [List.append_nil, hvalue, clampLong_eq_self (by omega) (by omega)] at hatoll
      rw [hlength (by rw [hcl']; exact hne), hcl', hatoll]
    have hplain : m.chunked = false := by
      rw [hchunked, decide_eq_false_iff_not]
      intro hte
      -- both would be announced
      have hm₁ := SrsHttpHeader.mem_entries_of_get (show (sentHeader io hdr code ds).get
        (str "Transfer-Encoding") ≠ [] by rw [hte]; decide)
      have hm₂ := SrsHttpHeader.mem_entries_of_get (show (sentHeader io hdr code ds).get
        (str "Content-Length") ≠ [] by rw [hcl']; exact hne)
      have hname : isContentLength (str "Content-Length") = true := by decide
      rw [hte] at hm₁
      exact hone ⟨⟨_, SrsHttpHeader.mem_outFields_iff.2 (.inl hm₁), by decide⟩,
        _, SrsHttpHeader.mem_outFields_iff.2 (.inl hm₂), hname⟩
    exact .inr ⟨by rw [hget]; exact hne, by rw [SrsHttpMessage.framing, hplain, hm]; rfl, hlt⟩

/-- The body behind a header is drained. -/
theorem drain_wireBody (hsizes : ∀ i, 0 < sizes i) (hds : ∀ d ∈ ds, d ≠ [] ∧ d.length < 2 ^ 31)
    (hu : src.unread = wireBody hdr ds ++ T) (hs : src.skt.Healthy)
    (hb : src.buffer.nbBuffer = SRS_DEFAULT_RECV_BUFFER_SIZE) {f : BodyFraming}
    (hmode : (hdr.get (str "Content-Length") = [] ∧ f.chunked = true) ∨
      (hdr.get (str "Content-Length") ≠ [] ∧ f = lengthFraming ds.flatten.length ∧
        ds.flatten.length < 2 ^ 31)) :
    ∃ fuel, (drain f sizes fuel .fresh src).stop = some .httpResponseEof ∧
      (drain f sizes fuel .fresh src).data = ds.flatten ∧
      (drain f sizes fuel .fresh src).src.unread = T := by
  rcases hmode with ⟨hnone, hf⟩ | ⟨hsome, rfl, hlt⟩
  · rw [wireBody, if_pos hnone] at hu
    refine (drain_iff_decodes hf hs hsizes (by rw [hb]; decide)).2 ?_
    rw [hu, hb]
    exact decodes_encode (by decide) hds T
  · rw [wireBody, if_neg hsome] at hu
    obtain ⟨fuel, hstop, hdata, hrest⟩ := drain_fixed_delivers (n := ds.flatten.length) (by omega)
      (by omega) hs (by rw [hu, List.length_append]; omega) hsizes
    rw [hu, Int.toNat_natCast] at hdata hrest
    exact ⟨fuel, hstop, by rw [hdata, List.take_left], by rw [hrest, List.drop_left]⟩

/-- **A response is read back.**  A response with the header that the application has set and a body
in any number of pieces, chunk by chunk or with its length, is written without an error; and
whatever comes behind it and in whatever way it arrives, as long as the header is taken,
it is parsed as a message with the same status and the same fields, whose body is the pieces.  What
lies behind it stays. -/
theorem response_round_trip (ho : o.type = .response) (hio : io.Reliable) (hs : hdr.Sendable)
    (hds : ∀ d ∈ ds, d ≠ [] ∧ d.length < 2 ^ 31) (hfit : Fitting hdr ds) :
    (∃ w, respond ds (started io hdr code) = (none, w) ∧
      w.skt.sent = io.sent ++ headerBlock code (sentHeader io hdr code ds) ++ wireBody hdr ds) ∧
    ∀ src T, TakesHeader .response src (headerBlock code (sentHeader io hdr code ds)) →
      src.unread = headerBlock code (sentHeader io hdr code ds) ++ (wireBody hdr ds ++ T) →
      src.skt.Healthy → (∀ i, 0 < sizes i) →
      ∃ m fuel, (parseMessage pa o src).err = none ∧ (parseMessage pa o src).msg = some m ∧
        (m.status : Int) = code ∧
        (∀ key, canonicalKey key = key → isListed key = false →
          m.header.get key = (sentHeader io hdr code ds).get key) ∧
        (drain m.framing sizes fuel m.body (parseMessage pa o src).src).stop = some .httpResponseEof ∧
        (drain m.framing sizes fuel m.body (parseMessage pa o src).src).data = ds.flatten ∧
        (drain m.framing sizes fuel m.body (parseMessage pa o src).src).src.unread = T := by
  refine ⟨respond_started hio (fun d hd => (hds d hd).1) hfit, fun src T htakes hu hskt hsizes => ?_⟩
  have hsent : (sentHeader io hdr code ds).Sendable := sendable_completeHeader hs _
  obtain ⟨hH, hb, r, hr⟩ : IsHeader .response (headerBlock code (sentHeader io hdr code ds)) ∧
      src.buffer.nbBuffer = SRS_DEFAULT_RECV_BUFFER_SIZE ∧
      ∃ r, readHead .response (headerBlock code (sentHeader io hdr code ds)) = .ok r := by
    obtain ⟨bl, base, L, x, hblocks⟩ := htakes
    obtain ⟨rx, hrx⟩ := hblocks.accepted
    obtain ⟨r, hr, -⟩ := read_append_ok hrx
    exact ⟨hblocks.isHeader, hblocks.nbBuffer, r, hr⟩
  obtain ⟨m, hm, hbody, hstatus, hget, hchunked, hlength⟩ := message_of_sent pa ho hsent hH hr
  obtain ⟨herr, hmsg, hrest⟩ := parseMessage_header (by rw [ho]; exact htakes) hm
  rw [hu, List.append_cancel_left_eq] at hrest
  obtain ⟨bs, htook⟩ := parseMessage_took pa o src
  have hone := (readable_of_read hsent.line hsent.oneLength hH hr).one
  obtain ⟨fuel, hstop, hdata, hleft⟩ := drain_wireBody hsizes hds hrest.symm (htook.healthy hskt)
    (htook.nbBuffer.trans hb) (framing_of_sent hfit hone hchunked hlength)
  rw [← hbody] at hstop hdata hleft
  exact ⟨m, fuel, herr, hmsg, hstatus, hget, hstop, hdata, hleft⟩

theorem sendable_jsonHeader : jsonHeader.Sendable := by
  have hentries : jsonHeader.headers.entries = [(str "Content-Type", str "application/json")] := by
    decide
  refine ⟨line_jsonHeader, ?_, ?_⟩
  · rw [hentries]
    decide
  · rw [hentries]
    decide

/-- The header of a response in two chunks. -/
def jsonBlock : Bytes := headerBlock 200 (sentHeader ⟨[], []⟩ jsonHeader 200 [str "[1", str "]"])

/-- The response arrives in two pieces, with a byte of the next one. -/
def jsonSource : Source := Source.ofPieces [jsonBlock, encode [str "[1", str "]"] ++ str "H"]

theorem takesHeader_jsonBlock : TakesHeader .response jsonSource jsonBlock :=
  takesHeader_of_delivers (by decide) rfl (by decide +kernel)

/-- Two pieces, read back. -/
theorem response_round_trip_json : ∃ m fuel,
    (parseMessage none (new .response) jsonSource).msg = some m ∧ m.status = 200 ∧
    (drain m.framing (fun _ => SRS_HTTP_READ_CACHE_BYTES) fuel m.body
      (parseMessage none (new .response) jsonSource).src).data = str "[1]" := by
  have hfit : Fitting jsonHeader [str "[1", str "]"] := .inl (by decide)
  obtain ⟨-, hread⟩ := @response_round_trip ⟨[], []⟩ jsonHeader 200 [str "[1", str "]"] none (new .response)
    (fun _ => SRS_HTTP_READ_CACHE_BYTES) rfl (by simp [Sink.Reliable]) sendable_jsonHeader (by decide)
    hfit
  have hbody : wireBody jsonHeader [str "[1", str "]"] = encode [str "[1", str "]"] :=
    if_pos (by decide)
  obtain ⟨m, fuel, -, hmsg, hstatus, -, -, hdata, -⟩ := hread jsonSource (str "H") takesHeader_jsonBlock
    (by rw [hbody]; decide) (Socket.healthy_ofPieces _) (fun _ => by decide)
  exact ⟨m, fuel, hmsg, by omega, hdata⟩

end SrsHttpResponseWriter

end HttpProxy
