import HttpProxy.Message.Agreement
import HttpProxy.Message.Pipeline
import HttpProxy.Message.Splits
import HttpProxy.Message.Trailer

/-!
# What the bytes behind a message do to it

A message that keeps the connection is followed by other bytes in the same buffer, and
`parse_message` is compared on the two.

* `Quiet`, `Silent` — bytes in which no url and no field starts, and bytes that leave the
  message as it is.
* `headerBytes_le_iff` — when no byte behind the message is consumed.
* `KeptAlive` — a message behind which the http-parser goes on with the next one.
* `isolated_iff` — when the message is the same as without the bytes behind it.
-/

namespace HttpProxy

open HttpParser

/-! ## The bytes that are consumed -/

/-- A reading of some bytes takes at least one. -/
theorem Head.read_consumed_pos {p : HttpParser} {h : Head} {bs : Bytes} {r : Head.Reading}
    (hr : Head.read p h bs = .ok r) (hbs : bs ≠ []) : 0 < r.consumed := by
  cases bs with
  | nil => exact absurd rfl hbs
  | cons ch bs =>
    obtain ⟨o, -, ⟨-, rfl⟩ | ⟨-, r', -, rfl⟩⟩ := Head.read_cons_ok hr
    · exact Nat.one_pos
    · exact Nat.succ_pos _

/-- The end of the header of a message is found: it has a token, and the message none
behind it; or it has a trailer, and what is taken for its body starts behind it. -/
def HeaderEndFound (t : HttpParserType) (H B N : Bytes) : Prop :=
  (Quiet t H B ∧ ∃ k, PieceAt t H k) ∨
    (¬ Quiet t H B ∧ ∃ s, SrsHttpParser.lastBody t (H ++ B ++ N) = some s ∧ (H ++ B).length ≤ s)

namespace SrsHttpParser

variable {o o' : SrsHttpParser} {b : SrsFastStream} {H B N : Bytes} {r rM : Head.Reading}

/-- Without a pointer, what the http-parser has read is consumed. -/
theorem headerBytes_of_none (htl : o.pHeaderTail = none) (n : Nat) : o.headerBytes b n = n := by
  rw [headerBytes, htl]

/-- With both pointers in the buffer, the search decides. -/
theorem headerBytes_of_some {k s : Nat} (htl : o.pHeaderTail = some (b.p + k))
    (hs : o.pBodyStart = some (b.p + s)) (hpos : 0 < s) (n : Nat) :
    o.headerBytes b n =
      match findSub crlfcrlf ((b.unread.take s).drop k) with
      | some j => ((k + j + 4 : Nat) : Int)
      | none => n := by
  have hrange : (b.data.take (b.p + s)).drop (b.p + k) = (b.unread.take s).drop k := by
    rw [← List.drop_drop, List.drop_take, Nat.add_sub_cancel_left, SrsFastStream.unread]
  rw [headerBytes, htl, hs]
  simp only [findHeaderEnd, hrange]
  rw [if_pos (by omega)]
  cases findSub crlfcrlf ((b.unread.take s).drop k) with
  | none => rfl
  | some j =>
    simp only [Option.map_some]
    omega

/-- The place of the last body is behind the header. -/
theorem Executes.lastBody_ge {x : Bytes} (hx : Executes o b r o') (hu : b.unread = H ++ x)
    (hH : IsHeader o.type H) (hr : readHead o.type (H ++ x) = .ok r) :
    ∃ s, lastBody o.type (H ++ x) = some s ∧ o'.pBodyStart = some (b.p + s) ∧ H.length ≤ s ∧
      s ≤ (H ++ x).length := by
  obtain ⟨rH, hrH, -⟩ := read_append_ok hr
  have hhp := readHead_hp hrH (hH.ends rH hrH) hr
  have hlo : ∀ as bs r', b.unread = as ++ bs → readHead o.type as = .ok r' → r'.head.hp ≠ none →
      H.length ≤ as.length := by
    intro as bs r' has hr' hn
    by_contra hlt
    have htake : as = H.take as.length := by
      have := congrArg (List.take as.length) (has.symm.trans hu)
      rwa [List.take_left, List.take_append_of_le_length (by omega)] at this
    rw [htake] at hr'
    exact hn (hH.before as.length (by omega) r' hr')
  obtain ⟨-, n, hs, hn, hn'⟩ := (hx.behind H.length hlo).complete hhp
  rw [← SrsFastStream.length_unread, hu] at hn'
  have hbody := hx.bodyStart
  rw [hs, hu] at hbody
  cases hl : lastBody o.type (H ++ x) with
  | none => rw [hl] at hbody; cases hbody
  | some s =>
    rw [hl, Option.map_some, Option.some_inj] at hbody
    exact ⟨s, rfl, by rw [hs, hbody], by omega, by omega⟩

/-- A header without a token at its places has none. -/
theorem not_pieceAt {t : HttpParserType} (hq : Quiet t [] H) (k : Nat) : ¬ PieceAt t H k := by
  rintro (⟨hk, htok⟩ | ⟨hk, htok⟩)
  · have := hq k hk
    rw [List.nil_append, htok] at this
    cases this
  · cases k with
    | zero =>
      rw [List.take_zero, not_inUrlOrName_nil] at htok
      cases htok
    | succ k =>
      have := hq k (by omega)
      rw [List.nil_append, inToken_of_inUrlOrName htok] at this
      cases this

/-- What the http-parser takes from the buffer: the message, if that leaves HTTP, and more
otherwise. -/
theorem consumed_behind {t : HttpParserType} (hM : Complete t H B rM)
    (hr : readHead t (H ++ B ++ N) = .ok r) (hN : N ≠ []) :
    (rM.exited = true → r.consumed = (H ++ B).length) ∧
      (rM.exited = false → (H ++ B).length < r.consumed) := by
  refine ⟨fun hex => ?_, fun hex => ?_⟩
  · rw [readHead_exited hM.read hex] at hr
    rw [← Except.ok.inj hr, hM.consumed.1]
  · obtain ⟨rN, hrN, rfl⟩ := readHead_rest hM.read hex hr
    have := Head.read_consumed_pos hrN hN
    rw [Head.Reading.more_consumed, hM.consumed.1]
    omega

/-- The end of the header is found from a token of it, if the body has none. -/
theorem headerBytes_quiet (hx : Executes o b r o') (hu : b.unread = H ++ B ++ N)
    (hM : Complete o.type H B rM) (hend : crlfcrlf <:+ H)
    (hr : readHead o.type (H ++ B ++ N) = .ok r) (hqB : Quiet o.type H B)
    (hqN : Quiet o.type (H ++ B) N) :
    o'.headerBytes b r.consumed = if Quiet o.type [] H then (r.consumed : Int) else H.length := by
  obtain ⟨rH, hrH, -⟩ := read_append_ok hM.read
  have htl : o'.pHeaderTail = tailAfter b.p (.init o.type) 0 none H := by
    rw [hx.tail, hu, tailAfter_quiet hM.read hr fun hex => (quiet_iff hM.read hex).1 hqN,
      tailAfter_quiet hrH hM.read fun hex => (quiet_iff hrH hex).1 hqB]
  rcases tailAfter_cases b.p 0 none hrH with ⟨m, hm, htail, r', hr', ht'⟩ | ⟨htail, hnone⟩
  · have htok : inToken o.type (H.take (m + 1)) = true := inToken_iff.2 ⟨r', hr', ht'⟩
    have hqH : ¬ Quiet o.type [] H := by
      intro hq
      have := hq m hm
      rw [List.nil_append, htok] at this
      cases this
    rw [if_neg hqH]
    rw [List.append_assoc] at hu hr
    obtain ⟨s, -, hs, hle, -⟩ := hx.lastBody_ge hu hM.header hr
    rw [htail, Nat.zero_add] at htl
    have hdrop : (b.unread.take s).drop m = H.drop m ++ (B ++ N).take (s - H.length) := by
      rw [hu, List.take_append, List.take_of_length_le hle, List.drop_append_of_le_length hm.le]
    have hfour := Anchor.add_four_le (.inr htok) hM.header hrH hm hend
    rw [headerBytes_of_some htl hs (by omega), hdrop,
      Anchor.findSub_eq (.inr htok) hM.header hrH hm hend]
    simp only
    omega
  · have hqH : Quiet o.type [] H := by
      intro n hn
      rw [List.nil_append, ← Bool.not_eq_true, inToken_iff]
      rintro ⟨r', hr', ht'⟩
      exact ht' (hnone (.inl rfl) n hn r' hr')
    rw [if_pos hqH, headerBytes_of_none (htl.trans htail)]

/-- From a token of the trailer, the end of the message is found, if the search goes as far. -/
theorem headerBytes_trailer (hx : Executes o b r o') (hu : b.unread = H ++ B ++ N)
    (hM : Complete o.type H B rM) (hend : crlfcrlf <:+ H ++ B)
    (hr : readHead o.type (H ++ B ++ N) = .ok r) (hqB : ¬ Quiet o.type H B)
    (hqN : Quiet o.type (H ++ B) N) :
    ∃ s, lastBody o.type (H ++ B ++ N) = some s ∧ o'.headerBytes b r.consumed =
      if (H ++ B).length ≤ s then ((H ++ B).length : Int) else r.consumed := by
  obtain ⟨rH, hrH, hrest⟩ := read_append_ok hM.read
  have hex : rH.exited = false := by
    refine hM.not_exited (n := 0) (List.length_pos_of_ne_nil ?_)
      (by rw [List.take_zero, List.append_nil]; exact hrH)
    rintro rfl
    exact hqB fun n hn => absurd hn (Nat.not_lt_zero n)
  obtain ⟨rB, hrB, -⟩ := hrest hex
  have htl : o'.pHeaderTail = tailAfter b.p rH.parser (0 + H.length)
      (tailAfter b.p (.init o.type) 0 none H) B := by
    rw [hx.tail, hu, tailAfter_quiet hM.read hr fun hex => (quiet_iff hM.read hex).1 hqN,
      tailAfter_append hrH hex]
  rcases tailAfter_cases b.p (0 + H.length) (tailAfter b.p (.init o.type) 0 none H) hrB with
    ⟨m, hm, htail, r', hr', ht'⟩ | ⟨-, hnone⟩
  · have htok : inToken o.type (H ++ B.take (m + 1)) = true :=
      (inToken_append hrH hex).2 ⟨r', hr', ht'⟩
    have hu' := hu
    have hr'' := hr
    rw [List.append_assoc] at hu' hr''
    obtain ⟨s, hlast, hs, hle, -⟩ := hx.lastBody_ge hu' hM.header hr''
    rw [← List.append_assoc] at hlast
    have hpos := List.length_pos_of_ne_nil hM.header.ne_nil
    refine ⟨s, hlast, ?_⟩
    rw [htail, Nat.zero_add] at htl
    rw [headerBytes_of_some htl hs (by omega), ← List.drop_drop, hu']
    split_ifs with hsM
    · -- The search goes up to the end of the message.
      have hdrop : (((H ++ (B ++ N)).take s).drop H.length).drop m =
          B.drop m ++ N.take (s - (H ++ B).length) := by
        rw [← List.append_assoc, List.take_append, List.take_of_length_le hsM, List.append_assoc,
          List.drop_left, List.drop_append_of_le_length hm.le]
      obtain ⟨A, hA⟩ := hM.drop_eq_append hm htok hend
      have hlen := congrArg List.length hA
      rw [List.length_drop, List.length_append, crlfcrlf_length] at hlen
      rw [hdrop, hM.findSub_eq hm htok hend, List.length_append]
      simp only
      omega
    · have hdrop : (((H ++ (B ++ N)).take s).drop H.length).drop m =
          (B.take (s - H.length)).drop m := by
        rw [List.length_append] at hsM
        rw [List.take_append, List.take_of_length_le hle, List.drop_left,
          List.take_append_of_le_length (by omega)]
      rw [hdrop, hM.findSub_none hm htok (by rw [List.length_append] at hsM; omega)]
  · refine absurd ((quiet_iff hrH hex).2 fun n hn r' hr' => ?_) hqB
    exact hnone (.inr (hM.header.completes hrH).2) n hn r' hr'

/-- A token behind the message takes the pointer there, and bytes behind it are consumed. -/
theorem headerBytes_behind (hx : Executes o b r o') (hu : b.unread = H ++ B ++ N)
    (hM : Complete o.type H B rM) (hr : readHead o.type (H ++ B ++ N) = .ok r) (hN : N ≠ [])
    (hqN : ¬ Quiet o.type (H ++ B) N) : ((H ++ B).length : Int) < o'.headerBytes b r.consumed := by
  have hex : rM.exited = false := by
    by_contra hc
    exact hqN (quiet_of_exited hM.read (by simpa using hc) N)
  have hcons := (consumed_behind hM hr hN).2 hex
  obtain ⟨rN, hrN, -⟩ := readHead_rest hM.read hex hr
  have htl := hx.tail
  rw [hu, tailAfter_append hM.read hex] at htl
  rcases tailAfter_cases b.p (0 + (H ++ B).length) (tailAfter b.p (.init o.type) 0 none (H ++ B))
    hrN with ⟨m, hm, htail, -⟩ | ⟨-, hnone⟩
  · rw [htail, Nat.zero_add] at htl
    have hu' := hu
    have hr' := hr
    rw [List.append_assoc] at hu' hr'
    obtain ⟨s, -, hs, hle, -⟩ := hx.lastBody_ge hu' hM.header hr'
    have hpos := List.length_pos_of_ne_nil hM.header.ne_nil
    rw [headerBytes_of_some htl hs (by omega)]
    split
    · rw [Int.ofNat_lt]
      omega
    · exact Int.ofNat_lt.2 hcons
  · refine absurd ((quiet_iff hM.read hex).2 fun n hn r' hr' => ?_) hqN
    exact hnone (.inr (by rw [hM.ends]; rfl)) n hn r' hr'

/-- **When no byte behind a message is consumed.** -/
theorem headerBytes_le_iff (hx : Executes o b r o') (hu : b.unread = H ++ B ++ N)
    (hM : Complete o.type H B rM) (hend : crlfcrlf <:+ H)
    (htrl : ¬ Quiet o.type H B → crlfcrlf <:+ H ++ B)
    (hr : readHead o.type (H ++ B ++ N) = .ok r) (hN : N ≠ []) :
    o'.headerBytes b r.consumed ≤ (H ++ B).length ↔
      Quiet o.type (H ++ B) N ∧ (rM.exited = true ∨ HeaderEndFound o.type H B N) := by
  obtain ⟨hexit, hstay⟩ := consumed_behind hM hr hN
  by_cases hqN : Quiet o.type (H ++ B) N
  swap
  · have := headerBytes_behind hx hu hM hr hN hqN
    exact iff_of_false (by omega) fun h => hqN h.1
  by_cases hqB : Quiet o.type H B
  · rw [headerBytes_quiet hx hu hM hend hr hqB hqN]
    split_ifs with hqH
    · have hno : ¬ HeaderEndFound o.type H B N := by
        rintro (⟨-, k, hk⟩ | ⟨h, -⟩)
        · exact not_pieceAt hqH k hk
        · exact h hqB
      cases hex : rM.exited with
      | true =>
        have := hexit hex
        exact iff_of_true (by omega) ⟨hqN, .inl rfl⟩
      | false =>
        have := hstay hex
        exact iff_of_false (by omega) fun h => h.2.elim (by simp) hno
    · -- A token of the header is a place to search from.
      refine iff_of_true ?_ ⟨hqN, .inr (.inl ⟨hqB, ?_⟩)⟩
      · rw [List.length_append]
        omega
      · rw [Quiet] at hqH
        push Not at hqH
        obtain ⟨n, hn, htok⟩ := hqH
        exact ⟨n, .inl ⟨hn, by simpa using htok⟩⟩
  · obtain ⟨s, hs, hbytes⟩ := headerBytes_trailer hx hu hM (htrl hqB) hr hqB hqN
    have hfound : HeaderEndFound o.type H B N ↔ (H ++ B).length ≤ s := by
      constructor
      · rintro (⟨h, -⟩ | ⟨-, s', hs', hle⟩)
        · exact absurd h hqB
        · rw [hs] at hs'
          cases hs'
          exact hle
      · exact fun hle => .inr ⟨hqB, s, hs, hle⟩
    rw [hbytes, hfound]
    split_ifs with hle
    · exact iff_of_true (Int.le_refl _) ⟨hqN, .inr hle⟩
    · cases hex : rM.exited with
      | true =>
        have := hexit hex
        exact iff_of_true (by omega) ⟨hqN, .inl rfl⟩
      | false =>
        have := hstay hex
        exact iff_of_false (by omega) fun h => h.2.elim (by simp) hle

/-! ## The message that is made -/

/-- Two parsers that give the same message with the same url and fields. -/
structure SameStart (header : SrsHttpHeader) (hp hp' : HttpParser) : Prop where
  type : hp'.type = hp.type
  method : hp'.method = hp.method
  status : hp'.statusCode = hp.statusCode
  keepAlive : hp'.shouldKeepAlive = hp.shouldKeepAlive
  length : header.get (str "Content-Length") ≠ [] ∨
    toInt64 hp'.contentLength = toInt64 hp.contentLength

theorem setHeader_congr {header : SrsHttpHeader} {hp hp' : HttpParser}
    (hs : SameStart header hp hp') :
    (SrsHttpMessage.new.setBasic hp'.type hp'.method hp'.statusCode
        (toInt64 hp'.contentLength)).setHeader header hp'.shouldKeepAlive =
      (SrsHttpMessage.new.setBasic hp.type hp.method hp.statusCode
        (toInt64 hp.contentLength)).setHeader header hp.shouldKeepAlive := by
  rw [hs.type, hs.method, hs.status, hs.keepAlive]
  rcases hs.length with h | h
  · simp only [SrsHttpMessage.setHeader, SrsHttpMessage.setBasic, if_neg h]
  · rw [h]

/-- The same url, fields and start give the same message. -/
theorem messageOf_sameStart (pa : Option Bytes) (o : SrsHttpParser) {h h' : Head} {hp hp' : HttpParser}
    (hurl : h'.url = h.url) (hfields : h'.fields = h.fields) (hhp : h.hp = some hp)
    (hhp' : h'.hp = some hp') (hs : SameStart h.header hp hp') :
    messageOf pa o h' = messageOf pa o h := by
  have hheader : h'.header = h.header := by simp only [Head.header, hfields]
  simp only [messageOf, toMessage, hurl, hheader, hhp, hhp', setHeader_congr hs]

theorem keepAlive_setUrl {m m' : SrsHttpMessage} {pa : Option Bytes} {url : Bytes} {jsonp : Bool}
    {e : Option SrsError} (h : m.setUrl pa url jsonp = (e, m')) : m'.keepAlive = m.keepAlive := by
  obtain ⟨uri, ext, query, jsonp', jsonpMethod, rfl⟩ := setUrl_cases h
  rfl

theorem keepAlive_getHostPort (m : SrsHttpMessage) : m.getHostPort.keepAlive = m.keepAlive := by
  unfold SrsHttpMessage.getHostPort
  split_ifs
  · rfl
  · simp only
    split_ifs <;> rfl

theorem messageOf_keepAlive {pa : Option Bytes} {o : SrsHttpParser} {h : Head} {hp : HttpParser}
    {m : SrsHttpMessage} (hhp : h.hp = some hp) (hm : (messageOf pa o h).2 = some m) :
    m.keepAlive = hp.shouldKeepAlive := by
  unfold messageOf toMessage at hm
  simp only [hhp] at hm
  cases ht : o.type with
  | response =>
    simp only [ht] at hm
    cases hm
    rfl
  | request =>
    simp only [ht] at hm
    split at hm
    · cases hm
    · rename_i m₁ heq
      split at heq
      · cases heq
      · rename_i m₂ hurl
        cases heq
        cases hm
        exact (keepAlive_getHostPort m₂).trans (keepAlive_setUrl hurl)

/-- The same message is made of the same start. -/
theorem sameStart_of_messageOf {pa : Option Bytes} {o : SrsHttpParser} {h h' : Head} {hp hp' : HttpParser}
    {m : SrsHttpMessage} (hfields : h'.fields = h.fields) (hhp : h.hp = some hp)
    (hhp' : h'.hp = some hp') (hm : (messageOf pa o h).2 = some m)
    (hm' : (messageOf pa o h').2 = some m) : SameStart h.header hp hp' := by
  obtain ⟨m₁, hs₁, -, rfl⟩ := messageOf_eq hhp hm
  obtain ⟨m₂, hs₂, -, heq⟩ := messageOf_eq hhp' hm'
  have hsame {α : Type} (f : SrsHttpMessage → α) (hf : ∀ m, f m.restoreHttpHeader = f m) :
      f m₂ = f m₁ := by
    rw [← hf m₂, ← hf m₁, heq]
  obtain ⟨-, hlen, -⟩ := messageOf_framing hhp hm
  obtain ⟨-, hlen', -⟩ := messageOf_framing hhp' hm'
  refine ⟨?_, ?_, ?_, ?_, ?_⟩
  · exact hs₂.type.symm.trans ((hsame (·.type) fun _ => rfl).trans hs₁.type)
  · exact hs₂.method.symm.trans ((hsame (·.method) fun _ => rfl).trans hs₁.method)
  · exact hs₂.status.symm.trans ((hsame (·.status) fun _ => rfl).trans hs₁.status)
  · rw [← messageOf_keepAlive hhp' hm', messageOf_keepAlive hhp hm]
  · rw [Head.header_get]
    by_cases hnone : Head.lookedUp h.fields (str "Content-Length") = []
    · rw [hfields, if_pos hnone] at hlen'
      rw [if_pos hnone] at hlen
      exact .inr (hlen'.symm.trans hlen)
    · exact .inl hnone

/-! ## Isolation -/

/-- A message behind which the http-parser expects another one.  The header ends with an empty
line, and so does the trailer if there is one. -/
structure KeptAlive (t : HttpParserType) (H B : Bytes) : Prop where
  header : IsHeader t H
  same : SameMessage t H B
  keeps : ∃ r, readHead t (H ++ B) = .ok r ∧ r.parser.state = startState t
  line : crlfcrlf <:+ H
  trailer : ¬ Quiet t H B → crlfcrlf <:+ H ++ B

theorem KeptAlive.complete {t : HttpParserType} {H B : Bytes} (hM : KeptAlive t H B) :
    ∃ r, Complete t H B r := by
  obtain ⟨r, hr, hst⟩ := hM.keeps
  refine ⟨r, hM.header, hr, hM.same, ?_⟩
  rw [hst]
  cases t <;> rfl

/-- Does a message take the connection out of HTTP? -/
def leavesHttp (t : HttpParserType) (M : Bytes) : Bool :=
  match readHead t M with
  | .ok r => r.exited
  | .error _ => false

/-- Bytes behind a message that leave it as it is: the http-parser accepts them, there is no url
and no field in them and no message that is not complete, and the last header in them, if there is
one, has the start of that of the message. -/
structure Silent (t : HttpParserType) (M N : Bytes) : Prop where
  quiet : Quiet t M N
  reads : ∃ r r' hp hp', readHead t M = .ok r ∧ readHead t (M ++ N) = .ok r' ∧
    r'.head.done = true ∧ r.head.hp = some hp ∧ r'.head.hp = some hp' ∧
    SameStart r.head.header hp hp'

/-- Bytes behind a message are not seen: `parse_message` returns the message that it returns
without them, and consumes none of them. -/
def Isolated (pa : Option Bytes) (o : SrsHttpParser) (src src' : Source) (M N : Bytes) : Prop :=
  (parseMessage pa o src').msg = (parseMessage pa o src).msg ∧
    ∃ n ≤ M.length, (parseMessage pa o src').src.unread = (M ++ N).drop n

theorem leavesHttp_eq {t : HttpParserType} {M : Bytes} {r : Head.Reading}
    (hr : readHead t M = .ok r) : leavesHttp t M = r.exited := by
  rw [leavesHttp, hr]

/-- What `parse_message` makes of a message and the bytes behind it. -/
theorem isolated_of_read (pa : Option Bytes) {o : SrsHttpParser} {src src' : Source} {H B N : Bytes}
    {r rM : Head.Reading} (hM : KeptAlive o.type H B) (hC : Complete o.type H B rM)
    (hb' : src'.buffer.nbBuffer = SRS_DEFAULT_RECV_BUFFER_SIZE)
    (hu' : src'.buffer.unread = H ++ B ++ N) (hskt : src'.skt.pending = []) (hN : N ≠ [])
    (hr : readHead o.type (H ++ B ++ N) = .ok r) (hdone : r.head.done = true) :
    Isolated pa o src src' (H ++ B) N ↔
      (messageOf pa o r.head).2 = (parseMessage pa o src).msg ∧
        Quiet o.type (H ++ B) N ∧ (rM.exited = true ∨ HeaderEndFound o.type H B N) := by
  rw [← hu'] at hr
  obtain ⟨hmsg, o', n, hx, hn, hbytes, hleft⟩ := parseMessage_block pa
    (by rw [hu']; exact List.append_ne_nil_of_right_ne_nil _ hN) hb' hr hdone
  rw [hu'] at hr
  rw [← SrsFastStream.length_unread, hu'] at hn
  have hiff := headerBytes_le_iff hx hu' hC hM.line hM.trailer hr hN
  rw [hbytes, Int.ofNat_le] at hiff
  rw [Isolated, hmsg, ← hiff, hleft, Source.unread, hskt, List.append_nil, hu']
  refine and_congr_right fun _ => ⟨?_, fun hle => ⟨n, hle, rfl⟩⟩
  rintro ⟨k, hk, heq⟩
  have := congrArg List.length heq
  simp only [List.length_drop, List.length_append] at this hn hk ⊢
  omega

/-- **When the bytes behind a message are not seen.** -/
theorem isolated_iff (pa : Option Bytes) {o : SrsHttpParser} {src src' : Source} {H B N : Bytes}
    {m : SrsHttpMessage} (hM : KeptAlive o.type H B)
    (hb : src.buffer.nbBuffer = SRS_DEFAULT_RECV_BUFFER_SIZE)
    (hb' : src'.buffer.nbBuffer = SRS_DEFAULT_RECV_BUFFER_SIZE)
    (hu : src.buffer.unread = H ++ B) (hu' : src'.buffer.unread = H ++ B ++ N)
    (hskt : src'.skt.pending = []) (hm : (parseMessage pa o src).msg = some m) :
    Isolated pa o src src' (H ++ B) N ↔
      N = [] ∨ leavesHttp o.type (H ++ B) = true ∨
        (Silent o.type (H ++ B) N ∧ HeaderEndFound o.type H B N) := by
  obtain ⟨rM, hC⟩ := hM.complete
  obtain ⟨-, hdone, hhp⟩ := hC.consumed
  have hne : H ++ B ≠ [] := List.append_ne_nil_of_left_ne_nil hM.header.ne_nil _
  obtain ⟨hmsg, -⟩ :=
    parseMessage_block pa (by rw [hu]; exact hne) hb (by rw [hu]; exact hC.read) hdone
  rw [leavesHttp_eq hC.read]
  by_cases hN : N = []
  · -- The same bytes.
    subst hN
    rw [List.append_nil] at hu'
    obtain ⟨hmsg', -, n, -, hn, -, hleft⟩ :=
      parseMessage_block pa (by rw [hu']; exact hne) hb' (by rw [hu']; exact hC.read) hdone
    refine iff_of_true ⟨hmsg'.trans hmsg.symm, n, ?_, ?_⟩ (.inl rfl)
    · rwa [← SrsFastStream.length_unread, hu'] at hn
    · rw [hleft, Source.unread, hskt, hu', List.append_nil]
  have hne' : src'.buffer.unread ≠ [] := by
    rw [hu']
    exact List.append_ne_nil_of_right_ne_nil _ hN
  constructor
  · intro hiso
    have hm' := hiso.1.trans hm
    cases hr : readHead o.type (H ++ B ++ N) with
    | error e =>
      rw [← hu'] at hr
      rw [parseMessage_block_error pa hne' hb' hr] at hm'
      cases hm'
    | ok r =>
      cases hd : r.head.done with
      | false =>
        rw [← hu'] at hr
        rw [parseMessage_unfinished pa hne' hb' hskt hr hd] at hm'
        cases hm'
      | true =>
        obtain ⟨hsame, hq, hex | hf⟩ :=
          (isolated_of_read pa hM hC hb' hu' hskt hN hr hd).1 hiso
        · exact .inr (.inl hex)
        · obtain ⟨hp, hhp⟩ := Option.ne_none_iff_exists'.1 hhp
          obtain ⟨hp', hhp'⟩ :=
            Option.ne_none_iff_exists'.1 (readHead_hp hC.read hC.consumed.2.2 hr)
          have hstart := sameStart_of_messageOf (hq.head hC.read hr).2 hhp hhp'
            (hmsg.symm.trans hm) (hsame.trans hm)
          exact .inr (.inr ⟨⟨hq, rM, r, hp, hp', hC.read, hr, hd, hhp, hhp', hstart⟩, hf⟩)
  · rintro (h | hex | ⟨⟨hq, r, r', hp, hp', hr, hr', hd, hhp, hhp', hstart⟩, hf⟩)
    · exact absurd h hN
    · have hr := readHead_exited hC.read hex N
      exact (isolated_of_read pa hM hC hb' hu' hskt hN hr hdone).2
        ⟨hmsg.symm, quiet_of_exited hC.read hex N, .inl hex⟩
    · rw [hC.read] at hr
      cases hr
      obtain ⟨hurl, hfields⟩ := hq.head hC.read hr'
      refine (isolated_of_read pa hM hC hb' hu' hskt hN hr' hd).2 ⟨?_, hq, .inr hf⟩
      rw [messageOf_sameStart pa o hurl hfields hhp hhp' hstart, hmsg]

/-- A connection of which these bytes have arrived, all of them in the buffer. -/
def buffered (D : Bytes) (h : D.length ≤ SRS_DEFAULT_RECV_BUFFER_SIZE) : Source :=
  ⟨{ SrsFastStream.mk0 with data := D, p_le := Nat.zero_le _, data_le := h }, []⟩

/-- A header with nothing behind it is a message, if the http-parser then expects another one. -/
theorem keptAlive_of_state {t : HttpParserType} {H : Bytes} (hH : acceptsHeader t H = true)
    (hstate : (readHead t H).toOption.map (·.parser.state) = some (startState t))
    (hline : crlfcrlf <:+ H) : KeptAlive t H [] := by
  refine ⟨(isHeader_of_accepts hH).1, fun n hn => absurd hn (Nat.not_lt_zero n), ?_, hline,
    fun h => absurd (fun n hn => absurd hn (Nat.not_lt_zero n)) h⟩
  rw [List.append_nil]
  cases hr : readHead t H with
  | error e => rw [hr] at hstate; cases hstate
  | ok r =>
    rw [hr] at hstate
    exact ⟨r, rfl, Option.some.inj hstate⟩

/-- A request for a tunnel, and the first bytes for it. -/
def tunnelHeader : Bytes := str "CONNECT a:1 HTTP/1.1\r\n\r\n"

/-- Bytes without a url and a field, behind which the header of the message is still the last
one, are silent. -/
theorem silent_of_hp {t : HttpParserType} {M N : Bytes} {hp : HttpParser} (hq : Quiet t M N)
    (hhp : (readHead t M).toOption.bind (·.head.hp) = some hp)
    (hhp' : (readHead t (M ++ N)).toOption.bind (·.head.hp) = some hp)
    (hdone : (readHead t (M ++ N)).toOption.map (·.head.done) = some true) : Silent t M N := by
  refine ⟨hq, ?_⟩
  cases hr : readHead t M with
  | error e => rw [hr] at hhp; cases hhp
  | ok r =>
    cases hr' : readHead t (M ++ N) with
    | error e => rw [hr'] at hdone; cases hdone
    | ok r' =>
      rw [hr] at hhp
      rw [hr'] at hhp' hdone
      exact ⟨r, r', hp, hp, rfl, rfl, Option.some.inj hdone, hhp, hhp', rfl, rfl, rfl, rfl, .inr rfl⟩

/-- A request for a tunnel with the first bytes for it, and a request with an empty line
behind it. -/
theorem isolated_iff_tunnel :
    Isolated none (new .request) (buffered tunnelHeader (by decide))
        (buffered (tunnelHeader ++ str "ab") (by decide)) (tunnelHeader ++ []) (str "ab") ∧
      Isolated none (new .request) (buffered exampleHeader (by decide))
        (buffered (exampleHeader ++ crlf) (by decide)) (exampleHeader ++ []) crlf := by
  constructor
  · obtain ⟨m, hm⟩ := Option.isSome_iff_exists.1
      (show (parseMessage none (new .request) (buffered tunnelHeader (by decide))).msg.isSome = true
        by decide)
    have hM := keptAlive_of_state (t := .request) (H := tunnelHeader) (by decide) (by decide)
      (by decide)
    exact (isolated_iff none hM rfl rfl rfl rfl rfl hm).2 (.inr (.inl (by decide)))
  · obtain ⟨m, hm⟩ := Option.isSome_iff_exists.1
      (show (parseMessage none (new .request) (buffered exampleHeader (by decide))).msg.isSome = true
        by decide)
    have hM := keptAlive_of_state (t := .request) (H := exampleHeader) (by decide) (by decide)
      (by decide)
    obtain ⟨hp, hhp⟩ := Option.isSome_iff_exists.1
      (show ((readHead .request exampleHeader).toOption.bind (·.head.hp)).isSome = true by decide)
    have hsame : (readHead .request (exampleHeader ++ crlf)).toOption.bind (·.head.hp) =
        (readHead .request exampleHeader).toOption.bind (·.head.hp) := by decide
    have hsilent : Silent .request exampleHeader crlf :=
      silent_of_hp (by decide) hhp (hsame.trans hhp) (by decide)
    exact (isolated_iff none hM rfl rfl rfl rfl rfl hm).2
      (.inr (.inr ⟨hsilent, .inl ⟨by decide, 4, .inl (by decide)⟩⟩))

/-- Behind another request, two urls become one. -/
def nextHeader : Bytes := str "GET /b HTTP/1.1\r\nHost: y\r\n\r\n"

theorem not_isolated_next :
    KeptAlive .request exampleHeader [] ∧
      (parseMessage none (new .request) (buffered exampleHeader (by decide))).msg.map (·.url) =
        some (str "/a") ∧
      (parseMessage none (new .request) (buffered (exampleHeader ++ nextHeader)
        (by decide))).msg.map (·.url) = some (str "/a/b") ∧
      ¬ Isolated none (new .request) (buffered exampleHeader (by decide))
        (buffered (exampleHeader ++ nextHeader) (by decide)) exampleHeader nextHeader := by
  have h1 : (parseMessage none (new .request) (buffered exampleHeader (by decide))).msg.map (·.url) =
      some (str "/a") := by decide
  have h2 : (parseMessage none (new .request) (buffered (exampleHeader ++ nextHeader)
      (by decide))).msg.map (·.url) = some (str "/a/b") := by decide
  refine ⟨keptAlive_of_state (by decide) (by decide) (by decide), h1, h2, fun h => ?_⟩
  rw [h.1, h1] at h2
  exact absurd h2 (by decide)

end SrsHttpParser

end HttpProxy
