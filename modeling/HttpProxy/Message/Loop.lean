import HttpProxy.Message.Tail

/-!
# The loop of `parse_message_imp`

The loop executes the http-parser on every block that arrives, until a header is
complete.  Before that, a block is consumed to its end; at that point, the length
of the header is found by a search from `p_header_tail` on.

* `Reached` — what holds between two executions, `Reached.advance` — that a block
  keeps it.
* `parseLoop_reached` — the blocks before the last one.
-/

namespace HttpProxy

namespace SrsHttpParser

/-! ## Callbacks and the rest of the object -/

theorem callback_frame (base size : Nat) (o : SrsHttpParser) (c : Callback) :
    (o.callback base size c).parser = o.parser ∧ (o.callback base size c).type = o.type ∧
      (o.callback base size c).jsonp = o.jsonp := by
  have hflush : o.flushField.parser = o.parser ∧ o.flushField.type = o.type ∧
      o.flushField.jsonp = o.jsonp := by
    rw [flushField]
    split_ifs <;> exact ⟨rfl, rfl, rfl⟩
  cases c with
  | data k m bs =>
    cases k with
    | headerField => exact hflush
    | headerValue =>
      simp only [callback, onHeaderValue]
      split_ifs <;> exact ⟨rfl, rfl, rfl⟩
    | url | body => exact ⟨rfl, rfl, rfl⟩
  | notify n => cases n <;> exact ⟨rfl, rfl, rfl⟩

theorem foldl_callback_frame (base size : Nat) (o : SrsHttpParser) (cs : List Callback) :
    (cs.foldl (callback base size) o).parser = o.parser ∧
      (cs.foldl (callback base size) o).type = o.type ∧
      (cs.foldl (callback base size) o).jsonp = o.jsonp := by
  induction cs generalizing o with
  | nil => exact ⟨rfl, rfl, rfl⟩
  | cons c cs ih =>
    obtain ⟨h1, h2, h3⟩ := ih (o.callback base size c)
    obtain ⟨g1, g2, g3⟩ := callback_frame base size o c
    exact ⟨h1.trans g1, h2.trans g2, h3.trans g3⟩

/-! ## Between two executions -/

/-- The bytes `P` have been read, no header is complete, and the parser object holds
what they say. -/
structure Reached (t : HttpParserType) (intact : Prop) (P : Bytes) (o : SrsHttpParser)
    (b : SrsFastStream) (h : Head) : Prop where
  read : ∃ r, readHead t P = .ok r ∧ r.parser = o.parser ∧ r.head = h
  before : h.hp = none
  collects : Collects intact h o
  bodyStart : o.pBodyStart = none
  tail : Placed t P b.data b.nbBuffer b.p o.pHeaderTail
  nbBuffer : b.nbBuffer = SRS_DEFAULT_RECV_BUFFER_SIZE

/-- The start of `parse_message`. -/
theorem reached_reset (o : SrsHttpParser) {b : SrsFastStream}
    (hb : b.nbBuffer = SRS_DEFAULT_RECV_BUFFER_SIZE) :
    Reached o.type True [] o.reset b .empty :=
  ⟨⟨_, rfl, rfl, rfl⟩, rfl, ⟨rfl, rfl, rfl, fun _ => ⟨rfl, rfl, rfl⟩⟩, rfl,
    placed_nil o.type b.data b.nbBuffer b.p, hb⟩

namespace Reached

variable {t : HttpParserType} {intact intact' : Prop} {P : Bytes} {o : SrsHttpParser}
  {b : SrsFastStream} {h : Head}

theorem fits (hr : Reached t intact P o b h) :
    Head.Fits o.parser.flags.trailing o.parser.state.phase h := by
  obtain ⟨r, hread, hp, hh⟩ := hr.read
  rw [← hp, ← hh]
  exact (init_fits t).read hread

theorem exited {r : Head.Reading} (hr : Reached t intact P o b h) (hread : readHead t P = .ok r)
    (hh : r.head = h) : r.exited = false :=
  Head.not_exited (init_fits t) hread (by rw [hh]; exact hr.before)

theorem length_le (hr : Reached t intact P o b h) : P.length ≤ HTTP_MAX_HEADER_SIZE := by
  obtain ⟨r, hread, -, hh⟩ := hr.read
  obtain ⟨h1, h2⟩ := Head.read_nread (init_fits t) hread (by rw [hh]; exact hr.before)
    (Nat.zero_le _)
  have hzero : (HttpParser.init t).nread = 0 := rfl
  omega

/-- What has been read continues with the bytes of the block. -/
theorem read_append (hr : Reached t intact P o b h) (D : Bytes) :
    readHead t (P ++ D) =
      (Head.read o.parser h D).map fun r' => r'.more P.length := by
  obtain ⟨r, hread, hp, hh⟩ := hr.read
  have hex := hr.exited hread hh
  have hlen := (Head.read_consumed hread).2 hex
  rw [readHead] at hread
  rw [readHead, Head.read_append, hread]
  simp only [hex, Bool.false_eq_true, if_false]
  rw [hp, hh, hlen]

/-- The next block arrives. -/
theorem filled {src src' : Source} (hr : Reached t intact P o src.buffer h)
    (hf : src.filled = some src') : Reached t intact P o src'.buffer h := by
  by_cases h0 : src.buffer.size = 0
  · refine ⟨hr.read, hr.before, hr.collects, hr.bodyStart, ?_, ?_⟩
    · exact hr.tail.filled hr.length_le hr.nbBuffer h0 hf
    · rw [(Source.filled_unread hf).2]
      exact hr.nbBuffer
  · rw [Source.filled, if_neg h0] at hf
    cases hf
    exact hr

/-- The pointer after the first bytes `L` of the block. -/
theorem placed {L x : Bytes} {r : Head.Reading} (hr : Reached t intact P o b h)
    (hL : b.unread = L ++ x) (hread : Head.read o.parser h L = .ok r) :
    Placed t (P ++ L) b.data b.nbBuffer (b.p + L.length)
      (tailAfter b.p o.parser 0 (tailAtStart b.p o.parser.state.phase o.pHeaderTail) L) := by
  obtain ⟨r₀, hread₀, hp, hh⟩ := hr.read
  rw [← hp, ← hh] at hread
  rw [← hp]
  refine hr.tail.block hread₀ (hr.exited hread₀ hh) hread b.p_le ?_
  rw [← SrsFastStream.unread, hL]
  exact List.prefix_append L x

/-- An execution reads the bytes of the block. -/
theorem agrees {lo : Nat} (hr : Reached t intact P o b h)
    (hi : intact' → intact ∧ o.parser.state.phase ≠ .name)
    (hlo : ∀ as bs r, b.unread = as ++ bs → Head.read o.parser h as = .ok r →
      r.head.hp ≠ none → lo ≤ as.length) (q : HttpParser) :
    Agrees intact' b.p b.size lo 0
      (tailAfter b.p o.parser 0 (tailAtStart b.p o.parser.state.phase o.pHeaderTail) b.unread)
      { o with parser := q } (o.parser.execute b.unread) (Head.read o.parser h b.unread) := by
  have hc : Collects intact' h { o with parser := q } :=
    ⟨hr.collects.hp, hr.collects.done, hr.collects.url, fun hi' =>
      have hf := hr.collects.fields (hi hi').1
      ⟨hf.name, hf.value, hf.header⟩⟩
  rw [← SrsFastStream.length_unread]
  exact execute_agrees hc hr.fits hr.before hr.bodyStart (fun h => (hi h).2) b.unread hlo

/-- A block that the http-parser rejects. -/
theorem executeBuffer_error {e : HttpErrno} (hr : Reached t intact P o b h)
    (hread : Head.read o.parser h b.unread = .error e) :
    o.executeBuffer b = .error .httpParseHeader := by
  have ha := hr.agrees False.elim (fun _ _ _ _ _ _ => Nat.zero_le _)
    o.parser
  rw [hread] at ha
  rw [executeBuffer]
  cases hx : o.parser.execute b.unread with
  | error e' => rfl
  | ok x => rw [hx] at ha; cases ha

/-- A block that the http-parser accepts. -/
theorem executeBuffer_ok {lo : Nat} {r : Head.Reading} (hr : Reached t intact P o b h)
    (hi : intact' → intact ∧ o.parser.state.phase ≠ .name)
    (hlo : ∀ as bs r, b.unread = as ++ bs → Head.read o.parser h as = .ok r →
      r.head.hp ≠ none → lo ≤ as.length)
    (hread : Head.read o.parser h b.unread = .ok r) :
    ∃ o', Collects intact' r.head o' ∧ o'.parser = r.parser ∧ o'.type = o.type ∧
      o'.jsonp = o.jsonp ∧
      o'.pHeaderTail = tailAfter b.p o.parser 0
        (tailAtStart b.p o.parser.state.phase o.pHeaderTail) b.unread ∧
      BodyStart b.p b.size lo r.consumed r.head o'.pBodyStart ∧
      o.executeBuffer b = o'.consume b r.consumed := by
  have ha := hr.agrees hi hlo
  rw [hread] at ha
  rw [executeBuffer]
  cases hx : o.parser.execute b.unread with
  | error e' =>
    have := ha o.parser
    rw [hx] at this
    cases this
  | ok x =>
    have hax := ha x.parser
    rw [hx] at hax
    cases hax with
    | ok hp hcons hc htl hb =>
      obtain ⟨h1, h2, h3⟩ := foldl_callback_frame b.p b.size { o with parser := x.parser } x.callbacks
      rw [Nat.zero_add] at hcons hb
      exact ⟨_, hc, h1.trans hp, h2, h3, htl, hb, by simp only [hcons]⟩

end Reached

/-- Everything that is buffered is consumed. -/
theorem consume_all {o : SrsHttpParser} {b : SrsFastStream} {n : Nat}
    (hn : o.headerBytes b n = b.size) :
    o.consume b n = .ok (o, b.advance b.size (Nat.le_refl _)) := by
  rw [consume, hn, if_neg (by omega), Int.toNat_natCast, SrsFastStream.readSlice_of_le (Nat.le_refl _)]

namespace Reached

variable {t : HttpParserType} {intact intact' : Prop} {P : Bytes} {o : SrsHttpParser}
  {b : SrsFastStream} {h : Head} {r : Head.Reading}

/-- **A block that does not complete the header is consumed to its end**, and what it
says is collected. -/
theorem advance (hr : Reached t intact P o b h)
    (hi : intact' → intact ∧ o.parser.state.phase ≠ .name)
    (hread : Head.read o.parser h b.unread = .ok r) (hn : r.head.hp = none) :
    ∃ o', o.executeBuffer b = .ok (o', b.advance b.size (Nat.le_refl _)) ∧
      o'.type = o.type ∧ o'.jsonp = o.jsonp ∧ o'.state.headerDone = false ∧
      Reached t intact' (P ++ b.unread) o' (b.advance b.size (Nat.le_refl _)) r.head := by
  obtain ⟨o', hc, hp, ht, hj, htl, hb, hx⟩ :=
    hr.executeBuffer_ok hi (fun _ _ _ _ _ _ => Nat.zero_le _) hread
  have hex := Head.not_exited hr.fits hread hn
  have hlen := (Head.read_consumed hread).2 hex
  have hstart := hb.before hn
  have hbytes : o'.headerBytes b r.consumed = b.size := by
    rw [headerBytes, hstart, hlen, SrsFastStream.length_unread]
    cases o'.pHeaderTail <;> rfl
  refine ⟨o', by rw [hx, consume_all hbytes], ht, hj, ?_, ?_, hn, hc, hstart, ?_, hr.nbBuffer⟩
  · rw [hc.done]
    exact ((hr.fits.read hread).before hn).1
  · refine ⟨r.more P.length, ?_, hp.symm, rfl⟩
    rw [hr.read_append, hread]
    rfl
  · rw [htl]
    have := hr.placed (x := []) (by simp) hread
    rwa [SrsFastStream.length_unread] at this

/-- A header section is read to its end. -/
theorem consumed_eq (hr : Reached t intact P o b h) (hH : IsHeader t (P ++ b.unread))
    (hread : Head.read o.parser h b.unread = .ok r) : r.consumed = b.size := by
  obtain ⟨hle, -⟩ := Head.read_consumed hread
  rw [SrsFastStream.length_unread] at hle
  by_contra hne
  have htake := Head.read_take_consumed hread
  have hwhole : readHead t (P ++ b.unread.take r.consumed) = .ok (r.more P.length) := by
    rw [hr.read_append, htake]
    rfl
  have hread' : readHead t (P ++ b.unread) = .ok (r.more P.length) := by
    rw [hr.read_append, hread]
    rfl
  have := hH.before (P.length + r.consumed)
    (by rw [List.length_append, SrsFastStream.length_unread]; omega) (r.more P.length)
    (by rw [List.take_append, List.take_of_length_le (by omega), Nat.add_sub_cancel_left]; exact hwhole)
  exact hH.ends _ hread' this

end Reached

/-! ## The loop -/

/-- Wait for a block. -/
theorem parseLoop_filled {src src' : Source} (hf : src.filled = some src') (f : Nat)
    (o : SrsHttpParser) : ∃ g, f ≤ g ∧ parseLoop (f + 1) o src = parseLoop g o src' := by
  rw [Source.filled] at hf
  split_ifs at hf with h0
  · refine ⟨f, Nat.le_refl _, ?_⟩
    rw [parseLoop]
    simp only [h0, if_true, Nat.zero_add]
    cases hg : src.grow 1 with
    | mk err src'' =>
      rw [hg] at hf
      cases err with
      | some e => cases hf
      | none => cases hf; rfl
  · cases hf
    exact ⟨f + 1, by omega, rfl⟩

/-- An execution that does not complete the header. -/
theorem parseLoop_more {src : Source} {o o' : SrsHttpParser} {f : Nat}
    (h0 : src.buffer.size ≠ 0)
    (hx : o.executeBuffer src.buffer =
      .ok (o', src.buffer.advance src.buffer.size (Nat.le_refl _)))
    (hdone : o'.state.headerDone = false) :
    parseLoop (f + 1) o src = parseLoop (f + 1) o' src.consumed := by
  rw [parseLoop, parseLoop]
  simp only [if_neg h0, hx, hdone, Bool.false_eq_true, if_false, Source.consumed_size, if_true]
  have hsize : (src.buffer.advance src.buffer.size (Nat.le_refl _)).size = 0 := src.consumed_size
  rw [hsize]
  rfl

theorem parseLoop_error {src : Source} {o : SrsHttpParser} {e : SrsError} {f : Nat}
    (h0 : src.buffer.size ≠ 0) (hx : o.executeBuffer src.buffer = .error e) :
    parseLoop (f + 1) o src = (some e, o, src) := by
  rw [parseLoop]
  simp only [if_neg h0, hx]

/-- **The blocks before the last one.**  As long as no header is complete, the loop
takes block after block. -/
theorem parseLoop_reached {t : HttpParserType} {intact intact' : Prop} {P D : Bytes}
    {ps : List Bytes} {o : SrsHttpParser} {src : Source} {h : Head} {r : Head.Reading} {f : Nat}
    (hr : Reached t intact P o src.buffer h) (hd : src.Delivers (ps ++ [D]))
    (hread : readHead t (P ++ ps.flatten) = .ok r) (hn : r.head.hp = none)
    (hcut : intact' → intact ∧ ∀ as bs, ps = as ++ bs → bs ≠ [] → ∀ r,
      readHead t (P ++ as.flatten) = .ok r → r.parser.state.phase ≠ .name)
    (hf : ps.length + 1 ≤ f) :
    ∃ g o' src' h', parseLoop (f + 1) o src = parseLoop (g + 1) o' src' ∧
      src'.buffer.unread = D ∧ Reached t intact' (P ++ ps.flatten) o' src'.buffer h' ∧
      o'.type = o.type ∧ o'.jsonp = o.jsonp ∧ src.unread = ps.flatten ++ src'.unread ∧
      ∃ bl, src.blocks (ps.length + 1) = bl ++ [(src'.buffer.p, D)] := by
  induction ps generalizing P o src h intact f with
  | nil =>
    obtain ⟨src', hfill, hu, -⟩ := Source.delivers_cons.1 hd
    obtain ⟨g, hg, heq⟩ := parseLoop_filled hfill f o
    obtain ⟨g, rfl⟩ : ∃ g', g = g' + 1 := ⟨g - 1, by simp at hf; omega⟩
    refine ⟨g, o, src', h, heq, hu, ?_, rfl, rfl, ?_, [], ?_⟩
    · have hr' := hr.filled hfill
      rw [List.flatten_nil, List.append_nil]
      exact ⟨hr'.read, hr'.before, hr'.collects.mono fun hi => (hcut hi).1, hr'.bodyStart,
        hr'.tail, hr'.nbBuffer⟩
    · rw [List.flatten_nil, List.nil_append, (Source.filled_unread hfill).1]
    · simp [Source.blocks, hfill, hu]
  | cons D₁ ps ih =>
    obtain ⟨src₁, hfill, hu, hd₁⟩ := Source.delivers_cons.1 hd
    subst hu
    obtain ⟨g, hg, heq⟩ := parseLoop_filled hfill f o
    rw [List.length_cons] at hf
    obtain ⟨g, rfl⟩ : ∃ g', g = g' + 1 := ⟨g - 1, by omega⟩
    have hr₁ := hr.filled hfill
    have h0 := Source.filled_size hfill
    -- The first block is read without completing the header, because the rest is.
    rw [List.flatten_cons, hr₁.read_append] at hread
    obtain ⟨rall, hall, rfl⟩ : ∃ rall, Head.read o.parser h
        (src₁.buffer.unread ++ ps.flatten) = .ok rall ∧ rall.more P.length = r := by
      cases hx : Head.read o.parser h (src₁.buffer.unread ++ ps.flatten) with
      | error e => rw [hx] at hread; cases hread
      | ok rall => rw [hx] at hread; exact ⟨rall, rfl, Except.ok.inj hread⟩
    obtain ⟨r₁, hr₁read, -⟩ := read_append_ok hall
    have hn₁ := read_append_before hall hn hr₁read
    have hname : intact' → intact ∧ o.parser.state.phase ≠ .name := by
      intro hi
      refine ⟨(hcut hi).1, ?_⟩
      obtain ⟨r₀, hr₀, hp₀, -⟩ := hr₁.read
      have := (hcut hi).2 [] (src₁.buffer.unread :: ps) rfl (by simp) r₀ (by simpa using hr₀)
      rwa [hp₀] at this
    obtain ⟨o₁, hx, ht, hj, hdone, hr₂⟩ := hr₁.advance hname hr₁read hn₁
    have hwhole : readHead t (P ++ src₁.buffer.unread ++ ps.flatten) = .ok (rall.more P.length) := by
      rw [List.append_assoc, hr₁.read_append, hall]
      rfl
    obtain ⟨g', o', src', h', hg', hu', hr', ht', hj', hun, bl, hbl⟩ :=
      ih (f := g) hr₂ hd₁ hwhole
        (fun hi => ⟨hi, fun as bs hps hbs r hr => (hcut hi).2 (src₁.buffer.unread :: as) bs
          (by rw [hps]; rfl) hbs r (by simpa using hr)⟩) (by omega)
    refine ⟨g', o', src', h', ?_, hu', ?_, ht'.trans ht, hj'.trans hj, ?_,
      (src₁.buffer.p, src₁.buffer.unread) :: bl, ?_⟩
    · rw [heq, parseLoop_more h0 hx hdone, hg']
    · rw [List.flatten_cons, ← List.append_assoc]
      exact hr'
    · rw [← (Source.filled_unread hfill).1, Source.consumed_unread, hun, List.flatten_cons,
        List.append_assoc]
    · rw [List.length_cons, Source.blocks, hfill]
      exact congrArg _ hbl

/-- The loop of `parse_message` up to the block `D`. -/
theorem reached_of_delivers {intact : Prop} {o : SrsHttpParser} {src : Source}
    {as : List Bytes} {D : Bytes} {r : Head.Reading} (hd : src.Delivers (as ++ [D]))
    (hb : src.buffer.nbBuffer = SRS_DEFAULT_RECV_BUFFER_SIZE)
    (hr : readHead o.type as.flatten = .ok r) (hn : r.head.hp = none)
    (hcut : intact → ∀ as' bs', as = as' ++ bs' → bs' ≠ [] → ∀ r,
      readHead o.type as'.flatten = .ok r → r.parser.state.phase ≠ .name) :
    ∃ g o' src' h', parseLoop (src.unread.length + 2) o.reset src = parseLoop (g + 1) o' src' ∧
      src'.buffer.unread = D ∧ Reached o.type intact as.flatten o' src'.buffer h' ∧
      o'.type = o.type ∧ o'.jsonp = o.jsonp ∧ src.unread = as.flatten ++ src'.unread ∧
      ∃ bl, src.blocks (as.length + 1) = bl ++ [(src'.buffer.p, D)] := by
  have hlen := Source.delivers_length hd
  rw [List.length_append, List.length_singleton] at hlen
  have h := parseLoop_reached (reached_reset o hb) hd (by simpa using hr) hn
    (fun hi : intact => ⟨trivial, by simpa using hcut hi⟩)
    (show as.length + 1 ≤ src.unread.length + 1 by omega)
  rwa [List.nil_append] at h

/-- **The last block.**  When a header is complete and no other message has begun, the
loop ends. -/
theorem Reached.parseLoop_last {t : HttpParserType} {intact intact' : Prop} {P : Bytes}
    {o : SrsHttpParser} {src : Source} {h : Head} {r : Head.Reading} {lo : Nat} (g : Nat)
    (hr : Reached t intact P o src.buffer h) (h0 : src.buffer.size ≠ 0)
    (hi : intact' → intact ∧ o.parser.state.phase ≠ .name)
    (hlo : ∀ as bs r, src.buffer.unread = as ++ bs → Head.read o.parser h as = .ok r →
      r.head.hp ≠ none → lo ≤ as.length)
    (hread : Head.read o.parser h src.buffer.unread = .ok r) (hdone : r.head.done = true) :
    ∃ o', Collects intact' r.head o' ∧ o'.type = o.type ∧ o'.jsonp = o.jsonp ∧
      o'.pHeaderTail = tailAfter src.buffer.p o.parser 0
        (tailAtStart src.buffer.p o.parser.state.phase o.pHeaderTail) src.buffer.unread ∧
      BodyStart src.buffer.p src.buffer.size lo r.consumed r.head o'.pBodyStart ∧
      parseLoop (g + 1) o src =
        match o'.consume src.buffer r.consumed with
        | .error e => (some e, o, src)
        | .ok (_, b') => (none, o', { src with buffer := b' }) := by
  obtain ⟨o', hc, -, ht, hj, htl, hb, hx⟩ := hr.executeBuffer_ok hi hlo hread
  refine ⟨o', hc, ht, hj, htl, hb, ?_⟩
  rw [parseLoop, if_neg h0, hx]
  cases hcons : o'.consume src.buffer r.consumed with
  | error e => rfl
  | ok y =>
    have hy : y.1 = o' := by
      rw [consume] at hcons
      split_ifs at hcons
      cases hs : src.buffer.readSlice (o'.headerBytes src.buffer r.consumed).toNat with
      | error e => rw [hs] at hcons; cases hcons
      | ok z => rw [hs] at hcons; cases hcons; rfl
    obtain ⟨o'', b'⟩ := y
    cases hy
    simp only [hc.done, hdone, if_true]

/-! ## The message -/

/-- The message that `parse_message` makes of a header. -/
def messageOf (publicAddress : Option Bytes) (o : SrsHttpParser) (h : Head) :
    Option SrsError × Option SrsHttpMessage :=
  match toMessage publicAddress
      { o with hpHeader := h.hp, url := h.url, header := h.header } with
  | (some e, _) => (some e, none)
  | (none, m) => (none, some m)

theorem toMessage_congr (pa : Option Bytes) {o o' : SrsHttpParser} (h1 : o'.hpHeader = o.hpHeader)
    (h2 : o'.url = o.url) (h3 : o'.header = o.header) (h4 : o'.type = o.type)
    (h5 : o'.jsonp = o.jsonp) : toMessage pa o' = toMessage pa o := by
  simp only [toMessage, h1, h2, h3, h4, h5]

/-- The field that is still open is put into the header at the end. -/
theorem parseMessage_of_loop (pa : Option Bytes) {o o' : SrsHttpParser} {src src' : Source} {h : Head}
    (hloop : parseLoop (src.unread.length + 2) o.reset src = (none, o', src'))
    (hc : Collects True h o') (ht : o'.type = o.type) (hj : o'.jsonp = o.jsonp) :
    (parseMessage pa o src).err = (messageOf pa o h).1 ∧
      (parseMessage pa o src).msg = (messageOf pa o h).2 := by
  have hheader : (if o'.fieldValue = [] then o'
      else { o' with header := o'.header.set o'.fieldName o'.fieldValue }).header = h.header := by
    obtain ⟨hname, hvalue, hhead⟩ := hc.fields trivial
    rw [apply_ite SrsHttpParser.header, hname, hvalue, hhead, Head.header]
    cases h.fields with
    | nil => simp [Head.closed]
    | cons f fs => rfl
  have hmsg := toMessage_congr pa (o := { o with hpHeader := h.hp, url := h.url, header := h.header })
    (by split_ifs <;> exact hc.hp) (by split_ifs <;> exact hc.url) hheader
    (by split_ifs <;> exact ht) (by split_ifs <;> exact hj)
  rw [parseMessage, parseMessageImp, hloop]
  simp only [hmsg, messageOf]
  cases toMessage pa { o with hpHeader := h.hp, url := h.url, header := h.header } with
  | mk e m => cases e <;> exact ⟨rfl, rfl⟩

theorem parseMessage_of_loop_error (pa : Option Bytes) {o o' : SrsHttpParser} {src src' : Source}
    {e : SrsError}
    (hloop : parseLoop (src.unread.length + 2) o.reset src = (some e, o', src')) :
    (parseMessage pa o src).err = some e ∧ (parseMessage pa o src).msg = none := by
  rw [parseMessage, parseMessageImp, hloop]
  exact ⟨rfl, rfl⟩

/-- A block that the http-parser rejects makes `parse_message` fail. -/
theorem parseMessage_error (pa : Option Bytes) {o : SrsHttpParser} {src : Source} {as bs : List Bytes}
    {D : Bytes} {r : Head.Reading} {e : HttpErrno} (hd : src.Delivers (as ++ D :: bs))
    (hb : src.buffer.nbBuffer = SRS_DEFAULT_RECV_BUFFER_SIZE)
    (hr : readHead o.type as.flatten = .ok r) (hn : r.head.hp = none)
    (he : readHead o.type (as.flatten ++ D) = .error e) :
    (parseMessage pa o src).err = some .httpParseHeader ∧ (parseMessage pa o src).msg = none := by
  have hD : D ≠ [] := (Source.delivers_prefix hd).2 D (by simp)
  rw [show as ++ D :: bs = as ++ [D] ++ bs by simp] at hd
  obtain ⟨g, o', src', h', hloop, rfl, hreach, -⟩ :=
    reached_of_delivers (Source.delivers_left hd) hb hr hn False.elim
  have h0 : src'.buffer.size ≠ 0 := by
    rw [← SrsFastStream.length_unread]
    exact fun h => hD (List.length_eq_zero_iff.1 h)
  rw [hreach.read_append] at he
  cases hread : Head.read o'.parser h' src'.buffer.unread with
  | ok r' => rw [hread] at he; cases he
  | error e' =>
    rw [parseLoop_error h0 (hreach.executeBuffer_error hread)] at hloop
    exact parseMessage_of_loop_error pa hloop

/-- The first piece at which the http-parser fails. -/
theorem readHead_first_error {t : HttpParserType} {P : Bytes} {ps : List Bytes} {e : HttpErrno}
    {r : Head.Reading} (hr : readHead t P = .ok r)
    (he : readHead t (P ++ ps.flatten) = .error e) :
    ∃ as D bs e' r', ps = as ++ D :: bs ∧ readHead t (P ++ as.flatten) = .ok r' ∧
      readHead t (P ++ as.flatten ++ D) = .error e' := by
  induction ps generalizing P r with
  | nil =>
    rw [List.flatten_nil, List.append_nil, hr] at he
    cases he
  | cons D ps ih =>
    rw [List.flatten_cons, ← List.append_assoc] at he
    cases hD : readHead t (P ++ D) with
    | error e' => exact ⟨[], D, ps, e', r, rfl, by simpa using hr, by simpa using hD⟩
    | ok r' =>
      obtain ⟨as, D', bs, e', r'', rfl, h1, h2⟩ := ih hD he
      exact ⟨D :: as, D', bs, e', r'', rfl, by simpa using h1, by simpa using h2⟩

/-- **What the http-parser rejects, `parse_message` rejects**, if no header is complete
before the last piece. -/
theorem parseMessage_rejects (pa : Option Bytes) {o : SrsHttpParser} {src : Source} {ps : List Bytes}
    {e : HttpErrno} (hd : src.Delivers ps)
    (hb : src.buffer.nbBuffer = SRS_DEFAULT_RECV_BUFFER_SIZE)
    (hbefore : ∀ as bs, ps = as ++ bs → bs ≠ [] → ∀ r, readHead o.type as.flatten = .ok r →
      r.head.hp = none)
    (he : readHead o.type ps.flatten = .error e) :
    (parseMessage pa o src).err = some .httpParseHeader ∧ (parseMessage pa o src).msg = none := by
  have hnil : readHead o.type [] = .ok ⟨.init o.type, .empty, 0, false⟩ := rfl
  obtain ⟨as, D, bs, e', r, rfl, hr, he'⟩ := readHead_first_error hnil (by simpa using he)
  rw [List.nil_append] at hr he'
  exact parseMessage_error pa hd hb hr (hbefore as (D :: bs) rfl (by simp) r hr) he'

/-- When `parse_message` succeeds, its loop has. -/
theorem parseLoop_ok {pa : Option Bytes} {o : SrsHttpParser} {src : Source}
    (h : (parseMessage pa o src).err = none) :
    (parseLoop (src.unread.length + 2) o.reset src).1 = none := by
  rw [parseMessage, parseMessageImp] at h
  rcases hloop : parseLoop (src.unread.length + 2) o.reset src with ⟨_ | e, o', src'⟩
  · rfl
  · rw [hloop] at h
    cases h

/-- `parse_message` leaves the source where the loop left it. -/
theorem parseMessage_src (pa : Option Bytes) (o : SrsHttpParser) (src : Source) :
    (parseMessage pa o src).src = (parseLoop (src.unread.length + 2) o.reset src).2.2 := by
  rw [parseMessage, parseMessageImp]
  rcases parseLoop (src.unread.length + 2) o.reset src with ⟨_ | e, o', src'⟩
  · simp only
    generalize toMessage pa _ = m
    rcases m with ⟨_ | e, m⟩ <;> rfl
  · rfl

end SrsHttpParser

end HttpProxy
