import HttpProxy.Body.Reader
import HttpProxy.Message.Splits
import HttpProxy.Message.Trailer

/-!
# A header that is taken off a source

When a header arrives without a cut in a field name, and its end is where `parse_message` looks
for it, the parser returns the message of this header and leaves the source right behind it,
even if a part of the body came with the end of the header.

* `HeaderBlocks.head_eq` — bytes of a body that reach into no trailer field change nothing.
* `TakesHeader`, `parseMessage_takes`, `parseMessage_header` — the conditions, and the message.
-/

namespace HttpProxy

namespace SrsHttpParser

open HttpParser

/-! ## Headers that are taken -/

/-- The header `H` arrives in the blocks `bl` and `L`, and `x`, a part of the same message, behind
`L` in the last block, which lies at `base` in the memory of the buffer.  No cut lies in a field
name, and the end of the header is found. -/
structure HeaderBlocks (t : HttpParserType) (src : Source) (H : Bytes) (bl : List (Nat × Bytes))
    (base : Nat) (L x : Bytes) : Prop where
  blocks : src.blocks (bl.length + 1) = bl ++ [(base, L ++ x)]
  nbBuffer : src.buffer.nbBuffer = SRS_DEFAULT_RECV_BUFFER_SIZE
  last : L ≠ []
  header : H = bytesOf bl ++ L
  isHeader : IsHeader t H
  accepted : ∃ r, readHead t (H ++ x) = .ok r
  same : SameMessage t H x
  noCut : NoNameCut (bl.map Prod.snd ++ [L])
  found : x = [] ∨ (crlfcrlf <:+ H ∧ (∃ k, (bytesOf bl).length ≤ base + k ∧ PieceAt t H k) ∧
    ∀ n < x.length, inToken t (H ++ x.take (n + 1)) = false)

/-- `parse_message` takes the header `H` off the source, and nothing else. -/
def TakesHeader (t : HttpParserType) (src : Source) (H : Bytes) : Prop :=
  ∃ bl base L x, HeaderBlocks t src H bl base L x

/-- A header that arrives in one piece, with nothing behind it in the piece. -/
theorem takesHeader_of_delivers {t : HttpParserType} {src : Source} {H : Bytes}
    (hd : src.Delivers [H]) (hb : src.buffer.nbBuffer = SRS_DEFAULT_RECV_BUFFER_SIZE)
    (hacc : acceptsHeader t H = true) : TakesHeader t src H := by
  obtain ⟨hH, hread⟩ := isHeader_of_accepts hacc
  obtain ⟨⟨base, bs⟩, hblock, rfl⟩ := List.map_eq_singleton_iff.1 hd
  refine ⟨[], base, bs, [], by rw [List.append_nil]; exact hblock, hb, hH.ne_nil, rfl, hH,
    by rw [List.append_nil]; exact hread, ?_, ?_, .inl rfl⟩
  · intro n hn
    simp at hn
  · exact noNameCut_of_getLast (by simp)

/-- What has been read with the last block is the header. -/
theorem HeaderBlocks.head_eq {t : HttpParserType} {src : Source} {H : Bytes}
    {bl : List (Nat × Bytes)} {base : Nat} {L x : Bytes} {r rx : Head.Reading}
    (h : HeaderBlocks t src H bl base L x)
    (hr : readHead t H = .ok r) (hrx : readHead t (H ++ x) = .ok rx) :
    rx.head.hp = r.head.hp ∧ rx.head.url = r.head.url ∧ rx.head.fields = r.head.fields ∧
      rx.head.done = true := by
  obtain ⟨hphase, hdone⟩ := h.isHeader.phase_end hr
  cases hex : r.exited with
  | true =>
    -- the connection leaves HTTP with the header
    rw [readHead_exited hr hex] at hrx
    rw [← Except.ok.inj hrx]
    exact ⟨rfl, rfl, rfl, hdone⟩
  | false =>
    obtain ⟨r₂, hr₂, rfl⟩ := readHead_rest hr hex hrx
    have hf := (init_fits t).read hr
    have hsame : ∀ n < x.length, ∀ r', Head.read r.parser r.head (x.take n) = .ok r' →
        r'.parser.state.phase ≠ .start :=
      fun n hn r₁ hr₁ =>
        h.same.phase_ne (r := r₁.more r.consumed) hn (readHead_more hr hex hr₁)
    have hq : Quiet t H x := by
      rcases h.found with rfl | ⟨-, -, hq⟩
      · exact fun n hn => absurd hn (Nat.not_lt_zero n)
      · exact hq
    obtain ⟨hurl, hfields⟩ := hq.head hr hrx
    refine ⟨?_, hurl, hfields, (Head.read_sameMessage hf hr₂ hsame).2 hdone⟩
    rw [Head.Reading.more_head]
    cases x with
    | nil => cases hr₂; rfl
    | cons ch x =>
      have hstart := hsame 0 (Nat.succ_pos _) _ rfl
      have hb : Behind r.parser.flags.trailing r.parser.state.phase := by
        rcases hphase with h | h | h
        · exact .inl h
        · exact .inr (.inl h)
        · exact absurd h hstart
      exact Head.read_behind_hp hf hb hr₂ hsame

/-- The message depends on what the http-parser has found, on the url and on the fields. -/
theorem messageOf_congr (pa : Option Bytes) (o : SrsHttpParser) {h h' : Head} (hhp : h.hp = h'.hp)
    (hurl : h.url = h'.url) (hfields : h.fields = h'.fields) : messageOf pa o h = messageOf pa o h' := by
  have hheader : h.header = h'.header := by
    unfold Head.header
    rw [hfields]
  unfold messageOf
  rw [hhp, hurl, hheader]

/-- **A header that is taken.**  `parse_message` returns the message of the header, and leaves the
source right behind it. -/
theorem parseMessage_takes (pa : Option Bytes) {o : SrsHttpParser} {src : Source} {H : Bytes} {r : Head.Reading}
    (h : TakesHeader o.type src H) (hr : readHead o.type H = .ok r) :
    (parseMessage pa o src).err = (messageOf pa o r.head).1 ∧
      (parseMessage pa o src).msg = (messageOf pa o r.head).2 ∧
      src.unread = H ++ (parseMessage pa o src).src.unread := by
  obtain ⟨bl, base, L, x, h⟩ := h
  obtain ⟨rx, hrx⟩ := h.accepted
  obtain ⟨hhp, hurl, hfields, hdone⟩ := h.head_eq hr hrx
  have hH := h.isHeader
  rw [h.header] at hH
  have hd : src.Delivers (bl.map Prod.snd ++ [L ++ x]) := by
    rw [Source.Delivers, List.length_append, List.length_map, List.length_singleton, h.blocks]
    simp
  -- up to the last block no header is complete, and no name is open
  obtain ⟨r₀, hr₀, -⟩ := read_append_ok (show readHead o.type (bytesOf bl ++ (L ++ x)) = .ok rx by
    rw [← List.append_assoc, ← h.header]; exact hrx)
  have hcut : ∀ as bs, bl.map Prod.snd = as ++ bs → ∀ r, readHead o.type as.flatten = .ok r →
      r.parser.state.phase ≠ .name := by
    intro as bs heq r' hr'
    have hcut := h.noCut
    rw [heq, List.append_assoc] at hcut
    refine hcut.phase_ne ?_ (by simp [h.last]) hr'
    rw [← List.append_assoc, ← heq]
    simpa [bytesOf] using hH
  have hbefore : r₀.head.hp = none := hH.before_append h.last hr₀
  obtain ⟨g, o', src', h', hloop, hu, hreach, ht, hj, hun, hbl⟩ :=
    reached_of_delivers hd h.nbBuffer hr₀ hbefore fun _ : True => fun as bs heq _ => hcut as bs heq
  have hphase : o'.parser.state.phase ≠ .name := by
    obtain ⟨r₁, hr₁, hp, -⟩ := hreach.read
    rw [← hp]
    exact hcut _ [] (by simp) r₁ hr₁
  have hread := hreach.read_append (L ++ x)
  rw [show (bl.map Prod.snd).flatten ++ (L ++ x) = H ++ x by
    rw [h.header, bytesOf, List.append_assoc], hrx] at hread
  cases hlast : Head.read o'.parser h' (L ++ x) with
  | error e =>
    rw [hlast] at hread
    cases hread
  | ok r₂ =>
    rw [hlast] at hread
    have hrx' : rx = r₂.more _ := Except.ok.inj hread
    rw [hrx'] at hhp hurl hfields hdone
    have hbase : base = src'.buffer.p := by
      rw [List.length_map, h.blocks] at hbl
      obtain ⟨bl', hbl'⟩ := hbl
      have := List.append_inj_right' hbl' rfl
      simp only [List.cons.injEq, Prod.mk.injEq] at this
      exact this.1.1
    obtain ⟨o'', hc, ht', hj', hfound, hturn⟩ := hreach.parseLoop_ends g hu h.last
      (fun _ : True => ⟨trivial, hphase⟩) hH (h.header ▸ h.same) (by rw [hu]; exact hlast)
    have hbytes := hfound.2 (by rw [← hbase]; exact h.header ▸ h.found)
    have hle : L.length ≤ src'.buffer.size := by
      rw [← SrsFastStream.length_unread, hu, List.length_append]
      omega
    rw [consume, hbytes, if_neg (by omega), Int.toNat_natCast, SrsFastStream.readSlice_of_le hle] at hturn
    obtain ⟨h1, h2⟩ := parseMessage_of_loop pa (hloop.trans hturn) hc (ht'.trans ht) (hj'.trans hj)
    have hmsg : messageOf pa o r₂.head = messageOf pa o r.head := messageOf_congr pa o hhp hurl hfields
    rw [h1, h2, hmsg]
    refine ⟨rfl, rfl, ?_⟩
    rw [parseMessage_src, hloop, hturn, hun, h.header, bytesOf, List.append_assoc,
      List.append_cancel_left_eq, Source.unread, Source.unread, hu, List.append_assoc,
      List.append_cancel_left_eq]
    simp only [SrsFastStream.advance_unread, hu, List.drop_left]

/-- The message that is made of a header. -/
def headMessage (pa : Option Bytes) (o : SrsHttpParser) (H : Bytes) : Option SrsHttpMessage :=
  match readHead o.type H with
  | .error _ => none
  | .ok r =>
      match messageOf pa o r.head with
      | (none, m) => m
      | (some _, _) => none

theorem headMessage_eq_some_iff {pa : Option Bytes} {H : Bytes} {o : SrsHttpParser} {m : SrsHttpMessage} :
    headMessage pa o H = some m ↔
      ∃ r, readHead o.type H = .ok r ∧ messageOf pa o r.head = (none, some m) := by
  unfold headMessage
  cases hr : readHead o.type H with
  | error e => simp
  | ok r =>
    simp only [Except.ok.injEq, exists_eq_left']
    cases hm : messageOf pa o r.head with
    | mk err msg => cases err <;> simp

theorem headMessage_fresh {pa : Option Bytes} {H : Bytes} {o : SrsHttpParser} {m : SrsHttpMessage}
    (h : headMessage pa o H = some m) : Fresh m := by
  obtain ⟨r, -, hm⟩ := headMessage_eq_some_iff.1 h
  unfold messageOf at hm
  split at hm
  · cases hm
  · rename_i m' heq
    cases hm
    exact toMessage_fresh heq

/-- The message is returned, and the source is left behind the header. -/
theorem parseMessage_header {pa : Option Bytes} {H : Bytes} {o : SrsHttpParser} {src : Source} {m : SrsHttpMessage}
    (h : TakesHeader o.type src H) (hm : headMessage pa o H = some m) :
    (parseMessage pa o src).err = none ∧ (parseMessage pa o src).msg = some m ∧
      src.unread = H ++ (parseMessage pa o src).src.unread := by
  obtain ⟨r, hr, hmsg⟩ := headMessage_eq_some_iff.1 hm
  have htakes := parseMessage_takes pa h hr
  rwa [hmsg] at htakes

/-! ## What is left -/

/-- The loop takes bytes off the source. -/
theorem parseLoop_took (fuel : Nat) (o : SrsHttpParser) (src : Source) :
    ∃ bs, SrsHttpResponseReader.Took src bs (parseLoop fuel o src).2.2 := by
  induction fuel generalizing o src with
  | zero => exact ⟨[], .of_grown (.refl src)⟩
  | succ fuel ih =>
    -- a read takes no byte, whether it fails or not
    have hmore : ∀ (src src' : Source) (n : Nat) (e : Option SrsError), src.grow n = (e, src') →
        SrsHttpResponseReader.Took src [] src' := by
      intro src src' n e hgrow
      have hg := SrsHttpResponseReader.Took.of_grown (Source.grow_grown src n)
      rwa [hgrow] at hg
    unfold parseLoop
    simp only
    split_ifs with h0
    · rcases hgrow : src.grow (src.buffer.size + 1) with ⟨_ | e, src'⟩
      · obtain ⟨bs, hbs⟩ := ih o src'
        exact ⟨_, (hmore _ _ _ _ hgrow).trans hbs⟩
      · exact ⟨_, hmore _ _ _ _ hgrow⟩
    · cases hexec : o.executeBuffer src.buffer with
      | error e => exact ⟨[], .of_grown (.refl src)⟩
      | ok y =>
        obtain ⟨o', b'⟩ := y
        obtain ⟨n, hn, rfl⟩ : ∃ n, ∃ hn : n ≤ src.buffer.size, b' = src.buffer.advance n hn := by
          unfold executeBuffer at hexec
          split at hexec
          · cases hexec
          · obtain ⟨n, hn, -, hb'⟩ := consume_advance hexec
            exact ⟨n, hn, hb'⟩
        simp only
        split_ifs
        · exact ⟨_, SrsHttpResponseReader.took_advance hn⟩
        · rcases hgrow : Source.grow { src with buffer := src.buffer.advance n hn }
              ((src.buffer.advance n hn).size + 1) with ⟨_ | e, src'⟩
          · obtain ⟨bs, hbs⟩ := ih o' src'
            exact ⟨_, (SrsHttpResponseReader.took_advance hn).trans ((hmore _ _ _ _ hgrow).trans hbs)⟩
          · exact ⟨_, (SrsHttpResponseReader.took_advance hn).trans (hmore _ _ _ _ hgrow)⟩

/-- An execution leaves the object of its type. -/
theorem executeBuffer_type {o o' : SrsHttpParser} {b b' : SrsFastStream}
    (h : o.executeBuffer b = .ok (o', b')) : o'.type = o.type := by
  unfold executeBuffer at h
  split at h
  · cases h
  · rename_i x hx
    unfold consume at h
    split_ifs at h
    split at h
    · cases h
    · cases h
      exact (foldl_callback_frame b.p b.size { o with parser := x.parser } x.callbacks).2.1

theorem parseLoop_type (fuel : Nat) (o : SrsHttpParser) (src : Source) :
    (parseLoop fuel o src).2.1.type = o.type := by
  induction fuel generalizing o src with
  | zero => rfl
  | succ fuel ih =>
    unfold parseLoop
    simp only
    split_ifs with h0
    · rcases src.grow (src.buffer.size + 1) with ⟨_ | e, src'⟩
      · exact ih o src'
      · rfl
    · cases hexec : o.executeBuffer src.buffer with
      | error e => rfl
      | ok y =>
        have htype := executeBuffer_type hexec
        simp only
        split_ifs
        · exact htype
        · rcases Source.grow { src with buffer := y.2 } (y.2.size + 1) with ⟨_ | e, src'⟩
          · exact (ih y.1 src').trans htype
          · exact htype

/-- The parser stays one of its type. -/
theorem parseMessage_type (pa : Option Bytes) (o : SrsHttpParser) (src : Source) :
    (parseMessage pa o src).parser.type = o.type := by
  have htype : (parseLoop (src.unread.length + 2) o.reset src).2.1.type = o.type :=
    parseLoop_type _ o.reset src
  rw [parseMessage, parseMessageImp]
  rcases hloop : parseLoop (src.unread.length + 2) o.reset src with ⟨_ | e, o', src'⟩
  · rw [hloop] at htype
    have hopen : (if o'.fieldValue = [] then o'
        else { o' with header := o'.header.set o'.fieldName o'.fieldValue }).type = o.type := by
      split_ifs <;> exact htype
    simp only
    generalize toMessage pa _ = m
    rcases m with ⟨_ | e, m⟩ <;> exact hopen
  · rw [hloop] at htype
    exact htype

/-- `parse_message` takes bytes off the source. -/
theorem parseMessage_took (pa : Option Bytes) (o : SrsHttpParser) (src : Source) :
    ∃ bs, SrsHttpResponseReader.Took src bs (parseMessage pa o src).src := by
  rw [parseMessage_src]
  exact parseLoop_took _ _ _

end SrsHttpParser

end HttpProxy
