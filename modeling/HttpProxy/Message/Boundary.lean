import HttpProxy.Message.Loop

/-!
# The end of the header

When the header is complete, the http-parser has run on into the body, and the
bytes to consume are found by a search for CR LF CR LF between `p_header_tail` and
`p_body_start`.

* `Placed.findHeaderEnd_iff` — when the search finds the end of the header.
* `parseMessage_boundary` — when exactly the header is consumed.
-/

namespace HttpProxy

/-! ## The search -/

section

variable {t : HttpParserType} {H mem : Bytes} {nb c k : Nat} {r : Head.Reading}

/-- Every piece of a header starts before its end. -/
theorem PieceAt.lt_length (hk : PieceAt t H k) (hH : IsHeader t H) (hr : readHead t H = .ok r) :
    k < H.length := by
  rcases hk with ⟨hlt, -⟩ | ⟨hle, h⟩
  · exact hlt
  · by_contra hge
    have heq : k = H.length := by omega
    subst heq
    rw [List.take_length] at h
    obtain ⟨r', hr', ht'⟩ := inToken_iff.1 (inToken_of_inUrlOrName h)
    rw [hr] at hr'
    cases hr'
    exact ht' (hH.completes hr).2

/-- The memory between the pointer and a place behind the header. -/
theorem Near.drop_take {tl s : Nat} (hn : Near H mem c k tl) (hk : k ≤ H.length) (hcs : c ≤ s)
    (hs : s ≤ mem.length) : (mem.take s).drop tl = H.drop k ++ (mem.take s).drop c := by
  obtain ⟨hlen, hbytes⟩ := hn
  have hsplit := (List.take_append_drop c (mem.take s)).symm
  rw [List.take_take, Nat.min_eq_left hcs] at hsplit
  rw [← hbytes, ← List.drop_append_of_le_length (by rw [List.length_take]; omega), ← hsplit]

/-- **When the search finds the end of the header**: the header ends with CR LF CR LF,
and a piece of a token has been reported since the memory was last used from its
start. -/
theorem Placed.findHeaderEnd_iff {tl s : Nat} (hp : Placed t H mem nb c (some tl))
    (hH : IsHeader t H) (hr : readHead t H = .ok r) (hnb : nb = SRS_DEFAULT_RECV_BUFFER_SIZE)
    (hcs : c ≤ s) (hs : s ≤ mem.length) :
    SrsHttpParser.findHeaderEnd mem tl s = some c ↔
      crlfcrlf <:+ H ∧ ∃ k, H.length ≤ c + k ∧ PieceAt t H k := by
  rw [SrsHttpParser.findHeaderEnd, Option.map_eq_some_iff]
  cases hp with
  | @near _ k hk hn =>
    have hlt := hk.lt_length hH hr
    have hlen := hn.1
    rw [hn.drop_take hlt.le hcs hs]
    constructor
    · rintro ⟨j, hj, hend⟩
      refine ⟨?_, k, by omega, hk⟩
      -- The match ends with the header.
      obtain ⟨⟨-, hpre⟩, -⟩ := findSub_eq_some_iff.1 hj
      rw [List.drop_append_of_le_length (by rw [List.length_drop]; omega), List.drop_drop] at hpre
      have heq : crlfcrlf = H.drop (k + j) := by
        refine (List.prefix_of_prefix_length_le hpre (List.prefix_append _ _) ?_).eq_of_length ?_
        all_goals
          rw [List.length_drop, crlfcrlf_length]
          omega
      rw [heq]
      exact List.drop_suffix _ _
    · rintro ⟨hend, -⟩
      have hfour := hk.anchor.add_four_le hH hr hlt hend
      exact ⟨_, hk.anchor.findSub_eq hH hr hlt hend _, by omega⟩
  | far hf hno =>
    have hmax : HTTP_MAX_HEADER_SIZE = 81920 := rfl
    have hdef : SRS_DEFAULT_RECV_BUFFER_SIZE = 131072 := rfl
    have hle := hH.length_le hr
    obtain ⟨-, hf⟩ := hf
    constructor
    · rintro ⟨j, -, hend⟩
      omega
    · rintro ⟨-, k, hge, hk⟩
      have := hk.lt_length hH hr
      have := hno k hge hk
      omega

/-- With nothing behind the header, the search finds its end or nothing. -/
theorem Placed.findHeaderEnd_end {tl stop : Nat} (hp : Placed t H mem nb mem.length (some tl))
    (hH : IsHeader t H) (hr : readHead t H = .ok r) (hnb : nb = SRS_DEFAULT_RECV_BUFFER_SIZE)
    {s : Nat} (hs : s = mem.length) (hfind : SrsHttpParser.findHeaderEnd mem tl s = some stop) :
    stop = mem.length := by
  subst hs
  rw [SrsHttpParser.findHeaderEnd, Option.map_eq_some_iff] at hfind
  obtain ⟨j, hj, rfl⟩ := hfind
  cases hp with
  | near hk hn =>
    have hlt := hk.lt_length hH hr
    have hlen := hn.1
    rw [hn.2] at hj
    have := hk.anchor.findSub_end hH hr hlt hj
    omega
  | far hf hno =>
    have hmax : HTTP_MAX_HEADER_SIZE = 81920 := rfl
    have hdef : SRS_DEFAULT_RECV_BUFFER_SIZE = 131072 := rfl
    have hle := hH.length_le hr
    have hmatch := findSub_add_length_le hj
    rw [List.length_drop, List.take_length, crlfcrlf_length] at hmatch
    obtain ⟨-, hf⟩ := hf
    omega

end

namespace SrsHttpParser

namespace Reached

variable {t : HttpParserType} {intact : Prop} {P L x : Bytes} {o o' : SrsHttpParser}
  {b : SrsFastStream} {h : Head} {r rL : Head.Reading}

/-- The header of which a block has the last bytes. -/
theorem read_header (hr : Reached t intact P o b h) (hrL : Head.read o.parser h L = .ok rL) :
    readHead t (P ++ L) = .ok (rL.more P.length) := by
  rw [hr.read_append, hrL]
  rfl

/-- The header is complete with the last of its bytes, not before. -/
theorem before_header (hr : Reached t intact P o b h) (hL : b.unread = L ++ x)
    (hH : IsHeader t (P ++ L)) (as bs : Bytes) (r' : Head.Reading) (has : b.unread = as ++ bs)
    (hr' : Head.read o.parser h as = .ok r') (hn : r'.head.hp ≠ none) : L.length ≤ as.length := by
  by_contra hlt
  have htake : as = L.take as.length := by
    have : as ++ bs = L ++ x := has.symm.trans hL
    have := congrArg (List.take as.length) this
    rwa [List.take_left, List.take_append_of_le_length (by omega)] at this
  refine hn (hH.before (P.length + as.length) (by rw [List.length_append]; omega)
    (r'.more P.length) ?_)
  rw [List.take_length_add_append, ← htake]
  exact hr.read_header hr'

/-- With nothing behind the header, everything is consumed. -/
theorem headerBytes_eq (hr : Reached t intact P o b h) (hH : IsHeader t (P ++ b.unread))
    (hread : Head.read o.parser h b.unread = .ok r)
    (htl : o'.pHeaderTail = tailAfter b.p o.parser 0
      (tailAtStart b.p o.parser.state.phase o.pHeaderTail) b.unread)
    (hb : BodyStart b.p b.size b.unread.length r.consumed r.head o'.pBodyStart) :
    o'.headerBytes b r.consumed = b.size := by
  have hread' := hr.read_header hread
  have hp := hr.placed (x := []) (by simp) hread
  have hend : b.p + b.unread.length = b.data.length := by
    have := b.p_le
    rw [SrsFastStream.length_unread, SrsFastStream.size]
    omega
  rw [← htl, hend] at hp
  obtain ⟨-, n, hs, hn, hn'⟩ := hb.complete (hH.ends (r.more P.length) hread')
  rw [headerBytes, hr.consumed_eq hH hread, hs]
  cases htail : o'.pHeaderTail with
  | none => rfl
  | some tl =>
    simp only
    split_ifs
    · cases hfind : findHeaderEnd b.data tl (b.p + n) with
      | none => rfl
      | some stop =>
        rw [htail] at hp
        have hstop := hp.findHeaderEnd_end hH hread' hr.nbBuffer
          (by rw [SrsFastStream.length_unread] at hn; rw [← hend, SrsFastStream.length_unread]; omega)
          hfind
        simp only [hstop, ← hend, SrsFastStream.length_unread]
        omega
    · rfl

/-- **With more bytes behind the header**, when exactly the header is consumed. -/
theorem headerBytes_iff (hr : Reached t intact P o b h) (hL : b.unread = L ++ x)
    (hne : L ≠ []) (hx : x ≠ []) (hH : IsHeader t (P ++ L)) (hrL : Head.read o.parser h L = .ok rL)
    (hex : rL.exited = false) (hread : Head.read o.parser h b.unread = .ok r)
    (hcons : r.consumed = b.size)
    (htl : o'.pHeaderTail = tailAfter b.p o.parser 0
      (tailAtStart b.p o.parser.state.phase o.pHeaderTail) b.unread)
    (hb : BodyStart b.p b.size L.length r.consumed r.head o'.pBodyStart) :
    o'.headerBytes b r.consumed = L.length ↔
      crlfcrlf <:+ P ++ L ∧ (∃ k, P.length ≤ b.p + k ∧ PieceAt t (P ++ L) k) ∧
        ∀ n < x.length, inToken t (P ++ L ++ x.take (n + 1)) = false := by
  have hreadH := hr.read_header hrL
  have hp := hr.placed hL hrL
  have hlenL := List.length_pos_of_ne_nil hne
  have hlenx := List.length_pos_of_ne_nil hx
  have hsize : b.size = L.length + x.length := by
    rw [← SrsFastStream.length_unread, hL, List.length_append]
  have hmem : b.p + b.size = b.data.length := by
    have := b.p_le
    rw [SrsFastStream.size]
    omega
  rw [hL] at hread
  obtain ⟨rL', hrL', hrest⟩ := read_append_ok hread
  rw [hrL] at hrL'
  cases hrL'
  obtain ⟨rx, hrx, rfl⟩ := hrest hex
  obtain ⟨-, n, hs, hn, hn'⟩ := hb.complete
    (show rx.head.hp ≠ none from Head.read_hp hrx (hH.ends (rL.more P.length) hreadH))
  rw [hL, tailAfter_append hrL hex] at htl
  -- The bytes behind the header move the pointer if there is a token among them.
  have htok : ∀ m, inToken t (P ++ L ++ x.take (m + 1)) = true ↔ ∃ r',
      Head.read rL.parser rL.head (x.take (m + 1)) = .ok r' ∧
        r'.parser.state.phase.token ≠ none := by
    intro m
    have := inToken_append (D := x.take (m + 1)) hreadH hex
    exact this
  have hstretch : ∀ k, (P ++ L).length ≤ b.p + L.length + k ↔ P.length ≤ b.p + k := by
    intro k
    rw [List.length_append]
    omega
  rcases tailAfter_cases b.p (0 + L.length) (tailAfter b.p o.parser 0
    (tailAtStart b.p o.parser.state.phase o.pHeaderTail) L) hrx with
    ⟨m, hm, htail, r', hr', ht'⟩ | ⟨htail, hnone⟩
  · rw [headerBytes, htl, htail, hs]
    simp only
    rw [if_pos (by omega)]
    refine iff_of_false ?_ ?_
    · cases hfind : findHeaderEnd b.data (b.p + (0 + L.length + m)) (b.p + n) with
      | none =>
        rw [hcons]
        simp only
        omega
      | some stop =>
        rw [findHeaderEnd, Option.map_eq_some_iff] at hfind
        obtain ⟨j, -, rfl⟩ := hfind
        simp only
        omega
    · rintro ⟨-, -, hquiet⟩
      have := hquiet m hm
      rw [(htok m).2 ⟨r', hr', ht'⟩] at this
      cases this
  · have hquiet : ∀ n < x.length, inToken t (P ++ L ++ x.take (n + 1)) = false := by
      intro m hm
      by_contra hc
      obtain ⟨r', hr', ht'⟩ := (htok m).1 (by simpa using hc)
      exact ht' (hnone (.inr (hH.completes hreadH).2) m hm r' hr')
    rw [htail] at htl
    rw [← htl] at hp
    rw [headerBytes, hs]
    cases hptr : o'.pHeaderTail with
    | none =>
      rw [hptr] at hp
      cases hp with
      | unset hno =>
        refine iff_of_false ?_ ?_
        · rw [hcons]
          simp only
          omega
        · rintro ⟨-, ⟨k, -, hk⟩, -⟩
          exact hno k hk
    | some tl =>
      rw [hptr] at hp
      have hfind := hp.findHeaderEnd_iff hH hreadH hr.nbBuffer (Nat.add_le_add_left hn b.p)
        (by omega)
      simp only [hstretch] at hfind
      simp only
      rw [if_pos (by omega)]
      constructor
      · intro hbytes
        cases hstop : findHeaderEnd b.data tl (b.p + n) with
        | none =>
          rw [hstop, hcons] at hbytes
          simp only at hbytes
          omega
        | some stop =>
          rw [hstop] at hbytes
          simp only at hbytes
          obtain ⟨h1, h2⟩ := hfind.1 (by rw [hstop]; congr 1; omega)
          exact ⟨h1, h2, hquiet⟩
      · rintro ⟨h1, h2, -⟩
        rw [hfind.2 ⟨h1, h2⟩]
        simp only
        omega

end Reached

/-! ## The bytes behind the header -/

/-- What `read_slice` takes. -/
theorem consume_advance {o o' : SrsHttpParser} {b b' : SrsFastStream} {n : Nat}
    (h : o.consume b n = .ok (o', b')) :
    ∃ k, ∃ hk : k ≤ b.size, o.headerBytes b n = k ∧ b' = b.advance k hk := by
  rw [consume] at h
  split_ifs at h with hneg
  refine ⟨(o.headerBytes b n).toNat, ?_⟩
  by_cases hle : (o.headerBytes b n).toNat ≤ b.size
  · rw [SrsFastStream.readSlice_of_le hle] at h
    cases h
    exact ⟨hle, by omega, rfl⟩
  · rw [SrsFastStream.readSlice, dif_neg hle] at h
    cases h

/-- What `read_slice` leaves. -/
theorem consume_ok {o o' : SrsHttpParser} {b b' : SrsFastStream} {n : Nat}
    (h : o.consume b n = .ok (o', b')) :
    ∃ k ≤ b.size, o.headerBytes b n = k ∧ b'.unread = b.unread.drop k := by
  obtain ⟨k, hk, hbytes, rfl⟩ := consume_advance h
  exact ⟨k, hk, hbytes, SrsFastStream.advance_unread b hk⟩

end SrsHttpParser

/-- Do the bytes end between two messages? -/
def betweenMessages (t : HttpParserType) (S : Bytes) : Bool :=
  match readHead t S with
  | .ok r => r.parser.state.phase = .start
  | .error _ => false

/-- The bytes `x` behind `H` belong to the message that has begun: it is not complete
before their end. -/
def SameMessage (t : HttpParserType) (H x : Bytes) : Prop :=
  ∀ n < x.length, betweenMessages t (H ++ x.take n) = false

instance (t : HttpParserType) (H x : Bytes) : Decidable (SameMessage t H x) :=
  inferInstanceAs (Decidable (∀ n < x.length, _))

theorem SameMessage.phase_ne {t : HttpParserType} {H x : Bytes} (hx : SameMessage t H x) {n : Nat}
    (hn : n < x.length) {r : Head.Reading} (hr : readHead t (H ++ x.take n) = .ok r) :
    r.parser.state.phase ≠ .start := by
  have := hx n hn
  rw [betweenMessages, hr] at this
  simpa using this

/-- Within a message, a header that is complete stays so, and every byte is read. -/
theorem Head.read_sameMessage {p : HttpParser} {h : Head} {x : Bytes} {r : Reading}
    (hf : Fits p.flags.trailing p.state.phase h) (hr : read p h x = .ok r)
    (hx : ∀ n < x.length, ∀ r', read p h (x.take n) = .ok r' → r'.parser.state.phase ≠ .start) :
    r.consumed = x.length ∧ (h.done = true → r.head.done = true) := by
  induction x generalizing p h r with
  | nil => cases hr; exact ⟨rfl, id⟩
  | cons ch x ih =>
    have hstart : p.state.phase ≠ .start := hx 0 (by simp) ⟨p, h, 0, false⟩ rfl
    obtain ⟨o, hs, ho⟩ := read_cons_ok hr
    have hm := HttpParser.stepByte_moves hs
    have hdone : h.done = true → (h.step o.acts o.parser.state.phase ch).done = true :=
      fun hd => step_done_of_ne_start hm hf hstart hd
    rcases ho with ⟨hexit, rfl⟩ | ⟨hexit, r', hr', rfl⟩
    · refine ⟨?_, hdone⟩
      cases x with
      | nil => rfl
      | cons ch' x =>
        rw [hexit] at hm
        exact absurd (hm.exit_start hf.resting) (hx 1 (by simp) _ (read_singleton hs h))
    · obtain ⟨h1, h2⟩ := ih (hf.step hm) hr' fun n hn r₁ hr₁ =>
        hx (n + 1) (by simpa using hn) (r₁.more 1) (read_cons hs hexit hr₁)
      exact ⟨congrArg (· + 1) h1, fun hd => h2 (hdone hd)⟩

namespace SrsHttpParser

/-- **The block in which the header ends**: the loop ends there, and consumes the header exactly if
its end is found. -/
theorem Reached.parseLoop_ends {t : HttpParserType} {intact intact' : Prop} {P L x : Bytes}
    {o : SrsHttpParser} {src : Source} {h : Head} {r : Head.Reading} (g : Nat)
    (hr : Reached t intact P o src.buffer h) (hu : src.buffer.unread = L ++ x) (hL : L ≠ [])
    (hi : intact' → intact ∧ o.parser.state.phase ≠ .name)
    (hH : IsHeader t (P ++ L)) (hx : SameMessage t (P ++ L) x)
    (hread : Head.read o.parser h src.buffer.unread = .ok r) :
    ∃ o', Collects intact' r.head o' ∧ o'.type = o.type ∧ o'.jsonp = o.jsonp ∧
      (o'.headerBytes src.buffer r.consumed = L.length ↔
        x = [] ∨ (crlfcrlf <:+ P ++ L ∧
          (∃ k, P.length ≤ src.buffer.p + k ∧ PieceAt t (P ++ L) k) ∧
          ∀ n < x.length, inToken t (P ++ L ++ x.take (n + 1)) = false)) ∧
      parseLoop (g + 1) o src =
        match o'.consume src.buffer r.consumed with
        | .error e => (some e, o, src)
        | .ok (_, b') => (none, o', { src with buffer := b' }) := by
  have hsize : src.buffer.size = L.length + x.length := by
    rw [← SrsFastStream.length_unread, hu, List.length_append]
  have hlenL := List.length_pos_of_ne_nil hL
  obtain ⟨rL, hrL, hrest⟩ := read_append_ok (hu ▸ hread)
  have hreadH := hr.read_header hrL
  have hfits := hr.fits.read hrL
  obtain ⟨hdoneL, htokL⟩ := hH.completes hreadH
  -- With bytes of the body behind it, the header does not leave HTTP.
  have hexL : x ≠ [] → rL.exited = false := by
    intro hne
    by_contra hc
    have hstart := hx.phase_ne (List.length_pos_of_ne_nil hne) (r := rL.more P.length)
      (by rw [List.take_zero, List.append_nil]; exact hreadH)
    have hph := Head.read_exited hr.fits hrL (by simpa using hc)
    exact hstart hph
  have hwhole : r.consumed = src.buffer.size ∧ r.head.done = true := by
    by_cases hnil : x = []
    · subst hnil
      rw [List.append_nil] at hu
      rw [hu, hrL] at hread
      cases hread
      exact ⟨hr.consumed_eq (hu ▸ hH) (hu ▸ hrL), hdoneL⟩
    · obtain ⟨rx, hrx, rfl⟩ := hrest (hexL hnil)
      obtain ⟨h1, h2⟩ := Head.read_sameMessage hfits hrx fun n hn r' hr' =>
        hx.phase_ne hn (r := (r'.more rL.consumed).more P.length) (by
          rw [List.append_assoc, hr.read_append, Head.read_append, hrL]
          simp only [hexL hnil, Bool.false_eq_true, if_false, hr']
          rfl)
      have hcons := (Head.read_consumed hrL).2 (hexL hnil)
      refine ⟨?_, h2 hdoneL⟩
      rw [hsize, Head.Reading.more_consumed, hcons, h1]
      omega
  obtain ⟨o', hc, ht, hj, htl, hb, hloop⟩ := hr.parseLoop_last g
    (by omega) hi (hr.before_header hu hH) hread hwhole.2
  refine ⟨o', hc, ht, hj, ?_, hloop⟩
  by_cases hnil : x = []
  · subst hnil
    rw [List.append_nil] at hu
    rw [← hu] at hH hb
    refine iff_of_true ?_ (.inl rfl)
    rw [hr.headerBytes_eq hH hread htl hb, hsize]
    simp
  · rw [hr.headerBytes_iff hu hL hnil hH hrL (hexL hnil) hread hwhole.1 htl hb]
    exact ⟨.inr, fun h => h.resolve_left hnil⟩

/-- The source behind the block in which the header ends. -/
theorem Reached.parseLoop_boundary {t : HttpParserType} {intact : Prop} {P L x : Bytes}
    {o : SrsHttpParser} {src : Source} {h : Head} {r : Head.Reading} (g : Nat)
    (hr : Reached t intact P o src.buffer h) (hu : src.buffer.unread = L ++ x) (hL : L ≠ [])
    (hH : IsHeader t (P ++ L)) (hx : SameMessage t (P ++ L) x)
    (hread : Head.read o.parser h src.buffer.unread = .ok r)
    (hok : (parseLoop (g + 1) o src).1 = none) :
    src.unread = L ++ (parseLoop (g + 1) o src).2.2.unread ↔
      x = [] ∨ (crlfcrlf <:+ P ++ L ∧
        (∃ k, P.length ≤ src.buffer.p + k ∧ PieceAt t (P ++ L) k) ∧
        ∀ n < x.length, inToken t (P ++ L ++ x.take (n + 1)) = false) := by
  obtain ⟨o', -, -, -, hiff, hloop⟩ := hr.parseLoop_ends g hu hL False.elim hH hx hread
  rw [hloop] at hok ⊢
  cases hc : o'.consume src.buffer r.consumed with
  | error e => rw [hc] at hok; cases hok
  | ok y =>
    obtain ⟨o'', b'⟩ := y
    obtain ⟨n, hn, hbytes, hb'⟩ := consume_ok hc
    -- What is left is the rest of the block.
    have hleft : src.unread = L ++ Source.unread { src with buffer := b' } ↔ n = L.length := by
      rw [Source.unread, Source.unread, hb', ← List.append_assoc, List.append_left_inj, hu]
      constructor
      · intro heq
        have := congrArg List.length heq
        simp only [List.length_append, List.length_drop] at this
        have hsize : src.buffer.size = L.length + x.length := by
          rw [← SrsFastStream.length_unread, hu, List.length_append]
        omega
      · rintro rfl
        rw [List.drop_left]
    simp only [hleft]
    rw [hbytes, Nat.cast_inj] at hiff
    exact hiff

/-- The bytes of the blocks. -/
def bytesOf (bl : List (Nat × Bytes)) : Bytes := (bl.map Prod.snd).flatten

/-- **The boundary between header and body.**  The header ends in a block that lies at
`base` in the memory of the buffer, with the bytes `x` of the body behind it in the
same block.  If `parse_message` succeeds, it has consumed exactly the header if and
only if there is nothing behind it, or
* the header ends with CR LF CR LF,
* a piece of the url, of a name or of a value was read since the memory was last used
  from its start, and
* `x` does not reach into the fields of a trailer. -/
theorem parseMessage_boundary (pa : Option Bytes) {o : SrsHttpParser} {src : Source}
    {bl : List (Nat × Bytes)} {base : Nat} {L x H : Bytes}
    (hblocks : src.blocks (bl.length + 1) = bl ++ [(base, L ++ x)])
    (hb : src.buffer.nbBuffer = SRS_DEFAULT_RECV_BUFFER_SIZE)
    (hL : L ≠ []) (hHL : H = bytesOf bl ++ L) (hH : IsHeader o.type H)
    (hx : SameMessage o.type H x) (hok : (parseMessage pa o src).err = none) :
    src.unread = H ++ (parseMessage pa o src).src.unread ↔
      x = [] ∨ (crlfcrlf <:+ H ∧ (∃ k, (bytesOf bl).length ≤ base + k ∧ PieceAt o.type H k) ∧
        ∀ n < x.length, inToken o.type (H ++ x.take (n + 1)) = false) := by
  subst hHL
  have hd : src.Delivers (bl.map Prod.snd ++ [L ++ x]) := by
    rw [Source.Delivers, List.length_append, List.length_map, List.length_singleton, hblocks]
    simp
  have hbefore : ∀ as bs, bl.map Prod.snd = as ++ bs → ∀ r,
      readHead o.type as.flatten = .ok r → r.head.hp = none := by
    intro as bs heq r hr
    rw [bytesOf, heq, List.flatten_append, List.append_assoc] at hH
    exact hH.before_append (by simp [hL]) hr
  -- The http-parser accepts all of it.
  obtain ⟨rD, hrD⟩ : ∃ r, readHead o.type (bytesOf bl ++ (L ++ x)) = .ok r := by
    cases hrD : readHead o.type (bytesOf bl ++ (L ++ x)) with
    | ok r => exact ⟨r, rfl⟩
    | error e =>
      have := (parseMessage_rejects pa hd hb (fun as bs heq hbs r hr => ?_)
        (by simpa [bytesOf] using hrD)).1
      · rw [hok] at this
        cases this
      · obtain ⟨bs', b, rfl⟩ := List.eq_nil_or_concat bs |>.resolve_left hbs
        rw [List.concat_eq_append, ← List.append_assoc] at heq
        exact hbefore as bs' (List.append_inj_left' heq rfl) r hr
  obtain ⟨r₀, hr₀, -⟩ := read_append_ok hrD
  obtain ⟨g, o', src', h', hloop, hu, hreach, -, -, hun, bl', hbl'⟩ :=
    reached_of_delivers hd hb hr₀ (hbefore _ [] (by simp) r₀ hr₀) False.elim
  have hbase : base = src'.buffer.p := by
    rw [List.length_map, hblocks] at hbl'
    have := List.append_inj_right' hbl' rfl
    simp only [List.cons.injEq, Prod.mk.injEq] at this
    exact this.1.1
  obtain ⟨rD', hrD', -⟩ : ∃ r, Head.read o'.parser h' src'.buffer.unread = .ok r ∧
      rD = r.more (bytesOf bl).length := by
    rw [← hu, bytesOf, hreach.read_append] at hrD
    cases hread : Head.read o'.parser h' src'.buffer.unread with
    | error e => rw [hread] at hrD; cases hrD
    | ok r => rw [hread] at hrD; exact ⟨r, rfl, (Except.ok.inj hrD).symm⟩
  have hok' : (parseLoop (g + 1) o' src').1 = none := by
    rw [← hloop]
    exact parseLoop_ok hok
  have hiff := hreach.parseLoop_boundary g hu hL hH hx hrD' hok'
  rw [parseMessage_src, hloop, hun, List.append_assoc, bytesOf, List.append_right_inj, hbase]
  exact hiff

/-- A header with a body of three bytes. -/
def postHeader : Bytes := str "POST /a HTTP/1.1\r\nHost: a\r\nContent-Length: 3\r\n\r\n"

/-- The header and its body in one read. -/
theorem parseMessage_boundary_post :
    (Source.ofPieces [postHeader ++ str "abc"]).unread = postHeader ++ (parseMessage none
      (new .request) (Source.ofPieces [postHeader ++ str "abc"])).src.unread :=
  (@parseMessage_boundary none (new .request) _ [] 0 postHeader (str "abc") postHeader
    (by decide) rfl (by decide) rfl (isHeader_of_accepts (by decide)).1 (by decide) (by decide)).2
    (.inr ⟨by decide, ⟨5, by decide, .inl ⟨by decide, by decide⟩⟩, by decide⟩)

/-- The same header with bare line feeds. -/
def bareHeader : Bytes := str "POST /a HTTP/1.1\nHost: a\nContent-Length: 3\n\n"

/-- With bare line feeds the body is consumed as well. -/
theorem parseMessage_bare_boundary :
    (Source.ofPieces [bareHeader ++ str "abc"]).blocks 1 = [(0, bareHeader ++ str "abc")] ∧
      IsHeader .request bareHeader ∧ SameMessage .request bareHeader (str "abc") ∧
      (parseMessage none (new .request) (Source.ofPieces [bareHeader ++ str "abc"])).err = none ∧
      (Source.ofPieces [bareHeader ++ str "abc"]).unread = bareHeader ++ str "abc" ∧
      (parseMessage none (new .request)
        (Source.ofPieces [bareHeader ++ str "abc"])).src.unread = [] := by
  refine ⟨?_, (isHeader_of_accepts (by decide)).1, ?_, ?_, ?_, ?_⟩
  · decide
  · decide
  · decide
  · decide
  · decide

end SrsHttpParser

end HttpProxy
