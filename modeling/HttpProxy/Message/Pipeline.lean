import HttpProxy.Message.Boundary

/-!
# Messages behind one another

A buffer may hold more than one message.  `parse_message` executes the http-parser on
all of it, so the callbacks of the messages behind the first one work on the same
parser object.

* `lastBody` — the piece of a body at which `p_body_start` points after an execution.
* `parseMessage_block` — what `parse_message` makes of a buffer in which a header is
  complete.
* `parseMessage_unfinished` — it fails if another message has begun behind it, and
  nothing more arrives.
-/

namespace HttpProxy

/-- A source cannot grow beyond its last byte. -/
theorem Source.grow_starved {src : Source} {required : Nat} (hskt : src.skt.pending = [])
    (hmore : src.buffer.size < required) : (src.grow required).1 ≠ none := by
  intro hok
  have hsize := grow_size hok
  have hun := congrArg List.length (grow_grown src required).unread
  simp only [unread, List.length_append, SrsFastStream.length_unread, hskt,
    List.length_nil] at hun
  omega

namespace SrsHttpParser

open HttpParser

/-! ## Where the body starts -/

/-- `p_body_start` as a place in a block of `size` bytes: a piece of the body, or the end
of the block when a header is complete. -/
def bodyPiece (size : Nat) (s : Option Nat) : Callback → Option Nat
  | .data .body pos _ => some pos
  | .notify (.headersComplete _) => some size
  | _ => s

/-- The last piece of a body in some bytes, or their end if there is none behind the last
header in them. -/
def lastBody (t : HttpParserType) (D : Bytes) : Option Nat :=
  match (HttpParser.init t).execute D with
  | .error _ => none
  | .ok x => x.callbacks.foldl (bodyPiece D.length) none

theorem callback_bodyStart (base size : Nat) (o : SrsHttpParser) {s : Option Nat}
    (hs : o.pBodyStart = s.map (base + ·)) (c : Callback) :
    (o.callback base size c).pBodyStart = (bodyPiece size s c).map (base + ·) := by
  cases c with
  | data k m bs =>
    cases k with
    | body => rfl
    | url | headerField | headerValue => exact (callback_data_bodyStart (by decide) m bs).trans hs
  | notify n => cases n <;> first | rfl | exact hs

theorem foldl_callback_bodyStart (base size : Nat) (cs : List Callback) {o : SrsHttpParser}
    {s : Option Nat} (hs : o.pBodyStart = s.map (base + ·)) :
    (cs.foldl (callback base size) o).pBodyStart =
      (cs.foldl (bodyPiece size) s).map (base + ·) := by
  induction cs generalizing o s with
  | nil => exact hs
  | cons c cs ih => exact ih (callback_bodyStart base size o hs c)

/-! ## A buffer that is read as a whole -/

/-- The parser object behind an execution on all that is buffered, and the two places it
remembers. -/
structure Executes (o : SrsHttpParser) (b : SrsFastStream) (r : Head.Reading) (o' : SrsHttpParser) :
    Prop where
  collects : Collects True r.head o'
  type : o'.type = o.type
  jsonp : o'.jsonp = o.jsonp
  tail : o'.pHeaderTail = tailAfter b.p (.init o.type) 0 none b.unread
  bodyStart : o'.pBodyStart = (lastBody o.type b.unread).map (b.p + ·)
  behind : ∀ lo, (∀ as bs r, b.unread = as ++ bs → readHead o.type as = .ok r → r.head.hp ≠ none →
    lo ≤ as.length) → BodyStart b.p b.size lo r.consumed r.head o'.pBodyStart

/-- The first execution of `parse_message`. -/
theorem executeBuffer_block {o : SrsHttpParser} {b : SrsFastStream} {r : Head.Reading}
    (hb : b.nbBuffer = SRS_DEFAULT_RECV_BUFFER_SIZE) (hread : readHead o.type b.unread = .ok r) :
    ∃ o', Executes o b r o' ∧ o.reset.executeBuffer b = o'.consume b r.consumed := by
  have hr := reached_reset o hb
  have hph : (HttpParser.init o.type).state.phase = .start := by cases o.type <;> rfl
  have ha (lo : Nat) (hlo : ∀ as bs r, b.unread = as ++ bs → readHead o.type as = .ok r →
      r.head.hp ≠ none → lo ≤ as.length) (q : HttpParser) :=
    hr.agrees (fun _ : True =>
      ⟨trivial, by rw [show o.reset.parser = .init o.type from rfl, hph]; decide⟩)
      hlo q
  have hread' : Head.read o.reset.parser .empty b.unread = .ok r := hread
  rw [hread'] at ha
  rw [executeBuffer]
  cases hx : o.reset.parser.execute b.unread with
  | error e =>
    have := ha 0 (fun _ _ _ _ _ _ => Nat.zero_le _) o.reset.parser
    rw [hx] at this
    cases this
  | ok x =>
    rw [hx] at ha
    obtain ⟨-, h2, h3⟩ :=
      foldl_callback_frame b.p b.size { o.reset with parser := x.parser } x.callbacks
    cases ha 0 (fun _ _ _ _ _ _ => Nat.zero_le _) x.parser with
    | ok hp hcons hc htl hbs =>
      rw [Nat.zero_add] at hcons
      refine ⟨x.callbacks.foldl (callback b.p b.size) { o.reset with parser := x.parser },
        ⟨hc, h2, h3, ?_, ?_, fun lo hlo => ?_⟩, by simp only [hcons]⟩
      · rw [htl, show o.reset.parser = .init o.type from rfl, hph]
        rfl
      · have hx' : (HttpParser.init o.type).execute b.unread = .ok x := hx
        rw [lastBody, hx', SrsFastStream.length_unread]
        exact foldl_callback_bodyStart b.p b.size x.callbacks (s := none) rfl
      · cases ha lo hlo x.parser with
        | ok hp hcons hc htl hbs =>
          rw [Nat.zero_add] at hbs
          exact hbs

/-- With nothing read before, the pointer is unset or in the block. -/
theorem tailAfter_nil {t : HttpParserType} {D : Bytes} {r : Head.Reading} (base : Nat)
    (hr : readHead t D = .ok r) :
    tailAfter base (.init t) 0 none D = none ∨
      ∃ m < D.length, tailAfter base (.init t) 0 none D = some (base + m) := by
  rcases tailAfter_cases base 0 none hr with ⟨m, hm, h, -⟩ | ⟨h, -⟩
  · exact .inr ⟨m, hm, by rw [h, Nat.zero_add]⟩
  · exact .inl h

/-- With the pointer in the block, the bytes to consume are in the block as well. -/
theorem headerBytes_block {o : SrsHttpParser} {b : SrsFastStream} {n : Nat}
    (htl : o.pHeaderTail = none ∨ ∃ m, o.pHeaderTail = some (b.p + m)) (hn : n ≤ b.size) :
    0 ≤ o.headerBytes b n ∧ o.headerBytes b n ≤ b.size := by
  rw [headerBytes]
  split
  · rename_i tl s htl' hs'
    split_ifs with hlt
    · cases hfind : findHeaderEnd b.data tl s with
      | none =>
        simp only
        omega
      | some stop =>
        rw [findHeaderEnd, Option.map_eq_some_iff] at hfind
        obtain ⟨j, hj, rfl⟩ := hfind
        have hle := findSub_add_length_le hj
        rw [List.length_drop, List.length_take, crlfcrlf_length] at hle
        have htl : ∃ m, tl = b.p + m := by
          rcases htl with htl | ⟨m, htl⟩ <;> rw [htl'] at htl
          · cases htl
          · exact ⟨m, Option.some.inj htl⟩
        obtain ⟨m, rfl⟩ := htl
        have hmem := b.p_le
        rw [SrsFastStream.size]
        simp only
        omega
    · exact ⟨by omega, by omega⟩
  · exact ⟨by omega, by omega⟩

/-- What an execution on all that is buffered takes from the buffer. -/
theorem Executes.consume {o o' : SrsHttpParser} {b : SrsFastStream} {r : Head.Reading}
    (hx : Executes o b r o') (hread : readHead o.type b.unread = .ok r) :
    ∃ n, ∃ hn : n ≤ b.size, o'.headerBytes b r.consumed = n ∧
      o'.consume b r.consumed = .ok (o', b.advance n hn) := by
  have hcons := (Head.read_consumed hread).1
  rw [SrsFastStream.length_unread] at hcons
  obtain ⟨h1, h2⟩ := headerBytes_block (n := r.consumed) (o := o')
    (by rcases tailAfter_nil b.p hread with h | ⟨m, -, h⟩
        · exact .inl (hx.tail.trans h)
        · exact .inr ⟨m, hx.tail.trans h⟩) hcons
  obtain ⟨n, hn⟩ := Int.eq_ofNat_of_zero_le h1
  have hle : n ≤ b.size := by omega
  refine ⟨n, hle, hn, ?_⟩
  rw [SrsHttpParser.consume, if_neg (by omega), hn]
  simp only [Int.toNat_natCast, SrsFastStream.readSlice_of_le hle]

/-- **A buffer in which a header is complete.**  The message depends on its bytes only,
and what is consumed is found from the two places. -/
theorem parseMessage_block (pa : Option Bytes) {o : SrsHttpParser} {src : Source} {r : Head.Reading}
    (hD : src.buffer.unread ≠ []) (hb : src.buffer.nbBuffer = SRS_DEFAULT_RECV_BUFFER_SIZE)
    (hread : readHead o.type src.buffer.unread = .ok r) (hdone : r.head.done = true) :
    (parseMessage pa o src).msg = (messageOf pa o r.head).2 ∧
      ∃ o' n, Executes o src.buffer r o' ∧ n ≤ src.buffer.size ∧
        o'.headerBytes src.buffer r.consumed = n ∧
        (parseMessage pa o src).src.unread = src.unread.drop n := by
  obtain ⟨o', hx, hexec⟩ := executeBuffer_block hb hread
  obtain ⟨n, hn, hbytes, hcons⟩ := hx.consume hread
  have h0 : src.buffer.size ≠ 0 := by
    rw [← SrsFastStream.length_unread]
    exact fun h => hD (List.length_eq_zero_iff.1 h)
  have hloop : parseLoop (src.unread.length + 2) o.reset src =
      (none, o', { src with buffer := src.buffer.advance n hn }) := by
    rw [parseLoop, if_neg h0, hexec, hcons]
    simp only [hx.collects.done, hdone, if_true]
  refine ⟨(parseMessage_of_loop pa hloop hx.collects hx.type hx.jsonp).2, o', n, hx, hn, hbytes, ?_⟩
  rw [parseMessage_src, hloop, Source.unread, Source.unread, SrsFastStream.advance_unread,
    List.drop_append_of_le_length (by rwa [SrsFastStream.length_unread])]

/-- **A buffer behind whose headers another message has begun**, with nothing more to come. -/
theorem parseMessage_unfinished (pa : Option Bytes) {o : SrsHttpParser} {src : Source} {r : Head.Reading}
    (hD : src.buffer.unread ≠ []) (hb : src.buffer.nbBuffer = SRS_DEFAULT_RECV_BUFFER_SIZE)
    (hskt : src.skt.pending = []) (hread : readHead o.type src.buffer.unread = .ok r)
    (hdone : r.head.done = false) : (parseMessage pa o src).msg = none := by
  obtain ⟨o', hx, hexec⟩ := executeBuffer_block hb hread
  obtain ⟨n, hn, -, hcons⟩ := hx.consume hread
  have h0 : src.buffer.size ≠ 0 := by
    rw [← SrsFastStream.length_unread]
    exact fun h => hD (List.length_eq_zero_iff.1 h)
  have hgrow := @Source.grow_starved { src with buffer := src.buffer.advance n hn } _ hskt
    (Nat.lt_succ_self _)
  have hloop : ∃ e o'' src'',
      parseLoop (src.unread.length + 2) o.reset src = (some e, o'', src'') := by
    rw [parseLoop]
    simp only [if_neg h0, hexec, hcons, hx.collects.done, hdone, Bool.false_eq_true, if_false]
    revert hgrow
    simp only
    generalize Source.grow _ _ = g
    rcases g with ⟨_ | e, src''⟩
    · exact fun h => absurd rfl h
    · exact fun _ => ⟨e, o', src'', rfl⟩
  obtain ⟨e, o'', src'', hloop⟩ := hloop
  exact (parseMessage_of_loop_error pa hloop).2

/-- A buffer that the http-parser rejects. -/
theorem parseMessage_block_error (pa : Option Bytes) {o : SrsHttpParser} {src : Source} {e : HttpErrno}
    (hD : src.buffer.unread ≠ []) (hb : src.buffer.nbBuffer = SRS_DEFAULT_RECV_BUFFER_SIZE)
    (hread : readHead o.type src.buffer.unread = .error e) :
    (parseMessage pa o src).msg = none := by
  have h0 : src.buffer.size ≠ 0 := by
    rw [← SrsFastStream.length_unread]
    exact fun h => hD (List.length_eq_zero_iff.1 h)
  exact (parseMessage_of_loop_error pa
    (parseLoop_error h0 ((reached_reset o hb).executeBuffer_error hread))).2

end SrsHttpParser

end HttpProxy
