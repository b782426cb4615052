import HttpProxy.Message.Head

/-!
# Header sections

Facts about the bytes of a header section that follow from the way in which the
http-parser reads it: its length, its line ends, and where its tokens start.

* `IsHeader` — a byte string that is one header section: no header is complete
  before its last byte.
* `IsHeader.length_le` — it has at most `HTTP_MAX_HEADER_SIZE` bytes.
* `crlfcrlf_completes` — once the first line has begun, CR LF CR LF ends the header.
* `Anchor.findSub_eq` — a search for CR LF CR LF that starts at a token finds the
  end of the header.
-/

namespace HttpProxy

namespace Head

variable {p : HttpParser} {h : Head} {bs : Bytes} {r : Reading}

/-! ## Before the header is complete -/

theorem act_hp (a : Act) (hn : h.hp ≠ none) : (h.act a).hp ≠ none := by
  cases a with
  | mark k => cases k <;> exact hn
  | data k n => exact hn
  | notify n =>
    cases n with
    | headersComplete hp => simp [act]
    | messageBegin | messageComplete => exact hn

theorem foldl_act_hp (acts : List Act) (hn : h.hp ≠ none) : (acts.foldl act h).hp ≠ none := by
  induction acts generalizing h with
  | nil => exact hn
  | cons a acts ih => exact ih (act_hp a hn)

theorem step_hp (acts : List Act) (ph : Phase) (ch : Byte) (hn : h.hp ≠ none) :
    (h.step acts ph ch).hp ≠ none := by
  rw [step, byte_hp]
  exact foldl_act_hp acts hn

/-- The byte at which the header is reported complete. -/
theorem step_hp_of_complete {acts : List Act} {hp : HttpParser}
    (hm : Act.notify (.headersComplete hp) ∈ acts) (ph : Phase) (ch : Byte) :
    (h.step acts ph ch).hp ≠ none := by
  rw [step, byte_hp]
  induction acts generalizing h with
  | nil => simp at hm
  | cons a acts ih =>
    rcases List.mem_cons.1 hm with rfl | hm
    · exact foldl_act_hp acts (by simp [act])
    · exact ih hm

/-- The move that completes the header. -/
theorem step_hp_of_header {acts acts' : List Act} {hp : HttpParser} (ph : Phase) (ch : Byte) :
    (h.step (acts ++ .notify (.headersComplete hp) :: acts') ph ch).hp ≠ none :=
  step_hp_of_complete (List.mem_append_right _ List.mem_cons_self) ph ch

/-- The byte that completes the first header. -/
theorem step_completes {tr exit tr' : Bool} {ph ph' : Phase} {ch : Byte} {acts : List Act}
    (hm : Moves tr ph ch acts exit tr' ph') (hf : Fits tr ph h) (hn : h.hp = none)
    (hs : (h.step acts ph' ch).hp ≠ none) :
    (h.step acts ph' ch).done = true ∧ ph'.token = none := by
  rw [step, byte_hp] at hs
  rw [step, byte_done]
  cases hm with
  | header hl he =>
    rw [List.foldl_append, foldl_act_lastLine hl, List.foldl_cons]
    refine ⟨(foldl_act_ended he _).2.2.2 rfl, ?_⟩
    cases he with
    | body _ hph => rcases hph with rfl | rfl <;> rfl
    | message => rfl
  | nameOpen hl =>
    rw [List.foldl_append, foldl_act_lineHead hl] at hs
    exact absurd hn hs
  | lastCr hl =>
    rw [foldl_act_lineHead hl] at hs
    exact absurd hn hs
  | trailer hl => exact absurd hn (hf.completed (.inl rfl))
  | passing => exact absurd rfl hf.resting
  | _ => exact absurd hn hs

/-- Only a byte between messages begins another one. -/
theorem step_done_of_ne_start {tr exit tr' : Bool} {ph ph' : Phase} {ch : Byte}
    {acts : List Act} (hm : Moves tr ph ch acts exit tr' ph') (hf : Fits tr ph h)
    (hph : ph ≠ .start) (hdone : h.done = true) : (h.step acts ph' ch).done = true := by
  rw [step, byte_done]
  cases hm with
  | «begin» => exact absurd rfl hph
  | passing => exact absurd rfl hf.resting
  | header hl he =>
    rw [List.foldl_append, foldl_act_lastLine hl, List.foldl_cons]
    exact (foldl_act_ended he _).2.2.2 rfl
  | nameOpen hl =>
    rw [List.foldl_append, foldl_act_lineHead hl]
    exact hdone
  | lastCr hl =>
    rw [foldl_act_lineHead hl]
    exact hdone
  | trailer hl =>
    rw [List.foldl_append, foldl_act_lastLine hl]
    rfl
  | content | contentMessage => rfl
  | _ => exact hdone

/-- A header that is complete stays so. -/
theorem read_hp (hr : read p h bs = .ok r) (hn : h.hp ≠ none) : r.head.hp ≠ none := by
  induction bs generalizing p h r with
  | nil => cases hr; exact hn
  | cons ch bs ih =>
    obtain ⟨o, hs, ⟨-, rfl⟩ | ⟨-, r', hr', rfl⟩⟩ := read_cons_ok hr
    · exact step_hp _ _ _ hn
    · exact ih (r := r') hr' (step_hp _ _ _ hn)

/-- An invariant of the bytes of a header holds as long as it is not complete. -/
theorem read_invariant {P : HttpParser → Head → Prop}
    (hstep : ∀ p h ch o, P p h → Fits p.flags.trailing p.state.phase h → p.stepByte ch = .ok o →
      (h.step o.acts o.parser.state.phase ch).hp = none →
      P o.parser (h.step o.acts o.parser.state.phase ch))
    (hP : P p h) (hf : Fits p.flags.trailing p.state.phase h) (hr : read p h bs = .ok r)
    (hn : r.head.hp = none) : P r.parser r.head := by
  induction bs generalizing p h r with
  | nil => cases hr; exact hP
  | cons ch bs ih =>
    obtain ⟨o, hs, ⟨-, rfl⟩ | ⟨-, r', hr', rfl⟩⟩ := read_cons_ok hr
    · exact hstep p h ch o hP hf hs hn
    · have hn' : (h.step o.acts o.parser.state.phase ch).hp = none := by
        by_contra hc
        exact read_hp hr' hc hn
      exact ih (r := r') (hstep p h ch o hP hf hs hn') (hf.step (HttpParser.stepByte_moves hs)) hr' hn

/-- Before a header is complete, there was none complete. -/
theorem hp_before (hr : read p h bs = .ok r) (hn : r.head.hp = none) : h.hp = none := by
  by_contra hc
  exact read_hp hr hc hn

/-- Every byte of a header is counted, and there are not too many. -/
theorem read_nread (hf : Fits p.flags.trailing p.state.phase h) (hr : read p h bs = .ok r)
    (hn : r.head.hp = none) (hmax : p.nread ≤ HTTP_MAX_HEADER_SIZE) :
    r.parser.nread = p.nread + bs.length ∧ r.parser.nread ≤ HTTP_MAX_HEADER_SIZE := by
  induction bs generalizing p h r with
  | nil => cases hr; exact ⟨rfl, hmax⟩
  | cons ch bs ih =>
    obtain ⟨-, -, h1, h2⟩ := hf.before (hp_before hr hn)
    have hexit := not_exited hf hr hn
    obtain ⟨o, hs, ⟨-, rfl⟩ | ⟨-, r', hr', rfl⟩⟩ := read_cons_ok hr
    · cases hexit
    · have hn' : r'.head.hp = none := hn
      obtain ⟨-, hle, hcount | ⟨hp, hmem⟩⟩ := HttpParser.stepByte_kept hs ⟨h1, h2, hf.resting⟩
      · obtain ⟨h3, h4⟩ := ih (hf.step (HttpParser.stepByte_moves hs)) hr' hn' (by omega)
        refine ⟨?_, h4⟩
        rw [hcount] at h3
        rw [Reading.more, List.length_cons, h3]
        omega
      · exact absurd hn' (read_hp hr' (step_hp_of_complete hmem _ _))

/-- Once the first line has begun, no byte of the header leads between messages. -/
theorem moves_ne_start {tr exit tr' : Bool} {ph ph' : Phase} {ch : Byte} {acts : List Act}
    (hm : Moves tr ph ch acts exit tr' ph') (hf : Fits tr ph h) (hph : ph ≠ .start)
    (hn : (h.step acts ph' ch).hp = none) : ph' ≠ .start := by
  have hbefore : h.hp = none := by
    by_contra hc
    exact step_hp _ _ _ hc hn
  obtain ⟨-, htr, h1, h2⟩ := hf.before hbefore
  rintro rfl
  cases hm with
  | skip => exact hph rfl
  | header hl he => exact step_hp_of_header _ _ hn
  | trailer hl => cases htr
  | framing => exact h1 rfl
  | contentMessage => exact h2 rfl
  | passing => exact hf.resting rfl

theorem read_ne_start (hf : Fits p.flags.trailing p.state.phase h) (hph : p.state.phase ≠ .start)
    (hr : read p h bs = .ok r) (hn : r.head.hp = none) : r.parser.state.phase ≠ .start := by
  refine read_invariant (P := fun p _ => p.state.phase ≠ .start) ?_ hph hf hr hn
  intro p h ch o hph hf hs hn
  exact moves_ne_start (HttpParser.stepByte_moves hs) hf hph hn

/-! ## Line ends -/

/-- No token is open behind the end of a line. -/
theorem moves_newline {tr exit tr' : Bool} {ph ph' : Phase} {ch : Byte} {acts : List Act}
    (hm : Moves tr ph ch acts exit tr' ph') (hph : ph ≠ .passing) (hch : ch = CR ∨ ch = LF) :
    ph'.token = none := by
  have htok : token CR = 0 ∧ token LF = 0 := by decide
  have hblank : ¬ isBlank CR ∧ ¬ isBlank LF := by
    constructor <;> rintro (h | h) <;> exact absurd h (by decide)
  cases hm with
  | passing => exact absurd rfl hph
  | urlOpen h1 h2 | url h1 h2 | valueOpen h1 h2 | value h1 h2 => rcases hch with rfl | rfl <;> contradiction
  | nameOpen _ h | name h => rcases hch with rfl | rfl <;> simp_all
  | foldValue h => rcases hch with rfl | rfl <;> simp_all
  | header hl he =>
    cases he with
    | body _ hph => rcases hph with rfl | rfl <;> rfl
    | message => rfl
  | framing hph => rcases hph with rfl | rfl <;> rfl
  | _ => rfl

/-- No token starts between messages. -/
theorem moves_opens {tr exit tr' : Bool} {ph ph' : Phase} {ch : Byte} {acts : List Act}
    (hm : Moves tr ph ch acts exit tr' ph') (hph : ph ≠ .passing) (ht : ph'.token ≠ none) :
    ph ≠ .start := by
  rintro rfl
  cases hm with
  | skip | «begin» => exact ht rfl
  | nameOpen hl => cases hl
  | lastCr hl => cases hl
  | header hl | trailer hl => cases hl with | bare hl => cases hl

/-- A byte of a header that is not complete with the bytes behind it. -/
theorem read_cons_before {ch : Byte} (hf : Fits p.flags.trailing p.state.phase h)
    (hr : read p h (ch :: bs) = .ok r) (hn : r.head.hp = none) :
    ∃ p' h' r' acts, Moves p.flags.trailing p.state.phase ch acts false p'.flags.trailing
        p'.state.phase ∧ h' = h.step acts p'.state.phase ch ∧
      Fits p'.flags.trailing p'.state.phase h' ∧ h'.hp = none ∧
      read p' h' bs = .ok r' ∧ r'.head.hp = none := by
  have hexit := not_exited hf hr hn
  obtain ⟨o, hs, ⟨-, rfl⟩ | ⟨hex, r', hr', rfl⟩⟩ := read_cons_ok hr
  · cases hexit
  · have hm := HttpParser.stepByte_moves hs
    rw [hex] at hm
    exact ⟨o.parser, _, r', o.acts, hm, rfl, hf.step hm, hp_before hr' hn, hr', hn⟩

/-- The CR of a line end. -/
theorem moves_cr {tr exit tr' : Bool} {ph ph' : Phase} {acts : List Act}
    (hm : Moves tr ph CR acts exit tr' ph') (hf : Fits tr ph h) (hstart : ph ≠ .start)
    (hn : h.hp = none) : ph' = .firstEol ∨ ph' = .fieldEol ∨ ph' = .lastLine := by
  obtain ⟨-, -, h1, h2⟩ := hf.before hn
  cases hm with
  | passing => exact absurd rfl hf.resting
  | skip => exact absurd rfl hstart
  | «begin» => exact absurd rfl hstart
  | framing => exact absurd rfl h1
  | content | contentEnd | contentMessage => exact absurd rfl h2
  | first h | urlOpen h | url h | valueOpen h | value h => exact absurd rfl h
  | nameOpen _ h | name h => exact absurd (by decide) h
  | gap h | foldGap h | foldValue h => rcases h with h | h <;> exact absurd h (by decide)
  | firstCr | urlCr => exact .inl rfl
  | gapCr | valueCr => exact .inr (.inl rfl)
  | lastCr => exact .inr (.inr rfl)

/-- The LF of a line end. -/
theorem moves_lf {tr exit tr' : Bool} {ph ph' : Phase} {acts : List Act}
    (hm : Moves tr ph LF acts exit tr' ph')
    (hph : ph = .firstEol ∨ ph = .fieldEol) : ph' = .lineStart ∨ ph' = .folding := by
  cases hm with
  | firstEol => exact .inl rfl
  | fieldEol => exact .inr rfl
  | nameOpen hl => rcases hph with rfl | rfl <;> cases hl
  | header hl | trailer hl =>
    rcases hph with rfl | rfl <;> cases hl with | bare hl => cases hl
  | _ => rcases hph with h | h <;> cases h

/-- The LF of the empty line. -/
theorem moves_last {exit tr' : Bool} {ph' : Phase} {acts : List Act}
    (hm : Moves false .lastLine LF acts exit tr' ph') : (h.step acts ph' LF).hp ≠ none := by
  cases hm with
  | header => exact step_hp_of_header _ _
  | nameOpen hl => cases hl

/-- A CR at the start of a line is that of the empty line. -/
theorem moves_line_cr {tr exit tr' : Bool} {ph ph' : Phase} {acts : List Act}
    (hm : Moves tr ph CR acts exit tr' ph') (hph : ph = .lineStart ∨ ph = .folding) :
    ph' = .lastLine := by
  cases hm with
  | lastCr => rfl
  | nameOpen _ h => exact absurd (by decide) h
  | foldGap h | foldValue h => rcases h with h | h <;> exact absurd h (by decide)
  | _ => rcases hph with h | h <;> cases h

/-- **Once the first line has begun, CR LF CR LF ends the header.** -/
theorem crlfcrlf_completes (hf : Fits p.flags.trailing p.state.phase h)
    (hstart : p.state.phase ≠ .start) (hr : read p h crlfcrlf = .ok r) : r.head.hp ≠ none := by
  intro hn
  have hbefore := hp_before hr hn
  obtain ⟨p₁, h₁, r₁, a₁, m₁, -, f₁, n₁, hr₁, hn₁⟩ := read_cons_before hf hr hn
  obtain ⟨p₂, h₂, r₂, a₂, m₂, e₂, f₂, n₂, hr₂, hn₂⟩ := read_cons_before f₁ hr₁ hn₁
  obtain ⟨p₃, h₃, r₃, a₃, m₃, -, f₃, n₃, hr₃, hn₃⟩ := read_cons_before f₂ hr₂ hn₂
  obtain ⟨p₄, h₄, r₄, a₄, m₄, e₄, f₄, n₄, -, -⟩ := read_cons_before f₃ hr₃ hn₃
  -- The first CR LF may be the empty line already; otherwise it ends a line.
  rcases moves_cr m₁ hf hstart hbefore with hph | hph | hph
  · have hline := moves_line_cr m₃ (moves_lf m₂ (.inl hph))
    rw [hline, (f₃.before n₃).2.1] at m₄
    exact moves_last m₄ (e₄ ▸ n₄)
  · have hline := moves_line_cr m₃ (moves_lf m₂ (.inr hph))
    rw [hline, (f₃.before n₃).2.1] at m₄
    exact moves_last m₄ (e₄ ▸ n₄)
  · rw [hph, (f₁.before n₁).2.1] at m₂
    exact moves_last m₂ (e₂ ▸ n₂)

end Head

/-! ## Header sections -/

/-- Read the bytes of a connection from its start. -/
def readHead (t : HttpParserType) (bs : Bytes) : Except HttpErrno Head.Reading :=
  Head.read (.init t) .empty bs

theorem init_fits (t : HttpParserType) :
    Head.Fits (HttpParser.init t).flags.trailing (HttpParser.init t).state.phase .empty := by
  cases t <;> exact Head.fits_empty

/-- A byte string that is one header section: no header is complete before its last
byte, and if the http-parser accepts it, one is complete then. -/
structure IsHeader (t : HttpParserType) (H : Bytes) : Prop where
  before : ∀ n < H.length, ∀ r, readHead t (H.take n) = .ok r → r.head.hp = none
  ends : ∀ r, readHead t H = .ok r → r.head.hp ≠ none

/-- The bytes in front of others are read first. -/
theorem read_append_ok {p : HttpParser} {h : Head} {as bs : Bytes} {r : Head.Reading}
    (hr : Head.read p h (as ++ bs) = .ok r) :
    ∃ r', Head.read p h as = .ok r' ∧
      (r'.exited = false → ∃ r'', Head.read r'.parser r'.head bs = .ok r'' ∧
        r = r''.more r'.consumed) := by
  rw [Head.read_append] at hr
  cases ha : Head.read p h as with
  | error e => rw [ha] at hr; cases hr
  | ok r' =>
    rw [ha] at hr
    refine ⟨r', rfl, fun hex => ?_⟩
    simp only [hex, Bool.false_eq_true, if_false] at hr
    cases hb : Head.read r'.parser r'.head bs with
    | error e => rw [hb] at hr; cases hr
    | ok r'' =>
      rw [hb] at hr
      exact ⟨r'', rfl, (Except.ok.inj hr).symm⟩

/-- Before a header is complete, the bytes in front of others do not complete it. -/
theorem read_append_before {p : HttpParser} {h : Head} {as bs : Bytes} {r r' : Head.Reading}
    (hr : Head.read p h (as ++ bs) = .ok r) (hn : r.head.hp = none)
    (hr' : Head.read p h as = .ok r') : r'.head.hp = none := by
  by_contra hc
  obtain ⟨r₁, hr₁, hrest⟩ := read_append_ok hr
  rw [hr'] at hr₁
  cases hr₁
  cases hex : r'.exited with
  | false =>
    obtain ⟨r₂, hr₂, rfl⟩ := hrest hex
    exact Head.read_hp hr₂ hc hn
  | true =>
    rw [Head.read_append, hr'] at hr
    simp only [hex, if_true] at hr
    cases hr
    exact hc hn

/-- The last byte of a header that is not complete. -/
theorem readHead_snoc {t : HttpParserType} {bs : Bytes} {ch : Byte} {r : Head.Reading}
    (hr : readHead t (bs ++ [ch]) = .ok r) (hn : r.head.hp = none) :
    ∃ r' acts, readHead t bs = .ok r' ∧ r'.head.hp = none ∧
      Head.Fits r'.parser.flags.trailing r'.parser.state.phase r'.head ∧
      Moves r'.parser.flags.trailing r'.parser.state.phase ch acts false
        r.parser.flags.trailing r.parser.state.phase ∧
      r.head = r'.head.step acts r.parser.state.phase ch := by
  obtain ⟨r', hr', hrest⟩ := read_append_ok hr
  have hf := (init_fits t).read hr'
  have hex := Head.not_exited (init_fits t) hr' (read_append_before hr hn hr')
  obtain ⟨r'', hr'', rfl⟩ := hrest hex
  have hex' := Head.not_exited hf hr'' hn
  obtain ⟨o, hs, ⟨-, rfl⟩ | ⟨hexit, r₁, hr₁, rfl⟩⟩ := Head.read_cons_ok hr''
  · cases hex'
  · cases hr₁
    have hm := HttpParser.stepByte_moves hs
    rw [hexit] at hm
    exact ⟨r', o.acts, hr', Head.hp_before hr'' hn, hf, hm, rfl⟩

/-- The last byte of some bytes. -/
theorem readHead_last {t : HttpParserType} {bs : Bytes} {ch : Byte} {r r' : Head.Reading}
    (hr : readHead t (bs ++ [ch]) = .ok r) (hr' : readHead t bs = .ok r')
    (hex : r'.exited = false) :
    ∃ acts exit, Moves r'.parser.flags.trailing r'.parser.state.phase ch acts exit
        r.parser.flags.trailing r.parser.state.phase ∧
      r.head = r'.head.step acts r.parser.state.phase ch := by
  obtain ⟨r₁, hr₁, hrest⟩ := read_append_ok hr
  rw [← readHead, hr'] at hr₁
  cases hr₁
  obtain ⟨r₂, hr₂, rfl⟩ := hrest hex
  obtain ⟨o, hs, ⟨-, rfl⟩ | ⟨-, r₃, hr₃, rfl⟩⟩ := Head.read_cons_ok hr₂
  · exact ⟨o.acts, o.exit, HttpParser.stepByte_moves hs, rfl⟩
  · cases hr₃
    exact ⟨o.acts, o.exit, HttpParser.stepByte_moves hs, rfl⟩

/-- A byte string is a header section if its last byte completes the header. -/
theorem isHeader_of_last {t : HttpParserType} {bs : Bytes} {ch : Byte} {r r' : Head.Reading}
    (hr : readHead t bs = .ok r) (hn : r.head.hp = none) (hr' : readHead t (bs ++ [ch]) = .ok r')
    (hn' : r'.head.hp ≠ none) : IsHeader t (bs ++ [ch]) := by
  refine ⟨?_, ?_⟩
  · intro n hlt r₁ hr₁
    rw [List.length_append, List.length_singleton] at hlt
    rw [List.take_append_of_le_length (by omega)] at hr₁
    rw [readHead, ← List.take_append_drop n bs] at hr
    exact read_append_before hr hn hr₁
  · intro r₁ hr₁
    rw [hr'] at hr₁
    cases hr₁
    exact hn'

/-- Is the byte string a header section that the http-parser accepts? -/
def acceptsHeader (t : HttpParserType) (H : Bytes) : Bool :=
  match readHead t H.dropLast, readHead t H with
  | .ok r, .ok r' => r.head.hp.isNone && r'.head.hp.isSome
  | _, _ => false

theorem isHeader_of_accepts {t : HttpParserType} {H : Bytes} (h : acceptsHeader t H = true) :
    IsHeader t H ∧ ∃ r, readHead t H = .ok r := by
  have hne : H ≠ [] := by
    rintro rfl
    cases t <;> exact absurd h (by decide)
  rw [acceptsHeader] at h
  split at h
  · rename_i r r' hr hr'
    rw [Bool.and_eq_true, Option.isNone_iff_eq_none, Option.isSome_iff_ne_none] at h
    have hlast : readHead t (H.dropLast ++ [H.getLast hne]) = .ok r' := by
      rw [List.dropLast_concat_getLast]
      exact hr'
    have hH := isHeader_of_last hr h.1 hlast h.2
    rw [List.dropLast_concat_getLast] at hH
    exact ⟨hH, r', hr'⟩
  · cases h

namespace IsHeader

variable {t : HttpParserType} {H x : Bytes} {r : Head.Reading}

/-- The reading of the bytes in front of a place inside the header. -/
theorem read_take (hH : IsHeader t H) (hr : readHead t H = .ok r) {n : Nat} (hn : n < H.length) :
    ∃ r', readHead t (H.take n) = .ok r' ∧ r'.head.hp = none ∧ r'.exited = false ∧
      Head.Fits r'.parser.flags.trailing r'.parser.state.phase r'.head ∧
      ∃ r'', Head.read r'.parser r'.head (H.drop n) = .ok r'' := by
  rw [readHead, ← List.take_append_drop n H] at hr
  obtain ⟨r', hr', hrest⟩ := read_append_ok hr
  have hhp := hH.before n hn r' hr'
  have hex := Head.not_exited (init_fits t) hr' hhp
  obtain ⟨r'', hr'', -⟩ := hrest hex
  exact ⟨r', hr', hhp, hex, (init_fits t).read hr', r'', hr''⟩

/-- No header is complete before the last byte. -/
theorem before_append {A B : Bytes} (hH : IsHeader t (A ++ B)) (hB : B ≠ [])
    (hr : readHead t A = .ok r) : r.head.hp = none := by
  have hlen := List.length_pos_of_ne_nil hB
  exact hH.before A.length (by rw [List.length_append]; omega) r (by rw [List.take_left]; exact hr)

theorem ne_nil (hH : IsHeader t H) : H ≠ [] := by
  rintro rfl
  exact hH.ends ⟨.init t, .empty, 0, false⟩ rfl rfl

/-- At the end of a header section the header is reported complete, and no token is
open. -/
theorem completes (hH : IsHeader t H) (hr : readHead t H = .ok r) :
    r.head.done = true ∧ r.parser.state.phase.token = none := by
  have hlen : 0 < H.length := List.length_pos_of_ne_nil hH.ne_nil
  obtain ⟨r', hr', hhp, hex, hf, -⟩ := hH.read_take hr (n := H.length - 1) (by omega)
  have hend := hH.ends r hr
  rw [← List.take_length (l := H), ← Nat.sub_add_cancel hlen, List.take_add_one,
    List.getElem?_eq_getElem (by omega)] at hr
  obtain ⟨acts, exit, hm, hhead⟩ := readHead_last hr hr' hex
  rw [hhead] at hend ⊢
  exact Head.step_completes hm hf hhp hend

/-- **A header section that is accepted is not too long.** -/
theorem length_le (hH : IsHeader t H) (hr : readHead t H = .ok r) :
    H.length ≤ HTTP_MAX_HEADER_SIZE := by
  have hlen : 0 < H.length := List.length_pos_of_ne_nil hH.ne_nil
  obtain ⟨r', hr', hhp, -, hf, r'', hr''⟩ := hH.read_take hr (n := H.length - 1) (by omega)
  have hcount := (Head.read_nread (init_fits t) hr' hhp (Nat.zero_le _)).1
  rw [List.drop_eq_getElem_cons (by omega)] at hr''
  obtain ⟨o, hs, -⟩ := Head.read_cons_ok hr''
  obtain ⟨-, -, h1, h2⟩ := hf.before hhp
  obtain ⟨-, hle, -⟩ := HttpParser.stepByte_kept hs ⟨h1, h2, hf.resting⟩
  have hzero : (HttpParser.init t).nread = 0 := rfl
  rw [List.length_take, hzero] at hcount
  omega

end IsHeader

/-- Do the bytes end inside a token? -/
def inToken (t : HttpParserType) (S : Bytes) : Bool :=
  match readHead t S with
  | .ok r => r.parser.state.phase.token.isSome
  | .error _ => false

theorem inToken_iff {t : HttpParserType} {S : Bytes} :
    inToken t S = true ↔ ∃ r, readHead t S = .ok r ∧ r.parser.state.phase.token ≠ none := by
  rw [inToken]
  cases readHead t S with
  | error e => simp
  | ok r => simp [Option.isSome_iff_ne_none]

/-- Place `k` of the bytes is at a token: it is inside of one, or right in front of its
first byte. -/
def Anchor (t : HttpParserType) (S : Bytes) (k : Nat) : Prop :=
  inToken t (S.take k) = true ∨ inToken t (S.take (k + 1)) = true

namespace Anchor

variable {t : HttpParserType} {H x : Bytes} {r : Head.Reading} {k : Nat}

/-- At such a place the first line has begun. -/
theorem read_take (ha : Anchor t H k) (hH : IsHeader t H) (hr : readHead t H = .ok r)
    (hk : k < H.length) :
    ∃ r', readHead t (H.take k) = .ok r' ∧ r'.exited = false ∧ r'.head.hp = none ∧
      Head.Fits r'.parser.flags.trailing r'.parser.state.phase r'.head ∧
      r'.parser.state.phase ≠ .start := by
  obtain ⟨r', hr', hhp, hex, hf, -⟩ := hH.read_take hr hk
  refine ⟨r', hr', hex, hhp, hf, ?_⟩
  rcases ha with ha | ha
  · obtain ⟨r₁, hr₁, ht⟩ := inToken_iff.1 ha
    rw [hr'] at hr₁
    cases hr₁
    intro hc
    rw [hc] at ht
    exact ht rfl
  · obtain ⟨r₁, hr₁, ht⟩ := inToken_iff.1 ha
    rw [List.take_add_one, List.getElem?_eq_getElem hk] at hr₁
    obtain ⟨acts, exit, hm, -⟩ := readHead_last hr₁ hr' hex
    exact Head.moves_opens hm hf.resting ht

/-- **Every CR LF CR LF behind a token ends the header.** -/
theorem add_eq_length (ha : Anchor t H k) (hH : IsHeader t H) (hr : readHead t H = .ok r)
    (hk : k < H.length) {j : Nat} (hj : crlfcrlf <+: H.drop (k + j)) : k + j + 4 = H.length := by
  obtain ⟨r₁, hr₁, hex₁, hhp₁, hf₁, hstart⟩ := ha.read_take hH hr hk
  have hlen : k + j + 4 ≤ H.length := by
    have := hj.length_le
    rw [List.length_drop, crlfcrlf_length] at this
    omega
  by_contra hne
  obtain ⟨r₂, hr₂, hhp₂, -⟩ := hH.read_take hr (n := k + j + 4) (by omega)
  -- Up to the end of the match: the bytes before the token, those before the match, the match.
  have hsplit : H.take (k + j + 4) = H.take k ++ ((H.drop k).take j ++ crlfcrlf) := by
    obtain ⟨z, hz⟩ := hj
    rw [← List.append_assoc, ← List.take_add, Nat.add_assoc, Nat.add_comm j 4, ← Nat.add_assoc,
      Nat.add_right_comm, List.take_add, ← hz]
    rfl
  rw [hsplit] at hr₂
  obtain ⟨r₁', hr₁', hrest⟩ := read_append_ok hr₂
  rw [readHead, hr₁'] at hr₁
  cases hr₁
  obtain ⟨r₃, hr₃, rfl⟩ := hrest hex₁
  obtain ⟨r₄, hr₄, hrest⟩ := read_append_ok hr₃
  have hhp₃ : r₃.head.hp = none := hhp₂
  have hhp₄ := read_append_before hr₃ hhp₃ hr₄
  obtain ⟨r₅, hr₅, rfl⟩ := hrest (Head.not_exited hf₁ hr₄ hhp₄)
  exact Head.crlfcrlf_completes (hf₁.read hr₄) (Head.read_ne_start hf₁ hstart hr₄ hhp₄) hr₅ hhp₃

/-- A token does not start inside the CR LF CR LF at the end of the header. -/
theorem add_four_le (ha : Anchor t H k) (hH : IsHeader t H) (hr : readHead t H = .ok r)
    (hk : k < H.length) (hend : crlfcrlf <:+ H) : k + 4 ≤ H.length := by
  obtain ⟨A, rfl⟩ := hend
  rw [List.length_append, crlfcrlf_length] at hk ⊢
  by_contra hlt
  have hnl : ∀ n, A.length ≤ n → n < A.length + 4 →
      ∃ c, (A ++ crlfcrlf)[n]? = some c ∧ (c = CR ∨ c = LF) := by
    intro n h1 h2
    rw [List.getElem?_append_right h1]
    have : n - A.length = 0 ∨ n - A.length = 1 ∨ n - A.length = 2 ∨ n - A.length = 3 := by omega
    rcases this with h | h | h | h <;> rw [h]
    · exact ⟨CR, rfl, .inl rfl⟩
    · exact ⟨LF, rfl, .inr rfl⟩
    · exact ⟨CR, rfl, .inl rfl⟩
    · exact ⟨LF, rfl, .inr rfl⟩
  -- A newline is no byte of a token.
  have hnone : ∀ n, A.length ≤ n → n < A.length + 4 →
      inToken t ((A ++ crlfcrlf).take (n + 1)) = false := by
    intro n h1 h2
    by_contra htok
    obtain ⟨r₁, hr₁, ht⟩ := inToken_iff.1 (by simpa using htok)
    obtain ⟨c, hc, hcnl⟩ := hnl n h1 h2
    obtain ⟨r', hr', -, hex, hf, -⟩ := hH.read_take hr
      (n := n) (by rw [List.length_append, crlfcrlf_length]; exact h2)
    rw [List.take_add_one, hc] at hr₁
    obtain ⟨acts, exit, hm, -⟩ := readHead_last hr₁ hr' hex
    exact ht (Head.moves_newline hm hf.resting hcnl)
  rcases ha with ha | ha
  · obtain ⟨k', rfl⟩ : ∃ k', k = k' + 1 := ⟨k - 1, by omega⟩
    rw [hnone k' (by omega) (by omega)] at ha
    cases ha
  · rw [hnone k (by omega) (by omega)] at ha
    cases ha

/-- A search that starts at a token finds the end of a header with proper line ends,
whatever lies behind it. -/
theorem findSub_eq (ha : Anchor t H k) (hH : IsHeader t H) (hr : readHead t H = .ok r)
    (hk : k < H.length) (hend : crlfcrlf <:+ H) (y : Bytes) :
    findSub crlfcrlf (H.drop k ++ y) = some (H.length - 4 - k) := by
  have hle := ha.add_four_le hH hr hk hend
  obtain ⟨A, rfl⟩ := hend
  rw [List.length_append, crlfcrlf_length, Nat.add_sub_cancel] at *
  refine findSub_eq_some_iff.2 ⟨⟨by simp; omega, ?_⟩, ?_⟩
  · have hdrop : (A ++ crlfcrlf).drop k ++ y = A.drop k ++ (crlfcrlf ++ y) := by
      rw [List.drop_append_of_le_length (by omega), List.append_assoc]
    rw [hdrop, List.drop_left' (by simp)]
    exact List.prefix_append _ _
  · intro j hj hc
    rw [List.drop_append_of_le_length (by simp; omega), List.drop_drop] at hc
    have := ha.add_eq_length hH hr (by simp; omega) (j := j)
      (List.prefix_of_prefix_length_le hc (List.prefix_append _ _) (by simp; omega))
    rw [List.length_append, crlfcrlf_length] at this
    omega

/-- A search that starts at a token and goes no further than the header finds its
end or nothing. -/
theorem findSub_end (ha : Anchor t H k) (hH : IsHeader t H) (hr : readHead t H = .ok r)
    (hk : k < H.length) {j : Nat} (hj : findSub crlfcrlf (H.drop k) = some j) :
    k + j + 4 = H.length := by
  obtain ⟨⟨-, hpre⟩, -⟩ := findSub_eq_some_iff.1 hj
  rw [List.drop_drop] at hpre
  exact ha.add_eq_length hH hr hk hpre

end Anchor

/-! ## The end of a header -/

/-- The byte that completes a header leads to its body or to the end of the message. -/
theorem Head.step_ends {tr exit tr' : Bool} {ph ph' : Phase} {ch : Byte} {acts : List Act} {h : Head}
    (hm : Moves tr ph ch acts exit tr' ph') (hf : Head.Fits tr ph h) (hn : h.hp = none)
    (hs : (h.step acts ph' ch).hp ≠ none) :
    (ph' = .framing ∨ ph' = .content ∨ ph' = .start) ∧ (h.step acts ph' ch).done = true := by
  rw [Head.step, Head.byte_hp] at hs
  cases hm with
  | header hl he =>
    refine ⟨?_, ?_⟩
    · cases he with
      | body _ hph => rcases hph with rfl | rfl <;> simp
      | message => simp
    · rw [Head.step, Head.byte_done, List.foldl_append, List.foldl_cons]
      cases he <;> rfl
  | nameOpen hl =>
    rw [List.foldl_append, Head.foldl_act_lineHead hl] at hs
    exact absurd hn hs
  | lastCr hl =>
    rw [Head.foldl_act_lineHead hl] at hs
    exact absurd hn hs
  | trailer hl => exact absurd hn (hf.completed (.inl rfl))
  | passing => exact absurd rfl hf.resting
  | _ => exact absurd hn hs

/-- At the end of a header a body follows, or the message is complete. -/
theorem IsHeader.phase_end {t : HttpParserType} {H : Bytes} {r : Head.Reading} (hH : IsHeader t H)
    (hr : readHead t H = .ok r) :
    (r.parser.state.phase = .framing ∨ r.parser.state.phase = .content ∨ r.parser.state.phase = .start) ∧
      r.head.done = true := by
  have hlen : 0 < H.length := List.length_pos_of_ne_nil hH.ne_nil
  obtain ⟨r', hr', hhp, hex, hf, -⟩ := hH.read_take hr (n := H.length - 1) (by omega)
  have hend := hH.ends r hr
  rw [← List.take_length (l := H), ← Nat.sub_add_cancel hlen, List.take_add_one,
    List.getElem?_eq_getElem (by omega)] at hr
  obtain ⟨acts, exit, hm, hhead⟩ := readHead_last hr hr' hex
  rw [hhead] at hend ⊢
  exact Head.step_ends hm hf hhp hend

end HttpProxy
