import HttpProxy.Message.Boundary

/-!
# Behind the header

What the http-parser reads behind a header, up to the end of the message, is a body, and
behind the last chunk of it the lines of a trailer, which are read like those of a header.

* `Behind` — the phases of these bytes.
* `crlfcrlf_ends` — inside a trailer, CR LF CR LF ends the message.
* `Quiet` — bytes with which no url, field or value is open leave url and fields alone.
* `Complete`, `Complete.findSub_eq` — from a token of the trailer, a search for CR LF CR LF
  finds the end of the message.
-/

namespace HttpProxy

/-! ## Readings that go on -/

section

variable {t : HttpParserType} {S x : Bytes} {rS r : Head.Reading}

/-- What leaves HTTP is not read on. -/
theorem readHead_exited (hS : readHead t S = .ok rS) (hex : rS.exited = true) (x : Bytes) :
    readHead t (S ++ x) = .ok rS := by
  rw [readHead, Head.read_append, ← readHead, hS]
  simp only [hex, if_true]

/-- What stays in HTTP is read on from there. -/
theorem readHead_more (hS : readHead t S = .ok rS) (hex : rS.exited = false)
    (hr : Head.read rS.parser rS.head x = .ok r) :
    readHead t (S ++ x) = .ok (r.more rS.consumed) := by
  rw [readHead, Head.read_append, ← readHead, hS]
  simp only [hex, Bool.false_eq_true, if_false, hr]
  rfl

theorem readHead_rest (hS : readHead t S = .ok rS) (hex : rS.exited = false)
    (hr : readHead t (S ++ x) = .ok r) :
    ∃ r', Head.read rS.parser rS.head x = .ok r' ∧ r = r'.more rS.consumed := by
  obtain ⟨rS', hS', hrest⟩ := read_append_ok hr
  rw [← readHead, hS] at hS'
  cases hS'
  exact hrest hex

/-- A header that is complete stays so. -/
theorem readHead_hp (hS : readHead t S = .ok rS) (hhp : rS.head.hp ≠ none)
    (hr : readHead t (S ++ x) = .ok r) : r.head.hp ≠ none := by
  cases hex : rS.exited with
  | true =>
    rw [readHead_exited hS hex] at hr
    rwa [← Except.ok.inj hr]
  | false =>
    obtain ⟨rx, hrx, rfl⟩ := readHead_rest hS hex hr
    rw [Head.Reading.more_head]
    exact Head.read_hp hrx hhp

end

/-! ## Phases behind the header -/

/-- The phases of the lines behind the last chunk. -/
def inTrailer : Phase → Bool
  | .lineStart | .name | .gap | .value | .fieldEol | .folding | .lastLine => true
  | _ => false

/-- In the body of a message, or in its trailer. -/
def Behind (tr : Bool) (ph : Phase) : Prop :=
  ph = .framing ∨ ph = .content ∨ (tr = true ∧ inTrailer ph = true)

section

variable {tr exit tr' : Bool} {ph ph' : Phase} {ch : Byte} {acts : List Act}

/-- A byte of a trailer. -/
theorem trailer_step (hm : Moves true ph ch acts exit tr' ph') (hph : inTrailer ph = true) :
    ph' = .start ∨ (tr' = true ∧ inTrailer ph' = true) := by
  cases hm with
  | trailer => exact .inl rfl
  | nameOpen | name | colon | gap | gapCr | gapLf | valueOpen | value | valueCr | valueLf | fieldEol
  | foldGap | foldValue | lastCr => exact .inr ⟨rfl, rfl⟩
  | _ => cases hph

theorem Behind.step (hb : Behind tr ph) (hm : Moves tr ph ch acts exit tr' ph') :
    ph' = .start ∨ Behind tr' ph' := by
  rcases hb with rfl | rfl | ⟨rfl, hph⟩
  · cases hm with
    | framing h =>
      rcases h with rfl | rfl
      · exact .inr (.inl rfl)
      · exact .inr (.inr (.inl rfl))
    | lastChunk => exact .inr (.inr (.inr ⟨rfl, rfl⟩))
    | nameOpen hl | lastCr hl => cases hl
    | header hl | trailer hl => cases hl with | bare hl => cases hl
  · cases hm with
    | content => exact .inr (.inr (.inl rfl))
    | contentEnd => exact .inr (.inl rfl)
    | contentMessage => exact .inl rfl
    | nameOpen hl | lastCr hl => cases hl
    | header hl | trailer hl => cases hl with | bare hl => cases hl
  · rcases trailer_step hm hph with h | h
    · exact .inl h
    · exact .inr (.inr (.inr h))

/-- No header is complete behind the first one, before the message ends. -/
theorem Behind.step_hp (hb : Behind tr ph) (hm : Moves tr ph ch acts exit tr' ph') (h : Head) :
    (h.step acts ph' ch).hp = h.hp := by
  rw [Head.step, Head.byte_hp]
  cases hm with
  | header hl =>
    rcases hb with rfl | rfl | ⟨h, -⟩
    · cases hl with | bare hl => cases hl
    · cases hl with | bare hl => cases hl
    · cases h
  | nameOpen hl => rw [List.foldl_append, Head.foldl_act_lineHead hl]; rfl
  | lastCr hl => rw [Head.foldl_act_lineHead hl]
  | trailer hl => rw [List.foldl_append, Head.foldl_act_lastLine hl]; rfl
  | passing => rcases hb with h | h | ⟨-, h⟩ <;> cases h
  | _ => rfl

/-- A token behind the header is one of the trailer. -/
theorem Behind.of_token (hb : Behind tr ph) (ht : ph.token ≠ none) :
    tr = true ∧ inTrailer ph = true := by
  rcases hb with rfl | rfl | h
  · exact absurd rfl ht
  · exact absurd rfl ht
  · exact h

/-- The CR of a line end of the trailer. -/
theorem trailer_cr (hm : Moves true ph CR acts exit tr' ph') (hph : inTrailer ph = true) :
    ph' = .fieldEol ∨ ph' = .lastLine := by
  cases hm with
  | gapCr | valueCr => exact .inl rfl
  | lastCr => exact .inr rfl
  | nameOpen _ h | name h => exact absurd (by decide) h
  | gap h | foldGap h | foldValue h => rcases h with h | h <;> exact absurd h (by decide)
  | valueOpen h | value h => exact absurd rfl h
  | _ => cases hph

/-- The LF of a line end of the trailer. -/
theorem trailer_lf (hm : Moves true ph LF acts exit tr' ph')
    (hph : ph = .fieldEol ∨ ph = .lastLine) :
    (ph = .fieldEol ∧ ph' = .folding) ∨ (ph = .lastLine ∧ ph' = .start) := by
  cases hm with
  | fieldEol => exact .inl ⟨rfl, rfl⟩
  | trailer hl =>
    refine .inr ⟨hph.resolve_left ?_, rfl⟩
    rintro rfl
    cases hl with | bare hl => cases hl
  | nameOpen hl => rcases hph with rfl | rfl <;> cases hl
  | _ => rcases hph with h | h <;> cases h

end

namespace Head

variable {p : HttpParser} {h : Head} {bs : Bytes} {r : Reading}

/-- A byte that does not lead between messages. -/
theorem read_cons_inside {ch : Byte} (hf : Fits p.flags.trailing p.state.phase h)
    (hr : read p h (ch :: bs) = .ok r)
    (hin : ∀ r', read p h [ch] = .ok r' → r'.parser.state.phase ≠ .start) :
    ∃ o r', p.stepByte ch = .ok o ∧ o.exit = false ∧ o.parser.state.phase ≠ .start ∧
      read o.parser (h.step o.acts o.parser.state.phase ch) bs = .ok r' ∧ r = r'.more 1 := by
  obtain ⟨o, hs, ho⟩ := read_cons_ok hr
  have hne := hin _ (read_singleton hs h)
  rcases ho with ⟨hexit, -⟩ | ⟨hexit, r', hr', rfl⟩
  · have hm := HttpParser.stepByte_moves hs
    rw [hexit] at hm
    exact absurd (hm.exit_start hf.resting) hne
  · exact ⟨o, r', hs, hexit, hne, hr', rfl⟩

/-- **Inside a message, what is read behind the header is body or trailer.** -/
theorem read_behind (hf : Fits p.flags.trailing p.state.phase h)
    (hb : Behind p.flags.trailing p.state.phase) (hr : read p h bs = .ok r)
    (hin : ∀ n, 0 < n → n ≤ bs.length → ∀ r', read p h (bs.take n) = .ok r' →
      r'.parser.state.phase ≠ .start) :
    r.exited = false ∧ Behind r.parser.flags.trailing r.parser.state.phase ∧
      (p.flags.trailing = true → inTrailer p.state.phase = true →
        r.parser.flags.trailing = true ∧ inTrailer r.parser.state.phase = true) := by
  induction bs generalizing p h r with
  | nil => cases hr; exact ⟨rfl, hb, fun h1 h2 => ⟨h1, h2⟩⟩
  | cons ch bs ih =>
    obtain ⟨o, r', hs, hexit, hne, hr', rfl⟩ :=
      read_cons_inside hf hr (hin 1 Nat.one_pos (by simp))
    have hm := HttpParser.stepByte_moves hs
    have hb' := (hb.step hm).resolve_left hne
    obtain ⟨h1, h2, h3⟩ := ih (hf.step hm) hb' hr' fun n hn hle r₁ hr₁ =>
      hin (n + 1) (Nat.succ_pos n) (by simpa using hle) (r₁.more 1) (read_cons hs hexit hr₁)
    refine ⟨h1, h2, fun htr hph => ?_⟩
    rw [htr] at hm
    obtain ⟨h4, h5⟩ := (trailer_step hm hph).resolve_left hne
    exact h3 h4 h5

/-- Inside a message, the header that is complete stays the same. -/
theorem read_behind_hp (hf : Fits p.flags.trailing p.state.phase h)
    (hb : Behind p.flags.trailing p.state.phase) (hr : read p h bs = .ok r)
    (hin : ∀ n < bs.length, ∀ r', read p h (bs.take n) = .ok r' → r'.parser.state.phase ≠ .start) :
    r.head.hp = h.hp := by
  induction bs generalizing p h r with
  | nil => cases hr; rfl
  | cons ch bs ih =>
    obtain ⟨o, hs, ho⟩ := read_cons_ok hr
    have hm := HttpParser.stepByte_moves hs
    have hone := hb.step_hp hm h
    rcases ho with ⟨-, rfl⟩ | ⟨hexit, r', hr', rfl⟩
    · exact hone
    · have hin' : ∀ n < bs.length, ∀ r₁,
          read o.parser (h.step o.acts o.parser.state.phase ch) (bs.take n) = .ok r₁ →
            r₁.parser.state.phase ≠ .start :=
        fun n hn r₁ hr₁ => hin (n + 1) (Nat.succ_lt_succ hn) (r₁.more 1) (read_cons hs hexit hr₁)
      cases bs with
      | nil => cases hr'; exact hone
      | cons ch' bs =>
        have hne := hin' 0 (Nat.succ_pos _) _ rfl
        exact (ih (hf.step hm) ((hb.step hm).resolve_left hne) hr' hin').trans hone

/-- **Inside a trailer, CR LF CR LF ends the message.** -/
theorem crlfcrlf_ends (hf : Fits p.flags.trailing p.state.phase h) (htr : p.flags.trailing = true)
    (hph : inTrailer p.state.phase = true) (hr : read p h crlfcrlf = .ok r) :
    ∃ n, 0 < n ∧ n ≤ 4 ∧
      ∃ r', read p h (crlfcrlf.take n) = .ok r' ∧ r'.parser.state.phase = .start := by
  by_contra hno
  have hin : ∀ n, 0 < n → n ≤ 4 → ∀ r', read p h (crlfcrlf.take n) = .ok r' →
      r'.parser.state.phase ≠ .start := fun n h1 h2 r' hr' hs => hno ⟨n, h1, h2, r', hr', hs⟩
  obtain ⟨o₁, r₁, hs₁, e₁, n₁, hr₁, -⟩ := read_cons_inside hf hr (hin 1 (by omega) (by omega))
  have m₁ := HttpParser.stepByte_moves hs₁
  have f₁ := hf.step m₁
  rw [htr] at m₁
  obtain ⟨t₁, -⟩ := (trailer_step m₁ hph).resolve_left n₁
  obtain ⟨o₂, r₂, hs₂, e₂, n₂, hr₂, -⟩ := read_cons_inside f₁ hr₁ fun r' hr' =>
    hin 2 (by omega) (by omega) (r'.more 1) (read_cons hs₁ e₁ hr')
  have m₂ := HttpParser.stepByte_moves hs₂
  have f₂ := f₁.step m₂
  rw [t₁] at m₂
  -- The first CR LF ends a field, the second one is the empty line.
  have hfold := ((trailer_lf m₂ (trailer_cr m₁ hph)).resolve_right fun h => n₂ h.2).2
  obtain ⟨t₂, -⟩ := (trailer_step m₂ (by
    rcases trailer_cr m₁ hph with h | h <;> rw [h] <;> rfl)).resolve_left n₂
  obtain ⟨o₃, r₃, hs₃, e₃, n₃, hr₃, -⟩ := read_cons_inside f₂ hr₂ fun r' hr' =>
    hin 3 (by omega) (by omega) ((r'.more 1).more 1) (read_cons hs₁ e₁ (read_cons hs₂ e₂ hr'))
  have m₃ := HttpParser.stepByte_moves hs₃
  have f₃ := f₂.step m₃
  rw [t₂] at m₃
  have hlast := moves_line_cr m₃ (.inr hfold)
  obtain ⟨t₃, -⟩ := (trailer_step m₃ (by rw [hfold]; rfl)).resolve_left n₃
  obtain ⟨o₄, r₄, hs₄, e₄, n₄, hr₄, -⟩ := read_cons_inside f₃ hr₃ fun r' hr' =>
    hin 4 (by omega) (by omega) (((r'.more 1).more 1).more 1)
      (read_cons hs₁ e₁ (read_cons hs₂ e₂ (read_cons hs₃ e₃ hr')))
  have m₄ := HttpParser.stepByte_moves hs₄
  rw [t₃] at m₄
  rcases trailer_lf m₄ (.inr hlast) with h | h
  · rw [hlast] at h
    cases h.1
  · exact n₄ h.2

end Head

/-! ## Bytes without a token -/

/-- No url, name or value is open behind a byte of `x`. -/
def Quiet (t : HttpParserType) (S x : Bytes) : Prop :=
  ∀ n < x.length, inToken t (S ++ x.take (n + 1)) = false

instance (t : HttpParserType) (S x : Bytes) : Decidable (Quiet t S x) :=
  inferInstanceAs (Decidable (∀ n < x.length, _))

namespace Head

variable {p : HttpParser} {h : Head} {bs : Bytes} {r : Reading}

/-- A byte behind which no token is open adds nothing to the url and the fields. -/
theorem step_quiet {tr exit tr' : Bool} {ph ph' : Phase} {ch : Byte} {acts : List Act}
    (hm : Moves tr ph ch acts exit tr' ph') (hph : ph ≠ .passing) (ht : ph'.token = none)
    (h : Head) :
    (h.step acts ph' ch).url = h.url ∧ (h.step acts ph' ch).fields = h.fields := by
  have hbyte : ∀ h' : Head, h'.byte ph'.token ch = h' := by
    intro h'
    rw [ht]
    rfl
  rw [step, hbyte]
  cases hm with
  | passing => exact absurd rfl hph
  | urlOpen | url | nameOpen | name | valueOpen | value | foldValue => cases ht
  | lastCr hl => rw [foldl_act_lineHead hl]; exact ⟨rfl, rfl⟩
  | header hl he =>
    rw [List.foldl_append, foldl_act_lastLine hl, List.foldl_cons]
    exact ⟨(foldl_act_ended he _).2.1, (foldl_act_ended he _).1⟩
  | trailer hl =>
    rw [List.foldl_append, foldl_act_lastLine hl]
    exact ⟨rfl, rfl⟩
  | _ => exact ⟨rfl, rfl⟩

theorem read_quiet (hf : Fits p.flags.trailing p.state.phase h) (hr : read p h bs = .ok r)
    (hq : ∀ n < bs.length, ∀ r', read p h (bs.take (n + 1)) = .ok r' →
      r'.parser.state.phase.token = none) :
    r.head.url = h.url ∧ r.head.fields = h.fields := by
  induction bs generalizing p h r with
  | nil => cases hr; exact ⟨rfl, rfl⟩
  | cons ch bs ih =>
    obtain ⟨o, hs, ho⟩ := read_cons_ok hr
    have hm := HttpParser.stepByte_moves hs
    obtain ⟨hu, hfs⟩ := step_quiet hm hf.resting (hq 0 (Nat.succ_pos _) _ (read_singleton hs h)) h
    rcases ho with ⟨-, rfl⟩ | ⟨hexit, r', hr', rfl⟩
    · exact ⟨hu, hfs⟩
    · obtain ⟨hu', hfs'⟩ := ih (hf.step hm) hr' fun n hn r₁ hr₁ =>
        hq (n + 1) (Nat.succ_lt_succ hn) (r₁.more 1) (read_cons hs hexit hr₁)
      exact ⟨hu'.trans hu, hfs'.trans hfs⟩

end Head

section

variable {t : HttpParserType} {S x : Bytes} {rS r : Head.Reading}

theorem quiet_of_exited (hS : readHead t S = .ok rS) (hex : rS.exited = true) (x : Bytes) :
    Quiet t S x := by
  intro n _
  rw [inToken, readHead_exited hS hex]
  simp only [Head.read_exited (init_fits t) hS hex]
  rfl

/-- In terms of the reading from there on. -/
theorem quiet_iff (hS : readHead t S = .ok rS) (hex : rS.exited = false) :
    Quiet t S x ↔ ∀ n < x.length, ∀ r', Head.read rS.parser rS.head (x.take (n + 1)) = .ok r' →
      r'.parser.state.phase.token = none := by
  refine forall₂_congr fun n _ => ?_
  rw [← Bool.not_eq_true, inToken_append hS hex]
  simp

/-- Quiet bytes leave the url and the fields as they are. -/
theorem Quiet.head (hq : Quiet t S x) (hS : readHead t S = .ok rS)
    (hr : readHead t (S ++ x) = .ok r) :
    r.head.url = rS.head.url ∧ r.head.fields = rS.head.fields := by
  cases hex : rS.exited with
  | true =>
    rw [readHead_exited hS hex] at hr
    cases hr
    exact ⟨rfl, rfl⟩
  | false =>
    obtain ⟨rx, hrx, rfl⟩ := readHead_rest hS hex hr
    rw [Head.Reading.more_head]
    exact Head.read_quiet ((init_fits t).read hS) hrx ((quiet_iff hS hex).1 hq)

end

/-! ## The end of the message -/

/-- A message: a header, and bytes behind it up to the first place between two messages. -/
structure Complete (t : HttpParserType) (H B : Bytes) (r : Head.Reading) : Prop where
  header : IsHeader t H
  read : readHead t (H ++ B) = .ok r
  same : SameMessage t H B
  ends : r.parser.state.phase = .start

namespace Complete

variable {t : HttpParserType} {H B : Bytes} {r : Head.Reading}

/-- The reading of the bytes up to a place behind the header. -/
theorem read_take (hM : Complete t H B r) (n : Nat) :
    ∃ r', readHead t (H ++ B.take n) = .ok r' := by
  have hr := hM.read
  rw [← List.take_append_drop n B, ← List.append_assoc] at hr
  obtain ⟨r', hr', -⟩ := read_append_ok hr
  exact ⟨r', hr'⟩

/-- Before its end, a message does not leave HTTP. -/
theorem not_exited (hM : Complete t H B r) {n : Nat} (hn : n < B.length) {r' : Head.Reading}
    (hr' : readHead t (H ++ B.take n) = .ok r') : r'.exited = false := by
  by_contra hex
  exact hM.same.phase_ne hn hr' (Head.read_exited (init_fits t) hr' (by simpa using hex))

/-- Behind the header there is body or trailer. -/
theorem behind (hM : Complete t H B r) {n : Nat} (hn : n < B.length) {r' : Head.Reading}
    (hr' : readHead t (H ++ B.take n) = .ok r') :
    Behind r'.parser.flags.trailing r'.parser.state.phase := by
  obtain ⟨rH, hrH⟩ := hM.read_take 0
  have hpos : 0 < B.length := by omega
  have hex := hM.not_exited hpos hrH
  have hne := hM.same.phase_ne hpos hrH
  rw [List.take_zero, List.append_nil] at hrH
  have hb : Behind rH.parser.flags.trailing rH.parser.state.phase := by
    rcases (hM.header.phase_end hrH).1 with h | h | h
    · exact .inl h
    · exact .inr (.inl h)
    · exact absurd h hne
  obtain ⟨r₁, hr₁, rfl⟩ := readHead_rest hrH hex hr'
  refine (Head.read_behind ((init_fits t).read hrH) hb hr₁ fun k _ hk r₂ hr₂ => ?_).2.1
  rw [List.length_take] at hk
  rw [List.take_take, Nat.min_eq_left (by omega)] at hr₂
  have hread := readHead_more hrH hex hr₂
  exact hM.same.phase_ne (n := k) (r := r₂.more rH.consumed) (by omega) hread

/-- A message is read to its end, and there it is reported complete. -/
theorem consumed (hM : Complete t H B r) :
    r.consumed = (H ++ B).length ∧ r.head.done = true ∧ r.head.hp ≠ none := by
  obtain ⟨rH, hrH, hrest⟩ := read_append_ok hM.read
  obtain ⟨hdone, -⟩ := hM.header.completes hrH
  have hhp := hM.header.ends rH hrH
  cases hB : B with
  | nil =>
    have hr := hM.read
    rw [hB, List.append_nil] at hr
    rw [List.append_nil]
    rw [← readHead, hr] at hrH
    cases hrH
    refine ⟨?_, hdone, hhp⟩
    by_contra hne
    have hle := (Head.read_consumed hr).1
    exact hhp (hM.header.before r.consumed (by omega) r (Head.read_take_consumed hr))
  | cons b bs =>
    have hpos : 0 < B.length := by rw [hB]; exact Nat.succ_pos _
    have hex := hM.not_exited (n := 0) hpos (by rw [List.take_zero, List.append_nil]; exact hrH)
    obtain ⟨rB, hrB, hr⟩ := hrest hex
    obtain ⟨h1, h2⟩ := Head.read_sameMessage ((init_fits t).read hrH) hrB fun n hn r' hr' =>
      hM.same.phase_ne (r := r'.more rH.consumed) hn (readHead_more hrH hex hr')
    rw [hr, ← hB]
    refine ⟨?_, h2 hdone, show rB.head.hp ≠ none from Head.read_hp hrB hhp⟩
    rw [Head.Reading.more_consumed, h1, (Head.read_consumed hrH).2 hex, List.length_append,
      Nat.add_comm]

/-- A byte with which a token is open is no line end. -/
theorem token_ne (hM : Complete t H B r) {m : Nat} (hm : m < B.length)
    (htok : inToken t (H ++ B.take (m + 1)) = true) : B[m] ≠ CR ∧ B[m] ≠ LF := by
  obtain ⟨r', hr'⟩ := hM.read_take m
  obtain ⟨r₁, hr₁, ht⟩ := inToken_iff.1 htok
  rw [List.take_add_one, List.getElem?_eq_getElem hm, Option.toList_some,
    ← List.append_assoc] at hr₁
  obtain ⟨acts, exit, hmv, -⟩ := readHead_last hr₁ hr' (hM.not_exited hm hr')
  have hnl := Head.moves_newline hmv ((init_fits t).read hr').resting
  exact ⟨fun h => ht (hnl (.inl h)), fun h => ht (hnl (.inr h))⟩

/-- **Every CR LF CR LF behind a token of the trailer ends the message.** -/
theorem add_eq_length (hM : Complete t H B r) {m j : Nat} (hm : m < B.length)
    (htok : inToken t (H ++ B.take (m + 1)) = true) (hj : crlfcrlf <+: B.drop (m + j)) :
    m + j + 4 = B.length := by
  have hlen : m + j + 4 ≤ B.length := by
    have := hj.length_le
    rw [List.length_drop, crlfcrlf_length] at this
    omega
  by_contra hne
  -- The token is in front of the line ends.
  obtain ⟨i, rfl⟩ : ∃ i, j = i + 1 := by
    refine ⟨j - 1, (Nat.sub_add_cancel (Nat.pos_of_ne_zero ?_)).symm⟩
    rintro rfl
    rw [Nat.add_zero, List.drop_eq_getElem_cons hm, crlfcrlf, List.cons_prefix_cons] at hj
    exact (hM.token_ne hm htok).1 hj.1.symm
  obtain ⟨r₁, hr₁, ht₁⟩ := inToken_iff.1 htok
  have hex₁ := hM.not_exited (n := m + 1) (by omega) hr₁
  obtain ⟨htr₁, hph₁⟩ := (hM.behind (by omega) hr₁).of_token ht₁
  have hf₁ := (init_fits t).read hr₁
  -- Up to the line ends, and behind them.
  have hsplit : ∀ n, n ≤ 4 → B.take (m + (i + 1) + n) =
      B.take (m + 1) ++ ((B.drop (m + 1)).take i ++ crlfcrlf.take n) := by
    intro n hn
    obtain ⟨z, hz⟩ := hj
    rw [show m + (i + 1) + n = m + 1 + (i + n) by omega, List.take_add, List.append_right_inj,
      List.take_add, List.drop_drop, show m + 1 + i = m + (i + 1) by omega, ← hz,
      List.take_append_of_le_length (by rw [crlfcrlf_length]; exact hn)]
  have hread : ∀ n, n ≤ 4 → ∀ rn, readHead t (H ++ B.take (m + (i + 1) + n)) = .ok rn →
      ∃ r', Head.read r₁.parser r₁.head ((B.drop (m + 1)).take i ++ crlfcrlf.take n) = .ok r' ∧
        rn = r'.more r₁.consumed := by
    intro n hn rn hrn
    rw [hsplit n hn, ← List.append_assoc] at hrn
    exact readHead_rest hr₁ hex₁ hrn
  obtain ⟨r₄, hr₄⟩ := hM.read_take (m + (i + 1) + 4)
  obtain ⟨r₅, hr₅, -⟩ := hread 4 (Nat.le_refl _) r₄ hr₄
  obtain ⟨r₂, hr₂, hrest⟩ := read_append_ok hr₅
  have hin : ∀ k, 0 < k → k ≤ ((B.drop (m + 1)).take i).length → ∀ r',
      Head.read r₁.parser r₁.head (((B.drop (m + 1)).take i).take k) = .ok r' →
        r'.parser.state.phase ≠ .start := by
    intro k _ hk r' hr'
    rw [List.length_take, List.length_drop] at hk
    rw [List.take_take, Nat.min_eq_left (by omega)] at hr'
    refine hM.same.phase_ne (n := m + 1 + k) (by omega) (r := r'.more r₁.consumed) ?_
    rw [List.take_add, ← List.append_assoc]
    exact readHead_more hr₁ hex₁ hr'
  obtain ⟨hex₂, -, htrailer⟩ :=
    Head.read_behind hf₁ (.inr (.inr ⟨htr₁, hph₁⟩)) hr₂ hin
  obtain ⟨htr₂, hph₂⟩ := htrailer htr₁ hph₁
  obtain ⟨r₃, hr₃, -⟩ := hrest hex₂
  rw [List.take_of_length_le (by rw [crlfcrlf_length])] at hr₃
  obtain ⟨n, hn, hn', r₆, hr₆, hstart⟩ := Head.crlfcrlf_ends (hf₁.read hr₂) htr₂ hph₂ hr₃
  -- The message would end there.
  refine hM.same.phase_ne (n := m + (i + 1) + n) (by omega)
    (r := (r₆.more r₂.consumed).more r₁.consumed) ?_ hstart
  rw [hsplit n hn', ← List.append_assoc]
  refine readHead_more hr₁ hex₁ ?_
  rw [Head.read_append, hr₂]
  simp only [hex₂, Bool.false_eq_true, if_false, hr₆]
  rfl

/-- The line ends of a message that ends with CR LF CR LF are behind the tokens. -/
theorem drop_eq_append (hM : Complete t H B r) {m : Nat} (hm : m < B.length)
    (htok : inToken t (H ++ B.take (m + 1)) = true) (hend : crlfcrlf <:+ H ++ B) :
    ∃ A, B.drop m = A ++ crlfcrlf := by
  have hdrop : B.drop m <:+ H ++ B := (List.drop_suffix m B).trans (List.suffix_append H B)
  rcases Nat.lt_or_ge (B.drop m).length crlfcrlf.length with hlt | hge
  · have hmem : B[m] ∈ crlfcrlf := by
      refine (List.suffix_of_suffix_length_le hdrop hend hlt.le).mem ?_
      rw [List.drop_eq_getElem_cons hm]
      exact List.mem_cons_self
    obtain ⟨h1, h2⟩ := hM.token_ne hm htok
    simp only [crlfcrlf, List.mem_cons, List.not_mem_nil, or_false] at hmem
    tauto
  · obtain ⟨A, hA⟩ := List.suffix_of_suffix_length_le hend hdrop hge
    exact ⟨A, hA.symm⟩

/-- A search that starts at a token of the trailer finds the end of the message, if that
is CR LF CR LF. -/
theorem findSub_eq (hM : Complete t H B r) {m : Nat} (hm : m < B.length)
    (htok : inToken t (H ++ B.take (m + 1)) = true) (hend : crlfcrlf <:+ H ++ B) (y : Bytes) :
    findSub crlfcrlf (B.drop m ++ y) = some (B.length - 4 - m) := by
  obtain ⟨A, hA⟩ := hM.drop_eq_append hm htok hend
  have hlen := congrArg List.length hA
  rw [List.length_drop, List.length_append, crlfcrlf_length] at hlen
  refine findSub_eq_some_iff.2 ⟨⟨?_, ?_⟩, fun j hj hc => ?_⟩
  · rw [List.length_append, List.length_drop]
    omega
  · rw [hA, List.append_assoc, List.drop_left' (by omega)]
    exact List.prefix_append _ _
  · rw [List.drop_append_of_le_length (by rw [List.length_drop]; omega), List.drop_drop] at hc
    have := hM.add_eq_length hm htok (j := j)
      (List.prefix_of_prefix_length_le hc (List.prefix_append _ _)
        (by rw [List.length_drop, crlfcrlf_length]; omega))
    omega

/-- A search that does not go as far finds nothing. -/
theorem findSub_none (hM : Complete t H B r) {m s : Nat} (hm : m < B.length)
    (htok : inToken t (H ++ B.take (m + 1)) = true) (hs : s < B.length) :
    findSub crlfcrlf ((B.take s).drop m) = none := by
  refine (findSub_eq_none_iff (by decide)).2 fun j hc => ?_
  rw [List.drop_drop] at hc
  have hlen := hc.length_le
  rw [List.length_drop, List.length_take, crlfcrlf_length] at hlen
  have := hM.add_eq_length hm htok (j := j)
    (hc.trans ((List.take_prefix s B).drop (m + j)))
  omega

end Complete

end HttpProxy
