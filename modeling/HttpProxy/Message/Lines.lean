import HttpProxy.Message.Agreement

/-!
# Lines that are written and read again

What the http-parser makes of header lines in the form in which `SrsHttpHeader::write` writes
them: a name, a colon, a space, the value on one line, CR LF.

* `Inside` — an invariant of the reading of such lines.
* `Leads` — bytes that are read, and lead to a state and to certain fields.
-/

namespace HttpProxy

open HttpParser

namespace HttpParser

/-! ## `Content-Length` on one line -/

/-- A `Content-Length` on one line. -/
def LengthText (v : Bytes) : Prop := ∃ ds ws n, v = ds ++ ws ∧ LengthValue ds ws false n

theorem takeWhile_lengthValue {ds ws : Bytes} {folded : Bool} {k : Nat}
    (hv : LengthValue ds ws folded k) (y : Bytes) (hy : ws = [] → ∀ c ∈ y.head?, isNum c = false) :
    (ds ++ (ws ++ y)).takeWhile isNum = ds := by
  rw [List.takeWhile_append_of_pos hv.isNum]
  have hnil : (ws ++ y).takeWhile isNum = [] := by
    cases ws with
    | nil =>
      cases y with
      | nil => rfl
      | cons c y => simpa using hy rfl c rfl
    | cons w ws => simp [not_isNum_of_isBlank (hv.isBlank w (by simp))]
  rw [hnil, List.append_nil]

/-- A digit more makes a number at least ten times as large. -/
theorem digitsValue_le_div (ds : Bytes) (c : Byte) (y : Bytes) :
    digitsValue 10 ds ≤ digitsValue 10 (ds ++ c :: y) / 10 := by
  induction y using List.reverseRecOn with
  | nil =>
    rw [digitsValue_append]
    omega
  | append_singleton y d ih =>
    rw [← List.cons_append, ← List.append_assoc, digitsValue_append]
    omega

/-- The next byte of a `Content-Length`. -/
theorem LengthText.next {ds ws x : Bytes} {ch : Byte} {k : Nat} (ht : LengthText (ds ++ ws ++ ch :: x))
    (hv : LengthValue ds ws false k) :
    ch = chr ' ' ∨ (ws = [] ∧ isNum ch = true ∧ k ≤ maxLengthTens) := by
  obtain ⟨ds', ws', k', heq, hv'⟩ := ht
  have htake := takeWhile_lengthValue hv' [] fun _ => by simp
  rw [List.append_nil, ← heq, List.append_assoc] at htake
  by_cases hnum : ws = [] ∧ isNum ch = true
  · obtain ⟨rfl, hnum⟩ := hnum
    rw [List.nil_append, List.takeWhile_append_of_pos hv.isNum, List.takeWhile_cons_of_pos hnum]
      at htake
    have hle := digitsValue_le_div ds ch (x.takeWhile isNum)
    rw [htake, hv.value, hv'.value] at hle
    exact .inr ⟨rfl, hnum, hle.trans hv'.le⟩
  · -- no digit follows any more
    have hds := takeWhile_lengthValue hv (ch :: x) fun hnil c hc => by
      obtain rfl : ch = c := by simpa using hc
      simpa [hnil] using hnum
    rw [hds] at htake
    subst htake
    rw [List.append_assoc] at heq
    have hws := List.append_cancel_left heq
    exact .inl (hv'.space rfl ch (by rw [← hws]; simp))

end HttpParser

namespace Head

variable {q p : HttpParser} {h : Head} {ch : Byte} {o : Out} {bs : Bytes} {r : Reading}

/-! ## Behind the first line -/

/-- The phases behind the first line of a header. -/
def inFields : Phase → Bool
  | .lineStart | .name | .gap | .value | .fieldEol | .folding | .lastLine => true
  | _ => false

/-- The first line of the two was the same. -/
def SameLine (p p' : HttpParser) : Prop := p'.method = p.method ∧ p'.statusCode = p.statusCode

/-- A header behind its first line, which is not complete.  None of its values is folded, and
the first line was that of `q`. -/
structure Inside (q p : HttpParser) (h : Head) : Prop where
  phase : inFields p.state.phase = true
  agrees : Says p h (h.fields.map fun _ => false)
  fits : Fits p.flags.trailing p.state.phase h
  hp : h.hp = none
  clean : ∀ f ∈ h.fields, Clean f
  line : SameLine q p

theorem headersAlmostDone_sameLine (hd : p.headersAlmostDone ch = .ok o) : SameLine p o.parser := by
  simp only [headersAlmostDone, messageDone] at hd
  split_ifs at hd
  · cases hd
    exact ⟨rfl, rfl⟩
  · obtain ⟨o', ho, rfl⟩ := after_ok hd
    simp only [headersDone, goTo] at ho
    split_ifs at ho <;> cases ho <;> exact ⟨rfl, rfl⟩

theorem headerFieldStart_sameLine (hd : p.headerFieldStart ch = .ok o) : SameLine p o.parser := by
  simp only [headerFieldStart, goTo] at hd
  split_ifs at hd
  any_goals cases hd; exact ⟨rfl, rfl⟩
  exact headersAlmostDone_sameLine hd

theorem headerValueStart_sameLine (hd : p.headerValueStart ch = .ok o) : SameLine p o.parser := by
  simp only [headerValueStart, next] at hd
  split at hd <;> (try split_ifs at hd) <;> cases hd <;> exact ⟨rfl, rfl⟩

theorem valueStep_sameLine {p' : HttpParser} (hd : p.valueStep ch = .ok p') : SameLine p p' := by
  have htoken : SameLine p (p.connectionToken ch) := by
    unfold connectionToken
    split_ifs <;> exact ⟨rfl, rfl⟩
  simp only [valueStep, contentLengthDigit] at hd
  split at hd <;> (try split_ifs at hd) <;> cases hd <;>
    first
    | exact ⟨rfl, rfl⟩
    | exact htoken

/-- Behind the first line a byte changes neither the method nor the status. -/
theorem dispatch_sameLine (hph : inFields p.state.phase = true) (hd : p.dispatch ch = .ok o) :
    SameLine p o.parser := by
  cases hst : p.state <;> rw [hst] at hph <;> simp [State.phase, inFields] at hph <;>
    simp only [dispatch, hst] at hd
  case headerFieldStart => exact headerFieldStart_sameLine hd
  case headersAlmostDone => exact headersAlmostDone_sameLine hd
  case headerField =>
    simp only [headerField, goTo, next] at hd
    split_ifs at hd <;> cases hd <;> exact ⟨rfl, rfl⟩
  case headerValueDiscardWs =>
    simp only [headerValueDiscardWs, goTo, next] at hd
    split_ifs at hd
    any_goals cases hd; exact ⟨rfl, rfl⟩
    exact headerValueStart_sameLine hd
  case headerValueDiscardWsAlmostDone =>
    obtain ⟨-, rfl⟩ := expect_ok hd
    exact ⟨rfl, rfl⟩
  case headerValueDiscardLws =>
    simp only [headerValueDiscardLws, goTo] at hd
    split_ifs at hd
    · cases hd
      exact ⟨rfl, rfl⟩
    · obtain ⟨o', ho, rfl⟩ := after_ok hd
      have hline := headerFieldStart_sameLine ho
      exact hline
  case headerValue =>
    simp only [headerValue, headerAlmostDone, goTo, next, after] at hd
    split_ifs at hd
    any_goals cases hd; exact ⟨rfl, rfl⟩
    split at hd
    · rename_i p' hp'
      cases hd
      exact valueStep_sameLine hp'
    · cases hd
  case headerValueLws =>
    simp only [headerValueLws] at hd
    split_ifs at hd
    · have hline := headerValueStart_sameLine hd
      exact hline
    · exact headerValueStart_sameLine hd
    · have hline := headerFieldStart_sameLine hd
      exact hline
  case headerAlmostDone =>
    simp only [headerAlmostDone, goTo] at hd
    split_ifs at hd
    cases hd
    exact ⟨rfl, rfl⟩

/-- As long as the header is not complete, it goes on behind its first line. -/
theorem moves_inFields {tr exit tr' : Bool} {ph ph' : Phase} {acts : List Act}
    (hm : Moves tr ph ch acts exit tr' ph') (hf : Fits tr ph h) (hn : h.hp = none)
    (hph : inFields ph = true) (hn' : (h.step acts ph' ch).hp = none) : inFields ph' = true := by
  have htr := (hf.before hn).2.1
  cases hm with
  | header hl he => exact absurd hn' (step_hp_of_header _ _)
  | trailer => cases htr
  | _ => first | rfl | exact hph | cases hph

/-- **One byte** of a line that is not folded. -/
theorem Inside.step (hI : Inside q p h) (hs : p.stepByte ch = .ok o)
    (hn : (h.step o.acts o.parser.state.phase ch).hp = none)
    (hfold : p.state = .headerValueLws → .mark .headerValue ∉ o.acts) :
    Inside q o.parser (h.step o.acts o.parser.state.phase ch) := by
  have hm := stepByte_moves hs
  have hsays := stepByte_says hI.agrees hI.fits hI.hp hI.clean hs
  have hall : ∀ b ∈ noteFold (p.state = .headerValueLws) o.acts (h.fields.map fun _ => false),
      b = false := by
    intro b hb
    unfold noteFold at hb
    split_ifs at hb with h1 h2
    · rcases List.mem_cons.1 hb with rfl | hb
      · rfl
      · exact (List.mem_map.1 hb).choose_spec.2.symm
    · exact absurd h2.2 (hfold (by simpa using h2.1))
    · exact (List.mem_map.1 hb).choose_spec.2.symm
  have hnote : noteFold (p.state = .headerValueLws) o.acts (h.fields.map fun _ => false) =
      (h.step o.acts o.parser.state.phase ch).fields.map fun _ => false := by
    rw [List.eq_replicate_of_mem hall, hsays.len, List.map_const']
  have hline : SameLine p o.parser := by
    unfold stepByte at hs
    split_ifs at hs
    · have hkept := dispatch_sameLine (p := { p with nread := p.nread + 1 }) hI.phase hs
      exact hkept
    · exact dispatch_sameLine hI.phase hs
  exact ⟨moves_inFields hm hI.fits hI.hp hI.phase hn, hnote ▸ hsays, hI.fits.step hm, hn,
    clean_step hm hI.fits hI.clean, hline.1.trans hI.line.1, hline.2.trans hI.line.2⟩

/-! ## Bytes that lead somewhere -/

/-- The bytes are read, and lead to a parser with a property and to certain fields. -/
def Leads (q p : HttpParser) (h : Head) (bs : Bytes) (S : HttpParser → Prop)
    (fs : List (Bytes × Bytes)) : Prop :=
  ∃ p', read p h bs = .ok ⟨p', { h with fields := fs }, bs.length, false⟩ ∧
    Inside q p' { h with fields := fs } ∧ S p' ∧ p'.nread = p.nread + bs.length

variable {s : State} {S S' : HttpParser → Prop} {fs fs' : List (Bytes × Bytes)} {n v x : Bytes}

theorem Leads.append {as : Bytes} (h₁ : Leads q p h as S fs)
    (h₂ : ∀ p', Inside q p' { h with fields := fs } → S p' → p'.nread = p.nread + as.length →
      Leads q p' { h with fields := fs } bs S' fs') : Leads q p h (as ++ bs) S' fs' := by
  obtain ⟨p₁, hr₁, hI₁, hs₁, hn₁⟩ := h₁
  obtain ⟨p₂, hr₂, hI₂, hs₂, hn₂⟩ := h₂ p₁ hI₁ hs₁ hn₁
  refine ⟨p₂, ?_, hI₂, hs₂, ?_⟩
  · rw [read_append, hr₁]
    simp only [Bool.false_eq_true, if_false, hr₂, Except.map, Reading.more, List.length_append,
      Nat.add_comm]
  · rw [hn₂, hn₁, List.length_append, Nat.add_assoc]

theorem Leads.cons (h₁ : Leads q p h [ch] S fs)
    (h₂ : ∀ p', Inside q p' { h with fields := fs } → S p' → p'.nread = p.nread + 1 →
      Leads q p' { h with fields := fs } bs S' fs') : Leads q p h (ch :: bs) S' fs' := by
  rw [← List.singleton_append]
  exact h₁.append h₂

theorem Leads.nil (hI : Inside q p h) (hS : S p) : Leads q p h [] S h.fields :=
  ⟨p, rfl, hI, hS, rfl⟩

/-- The parser when a byte has been counted. -/
def counted (p : HttpParser) : HttpParser := { p with nread := p.nread + 1 }

/-- One byte that is read. -/
theorem leads_step (hI : Inside q p h) (hs : p.stepByte ch = .ok o) (hexit : o.exit = false)
    (hst : o.parser.state = s) (hh : h.step o.acts s.phase ch = { h with fields := fs })
    (hfold : p.state = .headerValueLws → .mark .headerValue ∉ o.acts) :
    Leads q p h [ch] (·.state = s) fs := by
  rw [← hst] at hh
  have hn : (h.step o.acts o.parser.state.phase ch).hp = none := by
    rw [hh]
    exact hI.hp
  have hI' := hI.step hs hn hfold
  obtain ⟨-, -, h1, h2⟩ := hI.fits.before hI.hp
  refine ⟨o.parser, ?_, hh ▸ hI', hst, ?_⟩
  · rw [read_singleton hs, hh, hexit]
    rfl
  · obtain ⟨-, -, hcount | ⟨hp, hm⟩⟩ := stepByte_kept hs ⟨h1, h2, hI.fits.resting⟩
    · exact hcount
    · exact absurd hn (step_hp_of_complete hm _ _)

/-- One byte, if there is room for it. -/
theorem leads_byte (hI : Inside q p h) (hroom : p.nread + 1 ≤ HTTP_MAX_HEADER_SIZE)
    (hd : (counted p).dispatch ch = .ok o) (hexit : o.exit = false)
    (hst : o.parser.state = s) (hh : h.step o.acts s.phase ch = { h with fields := fs })
    (hfold : p.state = .headerValueLws → .mark .headerValue ∉ o.acts) :
    Leads q p h [ch] (·.state = s) fs := by
  have hpar : p.state.parsingHeader = true := by
    have := hI.phase
    revert this
    cases p.state <;> simp [State.phase, State.parsingHeader, inFields]
  refine leads_step hI ?_ hexit hst hh hfold
  rw [stepByte, if_pos hpar, if_neg (by omega)]
  exact hd

/-! ## Names -/

/-- At the start of a line, behind a field that may end there. -/
def AtLine (p : HttpParser) : Prop :=
  p.state = .headerFieldStart ∨ p.state = .headerValueLws ∨
    (p.state = .headerValueDiscardLws ∧ p.headerState ≠ .contentLength)

theorem headerFieldStart_letter (htok : token ch ≠ 0) :
    ∃ p', p.headerFieldStart ch = .ok ⟨p', [.mark .headerField], false⟩ ∧ p'.state = .headerField := by
  obtain ⟨hcr, hlf, -⟩ := ne_of_token htok
  refine ⟨_, by simp only [headerFieldStart, if_neg hcr, if_neg hlf, if_neg htok, goTo]; rfl, rfl⟩

theorem not_isBlank_of_token (htok : token ch ≠ 0) : ¬ isBlank ch := by
  rintro (rfl | rfl) <;> exact htok (by decide)

/-- The first letter of a name. -/
theorem leads_firstLetter (hI : Inside q p h) (hl : AtLine p)
    (hroom : p.nread + 1 ≤ HTTP_MAX_HEADER_SIZE) (htok : token ch ≠ 0) :
    Leads q p h [ch] (·.state = .headerField) (([ch], []) :: h.fields) := by
  have hblank : ¬ (ch = chr ' ' ∨ ch = 9) := not_isBlank_of_token htok
  rcases hl with hst | hst | ⟨hst, hlen⟩
  · obtain ⟨p', hp', hst'⟩ := @headerFieldStart_letter (counted p) ch htok
    refine leads_byte hI hroom (o := ⟨p', [.mark .headerField], false⟩) ?_ rfl hst' rfl (by simp [hst])
    simp only [dispatch, show (counted p).state = .headerFieldStart from hst]
    exact hp'
  · obtain ⟨p', hp', hst'⟩ := @headerFieldStart_letter
      { counted p with flags := finishFlags p.flags p.headerState, state := .headerFieldStart } ch htok
    refine leads_byte hI hroom (o := ⟨p', [.mark .headerField], false⟩) ?_ rfl hst' rfl (by simp)
    simp only [dispatch, show (counted p).state = .headerValueLws from hst, headerValueLws,
      if_neg hblank]
    exact hp'
  · obtain ⟨p', hp', hst'⟩ := @headerFieldStart_letter
      { counted p with flags := finishFlags p.flags p.headerState, state := .headerFieldStart } ch htok
    refine leads_byte hI hroom
      (o := ⟨p', [.mark .headerValue, .data .headerValue 0, .mark .headerField], false⟩) ?_ rfl hst' rfl
      (by simp [hst])
    have hlen' : ¬ (counted p).headerState = .contentLength := hlen
    simp only [dispatch, show (counted p).state = .headerValueDiscardLws from hst,
      headerValueDiscardLws, if_neg hblank, if_neg hlen']
    exact congrArg (after [.mark .headerValue, .data .headerValue 0]) hp'

/-- More letters of a name. -/
theorem leads_letters (hI : Inside q p h) (hst : p.state = .headerField) (hf : h.fields = (n, v) :: fs)
    (htok : ∀ c ∈ x, token c ≠ 0) (hroom : p.nread + x.length ≤ HTTP_MAX_HEADER_SIZE) :
    Leads q p h x (·.state = .headerField) ((n ++ x, v) :: fs) := by
  induction x generalizing p h n with
  | nil =>
    have := Leads.nil (S := (·.state = .headerField)) hI hst
    rwa [hf, ← List.append_nil n] at this
  | cons c x ih =>
    rw [List.length_cons] at hroom
    have hc : token c ≠ 0 := htok c (by simp)
    have hbyte : Leads q p h [c] (·.state = .headerField) ((n ++ [c], v) :: fs) := by
      have hd : (counted p).dispatch c = .ok ⟨{ counted p with
          headerState := (fieldStep p.headerState p.index (token c)).1
          index := (fieldStep p.headerState p.index (token c)).2 }, [], false⟩ := by
        simp only [dispatch, show (counted p).state = .headerField from hst, headerField, if_pos hc]
        rfl
      exact leads_byte hI (by omega) hd rfl hst (byte_name hf c) (by simp)
    rw [← List.singleton_append]
    refine hbyte.append fun p' hI' hst' hn' => ?_
    have := ih hI' hst' rfl (fun c hc => htok c (List.mem_cons_of_mem _ hc)) (by
      rw [hn', List.length_singleton]
      omega)
    rwa [List.append_assoc] at this

/-- The colon and the space behind it. -/
theorem leads_colon (hI : Inside q p h) (hst : p.state = .headerField)
    (hroom : p.nread + 2 ≤ HTTP_MAX_HEADER_SIZE) :
    Leads q p h (str ": ") (·.state = .headerValueDiscardWs) h.fields := by
  have hcolon : Leads q p h [chr ':'] (·.state = .headerValueDiscardWs) h.fields := by
    refine leads_byte hI (by omega)
      (o := ⟨{ counted p with state := .headerValueDiscardWs }, [.data .headerField 0], false⟩) ?_ rfl
      rfl rfl (by simp [hst])
    simp only [dispatch, show (counted p).state = .headerField from hst, headerField]
    rw [if_neg (by decide), if_pos trivial]
    rfl
  rw [show str ": " = [chr ':', chr ' '] from rfl]
  refine hcolon.cons fun p' hI' hst' hn' => ?_
  refine leads_byte hI' (by rw [hn']; exact hroom) (o := ⟨counted p', [], false⟩) ?_ rfl hst' rfl
    (by simp [hst'])
  simp only [dispatch, show (counted p').state = .headerValueDiscardWs from hst', headerValueDiscardWs]
  rw [if_pos (.inl trivial)]
  rfl

/-! ## Values -/

/-- A value that is read on one line: its bytes end no line and are accepted inside of a
value. -/
structure Written (v : Bytes) : Prop where
  value : ValueOk v false
  line : ∀ c ∈ v, c ≠ CR ∧ c ≠ LF

theorem headerValueStart_exists
    (hlen : p.headerState = .contentLength → isNum ch = true ∧ p.flags.contentLength = false) :
    ∃ o, p.headerValueStart ch = .ok o := by
  by_cases hs : p.headerState = .contentLength
  · obtain ⟨h1, h2⟩ := hlen hs
    simp only [headerValueStart, hs, h1, h2, next]
    exact ⟨_, rfl⟩
  · cases hst : p.headerState <;>
      first
      | exact absurd hst hs
      | (simp only [headerValueStart, hst, next]; exact ⟨_, rfl⟩)

theorem valueStep_exists_of_ne (h1 : p.headerState ≠ .contentLength)
    (h2 : p.headerState ≠ .contentLengthNum) (h3 : p.headerState ≠ .contentLengthWs) :
    ∃ p', p.valueStep ch = .ok p' := by
  cases hst : p.headerState <;>
    first
    | exact absurd hst h1
    | exact absurd hst h2
    | exact absurd hst h3
    | (simp only [valueStep, hst]; exact ⟨_, rfl⟩)
    | skip
  simp only [valueStep, hst]
  split_ifs <;> exact ⟨_, rfl⟩

/-- Only the bytes of a `Content-Length` may be refused. -/
theorem valueStep_exists (hv : InValue p (n, v) false)
    (hlen : isContentLength n = true → LengthText (v ++ ch :: x)) : ∃ p', p.valueStep ch = .ok p' := by
  by_cases hn : isContentLength n = true
  · obtain ⟨ds, ws, hsplit, hval, hs⟩ := hv.length hn
    have ht := hlen hn
    rw [show v = ds ++ ws from hsplit] at ht
    rcases ht.next hval with rfl | ⟨rfl, hnum, hle⟩
    · by_cases hw : ws = []
      · rw [if_pos hw] at hs
        exact ⟨_, by simp only [valueStep, hs, contentLengthDigit, if_true]; rfl⟩
      · rw [if_neg hw] at hs
        exact ⟨_, by simp only [valueStep, hs, if_true]; rfl⟩
    · have hsp : ch ≠ chr ' ' := by
        rintro rfl
        exact absurd hnum (by decide)
      have hbig : ¬ (ULLONG_MAX - 10) / 10 < p.contentLength := Nat.not_lt.2 hle
      rw [if_pos rfl] at hs
      refine ⟨_, by simp only [valueStep, hs, contentLengthDigit, if_neg hsp, hnum, if_neg hbig]; rfl⟩
  · by_cases ht : isTransferEncoding n = true
    · have he := hv.encoding ht
      have hkind := (codingState_coding (v := v) hv.ne_nil).kind
      rw [if_neg (by simp)] at he
      rw [← he] at hkind
      rcases hkind with h | h | h <;> simp only at h <;>
        exact valueStep_exists_of_ne (by rw [h]; simp) (by rw [h]; simp) (by rw [h]; simp)
    · have hi := hv.other (by simpa using ht) (by simpa using hn)
      refine valueStep_exists_of_ne ?_ ?_ ?_ <;> rintro h <;> rw [h] at hi <;> cases hi

theorem Inside.atField (hI : Inside q p h) (hf : h.fields = (n, v) :: fs) : AtField p (n, v) false :=
  hI.agrees.current (n, v) fs false (fs.map fun _ => false) hf (by rw [hf]; rfl)

/-- Inside the value of a field. -/
theorem Inside.inValue (hI : Inside q p h) (hst : p.state = .headerValue)
    (hf : h.fields = (n, v) :: fs) : InValue p (n, v) false := by
  have := hI.atField hf
  unfold AtField at this
  rwa [hst] at this

/-- In front of the value of a field. -/
theorem Inside.atValue (hI : Inside q p h)
    (hst : p.state = .headerValueDiscardWs ∨ p.state = .headerValueDiscardLws)
    (hf : h.fields = (n, v) :: fs) : p.headerState = .contentLength ↔ isContentLength n = true := by
  have hat := hI.atField hf
  have hname : p.headerState = (nameState (n.map token)).1 := by
    unfold AtField at hat
    rcases hst with hst | hst <;> rw [hst] at hat <;> exact hat.2.2
  have htok := (hI.clean (n, v) (by rw [hf]; simp)).name
  rw [hname, nameState_contentLength (map_token_ne_zero htok)]
  simp [isContentLength]

/-- Without a content length there is no flag for it. -/
theorem Inside.no_length (hI : Inside q p h)
    (hno : ∀ f ∈ h.fields, isContentLength f.1 = true → f.2 = []) : p.flags.contentLength = false := by
  have hl := hI.agrees.length
  have hnil : lengths (h.fields.zip (h.fields.map fun _ => false)) = [] := by
    refine List.filter_eq_nil_iff.2 fun g hg => ?_
    have hmem : g.1 ∈ h.fields := (List.of_mem_zip hg).1
    have := hno g.1 hmem
    cases hc : isContentLength g.1.1 with
    | false => simp
    | true => simp [this hc]
  rw [hnil] at hl
  exact hl.1

/-- The first byte of a value. -/
theorem leads_valueStart (hI : Inside q p h) (hst : p.state = .headerValueDiscardWs)
    (hf : h.fields = (n, []) :: fs) (hroom : p.nread + 1 ≤ HTTP_MAX_HEADER_SIZE)
    (hblank : ¬ isBlank ch) (hcr : ch ≠ CR) (hlf : ch ≠ LF)
    (ho : (counted p).headerValueStart ch = .ok o) :
    Leads q p h [ch] (·.state = .headerValue) ((n, [ch]) :: fs) := by
  obtain ⟨hacts, hexit, -, hstate⟩ := headerValueStart_ok ho
  refine leads_byte hI hroom ?_ hexit hstate ?_ (by simp [hst])
  · have hb : ¬ (ch = chr ' ' ∨ ch = 9) := hblank
    simp only [dispatch, show (counted p).state = .headerValueDiscardWs from hst, headerValueDiscardWs]
    rw [if_neg hb, if_neg hcr, if_neg hlf]
    exact ho
  · rw [hacts]
    exact byte_value hf ch

/-- Another byte of a value. -/
theorem leads_valueByte {p' : HttpParser} (hI : Inside q p h) (hst : p.state = .headerValue)
    (hf : h.fields = (n, v) :: fs) (hroom : p.nread + 1 ≤ HTTP_MAX_HEADER_SIZE)
    (hchar : isHeaderChar ch = true) (hcr : ch ≠ CR) (hlf : ch ≠ LF)
    (hp' : (counted p).valueStep ch = .ok p') :
    Leads q p h [ch] (·.state = .headerValue) ((n, v ++ [ch]) :: fs) := by
  have hd : (counted p).dispatch ch = .ok ⟨p', [], false⟩ := by
    simp only [dispatch, show (counted p).state = .headerValue from hst, headerValue]
    rw [if_neg hcr, if_neg hlf, if_neg (by simp [hchar]), hp']
    rfl
  exact leads_byte hI hroom hd rfl ((valueStep_ok hp').1.trans hst) (byte_value hf ch) (by simp)

theorem inValue_counted (hv : InValue p (n, v) false) : InValue (counted p) (n, v) false :=
  ⟨hv.ne_nil, hv.encoding, hv.length, hv.other⟩

/-- More bytes of a value. -/
theorem leads_valueRest (hI : Inside q p h) (hst : p.state = .headerValue)
    (hf : h.fields = (n, v) :: fs) (hx : ∀ c ∈ x, isHeaderChar c = true ∧ c ≠ CR ∧ c ≠ LF)
    (hroom : p.nread + x.length ≤ HTTP_MAX_HEADER_SIZE)
    (hlen : isContentLength n = true → LengthText (v ++ x)) :
    Leads q p h x (·.state = .headerValue) ((n, v ++ x) :: fs) := by
  induction x generalizing p h v with
  | nil =>
    have := Leads.nil (S := (·.state = .headerValue)) hI hst
    rwa [hf, ← List.append_nil v] at this
  | cons c x ih =>
    rw [List.length_cons] at hroom
    obtain ⟨hchar, hcr, hlf⟩ := hx c (by simp)
    obtain ⟨p', hp'⟩ := valueStep_exists (inValue_counted (hI.inValue hst hf)) hlen
    have hbyte := leads_valueByte hI hst hf (by omega) hchar hcr hlf hp'
    rw [← List.singleton_append] at hlen ⊢
    refine hbyte.append fun p' hI' hst' hn' => ?_
    have := ih hI' hst' rfl (fun c hc => hx c (List.mem_cons_of_mem _ hc))
      (by rw [hn', List.length_singleton]; omega) (by rwa [List.append_assoc])
    rwa [List.append_assoc] at this

/-- Behind bytes that are read, the others are. -/
theorem Leads.read_rest {as : Bytes} (hl : Leads q p h as S fs) (hr : read p h (as ++ bs) = .ok r) :
    ∃ p' r', Inside q p' { h with fields := fs } ∧ S p' ∧ p'.nread = p.nread + as.length ∧
      read p' { h with fields := fs } bs = .ok r' ∧ r = r'.more as.length := by
  obtain ⟨p', hr', hI, hst, hn⟩ := hl
  rw [read_append, hr'] at hr
  simp only [Bool.false_eq_true, if_false] at hr
  cases hb : read p' { h with fields := fs } bs with
  | error e => rw [hb] at hr; cases hr
  | ok r' =>
    rw [hb] at hr
    exact ⟨p', r', hI, hst, hn, hb, (Except.ok.inj hr).symm⟩

/-- A content length that is accepted on one line. -/
theorem lengthText_of_read (hI : Inside q p h) (hst : p.state = .headerValue)
    (hf : h.fields = (n, v) :: fs) (hx : ∀ c ∈ x, isHeaderChar c = true ∧ c ≠ CR ∧ c ≠ LF)
    (hroom : p.nread + x.length ≤ HTTP_MAX_HEADER_SIZE) (hn : isContentLength n = true)
    (hr : read p h x = .ok r) : LengthText (v ++ x) := by
  induction x generalizing p h v r with
  | nil =>
    obtain ⟨ds, ws, heq, hval, -⟩ := (hI.inValue hst hf).length hn
    exact ⟨ds, ws, _, by rw [List.append_nil]; exact heq, hval⟩
  | cons c x ih =>
    rw [List.length_cons] at hroom
    obtain ⟨hchar, hcr, hlf⟩ := hx c (by simp)
    obtain ⟨o, hs, -⟩ := read_cons_ok hr
    have hval : ∃ p', (counted p).valueStep c = .ok p' := by
      have hpar : p.state.parsingHeader = true := by rw [hst]; rfl
      rw [stepByte, if_pos hpar, if_neg (by omega)] at hs
      have hd : (counted p).dispatch c = .ok o := hs
      simp only [dispatch, show (counted p).state = .headerValue from hst, headerValue] at hd
      rw [if_neg hcr, if_neg hlf, if_neg (by simp [hchar])] at hd
      cases hp' : (counted p).valueStep c with
      | error e => rw [hp'] at hd; cases hd
      | ok p' => exact ⟨p', rfl⟩
    obtain ⟨p', hp'⟩ := hval
    have hbyte := leads_valueByte hI hst hf (by omega) hchar hcr hlf hp'
    rw [← List.singleton_append] at hr ⊢
    obtain ⟨p₁, r₁, hI₁, hst₁, hn₁, hr₁, -⟩ := hbyte.read_rest hr
    rw [← List.append_assoc]
    exact ih hI₁ hst₁ rfl (fun c hc => hx c (List.mem_cons_of_mem _ hc))
      (by rw [hn₁, List.length_singleton]; omega) hr₁

/-- A value that is not empty. -/
theorem leads_value (hI : Inside q p h) (hst : p.state = .headerValueDiscardWs)
    (hf : h.fields = (n, []) :: fs) (hw : Written v) (hne : v ≠ [])
    (hroom : p.nread + v.length ≤ HTTP_MAX_HEADER_SIZE)
    (hlen : isContentLength n = true → LengthText v ∧ p.flags.contentLength = false) :
    Leads q p h v (·.state = .headerValue) ((n, v) :: fs) := by
  obtain ⟨c, x, rfl⟩ := List.exists_cons_of_ne_nil hne
  rw [List.length_cons] at hroom
  obtain ⟨hcr, hlf⟩ := hw.line c (by simp)
  have hblank : ¬ isBlank c := hw.value.front c (by simp)
  have hstart : ∃ o, (counted p).headerValueStart c = .ok o := by
    refine headerValueStart_exists fun hs => ?_
    have hn : isContentLength n = true := (hI.atValue (.inl hst) hf).1 hs
    obtain ⟨⟨ds, ws, k, heq, hval⟩, hno⟩ := hlen hn
    refine ⟨?_, hno⟩
    obtain ⟨d, ds, rfl⟩ := List.exists_cons_of_ne_nil hval.ne_nil
    have hc : c = d := (List.cons.inj heq).1
    rw [hc]
    exact hval.isNum d (by simp)
  obtain ⟨o, ho⟩ := hstart
  refine (leads_valueStart hI hst hf (by omega) hblank hcr hlf ho).cons fun p' hI' hst' hn' => ?_
  refine leads_valueRest (v := [c]) hI' hst' rfl (fun d hd => ?_) ?_ fun hn => (hlen hn).1
  · obtain ⟨h1, h2⟩ := hw.line d (List.mem_cons_of_mem _ hd)
    exact ⟨hw.value.rest d hd, h1, h2⟩
  · rw [hn']
    omega

/-- A content length that is accepted is one, and the first. -/
theorem lengthText_of_value (hI : Inside q p h) (hst : p.state = .headerValueDiscardWs)
    (hf : h.fields = (n, []) :: fs) (hw : Written v) (hne : v ≠ [])
    (hroom : p.nread + v.length ≤ HTTP_MAX_HEADER_SIZE) (hn : isContentLength n = true)
    (hr : read p h v = .ok r) : LengthText v := by
  obtain ⟨c, x, rfl⟩ := List.exists_cons_of_ne_nil hne
  rw [List.length_cons] at hroom
  obtain ⟨hcr, hlf⟩ := hw.line c (by simp)
  have hblank : ¬ isBlank c := hw.value.front c (by simp)
  obtain ⟨o, hs, -⟩ := read_cons_ok hr
  have hstart : (counted p).headerValueStart c = .ok o := by
    have hpar : p.state.parsingHeader = true := by rw [hst]; rfl
    rw [stepByte, if_pos hpar, if_neg (by omega)] at hs
    have hd : (counted p).dispatch c = .ok o := hs
    have hb : ¬ (c = chr ' ' ∨ c = 9) := hblank
    simp only [dispatch, show (counted p).state = .headerValueDiscardWs from hst,
      headerValueDiscardWs] at hd
    rwa [if_neg hb, if_neg hcr, if_neg hlf] at hd
  have hbyte := leads_valueStart hI hst hf (by omega) hblank hcr hlf hstart
  rw [← List.singleton_append] at hr
  obtain ⟨p₁, r₁, hI₁, hst₁, hn₁, hr₁, -⟩ := hbyte.read_rest hr
  refine lengthText_of_read (v := [c]) hI₁ hst₁ rfl (fun d hd => ?_) ?_ hn hr₁
  · obtain ⟨h1, h2⟩ := hw.line d (List.mem_cons_of_mem _ hd)
    exact ⟨hw.value.rest d hd, h1, h2⟩
  · rw [hn₁, List.length_singleton]
    omega

/-! ## The end of a line -/

/-- The end of a line behind a value. -/
theorem leads_eolValue (hI : Inside q p h) (hst : p.state = .headerValue)
    (hroom : p.nread + 2 ≤ HTTP_MAX_HEADER_SIZE) :
    Leads q p h crlf (·.state = .headerValueLws) h.fields := by
  have hcr : Leads q p h [CR] (·.state = .headerAlmostDone) h.fields := by
    refine leads_byte hI (by omega)
      (o := ⟨{ counted p with state := .headerAlmostDone }, [.data .headerValue 0], false⟩) ?_ rfl
      rfl rfl (by simp [hst])
    simp only [dispatch, show (counted p).state = .headerValue from hst, headerValue]
    rfl
  refine hcr.cons fun p' hI' hst' hn' => ?_
  refine leads_byte hI' (by rw [hn']; exact hroom)
    (o := ⟨{ counted p' with state := .headerValueLws }, [], false⟩) ?_ rfl rfl rfl (by simp [hst'])
  simp only [dispatch, show (counted p').state = .headerAlmostDone from hst', headerAlmostDone]
  rfl

/-- The end of a line without a value. -/
theorem leads_eolEmpty (hI : Inside q p h) (hst : p.state = .headerValueDiscardWs)
    (hroom : p.nread + 2 ≤ HTTP_MAX_HEADER_SIZE) :
    Leads q p h crlf (·.state = .headerValueDiscardLws) h.fields := by
  have hcr : Leads q p h [CR] (·.state = .headerValueDiscardWsAlmostDone) h.fields := by
    refine leads_byte hI (by omega)
      (o := ⟨{ counted p with state := .headerValueDiscardWsAlmostDone }, [], false⟩) ?_ rfl
      rfl rfl (by simp [hst])
    simp only [dispatch, show (counted p).state = .headerValueDiscardWs from hst,
      headerValueDiscardWs]
    rfl
  refine hcr.cons fun p' hI' hst' hn' => ?_
  refine leads_byte hI' (by rw [hn']; exact hroom)
    (o := ⟨{ counted p' with state := .headerValueDiscardLws }, [], false⟩) ?_ rfl rfl rfl
    (by simp [hst'])
  simp only [dispatch, show (counted p').state = .headerValueDiscardWsAlmostDone from hst', expect]
  rfl

theorem Leads.weaken (hl : Leads q p h bs S fs)
    (hS : ∀ p', Inside q p' { h with fields := fs } → S p' → S' p') : Leads q p h bs S' fs := by
  obtain ⟨p', hr, hI, hs, hn⟩ := hl
  exact ⟨p', hr, hI, hS p' hI hs, hn⟩

/-- The end of a line behind a value, or behind no value at all. -/
theorem leads_eol (hI : Inside q p h) (hf : h.fields = (n, v) :: fs)
    (hst : p.state = .headerValue ∨ (p.state = .headerValueDiscardWs ∧ isContentLength n = false))
    (hroom : p.nread + 2 ≤ HTTP_MAX_HEADER_SIZE) : Leads q p h crlf AtLine h.fields := by
  rcases hst with hst | ⟨hst, hn⟩
  · exact (leads_eolValue hI hst hroom).weaken fun p' _ hst' => .inr (.inl hst')
  · refine (leads_eolEmpty hI hst hroom).weaken fun p' hI' hst' => .inr (.inr ⟨hst', fun hs => ?_⟩)
    rw [(hI'.atValue (.inr hst') hf).1 hs] at hn
    cases hn

/-! ## Lines -/

/-- A field that is read on one line. -/
structure Line (f : Bytes × Bytes) : Prop where
  ne_nil : f.1 ≠ []
  name : ∀ c ∈ f.1, token c ≠ 0
  value : Written f.2

variable {f : Bytes × Bytes} {L : List (Bytes × Bytes)}

/-- The name of a field, and what is between it and the value. -/
theorem leads_name (hI : Inside q p h) (hl : AtLine p) (hne : n ≠ []) (htok : ∀ c ∈ n, token c ≠ 0)
    (hroom : p.nread + (n.length + 2) ≤ HTTP_MAX_HEADER_SIZE) :
    Leads q p h (n ++ str ": ") (·.state = .headerValueDiscardWs) ((n, []) :: h.fields) := by
  obtain ⟨c, x, rfl⟩ := List.exists_cons_of_ne_nil hne
  rw [List.length_cons] at hroom
  have hfirst := leads_firstLetter hI hl (by omega) (htok c (by simp))
  have hname : Leads q p h (c :: x) (·.state = .headerField) ((c :: x, []) :: h.fields) := by
    refine hfirst.cons fun p' hI' hst' hn' => ?_
    refine leads_letters (n := [c]) hI' hst' rfl (fun d hd => htok d (List.mem_cons_of_mem _ hd)) ?_
    rw [hn']
    omega
  refine hname.append fun p' hI' hst' hn' => leads_colon hI' hst' ?_
  rw [hn', List.length_cons]
  omega

/-- A line. -/
theorem leads_line (hI : Inside q p h) (hl : AtLine p) (hL : Line f)
    (hroom : p.nread + (SrsHttpHeader.fieldLine f.1 f.2).length ≤ HTTP_MAX_HEADER_SIZE)
    (hlen : isContentLength f.1 = true →
      LengthText f.2 ∧ ∀ g ∈ h.fields, isContentLength g.1 = false) :
    Leads q p h (SrsHttpHeader.fieldLine f.1 f.2) AtLine (f :: h.fields) := by
  obtain ⟨n, v⟩ := f
  have hlength : (SrsHttpHeader.fieldLine n v).length = n.length + 2 + v.length + 2 := by
    simp only [SrsHttpHeader.fieldLine, List.length_append]
    rfl
  simp only [hlength] at hroom
  have hvalue : Leads q p h (n ++ str ": " ++ v) (fun p' => p'.state = .headerValue ∨
      (p'.state = .headerValueDiscardWs ∧ isContentLength n = false)) ((n, v) :: h.fields) := by
    refine (leads_name hI hl hL.ne_nil hL.name (by simp only; omega)).append fun p' hI' hst' hn' => ?_
    simp only [List.length_append] at hn'
    have htwo : (str ": ").length = 2 := rfl
    by_cases hv : v = []
    · subst hv
      refine Leads.nil hI' (.inr ⟨hst', ?_⟩)
      cases hc : isContentLength n with
      | false => rfl
      | true =>
        obtain ⟨⟨ds, ws, k, heq, hval⟩, -⟩ := hlen hc
        exact absurd (List.append_eq_nil_iff.1 heq.symm).1 hval.ne_nil
    · have hvalue := leads_value hI' hst' rfl hL.value hv (by simp only; omega) fun hc => by
        obtain ⟨ht, hno⟩ := hlen hc
        refine ⟨ht, hI'.no_length fun g hg hgn => ?_⟩
        rcases List.mem_cons.1 hg with rfl | hg
        · rfl
        · rw [hno g hg] at hgn
          cases hgn
      exact hvalue.weaken fun p₂ _ hst₂ => .inl hst₂
  refine hvalue.append fun p' hI' hst' hn' => leads_eol hI' rfl hst' ?_
  simp only [List.length_append] at hn'
  have htwo : (str ": ").length = 2 := rfl
  omega

/-- At most one content length is among the fields that are read, and none if there was one
before. -/
def OneLength (fs L : List (Bytes × Bytes)) : Prop :=
  L.Pairwise (fun f g => isContentLength f.1 = true → isContentLength g.1 = false) ∧
    ∀ g ∈ fs, isContentLength g.1 = true → ∀ f ∈ L, isContentLength f.1 = false

theorem OneLength.head (ha : OneLength fs (f :: L)) (hn : isContentLength f.1 = true) :
    ∀ g ∈ fs, isContentLength g.1 = false := by
  intro g hg
  by_contra hc
  have := ha.2 g hg (by simpa using hc) f (by simp)
  rw [hn] at this
  cases this

theorem OneLength.tail (ha : OneLength fs (f :: L)) : OneLength (f :: fs) L := by
  obtain ⟨hpair, hbefore⟩ := ha
  rw [List.pairwise_cons] at hpair
  refine ⟨hpair.2, fun g hg hn f' hf' => ?_⟩
  rcases List.mem_cons.1 hg with rfl | hg
  · exact hpair.1 f' hf' hn
  · exact hbefore g hg hn f' (List.mem_cons_of_mem _ hf')

/-- The lines that fields are written as. -/
def linesOf (L : List (Bytes × Bytes)) : Bytes :=
  L.flatMap fun f => SrsHttpHeader.fieldLine f.1 f.2

theorem linesOf_cons (f : Bytes × Bytes) (L : List (Bytes × Bytes)) :
    linesOf (f :: L) = SrsHttpHeader.fieldLine f.1 f.2 ++ linesOf L := List.flatMap_cons

/-- **Lines** with names that differ are read, if each `Content-Length` among them is a
number. -/
theorem leads_lines (hI : Inside q p h) (hl : AtLine p) (hL : ∀ f ∈ L, Line f) (ha : OneLength h.fields L)
    (hroom : p.nread + (linesOf L).length ≤ HTTP_MAX_HEADER_SIZE)
    (hlen : ∀ f ∈ L, isContentLength f.1 = true → LengthText f.2) :
    Leads q p h (linesOf L) AtLine (L.reverse ++ h.fields) := by
  induction L generalizing p h with
  | nil => exact Leads.nil hI hl
  | cons f L ih =>
    rw [linesOf_cons, List.length_append] at hroom
    rw [linesOf_cons, List.reverse_cons, List.append_assoc, List.singleton_append]
    have hline := leads_line hI hl (hL f (by simp)) (by omega) fun hn =>
      ⟨hlen f (by simp) hn, ha.head hn⟩
    refine hline.append fun p' hI' hl' hn' => ?_
    exact ih hI' hl' (fun g hg => hL g (List.mem_cons_of_mem _ hg)) ha.tail (by omega)
      fun g hg => hlen g (List.mem_cons_of_mem _ hg)

/-- A line that is accepted, in front of a byte that is not blank. -/
theorem lengthText_of_line {d : Byte} (hI : Inside q p h) (hl : AtLine p) (hL : Line f)
    (hroom : p.nread + (SrsHttpHeader.fieldLine f.1 f.2).length + 1 ≤ HTTP_MAX_HEADER_SIZE)
    (hblank : ¬ isBlank d) (hn : isContentLength f.1 = true)
    (hr : read p h (SrsHttpHeader.fieldLine f.1 f.2 ++ d :: bs) = .ok r) : LengthText f.2 := by
  obtain ⟨n, v⟩ := f
  have hlength : (SrsHttpHeader.fieldLine n v).length = n.length + 2 + v.length + 2 := by
    simp only [SrsHttpHeader.fieldLine, List.length_append]
    rfl
  have htwo : (str ": ").length = 2 := rfl
  simp only [hlength] at hroom
  have hname := leads_name hI hl hL.ne_nil hL.name (by simp only; omega)
  rw [SrsHttpHeader.fieldLine, List.append_assoc, List.append_assoc] at hr
  obtain ⟨p₁, r₁, hI₁, hst₁, hn₁, hr₁, -⟩ := hname.read_rest hr
  simp only [List.length_append] at hn₁
  by_cases hv : v = []
  · -- an empty value is refused when the next line begins
    subst hv
    exfalso
    have heol := leads_eolEmpty hI₁ hst₁ (by omega)
    obtain ⟨p₃, r₃, hI₃, hst₃, hn₃, hr₃, -⟩ := heol.read_rest hr₁
    obtain ⟨o, hs, -⟩ := read_cons_ok hr₃
    have hstate : (counted p₃).headerState = .contentLength := (hI₃.atValue (.inr hst₃) rfl).2 hn
    have hpar : p₃.state.parsingHeader = true := by rw [hst₃]; rfl
    rw [show crlf.length = 2 from rfl] at hn₃
    rw [stepByte, if_pos hpar, if_neg (by omega)] at hs
    have hd : (counted p₃).dispatch d = .ok o := hs
    have hb : ¬ (d = chr ' ' ∨ d = 9) := hblank
    simp only [dispatch, show (counted p₃).state = .headerValueDiscardLws from hst₃,
      headerValueDiscardLws] at hd
    rw [if_neg hb, if_pos hstate] at hd
    cases hd
  · obtain ⟨r', hr', -⟩ := read_append_ok hr₁
    exact lengthText_of_value hI₁ hst₁ rfl hL.value hv (by simp only; omega) hn hr'

/-- Lines that are accepted have numbers for their content lengths. -/
theorem lengthText_of_lines (hI : Inside q p h) (hl : AtLine p) (hL : ∀ f ∈ L, Line f)
    (ha : OneLength h.fields L) (hroom : p.nread + (linesOf L ++ crlf).length ≤ HTTP_MAX_HEADER_SIZE)
    (hr : read p h (linesOf L ++ crlf) = .ok r) :
    ∀ f ∈ L, isContentLength f.1 = true → LengthText f.2 := by
  induction L generalizing p h r with
  | nil => simp
  | cons f L ih =>
    rw [linesOf_cons, List.append_assoc, List.length_append] at hroom
    rw [linesOf_cons, List.append_assoc] at hr
    have hLf : Line f := hL f (by simp)
    have hhead : isContentLength f.1 = true → LengthText f.2 := fun hn => by
      have hnext : ∃ d bs, linesOf L ++ crlf = d :: bs ∧ ¬ isBlank d := by
        cases L with
        | nil => exact ⟨CR, [LF], rfl, by rintro (h | h) <;> cases h⟩
        | cons g L =>
          have hg := hL g (by simp)
          obtain ⟨c, x, hc⟩ := List.exists_cons_of_ne_nil hg.ne_nil
          refine ⟨c, x ++ str ": " ++ g.2 ++ crlf ++ linesOf L ++ crlf, ?_,
            not_isBlank_of_token (hg.name c (by rw [hc]; simp))⟩
          rw [linesOf_cons, SrsHttpHeader.fieldLine, hc]
          simp
      obtain ⟨d, bs, heq, hblank⟩ := hnext
      rw [heq] at hr hroom
      rw [List.length_cons] at hroom
      exact lengthText_of_line hI hl hLf (by omega) hblank hn hr
    have hline := leads_line hI hl hLf (by omega) fun hn => ⟨hhead hn, ha.head hn⟩
    obtain ⟨p₁, r₁, hI₁, hl₁, hn₁, hr₁, -⟩ := hline.read_rest hr
    have hrest := ih hI₁ hl₁ (fun g hg => hL g (List.mem_cons_of_mem _ hg)) ha.tail (by omega) hr₁
    intro g hg
    rcases List.mem_cons.1 hg with rfl | hg
    · exact hhead
    · exact hrest g hg

/-! ## The end of the header -/

/-- The CR of the empty line. -/
theorem leads_lastCr (hI : Inside q p h) (hl : AtLine p) (hroom : p.nread + 1 ≤ HTTP_MAX_HEADER_SIZE) :
    Leads q p h [CR] (·.state = .headersAlmostDone) h.fields := by
  have hblank : ¬ (CR = chr ' ' ∨ CR = 9) := by rintro (h | h) <;> cases h
  rcases hl with hst | hst | ⟨hst, hlen⟩
  · refine leads_byte hI hroom
      (o := ⟨{ counted p with state := .headersAlmostDone }, [], false⟩) ?_ rfl rfl rfl (by simp)
    simp only [dispatch, show (counted p).state = .headerFieldStart from hst]
    rfl
  · refine leads_byte hI hroom (o := ⟨{ counted p with
      flags := finishFlags p.flags p.headerState
      state := .headersAlmostDone }, [], false⟩) ?_ rfl rfl rfl (by simp)
    simp only [dispatch, show (counted p).state = .headerValueLws from hst, headerValueLws,
      if_neg hblank]
    rfl
  · have hlen' : ¬ (counted p).headerState = .contentLength := hlen
    refine leads_byte hI hroom (o := ⟨{ counted p with
      flags := finishFlags p.flags p.headerState
      state := .headersAlmostDone }, [.mark .headerValue, .data .headerValue 0], false⟩) ?_ rfl rfl rfl
      (by simp [hst])
    simp only [dispatch, show (counted p).state = .headerValueDiscardLws from hst,
      headerValueDiscardLws, if_neg hblank, if_neg hlen']
    rfl

/-- The fields give two kinds of framing. -/
def BothFramings (fs : List (Bytes × Bytes)) : Prop :=
  (∃ f ∈ fs, isChunkedField f = true) ∧ ∃ f ∈ fs, isContentLength f.1 = true

/-- What the parser knows in front of the last byte. -/
theorem Inside.flags (hI : Inside q p h) (hst : p.state = .headersAlmostDone) :
    (p.flags.chunked = true ∧ p.flags.contentLength = true) ↔ BothFramings h.fields := by
  have hzip : h.fields.zip (h.fields.map fun _ => false) = h.fields.map fun f => (f, false) := by
    rw [← List.map_id h.fields, List.map_map, List.zip_map']
    simp
  have hended : ended p.state.phase (h.fields.zip (h.fields.map fun _ => false)) =
      h.fields.map fun f => (f, false) := by
    rw [hst, hzip]
    rfl
  have hchunked := hI.agrees.chunked
  have hfull := hI.agrees.full
  have hlength := hI.agrees.length
  rw [hended] at hchunked hfull
  rw [hzip] at hlength
  have hflag : p.flags.contentLength = true ↔ ∃ f ∈ h.fields, isContentLength f.1 = true := by
    have hmem : (∃ f ∈ h.fields, isContentLength f.1 = true) ↔
        lengths (h.fields.map fun f => (f, false)) ≠ [] := by
      rw [lengths, Ne, List.filter_eq_nil_iff]
      constructor
      · rintro ⟨f, hf, hn⟩ hall
        have hne := hfull (f, false) (List.mem_map_of_mem hf) hn
        simp only at hne
        refine hall (f, false) (List.mem_map_of_mem hf) ?_
        simp [hn, hne]
      · intro hall
        by_contra hno
        refine hall fun g hg => ?_
        obtain ⟨f, hf, rfl⟩ := List.mem_map.1 hg
        have : isContentLength f.1 = false := by
          by_contra hc
          exact hno ⟨f, hf, by simpa using hc⟩
        simp [this]
    rw [hmem]
    generalize lengths (h.fields.map fun f => (f, false)) = l at hlength ⊢
    rcases l with _ | ⟨g, _ | ⟨g', l⟩⟩
    · simp [hlength.1]
    · simp [hlength.1]
    · exact hlength.elim
  rw [hchunked, hflag]
  refine and_congr_left fun _ => ?_
  simp

theorem headersDone_exists (p : HttpParser) : ∃ o, p.headersDone LF = .ok o ∧
    (o.acts = [] ∨ o.acts = [.notify .messageComplete]) := by
  simp only [headersDone, goTo, if_neg (fun h => h rfl : ¬ LF ≠ LF)]
  split_ifs
  all_goals refine ⟨_, rfl, ?_⟩
  any_goals exact .inl rfl
  all_goals exact .inr rfl

/-- The LF of the empty line. -/
theorem read_lastLf (hI : Inside q p h) (hst : p.state = .headersAlmostDone)
    (hroom : p.nread + 1 ≤ HTTP_MAX_HEADER_SIZE) :
    (BothFramings h.fields → ∃ e, read p h [LF] = .error e) ∧
      (¬ BothFramings h.fields → ∃ p' hp, SameLine q hp ∧
        ∃ exit, read p h [LF] = .ok ⟨p', { h with hp := some hp, done := true }, 1, exit⟩) := by
  have hpar : p.state.parsingHeader = true := by rw [hst]; rfl
  have hstep : p.stepByte LF = (counted p).headersAlmostDone LF := by
    rw [stepByte, if_pos hpar, if_neg (by omega)]
    show (counted p).dispatch LF = _
    simp only [dispatch, show (counted p).state = .headersAlmostDone from hst]
  have htr : (counted p).flags.trailing = false := (hI.fits.before hI.hp).2.1
  have hboth := hI.flags hst
  have hnot : ¬ LF ≠ LF := fun h => h rfl
  constructor
  · intro hb
    obtain ⟨h1, h2⟩ := hboth.2 hb
    have herr : p.stepByte LF = .error .unexpectedContentLength := by
      rw [hstep, headersAlmostDone, if_neg hnot, if_neg (by simp [htr]), if_pos]
      simp only [Bool.and_eq_true]
      exact ⟨h1, h2⟩
    exact ⟨_, by rw [read, herr]⟩
  · intro hb
    have hone : ¬ ((counted p).flags.chunked && (counted p).flags.contentLength) = true := by
      rw [Bool.and_eq_true]
      exact fun h => hb (hboth.1 h)
    have hone' : ∃ o, p.stepByte LF = .ok o ∧ ∃ hp acts, SameLine q hp ∧
        o.acts = .notify (.headersComplete hp) :: acts ∧
        (acts = [] ∨ acts = [.notify .messageComplete]) := by
      obtain ⟨o, ho, hacts⟩ := headersDone_exists
        { counted p with state := .headersDone, upgrade := (counted p).upgradeOf }
      rw [hstep, headersAlmostDone, if_neg hnot, if_neg (by simp [htr]), if_neg hone]
      exact ⟨_, congrArg (after [.notify (.headersComplete _)]) ho,
        { counted p with state := .headersDone, upgrade := (counted p).upgradeOf }, o.acts,
        ⟨hI.line.1, hI.line.2⟩, rfl, hacts⟩
    obtain ⟨o, ho, hp, acts, hline, hacts, hcases⟩ := hone'
    have hend : o.parser.state.phase.token ≠ some .url ∧
        o.parser.state.phase.token ≠ some .headerField ∧
        o.parser.state.phase.token ≠ some .headerValue := by
      have hm := stepByte_moves ho
      rw [hst, hacts] at hm
      generalize hph : o.parser.state.phase = ph at hm ⊢
      generalize p.flags.trailing = tr at hm
      generalize o.parser.flags.trailing = tr' at hm
      generalize o.exit = exit at hm
      generalize hact : (.notify (.headersComplete hp) :: acts : List Act) = as at hm
      have hmem : Act.notify (.headersComplete hp) ∈ as := by rw [← hact]; simp
      cases hm with
      | header hl he =>
        cases he with
        | body _ h => rcases h with rfl | rfl <;> simp [Phase.token]
        | message => simp [Phase.token]
      | trailer => simp [Phase.token]
      | nameOpen hl => cases hl
    have hhead : h.step o.acts o.parser.state.phase LF = { h with hp := some hp, done := true } := by
      obtain ⟨h1, h2, h3⟩ := hend
      rw [hacts, step]
      have hact : (Act.notify (.headersComplete hp) :: acts).foldl act h =
          { h with hp := some hp, done := true } := by
        rcases hcases with rfl | rfl <;> rfl
      rw [hact]
      unfold byte
      split
      · exact absurd ‹_› h1
      · exact absurd ‹_› h2
      · exact absurd ‹_› h3
      · rfl
    refine ⟨o.parser, hp, hline, o.exit, ?_⟩
    rw [read_singleton ho, hhead]

theorem bothFramings_reverse : BothFramings L.reverse ↔ BothFramings L := by
  simp only [BothFramings, List.mem_reverse]

/-- The lines and the CR behind them. -/
theorem leads_linesCr (hI : Inside q p h) (hl : AtLine p) (hL : ∀ f ∈ L, Line f)
    (ha : OneLength h.fields L) (hroom : p.nread + (linesOf L ++ crlf).length ≤ HTTP_MAX_HEADER_SIZE)
    (hlen : ∀ f ∈ L, isContentLength f.1 = true → LengthText f.2) :
    Leads q p h (linesOf L ++ [CR]) (·.state = .headersAlmostDone) (L.reverse ++ h.fields) := by
  rw [List.length_append, show crlf.length = 2 from rfl] at hroom
  refine (leads_lines hI hl hL ha (by omega) hlen).append fun p' hI' hl' hn' => ?_
  exact leads_lastCr hI' hl' (by omega)

/-- **A header of lines** is read to its end, if its content lengths are numbers and it does not
have two kinds of framing. -/
theorem read_header (hI : Inside q p h) (hl : AtLine p) (hnil : h.fields = []) (hL : ∀ f ∈ L, Line f)
    (ha : OneLength [] L)
    (hroom : p.nread + (linesOf L ++ crlf).length ≤ HTTP_MAX_HEADER_SIZE)
    (hlen : ∀ f ∈ L, isContentLength f.1 = true → LengthText f.2) (hone : ¬ BothFramings L) :
    ∃ p₁ p₂ hp exit, SameLine q hp ∧
      read p h (linesOf L ++ [CR]) =
        .ok ⟨p₁, { h with fields := L.reverse }, (linesOf L ++ [CR]).length, false⟩ ∧
      read p h (linesOf L ++ [CR] ++ [LF]) =
        .ok ⟨p₂, { h with fields := L.reverse, hp := some hp, done := true },
          (linesOf L ++ [CR] ++ [LF]).length, exit⟩ := by
  obtain ⟨p₁, hr₁, hI₁, hst₁, hn₁⟩ :=
    leads_linesCr hI hl hL (by rw [hnil]; exact ha) hroom hlen
  rw [hnil, List.append_nil] at hr₁ hI₁
  rw [List.length_append, show crlf.length = 2 from rfl] at hroom
  rw [List.length_append, List.length_singleton] at hn₁
  obtain ⟨p₂, hp, hline, exit, hr₂⟩ := (read_lastLf hI₁ hst₁ (by omega)).2
    (fun hb => hone (bothFramings_reverse.1 hb))
  refine ⟨p₁, p₂, hp, exit, hline, hr₁, ?_⟩
  rw [read_append, hr₁]
  simp only [Bool.false_eq_true, if_false, hr₂, Except.map, Reading.more, List.length_append,
    List.length_singleton]
  rw [Nat.add_comm 1]

/-- Nothing else is accepted. -/
theorem plain_of_read (hI : Inside q p h) (hl : AtLine p) (hnil : h.fields = [])
    (hL : ∀ f ∈ L, Line f) (ha : OneLength [] L)
    (hroom : p.nread + (linesOf L ++ crlf).length ≤ HTTP_MAX_HEADER_SIZE)
    (hr : read p h (linesOf L ++ crlf) = .ok r) :
    (∀ f ∈ L, isContentLength f.1 = true → LengthText f.2) ∧ ¬ BothFramings L := by
  rw [← hnil] at ha
  have hlen := lengthText_of_lines hI hl hL ha hroom hr
  refine ⟨hlen, fun hb => ?_⟩
  have hcr := leads_linesCr hI hl hL ha hroom hlen
  rw [hnil, List.append_nil] at hcr
  rw [show linesOf L ++ crlf = linesOf L ++ [CR] ++ [LF] by rw [List.append_assoc]; rfl] at hr
  obtain ⟨p₁, r₁, hI₁, hst₁, hn₁, hr₁, -⟩ := hcr.read_rest hr
  rw [List.length_append, show crlf.length = 2 from rfl] at hroom
  rw [List.length_append, List.length_singleton] at hn₁
  obtain ⟨e, he⟩ := (read_lastLf hI₁ hst₁ (by omega)).1 (bothFramings_reverse.2 hb)
  rw [he] at hr₁
  cases hr₁

end Head

end HttpProxy
