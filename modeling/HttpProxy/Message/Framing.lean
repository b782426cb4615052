import HttpProxy.Message.Fields
import HttpProxy.Parser.Names

/-!
# What a header says about the body

The http-parser derives two things from the fields of a header: whether the body is
chunked, and the content length.  Here both are expressed by the fields, as an invariant
of every reading (`Says`).  A value that is folded over several lines is not the same for
the parser as the same value on one line, so a reading also notes which values were
folded.

* `folds` — the fields whose values were folded.
* `IsHeader.flagsAgree` — at the end of a header the flags and the content length are what the
  fields say.
-/

namespace HttpProxy

open HttpParser

/-- The name is `Transfer-Encoding`, in any spelling. -/
def isTransferEncoding (name : Bytes) : Bool := name.map token = str "transfer-encoding"

/-- The name is `Content-Length`, in any spelling. -/
def isContentLength (name : Bytes) : Bool := name.map token = str "content-length"

/-- A field that makes the body chunked, if its value is not folded. -/
def isChunkedField (f : Bytes × Bytes) : Bool := isTransferEncoding f.1 && isChunkedValue f.2

namespace Head

/-! ## Folded values -/

/-- The note of a byte; `fold` says whether it was read at the start of a line behind a
value. -/
def noteFold (fold : Bool) (acts : List Act) (fl : List Bool) : List Bool :=
  if .mark .headerField ∈ acts then false :: fl
  else if fold ∧ .mark .headerValue ∈ acts then true :: fl.tail
  else fl

/-- Which of the fields have a folded value, the last field first. -/
def folds : HttpParser → List Bool → Bytes → List Bool
  | _, fl, [] => fl
  | p, fl, ch :: rest =>
      match p.stepByte ch with
      | .error _ => fl
      | .ok o =>
          if o.exit then noteFold (p.state = .headerValueLws) o.acts fl
          else folds o.parser (noteFold (p.state = .headerValueLws) o.acts fl) rest

/-! ## The invariant -/

/-- The header states that have nothing to do with the framing of the body. -/
def inert : HeaderState → Bool
  | .contentLength | .contentLengthNum | .contentLengthWs | .transferEncoding
  | .matchingTransferEncodingChunked | .transferEncodingChunked => false
  | _ => true

/-- A value does not start with a blank, has only header characters behind its first byte,
and where it was folded there is a blank. -/
structure ValueOk (v : Bytes) (folded : Bool) : Prop where
  front : ∀ c ∈ v.head?, ¬ isBlank c
  rest : ∀ c ∈ v.tail, isHeaderChar c = true
  folded : folded = true → ∃ c ∈ v, isBlank c

/-- The parser inside the value of a field. -/
structure InValue (p : HttpParser) (f : Bytes × Bytes) (folded : Bool) : Prop where
  ne_nil : f.2 ≠ []
  encoding : isTransferEncoding f.1 = true →
    if folded then p.headerState = .general else (p.headerState, p.index) = codingState f.2
  length : isContentLength f.1 = true → ∃ ds ws, f.2 = ds ++ ws ∧
    LengthValue ds ws folded p.contentLength ∧
    p.headerState = if ws = [] then .contentLengthNum else .contentLengthWs
  other : isTransferEncoding f.1 = false → isContentLength f.1 = false → inert p.headerState = true

/-- The parser inside of a field. -/
def AtField (p : HttpParser) (f : Bytes × Bytes) (folded : Bool) : Prop :=
  match p.state with
  | .headerField => f.2 = [] ∧ folded = false ∧ (p.headerState, p.index) = nameState (f.1.map token)
  | .headerValueDiscardWs | .headerValueDiscardWsAlmostDone | .headerValueDiscardLws =>
      f.2 = [] ∧ folded = false ∧ p.headerState = (nameState (f.1.map token)).1
  | .headerValue | .headerAlmostDone | .headerValueLws => InValue p f folded
  | _ => True

/-- The fields that are complete in a phase. -/
def ended (ph : Phase) (gs : List ((Bytes × Bytes) × Bool)) : List ((Bytes × Bytes) × Bool) :=
  if inField ph then gs.tail else gs

/-- The fields that give a content length. -/
def lengths (gs : List ((Bytes × Bytes) × Bool)) : List ((Bytes × Bytes) × Bool) :=
  gs.filter fun g => isContentLength g.1.1 && !g.1.2.isEmpty

/-- The content length of the parser is the one that the fields give: none, or that of the
only one of them. -/
def LengthIs (p : HttpParser) (begun : Prop) : List ((Bytes × Bytes) × Bool) → Prop
  | [] => p.flags.contentLength = false ∧ (begun → p.contentLength = ULLONG_MAX)
  | [g] => p.flags.contentLength = true ∧
      ∃ ds ws, g.1.2 = ds ++ ws ∧ LengthValue ds ws g.2 p.contentLength
  | _ => False

/-- The message has begun. -/
def Begun (p : HttpParser) (h : Head) : Prop := h.hp = none → p.state.phase ≠ .start

/-- The parser knows what the fields say about the body. -/
structure Says (p : HttpParser) (h : Head) (fl : List Bool) : Prop where
  len : fl.length = h.fields.length
  start : h.hp = none → p.state.phase = .start → h.fields = [] ∧ p.flags = .none
  first : p.state.phase = .first ∨ p.state.phase = .url ∨ p.state.phase = .firstEol → h.fields = []
  chunked : p.flags.chunked = true ↔
    ∃ g ∈ ended p.state.phase (h.fields.zip fl), isChunkedField g.1 = true ∧ g.2 = false
  length : LengthIs p (Begun p h) (lengths (h.fields.zip fl))
  full : ∀ g ∈ ended p.state.phase (h.fields.zip fl), isContentLength g.1.1 = true → g.1.2 ≠ []
  values : ∀ g ∈ h.fields.zip fl, ValueOk g.1.2 g.2
  current : ∀ f fs b bs, h.fields = f :: fs → fl = b :: bs → AtField p f b

variable {p p' : HttpParser} {h h' : Head} {fl : List Bool} {ch : Byte} {o : Out}

/-- The framing flags and the content length are the same. -/
structure SameFraming (p p' : HttpParser) : Prop where
  chunked : p'.flags.chunked = p.flags.chunked
  hasLength : p'.flags.contentLength = p.flags.contentLength
  length : p'.contentLength = p.contentLength

theorem SameFraming.trans {p'' : HttpParser} (h₁ : SameFraming p p') (h₂ : SameFraming p' p'') :
    SameFraming p p'' :=
  ⟨h₂.chunked.trans h₁.chunked, h₂.hasLength.trans h₁.hasLength, h₂.length.trans h₁.length⟩

theorem LengthIs.same {b b' : Prop} {ls : List ((Bytes × Bytes) × Bool)} (hl : LengthIs p b ls)
    (hs : SameFraming p p') (hb : b' → b) : LengthIs p' b' ls := by
  match ls, hl with
  | [], hl => exact ⟨hs.hasLength.trans hl.1, fun h => hs.length.trans (hl.2 (hb h))⟩
  | [g], hl =>
    refine ⟨hs.hasLength.trans hl.1, ?_⟩
    rw [hs.length]
    exact hl.2

/-- A step inside the header that changes neither the fields nor what they say. -/
theorem Says.same (hS : Says p h fl) (hs : SameFraming p p') (hfields : h'.fields = h.fields)
    (hin : inField p'.state.phase = inField p.state.phase)
    (hstart : h'.hp = none → p'.state.phase ≠ .start) (hbegun : Begun p h)
    (hfirst : p'.state.phase = .first ∨ p'.state.phase = .url ∨ p'.state.phase = .firstEol →
      p.state.phase = .first ∨ p.state.phase = .url ∨ p.state.phase = .firstEol)
    (hcur : ∀ f b, AtField p f b → AtField p' f b) : Says p' h' fl := by
  have hended : ∀ gs, ended p'.state.phase gs = ended p.state.phase gs := fun gs => by
    rw [ended, ended, hin]
  refine ⟨hfields ▸ hS.len, fun h1 h2 => absurd h2 (hstart h1), fun h1 => ?_, ?_, ?_, ?_, ?_, ?_⟩
  · rw [hfields]
    exact hS.first (hfirst h1)
  · rw [hs.chunked, hended, hfields]
    exact hS.chunked
  · rw [hfields]
    exact hS.length.same hs fun _ => hbegun
  · rw [hended, hfields]
    exact hS.full
  · rw [hfields]
    exact hS.values
  · intro f fs b bs h1 h2
    rw [hfields] at h1
    exact hcur f b (hS.current f fs b bs h1 h2)

/-- Where no field has been read, only the flags and the content length matter. -/
theorem Says.of_none (hfields : h.fields = []) (hfl : fl = []) (hc : p.flags.chunked = false)
    (hl : LengthIs p (Begun p h) []) (hstart : h.hp = none → p.state.phase = .start → p.flags = .none) :
    Says p h fl := by
  subst hfl
  refine ⟨by simp [hfields], fun h1 h2 => ⟨hfields, hstart h1 h2⟩, fun _ => hfields, ?_, ?_, ?_, ?_, ?_⟩
  · rw [hc, hfields]
    simp [ended]
  · rw [hfields]
    exact hl
  · rw [hfields]
    simp [ended]
  · rw [hfields]
    simp
  · intro f fs b bs h1
    rw [hfields] at h1
    cases h1

theorem atField_of_not_inField (h : inField p.state.phase = false) (f : Bytes × Bytes) (b : Bool) :
    AtField p f b := by
  unfold AtField
  revert h
  cases p.state <;> simp [State.phase, inField]

/-! ## The first line -/

/-- In front of the fields the flags and the content length do not change. -/
theorem dispatch_line (h : p.dispatch ch = .ok o)
    (hph : p.state.phase = .first ∨ p.state.phase = .url ∨ p.state.phase = .firstEol) :
    o.parser.flags = p.flags ∧ o.parser.contentLength = p.contentLength := by
  cases hst : p.state <;> rw [hst] at hph <;> simp [State.phase] at hph <;>
    simp only [dispatch, hst] at h
  case resStatusCode =>
    simp only [resStatusCode, resStatusStart, resStatus, goTo, next] at h
    split_ifs at h <;> cases h <;> exact ⟨rfl, rfl⟩
  case reqMethod =>
    simp only [reqMethod, goTo, next] at h
    split_ifs at h
    · cases h
      exact ⟨rfl, rfl⟩
    · cases h
      exact ⟨rfl, rfl⟩
    · split at h <;> cases h
      exact ⟨rfl, rfl⟩
  all_goals
    simp only [expect, versionMajor, versionMinor, versionDot, resHttpEnd, resFirstStatusCode,
      resStatusStart, resStatus, reqSpacesBeforeUrl, urlOpen, urlClosed, urlChar, reqHttpStart,
      reqHttpEnd, reqLineAlmostDone, goTo, next] at h
    split_ifs at h <;> cases h <;> exact ⟨rfl, rfl⟩

/-- A move in the first line, or in front of it, marks no field. -/
theorem moves_line {tr exit tr' : Bool} {ph ph' : Phase} {acts : List Act}
    (hm : Moves tr ph ch acts exit tr' ph')
    (hph : ph = .start ∨ ph = .first ∨ ph = .url ∨ ph = .firstEol) (h : Head) :
    (h.step acts ph' ch).fields = h.fields ∧ (h.step acts ph' ch).hp = h.hp ∧
      .mark .headerField ∉ acts ∧ .mark .headerValue ∉ acts ∧ inField ph' = false ∧
      (ph' = .start → ph = .start) := by
  have hlast : ∀ {ph : Phase} {acts : List Act}, LastLine ph acts →
      ¬ (ph = .start ∨ ph = .first ∨ ph = .url ∨ ph = .firstEol) := by
    intro ph acts hl
    cases hl with
    | bare hl => cases hl <;> simp
    | crlf => simp
  cases hm with
  | nameOpen hl => exact absurd hph (hlast (.bare hl))
  | lastCr hl => exact absurd hph (hlast (.bare hl))
  | header hl => exact absurd hph (hlast hl)
  | trailer hl => exact absurd hph (hlast hl)
  | urlOpen => exact ⟨rfl, rfl, by simp, by simp, rfl, by simp⟩
  | url => exact ⟨rfl, rfl, by simp, by simp, rfl, by simp⟩
  | skip => exact ⟨rfl, rfl, by simp, by simp, rfl, fun _ => rfl⟩
  | «begin» => exact ⟨rfl, rfl, by simp, by simp, rfl, by simp⟩
  | first => exact ⟨rfl, rfl, by simp, by simp, rfl, by simp⟩
  | firstCr => exact ⟨rfl, rfl, by simp, by simp, rfl, by simp⟩
  | firstLf => exact ⟨rfl, rfl, by simp, by simp, rfl, by simp⟩
  | firstEol => exact ⟨rfl, rfl, by simp, by simp, rfl, by simp⟩
  | urlSpace => exact ⟨rfl, rfl, by simp, by simp, rfl, by simp⟩
  | urlCr => exact ⟨rfl, rfl, by simp, by simp, rfl, by simp⟩
  | urlLf => exact ⟨rfl, rfl, by simp, by simp, rfl, by simp⟩
  | _ => simp at hph

theorem noteFold_eq {fold : Bool} {acts : List Act} (h1 : .mark .headerField ∉ acts)
    (h2 : .mark .headerValue ∉ acts) (fl : List Bool) : noteFold fold acts fl = fl := by
  rw [noteFold, if_neg h1, if_neg (fun h => h2 h.2)]

theorem says_line (hS : Says p h fl) (hd : p.dispatch ch = .ok o)
    (hph : p.state.phase = .first ∨ p.state.phase = .url ∨ p.state.phase = .firstEol) (fold : Bool) :
    Says o.parser (h.step o.acts o.parser.state.phase ch) (noteFold fold o.acts fl) := by
  obtain ⟨hflags, hlen⟩ := dispatch_line hd hph
  obtain ⟨hfields, hhp, hm1, hm2, hin, hstart⟩ := moves_line (dispatch_moves hd) (.inr hph) h
  have hnone := hS.first hph
  have hfl : fl = [] := by
    have := hS.len
    rw [hnone] at this
    exact List.length_eq_zero_iff.1 this
  have hph' : p.state.phase ≠ .start := by
    rcases hph with h | h | h <;> rw [h] <;> decide
  rw [noteFold_eq hm1 hm2]
  refine Says.of_none (hfields.trans hnone) hfl ?_ ?_ fun _ h2 => absurd (hstart h2) hph'
  · rw [hflags]
    have hc := hS.chunked
    rw [hnone] at hc
    simpa [ended] using hc
  · have hl := hS.length
    rw [hnone] at hl
    exact ⟨by rw [hflags]; exact hl.1, fun _ => hlen.trans (hl.2 fun _ => hph')⟩

theorem says_start (hS : Says p h fl) (hd : p.dispatch ch = .ok o) (hn : h.hp = none)
    (hph : p.state.phase = .start) (fold : Bool) :
    Says o.parser (h.step o.acts o.parser.state.phase ch) (noteFold fold o.acts fl) := by
  obtain ⟨hfields, hhp, hm1, hm2, hin, -⟩ := moves_line (dispatch_moves hd) (.inl hph) h
  obtain ⟨hnone, hflags⟩ := hS.start hn hph
  have hfl : fl = [] := by
    have := hS.len
    rw [hnone] at this
    exact List.length_eq_zero_iff.1 this
  rw [noteFold_eq hm1 hm2]
  -- the blank lines in front of a message change nothing, and the first letter resets the parser
  have hres : (o.parser.flags = .none ∧ o.parser.state.phase = .start) ∨
      (o.parser.flags = .none ∧ o.parser.contentLength = ULLONG_MAX ∧ o.parser.state.phase ≠ .start) := by
    cases hst : p.state <;> rw [hst] at hph <;> simp [State.phase] at hph <;>
      simp only [dispatch, hst] at hd
    case dead =>
      simp only [dead, next] at hd
      split_ifs at hd
      cases hd
      exact .inl ⟨hflags, by rw [hst]; rfl⟩
    case startReq =>
      simp only [startReq, next, goTo] at hd
      split_ifs at hd
      · cases hd
        exact .inl ⟨hflags, by rw [hst]; rfl⟩
      · split at hd <;> cases hd
        exact .inr ⟨rfl, rfl, by simp [State.phase]⟩
    case startRes =>
      simp only [startRes, next, goTo] at hd
      split_ifs at hd
      · cases hd
        exact .inl ⟨hflags, by rw [hst]; rfl⟩
      · cases hd
        exact .inr ⟨rfl, rfl, by simp [State.phase]⟩
  rcases hres with ⟨hfl', hst'⟩ | ⟨hfl', hcl, hst'⟩
  · refine Says.of_none (hfields.trans hnone) hfl (by rw [hfl']; rfl)
      ⟨by rw [hfl']; rfl, fun hb => absurd hst' (hb (hhp.trans hn))⟩ fun _ _ => hfl'
  · exact Says.of_none (hfields.trans hnone) hfl (by rw [hfl']; rfl)
      ⟨by rw [hfl']; rfl, fun _ => hcl⟩ fun _ _ => hfl'

/-! ## The start and the end of a field -/

theorem headersAlmostDone_same (htr : p.flags.trailing = false) (hd : p.headersAlmostDone ch = .ok o) :
    SameFraming p o.parser ∧ ∃ hp acts, o.acts = .notify (.headersComplete hp) :: acts ∧
      Ended acts o.exit o.parser.state.phase := by
  simp only [headersAlmostDone, htr, Bool.false_eq_true, if_false] at hd
  split_ifs at hd
  obtain ⟨o', ho, rfl⟩ := after_ok hd
  obtain ⟨-, hfl, hend⟩ := headersDone_moves ho
  refine ⟨⟨by rw [hfl], by rw [hfl], ?_⟩, _, _, rfl, hend⟩
  simp only [headersDone, goTo] at ho
  split_ifs at ho <;> cases ho <;> rfl

/-- The end of the header. -/
theorem headersAlmostDone_says (hS : Says p h fl) (hin : inField p.state.phase = false)
    (hph : p.state.phase ≠ .start) (htr : p.flags.trailing = false)
    (hd : p.headersAlmostDone ch = .ok o) :
    Says o.parser (h.step o.acts o.parser.state.phase ch) fl ∧
      .mark .headerField ∉ o.acts ∧ .mark .headerValue ∉ o.acts := by
  obtain ⟨hsame, hp, acts, hacts, hend⟩ := headersAlmostDone_same htr hd
  rw [hacts]
  have hstep : (h.step (.notify (.headersComplete hp) :: acts) o.parser.state.phase ch).fields = h.fields ∧
      (h.step (.notify (.headersComplete hp) :: acts) o.parser.state.phase ch).hp = some hp ∧
      inField o.parser.state.phase = false ∧
      ¬ (o.parser.state.phase = .first ∨ o.parser.state.phase = .url ∨ o.parser.state.phase = .firstEol) ∧
      .mark .headerField ∉ acts ∧ .mark .headerValue ∉ acts := by
    rw [Head.step, List.foldl_cons]
    generalize o.parser.state.phase = ph' at hend
    generalize o.exit = exit at hend
    cases hend with
    | body _ hph' => rcases hph' with rfl | rfl <;> exact ⟨rfl, rfl, rfl, by simp, by simp, by simp⟩
    | message => exact ⟨rfl, rfl, rfl, by simp, by simp, by simp⟩
  obtain ⟨hfields, hhp, hin', hfirst, h1, h2⟩ := hstep
  refine ⟨hS.same hsame hfields (hin'.trans hin.symm) (fun hn => ?_) (fun _ => hph)
    (fun hf => absurd hf hfirst)
    fun f b _ => atField_of_not_inField hin' f b, by simpa using h1, by simpa using h2⟩
  rw [hhp] at hn
  cases hn

/-- A new field. -/
theorem Says.openField (hS : Says p h fl) (hin : inField p.state.phase = false) (hbegun : Begun p h)
    (hsame : SameFraming p p') (hst : p'.state = .headerField)
    (hcur : (p'.headerState, p'.index) = nameState [token ch]) :
    Says p' (h.step [.mark .headerField] .name ch) (false :: fl) := by
  have hfields : (h.step [.mark .headerField] .name ch).fields = ([ch], []) :: h.fields := rfl
  have hin' : inField p'.state.phase = true := by rw [hst]; rfl
  have hc := hS.chunked
  have hf := hS.full
  rw [ended, if_neg (by simp [hin])] at hc hf
  refine ⟨?_, fun _ h2 => ?_, fun h2 => ?_, ?_, ?_, ?_, ?_, ?_⟩
  · rw [hfields]
    simp [hS.len]
  · rw [hst] at h2
    cases h2
  · rw [hst] at h2
    simp [State.phase] at h2
  · rw [hsame.chunked, ended, if_pos hin', hfields]
    exact hc
  · rw [hfields]
    have hl : lengths ((([ch], []) :: h.fields).zip (false :: fl)) = lengths (h.fields.zip fl) := by
      simp [lengths]
    rw [hl]
    exact hS.length.same hsame fun _ => hbegun
  · rw [ended, if_pos hin', hfields]
    exact hf
  · rw [hfields, List.zip_cons_cons]
    intro g hg
    rcases List.mem_cons.1 hg with rfl | hg
    · exact ⟨by simp, by simp, by simp⟩
    · exact hS.values g hg
  · intro f fs b bs h1 h2
    rw [hfields] at h1
    cases h1
    cases h2
    unfold AtField
    rw [hst]
    exact ⟨rfl, rfl, hcur⟩

/-- `s_header_field_start`. -/
theorem headerFieldStart_says (hS : Says p h fl) (hst : p.state = .headerFieldStart)
    (htr : p.flags.trailing = false) (hd : p.headerFieldStart ch = .ok o) (fold : Bool) :
    Says o.parser (h.step o.acts o.parser.state.phase ch) (noteFold fold o.acts fl) := by
  have hin : inField p.state.phase = false := by rw [hst]; rfl
  have hph : p.state.phase ≠ .start := by rw [hst]; decide
  unfold headerFieldStart at hd
  by_cases hcr : ch = CR
  · rw [if_pos hcr] at hd
    cases hd
    rw [noteFold_eq (by simp) (by simp)]
    exact hS.same ⟨rfl, rfl, rfl⟩ rfl (by rw [hst]; rfl) (fun _ => by simp [State.phase])
      (fun _ => hph) (by simp [State.phase]) fun f b _ => atField_of_not_inField rfl f b
  rw [if_neg hcr] at hd
  by_cases hlf : ch = LF
  · rw [if_pos hlf] at hd
    obtain ⟨hS', h1, h2⟩ := headersAlmostDone_says hS hin hph htr hd
    rw [noteFold_eq h1 h2]
    exact hS'
  rw [if_neg hlf] at hd
  by_cases htok : token ch = 0
  · simp [htok] at hd
  · simp only [if_neg htok, goTo] at hd
    cases hd
    have hnote : noteFold fold [.mark .headerField] fl = false :: fl := by simp [noteFold]
    rw [hnote]
    exact hS.openField hin (fun _ => hph) ⟨rfl, rfl, rfl⟩ rfl rfl

/-- The end of a field. -/
theorem Says.closeField (hS : Says p h fl) (hin : inField p.state.phase = true) (hbegun : Begun p h)
    {f : Bytes × Bytes} {fs : List (Bytes × Bytes)} {b : Bool} {bs : List Bool}
    (hf : h.fields = f :: fs) (hb : fl = b :: bs)
    (hchunked : (p.headerState = .transferEncodingChunked) ↔ isChunkedField f = true ∧ b = false)
    (hfull : isContentLength f.1 = true → f.2 ≠ []) :
    Says { p with flags := finishFlags p.flags p.headerState, state := .headerFieldStart } h fl := by
  have hc := hS.chunked
  have hfu := hS.full
  rw [ended, if_pos hin, hf, hb, List.zip_cons_cons, List.tail_cons] at hc hfu
  have hcount : (finishFlags p.flags p.headerState).contentLength = p.flags.contentLength := by
    cases p.headerState <;> rfl
  have hfin : (finishFlags p.flags p.headerState).chunked = true ↔
      p.headerState = .transferEncodingChunked ∨ p.flags.chunked = true := by
    cases p.headerState <;> simp [finishFlags]
  refine ⟨hS.len, fun _ h2 => by simp [State.phase] at h2, fun h2 => by simp [State.phase] at h2, ?_, ?_, ?_,
    hS.values, fun f fs b bs _ _ => atField_of_not_inField rfl f b⟩
  · rw [hfin, hchunked, hc, ended, if_neg (by simp [State.phase, inField]), hf, hb, List.zip_cons_cons]
    simp
  · have hl := hS.length
    cases hls : lengths (h.fields.zip fl) with
    | nil =>
      rw [hls] at hl
      exact ⟨hcount.trans hl.1, fun _ => hl.2 hbegun⟩
    | cons g gs =>
      rw [hls] at hl
      cases gs with
      | nil => exact ⟨hcount.trans hl.1, hl.2⟩
      | cons => exact hl
  · rw [ended, if_neg (by simp [State.phase, inField]), hf, hb, List.zip_cons_cons]
    intro g hg
    rcases List.mem_cons.1 hg with rfl | hg
    · exact hfull
    · exact hfu g hg

/-! ## Values -/

section Values

variable {n v : Bytes} {b : Bool}

theorem map_token_ne_zero (h0 : ∀ c ∈ n, token c ≠ 0) : ∀ c ∈ n.map token, c ≠ 0 := by
  intro c hc
  obtain ⟨d, hd, rfl⟩ := List.mem_map.1 hc
  exact h0 d hd

theorem not_both (h : isTransferEncoding n = true) : isContentLength n = false := by
  simp only [isTransferEncoding, decide_eq_true_eq] at h
  simp only [isContentLength, h]
  decide

/-- The first byte of a value. -/
theorem inValue_start (h0 : ∀ c ∈ n, token c ≠ 0) (hp : p.headerState = (nameState (n.map token)).1)
    (hd : p.headerValueStart ch = .ok o) :
    InValue o.parser (n, [ch]) false ∧ o.parser.flags.chunked = p.flags.chunked ∧
      (isContentLength n = false → SameFraming p o.parser) ∧
      (isContentLength n = true → p.flags.contentLength = false ∧ o.parser.flags.contentLength = true) := by
  have hte := nameState_transferEncoding (map_token_ne_zero h0)
  have hcl := nameState_contentLength (map_token_ne_zero h0)
  have hkind := isNameState_nameState (n.map token)
  rw [← hp] at hte hcl hkind
  by_cases hn : isTransferEncoding n = true
  · have hst := hte.2 (by simpa [isTransferEncoding] using hn)
    simp only [headerValueStart, hst, next] at hd
    cases hd
    refine ⟨⟨by simp, fun _ => ?_, fun h => ?_, fun h => ?_⟩, rfl, fun _ => ⟨rfl, rfl, rfl⟩, fun h => ?_⟩
    · simp only [Bool.false_eq_true, if_false]
      rfl
    · rw [not_both hn] at h
      cases h
    · rw [hn] at h
      cases h
    · rw [not_both hn] at h
      cases h
  by_cases hl : isContentLength n = true
  · have hst := hcl.2 (by simpa [isContentLength] using hl)
    simp only [headerValueStart, hst, next] at hd
    split_ifs at hd with hnum hflag
    cases hd
    have hdigit : isNum ch = true := by simpa using hnum
    refine ⟨⟨by simp, fun h => absurd h hn, fun _ => ⟨[ch], [], rfl, lengthValue_start hdigit, by simp⟩,
      fun _ h => ?_⟩, rfl, fun h => ?_, fun _ => ⟨by simpa using hflag, rfl⟩⟩
    · rw [hl] at h
      cases h
    · rw [hl] at h
      cases h
  · have hne1 : p.headerState ≠ .transferEncoding := fun h =>
      hn (by simpa [isTransferEncoding] using hte.1 h)
    have hne2 : p.headerState ≠ .contentLength := fun h =>
      hl (by simpa [isContentLength] using hcl.1 h)
    have hout : inert o.parser.headerState = true ∧ SameFraming p o.parser := by
      simp only [headerValueStart, next] at hd
      split at hd <;> rename_i hs
      · cases hd
        exact ⟨rfl, rfl, rfl, rfl⟩
      · exact absurd hs hne1
      · exact absurd hs hne2
      · rw [hs] at hkind
        cases hkind
      · cases hd
        refine ⟨?_, rfl, rfl, rfl⟩
        simp only [connectionOption]
        split_ifs <;> rfl
      · cases hd
        exact ⟨by simp only [hs]; rfl, rfl, rfl, rfl⟩
      · cases hd
        exact ⟨rfl, rfl, rfl, rfl⟩
    exact ⟨⟨by simp, fun h => absurd h hn, fun h => absurd h hl, fun _ _ => hout.1⟩, hout.2.chunked,
      fun _ => hout.2, fun h => absurd h hl⟩

/-- Inside a value with nothing to say about the body. -/
theorem valueStep_inert (hi : inert p.headerState = true) (hd : p.valueStep ch = .ok p') :
    inert p'.headerState = true ∧ SameFraming p p' := by
  have hmatch : ∀ {word : Bytes} {found matching differs : HeaderState} {i : Nat} {c : Byte},
      inert found = true → inert matching = true → inert differs = true →
        inert (matchStep word found matching differs i c).1 = true := by
    intro word found matching differs i c h1 h2 h3
    unfold matchStep
    split_ifs
    · exact h3
    · exact h1
    · exact h2
  have hoption : ∀ {c : Byte} {other : HeaderState}, inert other = true →
      inert (connectionOption c other) = true := by
    intro c other ho
    unfold connectionOption
    split_ifs
    · rfl
    · rfl
    · rfl
    · exact ho
  have htoken : inert (p.connectionToken ch).headerState = true ∧ SameFraming p (p.connectionToken ch) := by
    have hfin : inert p.headerState = true → (finishFlags p.flags p.headerState).chunked = p.flags.chunked ∧
        (finishFlags p.flags p.headerState).contentLength = p.flags.contentLength := by
      cases p.headerState <;> simp [finishFlags, inert]
    unfold connectionToken
    split_ifs
    · exact ⟨rfl, (hfin hi).1, (hfin hi).2, rfl⟩
    · exact ⟨rfl, rfl, rfl, rfl⟩
    · exact ⟨hi, rfl, rfl, rfl⟩
  cases hs : p.headerState <;> simp only [valueStep, hs] at hd <;> rw [hs] at hi <;> try cases hi
  case matchingConnectionKeepAlive | matchingConnectionClose | matchingConnectionUpgrade =>
    cases hd
    exact ⟨hmatch rfl rfl rfl, rfl, rfl, rfl⟩
  case matchingConnectionTokenStart =>
    cases hd
    refine ⟨hoption ?_, rfl, rfl, rfl⟩
    split_ifs <;> rfl
  case connectionKeepAlive | connectionClose | connectionUpgrade =>
    cases hd
    exact htoken
  case matchingConnectionToken =>
    split_ifs at hd <;> cases hd
    · exact ⟨rfl, rfl, rfl, rfl⟩
    · exact ⟨by rw [hs]; rfl, rfl, rfl, rfl⟩
  all_goals
    cases hd
    first
      | exact ⟨rfl, rfl, rfl, rfl⟩
      | exact ⟨by rw [hs]; rfl, rfl, rfl, rfl⟩

/-- One more byte of a value. -/
theorem inValue_step (hv : InValue p (n, v) b) (hd : p.valueStep ch = .ok p') :
    InValue p' (n, v ++ [ch]) b ∧ p'.flags.chunked = p.flags.chunked ∧
      p'.flags.contentLength = p.flags.contentLength ∧
      (isContentLength n = false → SameFraming p p') := by
  have hne : v ≠ [] := hv.ne_nil
  by_cases hn : isTransferEncoding n = true
  · have hnl : ¬ isContentLength n = true := by simp [not_both hn]
    have hcode : (if b then p'.headerState = .general else (p'.headerState, p'.index) =
      codingState (v ++ [ch])) ∧
        SameFraming p p' := by
      have he := hv.encoding hn
      cases b with
      | true =>
        simp only [if_true] at he
        simp only [valueStep, he] at hd
        cases hd
        exact ⟨he, rfl, rfl, rfl⟩
      | false =>
        simp only [Bool.false_eq_true, if_false] at he ⊢
        have hkind := (codingState_coding hne).kind
        rw [codingState_snoc hne, ← he]
        rw [← he] at hkind
        rcases hkind with hs | hs | hs <;> simp only at hs <;> simp only [valueStep, hs] at hd
        · cases hd
          simp only [codingStep, hs]
          exact ⟨trivial, rfl, rfl, rfl⟩
        · cases hd
          simp only [codingStep, hs]
          split_ifs
          · exact ⟨rfl, rfl, rfl, rfl⟩
          · exact ⟨by rw [hs], rfl, rfl, rfl⟩
        · cases hd
          simp only [codingStep, hs]
          exact ⟨trivial, rfl, rfl, rfl⟩
    refine ⟨⟨by simp, fun _ => hcode.1, fun h => absurd h hnl, fun h => ?_⟩, hcode.2.chunked,
      hcode.2.hasLength, fun _ => hcode.2⟩
    rw [hn] at h
    cases h
  by_cases hl : isContentLength n = true
  · obtain ⟨ds, ws, hsplit, hval, hs⟩ := hv.length hl
    have hres : ∃ ds' ws', v ++ [ch] = ds' ++ ws' ∧ LengthValue ds' ws' b p'.contentLength ∧
        (p'.headerState = if ws' = [] then .contentLengthNum else .contentLengthWs) ∧ p'.flags = p.flags := by
      simp only at hsplit
      by_cases hw : ws = []
      · subst hw
        rw [if_pos rfl] at hs
        rw [List.append_nil] at hsplit
        subst hsplit
        simp only [valueStep, hs, contentLengthDigit] at hd
        split_ifs at hd with hsp hnum hbig
        · cases hd
          exact ⟨v, [ch], rfl, hval.blank (.inl hsp) fun hb => ⟨hb, hsp⟩, by simp, rfl⟩
        · cases hd
          have hdigit : isNum ch = true := by simpa using hnum
          exact ⟨v ++ [ch], [], by simp, hval.digit hdigit (not_lt.1 hbig), by simp, rfl⟩
      · rw [if_neg hw] at hs
        simp only [valueStep, hs] at hd
        split_ifs at hd with hsp
        cases hd
        refine ⟨ds, ws ++ [ch], by rw [hsplit, List.append_assoc], hval.blank (.inl hsp) fun hb => ⟨hb, hsp⟩,
          ?_, rfl⟩
        rw [if_neg (by simp), hs]
    obtain ⟨ds', ws', h1, h2, h3, h4⟩ := hres
    refine ⟨⟨by simp, fun h => absurd h hn, fun _ => ⟨ds', ws', h1, h2, h3⟩, fun _ h => ?_⟩,
      by rw [h4], by rw [h4], fun h => ?_⟩
    · rw [hl] at h
      cases h
    · rw [hl] at h
      cases h
  · have hi := hv.other (by simpa using hn) (by simpa using hl)
    obtain ⟨hi', hsame⟩ := valueStep_inert hi hd
    exact ⟨⟨by simp, fun h => absurd h hn, fun h => absurd h hl, fun _ _ => hi'⟩, hsame.chunked,
      hsame.hasLength, fun _ => hsame⟩

/-- The parser in front of a folded line. -/
def foldState (p : HttpParser) : HttpParser :=
  if p.headerState = .contentLengthNum then { p with headerState := .contentLengthWs } else p

/-- The first byte of a line that goes on with the value. -/
theorem inValue_fold (hv : InValue p (n, v) b) (hblank : isBlank ch)
    (hd : (foldState p).headerValueStart ch = .ok o) :
    InValue o.parser (n, v ++ [ch]) true ∧ SameFraming p o.parser := by
  have hne : v ≠ [] := hv.ne_nil
  by_cases hn : isTransferEncoding n = true
  · have hnl : ¬ isContentLength n = true := by simp [not_both hn]
    have hkind : p.headerState = .matchingTransferEncodingChunked ∨
        p.headerState = .transferEncodingChunked ∨ p.headerState = .general := by
      have he := hv.encoding hn
      cases b with
      | true =>
        simp only [if_true] at he
        exact .inr (.inr he)
      | false =>
        simp only [Bool.false_eq_true, if_false] at he
        have hkind := (codingState_coding hne).kind
        rw [← he] at hkind
        exact hkind
    have hout : o.parser.headerState = .general ∧ SameFraming p o.parser := by
      rcases hkind with hs | hs | hs <;>
        simp only [foldState, hs, reduceCtorEq, if_false, headerValueStart, next] at hd <;> cases hd <;>
        exact ⟨rfl, rfl, rfl, rfl⟩
    refine ⟨⟨by simp, fun _ => by simpa using hout.1, fun h => absurd h hnl, fun h => ?_⟩, hout.2⟩
    rw [hn] at h
    cases h
  by_cases hl : isContentLength n = true
  · obtain ⟨ds, ws, hsplit, hval, hs⟩ := hv.length hl
    have hout : o.parser.headerState = .contentLengthWs ∧ SameFraming p o.parser := by
      by_cases hw : ws = []
      · rw [if_pos hw] at hs
        simp only [foldState, hs, if_true, headerValueStart, next] at hd
        cases hd
        exact ⟨rfl, rfl, rfl, rfl⟩
      · rw [if_neg hw] at hs
        simp only [foldState, hs, reduceCtorEq, if_false, headerValueStart, next] at hd
        cases hd
        exact ⟨rfl, rfl, rfl, rfl⟩
    refine ⟨⟨by simp, fun h => absurd h hn, fun _ => ⟨ds, ws ++ [ch], ?_, ?_, ?_⟩, fun _ h => ?_⟩, hout.2⟩
    · simp only at hsplit ⊢
      rw [hsplit, List.append_assoc]
    · rw [hout.2.length]
      exact hval.blank hblank (by simp)
    · rw [if_neg (by simp), hout.1]
    · rw [hl] at h
      cases h
  · have hi := hv.other (by simpa using hn) (by simpa using hl)
    have hout : inert o.parser.headerState = true ∧ SameFraming p o.parser := by
      have hfold : foldState p = p := by
        unfold foldState
        rw [if_neg]
        intro hs
        rw [hs] at hi
        cases hi
      rw [hfold] at hd
      simp only [headerValueStart, next] at hd
      split at hd <;> rename_i hs
      · cases hd
        exact ⟨rfl, rfl, rfl, rfl⟩
      · rw [hs] at hi
        cases hi
      · rw [hs] at hi
        cases hi
      · rw [hs] at hi
        cases hi
      · cases hd
        refine ⟨?_, rfl, rfl, rfl⟩
        simp only [connectionOption]
        split_ifs <;> rfl
      · cases hd
        exact ⟨hi, rfl, rfl, rfl⟩
      · cases hd
        exact ⟨rfl, rfl, rfl, rfl⟩
    exact ⟨⟨by simp, fun h => absurd h hn, fun h => absurd h hl, fun _ _ => hout.1⟩, hout.2⟩

/-- The content length, when the value of the last field has changed. -/
theorem LengthIs.update {begun : Prop} {v' : Bytes} {b' : Bool} {zs : List ((Bytes × Bytes) × Bool)}
    (hl : LengthIs p begun (lengths (((n, v), b) :: zs))) (hbegun : begun) (hv : InValue p' (n, v') b')
    (hsame : isContentLength n = false → SameFraming p p')
    (hopen : isContentLength n = true → v = [] →
      p.flags.contentLength = false ∧ p'.flags.contentLength = true)
    (hmore : isContentLength n = true → v ≠ [] → p'.flags.contentLength = p.flags.contentLength)
    (begun' : Prop) : LengthIs p' begun' (lengths (((n, v'), b') :: zs)) := by
  by_cases hn : isContentLength n = true
  · have hv' : v' ≠ [] := hv.ne_nil
    have hhead : lengths (((n, v'), b') :: zs) = ((n, v'), b') :: lengths zs := by
      simp [lengths, hn, hv']
    have hrest : lengths zs = [] ∧ p'.flags.contentLength = true := by
      by_cases hnil : v = []
      · have hdrop : lengths (((n, v), b) :: zs) = lengths zs := by simp [lengths, hnil]
        rw [hdrop] at hl
        obtain ⟨hoff, hon⟩ := hopen hn hnil
        match hz : lengths zs, hl with
        | [], _ => exact ⟨rfl, hon⟩
        | [g], hl => exact absurd (hoff.symm.trans hl.1) (by simp)
      · have hkeep : lengths (((n, v), b) :: zs) = ((n, v), b) :: lengths zs := by
          simp [lengths, hn, hnil]
        rw [hkeep] at hl
        match hz : lengths zs, hl with
        | [], hl => exact ⟨rfl, (hmore hn hnil).trans hl.1⟩
    obtain ⟨ds, ws, hsplit, hval, -⟩ := hv.length hn
    rw [hhead, hrest.1]
    exact ⟨hrest.2, ds, ws, hsplit, hval⟩
  · rw [Bool.not_eq_true] at hn
    have hdrop : ∀ v b, lengths (((n, v), b) :: zs) = lengths zs := by simp [lengths, hn]
    rw [hdrop] at hl ⊢
    exact hl.same (hsame hn) fun _ => hbegun

end Values

/-- A step inside of a field that changes it. -/
theorem Says.update (hS : Says p h fl) (hin : inField p.state.phase = true)
    (hin' : inField p'.state.phase = true)
    {f g : Bytes × Bytes} {fs : List (Bytes × Bytes)} {b b' : Bool} {bs : List Bool}
    (hf : h.fields = f :: fs) (hb : fl = b :: bs) (hg : h'.fields = g :: fs)
    (hc : p'.flags.chunked = p.flags.chunked)
    (hl : LengthIs p' (Begun p' h') (lengths ((g, b') :: fs.zip bs))) (hv : ValueOk g.2 b')
    (hcur : AtField p' g b') : Says p' h' (b' :: bs) := by
  have hlen := hS.len
  have hch := hS.chunked
  have hfu := hS.full
  have hvs := hS.values
  rw [hf, hb] at hlen
  rw [ended, if_pos hin, hf, hb, List.zip_cons_cons, List.tail_cons] at hch hfu
  rw [hf, hb, List.zip_cons_cons] at hvs
  refine ⟨by rw [hg]; simpa using hlen, fun _ h2 => ?_, fun h2 => ?_, ?_, ?_, ?_, ?_, ?_⟩
  · rw [h2] at hin'
    cases hin'
  · rcases h2 with h2 | h2 | h2 <;> rw [h2] at hin' <;> cases hin'
  · rw [hc, ended, if_pos hin', hg, List.zip_cons_cons, List.tail_cons]
    exact hch
  · rw [hg, List.zip_cons_cons]
    exact hl
  · rw [ended, if_pos hin', hg, List.zip_cons_cons, List.tail_cons]
    exact hfu
  · rw [hg, List.zip_cons_cons]
    intro g hg
    rcases List.mem_cons.1 hg with rfl | hg
    · exact hv
    · exact hvs g (List.mem_cons_of_mem _ hg)
  · intro g gs c cs h1 h2
    rw [hg] at h1
    cases h1
    cases h2
    exact hcur

/-! ## One byte of the header -/

theorem valueOk_snoc {v : Bytes} {b b' : Bool} (hne : v ≠ []) (hv : ValueOk v b)
    (hch : isHeaderChar ch = true) (hb : b' = true → b = true ∨ isBlank ch) : ValueOk (v ++ [ch]) b' := by
  cases v with
  | nil => exact absurd rfl hne
  | cons c v =>
    refine ⟨hv.front, fun d hd => ?_, fun hb' => ?_⟩
    · rcases List.mem_append.1 hd with hd | hd
      · exact hv.rest d hd
      · exact List.mem_singleton.1 hd ▸ hch
    · rcases hb hb' with hb | hblank
      · obtain ⟨d, hd, hblank⟩ := hv.folded hb
        exact ⟨d, List.mem_append_left _ hd, hblank⟩
      · exact ⟨ch, by simp, hblank⟩

theorem isHeaderChar_of_isBlank (h : isBlank ch) : isHeaderChar ch = true := by
  rcases h with rfl | rfl <;> decide

theorem noteFold_value (fold : Bool) (b : Bool) (bs : List Bool) :
    noteFold fold [.mark .headerValue] (b :: bs) = (if fold then true else b) :: bs := by
  cases fold <;> simp [noteFold]

section InField

variable {n v : Bytes} {fs : List (Bytes × Bytes)} {b : Bool} {bs : List Bool}

/-- A letter of the name. -/
theorem says_name (hS : Says p h fl) (hst : p.state = .headerField) (hf : h.fields = (n, v) :: fs)
    (hb : fl = b :: bs) (hne : n ≠ []) (hcur : AtField p (n, v) b) (hd : p.headerField ch = .ok o) :
    Says o.parser (h.step o.acts o.parser.state.phase ch) (noteFold false o.acts fl) := by
  have hin : inField p.state.phase = true := by rw [hst]; rfl
  have hbegun : Begun p h := fun _ => by rw [hst]; decide
  unfold AtField at hcur
  rw [hst] at hcur
  obtain ⟨hv, hb0, hname⟩ := hcur
  simp only at hv hname
  subst hv hb0
  unfold headerField at hd
  by_cases htok : token ch ≠ 0
  · rw [if_pos htok] at hd
    cases hd
    have hl := hS.length
    rw [hf, hb, List.zip_cons_cons] at hl
    rw [noteFold_eq (by simp) (by simp), hb]
    have hdrop : ∀ n, lengths (((n, []), false) :: fs.zip bs) = lengths (fs.zip bs) := by simp [lengths]
    have hf' : (h.step [] p.state.phase ch).fields = (n ++ [ch], []) :: fs := by
      simp only [Head.step, List.foldl_nil, hst, State.phase, Phase.token]
      exact congrArg Head.fields (byte_name hf ch)
    refine hS.update hin ?_ hf hb hf' rfl ?_ ⟨by simp, by simp, by simp⟩ ?_
    · exact hin
    · rw [hdrop] at hl ⊢
      exact hl.same ⟨rfl, rfl, rfl⟩ fun _ => hbegun
    · unfold AtField
      simp only [hst]
      refine ⟨trivial, trivial, ?_⟩
      rw [List.map_append, List.map_singleton, nameState_snoc (by simpa using hne), ← hname]
  · rw [if_neg htok] at hd
    split_ifs at hd
    cases hd
    rw [noteFold_eq (by simp) (by simp)]
    refine hS.same ⟨rfl, rfl, rfl⟩ rfl (by rw [hst]; rfl) (fun _ => by simp [State.phase]) hbegun
      (by simp [State.phase]) fun f c hc => ?_
    unfold AtField at hc ⊢
    rw [hst] at hc
    exact ⟨hc.1, hc.2.1, congrArg Prod.fst hc.2.2⟩

/-- The first byte of the value. -/
theorem says_valueStart (hS : Says p h fl) (hst : p.state = .headerValueDiscardWs)
    (hf : h.fields = (n, v) :: fs) (hb : fl = b :: bs) (hcur : AtField p (n, v) b)
    (hclean : ∀ c ∈ n, token c ≠ 0) (hblank : ¬ isBlank ch) (hd : p.headerValueStart ch = .ok o) :
    Says o.parser (h.step o.acts o.parser.state.phase ch) (noteFold false o.acts fl) := by
  have hin : inField p.state.phase = true := by rw [hst]; rfl
  have hbegun : Begun p h := fun _ => by rw [hst]; decide
  unfold AtField at hcur
  rw [hst] at hcur
  obtain ⟨hv, hb0, hname⟩ := hcur
  simp only at hv hname
  subst hv hb0
  obtain ⟨hacts, -, -, hstate⟩ := headerValueStart_ok hd
  obtain ⟨hval, hc, hsame, hopen⟩ := inValue_start hclean hname hd
  have hl := hS.length
  rw [hf, hb, List.zip_cons_cons] at hl
  rw [hacts, hstate, hb, noteFold_value]
  refine hS.update hin (by rw [hstate]; rfl) hf hb (g := (n, [ch])) ?_ hc ?_
    ⟨by simpa using hblank, by simp, by simp⟩ ?_
  · exact congrArg Head.fields (byte_value hf ch)
  · exact hl.update hbegun hval hsame (fun hn _ => hopen hn) (fun _ hne => absurd rfl hne) _
  · unfold AtField
    rw [hstate]
    exact hval

/-- A byte of the value. -/
theorem says_valueStep (hS : Says p h fl) (hst : p.state = .headerValue)
    (hf : h.fields = (n, v) :: fs) (hb : fl = b :: bs) (hcur : AtField p (n, v) b)
    (hchar : isHeaderChar ch = true) (hd : p.valueStep ch = .ok p') :
    Says p' (h.step [] p'.state.phase ch) fl := by
  have hin : inField p.state.phase = true := by rw [hst]; rfl
  have hbegun : Begun p h := fun _ => by rw [hst]; decide
  have hstate : p'.state = .headerValue := (valueStep_ok hd).1.trans hst
  unfold AtField at hcur
  rw [hst] at hcur
  obtain ⟨hval, hc, hcl, hsame⟩ := inValue_step hcur hd
  have hl := hS.length
  have hvs := hS.values ((n, v), b) (by rw [hf, hb]; simp)
  rw [hf, hb, List.zip_cons_cons] at hl
  rw [hstate, hb]
  refine hS.update hin (by rw [hstate]; rfl) hf hb (g := (n, v ++ [ch])) ?_ hc ?_
    (valueOk_snoc hcur.ne_nil hvs hchar .inl) ?_
  · exact congrArg Head.fields (byte_value hf ch)
  · exact hl.update hbegun hval hsame (fun _ hnil => absurd hnil hcur.ne_nil) (fun _ _ => hcl) _
  · unfold AtField
    rw [hstate]
    exact hval

/-- The value goes on in the next line. -/
theorem says_fold (hS : Says p h fl) (hst : p.state = .headerValueLws)
    (hf : h.fields = (n, v) :: fs) (hb : fl = b :: bs) (hcur : AtField p (n, v) b)
    (hblank : isBlank ch) (hd : (foldState p).headerValueStart ch = .ok o) :
    Says o.parser (h.step o.acts o.parser.state.phase ch) (noteFold true o.acts fl) := by
  have hin : inField p.state.phase = true := by rw [hst]; rfl
  have hbegun : Begun p h := fun _ => by rw [hst]; decide
  obtain ⟨hacts, -, -, hstate⟩ := headerValueStart_ok hd
  unfold AtField at hcur
  rw [hst] at hcur
  obtain ⟨hval, hsame⟩ := inValue_fold hcur hblank hd
  have hl := hS.length
  have hvs := hS.values ((n, v), b) (by rw [hf, hb]; simp)
  rw [hf, hb, List.zip_cons_cons] at hl
  rw [hacts, hstate, hb, noteFold_value]
  refine hS.update hin (by rw [hstate]; rfl) hf hb (g := (n, v ++ [ch])) ?_ hsame.chunked ?_
    (valueOk_snoc hcur.ne_nil hvs (isHeaderChar_of_isBlank hblank) fun _ => .inr hblank) ?_
  · exact congrArg Head.fields (byte_value hf ch)
  · exact hl.update hbegun hval (fun _ => hsame) (fun _ hnil => absurd hnil hcur.ne_nil)
      (fun _ _ => hsame.hasLength) _
  · unfold AtField
    rw [hstate]
    exact hval

/-- A field with a value ends. -/
theorem says_closeValue (hS : Says p h fl) (hst : p.state = .headerValueLws)
    (hf : h.fields = (n, v) :: fs) (hb : fl = b :: bs) (hcur : AtField p (n, v) b) :
    Says { p with flags := finishFlags p.flags p.headerState, state := .headerFieldStart } h fl := by
  have hin : inField p.state.phase = true := by rw [hst]; rfl
  have hbegun : Begun p h := fun _ => by rw [hst]; decide
  unfold AtField at hcur
  rw [hst] at hcur
  refine hS.closeField hin hbegun hf hb ?_ fun _ => hcur.ne_nil
  by_cases hn : isTransferEncoding n = true
  · have he := hcur.encoding hn
    have hall := (codingState_coding (v := v) hcur.ne_nil).all
    cases b with
    | true =>
      simp only [if_true] at he
      rw [he]
      simp
    | false =>
      simp only [Bool.false_eq_true, if_false] at he
      rw [← he] at hall
      rw [hall]
      simp [isChunkedField, hn]
  · have hne : p.headerState ≠ .transferEncodingChunked := by
      intro hs
      by_cases hl : isContentLength n = true
      · obtain ⟨ds, ws, -, -, hs'⟩ := hcur.length hl
        rw [hs] at hs'
        split_ifs at hs'
      · have hi := hcur.other (by simpa using hn) (by simpa using hl)
        rw [hs] at hi
        cases hi
    refine ⟨fun h => absurd h hne, fun h => ?_⟩
    simp [isChunkedField, hn] at h

/-- A field without a value ends. -/
theorem says_closeEmpty (hS : Says p h fl) (hst : p.state = .headerValueDiscardLws)
    (hf : h.fields = (n, v) :: fs) (hb : fl = b :: bs) (hcur : AtField p (n, v) b)
    (hclean : ∀ c ∈ n, token c ≠ 0) (hne : p.headerState ≠ .contentLength) :
    Says { p with flags := finishFlags p.flags p.headerState, state := .headerFieldStart } h fl := by
  have hin : inField p.state.phase = true := by rw [hst]; rfl
  have hbegun : Begun p h := fun _ => by rw [hst]; decide
  unfold AtField at hcur
  rw [hst] at hcur
  obtain ⟨hv, hb0, hname⟩ := hcur
  simp only at hv hname
  subst hv
  refine hS.closeField hin hbegun hf hb ⟨fun hs => ?_, fun hc => ?_⟩ fun hn => ?_
  · have hkind := isNameState_nameState (n.map token)
    rw [← hname, hs] at hkind
    cases hkind
  · have hval : isChunkedValue [] = true := by
      have := hc.1
      rw [isChunkedField, Bool.and_eq_true] at this
      exact this.2
    have hlen := isChunkedValue_length hval
    simp at hlen
  · refine absurd ?_ hne
    rw [hname, nameState_contentLength (map_token_ne_zero hclean)]
    simpa [isContentLength] using hn

end InField

/-- **One byte.**  Before the end of the header, every byte keeps what the parser knows. -/
theorem dispatch_says (hS : Says p h fl) (hf : Fits p.flags.trailing p.state.phase h) (hn : h.hp = none)
    (hclean : ∀ f ∈ h.fields, Clean f) (hd : p.dispatch ch = .ok o) :
    Says o.parser (h.step o.acts o.parser.state.phase ch)
      (noteFold (p.state = .headerValueLws) o.acts fl) := by
  obtain ⟨-, htr, hnf, hnc⟩ := hf.before hn
  by_cases hstart : p.state.phase = .start
  · exact says_start hS hd hn hstart _
  by_cases hline : p.state.phase = .first ∨ p.state.phase = .url ∨ p.state.phase = .firstEol
  · exact says_line hS hd hline _
  have hbegun : Begun p h := fun _ => hstart
  -- inside of a field there is one
  have hfield : inField p.state.phase = true → ∃ n v fs b bs, h.fields = (n, v) :: fs ∧ fl = b :: bs ∧
      AtField p (n, v) b := by
    intro hin
    have hne := hf.inside hin
    cases hfs : h.fields with
    | nil => exact absurd hfs hne
    | cons f fs =>
      have hlen := hS.len
      rw [hfs] at hlen
      cases hbs : fl with
      | nil =>
        rw [hbs] at hlen
        cases hlen
      | cons b bs => exact ⟨f.1, f.2, fs, b, bs, rfl, rfl, hS.current f fs b bs hfs hbs⟩
  cases hst : p.state <;> rw [hst] at hstart hline hnf hnc <;>
    simp only [State.phase, reduceCtorEq, not_true_eq_false, true_or, or_true,
      ne_eq] at hstart hline hnf hnc <;>
    simp only [dispatch, hst] at hd
  case headerFieldStart => exact headerFieldStart_says hS hst htr hd _
  case headersAlmostDone =>
    obtain ⟨hS', h1, h2⟩ := headersAlmostDone_says hS (by rw [hst]; rfl) (by rw [hst]; decide) htr hd
    rw [noteFold_eq h1 h2]
    exact hS'
  case headersDone | messageDone | headerValueStart =>
    exact absurd (by rw [hst]; rfl) hf.resting
  all_goals
    obtain ⟨n, v, fs, b, bs, hfs, hbs, hcur⟩ := hfield (by rw [hst]; rfl)
    have hname : n ≠ [] := hf.named (n, v) (by rw [hfs]; simp)
    have htoken : ∀ c ∈ n, token c ≠ 0 := (hclean (n, v) (by rw [hfs]; simp)).name
  case headerField => exact says_name hS hst hfs hbs hname hcur hd
  case headerValueDiscardWs =>
    have hsame : ∀ s : State, (s = .headerValueDiscardWs ∨ s = .headerValueDiscardWsAlmostDone ∨
        s = .headerValueDiscardLws) → Says { p with state := s } (h.step [] s.phase ch) fl := by
      intro s hs
      refine hS.same ⟨rfl, rfl, rfl⟩ ?_ ?_ ?_ hbegun ?_ fun f c hc => ?_
      · rcases hs with rfl | rfl | rfl <;> rfl
      · rw [hst]
        rcases hs with rfl | rfl | rfl <;> rfl
      · intro _
        rcases hs with rfl | rfl | rfl <;> simp [State.phase]
      · rcases hs with rfl | rfl | rfl <;> simp [State.phase]
      · unfold AtField at hc ⊢
        rw [hst] at hc
        rcases hs with rfl | rfl | rfl <;> exact hc
    simp only [headerValueDiscardWs] at hd
    split_ifs at hd with hblank hcr hlf
    · cases hd
      rw [noteFold_eq (by simp) (by simp)]
      have := hsame p.state (.inl hst)
      exact this
    · cases hd
      rw [noteFold_eq (by simp) (by simp)]
      exact hsame _ (.inr (.inl rfl))
    · cases hd
      rw [noteFold_eq (by simp) (by simp)]
      exact hsame _ (.inr (.inr rfl))
    · exact says_valueStart hS hst hfs hbs hcur htoken hblank hd
  case headerValueDiscardWsAlmostDone =>
    obtain ⟨rfl, rfl⟩ := expect_ok hd
    rw [noteFold_eq (by simp) (by simp)]
    refine hS.same ⟨rfl, rfl, rfl⟩ rfl (by rw [hst]; rfl) (fun _ => by simp [State.phase]) hbegun
      (by simp [State.phase]) fun f c hc => ?_
    unfold AtField at hc ⊢
    rw [hst] at hc
    exact hc
  case headerValueDiscardLws =>
    simp only [headerValueDiscardLws] at hd
    split_ifs at hd with hblank hcl
    · cases hd
      rw [noteFold_eq (by simp) (by simp)]
      refine hS.same ⟨rfl, rfl, rfl⟩ rfl (by rw [hst]; rfl) (fun _ => by simp [State.phase]) hbegun
        (by simp [State.phase]) fun f c hc => ?_
      unfold AtField at hc ⊢
      rw [hst] at hc
      exact hc
    · obtain ⟨o', ho, rfl⟩ := after_ok hd
      have hclose := says_closeEmpty hS hst hfs hbs hcur htoken hcl
      have hS' := headerFieldStart_says hclose rfl (by rw [← htr]; exact finishFlags_trailing _ _) ho false
      have hnote : noteFold false ([Act.mark .headerValue, .data .headerValue 0] ++ o'.acts) fl =
          noteFold false o'.acts fl := by
        simp [noteFold]
      show Says _ _ (noteFold (decide (State.headerValueDiscardLws = .headerValueLws)) _ _)
      rw [decide_eq_false (by simp), hnote]
      exact hS'
  case headerValue =>
    have hsame : ∀ s : State, (s = .headerAlmostDone ∨ s = .headerValueLws) →
        Says { p with state := s } (h.step [.data .headerValue 0] s.phase ch) fl := by
      intro s hs
      refine hS.same ⟨rfl, rfl, rfl⟩ ?_ ?_ ?_ hbegun ?_ fun f c hc => ?_
      · rcases hs with rfl | rfl <;> rfl
      · rw [hst]
        rcases hs with rfl | rfl <;> rfl
      · intro _
        rcases hs with rfl | rfl <;> simp [State.phase]
      · rcases hs with rfl | rfl <;> simp [State.phase]
      · unfold AtField at hc ⊢
        rw [hst] at hc
        rcases hs with rfl | rfl <;> exact ⟨hc.ne_nil, hc.encoding, hc.length, hc.other⟩
    simp only [headerValue] at hd
    split_ifs at hd with hcr hlf hchar
    · cases hd
      rw [noteFold_eq (by simp) (by simp)]
      exact hsame _ (.inl rfl)
    · obtain ⟨o', ho, rfl⟩ := after_ok hd
      simp only [headerAlmostDone, goTo] at ho
      split_ifs at ho
      cases ho
      rw [noteFold_eq (by simp) (by simp)]
      exact hsame _ (.inr rfl)
    · split at hd
      · rename_i p' hp'
        cases hd
        rw [noteFold_eq (by simp) (by simp)]
        exact says_valueStep hS hst hfs hbs hcur (by simpa using hchar) hp'
      · cases hd
  case headerAlmostDone =>
    simp only [headerAlmostDone, goTo] at hd
    split_ifs at hd
    cases hd
    rw [noteFold_eq (by simp) (by simp)]
    refine hS.same ⟨rfl, rfl, rfl⟩ rfl (by rw [hst]; rfl) (fun _ => by simp [State.phase]) hbegun
      (by simp [State.phase]) fun f c hc => ?_
    unfold AtField at hc ⊢
    rw [hst] at hc
    exact ⟨hc.ne_nil, hc.encoding, hc.length, hc.other⟩
  case headerValueLws =>
    unfold headerValueLws at hd
    by_cases hblank : ch = chr ' ' ∨ ch = 9
    · rw [if_pos hblank] at hd
      simpa using says_fold hS hst hfs hbs hcur hblank hd
    · rw [if_neg hblank] at hd
      have hclose := says_closeValue hS hst hfs hbs hcur
      exact headerFieldStart_says hclose rfl (by rw [← htr]; exact finishFlags_trailing _ _) hd _

theorem stepByte_says (hS : Says p h fl) (hf : Fits p.flags.trailing p.state.phase h) (hn : h.hp = none)
    (hclean : ∀ f ∈ h.fields, Clean f) (hs : p.stepByte ch = .ok o) :
    Says o.parser (h.step o.acts o.parser.state.phase ch)
      (noteFold (p.state = .headerValueLws) o.acts fl) := by
  have hcount : Says { p with nread := p.nread + 1 } h fl := by
    refine ⟨hS.len, hS.start, hS.first, hS.chunked, hS.length.same ⟨rfl, rfl, rfl⟩ id, hS.full, hS.values, ?_⟩
    intro f fs b bs h1 h2
    have hcur := hS.current f fs b bs h1 h2
    unfold AtField at hcur ⊢
    revert hcur
    cases p.state <;> first | exact id | exact fun hc => ⟨hc.ne_nil, hc.encoding, hc.length, hc.other⟩
  unfold stepByte at hs
  split_ifs at hs
  · exact dispatch_says (p := { p with nread := p.nread + 1 }) hcount hf hn hclean hs
  · exact dispatch_says hS hf hn hclean hs

/-- A reading that does not go beyond the end of the header. -/
theorem read_says {bs : Bytes} {r : Reading} (hS : Says p h fl)
    (hf : Fits p.flags.trailing p.state.phase h) (hn : h.hp = none) (hclean : ∀ f ∈ h.fields, Clean f)
    (hr : read p h bs = .ok r)
    (hbefore : ∀ k < bs.length, ∀ r', read p h (bs.take k) = .ok r' → r'.head.hp = none) :
    Says r.parser r.head (folds p fl bs) := by
  induction bs generalizing p h fl r with
  | nil =>
    cases hr
    exact hS
  | cons ch bs ih =>
    obtain ⟨o, hs, hrest⟩ := read_cons_ok hr
    have hS' := stepByte_says hS hf hn hclean hs
    have hm := stepByte_moves hs
    unfold folds
    simp only [hs]
    rcases hrest with ⟨hexit, rfl⟩ | ⟨hexit, r', hr', rfl⟩
    · rw [if_pos hexit]
      exact hS'
    · rw [if_neg (by simp [hexit])]
      cases hbs : bs with
      | nil =>
        rw [hbs] at hr'
        cases hr'
        exact hS'
      | cons c cs =>
        rw [← hbs]
        have hpos : 0 < bs.length := by rw [hbs]; simp
        have hn' : (h.step o.acts o.parser.state.phase ch).hp = none := by
          refine hbefore 1 (by simp [hpos]) ⟨o.parser, _, 1, o.exit⟩ ?_
          rw [List.take_succ_cons, List.take_zero]
          exact read_singleton hs h
        refine ih (r := r') hS' (hf.step hm) hn' (clean_step hm hf hclean) hr' fun k hk r₁ hr₁ => ?_
        have := hbefore (k + 1) (by simpa using hk) (r₁.more 1)
          (by rw [List.take_succ_cons]; exact read_cons hs hexit hr₁)
        exact this

end Head

/-- At the end of a header no field is open. -/
theorem IsHeader.not_inField {t : HttpParserType} {H : Bytes} {r : Head.Reading} (hH : IsHeader t H)
    (hr : readHead t H = .ok r) : Head.inField r.parser.state.phase = false := by
  rcases (hH.phase_end hr).1 with h | h | h <;> rw [h] <;> rfl

/-- Which of the fields of a header have a folded value, the last field first. -/
def foldedFields (t : HttpParserType) (H : Bytes) : List Bool := Head.folds (.init t) [] H

/-- **What a header says.**  At the end of a header the parser knows what the fields say about
the body. -/
theorem IsHeader.flagsAgree {t : HttpParserType} {H : Bytes} {r : Head.Reading} (hH : IsHeader t H)
    (hr : readHead t H = .ok r) : Head.Says r.parser r.head (foldedFields t H) := by
  have hinit : Head.Says (.init t) .empty [] := by
    refine Head.Says.of_none rfl rfl rfl ⟨rfl, fun hb => ?_⟩ fun _ _ => rfl
    exact absurd (by cases t <;> rfl) (hb rfl)
  exact Head.read_says hinit (init_fits t) rfl (by simp [Head.empty]) hr hH.before

end HttpProxy
