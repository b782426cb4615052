import HttpProxy.Parser.Execute

/-!
# The embedded http-parser: phases of a message

What the rest of the program can see of the http-parser is which tokens it marks
and reports and which events it notifies.  `Phase` forgets everything else about a
state, and `Moves` lists what one byte can do in each phase; it is the only place
where the states are gone through one by one, and every later fact about tokens,
line ends and the end of the header is a fact about `Moves`.

* `stepByte_moves` — every step of the http-parser is one of the moves.
* `stepByte_kept` — what a step leaves as it is.
-/

namespace HttpProxy

/-- Where in a message a state is. -/
inductive Phase
  /-- Between two messages. -/
  | start
  /-- In the first line, outside the url. -/
  | first
  | url
  /-- Behind the CR of the first line. -/
  | firstEol
  /-- At the start of a line behind the first one or behind the last chunk. -/
  | lineStart
  | name
  /-- Between a field name and its value. -/
  | gap
  | value
  /-- Behind the CR of a field. -/
  | fieldEol
  /-- At the start of a line behind a field, which may go on there. -/
  | folding
  /-- Behind the CR of the empty line. -/
  | lastLine
  /-- In the body, between the bytes of the content. -/
  | framing
  /-- In the body, where a piece of the content may be open. -/
  | content
  /-- In a state that is only jumped to, so that no byte is read there. -/
  | passing
  deriving DecidableEq, Repr

/-- The phase of a state. -/
def State.phase : State → Phase
  | .dead | .startRes | .startReq => .start
  | .resLineAlmostDone | .reqLineAlmostDone => .firstEol
  | .headerAlmostDone | .headerValueDiscardWsAlmostDone => .fieldEol
  | .headerFieldStart => .lineStart
  | .headerValueLws | .headerValueDiscardLws => .folding
  | .headerField => .name
  | .headerValueDiscardWs => .gap
  | .headerValue => .value
  | .headersAlmostDone => .lastLine
  | .chunkData | .chunkDataAlmostDone | .bodyIdentity | .bodyIdentityEof => .content
  | .chunkSizeStart | .chunkSize | .chunkParameters | .chunkSizeAlmostDone
  | .chunkDataDone => .framing
  | .headerValueStart | .headersDone | .messageDone => .passing
  | .reqPath | .reqSchema | .reqSchemaSlash | .reqSchemaSlashSlash | .reqServerStart
  | .reqServer | .reqServerWithAt | .reqQueryStringStart | .reqQueryString | .reqFragmentStart
  | .reqFragment => .url
  | _ => .first

/-- The token a phase is inside of. -/
def Phase.token : Phase → Option Mark
  | .url => some .url
  | .name => some .headerField
  | .value => some .headerValue
  | _ => none

theorem State.token_eq (s : State) : s.token = s.phase.token := by
  cases s <;> rfl

/-- Is the byte a space or a tab? -/
def isBlank (b : Byte) : Prop := b = chr ' ' ∨ b = 9

/-- What is reported at the start of a line before the line is looked at: nothing,
or that the value of the field before it is empty. -/
inductive LineHead : Phase → List Act → Prop
  | fresh : LineHead .lineStart []
  | field : LineHead .folding []
  | emptyValue : LineHead .folding [.mark .headerValue, .data .headerValue 0]

/-- The end of the header: a bare LF at the start of a line, or the LF behind the
CR of the empty line. -/
inductive LastLine : Phase → List Act → Prop
  | bare {ph : Phase} {acts : List Act} : LineHead ph acts → LastLine ph acts
  | crlf : LastLine .lastLine []

/-- Both lie between the tokens. -/
theorem LineHead.between {ph : Phase} {acts : List Act} (hl : LineHead ph acts) :
    ph.token = none ∧ ph ≠ .content := by
  cases hl <;> exact ⟨rfl, by decide⟩

theorem LastLine.between {ph : Phase} {acts : List Act} (hl : LastLine ph acts) :
    ph.token = none ∧ ph ≠ .content := by
  cases hl with
  | bare hl => exact hl.between
  | crlf => exact ⟨rfl, by decide⟩

/-- What follows the report that the header is complete. -/
inductive Ended : List Act → Bool → Phase → Prop
  | body (ph : Phase) : ph = .framing ∨ ph = .content → Ended [] false ph
  | message (exit : Bool) : Ended [.notify .messageComplete] exit .start

/-- One byte of a message: whether trailer fields are being read, the phase, the
byte, the actions, whether the loop is left, and the trailer flag and phase after
it. -/
inductive Moves : Bool → Phase → Byte → List Act → Bool → Bool → Phase → Prop
  | skip {tr : Bool} {ch : Byte} : ch = CR ∨ ch = LF → Moves tr .start ch [] false tr .start
  | begin {tr : Bool} {ch : Byte} : ch ≠ CR → ch ≠ LF →
      Moves tr .start ch [.notify .messageBegin] false false .first
  | first {tr : Bool} {ch : Byte} : ch ≠ CR → ch ≠ LF → Moves tr .first ch [] false tr .first
  | firstCr {tr : Bool} : Moves tr .first CR [] false tr .firstEol
  | firstLf {tr : Bool} : Moves tr .first LF [] false tr .lineStart
  | firstEol {tr : Bool} : Moves tr .firstEol LF [] false tr .lineStart
  | urlOpen {tr : Bool} {ch : Byte} : ch ≠ CR → ch ≠ LF →
      Moves tr .first ch [.mark .url] false tr .url
  | url {tr : Bool} {ch : Byte} : ch ≠ CR → ch ≠ LF → Moves tr .url ch [] false tr .url
  | urlSpace {tr : Bool} : Moves tr .url (chr ' ') [.data .url 0] false tr .first
  | urlCr {tr : Bool} : Moves tr .url CR [.data .url 0] false tr .firstEol
  | urlLf {tr : Bool} : Moves tr .url LF [.data .url 0] false tr .lineStart
  | nameOpen {tr : Bool} {ph : Phase} {ch : Byte} {acts : List Act} : LineHead ph acts →
      token ch ≠ 0 → Moves tr ph ch (acts ++ [.mark .headerField]) false tr .name
  | name {tr : Bool} {ch : Byte} : token ch ≠ 0 → Moves tr .name ch [] false tr .name
  | colon {tr : Bool} : Moves tr .name (chr ':') [.data .headerField 0] false tr .gap
  | gap {tr : Bool} {ch : Byte} : isBlank ch → Moves tr .gap ch [] false tr .gap
  | gapCr {tr : Bool} : Moves tr .gap CR [] false tr .fieldEol
  | gapLf {tr : Bool} : Moves tr .gap LF [] false tr .folding
  | valueOpen {tr : Bool} {ch : Byte} : ch ≠ CR → ch ≠ LF →
      Moves tr .gap ch [.mark .headerValue] false tr .value
  | value {tr : Bool} {ch : Byte} : ch ≠ CR → ch ≠ LF → Moves tr .value ch [] false tr .value
  | valueCr {tr : Bool} : Moves tr .value CR [.data .headerValue 0] false tr .fieldEol
  | valueLf {tr : Bool} : Moves tr .value LF [.data .headerValue 0] false tr .folding
  | fieldEol {tr : Bool} : Moves tr .fieldEol LF [] false tr .folding
  | foldGap {tr : Bool} {ch : Byte} : isBlank ch → Moves tr .folding ch [] false tr .gap
  | foldValue {tr : Bool} {ch : Byte} : isBlank ch →
      Moves tr .folding ch [.mark .headerValue] false tr .value
  | lastCr {tr : Bool} {ph : Phase} {acts : List Act} : LineHead ph acts →
      Moves tr ph CR acts false tr .lastLine
  | header {ph : Phase} {acts acts' : List Act} {exit : Bool} {hp : HttpParser} {ph' : Phase} :
      LastLine ph acts → Ended acts' exit ph' →
      Moves false ph LF (acts ++ .notify (.headersComplete hp) :: acts') exit false ph'
  | trailer {ph : Phase} {acts : List Act} {exit : Bool} : LastLine ph acts →
      Moves true ph LF (acts ++ [.notify .messageComplete]) exit true .start
  | framing {tr : Bool} {ch : Byte} {ph : Phase} : ph = .framing ∨ ph = .content →
      Moves tr .framing ch [] false tr ph
  | lastChunk {tr : Bool} : Moves tr .framing LF [] false true .lineStart
  | content {tr : Bool} {ch : Byte} : Moves tr .content ch [.mark .body] false tr .content
  | contentEnd {tr : Bool} {ch : Byte} : Moves tr .content ch [.data .body 0] false tr .framing
  | contentMessage {tr : Bool} {ch : Byte} {exit : Bool} :
      Moves tr .content ch [.mark .body, .data .body 1, .notify .messageComplete] exit tr .start
  | passing {tr tr' : Bool} {ch : Byte} {acts : List Act} {exit : Bool} {ph : Phase} :
      Moves tr .passing ch acts exit tr' ph

/-- The loop is left only behind the end of a message. -/
theorem Moves.exit_start {tr tr' : Bool} {ph ph' : Phase} {ch : Byte} {acts : List Act}
    (hm : Moves tr ph ch acts true tr' ph') (hph : ph ≠ .passing) : ph' = .start := by
  cases hm with
  | passing => exact absurd rfl hph
  | header _ he => cases he; rfl
  | _ => rfl

namespace HttpParser

/-! ## The functions of the states -/

theorem after_ok {acts : List Act} {x : Except HttpErrno Out} {o : Out}
    (h : after acts x = .ok o) : ∃ o', x = .ok o' ∧ o = { o' with acts := acts ++ o'.acts } := by
  cases x with
  | error e => simp [after] at h
  | ok o' =>
    simp only [after, Except.ok.injEq] at h
    exact ⟨o', rfl, h.symm⟩

theorem newMessage_phase (p : HttpParser) : p.newMessage.phase = .start := by
  rw [newMessage]
  cases p.type <;> split_ifs <;> rfl

theorem parseServerChar_phase {ch : Byte} (h : parseServerChar ch ≠ .dead) :
    (parseServerChar ch).phase = .url := by
  revert h
  rw [parseServerChar]
  split_ifs <;> simp [State.phase]

theorem parseQueryChar_phase {ch : Byte} (h : parseQueryChar ch ≠ .dead) :
    (parseQueryChar ch).phase = .url := by
  revert h
  rw [parseQueryChar]
  split_ifs <;> simp [State.phase]

/-- A character of a url leads to a state inside the url. -/
theorem parseUrlChar_phase {s : State} {ch : Byte} (h : parseUrlChar s ch ≠ .dead) :
    (parseUrlChar s ch).phase = .url ∧ ch ≠ CR ∧ ch ≠ LF := by
  unfold parseUrlChar at h ⊢
  by_cases hb : ch = chr ' ' ∨ ch = CR ∨ ch = LF ∨ ch = 9 ∨ ch = 12
  · rw [if_pos hb] at h
    exact absurd rfl h
  · rw [if_neg hb] at h ⊢
    simp only [not_or] at hb
    refine ⟨?_, hb.2.1, hb.2.2.1⟩
    revert h
    cases s <;> dsimp only <;> (try split_ifs) <;>
      first
      | exact fun _ => rfl
      | exact fun h => absurd rfl h
      | exact parseServerChar_phase
      | exact parseQueryChar_phase

theorem urlChar_moves {p : HttpParser} {s : State} {ch : Byte} {acts : List Act} {o : Out}
    (h : p.urlChar s ch acts = .ok o) :
    ch ≠ CR ∧ ch ≠ LF ∧ o = ⟨{ p with state := o.parser.state }, acts, false⟩ ∧
      o.parser.state.phase = .url := by
  rw [urlChar] at h
  split_ifs at h with hd
  cases h
  obtain ⟨h1, h2, h3⟩ := parseUrlChar_phase hd
  exact ⟨h2, h3, rfl, h1⟩

theorem headersDone_moves {p : HttpParser} {ch : Byte} {o : Out} (h : p.headersDone ch = .ok o) :
    ch = LF ∧ o.parser.flags = p.flags ∧ Ended o.acts o.exit o.parser.state.phase := by
  simp only [headersDone, goTo] at h
  split_ifs at h with hch <;> cases h <;> refine ⟨not_not.1 hch, rfl, ?_⟩
  · simp only [newMessage_phase]
    exact .message true
  · exact .body _ (.inl rfl)
  · simp only [newMessage_phase]
    exact .message false
  · exact .body _ (.inr rfl)
  · simp only [newMessage_phase]
    exact .message false
  · exact .body _ (.inr rfl)

theorem headersAlmostDone_moves {p : HttpParser} {ch : Byte} {o : Out} {ph : Phase}
    {acts : List Act} (hl : LastLine ph acts) (h : p.headersAlmostDone ch = .ok o) :
    Moves p.flags.trailing ph ch (acts ++ o.acts) o.exit o.parser.flags.trailing
      o.parser.state.phase := by
  simp only [headersAlmostDone] at h
  split_ifs at h with hch htr hcl
  · cases h
    simp only [newMessage_phase, htr]
    rw [not_not.1 hch]
    exact .trailer hl
  · obtain ⟨o', ho, rfl⟩ := after_ok h
    obtain ⟨hlf, hfl, hend⟩ := headersDone_moves ho
    simp only [hfl]
    rw [Bool.not_eq_true] at htr
    rw [hlf, htr]
    exact .header hl hend

theorem headerFieldStart_moves {p : HttpParser} {ch : Byte} {o : Out} {ph : Phase}
    {acts : List Act} (hl : LineHead ph acts) (h : p.headerFieldStart ch = .ok o) :
    Moves p.flags.trailing ph ch (acts ++ o.acts) o.exit o.parser.flags.trailing
      o.parser.state.phase := by
  simp only [headerFieldStart, goTo] at h
  split_ifs at h with hcr hlf htok
  · cases h
    rw [hcr, List.append_nil]
    exact .lastCr hl
  · exact headersAlmostDone_moves (.bare hl) h
  all_goals
    cases h
    exact .nameOpen hl htok

theorem headerValueStart_ok {p : HttpParser} {ch : Byte} {o : Out}
    (h : p.headerValueStart ch = .ok o) :
    o.acts = [.mark .headerValue] ∧ o.exit = false ∧
      o.parser.flags.trailing = p.flags.trailing ∧ o.parser.state = .headerValue := by
  simp only [headerValueStart, next] at h
  split at h <;> (try split_ifs at h) <;> cases h <;> exact ⟨rfl, rfl, rfl, rfl⟩

theorem finishFlags_trailing (fl : Flags) (hs : HeaderState) :
    (finishFlags fl hs).trailing = fl.trailing := by
  cases hs <;> rfl

theorem valueStep_ok {p p' : HttpParser} {ch : Byte} (h : p.valueStep ch = .ok p') :
    p'.state = p.state ∧ p'.flags.trailing = p.flags.trailing := by
  simp only [valueStep, contentLengthDigit] at h
  split at h <;> (try split_ifs at h) <;> cases h <;>
    (try simp only [connectionToken]) <;> (try split_ifs) <;>
    simp [finishFlags_trailing]

theorem expect_ok {p : HttpParser} {ch c : Byte} {s : State} {o : Out}
    (h : p.expect ch c s = .ok o) : ch = c ∧ o = ⟨{ p with state := s }, [], false⟩ := by
  simp only [expect, goTo] at h
  split_ifs at h with hch
  cases h
  exact ⟨hch, rfl⟩

theorem ne_of_isNum {ch : Byte} (h : isNum ch = true) : ch ≠ CR ∧ ch ≠ LF := by
  constructor <;> rintro rfl <;> exact absurd h (by decide)

/-- The states of the first line that read one expected byte. -/
theorem first_of_expect {p : HttpParser} {ch c : Byte} {s : State} {o : Out}
    (h : p.expect ch c s = .ok o) (hc : c ≠ CR ∧ c ≠ LF) (hs : s.phase = .first) :
    Moves p.flags.trailing .first ch o.acts o.exit o.parser.flags.trailing
      o.parser.state.phase := by
  obtain ⟨rfl, rfl⟩ := expect_ok h
  simp only [hs]
  exact .first hc.1 hc.2

theorem first_of_version {p : HttpParser} {ch : Byte} {s : State} {o : Out}
    (h : p.versionMajor ch s = .ok o ∨ p.versionDot ch s = .ok o ∨ p.versionMinor ch s = .ok o)
    (hs : s.phase = .first) :
    Moves p.flags.trailing .first ch o.acts o.exit o.parser.flags.trailing
      o.parser.state.phase := by
  simp only [versionMajor, versionDot, versionMinor, goTo] at h
  rcases h with h | h | h <;> split_ifs at h with hch <;> cases h <;> simp only [hs]
  · exact .first (ne_of_isNum hch).1 (ne_of_isNum hch).2
  · rw [hch]
    exact .first (by decide) (by decide)
  · exact .first (ne_of_isNum hch).1 (ne_of_isNum hch).2

theorem urlOpen_moves {p : HttpParser} {ch : Byte} {o : Out} (h : p.urlOpen ch = .ok o) :
    Moves p.flags.trailing .url ch o.acts o.exit o.parser.flags.trailing
      o.parser.state.phase := by
  simp only [urlOpen] at h
  split_ifs at h
  obtain ⟨hcr, hlf, ho, hph⟩ := urlChar_moves h
  rw [hph, ho]
  exact .url hcr hlf

theorem urlClosed_moves {p : HttpParser} {ch : Byte} {o : Out} (h : p.urlClosed ch = .ok o) :
    Moves p.flags.trailing .url ch o.acts o.exit o.parser.flags.trailing
      o.parser.state.phase := by
  simp only [urlClosed, goTo] at h
  split_ifs at h with hsp hnl hcr
  · cases h
    rw [hsp]
    exact .urlSpace
  · cases h
    rw [hcr]
    exact .urlCr
  · cases h
    rw [hnl.resolve_left hcr]
    exact .urlLf
  · obtain ⟨hcr, hlf, ho, hph⟩ := urlChar_moves h
    rw [hph, ho]
    exact .url hcr hlf

theorem resStatus_moves {p : HttpParser} {ch : Byte} {o : Out} (hp : p.state = .resStatus)
    (h : p.resStatus ch = .ok o) :
    Moves p.flags.trailing .first ch o.acts o.exit o.parser.flags.trailing
      o.parser.state.phase := by
  simp only [resStatus, goTo, next] at h
  split_ifs at h with hcr hlf <;> cases h
  · rw [hcr]
    exact .firstCr
  · rw [hlf]
    exact .firstLf
  · rw [hp]
    exact .first hcr hlf

theorem resStatusStart_moves {p : HttpParser} {ch : Byte} {o : Out}
    (h : p.resStatusStart ch = .ok o) :
    Moves p.flags.trailing .first ch o.acts o.exit o.parser.flags.trailing
      o.parser.state.phase := by
  simp only [resStatusStart, next] at h
  split_ifs at h with hnl
  · exact resStatus_moves (p := { p with state := .resStatus, index := 0 }) rfl h
  · cases h
    rw [not_or] at hnl
    exact .first hnl.1 hnl.2

theorem startReq_moves {p : HttpParser} {ch : Byte} {o : Out} (hp : p.state.phase = .start)
    (h : p.startReq ch = .ok o) :
    Moves p.flags.trailing .start ch o.acts o.exit o.parser.flags.trailing
      o.parser.state.phase := by
  simp only [startReq, goTo, next] at h
  split_ifs at h with hnl
  · cases h
    rw [hp]
    exact .skip hnl
  · rw [not_or] at hnl
    split at h <;> cases h
    exact .begin hnl.1 hnl.2

theorem startRes_moves {p : HttpParser} {ch : Byte} {o : Out} (hp : p.state.phase = .start)
    (h : p.startRes ch = .ok o) :
    Moves p.flags.trailing .start ch o.acts o.exit o.parser.flags.trailing
      o.parser.state.phase := by
  simp only [startRes, goTo, next] at h
  split_ifs at h with hnl hch <;> cases h
  · rw [hp]
    exact .skip hnl
  · rw [not_or] at hnl
    exact .begin hnl.1 hnl.2

theorem method_letters (m : HttpMethod) : CR ∉ str m.str ∧ LF ∉ str m.str := by
  cases m <;> decide

theorem reqMethod_ok {p : HttpParser} {ch : Byte} {o : Out} (hp : p.state = .reqMethod)
    (h : p.reqMethod ch = .ok o) :
    ch ≠ CR ∧ ch ≠ LF ∧ o.acts = [] ∧ o.exit = false ∧
      o.parser.flags.trailing = p.flags.trailing ∧ o.parser.state.phase = .first := by
  simp only [reqMethod, goTo, next] at h
  split_ifs at h with h0 hsp hm hlet
  · cases h
    rw [hsp.1]
    exact ⟨by decide, by decide, rfl, rfl, rfl, rfl⟩
  · cases h
    have hmem : ch ∈ str p.method.str := by
      rw [List.getD_eq_getElem?_getD] at hm
      cases hx : (str p.method.str)[p.index]? with
      | none => rw [hx] at hm; exact absurd hm h0
      | some x =>
        rw [hx] at hm
        rw [hm]
        exact List.mem_of_getElem? hx
    refine ⟨?_, ?_, rfl, rfl, rfl, by rw [hp]; rfl⟩
    · rintro rfl
      exact (method_letters _).1 hmem
    · rintro rfl
      exact (method_letters _).2 hmem
  · split at h <;> cases h
    refine ⟨?_, ?_, rfl, rfl, rfl, by rw [hp]; rfl⟩ <;> rintro rfl <;> exact absurd hlet (by decide)

/-! ## One step -/

/-- Without the counter, every step is one of the moves. -/
theorem dispatch_moves {p : HttpParser} {ch : Byte} {o : Out} (h : p.dispatch ch = .ok o) :
    Moves p.flags.trailing p.state.phase ch o.acts o.exit o.parser.flags.trailing
      o.parser.state.phase := by
  cases hst : p.state <;> simp only [dispatch, hst] at h
  case dead =>
    simp only [dead, next] at h
    split_ifs at h with hnl
    cases h
    rw [hst]
    exact .skip hnl
  case startReq => exact startReq_moves (by rw [hst]; rfl) h
  case startRes => exact startRes_moves (by rw [hst]; rfl) h
  case resH | resHT | resHTT | resHTTP | reqHttpH | reqHttpHT | reqHttpHTT | reqHttpHTTP
      | reqHttpI | reqHttpIC => exact first_of_expect h (by decide) rfl
  case resHttpMajor | reqHttpMajor => exact first_of_version (.inl h) rfl
  case resHttpDot | reqHttpDot => exact first_of_version (.inr (.inl h)) rfl
  case resHttpMinor | reqHttpMinor => exact first_of_version (.inr (.inr h)) rfl
  case resHttpEnd =>
    simp only [resHttpEnd, goTo] at h
    split_ifs at h with hsp
    cases h
    rw [hsp]
    exact .first (by decide) (by decide)
  case resFirstStatusCode =>
    simp only [resFirstStatusCode, goTo, next] at h
    split_ifs at h with hnum hsp <;> cases h
    · exact .first (ne_of_isNum hnum).1 (ne_of_isNum hnum).2
    · rw [hsp, hst]
      exact .first (by decide) (by decide)
  case resStatusCode =>
    simp only [resStatusCode, goTo, next] at h
    split_ifs at h with hnum hcode hsp hnl
    · cases h
      rw [hst]
      exact .first (ne_of_isNum hnum).1 (ne_of_isNum hnum).2
    · cases h
      rw [hsp]
      exact .first (by decide) (by decide)
    · exact resStatusStart_moves (p := { p with state := .resStatusStart }) h
  case resStatusStart => exact resStatusStart_moves h
  case resStatus => exact resStatus_moves hst h
  case resLineAlmostDone =>
    obtain ⟨rfl, rfl⟩ := expect_ok h
    exact .firstEol
  case headerValueDiscardWsAlmostDone =>
    obtain ⟨rfl, rfl⟩ := expect_ok h
    exact .fieldEol
  case reqMethod =>
    obtain ⟨hcr, hlf, hacts, hexit, htr, hph⟩ := reqMethod_ok hst h
    rw [hacts, hexit, htr, hph]
    exact .first hcr hlf
  case reqSpacesBeforeUrl =>
    simp only [reqSpacesBeforeUrl, next] at h
    split_ifs at h with hsp
    · cases h
      rw [hsp, hst]
      exact .first (by decide) (by decide)
    all_goals
      obtain ⟨hcr, hlf, ho, hph⟩ := urlChar_moves h
      rw [hph, ho]
      exact .urlOpen hcr hlf
  case reqSchema | reqSchemaSlash | reqSchemaSlashSlash | reqServerStart => exact urlOpen_moves h
  case reqServer | reqServerWithAt | reqPath | reqQueryStringStart | reqQueryString
      | reqFragmentStart | reqFragment => exact urlClosed_moves h
  case reqHttpStart =>
    simp only [reqHttpStart, goTo, next] at h
    split_ifs at h with hsp hh hi <;> cases h
    · rw [hsp, hst]
      exact .first (by decide) (by decide)
    · rw [hh]
      exact .first (by decide) (by decide)
    · rw [hi.1]
      exact .first (by decide) (by decide)
  case reqHttpEnd =>
    simp only [reqHttpEnd, goTo] at h
    split_ifs at h with hcr hlf <;> cases h
    · rw [hcr]
      exact .firstCr
    · rw [hlf]
      exact .firstLf
  case reqLineAlmostDone =>
    simp only [reqLineAlmostDone, goTo] at h
    split_ifs at h with hlf
    cases h
    rw [not_not.1 hlf]
    exact .firstEol
  case headerAlmostDone =>
    simp only [headerAlmostDone, goTo] at h
    split_ifs at h with hlf
    cases h
    rw [not_not.1 hlf]
    exact .fieldEol
  case headerFieldStart => exact headerFieldStart_moves .fresh h
  case headersAlmostDone => exact headersAlmostDone_moves .crlf h
  case headerField =>
    simp only [headerField, goTo, next] at h
    split_ifs at h with htok hcolon <;> cases h
    · rw [hst]
      exact .name htok
    · rw [hcolon]
      exact .colon
  case headerValueDiscardWs =>
    simp only [headerValueDiscardWs, goTo, next] at h
    split_ifs at h with hsp hcr hlf
    · cases h
      rw [hst]
      exact .gap hsp
    · cases h
      rw [hcr]
      exact .gapCr
    · cases h
      rw [hlf]
      exact .gapLf
    · obtain ⟨hacts, hexit, htr, hs⟩ := headerValueStart_ok h
      rw [hacts, hexit, htr, hs]
      exact .valueOpen hcr hlf
  case headerValueStart | headersDone | messageDone => exact .passing
  case headerValueDiscardLws =>
    simp only [headerValueDiscardLws, goTo] at h
    split_ifs at h with hsp
    · cases h
      exact .foldGap hsp
    · obtain ⟨o', ho, rfl⟩ := after_ok h
      have := headerFieldStart_moves .emptyValue ho
      rwa [finishFlags_trailing] at this
  case headerValueLws =>
    simp only [headerValueLws] at h
    split_ifs at h with hsp hcl
    · obtain ⟨hacts, hexit, htr, hs⟩ := headerValueStart_ok h
      rw [hacts, hexit, htr, hs]
      exact .foldValue hsp
    · obtain ⟨hacts, hexit, htr, hs⟩ := headerValueStart_ok h
      rw [hacts, hexit, htr, hs]
      exact .foldValue hsp
    · have := headerFieldStart_moves .field h
      rwa [finishFlags_trailing] at this
  case headerValue =>
    simp only [headerValue, headerAlmostDone, goTo, next] at h
    split_ifs at h with hcr hlf hlf' hch
    · cases h
      rw [hcr]
      exact .valueCr
    · exact absurd hlf hlf'
    · cases h
      rw [hlf]
      exact .valueLf
    · split at h
      · rename_i p' hp'
        cases h
        obtain ⟨hs, htr⟩ := valueStep_ok hp'
        rw [hs, htr, hst]
        exact .value hcr hlf
      · cases h
  case chunkSizeStart =>
    simp only [chunkSizeStart, goTo] at h
    split at h <;> cases h
    exact .framing (.inl rfl)
  case chunkSize =>
    simp only [chunkSize, goTo, next] at h
    cases hd : unhex ch with
    | none =>
      simp only [hd] at h
      split_ifs at h <;> cases h <;> exact .framing (.inl rfl)
    | some d =>
      simp only [hd] at h
      split_ifs at h <;> cases h
      · exact .framing (.inl rfl)
      · rw [hst]
        exact .framing (.inl rfl)
  case chunkParameters =>
    simp only [chunkParameters, goTo, next] at h
    split_ifs at h <;> cases h
    · exact .framing (.inl rfl)
    · rw [hst]
      exact .framing (.inl rfl)
  case chunkSizeAlmostDone =>
    simp only [chunkSizeAlmostDone, goTo] at h
    split_ifs at h with hlf <;> cases h
    · rw [not_not.1 hlf]
      exact .lastChunk
    · exact .framing (.inr rfl)
  case chunkData =>
    simp only [chunkData, goTo, next] at h
    split_ifs at h <;> cases h
    · exact .content
    · rw [hst]
      exact .content
  case chunkDataAlmostDone =>
    simp only [chunkDataAlmostDone, goTo] at h
    split_ifs at h
    cases h
    exact .contentEnd
  case chunkDataDone =>
    simp only [chunkDataDone, goTo] at h
    split_ifs at h
    cases h
    exact .framing (.inl rfl)
  case bodyIdentity =>
    simp only [bodyIdentity, messageDone, after, next] at h
    split_ifs at h <;> cases h
    · simp only [newMessage_phase]
      exact .contentMessage
    · rw [hst]
      exact .content
  case bodyIdentityEof =>
    cases h
    rw [hst]
    exact .content

/-- Every step is one of the moves. -/
theorem stepByte_moves {p : HttpParser} {ch : Byte} {o : Out} (h : p.stepByte ch = .ok o) :
    Moves p.flags.trailing p.state.phase ch o.acts o.exit o.parser.flags.trailing
      o.parser.state.phase := by
  rw [stepByte] at h
  split_ifs at h
  · exact dispatch_moves (p := { p with nread := p.nread + 1 }) h
  · exact dispatch_moves h

/-! ## What a byte of a header keeps -/

/-- What a byte of a header leaves as it is: the type, and the counter, unless the
header is complete. -/
def Kept (p : HttpParser) (o : Out) : Prop :=
  o.parser.type = p.type ∧
    (o.parser.nread = p.nread ∨ ∃ hp, Act.notify (.headersComplete hp) ∈ o.acts)

variable {p : HttpParser} {ch : Byte} {o : Out}

theorem headersAlmostDone_kept (h : p.headersAlmostDone ch = .ok o) : Kept p o := by
  simp only [headersAlmostDone] at h
  split_ifs at h
  · cases h
    exact ⟨rfl, .inl rfl⟩
  · obtain ⟨o', ho, rfl⟩ := after_ok h
    refine ⟨?_, .inr ⟨_, List.mem_append_left _ List.mem_cons_self⟩⟩
    simp only [headersDone, goTo] at ho
    split_ifs at ho <;> cases ho <;> rfl

theorem headerFieldStart_kept (h : p.headerFieldStart ch = .ok o) : Kept p o := by
  simp only [headerFieldStart, goTo] at h
  split_ifs at h
  · cases h
    exact ⟨rfl, .inl rfl⟩
  · exact headersAlmostDone_kept h
  all_goals
    cases h
    exact ⟨rfl, .inl rfl⟩

theorem headerValueStart_kept (h : p.headerValueStart ch = .ok o) : Kept p o := by
  simp only [headerValueStart, next] at h
  split at h <;> (try split_ifs at h) <;> cases h <;> exact ⟨rfl, .inl rfl⟩

theorem valueStep_kept {p' : HttpParser} (h : p.valueStep ch = .ok p') :
    p'.type = p.type ∧ p'.nread = p.nread := by
  simp only [valueStep, contentLengthDigit] at h
  split at h <;> (try split_ifs at h) <;> cases h <;>
    (try simp only [connectionToken]) <;> (try split_ifs) <;> simp

theorem resStatus_kept (h : p.resStatus ch = .ok o) : Kept p o := by
  simp only [resStatus, goTo, next] at h
  split_ifs at h <;> cases h <;> exact ⟨rfl, .inl rfl⟩

theorem resStatusStart_kept (h : p.resStatusStart ch = .ok o) : Kept p o := by
  simp only [resStatusStart, next] at h
  split_ifs at h
  · exact resStatus_kept (p := { p with state := .resStatus, index := 0 }) h
  · cases h
    exact ⟨rfl, .inl rfl⟩

theorem urlChar_kept {s : State} {acts : List Act} (h : p.urlChar s ch acts = .ok o) : Kept p o := by
  obtain ⟨-, -, ho, -⟩ := urlChar_moves h
  rw [ho]
  exact ⟨rfl, .inl rfl⟩

theorem dispatch_kept (h : p.dispatch ch = .ok o)
    (hph : p.state.phase ≠ .framing ∧ p.state.phase ≠ .content ∧ p.state.phase ≠ .passing) :
    Kept p o := by
  obtain ⟨h1, h2, h3⟩ := hph
  cases hst : p.state <;> simp only [dispatch, hst] at h
  case chunkSizeStart | chunkSize | chunkParameters | chunkSizeAlmostDone | chunkDataDone =>
    exact absurd (by rw [hst]; rfl) h1
  case chunkData | chunkDataAlmostDone | bodyIdentity | bodyIdentityEof =>
    exact absurd (by rw [hst]; rfl) h2
  case headerValueStart | headersDone | messageDone => exact absurd (by rw [hst]; rfl) h3
  case headersAlmostDone => exact headersAlmostDone_kept h
  case headerFieldStart => exact headerFieldStart_kept h
  case resStatus => exact resStatus_kept h
  case resStatusStart => exact resStatusStart_kept h
  case headerValueDiscardLws =>
    simp only [headerValueDiscardLws, goTo] at h
    split_ifs at h
    · cases h
      exact ⟨rfl, .inl rfl⟩
    · obtain ⟨o', ho, rfl⟩ := after_ok h
      obtain ⟨ht, hn | ⟨hp, hn⟩⟩ := headerFieldStart_kept ho
      · exact ⟨ht, .inl hn⟩
      · exact ⟨ht, .inr ⟨hp, List.mem_append_right _ hn⟩⟩
  case headerValueLws =>
    simp only [headerValueLws] at h
    split_ifs at h
    · exact headerValueStart_kept (p := { p with headerState := .contentLengthWs }) h
    · exact headerValueStart_kept h
    · exact headerFieldStart_kept
        (p := { p with flags := finishFlags p.flags p.headerState, state := .headerFieldStart }) h
  case headerValueDiscardWs =>
    simp only [headerValueDiscardWs, goTo, next] at h
    split_ifs at h
    any_goals cases h; exact ⟨rfl, .inl rfl⟩
    exact headerValueStart_kept h
  case headerValue =>
    simp only [headerValue, headerAlmostDone, goTo, next, after] at h
    split_ifs at h
    any_goals cases h; exact ⟨rfl, .inl rfl⟩
    split at h
    · rename_i p' hp'
      cases h
      obtain ⟨ht, hn⟩ := valueStep_kept hp'
      exact ⟨ht, .inl hn⟩
    · cases h
  case resStatusCode =>
    simp only [resStatusCode, goTo, next] at h
    split_ifs at h
    any_goals cases h; exact ⟨rfl, .inl rfl⟩
    exact resStatusStart_kept (p := { p with state := .resStatusStart }) h
  case reqSpacesBeforeUrl =>
    simp only [reqSpacesBeforeUrl, next] at h
    split_ifs at h
    any_goals cases h; exact ⟨rfl, .inl rfl⟩
    all_goals exact urlChar_kept h
  case reqSchema | reqSchemaSlash | reqSchemaSlashSlash | reqServerStart =>
    simp only [urlOpen] at h
    split_ifs at h
    exact urlChar_kept h
  case reqServer | reqServerWithAt | reqPath | reqQueryStringStart | reqQueryString
      | reqFragmentStart | reqFragment =>
    simp only [urlClosed, goTo] at h
    split_ifs at h
    any_goals cases h; exact ⟨rfl, .inl rfl⟩
    all_goals exact urlChar_kept h
  case startReq =>
    simp only [startReq, goTo, next] at h
    split_ifs at h
    · cases h
      exact ⟨rfl, .inl rfl⟩
    · split at h <;> cases h
      exact ⟨rfl, .inl rfl⟩
  case reqMethod =>
    simp only [reqMethod, goTo, next] at h
    split_ifs at h
    any_goals cases h; exact ⟨rfl, .inl rfl⟩
    split at h <;> cases h
    exact ⟨rfl, .inl rfl⟩
  all_goals
    simp only [dead, startRes, expect, versionMajor, versionMinor, versionDot, resHttpEnd,
      resFirstStatusCode, reqHttpStart, reqHttpEnd, reqLineAlmostDone, headerField, headerAlmostDone,
      goTo, next] at h
    split_ifs at h <;> cases h <;> exact ⟨rfl, .inl rfl⟩

/-- Every byte of a header is counted, up to `HTTP_MAX_HEADER_SIZE`. -/
theorem stepByte_kept (h : p.stepByte ch = .ok o)
    (hph : p.state.phase ≠ .framing ∧ p.state.phase ≠ .content ∧ p.state.phase ≠ .passing) :
    o.parser.type = p.type ∧ p.nread + 1 ≤ HTTP_MAX_HEADER_SIZE ∧
      (o.parser.nread = p.nread + 1 ∨ ∃ hp, Act.notify (.headersComplete hp) ∈ o.acts) := by
  have hpar : p.state.parsingHeader = true := by
    obtain ⟨h1, h2, h3⟩ := hph
    revert h1 h2 h3
    cases p.state <;> simp [State.phase, State.parsingHeader]
  rw [stepByte, if_pos hpar] at h
  split_ifs at h with hlen
  obtain ⟨ht, hn⟩ := dispatch_kept h hph
  exact ⟨ht, by omega, hn⟩

end HttpParser

end HttpProxy
