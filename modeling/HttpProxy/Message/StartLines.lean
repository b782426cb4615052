import HttpProxy.Message.Cookies
import HttpProxy.Message.Lines
import HttpProxy.Message.Wire

/-!
# First lines that are written and read again

The first line of a request or of a response in the form in which `restore_http_header`
writes it, and what every first line that has been read is made of: a url that the
http-parser accepts again, a status code of at most three digits.

* `Begins` — bytes of a first line that are read.
* `begins_requestLine`, `begins_statusLine` — the two lines.
* `IsHeader.urlAccepted`, `IsHeader.status_le` — what has been read.
-/

namespace HttpProxy

open HttpParser SrsHttpMessage

namespace Head

/-! ## Bytes of a first line -/

/-- The parser in the first line of a message. -/
structure InFirst (m : HttpMethod) (code : Nat) (s : State) (p : HttpParser) : Prop where
  state : p.state = s
  method : p.method = m
  status : p.statusCode = code
  flags : p.flags = .none
  length : p.contentLength = ULLONG_MAX

/-- The bytes are read, and lead to a parser with a property and to a header. -/
def Begins (p : HttpParser) (h : Head) (bs : Bytes) (S : HttpParser → Prop) (h' : Head) : Prop :=
  ∃ p', read p h bs = .ok ⟨p', h', bs.length, false⟩ ∧ S p' ∧ p'.nread = p.nread + bs.length

variable {p : HttpParser} {h h' h'' : Head} {ch : Byte} {as bs x : Bytes} {S S' : HttpParser → Prop}
  {m : HttpMethod} {code : Nat} {s t : State}

theorem Begins.nil (hS : S p) : Begins p h [] S h := ⟨p, rfl, hS, rfl⟩

theorem Begins.append (h₁ : Begins p h as S h')
    (h₂ : ∀ p', S p' → p'.nread = p.nread + as.length → Begins p' h' bs S' h'') :
    Begins p h (as ++ bs) S' h'' := by
  obtain ⟨p₁, hr₁, hs₁, hn₁⟩ := h₁
  obtain ⟨p₂, hr₂, hs₂, hn₂⟩ := h₂ p₁ hs₁ hn₁
  refine ⟨p₂, ?_, hs₂, ?_⟩
  · rw [read_append, hr₁]
    simp only [Bool.false_eq_true, if_false, hr₂, Except.map, Reading.more, List.length_append,
      Nat.add_comm]
  · rw [hn₂, hn₁, List.length_append, Nat.add_assoc]

theorem Begins.cons (h₁ : Begins p h [ch] S h')
    (h₂ : ∀ p', S p' → p'.nread = p.nread + 1 → Begins p' h' bs S' h'') :
    Begins p h (ch :: bs) S' h'' := by
  rw [← List.singleton_append]
  exact h₁.append h₂

/-- One byte, if there is room for it. -/
theorem begins_byte (p' : HttpParser) (acts : List Act) (hpar : p.state.parsingHeader = true)
    (hroom : p.nread + 1 ≤ HTTP_MAX_HEADER_SIZE)
    (hd : (counted p).dispatch ch = .ok ⟨p', acts, false⟩) (hn : p'.nread = p.nread + 1)
    (hh : h.step acts p'.state.phase ch = h') (hS : S p') : Begins p h [ch] S h' := by
  have hs : p.stepByte ch = .ok ⟨p', acts, false⟩ := by
    rw [stepByte, if_pos hpar, if_neg (by omega)]
    exact hd
  refine ⟨p', ?_, hS, hn⟩
  rw [read_singleton hs, hh]
  rfl

/-- In the state the byte is read and leads to the other state. -/
def Step (m : HttpMethod) (code : Nat) (s : State) (ch : Byte) (t : State) : Prop :=
  s.parsingHeader = true ∧ ∀ p, InFirst m code s p →
    ∃ p' acts, p.dispatch ch = .ok ⟨p', acts, false⟩ ∧ InFirst m code t p' ∧ p'.nread = p.nread ∧
      ∀ h : Head, h.step acts t.phase ch = h

/-- The bytes lead from one state to the other. -/
def Route (m : HttpMethod) (code : Nat) : State → List (Byte × State) → State → Prop
  | s, [], t => s = t
  | s, (ch, s') :: l, t => Step m code s ch s' ∧ Route m code s' l t

theorem begins_route {l : List (Byte × State)} (hp : InFirst m code s p) (hl : Route m code s l t)
    (hroom : p.nread + l.length ≤ HTTP_MAX_HEADER_SIZE) :
    Begins p h (l.map Prod.fst) (InFirst m code t) h := by
  induction l generalizing p s with
  | nil =>
    cases hl
    exact Begins.nil hp
  | cons e l ih =>
    obtain ⟨ch, s'⟩ := e
    obtain ⟨⟨hpar, hstep⟩, hl⟩ := hl
    rw [List.length_cons] at hroom
    obtain ⟨p', acts, hd, hp', hn, hh⟩ :=
      hstep (counted p) ⟨hp.state, hp.method, hp.status, hp.flags, hp.length⟩
    have hbyte : Begins p h [ch] (InFirst m code s') h :=
      begins_byte p' acts (by rw [hp.state]; exact hpar) (by omega) hd hn
        (by rw [hp'.state]; exact hh h) hp'
    refine hbyte.cons fun p₁ hp₁ hn₁ => ih hp₁ hl ?_
    rw [hn₁]
    omega

/-- A byte that only changes the state. -/
theorem step_goTo (hpar : s.parsingHeader = true) (htok : t.phase.token = none)
    (hd : ∀ p : HttpParser, p.state = s → p.dispatch ch = p.goTo t []) : Step m code s ch t := by
  refine ⟨hpar, fun p hp => ⟨{ p with state := t }, [], hd p hp.state, ?_, rfl, fun h => ?_⟩⟩
  · exact ⟨rfl, hp.method, hp.status, hp.flags, hp.length⟩
  · simp only [step, List.foldl_nil, htok]
    rfl

/-! ## The url -/

/-- The state in which a url begins. -/
def urlStart (m : HttpMethod) : State :=
  if m = .connect then .reqServerStart else .reqSpacesBeforeUrl

/-- The state behind a url. -/
def urlRun (s : State) (u : Bytes) : State := u.foldl parseUrlChar s

/-- A url may end in the state. -/
def isUrlClosed : State → Bool
  | .reqServer | .reqServerWithAt | .reqPath | .reqQueryStringStart | .reqQueryString
  | .reqFragmentStart | .reqFragment => true
  | _ => false

theorem urlRun_cons (s : State) (ch : Byte) (u : Bytes) :
    urlRun s (ch :: u) = urlRun (parseUrlChar s ch) u := rfl

theorem urlRun_snoc (s : State) (u : Bytes) (ch : Byte) :
    urlRun s (u ++ [ch]) = parseUrlChar (urlRun s u) ch := by
  simp [urlRun]

theorem urlRun_dead (u : Bytes) : urlRun .dead u = .dead := by
  induction u with
  | nil => rfl
  | cons ch u ih =>
    have hdead : parseUrlChar .dead ch = .dead := ite_self _
    rw [urlRun_cons, hdead, ih]

theorem ne_dead_of_urlRun (hu : urlRun s (ch :: x) ≠ .dead) : parseUrlChar s ch ≠ .dead := by
  intro hd
  rw [urlRun_cons, hd] at hu
  exact hu (urlRun_dead x)

theorem ne_of_parseUrlChar (hd : parseUrlChar s ch ≠ .dead) : ch ≠ chr ' ' ∧ ch ≠ CR ∧ ch ≠ LF := by
  have hblank : ¬ (ch = chr ' ' ∨ ch = CR ∨ ch = LF ∨ ch = 9 ∨ ch = 12) := by
    intro hb
    apply hd
    unfold parseUrlChar
    rw [if_pos hb]
  simp only [not_or] at hblank
  exact ⟨hblank.1, hblank.2.1, hblank.2.2.1⟩

theorem dispatch_url (hp : p.state = s) (hs : s.phase = .url) (hd : parseUrlChar s ch ≠ .dead) :
    p.dispatch ch = .ok ⟨{ p with state := parseUrlChar s ch }, [], false⟩ := by
  obtain ⟨hsp, hcr, hlf⟩ := ne_of_parseUrlChar hd
  have hchar : p.urlChar p.state ch [] = .ok ⟨{ p with state := parseUrlChar s ch }, [], false⟩ := by
    rw [urlChar, hp, if_neg hd]
    rfl
  have hopen : p.urlOpen ch = .ok ⟨{ p with state := parseUrlChar s ch }, [], false⟩ := by
    rw [urlOpen, if_neg (by simp [hsp, hcr, hlf]), hchar]
  have hclosed : p.urlClosed ch = .ok ⟨{ p with state := parseUrlChar s ch }, [], false⟩ := by
    rw [urlClosed, if_neg hsp, if_neg (by simp [hcr, hlf]), hchar]
  unfold dispatch
  rw [hp]
  cases s <;> first | exact hopen | exact hclosed | cases hs

/-- More bytes of a url. -/
theorem begins_urlRest (hp : InFirst m code s p) (hs : s.phase = .url) (hu : urlRun s x ≠ .dead)
    (hroom : p.nread + x.length ≤ HTTP_MAX_HEADER_SIZE) :
    Begins p h x (InFirst m code (urlRun s x)) { h with url := h.url ++ x } := by
  induction x generalizing p h s with
  | nil =>
    have := Begins.nil (h := h) hp
    simpa [urlRun] using this
  | cons ch x ih =>
    rw [List.length_cons] at hroom
    have hd := ne_dead_of_urlRun hu
    have hphase : (parseUrlChar s ch).phase = .url := (parseUrlChar_phase hd).1
    have hpar : p.state.parsingHeader = true := by
      rw [hp.state]
      revert hs
      cases s <;> simp [State.phase, State.parsingHeader]
    have hbyte : Begins p h [ch] (InFirst m code (parseUrlChar s ch))
        { h with url := h.url ++ [ch] } := by
      refine begins_byte _ _ hpar (by omega) (dispatch_url (p := counted p) hp.state hs hd) rfl ?_
        ⟨rfl, hp.method, hp.status, hp.flags, hp.length⟩
      simp only [step, List.foldl_nil, hphase]
      rfl
    refine hbyte.cons fun p₁ hp₁ hn₁ => ?_
    have := ih (h := { h with url := h.url ++ [ch] }) hp₁ hphase hu
      (by rw [hn₁]; omega)
    rwa [List.append_assoc] at this

/-- A url. -/
theorem begins_url {u : Bytes} (hp : InFirst m code .reqSpacesBeforeUrl p) (hnil : h.url = [])
    (hu : isUrlClosed (urlRun (urlStart m) u) = true)
    (hroom : p.nread + u.length ≤ HTTP_MAX_HEADER_SIZE) :
    Begins p h u (InFirst m code (urlRun (urlStart m) u)) { h with url := u } := by
  have hdead : urlRun (urlStart m) u ≠ .dead := by
    intro hd
    rw [hd] at hu
    cases hu
  cases u with
  | nil =>
    exfalso
    revert hu
    unfold urlRun urlStart
    split_ifs <;> exact fun h => absurd h (by decide)
  | cons ch x =>
    rw [List.length_cons] at hroom
    have hd := ne_dead_of_urlRun hdead
    have hphase : (parseUrlChar (urlStart m) ch).phase = .url := (parseUrlChar_phase hd).1
    have hsp : ch ≠ chr ' ' := (ne_of_parseUrlChar hd).1
    have hbyte : Begins p h [ch] (InFirst m code (parseUrlChar (urlStart m) ch))
        { h with url := [ch] } := by
      refine begins_byte { counted p with state := parseUrlChar (urlStart m) ch } [.mark .url]
        (by rw [hp.state]; rfl) (by omega) ?_ rfl ?_
        ⟨rfl, hp.method, hp.status, hp.flags, hp.length⟩
      · have hmethod : (counted p).method = m := hp.method
        have hstart : (if (counted p).method = .connect then State.reqServerStart
            else .reqSpacesBeforeUrl) = urlStart m := by rw [hmethod, urlStart]
        simp only [dispatch, show (counted p).state = .reqSpacesBeforeUrl from hp.state,
          reqSpacesBeforeUrl, hstart]
        rw [if_neg hsp, urlChar, if_neg hd]
        rfl
      · simp only [step, hphase]
        show { h with url := h.url ++ [ch] } = _
        rw [hnil]
        rfl
    refine hbyte.cons fun p₁ hp₁ hn₁ => ?_
    exact begins_urlRest (h := { h with url := [ch] }) hp₁ hphase hdead
      (by rw [hn₁]; omega)

/-! ## The line of a request -/

/-- The version of a request, and the end of its first line. -/
def versionRoute : List (Byte × State) :=
  [(chr 'H', .reqHttpH), (chr 'T', .reqHttpHT), (chr 'T', .reqHttpHTT), (chr 'P', .reqHttpHTTP),
    (chr '/', .reqHttpMajor), (chr '1', .reqHttpDot), (chr '.', .reqHttpMinor), (chr '1', .reqHttpEnd),
    (CR, .reqLineAlmostDone), (LF, .headerFieldStart)]

theorem step_reqMajor : Step m code .reqHttpMajor (chr '1') .reqHttpDot := by
  refine ⟨rfl, fun p hp => ⟨{ p with httpMajor := 1, state := .reqHttpDot }, [], ?_, ?_, rfl,
    fun h => rfl⟩⟩
  · simp only [dispatch, hp.state]
    rfl
  · exact ⟨rfl, hp.method, hp.status, hp.flags, hp.length⟩

theorem step_reqMinor : Step m code .reqHttpMinor (chr '1') .reqHttpEnd := by
  refine ⟨rfl, fun p hp => ⟨{ p with httpMinor := 1, state := .reqHttpEnd }, [], ?_, ?_, rfl,
    fun h => rfl⟩⟩
  · simp only [dispatch, hp.state]
    rfl
  · exact ⟨rfl, hp.method, hp.status, hp.flags, hp.length⟩

theorem route_version : Route m code .reqHttpStart versionRoute .headerFieldStart := by
  refine ⟨?_, ?_, ?_, ?_, ?_, step_reqMajor, ?_, step_reqMinor, ?_, ?_, rfl⟩
  all_goals
    refine step_goTo rfl rfl fun p hp => ?_
    simp only [dispatch, hp]
    rfl

/-- The space behind the url. -/
theorem step_urlEnd (hs : isUrlClosed s = true) : Step m code s (chr ' ') .reqHttpStart := by
  refine ⟨by revert hs; cases s <;> simp [isUrlClosed, State.parsingHeader], fun p hp => ?_⟩
  have hclosed : p.urlClosed (chr ' ') =
      .ok ⟨{ p with state := .reqHttpStart }, [.data .url 0], false⟩ := by
    rw [urlClosed, if_pos rfl]
    rfl
  refine ⟨{ p with state := .reqHttpStart }, [.data .url 0], ?_, ?_, rfl, fun h => rfl⟩
  · unfold dispatch
    rw [hp.state]
    cases s <;> first | exact hclosed | cases hs
  · exact ⟨rfl, hp.method, hp.status, hp.flags, hp.length⟩

/-- The method and the space behind it. -/
theorem begins_method (hm : restoredMethod m ≠ []) :
    Begins (.init .request) .empty (restoredMethod m ++ str " ") (InFirst m 0 .reqSpacesBeforeUrl)
      .empty := by
  cases m <;> first
    | exact absurd rfl hm
    | exact ⟨_, rfl, ⟨rfl, rfl, rfl, rfl, rfl⟩, rfl⟩

/-- The first line of a restored request. -/
def requestLine (m : HttpMethod) (u : Bytes) : Bytes :=
  restoredMethod m ++ str " " ++ u ++ str " HTTP/1.1" ++ crlf

/-- **The first line of a request** that is written. -/
theorem begins_requestLine {u : Bytes} (hm : restoredMethod m ≠ [])
    (hu : isUrlClosed (urlRun (urlStart m) u) = true)
    (hroom : (requestLine m u).length ≤ HTTP_MAX_HEADER_SIZE) :
    Begins (.init .request) .empty (requestLine m u) (InFirst m 0 .headerFieldStart)
      { Head.empty with url := u } := by
  have hword : str " HTTP/1.1" ++ crlf = [chr ' '] ++ versionRoute.map Prod.fst := rfl
  have hlen : (versionRoute.map Prod.fst).length = 10 := rfl
  have hzero : (HttpParser.init .request).nread = 0 := rfl
  unfold requestLine at hroom ⊢
  rw [List.append_assoc _ (str " HTTP/1.1"), hword] at hroom ⊢
  simp only [List.length_append, List.length_singleton, hlen] at hroom
  have hurl : Begins (.init .request) .empty (restoredMethod m ++ str " " ++ u)
      (InFirst m 0 (urlRun (urlStart m) u)) { Head.empty with url := u } := by
    refine (begins_method hm).append fun p₁ hp₁ hn₁ => begins_url hp₁ rfl hu ?_
    rw [hn₁, hzero, List.length_append]
    omega
  refine hurl.append fun p₂ hp₂ hn₂ => ?_
  simp only [List.length_append, hzero] at hn₂
  have hroute : Route m 0 (urlRun (urlStart m) u) ((chr ' ', .reqHttpStart) :: versionRoute)
      .headerFieldStart := ⟨step_urlEnd hu, route_version⟩
  refine begins_route hp₂ hroute ?_
  rw [hn₂, List.length_cons, show versionRoute.length = 10 from rfl]
  omega

/-! ## The line of a response -/

theorem digitsValue_singleton {c : Byte} (hc : HttpProxy.isNum c = true) :
    digitsValue 10 [c] = (c - chr '0').toNat := by
  have := digitsValue_append 10 [] c
  rw [List.nil_append, (digitVal_isNum c hc).1] at this
  rw [this]
  simp [digitsValue]

theorem digitsValue_le_append (ds y : Bytes) : digitsValue 10 ds ≤ digitsValue 10 (ds ++ y) := by
  cases y with
  | nil => rw [List.append_nil]
  | cons c y => exact (digitsValue_le_div ds c y).trans (Nat.div_le_self _ _)

/-- The first digit of a status code. -/
theorem begins_firstDigit {c : Byte} (hp : InFirst m code .resFirstStatusCode p)
    (hc : HttpProxy.isNum c = true) (hroom : p.nread + 1 ≤ HTTP_MAX_HEADER_SIZE) :
    Begins p h [c] (InFirst m (digitsValue 10 [c]) .resStatusCode) h := by
  rw [digitsValue_singleton hc]
  refine begins_byte { counted p with statusCode := (c - chr '0').toNat, state := .resStatusCode } []
    (by rw [hp.state]; rfl) hroom ?_ rfl rfl ⟨rfl, hp.method, rfl, hp.flags, hp.length⟩
  simp only [dispatch, show (counted p).state = .resFirstStatusCode from hp.state, resFirstStatusCode,
    if_pos hc]
  rfl

/-- More digits of a status code. -/
theorem begins_digits {a : Bytes} (hp : InFirst m (digitsValue 10 a) .resStatusCode p)
    (hx : ∀ c ∈ x, HttpProxy.isNum c = true) (hle : digitsValue 10 (a ++ x) ≤ 999)
    (hroom : p.nread + x.length ≤ HTTP_MAX_HEADER_SIZE) :
    Begins p h x (InFirst m (digitsValue 10 (a ++ x)) .resStatusCode) h := by
  induction x generalizing p a with
  | nil =>
    rw [List.append_nil]
    exact Begins.nil hp
  | cons c x ih =>
    rw [List.length_cons] at hroom
    have hc : HttpProxy.isNum c = true := hx c (by simp)
    have hsplit : a ++ c :: x = (a ++ [c]) ++ x := by simp
    rw [hsplit] at hle ⊢
    have hvalue : digitsValue 10 (a ++ [c]) = digitsValue 10 a * 10 + (c - chr '0').toNat := by
      rw [digitsValue_append, (digitVal_isNum c hc).1]
      rfl
    have hsmall : ¬ 999 < digitsValue 10 a * 10 + (c - chr '0').toNat := by
      rw [← hvalue]
      have := digitsValue_le_append (a ++ [c]) x
      omega
    have hbyte : Begins p h [c] (InFirst m (digitsValue 10 (a ++ [c])) .resStatusCode) h := by
      rw [hvalue]
      refine begins_byte { counted p with statusCode := digitsValue 10 a * 10 + (c - chr '0').toNat } []
        (by rw [hp.state]; rfl) (by omega) ?_ rfl (by simp only [counted, hp.state]; rfl)
        ⟨hp.state, hp.method, rfl, hp.flags, hp.length⟩
      have hcode : (counted p).statusCode = digitsValue 10 a := hp.status
      simp only [dispatch, show (counted p).state = .resStatusCode from hp.state, resStatusCode,
        if_pos hc, hcode, if_neg hsmall]
      rfl
    refine hbyte.cons fun p₁ hp₁ hn₁ => ?_
    exact ih hp₁ (fun d hd => hx d (List.mem_cons_of_mem _ hd)) hle
      (by rw [hn₁]; omega)

/-- In the reason phrase, or in front of it. -/
def InReason (m : HttpMethod) (code : Nat) (p : HttpParser) : Prop :=
  InFirst m code .resStatusStart p ∨ InFirst m code .resStatus p

/-- A reason phrase. -/
theorem begins_reason (hp : InReason m code p) (hx : ∀ c ∈ x, c ≠ CR ∧ c ≠ LF)
    (hroom : p.nread + x.length ≤ HTTP_MAX_HEADER_SIZE) : Begins p h x (InReason m code) h := by
  induction x generalizing p with
  | nil => exact Begins.nil hp
  | cons c x ih =>
    rw [List.length_cons] at hroom
    obtain ⟨hcr, hlf⟩ := hx c (by simp)
    have hbyte : Begins p h [c] (InReason m code) h := by
      rcases hp with hp | hp
      · refine begins_byte { counted p with state := .resStatus, index := 0 } []
          (by rw [hp.state]; rfl) (by omega) ?_ rfl rfl
          (.inr ⟨rfl, hp.method, hp.status, hp.flags, hp.length⟩)
        simp only [dispatch, show (counted p).state = .resStatusStart from hp.state, resStatusStart]
        rw [if_neg (by simp [hcr, hlf])]
        rfl
      · refine begins_byte (counted p) [] (by rw [hp.state]; rfl) (by omega) ?_ rfl
          (by simp only [counted, hp.state]; rfl)
          (.inr ⟨hp.state, hp.method, hp.status, hp.flags, hp.length⟩)
        simp only [dispatch, show (counted p).state = .resStatus from hp.state, resStatus, if_neg hcr,
          if_neg hlf]
        rfl
    refine hbyte.cons fun p₁ hp₁ hn₁ => ?_
    exact ih hp₁ (fun d hd => hx d (List.mem_cons_of_mem _ hd))
      (by rw [hn₁]; omega)

/-- The end of the line. -/
theorem begins_reasonEnd (hp : InReason m code p) (hroom : p.nread + 2 ≤ HTTP_MAX_HEADER_SIZE) :
    Begins p h crlf (InFirst m code .headerFieldStart) h := by
  have hlf : Route m code .resLineAlmostDone [(LF, .headerFieldStart)] .headerFieldStart := by
    refine ⟨step_goTo rfl rfl fun p hp => ?_, rfl⟩
    simp only [dispatch, hp]
    rfl
  have hcr : Begins p h [CR] (InFirst m code .resLineAlmostDone) h := by
    rcases hp with hp | hp
    · refine begins_byte { counted p with state := .resLineAlmostDone, index := 0 } []
        (by rw [hp.state]; rfl) (by omega) ?_ rfl rfl
        ⟨rfl, hp.method, hp.status, hp.flags, hp.length⟩
      simp only [dispatch, show (counted p).state = .resStatusStart from hp.state, resStatusStart]
      rfl
    · refine begins_byte { counted p with state := .resLineAlmostDone } []
        (by rw [hp.state]; rfl) (by omega) ?_ rfl rfl
        ⟨rfl, hp.method, hp.status, hp.flags, hp.length⟩
      simp only [dispatch, show (counted p).state = .resStatus from hp.state]
      rfl
  refine hcr.cons fun p₁ hp₁ hn₁ => begins_route hp₁ hlf ?_
  rw [hn₁]
  exact hroom

theorem begins_version :
    Begins (.init .response) .empty (str "HTTP/1.1 ")
      (InFirst (HttpParser.init .response).method 0 .resFirstStatusCode) .empty :=
  ⟨_, rfl, ⟨rfl, rfl, rfl, rfl, rfl⟩, rfl⟩

/-- No reason phrase has a line end in it. -/
theorem statusText_line (status : Int) : ∀ c ∈ srsGenerateHttpStatusText status, c ≠ CR ∧ c ≠ LF := by
  have htable : ∀ e ∈ statusMap, LF ∉ str e.2 := by decide
  have hlf : LF ∉ srsGenerateHttpStatusText status := by
    unfold srsGenerateHttpStatusText
    cases hl : statusMap.lookup status with
    | none => decide
    | some text =>
      obtain ⟨l₁, l₂, heq, -⟩ := List.lookup_eq_some_iff.1 hl
      exact htable (status, text) (by rw [heq]; simp)
  intro c hc
  constructor <;> rintro rfl
  · exact (statusText_plain status).1 hc
  · exact hlf hc

/-- **The first line of a response** that is written. -/
theorem begins_statusLine {status : Nat} (hle : status ≤ 999)
    (hroom : (statusLine status ++ crlf).length ≤ HTTP_MAX_HEADER_SIZE) :
    Begins (.init .response) .empty (statusLine status ++ crlf)
      (InFirst (HttpParser.init .response).method status .headerFieldStart) .empty := by
  have hzero : (HttpParser.init .response).nread = 0 := rfl
  obtain ⟨c, x, hdec⟩ := List.exists_cons_of_ne_nil (SrsHttpHeader.decimal_ne_nil status)
  have hvalue : digitsValue 10 ([c] ++ x) = status := by
    rw [List.singleton_append, ← hdec, SrsHttpHeader.digitsValue_decimal]
  have hnum : ∀ d ∈ c :: x, HttpProxy.isNum d = true := fun d hd => decimal_isNum (hdec ▸ hd)
  unfold statusLine at hroom ⊢
  simp only [List.length_append, show crlf.length = 2 from rfl] at hroom
  have hdigits : Begins (.init .response) .empty (str "HTTP/1.1 " ++ SrsHttpHeader.decimal status)
      (InFirst (HttpParser.init .response).method status .resStatusCode) .empty := by
    refine begins_version.append fun p₁ hp₁ hn₁ => ?_
    rw [hzero] at hn₁
    rw [hdec, List.length_cons] at hroom
    rw [hdec]
    refine (begins_firstDigit hp₁ (hnum c (by simp)) (by omega)).cons fun p₂ hp₂ hn₂ => ?_
    have := begins_digits (h := .empty) hp₂ (fun d hd => hnum d (List.mem_cons_of_mem _ hd))
      (by rw [hvalue]; exact hle) (by rw [hn₂]; omega)
    rwa [hvalue] at this
  have hspace : Route (HttpParser.init .response).method status .resStatusCode
      [(chr ' ', .resStatusStart)] .resStatusStart := by
    refine ⟨step_goTo rfl rfl fun p hp => ?_, rfl⟩
    simp only [dispatch, hp]
    rfl
  have hstart : Begins (.init .response) .empty
      (str "HTTP/1.1 " ++ SrsHttpHeader.decimal status ++ str " ")
      (InReason (HttpParser.init .response).method status) .empty := by
    refine hdigits.append fun p₁ hp₁ hn₁ => ?_
    rw [hzero, List.length_append] at hn₁
    obtain ⟨p₂, hr, hp₂, hn₂⟩ := begins_route (h := .empty) hp₁ hspace (by
      rw [hn₁, List.length_singleton]
      omega)
    exact ⟨p₂, hr, .inl hp₂, hn₂⟩
  have hreason : Begins (.init .response) .empty
      (str "HTTP/1.1 " ++ SrsHttpHeader.decimal status ++ str " " ++ srsGenerateHttpStatusText status)
      (InReason (HttpParser.init .response).method status) .empty := by
    refine hstart.append fun p₁ hp₁ hn₁ => begins_reason hp₁ (statusText_line status) ?_
    rw [hn₁, hzero]
    simp only [List.length_append]
    omega
  refine hreason.append fun p₁ hp₁ hn₁ => begins_reasonEnd hp₁ ?_
  rw [hn₁, hzero]
  simp only [List.length_append]
  omega

/-- Behind the first line the fields begin. -/
theorem inside_start {u : Bytes} (hp : InFirst m code .headerFieldStart p) :
    Inside p p { Head.empty with url := u } := by
  have hnone : LengthIs p (Begun p { Head.empty with url := u }) [] :=
    ⟨by rw [hp.flags]; rfl, fun _ => hp.length⟩
  refine ⟨by rw [hp.state]; rfl, Says.of_none rfl rfl (by rw [hp.flags]; rfl) hnone
    fun _ _ => hp.flags, ?_, rfl, by simp [empty], rfl, rfl⟩
  rw [hp.state, hp.flags]
  exact ⟨by simp [empty], by simp [inField, State.phase], by simp [State.phase], by decide,
    fun _ => ⟨rfl, rfl, by decide, by decide⟩⟩

/-! ## First lines that have been read -/

variable {o : Out} {r : Reading}

/-- What is known of the url of a request: nothing is read, the state is the one behind it, or
it may end there. -/
def UrlSoFar (p : HttpParser) (url : Bytes) : Prop :=
  match p.state with
  | .startReq | .reqMethod | .reqSpacesBeforeUrl => url = []
  | .reqSchema | .reqSchemaSlash | .reqSchemaSlashSlash | .reqServerStart | .reqServer
  | .reqServerWithAt | .reqPath | .reqQueryStringStart | .reqQueryString | .reqFragmentStart
  | .reqFragment => p.state = urlRun (urlStart p.method) url
  | .dead | .startRes | .resH | .resHT | .resHTT | .resHTTP | .resHttpMajor | .resHttpDot
  | .resHttpMinor | .resHttpEnd | .resFirstStatusCode | .resStatusCode | .resStatusStart | .resStatus
  | .resLineAlmostDone => False
  | _ => isUrlClosed (urlRun (urlStart p.method) url) = true

theorem step_url_of_ne {acts : List Act} {ph : Phase} (hph : ph ≠ .url) (ch : Byte) :
    (h.step acts ph ch).url = h.url := by
  have hact : ∀ (acts : List Act) (h : Head), (acts.foldl act h).url = h.url := by
    intro acts
    induction acts with
    | nil => exact fun h => rfl
    | cons a acts ih =>
      intro h
      rw [List.foldl_cons, ih]
      cases a with
      | mark k => cases k <;> rfl
      | data k n => rfl
      | notify n => cases n <;> rfl
  have htok : ph.token ≠ some .url := by
    cases ph <;> first | exact absurd rfl hph | simp [Phase.token]
  unfold step byte
  rw [← hact acts h]
  split
  · exact absurd ‹_› htok
  all_goals rfl

theorem step_url_of_eq {acts : List Act} {ph : Phase} (hph : ph = .url) (ch : Byte) :
    (h.step acts ph ch).url = h.url ++ [ch] := by
  have hne : (h.step acts .gap ch).url = h.url := step_url_of_ne (by decide) ch
  subst hph
  exact congrArg (· ++ [ch]) hne

theorem urlSoFar_url (hph : p.state.phase = .url) (url : Bytes) :
    UrlSoFar p url ↔ p.state = urlRun (urlStart p.method) url := by
  unfold UrlSoFar
  cases hst : p.state <;> rw [hst] at hph <;> first | rfl | cases hph

theorem UrlSoFar.closed {url : Bytes} (hU : UrlSoFar p url)
    (hph : p.state.phase = .firstEol ∨ inFields p.state.phase = true) :
    isUrlClosed (urlRun (urlStart p.method) url) = true := by
  unfold UrlSoFar at hU
  cases hst : p.state <;> rw [hst] at hph hU <;>
    first | exact hU | exact hU.elim | simp [State.phase, inFields] at hph

/-- A byte of a url. -/
theorem urlSoFar_urlChar {acts : List Act} {url : Bytes} (hs : urlRun (urlStart p.method) url = s)
    (hd : p.urlChar s ch acts = .ok o) : UrlSoFar o.parser (url ++ [ch]) := by
  obtain ⟨-, -, ho, hph⟩ := urlChar_moves hd
  rw [urlSoFar_url hph, urlRun_snoc]
  rw [urlChar] at hd
  split_ifs at hd
  cases hd
  rw [← hs]

/-- A byte of the first line of a request. -/
theorem urlSoFar_dispatch (hU : UrlSoFar p h.url) (hd : p.dispatch ch = .ok o)
    (hph : p.state.phase = .start ∨ p.state.phase = .first ∨ p.state.phase = .url ∨
      p.state.phase = .firstEol) :
    UrlSoFar o.parser (h.step o.acts o.parser.state.phase ch).url := by
  have hquiet : ∀ {o : Out}, UrlSoFar o.parser h.url → o.parser.state.phase ≠ .url →
      UrlSoFar o.parser (h.step o.acts o.parser.state.phase ch).url := fun hU hne => by
    rwa [step_url_of_ne hne]
  have hurl : ∀ {s : State} {acts : List Act}, p.urlChar s ch acts = .ok o →
      urlRun (urlStart p.method) h.url = s →
      UrlSoFar o.parser (h.step o.acts o.parser.state.phase ch).url := fun hd hs => by
    rw [step_url_of_eq (urlChar_moves hd).2.2.2]
    exact urlSoFar_urlChar hs hd
  have hopen : p.state.phase = .url → p.urlOpen ch = .ok o →
      UrlSoFar o.parser (h.step o.acts o.parser.state.phase ch).url := fun hph hd => by
    have hrun := (urlSoFar_url hph h.url).1 hU
    unfold urlOpen at hd
    split_ifs at hd
    exact hurl hd hrun.symm
  have hclosed : p.state.phase = .url → isUrlClosed p.state = true → p.urlClosed ch = .ok o →
      UrlSoFar o.parser (h.step o.acts o.parser.state.phase ch).url := fun hph hc hd => by
    have hrun := (urlSoFar_url hph h.url).1 hU
    rw [hrun] at hc
    simp only [urlClosed, goTo] at hd
    split_ifs at hd
    · cases hd
      exact hquiet hc (by simp [State.phase])
    · cases hd
      exact hquiet hc (by simp [State.phase])
    · cases hd
      exact hquiet hc (by simp [State.phase])
    · exact hurl hd hrun.symm
  have hnil : p.state = .startReq ∨ p.state = .reqMethod ∨ p.state = .reqSpacesBeforeUrl →
      h.url = [] := by
    unfold UrlSoFar at hU
    rintro (hst | hst | hst) <;> rwa [hst] at hU
  cases hst : p.state <;> rw [hst] at hph hopen hclosed <;> try simp [State.phase] at hph
  case startReq =>
    simp only [dispatch, hst, startReq, next, goTo] at hd
    split_ifs at hd
    · cases hd
      exact hquiet hU (by rw [hst]; decide)
    · split at hd
      · cases hd
      · cases hd
        exact hquiet (hnil (.inl hst)) (by simp [State.phase])
  case reqMethod =>
    have hnil := hnil (.inr (.inl hst))
    simp only [dispatch, hst, reqMethod, next, goTo] at hd
    split_ifs at hd
    · cases hd
      exact hquiet hnil (by simp [State.phase])
    · cases hd
      refine hquiet ?_ (by simp [State.phase])
      simpa [UrlSoFar, hst] using hnil
    · split at hd
      · cases hd
        refine hquiet ?_ (by simp [State.phase])
        simpa [UrlSoFar, hst] using hnil
      · cases hd
  case reqSpacesBeforeUrl =>
    simp only [dispatch, hst, reqSpacesBeforeUrl, next] at hd
    split_ifs at hd with hsp hcon
    · cases hd
      exact hquiet hU (by rw [hst]; decide)
    all_goals
      refine hurl hd ?_
      rw [hnil (.inr (.inr hst))]
      simp [urlRun, urlStart, hcon]
  case reqSchema | reqSchemaSlash | reqSchemaSlashSlash | reqServerStart =>
    simp only [dispatch, hst] at hd
    exact hopen rfl hd
  case reqServer | reqServerWithAt | reqPath | reqQueryStringStart | reqQueryString
      | reqFragmentStart | reqFragment =>
    simp only [dispatch, hst] at hd
    exact hclosed rfl rfl hd
  case dead | startRes | resH | resHT | resHTT | resHTTP | resHttpMajor | resHttpDot | resHttpMinor
      | resHttpEnd | resFirstStatusCode | resStatusCode | resStatusStart | resStatus
      | resLineAlmostDone =>
    unfold UrlSoFar at hU
    rw [hst] at hU
    exact hU.elim
  all_goals
    have hc : isUrlClosed (urlRun (urlStart p.method) h.url) = true := by
      unfold UrlSoFar at hU
      rwa [hst] at hU
    simp only [dispatch, hst, reqHttpStart, versionMajor, versionDot, versionMinor, reqHttpEnd,
      reqLineAlmostDone, expect, goTo, next] at hd
    split_ifs at hd <;> cases hd <;>
      first
      | exact hquiet hc (by simp [State.phase])
      | exact hquiet hU (by rw [hst]; decide)

/-- A status code has at most three digits. -/
theorem status_dispatch (hle : p.statusCode ≤ 999) (hd : p.dispatch ch = .ok o)
    (hph : p.state.phase = .start ∨ p.state.phase = .first ∨ p.state.phase = .url ∨
      p.state.phase = .firstEol) : o.parser.statusCode ≤ 999 := by
  have hurl : ∀ {s : State} {acts : List Act}, p.urlChar s ch acts = .ok o →
      o.parser.statusCode ≤ 999 := fun hd => by
    unfold urlChar at hd
    split_ifs at hd
    cases hd
    exact hle
  cases hst : p.state <;> rw [hst] at hph <;> try simp [State.phase] at hph
  case startReq | reqMethod | startRes =>
    simp only [dispatch, hst, startReq, reqMethod, startRes, next, goTo] at hd
    split_ifs at hd
    any_goals cases hd; exact hle
    all_goals
      split at hd
      any_goals cases hd; exact hle
      all_goals cases hd
  case reqSpacesBeforeUrl =>
    simp only [dispatch, hst, reqSpacesBeforeUrl, next] at hd
    split_ifs at hd
    · cases hd
      exact hle
    all_goals exact hurl hd
  case reqSchema | reqSchemaSlash | reqSchemaSlashSlash | reqServerStart =>
    simp only [dispatch, hst, urlOpen] at hd
    split_ifs at hd
    exact hurl hd
  case reqServer | reqServerWithAt | reqPath | reqQueryStringStart | reqQueryString
      | reqFragmentStart | reqFragment =>
    simp only [dispatch, hst, urlClosed, goTo] at hd
    split_ifs at hd
    any_goals cases hd; exact hle
    exact hurl hd
  case resFirstStatusCode =>
    simp only [dispatch, hst, resFirstStatusCode, next, goTo] at hd
    split_ifs at hd with hnum
    · cases hd
      have := (digitVal_isNum ch hnum).2
      simp only
      omega
    · cases hd
      exact hle
  case resStatusCode =>
    simp only [dispatch, hst, resStatusCode, resStatusStart, resStatus, next, goTo] at hd
    split_ifs at hd with hnum hbig <;> cases hd
    · simp only
      omega
    all_goals exact hle
  all_goals
    simp only [dispatch, hst, dead, reqHttpStart, versionMajor, versionDot, versionMinor, reqHttpEnd,
      reqLineAlmostDone, resHttpEnd, resStatusStart, resStatus, expect, goTo, next] at hd
    split_ifs at hd <;> cases hd <;> exact hle

/-- What the first line has shown so far. -/
structure FirstLine (p : HttpParser) (h : Head) : Prop where
  status : p.statusCode ≤ 999
  url : p.type = .request → UrlSoFar p h.url

theorem FirstLine.step (hF : FirstLine p h) (hf : Fits p.flags.trailing p.state.phase h)
    (hs : p.stepByte ch = .ok o) (hn : (h.step o.acts o.parser.state.phase ch).hp = none) :
    FirstLine o.parser (h.step o.acts o.parser.state.phase ch) := by
  have hn₀ : h.hp = none := by
    by_contra hc
    exact step_hp o.acts o.parser.state.phase ch hc hn
  obtain ⟨-, -, h1, h2⟩ := hf.before hn₀
  have htype : o.parser.type = p.type := (stepByte_kept hs ⟨h1, h2, hf.resting⟩).1
  have hdispatch : ∃ p₀ : HttpParser, p₀.dispatch ch = .ok o ∧ p₀.state = p.state ∧
      p₀.method = p.method ∧ p₀.statusCode = p.statusCode := by
    unfold stepByte at hs
    split_ifs at hs
    · exact ⟨_, hs, rfl, rfl, rfl⟩
    · exact ⟨_, hs, rfl, rfl, rfl⟩
  obtain ⟨p₀, hd, hst, hmethod, hcode⟩ := hdispatch
  by_cases hin : inFields p.state.phase = true
  · -- behind the first line nothing changes any more
    have hline := dispatch_sameLine (by rw [hst]; exact hin) hd
    have hin' := moves_inFields (stepByte_moves hs) hf hn₀ hin hn
    have hne : o.parser.state.phase ≠ .url := by
      intro hph
      rw [hph] at hin'
      cases hin'
    refine ⟨by rw [hline.2, hcode]; exact hF.status, fun hreq => ?_⟩
    have hclosed := (hF.url (htype.symm.trans hreq)).closed (.inr hin)
    rw [← hmethod, ← hline.1] at hclosed
    rw [step_url_of_ne hne]
    unfold UrlSoFar
    cases hst' : o.parser.state <;> rw [hst'] at hin' hne <;>
      first | exact hclosed | cases hin'
  · have hfirst : p.state.phase = .start ∨ p.state.phase = .first ∨ p.state.phase = .url ∨
        p.state.phase = .firstEol := by
      revert hin h1 h2
      have h3 := hf.resting
      revert h3
      cases p.state.phase <;> simp [inFields]
    rw [← hst] at hfirst
    refine ⟨status_dispatch (by rw [hcode]; exact hF.status) hd hfirst, fun hreq => ?_⟩
    refine urlSoFar_dispatch ?_ hd hfirst
    have hU := hF.url (htype.symm.trans hreq)
    unfold UrlSoFar at hU ⊢
    rw [hst, hmethod]
    exact hU

end Head

open Head

/-- **What the first line of a header has shown**: a status code of at most three digits, and,
for a request, a url that may end where it ends. -/
theorem IsHeader.firstLine {t : HttpParserType} {H : Bytes} {hp : HttpParser} {r : Reading}
    (hH : IsHeader t H) (hr : readHead t H = .ok r) (hhp : r.head.hp = some hp) :
    hp.statusCode ≤ 999 ∧
      (t = .request → isUrlClosed (urlRun (urlStart hp.method) r.head.url) = true) := by
  have hlen : 0 < H.length := List.length_pos_of_ne_nil hH.ne_nil
  obtain ⟨r', hr', hnone, hex, hf, -⟩ := hH.read_take hr (n := H.length - 1) (by omega)
  have hinit : FirstLine (.init t) .empty := by
    refine ⟨Nat.zero_le _, fun hreq => ?_⟩
    cases t
    · rfl
    · cases hreq
  have hF : FirstLine r'.parser r'.head :=
    read_invariant (fun p h ch o hF hf hs hn => hF.step hf hs hn) hinit (init_fits t) hr' hnone
  have htype : r'.parser.type = t := read_type (init_fits t) hr' hnone
  -- the last byte
  rw [readHead, ← List.take_append_drop (H.length - 1) H] at hr
  obtain ⟨r₁, hr₁, hrest⟩ := read_append_ok hr
  rw [← readHead, hr'] at hr₁
  cases hr₁
  obtain ⟨r'', hr'', rfl⟩ := hrest hex
  rw [List.drop_eq_getElem_cons (by omega), List.drop_eq_nil_of_le (by omega)] at hr''
  obtain ⟨o, hs, ho⟩ := read_cons_ok hr''
  have hhead : r''.head = r'.head.step o.acts o.parser.state.phase (H[H.length - 1]) := by
    rcases ho with ⟨-, rfl⟩ | ⟨-, r₂, hr₂, rfl⟩
    · rfl
    · cases hr₂
      rfl
  rw [Reading.more_head, hhead] at hhp ⊢
  have hmove := stepByte_moves hs
  have hm : Act.notify (.headersComplete hp) ∈ o.acts := by
    refine foldl_act_complete hnone ?_
    rwa [step, byte_hp] at hhp
  have hin : inFields r'.parser.state.phase = true := by
    rcases moves_complete hmove hm with h | h | h | h
    any_goals rw [h]; rfl
    exact absurd h hf.resting
  have hline : SameLine r'.parser o.parser := by
    unfold stepByte at hs
    split_ifs at hs
    · have := dispatch_sameLine (p := { r'.parser with nread := r'.parser.nread + 1 }) hin hs
      exact this
    · exact dispatch_sameLine hin hs
  have hrep := (stepByte_reported hs hf.resting hm).1
  have hmethod : hp.method = r'.parser.method := by
    rw [← hline.1, hrep]
  have hcode : hp.statusCode = r'.parser.statusCode := by
    rw [← hline.2, hrep]
  refine ⟨hcode ▸ hF.status, fun hreq => ?_⟩
  have htok := (step_completes hmove hf hnone (by rw [hhp]; simp)).2
  rw [step_url_of_ne (fun h => by rw [h] at htok; cases htok), hmethod]
  exact (hF.url (htype.trans hreq)).closed (.inr hin)

variable {t : HttpParserType}

/-- **A header**: a first line that is read, and lines behind it. -/
theorem header_of_lines {line url : Bytes} {q : HttpParser} {L : List (Bytes × Bytes)}
    (hq : readHead t line = .ok ⟨q, { Head.empty with url := url }, line.length, false⟩)
    (hI : Inside q q { Head.empty with url := url }) (hl : AtLine q) (hn : q.nread = line.length)
    (hL : ∀ f ∈ L, Line f) (ha : OneLength [] L)
    (hroom : (line ++ (linesOf L ++ crlf)).length ≤ HTTP_MAX_HEADER_SIZE)
    (hlen : ∀ f ∈ L, isContentLength f.1 = true → LengthText f.2) (hone : ¬ BothFramings L) :
    IsHeader t (line ++ (linesOf L ++ crlf)) ∧
      ∃ r' hp', readHead t (line ++ (linesOf L ++ crlf)) = .ok r' ∧ r'.head.hp = some hp' ∧
        SameLine q hp' ∧ r'.head.url = url ∧ r'.head.fields = L.reverse := by
  obtain ⟨p₁, p₂, hp', exit, hline, hr₁, hr₂⟩ := read_header hI hl rfl hL ha
    (by rw [hn, ← List.length_append]; exact hroom) hlen hone
  have happend : ∀ {bs : Bytes} {r' : Reading}, read q { Head.empty with url := url } bs = .ok r' →
      readHead t (line ++ bs) = .ok (r'.more line.length) := fun h => by
    rw [readHead, read_append, ← readHead, hq]
    simp only [Bool.false_eq_true, if_false, h]
    rfl
  have hsplit : line ++ (linesOf L ++ crlf) = line ++ (linesOf L ++ [CR]) ++ [LF] := by
    simp only [List.append_assoc]
    rfl
  have h₁ := happend hr₁
  have h₂ := happend hr₂
  rw [← List.append_assoc] at h₂
  rw [hsplit]
  exact ⟨isHeader_of_last h₁ rfl h₂ (by simp), _, hp', h₂, rfl, hline, rfl, rfl⟩

/-- Nothing else is accepted as a header. -/
theorem plain_of_header {line url : Bytes} {q : HttpParser} {L : List (Bytes × Bytes)} {r : Reading}
    (hq : readHead t line = .ok ⟨q, { Head.empty with url := url }, line.length, false⟩)
    (hI : Inside q q { Head.empty with url := url }) (hl : AtLine q) (hn : q.nread = line.length)
    (hL : ∀ f ∈ L, Line f) (ha : OneLength [] L)
    (hroom : (line ++ (linesOf L ++ crlf)).length ≤ HTTP_MAX_HEADER_SIZE)
    (hr : readHead t (line ++ (linesOf L ++ crlf)) = .ok r) :
    (∀ f ∈ L, isContentLength f.1 = true → LengthText f.2) ∧ ¬ BothFramings L := by
  rw [readHead, read_append, ← readHead, hq] at hr
  simp only [Bool.false_eq_true, if_false] at hr
  cases hb : read q { Head.empty with url := url } (linesOf L ++ crlf) with
  | ok r₁ => exact plain_of_read hI hl rfl hL ha (by rw [hn, ← List.length_append]; exact hroom) hb
  | error e =>
    rw [hb] at hr
    cases hr

end HttpProxy
