import HttpProxy.Bytes.CLib
import HttpProxy.Control.Outcome
import HttpProxy.Parser.Basic

/-!
# Escaping

`escape` and `unescapse` of `src/protocol/srs_protocol_http_stack.cpp`, which write a byte
as a percent sign and two hexadecimal digits, and read it back.

* `shouldEscape`, `escape`, `unescapse` — the functions, for every part of a url; the parts
  of the class `SrsHttpUri` are the ones for a query component and a path segment.
* `WellFormed`, `decoded` — the strings with two digits behind every percent sign, and
  what they stand for.
* `unescape_exact` — exactly these strings are accepted, and what comes out is what they
  stand for.
* `unescape_escape` — what is escaped is read back, and has no byte that had to be escaped.
-/

namespace HttpProxy

/-- `EncodeMode`: the part of a url. -/
inductive EncodeMode
  | path | pathSegment | host | zone | userPassword | queryComponent | fragment
  deriving DecidableEq, Repr

/-- `should_escape`. -/
def shouldEscape (c : Byte) (mode : EncodeMode) : Bool :=
  if (chr 'a' ≤ c && c ≤ chr 'z') || (chr 'A' ≤ c && c ≤ chr 'Z') || (chr '0' ≤ c && c ≤ chr '9') then
    false
  else if (mode == .host || mode == .zone) && (str "!$&'()*+,;=:[]<>\"").contains c then false
  else if (str "-_.~").contains c then false
  else if (str "$&+,/:;=?@").contains c then
    match mode with
    | .path => c == chr '?'
    | .pathSegment => c == chr '/' || c == chr ';' || c == chr ',' || c == chr '?'
    | .userPassword => c == chr '@' || c == chr '/' || c == chr '?' || c == chr ':'
    | .queryComponent => true
    | .fragment => false
    -- `default` leaves both of the switches, to the end of the function
    | .host | .zone => true
  else if mode == .fragment && (str "!()*").contains c then false
  else true

/-- `ishex`. -/
def ishex (c : Byte) : Bool :=
  if chr '0' ≤ c && c ≤ chr '9' then true
  else if chr 'a' ≤ c && c ≤ chr 'f' then true
  else if chr 'A' ≤ c && c ≤ chr 'F' then true
  else false

/-- `hex_to_num`. -/
def hexToNum (c : Byte) : Byte :=
  if chr '0' ≤ c && c ≤ chr '9' then c - chr '0'
  else if chr 'a' ≤ c && c ≤ chr 'f' then c - chr 'a' + 10
  else if chr 'A' ≤ c && c ≤ chr 'F' then c - chr 'A' + 10
  else 0

/-! ## `unescapse` -/

/-- An error with the code `ERROR_HTTP_URL_UNESCAPE`. -/
structure UnescapeError where
  text : Bytes
  deriving DecidableEq, Repr

/-- `s.at(i)`. -/
def charAt {ε : Type} (s : Bytes) (i : Nat) : Outcome ε Byte :=
  match s[i]? with
  | some c => .done c
  | none => .fault .outOfRange

/-- `i >= (int)s.length()`. -/
def past (s : Bytes) (i : Nat) : Bool := decide (toInt32 s.length ≤ i)

/-- The error for what is no escape; at most three bytes of the rest are shown. -/
def invalidUrlEscape (s : Bytes) (i : Nat) : UnescapeError :=
  ⟨str "invalid URL escape: " ++ cString ((s.drop i).take 3)⟩

/-- The error for an escape that the mode does not allow. -/
def invalidUrlEscap (s : Bytes) (i : Nat) : UnescapeError :=
  ⟨str "invalid URL escap: " ++ cString ((s.drop i).take 3)⟩

/-- The check of the percent sign at position `i`. -/
def checkEscape (s : Bytes) (mode : EncodeMode) (i : Nat) : Outcome UnescapeError Unit :=
  if past s (i + 2) = true then .failed (invalidUrlEscape s i)
  else (charAt s (i + 1)).bind fun a =>
    if ishex a = false then .failed (invalidUrlEscape s i)
    else (charAt s (i + 2)).bind fun b =>
      if ishex b = false then .failed (invalidUrlEscape s i)
      else if mode = .host ∧ hexToNum a < 8 ∧ (s.drop i).take 3 ≠ str "%25" then
        .failed (invalidUrlEscap s i)
      else
        let v := hexToNum a <<< 4 ||| hexToNum b
        if mode = .zone ∧ (s.drop i).take 3 ≠ str "%25" ∧ v ≠ chr ' ' ∧ shouldEscape v .host = true then
          .failed (invalidUrlEscap s i)
        else .done ()

/-- The loop that checks the escapes from position `i` on, and counts them. -/
def checkLoop (s : Bytes) (mode : EncodeMode) : Nat → Nat → Nat → Bool → Outcome UnescapeError (Nat × Bool)
  | 0, _, _, _ => .fault .endless
  | fuel + 1, i, n, hasPlus =>
      if past s i = true then .done (n, hasPlus)
      else (charAt s i).bind fun c =>
        if c = chr '%' then
          (checkEscape s mode i).bind fun _ => checkLoop s mode fuel (i + 3) (n + 1) hasPlus
        else if c = chr '+' then checkLoop s mode fuel (i + 1) n (mode == .queryComponent)
        else if (mode = .host ∨ mode = .zone) ∧ c < 0x80 ∧ shouldEscape c mode = true then
          .failed ⟨str "invalid character " ++ str (toString c.toNat) ++ str " in host name"⟩
        else checkLoop s mode fuel (i + 1) n hasPlus

/-- The loop that decodes from position `i` on. -/
def decodeLoop (s : Bytes) (mode : EncodeMode) : Nat → Nat → Bytes → Outcome UnescapeError Bytes
  | 0, _, _ => .fault .endless
  | fuel + 1, i, value =>
      if past s i = true then .done value
      else (charAt s i).bind fun c =>
        if c = chr '%' then
          (charAt s (i + 1)).bind fun a => (charAt s (i + 2)).bind fun b =>
            decodeLoop s mode fuel (i + 3) (value ++ [hexToNum a <<< 4 ||| hexToNum b])
        else if c = chr '+' then
          decodeLoop s mode fuel (i + 1)
            (value ++ [if mode = .queryComponent then chr ' ' else chr '+'])
        else decodeLoop s mode fuel (i + 1) (value ++ [c])

/-- An error leaves the output argument as it is. -/
def keeping {α : Type} (value : Bytes) : Outcome UnescapeError α → Outcome (UnescapeError × Bytes) α
  | .done a => .done a
  | .failed err => .failed (err, value)
  | .fault f => .fault f

/-- `unescapse(s, value, mode)`.  What comes out is the argument `value` after the call, next to
the error if there is one.  No turn of a loop stays at its position, so that the length
bounds them. -/
def unescapse (s value : Bytes) (mode : EncodeMode) : Outcome (UnescapeError × Bytes) Bytes :=
  (keeping value (checkLoop s mode (s.length + 1) 0 0 false)).bind fun counts =>
    if counts.1 = 0 ∧ counts.2 = false then .done s
    else keeping value (decodeLoop s mode (s.length + 1) 0 [])

/-! ## `escape` -/

/-- The byte is to become a plus. -/
def toPlus (mode : EncodeMode) (c : Byte) : Bool := c == chr ' ' && mode == .queryComponent

/-- A character of `escape_code`. -/
def escapeCode (d : Byte) : Byte := (str "0123456789ABCDEF").getD d.toNat 0

/-- What the last loop of `escape` appends for a byte. -/
def escapeByte (mode : EncodeMode) (c : Byte) : Bytes :=
  if toPlus mode c = true then [chr '+']
  else if shouldEscape c mode = true then [chr '%', escapeCode (c >>> 4), escapeCode (c &&& 15)]
  else [c]

/-- `escape(s, mode)`. -/
def escape (s : Bytes) (mode : EncodeMode) : Bytes :=
  let spaceCount := (intLoop s).countP fun c => shouldEscape c mode && toPlus mode c
  let hexCount := (intLoop s).countP fun c => shouldEscape c mode && !toPlus mode c
  if spaceCount = 0 ∧ hexCount = 0 then s
  else if hexCount = 0 then
    (intLoop s).map (fun c => if c = chr ' ' then chr '+' else c) ++ s.drop (intLoop s).length
  else (intLoop s).flatMap (escapeByte mode)

namespace SrsHttpUri

/-- `query_escape`. -/
def queryEscape (s : Bytes) : Bytes := escape s .queryComponent

/-- `path_escape`. -/
def pathEscape (s : Bytes) : Bytes := escape s .pathSegment

/-- `query_unescape(s, value)`. -/
def queryUnescape (s value : Bytes) : Outcome (UnescapeError × Bytes) Bytes :=
  unescapse s value .queryComponent

/-- `path_unescape(s, value)`. -/
def pathUnescape (s value : Bytes) : Outcome (UnescapeError × Bytes) Bytes :=
  unescapse s value .pathSegment

end SrsHttpUri

/-! ## Well-formed strings -/

/-- Two hexadecimal digits stand behind every percent sign.  None of them is a percent sign, so that
no percent sign is a part of what is written behind another one. -/
def WellFormed (s : Bytes) : Prop :=
  ∀ pre post, s = pre ++ chr '%' :: post →
    ∃ a b rest, post = a :: b :: rest ∧ ishex a = true ∧ ishex b = true

/-- What a byte outside of an escape stands for. -/
def plain (plus : Bool) (c : Byte) : Byte := if plus = true ∧ c = chr '+' then chr ' ' else c

/-- What a string stands for: an escape for the byte that its digits denote, a plus for a space if
`plus` is set, and every other byte for itself. -/
def decoded (plus : Bool) : Bytes → Bytes
  | c :: a :: b :: rest =>
      if c = chr '%' then UInt8.ofNat (digitsValue 16 [a, b]) :: decoded plus rest
      else plain plus c :: decoded plus (a :: b :: rest)
  | s => s.map (plain plus)

theorem wellFormed_nil : WellFormed [] := by
  intro pre post h
  cases pre <;> cases h

theorem wellFormed_cons_iff {c : Byte} (hc : c ≠ chr '%') {s : Bytes} :
    WellFormed (c :: s) ↔ WellFormed s := by
  constructor
  · intro h pre post hs
    exact h (c :: pre) post (by rw [hs, List.cons_append])
  · intro h pre post hs
    cases pre with
    | nil => exact absurd (List.cons.inj hs).1 hc
    | cons d pre => exact h pre post (List.cons.inj hs).2

theorem ne_percent_of_ishex {c : Byte} (h : ishex c = true) : c ≠ chr '%' := by
  rintro rfl
  exact absurd h (by decide)

theorem ne_plus_of_ishex {c : Byte} (h : ishex c = true) : c ≠ chr '+' := by
  rintro rfl
  exact absurd h (by decide)

theorem wellFormed_triple_iff {a b : Byte} (ha : ishex a = true) (hb : ishex b = true) {s : Bytes} :
    WellFormed (chr '%' :: a :: b :: s) ↔ WellFormed s := by
  constructor
  · intro h pre post hs
    exact h (chr '%' :: a :: b :: pre) post (by rw [hs]; rfl)
  · intro h pre post hs
    cases pre with
    | nil => exact ⟨a, b, s, (List.cons.inj hs).2.symm, ha, hb⟩
    | cons d pre =>
      have htail : WellFormed (a :: b :: s) :=
        (wellFormed_cons_iff (ne_percent_of_ishex ha)).2
          ((wellFormed_cons_iff (ne_percent_of_ishex hb)).2 h)
      exact htail pre post (List.cons.inj hs).2

/-- A string that begins with a percent sign begins with an escape if it is well formed. -/
theorem WellFormed.triple {s : Bytes} (h : WellFormed (chr '%' :: s)) :
    ∃ a b rest, s = a :: b :: rest ∧ ishex a = true ∧ ishex b = true ∧ WellFormed rest := by
  obtain ⟨a, b, rest, rfl, ha, hb⟩ := h [] s rfl
  exact ⟨a, b, rest, rfl, ha, hb, (wellFormed_triple_iff ha hb).1 h⟩

theorem decoded_nil (plus : Bool) : decoded plus [] = [] := rfl

theorem decoded_cons {plus : Bool} {c : Byte} (hc : c ≠ chr '%') (s : Bytes) :
    decoded plus (c :: s) = plain plus c :: decoded plus s := by
  rcases s with _ | ⟨a, _ | ⟨b, rest⟩⟩
  · rfl
  · rfl
  · rw [decoded, if_neg hc]

theorem decoded_triple {plus : Bool} (a b : Byte) (s : Bytes) :
    decoded plus (chr '%' :: a :: b :: s) = UInt8.ofNat (digitsValue 16 [a, b]) :: decoded plus s := by
  rw [decoded, if_pos rfl]

/-- A string without percent signs and pluses to decode stands for itself. -/
theorem decoded_eq_self {plus : Bool} {s : Bytes} (hpercent : chr '%' ∉ s)
    (hplus : plus = true → chr '+' ∉ s) : decoded plus s = s := by
  induction s with
  | nil => rfl
  | cons c s ih =>
    rw [List.mem_cons, not_or] at hpercent
    rw [decoded_cons (fun h => hpercent.1 h.symm),
      ih hpercent.2 fun hp hm => hplus hp (List.mem_cons_of_mem c hm), plain, if_neg]
    rintro ⟨hp, rfl⟩
    exact hplus hp List.mem_cons_self

/-! ## The two loops -/

section Loops

variable {mode : EncodeMode} {pre rest : Bytes} {a b : Byte}

theorem charAt_eq {ε : Type} {s : Bytes} {i : Nat} {c : Byte} (h : s[i]? = some c) :
    (charAt s i : Outcome ε Byte) = .done c := by
  rw [charAt, h]

theorem past_append (hlen : (pre ++ rest).length < 2 ^ 31) (k : Nat) :
    past (pre ++ rest) (pre.length + k) = decide (rest.length ≤ k) := by
  rw [past, toInt32_eq_self (by omega) (by omega), decide_eq_decide, List.length_append]
  omega

theorem checkEscape_triple (hhost : mode ≠ .host) (hzone : mode ≠ .zone)
    (hlen : (pre ++ chr '%' :: a :: b :: rest).length < 2 ^ 31) (ha : ishex a = true)
    (hb : ishex b = true) :
    checkEscape (pre ++ chr '%' :: a :: b :: rest) mode pre.length = .done () := by
  rw [checkEscape, past_append hlen, if_neg (by simp), charAt_eq (c := a) (by simp),
    Outcome.bind_done, if_neg (by simp [ha]), charAt_eq (c := b) (by simp), Outcome.bind_done,
    if_neg (by simp [hb]), if_neg fun h => hhost h.1]
  exact if_neg fun h => hzone h.1

theorem checkEscape_failed (mode : EncodeMode) (hlen : (pre ++ chr '%' :: rest).length < 2 ^ 31)
    (h : ¬ ∃ a b t, rest = a :: b :: t ∧ ishex a = true ∧ ishex b = true) :
    ∃ err, checkEscape (pre ++ chr '%' :: rest) mode pre.length = .failed err := by
  rw [checkEscape, past_append hlen]
  rcases rest with _ | ⟨a, _ | ⟨b, t⟩⟩
  · exact ⟨_, if_pos (by simp)⟩
  · exact ⟨_, if_pos (by simp)⟩
  · rw [if_neg (by simp), charAt_eq (c := a) (by simp), Outcome.bind_done]
    by_cases ha : ishex a = false
    · exact ⟨_, if_pos ha⟩
    · rw [if_neg ha, charAt_eq (c := b) (by simp), Outcome.bind_done]
      refine ⟨_, if_pos ?_⟩
      rw [← Bool.not_eq_true]
      intro hb
      exact h ⟨a, b, t, rfl, by simpa using ha, hb⟩

theorem checkLoop_nil (hlen : pre.length < 2 ^ 31) (fuel n : Nat) (hasPlus : Bool) :
    checkLoop pre mode (fuel + 1) pre.length n hasPlus = .done (n, hasPlus) := by
  have hpast : past (pre ++ []) (pre.length + 0) = decide (([] : Bytes).length ≤ 0) :=
    past_append (by rwa [List.append_nil]) 0
  rw [List.append_nil, Nat.add_zero] at hpast
  rw [checkLoop, hpast, if_pos (by simp)]

theorem checkLoop_percent (mode : EncodeMode) (hlen : (pre ++ chr '%' :: rest).length < 2 ^ 31)
    (fuel n : Nat) (hasPlus : Bool) :
    checkLoop (pre ++ chr '%' :: rest) mode (fuel + 1) pre.length n hasPlus =
      (checkEscape (pre ++ chr '%' :: rest) mode pre.length).bind fun _ =>
        checkLoop (pre ++ chr '%' :: rest) mode fuel (pre.length + 3) (n + 1) hasPlus := by
  have hpast := past_append hlen 0
  rw [Nat.add_zero] at hpast
  rw [checkLoop, hpast, if_neg (by simp), charAt_eq (c := chr '%') (by simp), Outcome.bind_done,
    if_pos rfl]

theorem checkLoop_other (hhost : mode ≠ .host) (hzone : mode ≠ .zone) {c : Byte} (hc : c ≠ chr '%')
    (hlen : (pre ++ c :: rest).length < 2 ^ 31) (fuel n : Nat) (hasPlus : Bool) :
    checkLoop (pre ++ c :: rest) mode (fuel + 1) pre.length n hasPlus =
      checkLoop ((pre ++ [c]) ++ rest) mode fuel (pre ++ [c]).length n
        (if c = chr '+' then mode == .queryComponent else hasPlus) := by
  have hpast := past_append hlen 0
  rw [Nat.add_zero] at hpast
  rw [checkLoop, hpast, if_neg (by simp), charAt_eq (c := c) (by simp), Outcome.bind_done, if_neg hc,
    List.append_assoc pre, List.singleton_append, List.length_append, List.length_singleton]
  by_cases hplus : c = chr '+'
  · rw [if_pos hplus, if_pos hplus]
  · rw [if_neg hplus, if_neg hplus, if_neg fun h => h.1.elim hhost hzone]

/-- The first loop goes through a well-formed string.  It finds no percent sign if there is none,
and it finds a plus if that is to be decoded. -/
theorem checkLoop_wellFormed (hhost : mode ≠ .host) (hzone : mode ≠ .zone) (pre rest : Bytes)
    (hlen : (pre ++ rest).length < 2 ^ 31) (fuel : Nat) (hfuel : rest.length < fuel)
    (hwf : WellFormed rest) (n : Nat) (hasPlus : Bool) :
    ∃ n' hasPlus', checkLoop (pre ++ rest) mode fuel pre.length n hasPlus = .done (n', hasPlus') ∧
      n ≤ n' ∧ (n' = n → chr '%' ∉ rest) ∧
      (mode = .queryComponent → hasPlus' = false → hasPlus = false ∧ chr '+' ∉ rest) := by
  induction fuel generalizing pre rest n hasPlus with
  | zero => omega
  | succ fuel ih =>
    cases rest with
    | nil =>
      rw [List.append_nil] at hlen ⊢
      exact ⟨n, hasPlus, checkLoop_nil hlen fuel n hasPlus, le_refl n, fun _ => by simp,
        fun _ h => ⟨h, by simp⟩⟩
    | cons c rest =>
      rw [List.length_cons] at hfuel
      by_cases hc : c = chr '%'
      · subst hc
        obtain ⟨a, b, t, rfl, ha, hb, ht⟩ := hwf.triple
        have hsplit : pre ++ chr '%' :: a :: b :: t = (pre ++ [chr '%', a, b]) ++ t := by simp
        have hstep := checkLoop_percent mode hlen fuel n hasPlus
        rw [checkEscape_triple hhost hzone hlen ha hb, Outcome.bind_done] at hstep
        rw [List.length_cons, List.length_cons] at hfuel
        obtain ⟨n', plus', hloop, hn, -, hplus⟩ := ih (pre ++ [chr '%', a, b]) t
          (by rwa [← hsplit]) (by omega) ht (n + 1) hasPlus
        rw [← hsplit, List.length_append] at hloop
        refine ⟨n', plus', hstep.trans hloop, by omega, fun h => by omega, fun hm h => ?_⟩
        obtain ⟨h1, h2⟩ := hplus hm h
        refine ⟨h1, ?_⟩
        rw [List.mem_cons, List.mem_cons, List.mem_cons]
        rintro (h | h | h | h)
        · exact absurd h (by decide)
        · exact ne_plus_of_ishex ha h.symm
        · exact ne_plus_of_ishex hb h.symm
        · exact h2 h
      · have hsplit : pre ++ c :: rest = (pre ++ [c]) ++ rest := by simp
        obtain ⟨n', plus', hloop, hn, hpercent, hplus⟩ := ih (pre ++ [c]) rest
          (by rwa [← hsplit]) (by omega) ((wellFormed_cons_iff hc).1 hwf) n
          (if c = chr '+' then mode == .queryComponent else hasPlus)
        refine ⟨n', plus', (checkLoop_other hhost hzone hc hlen fuel n hasPlus).trans hloop, hn, ?_, ?_⟩
        · intro h hm
          rcases List.mem_cons.1 hm with hm | hm
          · exact hc hm.symm
          · exact hpercent h hm
        · intro hm h
          obtain ⟨h1, h2⟩ := hplus hm h
          by_cases hcp : c = chr '+'
          · rw [if_pos hcp, hm] at h1
            cases h1
          · rw [if_neg hcp] at h1
            refine ⟨h1, ?_⟩
            rw [List.mem_cons, not_or]
            exact ⟨fun hc => hcp hc.symm, h2⟩

/-- The first loop ends with an error in any other string. -/
theorem checkLoop_failed (hhost : mode ≠ .host) (hzone : mode ≠ .zone) (pre rest : Bytes)
    (hlen : (pre ++ rest).length < 2 ^ 31) (fuel : Nat) (hfuel : rest.length < fuel)
    (hwf : ¬ WellFormed rest) (n : Nat) (hasPlus : Bool) :
    ∃ err, checkLoop (pre ++ rest) mode fuel pre.length n hasPlus = .failed err := by
  induction fuel generalizing pre rest n hasPlus with
  | zero => omega
  | succ fuel ih =>
    cases rest with
    | nil => exact absurd wellFormed_nil hwf
    | cons c rest =>
      rw [List.length_cons] at hfuel
      by_cases hc : c = chr '%'
      · subst hc
        rw [checkLoop_percent mode hlen]
        by_cases htriple : ∃ a b t, rest = a :: b :: t ∧ ishex a = true ∧ ishex b = true
        · obtain ⟨a, b, t, rfl, ha, hb⟩ := htriple
          have hsplit : pre ++ chr '%' :: a :: b :: t = (pre ++ [chr '%', a, b]) ++ t := by simp
          rw [List.length_cons, List.length_cons] at hfuel
          rw [checkEscape_triple hhost hzone hlen ha hb, Outcome.bind_done, hsplit]
          have hrest := ih (pre ++ [chr '%', a, b]) t (by rwa [← hsplit]) (by omega)
            (fun h => hwf ((wellFormed_triple_iff ha hb).2 h)) (n + 1) hasPlus
          rwa [List.length_append] at hrest
        · obtain ⟨err, herr⟩ := checkEscape_failed mode hlen htriple
          exact ⟨err, by rw [herr, Outcome.bind_failed]⟩
      · rw [checkLoop_other hhost hzone hc hlen]
        refine ih _ _ ?_ (by omega) (fun h => hwf ((wellFormed_cons_iff hc).2 h)) n _
        rwa [List.append_assoc, List.singleton_append]

/-! ### Decoding -/

/-- The two digits of an escape are the byte. -/
theorem hexToNum_pair (ha : ishex a = true) (hb : ishex b = true) :
    hexToNum a <<< 4 ||| hexToNum b = UInt8.ofNat (digitsValue 16 [a, b]) := by
  have hdigit : ∀ c : Byte, ishex c = true →
      (digitVal c).getD 0 < 16 ∧ hexToNum c = UInt8.ofNat ((digitVal c).getD 0) :=
    forall_byte (by decide +kernel)
  have hpair : ∀ x y : Fin 16, (UInt8.ofNat x.val) <<< 4 ||| UInt8.ofNat y.val =
      UInt8.ofNat (x.val * 16 + y.val) := by decide
  obtain ⟨ha', hna⟩ := hdigit a ha
  obtain ⟨hb', hnb⟩ := hdigit b hb
  have hvalue : digitsValue 16 [a, b] = (digitVal a).getD 0 * 16 + (digitVal b).getD 0 := by
    simp [digitsValue]
  rw [hna, hnb, hvalue]
  exact hpair ⟨_, ha'⟩ ⟨_, hb'⟩

/-- The second loop decodes a well-formed string. -/
theorem decodeLoop_wellFormed (mode : EncodeMode) (pre rest : Bytes)
    (hlen : (pre ++ rest).length < 2 ^ 31) (fuel : Nat) (hfuel : rest.length < fuel)
    (hwf : WellFormed rest) (value : Bytes) :
    decodeLoop (pre ++ rest) mode fuel pre.length value =
      .done (value ++ decoded (mode == .queryComponent) rest) := by
  induction fuel generalizing pre rest value with
  | zero => omega
  | succ fuel ih =>
    have hpast := past_append hlen 0
    rw [Nat.add_zero] at hpast
    rw [decodeLoop, hpast]
    cases rest with
    | nil => rw [if_pos (by simp), decoded_nil, List.append_nil]
    | cons c rest =>
      rw [List.length_cons] at hfuel
      rw [if_neg (by simp), charAt_eq (c := c) (by simp), Outcome.bind_done]
      by_cases hc : c = chr '%'
      · subst hc
        obtain ⟨a, b, t, rfl, ha, hb, ht⟩ := hwf.triple
        have hsplit : pre ++ chr '%' :: a :: b :: t = (pre ++ [chr '%', a, b]) ++ t := by simp
        have hrest := ih (pre ++ [chr '%', a, b]) t (by rwa [← hsplit])
          (by rw [List.length_cons, List.length_cons] at hfuel; omega) ht
          (value ++ [hexToNum a <<< 4 ||| hexToNum b])
        rw [← hsplit, List.length_append] at hrest
        rw [if_pos rfl, charAt_eq (c := a) (by simp), Outcome.bind_done, charAt_eq (c := b) (by simp),
          Outcome.bind_done, decoded_triple, ← hexToNum_pair ha hb]
        exact hrest.trans (by rw [List.append_assoc, List.singleton_append])
      · have hrest := fun v => ih (pre ++ [c]) rest
          (by rwa [List.append_assoc, List.singleton_append]) (by omega)
          ((wellFormed_cons_iff hc).1 hwf) v
        simp only [List.append_assoc, List.singleton_append, List.length_append,
          List.length_singleton] at hrest
        rw [if_neg hc, decoded_cons hc, plain]
        by_cases hplus : c = chr '+'
        · rw [if_pos hplus, hrest, List.append_assoc, List.singleton_append]
          by_cases hmode : mode = .queryComponent
          · rw [if_pos hmode, if_pos ⟨beq_iff_eq.2 hmode, hplus⟩]
          · rw [if_neg hmode, if_neg fun h => hmode (beq_iff_eq.1 h.1), hplus]
        · rw [if_neg hplus, hrest, if_neg fun h => hplus h.2, List.append_assoc, List.singleton_append]

end Loops

/-! ## Unescaping -/

section Unescape

variable {mode : EncodeMode} {s : Bytes}

theorem unescapse_wellFormed (hhost : mode ≠ .host) (hzone : mode ≠ .zone) (hs : s.length < 2 ^ 31)
    (hwf : WellFormed s) (value : Bytes) :
    unescapse s value mode = .done (decoded (mode == .queryComponent) s) := by
  obtain ⟨n, hasPlus, hcheck, -, hpercent, hplus⟩ := checkLoop_wellFormed hhost hzone []
    s hs (s.length + 1) (by omega) hwf 0 false
  have hdecode := decodeLoop_wellFormed mode [] s hs (s.length + 1) (by omega) hwf []
  rw [List.nil_append, List.length_nil] at hcheck hdecode
  rw [unescapse, hcheck, keeping, Outcome.bind_done]
  by_cases hfast : n = 0 ∧ hasPlus = false
  · -- Without escapes, and without pluses to decode, the string stands for itself.
    rw [if_pos hfast, decoded_eq_self (hpercent hfast.1)]
    intro hq
    exact (hplus (beq_iff_eq.1 hq) hfast.2).2
  · rw [if_neg hfast, hdecode, List.nil_append, keeping]

theorem unescapse_failed (hhost : mode ≠ .host) (hzone : mode ≠ .zone) (hs : s.length < 2 ^ 31)
    (hwf : ¬ WellFormed s) (value : Bytes) : ∃ err, unescapse s value mode = .failed (err, value) := by
  obtain ⟨err, hcheck⟩ := checkLoop_failed hhost hzone [] s hs (s.length + 1) (by omega) hwf 0 false
  rw [List.nil_append, List.length_nil] at hcheck
  exact ⟨err, by rw [unescapse, hcheck, keeping, Outcome.bind_failed]⟩

/-- A call accepts the well-formed strings and no others; it returns what the string stands for, or an
error and the output argument as it was. -/
structure Exact (plus : Bool) (s before : Bytes) (call : Outcome (UnescapeError × Bytes) Bytes) :
    Prop where
  accepted : (∃ v, call = .done v) ↔ WellFormed s
  value : ∀ v, call = .done v → v = decoded plus s
  unchanged : ¬ WellFormed s → ∃ err, call = .failed (err, before)

theorem unescapse_exact (hhost : mode ≠ .host) (hzone : mode ≠ .zone) (hs : s.length < 2 ^ 31)
    (value : Bytes) : Exact (mode == .queryComponent) s value (unescapse s value mode) := by
  have hfail : ¬ WellFormed s → ∃ err, unescapse s value mode = .failed (err, value) :=
    fun hwf => unescapse_failed hhost hzone hs hwf value
  have haccept : (∃ v, unescapse s value mode = .done v) ↔ WellFormed s := by
    constructor
    · rintro ⟨v, hv⟩
      by_contra hwf
      obtain ⟨err, herr⟩ := hfail hwf
      rw [hv] at herr
      cases herr
    · intro hwf
      exact ⟨_, unescapse_wellFormed hhost hzone hs hwf value⟩
  refine ⟨haccept, ?_, hfail⟩
  intro v hv
  rw [unescapse_wellFormed hhost hzone hs (haccept.1 ⟨v, hv⟩) value] at hv
  cases hv
  rfl

/-- **Exactly the well-formed strings are unescaped.** -/
theorem unescape_exact (s value : Bytes) (hs : s.length < 2 ^ 30) :
    Exact true s value (SrsHttpUri.queryUnescape s value) ∧
      Exact false s value (SrsHttpUri.pathUnescape s value) := by
  have hint : s.length < 2 ^ 31 := by omega
  constructor
  · have hquery : (EncodeMode.queryComponent ≠ .host) ∧ (EncodeMode.queryComponent ≠ .zone) := by decide
    exact unescapse_exact hquery.1 hquery.2 hint value
  · have hpath : (EncodeMode.pathSegment ≠ .host) ∧ (EncodeMode.pathSegment ≠ .zone) := by decide
    exact unescapse_exact hpath.1 hpath.2 hint value

/-- A triple with a digit behind it and a plus, over an output argument. -/
theorem unescape_exact_plus :
    Exact true (str "a+%410") (str "old") (SrsHttpUri.queryUnescape (str "a+%410") (str "old")) ∧
      Exact false (str "a+%410") (str "old") (SrsHttpUri.pathUnescape (str "a+%410") (str "old")) :=
  unescape_exact _ _ (by decide)

end Unescape

/-! ## Escaping -/

section Escape

variable {mode : EncodeMode} {s : Bytes}

/-- Every byte by itself. -/
theorem flatMap_eq_map {f : Byte → Bytes} {g : Byte → Byte} (h : ∀ c ∈ s, f c = [g c]) :
    s.flatMap f = s.map g := by
  rw [List.map_eq_flatMap]
  exact List.flatMap_congr h

/-- A space in a query component is to be escaped. -/
theorem shouldEscape_of_toPlus {c : Byte} (h : toPlus mode c = true) : shouldEscape c mode = true := by
  rw [toPlus, Bool.and_eq_true, beq_iff_eq, beq_iff_eq] at h
  obtain ⟨rfl, rfl⟩ := h
  decide

/-- Whichever way it takes, `escape` writes byte by byte. -/
theorem escape_eq_flatMap (hs : s.length < 2 ^ 31) (mode : EncodeMode) :
    escape s mode = s.flatMap (escapeByte mode) := by
  rw [escape, intLoop_eq_self hs]
  simp only [List.countP_eq_zero]
  by_cases hhex : ∀ c ∈ s, ¬ (shouldEscape c mode && !toPlus mode c) = true
  · have hplain : ∀ c ∈ s, toPlus mode c = false → shouldEscape c mode = false := by
      intro c hc hp
      have := hhex c hc
      rw [hp, Bool.not_false, Bool.and_true, Bool.not_eq_true] at this
      exact this
    by_cases hsp : ∀ c ∈ s, ¬ (shouldEscape c mode && toPlus mode c) = true
    · rw [if_pos ⟨hsp, hhex⟩, flatMap_eq_map (g := id), List.map_id]
      intro c hc
      have hp : toPlus mode c = false := by
        rw [← Bool.not_eq_true]
        intro hp
        exact hsp c hc (by rw [shouldEscape_of_toPlus hp, hp]; rfl)
      rw [escapeByte, hp, hplain c hc hp]
      rfl
    · rw [if_neg fun h => hsp h.1, if_pos hhex, List.drop_length, List.append_nil]
      -- There is a space that counts, so that this is a query component.
      have hmode : mode = .queryComponent := by
        by_contra hmode
        refine hsp fun c _ h => hmode ?_
        rw [toPlus, Bool.and_eq_true, Bool.and_eq_true] at h
        exact beq_iff_eq.1 h.2.2
      refine (flatMap_eq_map ?_).symm
      intro c hc
      by_cases hp : toPlus mode c = true
      · have hspace : c = chr ' ' := by
          rw [toPlus, Bool.and_eq_true] at hp
          exact beq_iff_eq.1 hp.1
        rw [escapeByte, if_pos hp, if_pos hspace]
      · have hspace : c ≠ chr ' ' := by
          intro hspace
          exact hp (by rw [toPlus, hmode, hspace]; rfl)
        rw [escapeByte, if_neg hp, hplain c hc (by simpa using hp), if_neg (by decide), if_neg hspace]
  · rw [if_neg fun h => hhex h.2, if_neg hhex]

/-! ### Reading back -/

/-- The escape of a byte has the digits of the byte. -/
theorem escapeCode_pair : ∀ c : Byte,
    ishex (escapeCode (c >>> 4)) = true ∧ ishex (escapeCode (c &&& 15)) = true ∧
      UInt8.ofNat (digitsValue 16 [escapeCode (c >>> 4), escapeCode (c &&& 15)]) = c :=
  forall_byte (by decide +kernel)

/-- The bytes that are not escaped are no percent sign, and no plus where a plus is a space. -/
theorem shouldEscape_false {c : Byte} (h : shouldEscape c mode = false) :
    c ≠ chr '%' ∧ plain (mode == .queryComponent) c = c := by
  constructor
  · rintro rfl
    revert h
    cases mode <;> decide
  · refine if_neg ?_
    rintro ⟨hq, rfl⟩
    rw [beq_iff_eq] at hq
    subst hq
    exact absurd h (by decide)

theorem wellFormed_escapeByte (mode : EncodeMode) (c : Byte) {rest : Bytes} (h : WellFormed rest) :
    WellFormed (escapeByte mode c ++ rest) := by
  obtain ⟨ha, hb, -⟩ := escapeCode_pair c
  rw [escapeByte]
  by_cases hplus : toPlus mode c = true
  · rw [if_pos hplus]
    exact (wellFormed_cons_iff (by decide)).2 h
  · rw [if_neg hplus]
    by_cases hesc : shouldEscape c mode = true
    · rw [if_pos hesc]
      exact (wellFormed_triple_iff ha hb).2 h
    · rw [if_neg hesc]
      exact (wellFormed_cons_iff (shouldEscape_false (by simpa using hesc)).1).2 h

theorem decoded_escapeByte (mode : EncodeMode) (c : Byte) (rest : Bytes) :
    decoded (mode == .queryComponent) (escapeByte mode c ++ rest) =
      c :: decoded (mode == .queryComponent) rest := by
  obtain ⟨-, -, hvalue⟩ := escapeCode_pair c
  rw [escapeByte]
  by_cases hplus : toPlus mode c = true
  · rw [if_pos hplus, List.singleton_append, decoded_cons (by decide), plain]
    rw [toPlus, Bool.and_eq_true] at hplus
    rw [if_pos ⟨hplus.2, rfl⟩, ← beq_iff_eq.1 hplus.1]
  · rw [if_neg hplus]
    by_cases hesc : shouldEscape c mode = true
    · rw [if_pos hesc]
      exact (decoded_triple _ _ rest).trans (by rw [hvalue])
    · obtain ⟨hpercent, hplain⟩ := shouldEscape_false (by simpa using hesc)
      rw [if_neg hesc, List.singleton_append, decoded_cons hpercent, hplain]

/-- What is written byte by byte is well formed, and stands for the bytes. -/
theorem flatMap_escapeByte (mode : EncodeMode) (s : Bytes) :
    WellFormed (s.flatMap (escapeByte mode)) ∧
      decoded (mode == .queryComponent) (s.flatMap (escapeByte mode)) = s := by
  induction s with
  | nil => exact ⟨wellFormed_nil, rfl⟩
  | cons c s ih =>
    rw [List.flatMap_cons]
    exact ⟨wellFormed_escapeByte mode c ih.1, by rw [decoded_escapeByte, ih.2]⟩

theorem length_flatMap_escapeByte (mode : EncodeMode) (s : Bytes) :
    (s.flatMap (escapeByte mode)).length ≤ 3 * s.length := by
  induction s with
  | nil => exact Nat.zero_le _
  | cons c s ih =>
    have hbyte : (escapeByte mode c).length ≤ 3 := by
      rw [escapeByte]
      split_ifs <;> simp
    rw [List.flatMap_cons, List.length_append, List.length_cons]
    omega

/-- What is escaped is read back. -/
theorem unescapse_escape (hhost : mode ≠ .host) (hzone : mode ≠ .zone) (hs : s.length < 2 ^ 29)
    (value : Bytes) : unescapse (escape s mode) value mode = .done s := by
  have hlen := length_flatMap_escapeByte mode s
  obtain ⟨hwf, hdecoded⟩ := flatMap_escapeByte mode s
  rw [escape_eq_flatMap (by omega), unescapse_wellFormed hhost hzone (by omega) hwf, hdecoded]

/-! ### What is written -/

/-- Bytes of a kind, and escapes. -/
inductive Escaped (kind : Byte → Prop) : Bytes → Prop
  | nil : Escaped kind []
  | byte {c : Byte} {rest : Bytes} : kind c → Escaped kind rest → Escaped kind (c :: rest)
  | triple {a b : Byte} {rest : Bytes} : ishex a = true → ishex b = true → Escaped kind rest →
      Escaped kind (chr '%' :: a :: b :: rest)

theorem escaped_flatMap {kind : Byte → Prop} (hplus : ∀ c, toPlus mode c = true → kind (chr '+'))
    (hkind : ∀ c, shouldEscape c mode = false → kind c) (s : Bytes) :
    Escaped kind (s.flatMap (escapeByte mode)) := by
  induction s with
  | nil => exact .nil
  | cons c s ih =>
    obtain ⟨ha, hb, -⟩ := escapeCode_pair c
    rw [List.flatMap_cons, escapeByte]
    by_cases hp : toPlus mode c = true
    · rw [if_pos hp]
      exact .byte (hplus c hp) ih
    · rw [if_neg hp]
      by_cases hesc : shouldEscape c mode = true
      · rw [if_pos hesc]
        exact .triple ha hb ih
      · rw [if_neg hesc]
        exact .byte (hkind c (by simpa using hesc)) ih

/-- A byte that no escape has is of the kind. -/
theorem Escaped.notMem {kind : Byte → Prop} {c : Byte} (h : Escaped kind s) (hpercent : c ≠ chr '%')
    (hhex : ishex c = false) (hkind : ¬ kind c) : c ∉ s := by
  have hne : ∀ d, ishex d = true → c ≠ d := by
    rintro d hd rfl
    rw [hhex] at hd
    cases hd
  induction h with
  | nil => exact List.not_mem_nil
  | byte hd _ ih =>
    rw [List.mem_cons, not_or]
    refine ⟨?_, ih⟩
    rintro rfl
    exact hkind hd
  | triple ha hb _ ih =>
    rw [List.mem_cons, List.mem_cons, List.mem_cons, not_or, not_or, not_or]
    exact ⟨hpercent, hne _ ha, hne _ hb, ih⟩

/-- The bytes that stand for themselves in a query component, and the plus. -/
def QueryByte (c : Byte) : Prop := isAlphanum c = true ∨ c ∈ str "-_.~+"

/-- The bytes that stand for themselves in a path segment. -/
def SegmentByte (c : Byte) : Prop := c ∉ str "/;,?%"

theorem queryEscape_escaped (hs : s.length < 2 ^ 31) : Escaped QueryByte (SrsHttpUri.queryEscape s) := by
  rw [SrsHttpUri.queryEscape, escape_eq_flatMap hs]
  refine escaped_flatMap (fun _ _ => Or.inr (by decide)) ?_ s
  exact forall_byte (by unfold QueryByte; decide +kernel)

theorem pathEscape_escaped (hs : s.length < 2 ^ 31) : Escaped SegmentByte (SrsHttpUri.pathEscape s) := by
  rw [SrsHttpUri.pathEscape, escape_eq_flatMap hs]
  refine escaped_flatMap ?_ ?_ s
  · intro c hc
    rw [toPlus, Bool.and_eq_true] at hc
    exact absurd hc.2 (by decide)
  · exact forall_byte (by unfold SegmentByte; decide +kernel)

/-- **Escaping is undone by unescaping**, whatever the output argument was.  A query component is
written with the bytes that stand for themselves in one and with escapes, a path segment
without `/`, `;`, `,` and `?`, and without a percent sign other than that of an escape. -/
theorem unescape_escape (s value : Bytes) (hs : s.length < 2 ^ 29) :
    SrsHttpUri.queryUnescape (SrsHttpUri.queryEscape s) value = .done s ∧
      SrsHttpUri.pathUnescape (SrsHttpUri.pathEscape s) value = .done s ∧
      Escaped QueryByte (SrsHttpUri.queryEscape s) ∧
      (∀ c ∈ str "/;,?", c ∉ SrsHttpUri.pathEscape s) ∧ WellFormed (SrsHttpUri.pathEscape s) := by
  refine ⟨unescapse_escape (by decide) (by decide) hs value,
    unescapse_escape (by decide) (by decide) hs value, queryEscape_escaped (by omega), ?_, ?_⟩
  · intro c hc
    have hfacts : ∀ c ∈ str "/;,?", c ≠ chr '%' ∧ ishex c = false ∧ c ∈ str "/;,?%" := by
      decide +kernel
    obtain ⟨hpercent, hhex, hmem⟩ := hfacts c hc
    exact (pathEscape_escaped (by omega)).notMem hpercent hhex fun h => h hmem
  · rw [SrsHttpUri.pathEscape, escape_eq_flatMap (by omega)]
    exact (flatMap_escapeByte .pathSegment s).1

/-- Spaces, signs, and a byte above 127. -/
theorem unescape_escape_bytes :
    SrsHttpUri.queryUnescape (SrsHttpUri.queryEscape (str "a b+%/" ++ [200])) (str "old") =
        .done (str "a b+%/" ++ [200]) ∧
      SrsHttpUri.pathUnescape (SrsHttpUri.pathEscape (str "a b+%/" ++ [200])) (str "old") =
        .done (str "a b+%/" ++ [200]) ∧
      Escaped QueryByte (SrsHttpUri.queryEscape (str "a b+%/" ++ [200])) ∧
      (∀ c ∈ str "/;,?", c ∉ SrsHttpUri.pathEscape (str "a b+%/" ++ [200])) ∧
      WellFormed (SrsHttpUri.pathEscape (str "a b+%/" ++ [200])) :=
  unescape_escape _ _ (by decide)

end Escape

end HttpProxy
