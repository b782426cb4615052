import HttpProxy.Message.Header
import HttpProxy.Parser.Phase

/-!
# The header of a message, read byte by byte

What a message header says, without blocks, marks or callbacks: a url and a list
of fields, to which every byte of a token is added as it is read.  This is the
abstract reading that the callbacks of `SrsHttpParser` are compared with.

* `Head.read` — read a byte string from a state of the http-parser on.
* `Head.header` — the `SrsHttpHeader` that the fields make up.
* `Head.Fits` — an invariant of every reading: each field has a name, and where a
  phase lies inside a field or in the body there is a field or a complete header.
-/

namespace HttpProxy

/-- A header as far as it has been read. -/
structure Head where
  /-- The http-parser at the end of the last header that is complete. -/
  hp : Option HttpParser
  /-- Has a header been completed, and no other message begun behind it? -/
  done : Bool
  url : Bytes
  /-- Names and values, the last field first. -/
  fields : List (Bytes × Bytes)
  deriving DecidableEq

/-- What a field adds to a header: `Set-Cookie` goes into its own list. -/
def SrsHttpHeader.put (h : SrsHttpHeader) (f : Bytes × Bytes) : SrsHttpHeader :=
  if f.1 = str "Set-Cookie" ∨ f.1 = str "set-cookie" then h.addCookie f.2 else h.set f.1 f.2

namespace Head

/-- Nothing read. -/
def empty : Head := ⟨none, false, [], []⟩

/-- An action; the ends of tokens do not matter here. -/
def act (h : Head) : Act → Head
  | .mark .headerField => { h with fields := ([], []) :: h.fields }
  | .mark .body => { h with done := true }
  | .notify .messageBegin => { h with done := false }
  | .notify (.headersComplete hp) => { h with hp := some hp, done := true }
  | .notify .messageComplete => { h with done := true }
  | _ => h

/-- A byte of a token. -/
def byte (h : Head) (k : Option Mark) (ch : Byte) : Head :=
  match k, h.fields with
  | some .url, _ => { h with url := h.url ++ [ch] }
  | some .headerField, (n, v) :: fs => { h with fields := (n ++ [ch], v) :: fs }
  | some .headerValue, (n, v) :: fs => { h with fields := (n, v ++ [ch]) :: fs }
  | _, _ => h

/-- A byte read in a phase, given the actions and the phase it leads to. -/
def step (h : Head) (acts : List Act) (ph : Phase) (ch : Byte) : Head :=
  (acts.foldl act h).byte ph.token ch

/-- The outcome of a reading: the parser, the header, the number of bytes read, and
whether the connection leaves HTTP there. -/
structure Reading where
  parser : HttpParser
  head : Head
  consumed : Nat
  exited : Bool
  deriving DecidableEq

/-- Read bytes until they are used up or the connection leaves HTTP. -/
def read : HttpParser → Head → Bytes → Except HttpErrno Reading
  | p, h, [] => .ok ⟨p, h, 0, false⟩
  | p, h, ch :: rest =>
      match p.stepByte ch with
      | .error e => .error e
      | .ok o =>
          let h' := h.step o.acts o.parser.state.phase ch
          if o.exit then .ok ⟨o.parser, h', 1, true⟩
          else
            match read o.parser h' rest with
            | .error e => .error e
            | .ok r => .ok { r with consumed := r.consumed + 1 }

/-- The header made of the fields that are complete. -/
def closed : List (Bytes × Bytes) → SrsHttpHeader
  | [] => .empty
  | f :: fs => (closed fs).put f

/-- The header made of all the fields.  The last one is put in by itself: it is
left out if its value is empty, and it is never taken for a cookie. -/
def header (h : Head) : SrsHttpHeader :=
  match h.fields with
  | [] => .empty
  | (n, v) :: fs => if v = [] then closed fs else (closed fs).set n v

/-! ## The invariant of a reading -/

/-- The phases that lie inside a field. -/
def inField : Phase → Bool
  | .name | .gap | .value | .fieldEol | .folding => true
  | _ => false

/-- Every field has a name, a phase inside a field or url has one, and before the
end of the first header there is no body. -/
structure Fits (tr : Bool) (ph : Phase) (h : Head) : Prop where
  named : ∀ f ∈ h.fields, f.1 ≠ []
  inside : inField ph = true → h.fields ≠ []
  inUrl : ph = .url → h.url ≠ []
  resting : ph ≠ .passing
  before : h.hp = none → h.done = false ∧ tr = false ∧ ph ≠ .framing ∧ ph ≠ .content

theorem fits_empty : Fits false .start .empty :=
  ⟨by simp [empty], by simp [inField], by simp, by decide, fun _ => ⟨rfl, rfl, by decide, by decide⟩⟩

/-- A step that touches no field, to a phase that is inside of one only if the
phase before was. -/
theorem Fits.quiet {tr tr' : Bool} {ph ph' : Phase} {h h' : Head} (hf : Fits tr ph h)
    (hfields : h'.fields = h.fields) (hin : inField ph' = true → inField ph = true)
    (hrest : ph' ≠ .url ∧ ph' ≠ .passing)
    (hbefore : h'.hp = none → h'.done = false ∧ tr' = false ∧ ph' ≠ .framing ∧ ph' ≠ .content) :
    Fits tr' ph' h' :=
  ⟨by rw [hfields]; exact hf.named, fun h => by rw [hfields]; exact hf.inside (hin h),
    fun h => absurd h hrest.1, hrest.2, hbefore⟩

/-- A step inside the header. -/
theorem Fits.header {tr : Bool} {ph ph' : Phase} {h : Head} (hf : Fits tr ph h)
    (hin : inField ph' = true → inField ph = true)
    (hph : ph' ≠ .url ∧ ph' ≠ .passing ∧ ph' ≠ .framing ∧ ph' ≠ .content) : Fits tr ph' h :=
  hf.quiet rfl hin ⟨hph.1, hph.2.1⟩ fun hn => ⟨(hf.before hn).1, (hf.before hn).2.1, hph.2.2⟩

theorem foldl_act_ended {acts : List Act} {exit : Bool} {ph : Phase} (he : Ended acts exit ph)
    (h : Head) : (acts.foldl act h).fields = h.fields ∧ (acts.foldl act h).url = h.url ∧
      (acts.foldl act h).hp = h.hp ∧ (h.done = true → (acts.foldl act h).done = true) := by
  cases he with
  | body => exact ⟨rfl, rfl, rfl, id⟩
  | message => exact ⟨rfl, rfl, rfl, fun _ => rfl⟩

theorem foldl_act_lineHead {acts : List Act} {ph : Phase} (hl : LineHead ph acts) (h : Head) :
    acts.foldl act h = h := by
  cases hl <;> rfl

theorem foldl_act_lastLine {acts : List Act} {ph : Phase} (hl : LastLine ph acts) (h : Head) :
    acts.foldl act h = h := by
  cases hl with
  | bare hl => exact foldl_act_lineHead hl h
  | crlf => rfl

theorem byte_hp (h : Head) (k : Option Mark) (ch : Byte) : (h.byte k ch).hp = h.hp := by
  unfold byte
  split <;> rfl

theorem byte_done (h : Head) (k : Option Mark) (ch : Byte) : (h.byte k ch).done = h.done := by
  unfold byte
  split <;> rfl

theorem byte_url (h : Head) (ch : Byte) : h.byte (some .url) ch = { h with url := h.url ++ [ch] } :=
  rfl

theorem byte_name {h : Head} {n v : Bytes} {fs : List (Bytes × Bytes)}
    (hf : h.fields = (n, v) :: fs) (ch : Byte) :
    h.byte (some .headerField) ch = { h with fields := (n ++ [ch], v) :: fs } := by
  simp only [byte, hf]

theorem byte_value {h : Head} {n v : Bytes} {fs : List (Bytes × Bytes)}
    (hf : h.fields = (n, v) :: fs) (ch : Byte) :
    h.byte (some .headerValue) ch = { h with fields := (n, v ++ [ch]) :: fs } := by
  simp only [byte, hf]

theorem Fits.byte_url {tr : Bool} {ph : Phase} {h : Head} (hf : Fits tr ph h)
    (ch : Byte) : Fits tr .url (h.byte (some .url) ch) := by
  refine ⟨hf.named, by simp [inField], by simp [byte], by decide, fun hn => ?_⟩
  exact ⟨(hf.before hn).1, (hf.before hn).2.1, by decide, by decide⟩

theorem Fits.byte_name {tr : Bool} {h : Head} (hf : Fits tr .name h) (ch : Byte) :
    Fits tr .name (h.byte (some .headerField) ch) := by
  obtain ⟨hnamed, hin, -, -, hbefore⟩ := hf
  cases hfs : h.fields with
  | nil => exact absurd hfs (hin rfl)
  | cons f fs =>
    rw [Head.byte_name hfs]
    refine ⟨?_, by simp, by simp, by decide, hbefore⟩
    intro g hg
    rcases List.mem_cons.1 hg with rfl | hg
    · simp
    · exact hnamed g (by rw [hfs]; exact List.mem_cons_of_mem _ hg)

theorem Fits.byte_value {tr : Bool} {h : Head} (hf : Fits tr .value h) (ch : Byte) :
    Fits tr .value (h.byte (some .headerValue) ch) := by
  obtain ⟨hnamed, hin, -, -, hbefore⟩ := hf
  cases hfs : h.fields with
  | nil => exact absurd hfs (hin rfl)
  | cons f fs =>
    rw [Head.byte_value hfs]
    refine ⟨?_, by simp, by simp, by decide, hbefore⟩
    intro g hg
    rcases List.mem_cons.1 hg with rfl | hg
    · exact hnamed f (by rw [hfs]; exact List.mem_cons_self)
    · exact hnamed g (by rw [hfs]; exact List.mem_cons_of_mem _ hg)

/-- In the body a header is complete. -/
theorem Fits.completed {tr : Bool} {ph : Phase} {h : Head} (hf : Fits tr ph h)
    (hph : tr = true ∨ ph = .framing ∨ ph = .content) : h.hp ≠ none := by
  intro hn
  obtain ⟨-, htr, hfr, hco⟩ := hf.before hn
  rcases hph with h | h | h
  · exact absurd h (by simp [htr])
  · exact hfr h
  · exact hco h

/-- Every byte keeps the invariant. -/
theorem Fits.step {tr exit tr' : Bool} {ph ph' : Phase} {ch : Byte} {acts : List Act} {h : Head}
    (hm : Moves tr ph ch acts exit tr' ph') (hf : Fits tr ph h) :
    Fits tr' ph' (h.step acts ph' ch) := by
  cases hm with
  | passing => exact absurd rfl hf.resting
  | «begin» =>
    refine hf.quiet rfl (by simp [inField]) (by decide) fun _ => ⟨rfl, rfl, by decide, by decide⟩
  | urlOpen => exact hf.byte_url ch
  | url => exact hf.byte_url ch
  | nameOpen hl htok =>
    rw [Head.step, List.foldl_append, foldl_act_lineHead hl]
    refine ⟨?_, by simp [byte, act, Phase.token], by simp, by decide,
      fun hn => ⟨(hf.before hn).1, (hf.before hn).2.1, by decide, by decide⟩⟩
    intro f hfm
    rcases List.mem_cons.1 (show f ∈ ([ch], []) :: h.fields from hfm) with rfl | hfm
    · simp
    · exact hf.named f hfm
  | name => exact hf.byte_name ch
  | valueOpen | foldValue =>
    exact Fits.byte_value (hf.header (by simp [inField]) (by decide)) ch
  | value => exact hf.byte_value ch
  | header hl he =>
    rw [Head.step, List.foldl_append, foldl_act_lastLine hl, List.foldl_cons]
    cases he with
    | body _ hph =>
      rcases hph with rfl | rfl <;>
        exact hf.quiet rfl (by simp [inField]) (by decide) (by simp [act, byte, Phase.token])
    | message =>
      exact hf.quiet rfl (by simp [inField]) (by decide) (by simp [act, byte, Phase.token])
  | lastCr hl =>
    rw [Head.step, foldl_act_lineHead hl]
    exact hf.header (by simp [inField]) (by decide)
  | trailer hl =>
    rw [Head.step, List.foldl_append, foldl_act_lastLine hl]
    exact hf.quiet rfl (by simp [inField]) (by decide)
      fun hn => absurd hn (hf.completed (.inl rfl))
  | framing hph =>
    rcases hph with rfl | rfl <;>
      exact hf.quiet rfl (by simp [inField]) (by decide)
        fun hn => absurd hn (hf.completed (.inr (.inl rfl)))
  | lastChunk =>
    exact hf.quiet rfl (by simp [inField]) (by decide)
      fun hn => absurd hn (hf.completed (.inr (.inl rfl)))
  | content | contentEnd | contentMessage =>
    exact hf.quiet rfl (by simp [inField]) (by decide)
      fun hn => absurd hn (hf.completed (.inr (.inr rfl)))
  | _ => exact hf.header (by simp [inField]) (by decide)

/-! ## Readings -/

/-- The outcome of more bytes behind others. -/
def Reading.more (r : Reading) (n : Nat) : Reading := { r with consumed := r.consumed + n }

@[simp] theorem Reading.more_parser (r : Reading) (n : Nat) : (r.more n).parser = r.parser := rfl
@[simp] theorem Reading.more_head (r : Reading) (n : Nat) : (r.more n).head = r.head := rfl
@[simp] theorem Reading.more_exited (r : Reading) (n : Nat) : (r.more n).exited = r.exited := rfl
@[simp] theorem Reading.more_consumed (r : Reading) (n : Nat) :
    (r.more n).consumed = r.consumed + n := rfl

/-- What reads a byte and more bytes successfully. -/
theorem read_cons_ok {p : HttpParser} {h : Head} {ch : Byte} {bs : Bytes} {r : Reading}
    (hr : read p h (ch :: bs) = .ok r) :
    ∃ o, p.stepByte ch = .ok o ∧
      ((o.exit = true ∧ r = ⟨o.parser, h.step o.acts o.parser.state.phase ch, 1, true⟩) ∨
        (o.exit = false ∧ ∃ r', read o.parser (h.step o.acts o.parser.state.phase ch) bs = .ok r' ∧
          r = r'.more 1)) := by
  rw [read] at hr
  cases hs : p.stepByte ch with
  | error e => rw [hs] at hr; cases hr
  | ok o =>
    simp only [hs] at hr
    refine ⟨o, rfl, ?_⟩
    split_ifs at hr with hexit
    · exact .inl ⟨hexit, (Except.ok.inj hr).symm⟩
    · refine .inr ⟨by simpa using hexit, ?_⟩
      cases hr' : read o.parser (h.step o.acts o.parser.state.phase ch) bs with
      | error e => rw [hr'] at hr; cases hr
      | ok r' =>
        rw [hr'] at hr
        exact ⟨r', rfl, (Except.ok.inj hr).symm⟩

/-- A byte in front of bytes that are read. -/
theorem read_cons {p : HttpParser} {h : Head} {ch : Byte} {bs : Bytes} {o : Out} {r : Reading}
    (hs : p.stepByte ch = .ok o) (hexit : o.exit = false)
    (hr : read o.parser (h.step o.acts o.parser.state.phase ch) bs = .ok r) :
    read p h (ch :: bs) = .ok (r.more 1) := by
  simp only [read, hs, hexit, hr, Bool.false_eq_true, if_false]
  rfl

theorem read_singleton {p : HttpParser} {ch : Byte} {o : Out} (hs : p.stepByte ch = .ok o)
    (h : Head) :
    read p h [ch] = .ok ⟨o.parser, h.step o.acts o.parser.state.phase ch, 1, o.exit⟩ := by
  rw [read, hs]
  cases hexit : o.exit <;> simp [read, hexit]

theorem read_append (p : HttpParser) (h : Head) (as bs : Bytes) :
    read p h (as ++ bs) =
      match read p h as with
      | .error e => .error e
      | .ok r =>
          if r.exited then .ok r else (read r.parser r.head bs).map (·.more r.consumed) := by
  induction as generalizing p h with
  | nil =>
    simp only [List.nil_append, read, Bool.false_eq_true, if_false]
    cases read p h bs <;> rfl
  | cons ch as ih =>
    rw [List.cons_append, read, read]
    cases p.stepByte ch with
    | error e => rfl
    | ok o =>
      simp only
      split_ifs with hexit
      · rfl
      · rw [ih]
        cases read o.parser (h.step o.acts o.parser.state.phase ch) as with
        | error e => rfl
        | ok r =>
          cases hr : r.exited with
          | true => simp [hr]
          | false =>
            simp only [hr, Bool.false_eq_true, if_false]
            cases read r.parser r.head bs with
            | error e => rfl
            | ok r' => simp [Except.map, Reading.more, Nat.add_assoc]

/-- A reading keeps the invariant. -/
theorem Fits.read {p : HttpParser} {h : Head} {bs : Bytes} {r : Reading}
    (hf : Fits p.flags.trailing p.state.phase h) (hr : Head.read p h bs = .ok r) :
    Fits r.parser.flags.trailing r.parser.state.phase r.head := by
  induction bs generalizing p h r with
  | nil => cases hr; exact hf
  | cons ch bs ih =>
    obtain ⟨o, hs, ⟨-, rfl⟩ | ⟨-, r', hr', rfl⟩⟩ := read_cons_ok hr
    · exact hf.step (HttpParser.stepByte_moves hs)
    · exact ih (r := r') (hf.step (HttpParser.stepByte_moves hs)) hr'

theorem read_consumed {p : HttpParser} {h : Head} {bs : Bytes} {r : Reading}
    (hr : read p h bs = .ok r) :
    r.consumed ≤ bs.length ∧ (r.exited = false → r.consumed = bs.length) := by
  induction bs generalizing p h r with
  | nil => cases hr; exact ⟨Nat.le_refl _, fun _ => rfl⟩
  | cons ch bs ih =>
    obtain ⟨o, hs, ⟨-, rfl⟩ | ⟨-, r', hr', rfl⟩⟩ := read_cons_ok hr
    · simp
    · obtain ⟨h1, h2⟩ := ih hr'
      refine ⟨Nat.succ_le_succ h1, fun he => ?_⟩
      simpa [Reading.more] using h2 he

/-- The bytes that were read make up the outcome. -/
theorem read_take_consumed {p : HttpParser} {h : Head} {bs : Bytes} {r : Reading}
    (hr : read p h bs = .ok r) : read p h (bs.take r.consumed) = .ok r := by
  induction bs generalizing p h r with
  | nil => simpa using hr
  | cons ch bs ih =>
    obtain ⟨o, hs, ⟨hexit, rfl⟩ | ⟨hexit, r', hr', rfl⟩⟩ := read_cons_ok hr
    · simp [read, hs, hexit]
    · have := ih hr'
      simp only [Reading.more, List.take_succ_cons, read, hs, hexit, Bool.false_eq_true, if_false,
        this]

/-- A byte that leaves HTTP completes a message. -/
theorem done_of_exit {tr tr' : Bool} {ph ph' : Phase} {ch : Byte} {acts : List Act} {h : Head}
    (hm : Moves tr ph ch acts true tr' ph') (hph : ph ≠ .passing) :
    (h.step acts ph' ch).done = true := by
  cases hm with
  | passing => exact absurd rfl hph
  | header hl he => cases he; simp [step, act, byte, Phase.token]
  | trailer hl => simp [step, act, byte, Phase.token]
  | contentMessage => rfl

/-- What leaves HTTP is between messages. -/
theorem read_exited {p : HttpParser} {h : Head} {bs : Bytes} {r : Reading}
    (hf : Fits p.flags.trailing p.state.phase h) (hr : read p h bs = .ok r)
    (hex : r.exited = true) : r.parser.state.phase = .start := by
  induction bs generalizing p h r with
  | nil => cases hr; cases hex
  | cons ch bs ih =>
    obtain ⟨o, hs, ⟨hexit, rfl⟩ | ⟨-, r', hr', rfl⟩⟩ := read_cons_ok hr
    · have hm := HttpParser.stepByte_moves hs
      rw [hexit] at hm
      exact hm.exit_start hf.resting
    · exact ih (r := r') (hf.step (HttpParser.stepByte_moves hs)) hr' hex

/-- Before the first header is complete, nothing leaves HTTP. -/
theorem not_exited {p : HttpParser} {h : Head} {bs : Bytes} {r : Reading}
    (hf : Fits p.flags.trailing p.state.phase h) (hr : read p h bs = .ok r)
    (hn : r.head.hp = none) : r.exited = false := by
  induction bs generalizing p h r with
  | nil => cases hr; rfl
  | cons ch bs ih =>
    obtain ⟨o, hs, ⟨hexit, rfl⟩ | ⟨-, r', hr', rfl⟩⟩ := read_cons_ok hr
    · have hm := HttpParser.stepByte_moves hs
      have hb := ((hf.step hm).before hn).1
      rw [hexit] at hm
      rw [done_of_exit hm hf.resting] at hb
      cases hb
    · exact ih (r := r') (hf.step (HttpParser.stepByte_moves hs)) hr' hn

end Head

end HttpProxy
