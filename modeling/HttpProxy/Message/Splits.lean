import HttpProxy.Message.Boundary

/-!
# A header in pieces

The same header may arrive in one read or in many.  The url, the values and the
line ends may be cut anywhere; a cut inside a field name, or right behind it, makes
`on_header_field` take the rest of the name for another field.

* `InFieldName` — byte strings that end inside a field name or right behind it.
* `parseMessage_splits` — two ways of delivering a header without such a cut give
  the same message.
* `parseMessage_cut_name` — with such a cut they do not.
-/

namespace HttpProxy

/-! ## Field names -/

/-- The bytes end inside a field name or right behind it: the last line, which is
not the first one, has only token characters. -/
def InFieldName (bs : Bytes) : Prop :=
  ∃ lines name, bs = lines ++ LF :: name ∧ (∃ b ∈ lines, b ≠ CR ∧ b ≠ LF) ∧ name ≠ [] ∧
    ∀ b ∈ name, token b ≠ 0

/-- Such a byte string ends in a token character. -/
theorem InFieldName.token_getLast {bs : Bytes} (h : InFieldName bs) :
    ∃ b, bs.getLast? = some b ∧ token b ≠ 0 := by
  obtain ⟨lines, name, rfl, -, hne, htok⟩ := h
  refine ⟨name.getLast hne, ?_, htok _ (List.getLast_mem hne)⟩
  rw [List.getLast?_append, List.getLast?_cons, List.getLast?_eq_some_getLast hne]
  rfl

/-- What the bytes of a header that is not complete look like in some of the phases. -/
structure Lines (bs : Bytes) (ph : Phase) : Prop where
  begun : ph ≠ .start → ∃ b ∈ bs, b ≠ CR ∧ b ≠ LF
  line : ph = .lineStart ∨ ph = .folding → ∃ lines, bs = lines ++ [LF]
  name : ph = .name → InFieldName bs

theorem Lines.step {bs : Bytes} {tr exit tr' : Bool} {ph ph' : Phase} {ch : Byte}
    {acts : List Act} {h : Head} (hl : Lines bs ph) (hm : Moves tr ph ch acts exit tr' ph')
    (hf : Head.Fits tr ph h) (hn : (h.step acts ph' ch).hp = none) : Lines (bs ++ [ch]) ph' := by
  have hbefore : h.hp = none := by
    by_contra hc
    exact Head.step_hp _ _ _ hc hn
  obtain ⟨-, htr, h1, h2⟩ := hf.before hbefore
  refine ⟨fun hph' => ?_, fun hph' => ?_, ?_⟩
  · by_cases hph : ph = .start
    · subst hph
      cases hm with
      | skip => exact absurd rfl hph'
      | «begin» hcr hlf => exact ⟨ch, by simp, hcr, hlf⟩
      | nameOpen hl | lastCr hl => cases hl
      | header hl | trailer hl => cases hl with | bare hl => cases hl
    · obtain ⟨b, hb, hne⟩ := hl.begun hph
      exact ⟨b, List.mem_append_left _ hb, hne⟩
  · -- A line starts only behind an LF.
    cases hm with
    | firstLf | firstEol | urlLf | gapLf | valueLf | fieldEol => exact ⟨bs, rfl⟩
    | passing => exact absurd rfl hf.resting
    | lastChunk | framing => exact absurd rfl h1
    | header hl he => exact absurd hn (Head.step_hp_of_header _ _)
    | _ => simp at hph'
  · rintro rfl
    cases hm with
    | passing => exact absurd rfl hf.resting
    | framing => exact absurd rfl h1
    | header hl he => exact absurd hn (Head.step_hp_of_header _ _)
    | nameOpen hh htok =>
      have hph : ph = .lineStart ∨ ph = .folding := by cases hh <;> simp
      obtain ⟨lines, rfl⟩ := hl.line hph
      obtain ⟨b, hb, hne⟩ := hl.begun (by rcases hph with rfl | rfl <;> decide)
      refine ⟨lines, [ch], by simp, ⟨b, ?_, hne⟩, by simp, by simpa using htok⟩
      rcases List.mem_append.1 hb with hb | hb
      · exact hb
      · exact absurd (List.mem_singleton.1 hb) hne.2
    | name htok =>
      obtain ⟨lines, name, rfl, hb, -, htoks⟩ := hl.name rfl
      refine ⟨lines, name ++ [ch], by simp, hb, by simp, ?_⟩
      intro b hb
      rcases List.mem_append.1 hb with hb | hb
      · exact htoks b hb
      · rw [List.mem_singleton.1 hb]
        exact htok

theorem readHead_lines {t : HttpParserType} {bs : Bytes} {r : Head.Reading}
    (hr : readHead t bs = .ok r) (hn : r.head.hp = none) : Lines bs r.parser.state.phase := by
  induction bs using List.reverseRecOn generalizing r with
  | nil =>
    cases hr
    cases t <;> exact ⟨fun h => absurd rfl h, by simp [HttpParser.init, HttpParser.startState, State.phase],
      by simp [HttpParser.init, HttpParser.startState, State.phase]⟩
  | append_singleton bs ch ih =>
    obtain ⟨r', acts, hr', hn', hf, hm, hhead⟩ := readHead_snoc hr hn
    exact (ih hr' hn').step hm hf (hhead ▸ hn)

/-- No cut between the pieces lies inside a field name or right behind one. -/
def NoNameCut (ps : List Bytes) : Prop :=
  ∀ as bs, ps = as ++ bs → bs ≠ [] → ¬ InFieldName as.flatten

/-- It is enough that no piece but the last ends in a token character. -/
theorem noNameCut_of_getLast {ps : List Bytes}
    (h : ∀ b ∈ ps.dropLast, b.getLast?.map token = some 0) : NoNameCut ps := by
  rintro as bs rfl hbs hin
  obtain ⟨c, hc, htok⟩ := hin.token_getLast
  rcases List.eq_nil_or_concat as with rfl | ⟨as, a, rfl⟩
  · simp at hc
  · rw [List.concat_eq_append] at h hc
    have ha := h a (by rw [List.dropLast_append_of_ne_nil hbs]; simp)
    obtain ⟨c', hc', htok'⟩ := Option.map_eq_some_iff.1 ha
    rw [List.flatten_concat, List.getLast?_append, hc'] at hc
    cases hc
    exact htok htok'

/-- A block does not start inside a field name. -/
theorem NoNameCut.phase_ne {t : HttpParserType} {as bs : List Bytes} {r : Head.Reading}
    (hcut : NoNameCut (as ++ bs)) (hH : IsHeader t (as ++ bs).flatten) (hbs : bs.flatten ≠ [])
    (hr : readHead t as.flatten = .ok r) : r.parser.state.phase ≠ .name := by
  intro hname
  rw [List.flatten_append] at hH
  have hlines := readHead_lines hr (hH.before_append hbs hr)
  refine hcut as bs rfl ?_ (hlines.name hname)
  rintro rfl
  exact hbs rfl

namespace SrsHttpParser

/-- What `parse_message` makes of a header that arrives without a cut inside a field
name depends on its bytes only. -/
theorem parseMessage_of_delivers (pa : Option Bytes) {o : SrsHttpParser} {src : Source} {ps : List Bytes}
    {H : Bytes} (hH : IsHeader o.type H) (hd : src.Delivers ps) (hps : ps.flatten = H)
    (hb : src.buffer.nbBuffer = SRS_DEFAULT_RECV_BUFFER_SIZE) (hcut : NoNameCut ps) :
    (parseMessage pa o src).err =
        (match readHead o.type H with
          | .error _ => some .httpParseHeader
          | .ok r => (messageOf pa o r.head).1) ∧
      (parseMessage pa o src).msg =
        (match readHead o.type H with
          | .error _ => none
          | .ok r => (messageOf pa o r.head).2) := by
  subst hps
  cases hread : readHead o.type ps.flatten with
  | error e =>
    refine parseMessage_rejects pa hd hb (fun as bs hps hbs r hr => ?_) hread
    subst hps
    have hne : bs.flatten ≠ [] := by
      obtain ⟨b, hb'⟩ := List.exists_mem_of_ne_nil bs hbs
      have := (Source.delivers_prefix hd).2 b (List.mem_append_right as hb')
      simpa using ⟨b, hb', this⟩
    rw [List.flatten_append] at hH
    exact hH.before_append hne hr
  | ok r =>
    rcases List.eq_nil_or_concat ps with rfl | ⟨as, D, rfl⟩
    · exact absurd rfl hH.ne_nil
    rw [List.concat_eq_append] at *
    have hflat : (as ++ [D]).flatten = as.flatten ++ D := by simp
    have hD : D ≠ [] := (Source.delivers_prefix hd).2 D (by simp)
    obtain ⟨r₀, hr₀, -⟩ := read_append_ok (hflat ▸ hread)
    have hn₀ : r₀.head.hp = none := by
      rw [hflat] at hH
      exact hH.before_append hD hr₀
    obtain ⟨g, o', src', h', hloop, rfl, hreach, ht, hj, -, -⟩ :=
      reached_of_delivers hd hb hr₀ hn₀ fun _ : True => fun as' bs' has hbs r hr => by
        subst has
        rw [List.append_assoc] at hcut hH
        exact hcut.phase_ne hH (by simp [hD]) hr
    have hname : o'.parser.state.phase ≠ .name := by
      obtain ⟨r', hr', hp, -⟩ := hreach.read
      rw [← hp]
      exact hcut.phase_ne hH (by simpa using hD) hr'
    have h0 : src'.buffer.size ≠ 0 := by
      rw [← SrsFastStream.length_unread]
      exact fun h => hD (List.length_eq_zero_iff.1 h)
    rw [hflat] at hread hH
    have hread' := hread
    rw [hreach.read_append] at hread
    cases hD' : Head.read o'.parser h' src'.buffer.unread with
    | error e => rw [hD'] at hread; cases hread
    | ok r' =>
      rw [hD'] at hread
      cases hread
      have hdone : r'.head.done = true :=
        (hH.completes (r := r'.more as.flatten.length) hread').1
      obtain ⟨o'', hc, ht', hj', htl, hb', hloop'⟩ :=
        hreach.parseLoop_last g h0 (fun _ : True => ⟨trivial, hname⟩)
          (hreach.before_header (x := []) (by simp) hH) hD' hdone
      rw [consume_all (hreach.headerBytes_eq hH hD' htl hb')] at hloop'
      exact parseMessage_of_loop pa (hloop.trans hloop') hc (ht'.trans ht) (hj'.trans hj)

/-- **Fragmentation invariance.**  Two ways of delivering the same header, neither with
a cut inside a field name or right behind one, give the same message: the same url,
fields and cookies, or the same error. -/
theorem parseMessage_splits (pa : Option Bytes) {o : SrsHttpParser} {src₁ src₂ : Source}
    {ps₁ ps₂ : List Bytes} {H : Bytes} (hH : IsHeader o.type H)
    (hd₁ : src₁.Delivers ps₁) (hd₂ : src₂.Delivers ps₂)
    (he₁ : ps₁.flatten = H) (he₂ : ps₂.flatten = H)
    (hb₁ : src₁.buffer.nbBuffer = SRS_DEFAULT_RECV_BUFFER_SIZE)
    (hb₂ : src₂.buffer.nbBuffer = SRS_DEFAULT_RECV_BUFFER_SIZE)
    (hc₁ : NoNameCut ps₁) (hc₂ : NoNameCut ps₂) :
    (parseMessage pa o src₁).err = (parseMessage pa o src₂).err ∧
      (parseMessage pa o src₁).msg = (parseMessage pa o src₂).msg := by
  obtain ⟨h1, h2⟩ := parseMessage_of_delivers pa hH hd₁ he₁ hb₁ hc₁
  obtain ⟨h3, h4⟩ := parseMessage_of_delivers pa hH hd₂ he₂ hb₂ hc₂
  exact ⟨h1.trans h3.symm, h2.trans h4.symm⟩

/-- A small request header. -/
def exampleHeader : Bytes := str "GET /a HTTP/1.1\r\nHost: x.com:81\r\nRange: b\r\n\r\n"

theorem exampleHeader_isHeader : IsHeader .request exampleHeader :=
  (isHeader_of_accepts (by decide)).1

/-- The header in one piece, and with a cut in front of the value of `Host`. -/
theorem parseMessage_splits_value :
    (parseMessage none (new .request) (Source.ofPieces [exampleHeader])).msg =
      (parseMessage none (new .request)
        (Source.ofPieces [exampleHeader.take 23, exampleHeader.drop 23])).msg :=
  (@parseMessage_splits none (new .request) _ _ [exampleHeader]
    [exampleHeader.take 23, exampleHeader.drop 23] exampleHeader exampleHeader_isHeader
    (by decide) (by decide) (by decide) (by decide) rfl rfl
    (noNameCut_of_getLast (by decide)) (noNameCut_of_getLast (by decide))).2

/-- A cut inside the name `Range` leaves a message with two other fields in its place. -/
theorem parseMessage_cut_name :
    IsHeader .request exampleHeader ∧
      (Source.ofPieces [exampleHeader]).Delivers [exampleHeader] ∧
      (Source.ofPieces [exampleHeader.take 35, exampleHeader.drop 35]).Delivers
        [exampleHeader.take 35, exampleHeader.drop 35] ∧
      (parseMessage none (new .request) (Source.ofPieces [exampleHeader])).msg.map (·.header.headers.entries) =
        some [(str "Host", str "x.com:81"), (str "Range", str "b")] ∧
      (parseMessage none (new .request)
          (Source.ofPieces [exampleHeader.take 35, exampleHeader.drop 35])).msg.map
          (·.header.headers.entries) =
        some [(str "Host", str "x.com:81"), (str "Nge", str "b"), (str "Ra", [])] := by
  refine ⟨exampleHeader_isHeader, ?_, ?_, ?_, ?_⟩
  · decide
  · decide
  · decide
  · decide

end SrsHttpParser

end HttpProxy
