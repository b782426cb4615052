import HttpProxy.Message.Splits

/-!
# The fields of a header

What a reading of the http-parser collects, and where it goes: into the map under the
canonical spelling of the name, or into the list of cookies.

* `Clean` — an invariant of every reading: names are token characters, values have no line
  ends.
* `header_eq` — the map and the list that the fields make up.
-/

namespace HttpProxy

/-! ## Names, up to their case -/

theorem token_capital (ch : Byte) : isLower ch = true → token (ch - 32) = token ch :=
  forall_byte (P := fun ch => isLower ch = true → token (ch - 32) = token ch) (by decide +kernel) ch

/-- A token character is none of the characters that end a name. -/
theorem ne_of_token {ch : Byte} (h : token ch ≠ 0) : ch ≠ CR ∧ ch ≠ LF ∧ ch ≠ chr ':' := by
  refine ⟨?_, ?_, ?_⟩ <;> rintro rfl <;> exact h (by decide)

theorem capitalise_map_token (first : Bool) (key : Bytes) :
    (capitalise first key).map token = key.map token := by
  induction key generalizing first with
  | nil => rfl
  | cons ch key ih =>
    rw [capitalise, List.map_cons, List.map_cons, ih]
    split_ifs with h
    · rw [token_capital ch (Bool.and_eq_true _ _ ▸ h).2]
    · rfl

/-- The canonical spelling of a name differs from it by the case of letters. -/
theorem canonicalKey_map_token (key : Bytes) : (canonicalKey key).map token = key.map token :=
  capitalise_map_token true key

/-! ## The parser at the end of a header -/

namespace HttpParser

variable {p hp : HttpParser} {ch : Byte} {o : Out}

/-- What is left of the parser that `on_headers_complete` sees; it does not have both kinds of
framing. -/
def Reported (hp : HttpParser) (o : Out) : Prop :=
  o.parser = { hp with nread := o.parser.nread, state := o.parser.state } ∧
    (hp.flags.chunked = true → hp.flags.contentLength = false)

theorem headersAlmostDone_reported (h : p.headersAlmostDone ch = .ok o)
    (hm : Act.notify (.headersComplete hp) ∈ o.acts) : Reported hp o := by
  simp only [headersAlmostDone, messageDone] at h
  split_ifs at h with _ _ hboth
  · cases h
    simp at hm
  · have hone : p.flags.chunked = true → p.flags.contentLength = false := by simpa using hboth
    obtain ⟨o', ho, rfl⟩ := after_ok h
    simp only [headersDone, goTo] at ho
    split_ifs at ho <;> cases ho <;> simp at hm <;> subst hm <;> exact ⟨rfl, hone⟩

theorem headerFieldStart_reported (h : p.headerFieldStart ch = .ok o)
    (hm : Act.notify (.headersComplete hp) ∈ o.acts) : Reported hp o := by
  simp only [headerFieldStart, goTo] at h
  split_ifs at h
  · cases h
    simp at hm
  · exact headersAlmostDone_reported h hm
  all_goals
    cases h
    simp at hm

/-- A header is complete only behind the end of a line. -/
theorem moves_complete {tr exit tr' : Bool} {ph ph' : Phase} {acts : List Act}
    (hmove : Moves tr ph ch acts exit tr' ph') (hm : Act.notify (.headersComplete hp) ∈ acts) :
    ph = .lineStart ∨ ph = .folding ∨ ph = .lastLine ∨ ph = .passing := by
  have hlast : ∀ {ph : Phase} {acts : List Act}, LastLine ph acts →
      ph = .lineStart ∨ ph = .folding ∨ ph = .lastLine ∨ ph = .passing := by
    intro ph acts hl
    cases hl with
    | bare hl => cases hl <;> simp
    | crlf => simp
  cases hmove with
  | header hl he => exact hlast hl
  | nameOpen hl htok => exact hlast (.bare hl)
  | lastCr hl => exact hlast (.bare hl)
  | trailer hl => exact hlast hl
  | passing => simp
  | _ => simp at hm

/-- At the end of a header the parser is as it was reported. -/
theorem stepByte_reported (h : p.stepByte ch = .ok o) (hph : p.state.phase ≠ .passing)
    (hm : Act.notify (.headersComplete hp) ∈ o.acts) : Reported hp o := by
  have hphase := moves_complete (stepByte_moves h) hm
  have hdispatch : { p with nread := p.nread + 1 }.dispatch ch = .ok o := by
    unfold stepByte at h
    split_ifs at h with hpar
    · exact h
    · exfalso
      revert hpar hphase hph
      cases p.state <;> simp [State.phase, State.parsingHeader]
  cases hst : p.state <;> simp only [hst, State.phase] at hphase hph <;> try simp at hphase
  case headersAlmostDone =>
    simp only [dispatch, hst] at hdispatch
    exact headersAlmostDone_reported hdispatch hm
  case headerFieldStart =>
    simp only [dispatch, hst] at hdispatch
    exact headerFieldStart_reported hdispatch hm
  case headerValueLws =>
    simp only [dispatch, hst, headerValueLws] at hdispatch
    split_ifs at hdispatch
    · rw [(headerValueStart_ok hdispatch).1] at hm
      simp at hm
    · rw [(headerValueStart_ok hdispatch).1] at hm
      simp at hm
    · exact headerFieldStart_reported hdispatch hm
  case headerValueDiscardLws =>
    simp only [dispatch, hst, headerValueDiscardLws, goTo] at hdispatch
    split_ifs at hdispatch
    · cases hdispatch
      simp at hm
    · obtain ⟨o', ho, rfl⟩ := after_ok hdispatch
      have hm' : Act.notify (.headersComplete hp) ∈ o'.acts := by simpa using hm
      have hrep : Reported hp o' := headerFieldStart_reported ho hm'
      exact hrep
  all_goals exact absurd rfl hph

end HttpParser

namespace Head

/-- A header is complete because it has been reported. -/
theorem foldl_act_complete {h : Head} {acts : List Act} {hp : HttpParser} (hn : h.hp = none)
    (hc : (acts.foldl act h).hp = some hp) : Act.notify (.headersComplete hp) ∈ acts := by
  have key : ∀ (acts : List Act) (h : Head), (acts.foldl act h).hp = h.hp ∨
      ∃ hp, (acts.foldl act h).hp = some hp ∧ Act.notify (.headersComplete hp) ∈ acts := by
    intro acts
    induction acts with
    | nil => exact fun h => .inl rfl
    | cons a acts ih =>
      intro h
      rcases ih (h.act a) with heq | ⟨hp, heq, hm⟩
      · cases a with
        | mark k =>
          refine .inl (heq.trans ?_)
          cases k <;> rfl
        | data k n => exact .inl heq
        | notify n =>
          cases n with
          | headersComplete hp => exact .inr ⟨hp, heq, by simp⟩
          | messageBegin | messageComplete => exact .inl heq
      · exact .inr ⟨hp, heq, List.mem_cons_of_mem _ hm⟩
  rcases key acts h with heq | ⟨hp', heq, hm⟩
  · rw [heq, hn] at hc
    cases hc
  · rw [heq] at hc
    cases hc
    exact hm

theorem read_type {p : HttpParser} {h : Head} {bs : Bytes} {r : Reading}
    (hf : Fits p.flags.trailing p.state.phase h) (hr : read p h bs = .ok r)
    (hn : r.head.hp = none) : r.parser.type = p.type :=
  read_invariant (P := fun p' _ => p'.type = p.type) (fun p' h' ch o hp' hf' hs hn' => by
    have hb : h'.hp = none := by
      by_contra hc
      exact step_hp o.acts o.parser.state.phase ch hc hn'
    obtain ⟨-, -, h1, h2⟩ := hf'.before hb
    exact (HttpParser.stepByte_kept hs ⟨h1, h2, hf'.resting⟩).1.trans hp') rfl hf hr hn

end Head

/-- **The end of a header section**: the parser that was reported is the parser as it is then,
it is of the type it was made with, and it does not have both kinds of framing. -/
theorem IsHeader.reported {t : HttpParserType} {H : Bytes} {r : Head.Reading} (hH : IsHeader t H)
    (hr : readHead t H = .ok r) :
    ∃ hp, r.head.hp = some hp ∧ hp.type = t ∧
      r.parser = { hp with nread := r.parser.nread, state := r.parser.state } ∧
      (hp.flags.chunked = true → hp.flags.contentLength = false) := by
  obtain ⟨hp, hhp⟩ := Option.ne_none_iff_exists'.1 (hH.ends r hr)
  have hlen : 0 < H.length := List.length_pos_of_ne_nil hH.ne_nil
  obtain ⟨r', hr', hnone, hex, hf, -⟩ := hH.read_take hr (n := H.length - 1) (by omega)
  have hsplit : H = H.take (H.length - 1) ++ H.drop (H.length - 1) := (List.take_append_drop _ _).symm
  rw [readHead, hsplit] at hr
  obtain ⟨r₁, hr₁, hrest⟩ := read_append_ok hr
  rw [← readHead, hr'] at hr₁
  cases hr₁
  obtain ⟨r'', hr'', rfl⟩ := hrest hex
  rw [List.drop_eq_getElem_cons (by omega), List.drop_eq_nil_of_le (by omega)] at hr''
  obtain ⟨o, hs, ho⟩ := Head.read_cons_ok hr''
  have hhead : r''.head = r'.head.step o.acts o.parser.state.phase (H[H.length - 1]) ∧
      r''.parser = o.parser := by
    rcases ho with ⟨-, rfl⟩ | ⟨-, r₂, hr₂, rfl⟩
    · exact ⟨rfl, rfl⟩
    · cases hr₂
      exact ⟨rfl, rfl⟩
  have hm : Act.notify (.headersComplete hp) ∈ o.acts := by
    refine Head.foldl_act_complete hnone ?_
    rw [Head.Reading.more_head, hhead.1, Head.step, Head.byte_hp] at hhp
    exact hhp
  have hrep := HttpParser.stepByte_reported hs hf.resting hm
  obtain ⟨-, -, h1, h2⟩ := hf.before hnone
  have htype := (HttpParser.stepByte_kept hs ⟨h1, h2, hf.resting⟩).1.trans
    (Head.read_type (init_fits t) hr' hnone)
  refine ⟨hp, hhp, ?_, ?_, hrep.2⟩
  · rw [hrep.1] at htype
    exact htype
  · rw [Head.Reading.more_parser, hhead.2]
    exact hrep.1

namespace Head

variable {p : HttpParser} {h : Head} {bs : Bytes} {r : Reading}

/-! ## What names and values are made of -/

/-- A name is made of token characters, and a value has no line ends. -/
structure Clean (f : Bytes × Bytes) : Prop where
  name : ∀ ch ∈ f.1, token ch ≠ 0
  value : ∀ ch ∈ f.2, ch ≠ CR ∧ ch ≠ LF

/-- One more byte of the last field. -/
theorem clean_byte {k : Mark} {ch : Byte} (hc : ∀ f ∈ h.fields, Clean f)
    (hname : k = .headerField → token ch ≠ 0) (hvalue : k = .headerValue → ch ≠ CR ∧ ch ≠ LF) :
    ∀ f ∈ (h.byte (some k) ch).fields, Clean f := by
  cases hfs : h.fields with
  | nil =>
    have : (h.byte (some k) ch).fields = [] := by
      unfold byte
      cases k <;> simp [hfs]
    rw [this]
    simp
  | cons g gs =>
    have hg := hc g (by rw [hfs]; simp)
    have hgs : ∀ f ∈ gs, Clean f := fun f hf => hc f (by rw [hfs]; exact List.mem_cons_of_mem _ hf)
    intro f hf
    cases k with
    | headerField =>
      rw [byte_name hfs] at hf
      rcases List.mem_cons.1 hf with rfl | hf
      · refine ⟨fun c hc' => ?_, hg.value⟩
        rcases List.mem_append.1 hc' with hc' | hc'
        · exact hg.name c hc'
        · exact List.mem_singleton.1 hc' ▸ hname rfl
      · exact hgs f hf
    | headerValue =>
      rw [byte_value hfs] at hf
      rcases List.mem_cons.1 hf with rfl | hf
      · refine ⟨hg.name, fun c hc' => ?_⟩
        rcases List.mem_append.1 hc' with hc' | hc'
        · exact hg.value c hc'
        · exact List.mem_singleton.1 hc' ▸ hvalue rfl
      · exact hgs f hf
    | url => exact hc f hf
    | body => exact hc f hf

/-- Every byte keeps the invariant. -/
theorem clean_step {tr exit tr' : Bool} {ph ph' : Phase} {ch : Byte} {acts : List Act}
    (hm : Moves tr ph ch acts exit tr' ph') (hf : Fits tr ph h) (hc : ∀ f ∈ h.fields, Clean f) :
    ∀ f ∈ (h.step acts ph' ch).fields, Clean f := by
  cases hm with
  | passing => exact absurd rfl hf.resting
  | nameOpen hl htok =>
    rw [Head.step, List.foldl_append, foldl_act_lineHead hl]
    refine clean_byte (k := .headerField) (fun f hfm => ?_) (fun _ => htok) (by simp)
    rcases List.mem_cons.1 (show f ∈ ([], []) :: h.fields from hfm) with rfl | hfm
    · exact ⟨by simp, by simp⟩
    · exact hc f hfm
  | name htok => exact clean_byte (k := .headerField) hc (fun _ => htok) (by simp)
  | valueOpen hcr hlf => exact clean_byte (k := .headerValue) hc (by simp) fun _ => ⟨hcr, hlf⟩
  | value hcr hlf => exact clean_byte (k := .headerValue) hc (by simp) fun _ => ⟨hcr, hlf⟩
  | foldValue hb =>
    refine clean_byte (k := .headerValue) hc (by simp) fun _ => ?_
    rcases hb with rfl | rfl <;> decide
  | urlOpen => exact hc
  | url => exact hc
  | lastCr hl =>
    rw [Head.step, foldl_act_lineHead hl]
    exact hc
  | header hl he =>
    rw [Head.step, List.foldl_append, foldl_act_lastLine hl, List.foldl_cons]
    cases he with
    | body _ hph => rcases hph with rfl | rfl <;> exact hc
    | message => exact hc
  | trailer hl =>
    rw [Head.step, List.foldl_append, foldl_act_lastLine hl]
    exact hc
  | framing hph => rcases hph with rfl | rfl <;> exact hc
  | _ => exact hc

theorem read_clean (hf : Fits p.flags.trailing p.state.phase h) (hc : ∀ f ∈ h.fields, Clean f)
    (hr : read p h bs = .ok r) : ∀ f ∈ r.head.fields, Clean f := by
  induction bs generalizing p h r with
  | nil =>
    cases hr
    exact hc
  | cons ch bs ih =>
    obtain ⟨o, hs, ⟨-, rfl⟩ | ⟨-, r', hr', rfl⟩⟩ := read_cons_ok hr
    · exact clean_step (HttpParser.stepByte_moves hs) hf hc
    · have hm := HttpParser.stepByte_moves hs
      exact ih (r := r') (hf.step hm) (clean_step hm hf hc) hr'

theorem readHead_clean {t : HttpParserType} (hr : readHead t bs = .ok r) :
    ∀ f ∈ r.head.fields, Clean f :=
  read_clean (init_fits t) (by simp [empty]) hr

/-! ## Where the fields go -/

/-- The spellings of `Set-Cookie` that `on_header_field` knows. -/
def isListed (name : Bytes) : Bool := name = str "Set-Cookie" || name = str "set-cookie"

/-- The fields that go into the map, under their canonical names; the last field is first. -/
def stored : List (Bytes × Bytes) → List (Bytes × Bytes)
  | [] => []
  | f :: fs =>
      (if f.2 = [] then [] else [f] : List (Bytes × Bytes)) ++ (fs.filter fun g => !isListed g.1)
        |>.map fun g => (canonicalKey g.1, g.2)

/-- The values that go into the list of cookies; the last one is first. -/
def listed (fields : List (Bytes × Bytes)) : List Bytes :=
  (fields.tail.filter fun g => isListed g.1).map Prod.snd

theorem closed_eq (fs : List (Bytes × Bytes)) :
    (closed fs).headers =
        OrdMap.ofList ((fs.filter fun g => !isListed g.1).map fun g => (canonicalKey g.1, g.2)) ∧
      (closed fs).cookieList = ((fs.filter fun g => isListed g.1).map Prod.snd).reverse := by
  induction fs with
  | nil => exact ⟨rfl, rfl⟩
  | cons f fs ih =>
    obtain ⟨h1, h2⟩ := ih
    rw [closed, SrsHttpHeader.put]
    by_cases hf : f.1 = str "Set-Cookie" ∨ f.1 = str "set-cookie"
    · have hl : isListed f.1 = true := by simpa [isListed] using hf
      rw [if_pos hf, List.filter_cons_of_neg (by simp [hl]), List.filter_cons_of_pos (by simpa using hl)]
      exact ⟨h1, by simp [SrsHttpHeader.addCookie, h2]⟩
    · have hl : isListed f.1 = false := by simpa [isListed] using hf
      rw [if_neg hf, List.filter_cons_of_pos (by simp [hl]), List.filter_cons_of_neg (by simp [hl]),
        List.map_cons, OrdMap.ofList_cons, ← h1]
      exact ⟨rfl, h2⟩

/-- **Where the fields go**: the map and the list of cookies of a header. -/
theorem header_eq (h : Head) :
    h.header.headers = OrdMap.ofList (stored h.fields) ∧
      h.header.cookieList = (listed h.fields).reverse := by
  unfold header
  cases h.fields with
  | nil => exact ⟨rfl, rfl⟩
  | cons f fs =>
    obtain ⟨h1, h2⟩ := closed_eq fs
    obtain ⟨n, v⟩ := f
    by_cases hv : v = []
    · simp only [hv, if_true, stored, List.nil_append]
      exact ⟨h1, h2⟩
    · simp only [hv, if_false, stored, List.singleton_append, List.map_cons, OrdMap.ofList_cons, ← h1]
      exact ⟨rfl, h2⟩

theorem clean_canonicalKey {f : Bytes × Bytes} (h : Clean f) : Clean (canonicalKey f.1, f.2) := by
  refine ⟨fun ch hch => ?_, h.value⟩
  have hmem : token ch ∈ f.1.map token := by
    rw [← canonicalKey_map_token]
    exact List.mem_map_of_mem hch
  obtain ⟨c, hc, heq⟩ := List.mem_map.1 hmem
  rw [← heq]
  exact h.name c hc

theorem mem_stored {fields : List (Bytes × Bytes)} {e : Bytes × Bytes} (h : e ∈ stored fields) :
    ∃ f ∈ fields, e = (canonicalKey f.1, f.2) := by
  cases fields with
  | nil => simp [stored] at h
  | cons f fs =>
    obtain ⟨g, hg, rfl⟩ := List.mem_map.1 h
    refine ⟨g, ?_, rfl⟩
    rcases List.mem_append.1 hg with hg | hg
    · split_ifs at hg
      · simp at hg
      · exact List.mem_cons.2 (Or.inl (List.mem_singleton.1 hg))
    · exact List.mem_cons_of_mem _ (List.mem_filter.1 hg).1

/-- The value that `get` finds under a name; it is empty if there is none. -/
def lookedUp (fields : List (Bytes × Bytes)) (key : Bytes) : Bytes :=
  (OrdMap.findIn key (stored fields)).getD []

theorem header_get (h : Head) (key : Bytes) : h.header.get key = lookedUp h.fields key := by
  rw [SrsHttpHeader.get, (header_eq h).1, OrdMap.find?_ofList, lookedUp]

/-- What is found is the value of a field with that name, up to the case of its letters. -/
theorem mem_of_lookedUp {fields : List (Bytes × Bytes)} {key : Bytes} (h : lookedUp fields key ≠ []) :
    ∃ f ∈ fields, canonicalKey f.1 = key ∧ f.2 = lookedUp fields key := by
  unfold lookedUp at h ⊢
  cases hfind : OrdMap.findIn key (stored fields) with
  | none => simp [hfind] at h
  | some v =>
    obtain ⟨f, hf, heq⟩ := mem_stored (OrdMap.mem_of_findIn hfind)
    obtain ⟨h1, h2⟩ := Prod.mk.inj heq
    exact ⟨f, hf, h1.symm, h2.symm⟩

end Head

end HttpProxy
