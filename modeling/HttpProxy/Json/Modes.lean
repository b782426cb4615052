import HttpProxy.Json.Parser

/-!
# Where the parser is

The flags of `json_parse_ex` take a few combinations only.  In each of these modes a turn does one of a few
things to the values.

* `Mode`, `Fits` — the modes, and the flags in each.
* `Move` — what a turn does in a mode, and the mode after it.
* `Leads`, `flow_leads` — what a turn outside of numbers does.
* `control_cases` — every turn of the first pass fails, stops behind the root, or is a move that takes the
  loop closer to the end.
-/

namespace HttpProxy

namespace JsonParser

variable {δ : Type}

/-! ## Modes -/

/-- Where the loop is: in front of a value, in an object, in a number, in a string, in a name, or behind
the root.  The types are those of the values around. -/
inductive Mode
  | seek (types : List JsonType)
  | object (parents : List JsonType)
  | number (double : Bool) (parents : List JsonType)
  | text (parents : List JsonType)
  | name (parents : List JsonType)
  | done (type : JsonType)

/-- The type of a number. -/
def numberType (double : Bool) : JsonType := if double then .double else .integer

namespace Mode

/-- The types of `top`, of its parent and so on. -/
def types : Mode → List JsonType
  | seek types => types
  | object ps => .object :: ps
  | number double ps => numberType double :: ps
  | text ps => .string :: ps
  | name ps => .object :: ps
  | done type => [type]

/-- The mode behind a value. -/
def after (type : JsonType) : List JsonType → Mode
  | [] => done type
  | .array :: ps => seek (.array :: ps)
  | _ :: ps => object ps

end Mode

/-- Values that are in one another are objects and arrays. -/
def Containers (types : List JsonType) : Prop := ∀ t ∈ types, t = .object ∨ t = .array

/-- The flags in a mode. -/
inductive Fits : Mode → Scan → Prop
  | seek {types s} (hc : Containers types) (hs : s.string = false) (hd : s.done = false)
      (hv : s.seekValue = true) : Fits (.seek types) s
  | object {ps s} (hc : Containers ps) (hs : s.string = false) (hd : s.done = false)
      (hv : s.seekValue = false) : Fits (.object ps) s
  | number {double ps s} (hc : Containers ps) (hs : s.string = false) (hd : s.done = false)
      (hv : s.seekValue = false) : Fits (.number double ps) s
  | text {ps s} (hc : Containers ps) (hs : s.string = true) (hd : s.done = false)
      (hv : s.seekValue = false) : Fits (.text ps) s
  | name {ps s} (hc : Containers ps) (hs : s.string = true) (hd : s.done = false)
      (hv : s.seekValue = false) : Fits (.name ps) s
  | done {type s} (hs : s.string = false) (hd : s.done = true) : Fits (.done type) s

/-- A value is put into its parent, if it has one. -/
def closing : List JsonType → List (Act δ)
  | [] => []
  | _ :: _ => [.attach]

/-- What some changes make of a number. -/
def changed (fs : List (Num δ → Num δ)) (x : Num δ) : Num δ := fs.foldl (fun x f => f x) x

/-- The changes make a number of the one type into one of the other. -/
def Changes (fs : List (Num δ → Num δ)) (double double' : Bool) : Prop :=
  ∀ x : Num δ, x.isDouble = double → (changed fs x).isDouble = double'

/-- What a turn does, and where it leads. -/
inductive Move : Mode → List (Act δ) → Mode → Prop
  | quiet (mode) : Move mode [] mode
  | closeArray (ps) : Move (.seek (.array :: ps)) (closing ps) (.after .array ps)
  | closeObject (ps) : Move (.object ps) (closing ps) (.after .object ps)
  | openObject (types) : Move (.seek types) [.newValue .object] (.object types)
  | openArray (types) : Move (.seek types) [.newValue .array] (.seek (.array :: types))
  | openString (types) : Move (.seek types) [.newValue .string, .beginString] (.text types)
  | openNumber (types) : Move (.seek types) [.newValue .integer] (.number false types)
  | boolean (v) (types) : Move (.seek types) (.newBoolean v :: closing types) (.after .boolean types)
  | null (types) : Move (.seek types) (.newValue .null :: closing types) (.after .null types)
  | beginName (ps) : Move (.object ps) [.beginString] (.name ps)
  | addText (bs : Bytes) (ps) : Move (.text ps) (bs.map .add) (.text ps)
  | endText (ps) : Move (.text ps) (.endText :: closing ps) (.after .string ps)
  | addName (bs : Bytes) (ps) : Move (.name ps) (bs.map .add) (.name ps)
  | endName (ps) : Move (.name ps) [.endName] (.seek (.object :: ps))
  | number {fs double double'} (h : Changes fs double double') (ps) :
      Move (.number double ps) (fs.map .number) (.number double' ps)
  | endNumber {fs double} (h : Changes fs double double) (ps) :
      Move (.number double ps) (fs.map .number ++ closing ps) (.after (numberType double) ps)

/-- The turns that are left, at most. -/
def cost (mode : Mode) (s : Scan) : Nat :=
  3 * s.rest.length +
    match mode with
    | .number _ _ => if isNum s.byte then 0 else 2
    | _ => 1

/-- A move that takes the loop closer to the end. -/
def Goes (mode : Mode) (s : Scan) (acts : List (Act δ)) (s' : Scan) : Prop :=
  ∃ mode', Move mode acts mode' ∧ Fits mode' s' ∧ cost mode' s' < cost mode s

/-- The mode is not that of a number. -/
def Mode.Still : Mode → Prop
  | number _ _ => False
  | _ => True

/-- What a turn outside of numbers may do: `top` is not NULL when it is used, and the loop stops behind the
root only. -/
def Leads (mode : Mode) (s : Scan) : Flow δ → Prop
  | .failed => True
  | .noTop => False
  | .stop => ∃ type, mode = .done type
  | .go acts s' => ∃ mode', Move mode acts mode' ∧ mode'.Still ∧ Fits mode' s' ∧ cost mode' s' < cost mode s
  | .start s' =>
      s' = { s with seekValue := false } ∧ (∃ types, mode = .seek types) ∧
        (isNum s.byte = true ∨ s.byte = chr '-')

section Turns

variable {D : Doubles δ} {s s' : Scan} {n n' : NumScan} {types ps : List JsonType} {acts : List (Act δ)}
  {len : Nat}

/-! ## Bytes -/

theorem rest_of_byte (hb : s.byte ≠ 0) : s.rest = s.byte :: s.rest.tail := by
  unfold Scan.byte at hb ⊢
  cases h : s.rest with
  | nil =>
    rw [h] at hb
    exact absurd rfl hb
  | cons b rest => rfl

theorem length_of_byte (hb : s.byte ≠ 0) : s.rest.length = s.rest.tail.length + 1 := by
  conv_lhs => rw [rest_of_byte hb]
  rfl

theorem cost_le (mode : Mode) (s : Scan) : cost mode s ≤ 3 * s.rest.length + 2 := by
  unfold cost
  split
  · split <;> omega
  · omega

theorem le_cost (hm : ∀ double ps, mode ≠ Mode.number double ps) : 3 * s.rest.length + 1 = cost mode s := by
  unfold cost
  split
  · next double ps => exact absurd rfl (hm double ps)
  · rfl

/-- A byte is read. -/
theorem cost_lt {mode mode' : Mode} (h : s'.rest.length < s.rest.length) : cost mode' s' < cost mode s := by
  have h1 := cost_le mode' s'
  have h2 : 3 * s.rest.length ≤ cost mode s := Nat.le_add_right _ _
  omega

theorem cost_skip {mode mode' : Mode} (hb : s.byte ≠ 0) (hs : s'.rest = s.rest.tail) :
    cost mode' s' < cost mode s := by
  apply cost_lt
  rw [hs, length_of_byte hb]
  omega

/-! ## The end of a value -/

/-- The flags behind a value that is in these values. -/
def Scan.behind (ps : List JsonType) (s : Scan) : Scan :=
  match ps with
  | [] => { s with needComma := true, done := true }
  | parent :: _ => { s with needComma := true, seekValue := s.seekValue || decide (parent = .array) }

theorem next_eq (ps : List JsonType) (acts : List (Act δ)) (s : Scan) :
    s.next ps acts = .go (acts ++ closing ps) (s.behind ps) := by
  cases ps with
  | nil => rw [closing, List.append_nil, Scan.next, Scan.behind]
  | cons p ps => rw [closing, Scan.next, Scan.behind]

@[simp] theorem rest_behind (ps : List JsonType) (s : Scan) : (s.behind ps).rest = s.rest := by
  cases ps <;> rfl

theorem behind_fits (type : JsonType) (hs : s.string = false) (hd : s.done = false)
    (hv : s.seekValue = false) (hc : Containers ps) : Fits (.after type ps) (s.behind ps) := by
  cases ps with
  | nil => exact .done hs rfl
  | cons p ps =>
    have hps : Containers ps := fun t ht => hc t (List.mem_cons_of_mem _ ht)
    rcases hc p List.mem_cons_self with rfl | rfl
    · exact .object hps hs hd (by simp [Scan.behind, hv])
    · exact .seek hc hs hd (by simp [Scan.behind])

theorem still_after (type : JsonType) (ps : List JsonType) : (Mode.after type ps).Still := by
  cases ps with
  | nil => trivial
  | cons p ps => cases p <;> trivial

/-- A value ends. -/
theorem next_leads {mode : Mode} {type : JsonType} (s : Scan) {t : Scan} (acts : List (Act δ))
    (hs : s.string = false) (hd : s.done = false) (hv : s.seekValue = false) (hc : Containers ps)
    (hm : Move mode (acts ++ closing ps) (.after type ps)) (hcost : ∀ mode', cost mode' s < cost mode t) :
    Leads mode t (s.next ps acts) := by
  rw [next_eq]
  refine ⟨_, hm, still_after type ps, behind_fits type hs hd hv hc, ?_⟩
  have hsame := hcost (.after type ps)
  unfold cost Scan.byte at hsame ⊢
  rw [rest_behind]
  exact hsame

/-! ## One turn -/

theorem length_hexQuad {bs rest : Bytes} {u : Nat} (h : hexQuad bs = some (u, rest)) :
    rest.length < bs.length := by
  unfold hexQuad at h
  split at h
  · split at h
    · cases h
      simp only [List.length_cons]
      omega
    · cases h
  · cases h

theorem length_unicodeEscape {bs bytes rest : Bytes} (h : unicodeEscape bs = some (bytes, rest)) :
    rest.length < bs.length := by
  unfold unicodeEscape at h
  split at h
  · cases h
  · next u rest₁ hu =>
    have h1 := length_hexQuad hu
    split_ifs at h
    · split at h
      · next b₁ b₂ rest₂ =>
        split_ifs at h
        split at h
        · cases h
        · next u₂ rest₃ hu₂ =>
          cases h
          have h2 := length_hexQuad hu₂
          simp only [List.length_cons] at h1
          omega
      · cases h
    · cases h
      exact h1

theorem ne_zero_of_isWhitespace {b : Byte} (h : isWhitespace b = true) : b ≠ 0 := by
  rintro rfl
  exact absurd h (by decide)

theorem literal_leads {word : Bytes} {act : Act δ} {mode : Mode} {type : JsonType} {t : Scan}
    (hs : s.string = false) (hd : s.done = false) (hv : s.seekValue = false) (hc : Containers types)
    (hne : word ≠ []) (hm : Move mode (act :: closing types) (.after type types)) (ht : s.rest = t.rest) :
    Leads mode t (literal word act types s) := by
  unfold literal
  split_ifs with hp
  · refine next_leads { s with rest := s.rest.drop word.length } [act] hs hd hv hc hm fun mode' => ?_
    obtain ⟨rest, hrest⟩ := List.isPrefixOf_iff_prefix.1 hp
    apply cost_lt
    have hlen : 0 < word.length := List.length_pos_iff.2 hne
    have hsum := congrArg List.length hrest
    rw [List.length_append] at hsum
    rw [← ht, List.length_drop]
    omega
  · trivial

theorem cost_skip_of_eq {mode mode' : Mode} {c : Byte} (hb : s.byte = c) (hc : c ≠ 0)
    (hs : s'.rest = s.rest.tail) : cost mode' s' < cost mode s := cost_skip (hb ▸ hc) hs

theorem containers_cons {t : JsonType} (ht : t = .object ∨ t = .array) (hc : Containers ps) :
    Containers (t :: ps) := by
  intro u hu
  rcases List.mem_cons.1 hu with rfl | hu
  · exact ht
  · exact hc u hu

theorem containers_tail {t : JsonType} (hc : Containers (t :: ps)) : Containers ps :=
  fun u hu => hc u (List.mem_cons_of_mem _ hu)

/-- The first byte of a value. -/
theorem openValue_leads (hc : Containers types) (hs : s.string = false) (hd : s.done = false) :
    Leads (δ := δ) (.seek types) s (openValue types { s with seekValue := false }) := by
  dsimp only [openValue]
  split_ifs with hobj harr hstr htrue hfalse hnull hnum
  · exact ⟨_, .openObject _, trivial, .object hc hs hd rfl, cost_skip_of_eq (s := s) hobj (by decide) rfl⟩
  · exact ⟨_, .openArray _, trivial, .seek (containers_cons (.inr rfl) hc) hs hd rfl,
      cost_skip_of_eq (s := s) harr (by decide) rfl⟩
  · exact ⟨_, .openString _, trivial, .text hc rfl hd rfl, cost_skip_of_eq (s := s) hstr (by decide) rfl⟩
  · exact literal_leads hs hd rfl hc (by decide) (.boolean 1 _) rfl
  · exact literal_leads hs hd rfl hc (by decide) (.boolean 0 _) rfl
  · exact literal_leads hs hd rfl hc (by decide) (.null _) rfl
  · exact ⟨rfl, ⟨_, rfl⟩, hnum⟩
  · trivial

/-- A turn in front of a value. -/
theorem seek_leads (hf : Fits (.seek types) s) : Leads (δ := δ) (.seek types) s (seek types s) := by
  cases hf with | seek hc hs hd hv
  dsimp only [seek]
  split_ifs with hws hclose hcomma hcomma' hcolon hcolon'
  · exact ⟨_, .quiet _, trivial, .seek hc hs hd hv, cost_skip (ne_zero_of_isWhitespace hws) rfl⟩
  · split
    · next ps =>
      exact next_leads { s.skip with needComma := false, seekValue := false } [] hs hd rfl
        (containers_tail hc) (.closeArray ps) fun mode' => cost_skip_of_eq hclose (by decide) rfl
    · trivial
  · exact ⟨_, .quiet _, trivial, .seek hc hs hd hv, cost_skip_of_eq hcomma' (by decide) rfl⟩
  · trivial
  · exact ⟨_, .quiet _, trivial, .seek hc hs hd hv, cost_skip_of_eq hcolon' (by decide) rfl⟩
  · trivial
  · exact openValue_leads hc hs hd

/-- A turn in an object. -/
theorem inObject_leads (hf : Fits (.object ps) s) : Leads (δ := δ) (.object ps) s (inObject ps s) := by
  cases hf with | object hc hs hd hv
  dsimp only [inObject]
  split_ifs with hws hquote hcomma hclose hcomma' hcomma
  · exact ⟨_, .quiet _, trivial, .object hc hs hd hv, cost_skip (ne_zero_of_isWhitespace hws) rfl⟩
  · trivial
  · exact ⟨_, .beginName _, trivial, .name hc rfl hd hv, cost_skip_of_eq hquote (by decide) rfl⟩
  · exact next_leads { s.skip with needComma := false } [] hs hd hv hc (.closeObject ps)
      fun mode' => cost_skip_of_eq hclose (by decide) rfl
  · exact ⟨_, .quiet _, trivial, .object hc hs hd hv, cost_skip_of_eq hcomma' (by decide) rfl⟩
  · trivial
  · trivial

/-- The byte behind a backslash adds some bytes, and changes the flags of no mode. -/
theorem escape_cases (hb : s.byte ≠ 0) :
    escape (δ := δ) s = .failed ∨ ∃ (bs : Bytes) (s' : Scan), escape (δ := δ) s = .go (bs.map .add) s' ∧
      s'.string = s.string ∧ s'.done = s.done ∧ s'.seekValue = s.seekValue ∧
      s'.rest.length < s.rest.length := by
  have htail : s.rest.tail.length < s.rest.length := by
    rw [length_of_byte hb]
    omega
  dsimp only [escape]
  split_ifs
  any_goals exact .inr ⟨[_], _, rfl, rfl, rfl, rfl, htail⟩
  split
  · exact .inl rfl
  · next bytes rest hu =>
    refine .inr ⟨bytes, _, rfl, rfl, rfl, rfl, ?_⟩
    have := length_unicodeEscape hu
    dsimp only at this ⊢
    omega

/-- A turn in a string. -/
theorem inText_leads (hf : Fits (.text ps) s) :
    Leads (δ := δ) (.text ps) s (inString (.string :: ps) len s) := by
  cases hf with | text hc hs hd hv
  dsimp only [inString]
  split_ifs with hzero hlen hesc hback hquote
  · trivial
  · trivial
  · rcases escape_cases (δ := δ) hzero with hfail | ⟨bs, s', hgo, h1, h2, h3, hrest⟩
    · rw [hfail]
      trivial
    · rw [hgo]
      exact ⟨_, .addText bs ps, trivial, .text hc (h1.trans hs) (h2.trans hd) (h3.trans hv), cost_lt hrest⟩
  · exact ⟨_, .quiet _, trivial, .text hc hs hd hv, cost_skip hzero rfl⟩
  · exact next_leads { s.skip with string := false } [.endText] rfl hd hv hc (.endText ps)
      fun mode' => cost_skip hzero rfl
  · exact ⟨_, .addText [s.byte] ps, trivial, .text hc hs hd hv, cost_skip hzero rfl⟩

/-- A turn in a name. -/
theorem inName_leads (hf : Fits (.name ps) s) :
    Leads (δ := δ) (.name ps) s (inString (.object :: ps) len s) := by
  cases hf with | name hc hs hd hv
  dsimp only [inString]
  split_ifs with hzero hlen hesc hback hquote
  · trivial
  · trivial
  · rcases escape_cases (δ := δ) hzero with hfail | ⟨bs, s', hgo, h1, h2, h3, hrest⟩
    · rw [hfail]
      trivial
    · rw [hgo]
      exact ⟨_, .addName bs ps, trivial, .name hc (h1.trans hs) (h2.trans hd) (h3.trans hv), cost_lt hrest⟩
  · exact ⟨_, .quiet _, trivial, .name hc hs hd hv, cost_skip hzero rfl⟩
  · exact ⟨_, .endName ps, trivial, .seek (containers_cons (.inl rfl) hc) rfl hd rfl, cost_skip hzero rfl⟩
  · exact ⟨_, .addName [s.byte] ps, trivial, .name hc hs hd hv, cost_skip hzero rfl⟩

/-- A turn behind the root. -/
theorem outside_done_leads {type : JsonType} (hf : Fits (.done type) s) :
    Leads (δ := δ) (.done type) s (outside types s) := by
  cases hf with | done hs hd
  unfold outside
  rw [if_pos hd]
  split_ifs with hzero hws
  · exact ⟨_, rfl⟩
  · exact ⟨_, .quiet _, trivial, .done hs hd, cost_skip hzero rfl⟩
  · trivial

theorem numberAt_eq_none (h : s.string = true ∨ s.done = true ∨ s.seekValue = true) :
    numberAt s types = none := by
  unfold numberAt
  rw [if_pos]
  rcases h with h | h | h <;> simp [h]

theorem numberAt_object (ps : List JsonType) : numberAt s (.object :: ps) = none := by
  unfold numberAt
  split_ifs <;> rfl

theorem outside_seek (hd : s.done = false) (hv : s.seekValue = true) :
    outside (δ := δ) types s = seek types s := by
  unfold outside
  rw [if_neg (by simp [hd]), if_pos hv]

theorem outside_object (hd : s.done = false) (hv : s.seekValue = false) :
    outside (δ := δ) (.object :: ps) s = inObject ps s := by
  unfold outside
  rw [if_neg (by simp [hd]), if_neg (by simp [hv])]

/-- **A turn outside of numbers** is what a mode allows. -/
theorem flow_leads {mode : Mode} (len : Nat) (hf : Fits mode s) (hm : mode.Still) :
    numberAt s mode.types = none ∧ Leads (δ := δ) mode s (flow mode.types len s) := by
  unfold flow
  cases mode with
  | seek types =>
    cases hf with | seek hc hs hd hv
    refine ⟨numberAt_eq_none (.inr (.inr hv)), ?_⟩
    rw [if_neg (by simp [hs]), Mode.types, outside_seek hd hv]
    exact seek_leads (.seek hc hs hd hv)
  | object ps =>
    cases hf with | object hc hs hd hv
    refine ⟨numberAt_object ps, ?_⟩
    rw [if_neg (by simp [hs]), Mode.types, outside_object hd hv]
    exact inObject_leads (.object hc hs hd hv)
  | number double ps => exact hm.elim
  | text ps =>
    cases hf with | text hc hs hd hv
    refine ⟨numberAt_eq_none (.inl hs), ?_⟩
    rw [if_pos hs]
    exact inText_leads (.text hc hs hd hv)
  | name ps =>
    cases hf with | name hc hs hd hv
    refine ⟨numberAt_eq_none (.inl hs), ?_⟩
    rw [if_pos hs]
    exact inName_leads (.name hc hs hd hv)
  | done type =>
    cases hf with | done hs hd
    refine ⟨numberAt_eq_none (.inr (.inl hd)), ?_⟩
    rw [if_neg (by simp [hs])]
    exact outside_done_leads (.done hs hd)

/-! ## Numbers -/

theorem changes_nil (double : Bool) : Changes ([] : List (Num δ → Num δ)) double double := fun _ h => h

theorem changes_one {f : Num δ → Num δ} {double double' : Bool}
    (h : ∀ x, x.isDouble = double → (f x).isDouble = double') : Changes [f] double double' := h

theorem Changes.append {fs gs : List (Num δ → Num δ)} {d d' d'' : Bool} (h : Changes fs d d')
    (h' : Changes gs d' d'') : Changes (fs ++ gs) d d'' := by
  intro x hx
  unfold changed
  rw [List.foldl_append]
  exact h' _ (h x hx)

theorem changes_neg (double : Bool) : Changes [Num.neg D] double double := by
  intro x hx
  unfold changed Num.neg
  simp only [List.foldl_cons, List.foldl_nil]
  split_ifs
  · exact hx
  · exact hx

/-- A turn in a number reads one byte of it. -/
def ReadsNumber (double : Bool) (s : Scan) (acts : List (Act δ)) (s' : Scan) : Prop :=
  ∃ fs double', Changes fs double double' ∧ acts = fs.map .number ∧ s' = s.skip ∧ isNumberByte s.byte = true

/-- A turn in a number ends it. -/
def EndsNumber (double : Bool) (ps : List JsonType) (s : Scan) (acts : List (Act δ)) (s' : Scan) : Prop :=
  ∃ fs, Changes fs double double ∧ acts = fs.map .number ++ closing ps ∧ s' = s.behind ps ∧ isNum s.byte = false

theorem finishNumber_ends {double : Bool} (fs : List (Num δ → Num δ)) (hb : isNum s.byte = false)
    (hfs : Changes fs double double) (h : finishNumber D ps (fs.map .number) s n = .go acts s' n') :
    EndsNumber double ps s acts s' := by
  unfold finishNumber at h
  obtain ⟨gs, hgs, hmap⟩ : ∃ gs : List (Num δ → Num δ), Changes gs double double ∧
      (fs.map .number ++ if n.negative then [.number (Num.neg D)] else [] : List (Act δ)) = gs.map .number := by
    by_cases hneg : n.negative = true
    · exact ⟨fs ++ [Num.neg D], hfs.append (changes_neg double), by rw [if_pos hneg, List.map_append]; rfl⟩
    · exact ⟨fs, hfs, by rw [if_neg hneg, List.append_nil]⟩
  dsimp only at h
  rw [hmap, next_eq] at h
  cases h
  exact ⟨gs, hgs, rfl, rfl, hb⟩

/-- A turn in a number. -/
theorem inNumber_cases {double : Bool} (h : inNumber D double ps s n = .go acts s' n') :
    ReadsNumber double s acts s' ∨ EndsNumber double ps s acts s' := by
  have hbyte : ∀ {c}, s.byte = c → isNumberByte c = true → isNumberByte s.byte = true := fun hb h => hb ▸ h
  dsimp only [inNumber] at h
  split_ifs at h with hnum he hdouble hzero hsign hdot hdigits he' hdigits' hneg hdigits'' hexp hdouble hdouble
  · cases h
    exact .inl ⟨[], double, changes_nil double, rfl, rfl, by simp [isNumberByte, hnum]⟩
  · cases h
    exact .inl ⟨[], double, changes_nil double, rfl, rfl, by simp [isNumberByte, hnum]⟩
  · cases h
    exact .inl ⟨[Num.digit s.byte], double, changes_one fun x hx => hx, rfl, rfl, by simp [isNumberByte, hnum]⟩
  · cases h
    exact .inl ⟨[], double, changes_nil double, rfl, rfl, hsign.1.elim (fun h => hbyte h (by decide))
      fun h => hbyte h (by decide)⟩
  · cases h
    exact .inl ⟨[Num.toDouble D], true, changes_one fun x _ => rfl, rfl, rfl, hbyte hdot.1 (by decide)⟩
  · exact .inr (finishNumber_ends [Num.scale D (-n.numE)] (by simpa using hnum)
      (changes_one fun x hx => hx) h)
  · exact .inr (finishNumber_ends [Num.scale D n.numE] (by simpa using hnum)
      (changes_one fun x hx => hx) h)
  · cases h
    exact .inl ⟨[Num.addFraction D n.numFraction n.numDigits], double, changes_one fun x hx => hx, rfl, rfl,
      hexp.elim (fun h => hbyte h (by decide)) fun h => hbyte h (by decide)⟩
  · cases h
    exact .inl ⟨[Num.toDouble D], true, changes_one fun x _ => rfl, rfl, rfl,
      hexp.elim (fun h => hbyte h (by decide)) fun h => hbyte h (by decide)⟩
  · exact .inr (finishNumber_ends [Num.addFraction D n.numFraction n.numDigits] (by simpa using hnum)
      (changes_one fun x hx => hx) h)
  · exact .inr (finishNumber_ends [] (by simpa using hnum) (changes_nil double) h)

theorem ne_zero_of_isNumberByte {b : Byte} (h : isNumberByte b = true) : b ≠ 0 := by
  rintro rfl
  exact absurd h (by decide)

/-- A turn in a number leads on. -/
theorem inNumber_goes {double : Bool} (hf : Fits (.number double ps) s)
    (h : inNumber D double ps s n = .go acts s' n') : Goes (.number double ps) s acts s' := by
  cases hf with | number hc hs hd hv
  rcases inNumber_cases h with ⟨fs, double', hfs, rfl, rfl, hb⟩ | ⟨fs, hfs, rfl, rfl, hb⟩
  · exact ⟨_, .number hfs ps, .number hc hs hd hv, cost_skip (ne_zero_of_isNumberByte hb) rfl⟩
  · refine ⟨_, .endNumber hfs ps, behind_fits _ hs hd hv hc, ?_⟩
    -- the byte that ends the number is not read yet
    have hle : 3 * (s.behind ps).rest.length + 1 = cost (.after (numberType double) ps) (s.behind ps) := by
      refine le_cost fun double' ps' heq => ?_
      cases ps with
      | nil => cases heq
      | cons p ps => cases p <;> cases heq
    have hcost : cost (.number double ps) s = 3 * s.rest.length + 2 := by
      simp only [cost, hb]
      rfl
    rw [hcost, ← hle, rest_behind]
    omega

/-! ## Every turn of the first pass -/

theorem numberAt_number (double : Bool) (hs : s.string = false) (hd : s.done = false)
    (hv : s.seekValue = false) : numberAt s (numberType double :: ps) = some (double, ps) := by
  unfold numberAt
  rw [if_neg (by simp [hs, hd, hv])]
  cases double <;> rfl

/-- A turn in a number. -/
theorem control_number {first : Bool} {double : Bool} (hf : Fits (.number double ps) s) :
    control D first (numberType double :: ps) len s n = inNumber D double ps s n := by
  cases hf with | number hc hs hd hv
  rw [control, numberAt_number double hs hd hv]

/-- A turn outside of numbers. -/
theorem control_still {first : Bool} {mode : Mode} (hf : Fits mode s) (hm : mode.Still) :
    control D first mode.types len s n = (flow mode.types len s).turn first mode.types n := by
  rw [control, (flow_leads (δ := δ) len hf hm).1]

/-- A number starts: the flags are kept, and what the second pass skips is in front. -/
theorem startNumber_goes (hf : Fits (.seek types) s) (hb : isNum s.byte = true ∨ s.byte = chr '-') :
    ∃ s' n', startNumber (δ := δ) true types { s with seekValue := false } n = .go [.newValue .integer] s' n' ∧
      Fits (.number false types) s' ∧ cost (.number false types) s' < cost (.seek types) s ∧
      { s' with rest := s'.rest.dropWhile isNumberByte } =
        { s with seekValue := false, rest := s.rest.dropWhile isNumberByte } := by
  cases hf with | seek hc hs hd hv
  dsimp only [startNumber]
  rw [if_pos rfl]
  split_ifs with hminus
  · have hbyte : s.byte = chr '-' := hminus
    have hrest : s.rest = chr '-' :: s.rest.tail := by
      rw [← hbyte]
      exact rest_of_byte (by rw [hbyte]; decide)
    refine ⟨_, _, rfl, .number hc hs hd rfl, cost_skip_of_eq hbyte (by decide) rfl, ?_⟩
    rw [hrest]
    rfl
  · refine ⟨_, _, rfl, .number hc hs hd rfl, ?_, rfl⟩
    have hnum : isNum s.byte = true := hb.resolve_right hminus
    have hcost : cost (.number false types) { s with seekValue := false } = 3 * s.rest.length := by
      simp only [cost, show ({ s with seekValue := false } : Scan).byte = s.byte from rfl, hnum, if_true,
        Nat.add_zero]
    rw [hcost, ← le_cost fun _ _ => Mode.noConfusion]
    omega

theorem finishNumber_live : finishNumber D ps acts s n ≠ .noTop ∧ finishNumber D ps acts s n ≠ .stop := by
  dsimp only [finishNumber]
  split
  · exact ⟨fun h => (nomatch h), fun h => (nomatch h)⟩
  · exact ⟨fun h => (nomatch h), fun h => (nomatch h)⟩

theorem inNumber_live {double : Bool} :
    inNumber D double ps s n ≠ .noTop ∧ inNumber D double ps s n ≠ .stop := by
  dsimp only [inNumber]
  split_ifs
  all_goals first | exact finishNumber_live | exact ⟨fun h => (nomatch h), fun h => (nomatch h)⟩

/-- **A turn of the first pass** fails, goes on by a move, or stops behind the root. -/
theorem control_cases {mode : Mode} (len : Nat) (hf : Fits mode s) :
    control D true mode.types len s n = .failed ∨
      (control D true mode.types len s n = .stop ∧ ∃ type, mode = .done type) ∨
        ∃ acts s' n', control D true mode.types len s n = .go acts s' n' ∧ Goes mode s acts s' := by
  by_cases hm : mode.Still
  · have hleads := (flow_leads (δ := δ) len hf hm).2
    rw [control_still hf hm]
    generalize flow mode.types len s = f at hleads
    cases f with
    | failed => exact .inl rfl
    | noTop => exact hleads.elim
    | stop => exact .inr (.inl ⟨rfl, hleads⟩)
    | go acts s' =>
      obtain ⟨mode', hmove, -, hf', hcost⟩ := hleads
      exact .inr (.inr ⟨acts, s', n, rfl, mode', hmove, hf', hcost⟩)
    | start s' =>
      obtain ⟨rfl, ⟨types, rfl⟩, hb⟩ := hleads
      obtain ⟨s', n', hgo, hf', hcost, -⟩ := startNumber_goes (δ := δ) (n := n) hf hb
      exact .inr (.inr ⟨_, s', n', hgo, _, .openNumber types, hf', hcost⟩)
  · obtain ⟨double, ps, rfl⟩ : ∃ double ps, mode = .number double ps := by
      cases mode with
      | number double ps => exact ⟨double, ps, rfl⟩
      | _ => exact absurd trivial hm
    have hlive : inNumber D double ps s n ≠ .noTop ∧ inNumber D double ps s n ≠ .stop := inNumber_live
    rw [Mode.types, control_number hf]
    cases hnum : inNumber D double ps s n with
    | failed => exact .inl rfl
    | noTop => exact absurd hnum hlive.1
    | stop => exact absurd hnum hlive.2
    | go acts s' n' => exact .inr (.inr ⟨acts, s', n', rfl, inNumber_goes hf hnum⟩)

end Turns

end JsonParser

end HttpProxy
