import HttpProxy.Config.Legacy

/-!
# A second migration

`src/app/srs_app_config.cpp`, lines 149-421 and 526-606, with a `get(name, arg0)` that returns NULL when no
child matches.

* `vhostStepNull`, `transformNull` — the migration with this `get`; `transformNull_of_done` says that it
  goes on where the other one stops, and nothing else.
* `leftForms` — the old forms that one pass leaves, `transformNull_left`.
* `transformNull_idempotent_iff` — a second pass changes nothing, exactly if no block has one of the old
  switches twice.
-/

namespace HttpProxy

open SrsConfDirective

/-- A new directive with an argument, as `get_or_create(name, arg0)` makes it. -/
def SrsConfDirective.newArg0 (name a0 : Bytes) : SrsConfDirective := ⟨0, name, [a0], []⟩

/-- `get_or_create(name, arg0)`, when `get(name, arg0)` returns NULL behind its loop. -/
def getOrCreateArg0 (name a0 : Bytes) (d : SrsConfDirective) : SrsConfDirective :=
  match d.getArg0 name a0 with
  | some _ => d
  | none => { d with directives := d.directives ++ [newArg0 name a0] }

/-- The change of `refer`, whether it is there or is created. -/
def fillRefer (n : Bytes) (args : List Bytes) (refer : SrsConfDirective) : SrsConfDirective :=
  withChild (referField n) (setArgs args) (getOrCreateArg0 (str "enabled") (str "on") refer)

/-- One round of the loop over the children of a vhost.  Only the old forms of `refer` call
`get(name, arg0)`. -/
def vhostStepNull (done : List SrsConfDirective) (conf : SrsConfDirective) (rest : List SrsConfDirective) :
    Outcome ConfError Children :=
  if conf.OldRefer then .done (moveInto (str "refer") (fillRefer conf.name conf.args) done rest)
  else vhostStep done conf rest

/-- The loop over the children of a vhost. -/
def vhostLoopNull : Nat → List SrsConfDirective → List SrsConfDirective →
    Outcome ConfError (List SrsConfDirective)
  | _, done, [] => .done done
  | 0, _, _ :: _ => .fault .endless
  | n + 1, done, conf :: rest => (vhostStepNull done conf rest).bind fun p => vhostLoopNull n p.1 p.2

/-- One round of the loop over the directives of the root. -/
def transformDirectiveNull (dir : SrsConfDirective) : Outcome ConfError SrsConfDirective :=
  if dir.name ≠ str "vhost" then transformDirective dir
  else
    (vhostLoopNull (2 * dir.directives.length) [] dir.directives).bind fun ds =>
    .done { dir with directives := ds }

/-- `srs_config_transform_vhost`, on the directives of the root. -/
def transformNull : List SrsConfDirective → Outcome ConfError (List SrsConfDirective)
  | [] => .done []
  | dir :: rest =>
      (transformDirectiveNull dir).bind fun dir =>
      (transformNull rest).bind fun rest => .done (dir :: rest)

variable {d d' conf conf' : SrsConfDirective} {name n : Bytes} {f g : SrsConfDirective → SrsConfDirective}
  {ds ds' done rest : List SrsConfDirective} {k : Nat}

/-! ## Where the other one stops -/

/-- The change matters only for the child that is there or is created. -/
theorem withDirective_congr (h : f ((ds.find? fun d => d.name = n).getD (new n)) =
    g ((ds.find? fun d => d.name = n).getD (new n))) : withDirective n f ds = withDirective n g ds := by
  induction ds with
  | nil => exact congrArg (fun d => [d]) h
  | cons d ds ih =>
    unfold withDirective
    by_cases hd : d.name = n
    · rw [List.find?_cons_of_pos (by simpa using hd)] at h
      rw [if_pos hd, if_pos hd]
      exact congrArg (· :: ds) h
    · rw [List.find?_cons_of_neg (by simpa using hd)] at h
      rw [if_neg hd, if_neg hd, ih h]

theorem vhostStep_oldRefer (h : conf.OldRefer) : vhostStep done conf rest =
    match (((done ++ rest).find? fun d => d.name = str "refer").getD (new (str "refer"))).getArg0
        (str "enabled") (str "on") with
    | none => .fault .noReturn
    | some _ =>
        .done (moveInto (str "refer") (withChild (referField conf.name) (setArgs conf.args)) done rest) := by
  have hne : conf.name ≠ str "http" ∧ conf.name ≠ str "http_remux" := by
    rcases h with ⟨h, -⟩ | h | h <;> rw [h] <;> decide
  unfold vhostStep
  simp only
  rw [if_neg hne.1, if_neg hne.2]
  exact if_pos h

/-- A round that ends is the same in both. -/
theorem vhostStepNull_of_done {p : Children} (h : vhostStep done conf rest = .done p) :
    vhostStepNull done conf rest = .done p := by
  unfold vhostStepNull
  by_cases hrefer : conf.OldRefer
  · rw [if_pos hrefer]
    rw [vhostStep_oldRefer hrefer] at h
    split at h
    next => cases h
    next c hget =>
      rw [← h]
      unfold moveInto
      rw [withDirective_congr (f := fillRefer conf.name conf.args)
        (g := withChild (referField conf.name) (setArgs conf.args))]
      unfold fillRefer getOrCreateArg0
      rw [hget]
  · rw [if_neg hrefer, h]

theorem vhostLoopNull_of_done (h : vhostLoop k done rest = .done ds) :
    vhostLoopNull k done rest = .done ds := by
  induction k generalizing done rest with
  | zero =>
    cases rest with
    | nil => exact h
    | cons conf rest => cases h
  | succ k ih =>
    cases rest with
    | nil => exact h
    | cons conf rest =>
      unfold vhostLoop at h
      obtain ⟨p, hp, h⟩ := Outcome.bind_eq_done.1 h
      unfold vhostLoopNull
      rw [vhostStepNull_of_done hp, Outcome.bind_done]
      exact ih h

theorem transformDirectiveNull_of_done (h : transformDirective d = .done d') :
    transformDirectiveNull d = .done d' := by
  unfold transformDirectiveNull
  by_cases hvhost : d.name = str "vhost"
  · rw [if_neg (not_not.2 hvhost)]
    have hrtc : d.name ≠ str "rtc_server" := by rw [hvhost]; decide
    unfold transformDirective at h
    rw [if_neg (by rw [hvhost]; decide)] at h
    simp only [if_neg hrtc] at h
    rw [if_neg (not_not.2 hvhost)] at h
    obtain ⟨ds, hds, h⟩ := Outcome.bind_eq_done.1 h
    rw [vhostLoopNull_of_done hds]
    exact h
  · rw [if_pos hvhost, h]

/-- A migration that ends is the same in both. -/
theorem transformNull_of_done (h : srsConfigTransformVhost ds = .done ds') : transformNull ds = .done ds' := by
  induction ds generalizing ds' with
  | nil => exact h
  | cons d ds ih =>
    unfold srsConfigTransformVhost at h
    obtain ⟨d', hd, h⟩ := Outcome.bind_eq_done.1 h
    obtain ⟨rest, hrest, h⟩ := Outcome.bind_eq_done.1 h
    unfold transformNull
    rw [transformDirectiveNull_of_done hd, Outcome.bind_done, ih hrest]
    exact h

/-! ## What a round leaves -/

/-- The old forms in a child of a vhost that one pass leaves: each old switch but the first. -/
def SrsConfDirective.leftChild (d : SrsConfDirective) : Nat :=
  match childKind d.name with
  | .remux => d.countOf (str "hstrs") - 1
  | .rtc => (d.countOf (str "aac") - 1) + (d.countOf (str "bframe") - 1)
  | _ => 0

/-- Those in the children of a vhost. -/
def leftChildren (ds : List SrsConfDirective) : Nat := (ds.map leftChild).sum

/-- Those in a directive of the root. -/
def SrsConfDirective.left (d : SrsConfDirective) : Nat :=
  if d.name = str "vhost" then leftChildren d.directives else 0

/-- Those in a configuration. -/
def leftForms (ds : List SrsConfDirective) : Nat := (ds.map left).sum

theorem leftChild_le : d.leftChild ≤ d.legacyChild := by
  unfold leftChild legacyChild
  cases childKind d.name <;> simp only <;> omega

theorem leftChild_lt (h : d.legacyChild ≠ 0) : d.leftChild < d.legacyChild := by
  unfold leftChild
  unfold legacyChild at h ⊢
  revert h
  cases childKind d.name <;> simp only <;> intro h <;> omega

theorem not_erased_of_kind (h : childKind d.name ≠ .moved) (h' : childKind d.name ≠ .refer) :
    ¬ d.IsErased := by
  rintro (hmoved | ⟨hrefer, -⟩)
  · exact h hmoved
  · exact h' hrefer

/-- A switch that is set in the place of the other takes the first one away. -/
theorem countOf_transformSwitch {old value sw : Bytes} (hne : old ≠ sw) :
    (transformSwitch old value sw conf).countOf old = conf.countOf old - 1 := by
  rcases transformSwitch_cases conf value hne with ⟨hzero, hsame⟩ | hcount
  · rw [hsame, hzero]
  · omega

theorem leftChild_rtc (h : conf.name = str "rtc") : (transformRtc conf).legacyChild = conf.leftChild := by
  have hkind : childKind (str "rtc") = .rtc := by decide
  have hname : (transformRtc conf).name = str "rtc" := by
    unfold transformRtc
    rw [name_transformSwitch, name_transformSwitch, h]
  unfold legacyChild leftChild
  rw [hname, h, hkind]
  unfold transformRtc
  simp only
  rw [countOf_transformSwitch_of_ne (by decide) (by decide), countOf_transformSwitch (by decide),
    countOf_transformSwitch (by decide), countOf_transformSwitch_of_ne (by decide) (by decide)]

theorem leftChild_remux (h : conf.name = str "http_remux") :
    (removeFirst (str "hstrs") conf).legacyChild = conf.leftChild := by
  have hkind : childKind (str "http_remux") = .remux := by decide
  have hname : (removeFirst (str "hstrs") conf).name = str "http_remux" := h
  unfold legacyChild leftChild
  rw [hname, h, hkind]
  simp only
  by_cases hget : conf.get (str "hstrs") = none
  · rw [removeFirst_eq_self hget, countOf_eq_zero hget]
  · have := countOf_removeFirst hget
    omega

/-- A child that stays in its place keeps the old forms that one pass leaves. -/
theorem Rewritten.left (h : Rewritten conf conf') :
    conf'.legacyChild = conf.leftChild ∧ ¬ conf'.IsErased := by
  cases h with
  | http h =>
    have hkind : childKind (str "http_static") = .modern := by decide
    refine ⟨?_, not_erased_of_kind (by rw [hkind]; decide) (by rw [hkind]; decide)⟩
    rw [legacyChild_modern hkind]
    unfold leftChild
    rw [h, show childKind (str "http") = .http by decide]
  | remux h =>
    have hname : childKind (removeFirst (str "hstrs") conf).name = .remux := by
      rw [show (removeFirst (str "hstrs") conf).name = str "http_remux" from h]
      decide
    exact ⟨leftChild_remux h, not_erased_of_kind (by rw [hname]; decide) (by rw [hname]; decide)⟩
  | forward h hds hargs =>
    have hkind : childKind conf.name = .forward := by rw [h]; decide
    have hname : childKind (transformForward conf).name = .forward := hkind
    refine ⟨?_, not_erased_of_kind (by rw [hname]; decide) (by rw [hname]; decide)⟩
    unfold legacyChild leftChild
    rw [hname, hkind]
    exact if_neg fun hnil => hnil.2 rfl
  | rtc h =>
    have hname : childKind (transformRtc conf).name = .rtc := by
      unfold transformRtc
      rw [name_transformSwitch, name_transformSwitch, h]
      decide
    exact ⟨leftChild_rtc h, not_erased_of_kind (by rw [hname]; decide) (by rw [hname]; decide)⟩
  | other h =>
    refine ⟨?_, fun herased => ?_⟩
    · have := leftChild_le (d := conf)
      omega
    · rw [legacyChild_erased herased] at h
      cases h

/-- The child that another one is moved into keeps its old forms, before and behind the iterator. -/
structure Keeps (n : Bytes) (f : SrsConfDirective → SrsConfDirective) : Prop where
  done : ∀ d, d.name = n → ¬ d.IsErased → (f d).legacyChild = d.legacyChild
  rest : ∀ d, d.name = n → (f d).leftChild = d.leftChild
  fresh : (f (new n)).leftChild = 0
  erased : ∀ d, d.name = n → (f d).IsErased → d.IsErased

theorem Filled.keeps (h : Filled n f) : Keeps n f := by
  have hfresh : (f (new n)).leftChild = 0 := by
    have := leftChild_le (d := f (new n))
    rw [h.container.fresh] at this
    omega
  refine ⟨?_, ?_, hfresh, h.container.erased⟩
  · intro d hd herased
    have hle := h.container.legacy d hd
    cases h with
    | refer hf hne =>
      have hkind : childKind d.name = .refer := by rw [hd]; decide
      have hzero : d.legacyChild = 0 := by
        unfold legacyChild
        rw [hkind]
        exact if_neg fun hnil => herased (Or.inr ⟨hkind, List.map_eq_nil_iff.1 hnil⟩)
      omega
    | modern hn hf =>
      rw [legacyChild_modern (by rw [hf d, hd, hn]), legacyChild_modern (by rw [hd, hn])]
    | rtc hf haac hbframe =>
      unfold legacyChild
      rw [hf d, hd, haac, hbframe, show childKind (str "rtc") = .rtc by decide]
  · intro d hd
    cases h with
    | refer hf hne =>
      unfold leftChild
      rw [hf d, hd, show childKind (str "refer") = .refer by decide]
    | modern hn hf =>
      unfold leftChild
      rw [hf d, hd, hn]
    | rtc hf haac hbframe =>
      unfold leftChild
      rw [hf d, hd, haac, hbframe, show childKind (str "rtc") = .rtc by decide]

theorem keepsName_fillRefer (n : Bytes) (args : List Bytes) : KeepsName (fillRefer n args) := by
  intro d
  unfold fillRefer getOrCreateArg0
  split <;> rfl

/-- What a round of the loop does. -/
theorem vhostStepNull_cases (done : List SrsConfDirective) (conf : SrsConfDirective)
    (rest : List SrsConfDirective) :
    (∃ conf', vhostStepNull done conf rest = .done (advanceIt done conf' rest) ∧ Rewritten conf conf') ∨
    ∃ n f, vhostStepNull done conf rest = .done (moveInto n f done rest) ∧ Filled n f ∧ conf.IsErased := by
  unfold vhostStepNull
  by_cases hrefer : conf.OldRefer
  · rw [if_pos hrefer]
    exact Or.inr ⟨_, _, rfl, .refer (keepsName_fillRefer _ _) fun _ => withDirective_ne_nil, hrefer.erased⟩
  · rw [if_neg hrefer]
    rcases vhostStep_cases done conf rest with h | h | ⟨-, h⟩
    · exact Or.inl h
    · exact Or.inr h
    · exact absurd h hrefer

/-! ## The loop -/

/-- The iterator stands behind the child that is changed, or in front of it. -/
theorem moveInto_cases (n : Bytes) (f : SrsConfDirective → SrsConfDirective)
    (done rest : List SrsConfDirective) :
    (moveInto n f done rest = (withDirective n f done, rest) ∧ ∃ d ∈ done, d.name = n) ∨
      moveInto n f done rest = (done, withDirective n f rest) := by
  unfold moveInto
  induction done with
  | nil => exact Or.inr rfl
  | cons d done ih =>
    simp only [List.cons_append, List.length_cons]
    unfold withDirective
    by_cases hd : d.name = n
    · rw [if_pos hd, if_pos hd]
      refine Or.inl ⟨?_, d, List.mem_cons_self, hd⟩
      rw [List.take_succ_cons, List.drop_succ_cons, List.take_left, List.drop_left]
    · rw [if_neg hd, if_neg hd, List.take_succ_cons, List.drop_succ_cons]
      rcases ih with ⟨heq, c, hc, hname⟩ | heq
      · simp only [Prod.mk.injEq] at heq
        exact Or.inl ⟨by rw [heq.1, heq.2], c, List.mem_cons_of_mem _ hc, hname⟩
      · simp only [Prod.mk.injEq] at heq
        right
        rw [heq.1, heq.2]
        cases rest <;> rfl

theorem leftChildren_cons (d : SrsConfDirective) (ds : List SrsConfDirective) :
    leftChildren (d :: ds) = d.leftChild + leftChildren ds := by
  unfold leftChildren
  rw [List.map_cons, List.sum_cons]

theorem leftChildren_withDirective (h : Keeps n f) (ds : List SrsConfDirective) :
    leftChildren (withDirective n f ds) = leftChildren ds := by
  induction ds with
  | nil =>
    unfold withDirective
    rw [leftChildren_cons, h.fresh]
    rfl
  | cons d ds ih =>
    unfold withDirective
    by_cases hd : d.name = n
    · rw [if_pos hd, leftChildren_cons, leftChildren_cons, h.rest d hd]
    · rw [if_neg hd, leftChildren_cons, leftChildren_cons, ih]

/-- In front of the iterator nothing is created, and no old form comes or goes. -/
theorem legacyChildren_done (h : Keeps n f) (hdone : ∀ d ∈ done, ¬ d.IsErased)
    (hmem : ∃ d ∈ done, d.name = n) :
    legacyChildren (withDirective n f done) = legacyChildren done ∧
      ∀ d ∈ withDirective n f done, ¬ d.IsErased := by
  induction done with
  | nil =>
    obtain ⟨d, hd, -⟩ := hmem
    exact absurd hd List.not_mem_nil
  | cons d done ih =>
    unfold withDirective
    by_cases hd : d.name = n
    · rw [if_pos hd, legacyChildren_cons, legacyChildren_cons,
        h.done d hd (hdone d List.mem_cons_self)]
      refine ⟨rfl, fun c hc => ?_⟩
      rcases List.mem_cons.1 hc with rfl | hc
      · exact fun herased => hdone d List.mem_cons_self (h.erased d hd herased)
      · exact hdone c (List.mem_cons_of_mem _ hc)
    · obtain ⟨c, hc, hname⟩ := hmem
      have hc : c ∈ done := (List.mem_cons.1 hc).resolve_left fun heq => hd (heq ▸ hname)
      obtain ⟨hsum, herased⟩ := ih (fun c hc => hdone c (List.mem_cons_of_mem _ hc)) ⟨c, hc, hname⟩
      rw [if_neg hd, legacyChildren_cons, legacyChildren_cons, hsum]
      refine ⟨rfl, fun c hc => ?_⟩
      rcases List.mem_cons.1 hc with rfl | hc
      · exact hdone c List.mem_cons_self
      · exact herased c hc

/-- The old forms behind the loop: those in front of the iterator, and those that it leaves behind. -/
theorem vhostLoopNull_left (hdone : ∀ d ∈ done, ¬ d.IsErased) (h : vhostLoopNull k done rest = .done ds) :
    legacyChildren ds = legacyChildren done + leftChildren rest := by
  induction k generalizing done rest with
  | zero =>
    cases rest with
    | nil =>
      obtain rfl : done = ds := by simpa [vhostLoopNull] using h
      rfl
    | cons conf rest => cases h
  | succ k ih =>
    cases rest with
    | nil =>
      obtain rfl : done = ds := by simpa [vhostLoopNull] using h
      rfl
    | cons conf rest =>
      unfold vhostLoopNull at h
      rw [leftChildren_cons]
      rcases vhostStepNull_cases done conf rest with ⟨conf', hstep, hconf⟩ | ⟨n, f, hstep, hf, herased⟩
      · rw [hstep, Outcome.bind_done] at h
        obtain ⟨hleft, hmodern⟩ := hconf.left
        have hdone' : ∀ d ∈ done ++ [conf'], ¬ d.IsErased := by
          intro d hd
          rcases List.mem_append.1 hd with hd | hd
          · exact hdone d hd
          · rw [List.mem_singleton.1 hd]
            exact hmodern
        have hsum := ih hdone' h
        have hone : legacyChildren [conf'] = conf'.legacyChild := legacyChildren_cons conf' []
        rw [legacyChildren_append, hone, hleft] at hsum
        rw [hsum, Nat.add_assoc]
        rfl
      · have hzero : conf.leftChild = 0 := by
          have hone := legacyChild_erased herased
          have := leftChild_lt (d := conf) (by omega)
          omega
        rw [hstep, Outcome.bind_done] at h
        rw [hzero, Nat.zero_add]
        rcases moveInto_cases n f done rest with ⟨heq, hmem⟩ | heq
        · rw [heq] at h
          obtain ⟨hsum, herased'⟩ := legacyChildren_done hf.keeps hdone hmem
          rw [← hsum]
          exact ih herased' h
        · rw [heq] at h
          rw [← leftChildren_withDirective hf.keeps rest]
          exact ih hdone h

/-- The loop comes to its end. -/
theorem vhostLoopNull_done (hk : cost rest ≤ k) : ∃ ds, vhostLoopNull k done rest = .done ds := by
  induction k generalizing done rest with
  | zero =>
    cases rest with
    | nil => exact ⟨done, rfl⟩
    | cons conf rest =>
      rw [cost_cons] at hk
      split at hk <;> omega
  | succ k ih =>
    cases rest with
    | nil => exact ⟨done, rfl⟩
    | cons conf rest =>
      unfold vhostLoopNull
      rw [cost_cons] at hk
      rcases vhostStepNull_cases done conf rest with ⟨conf', hstep, -⟩ | ⟨n, f, hstep, hf, herased⟩
      · rw [hstep, Outcome.bind_done]
        refine ih ?_
        change cost rest ≤ k
        split at hk <;> omega
      · rw [hstep, Outcome.bind_done]
        refine ih ?_
        have hdrop := cost_drop hf.container done rest
        rw [if_pos herased] at hk
        change cost ((withDirective n f (done ++ rest)).drop done.length) ≤ k
        omega

/-! ## The root -/

theorem transformDirectiveNull_left (d : SrsConfDirective) :
    ∃ d', transformDirectiveNull d = .done d' ∧ d'.legacy = d.left := by
  unfold transformDirectiveNull left
  by_cases hvhost : d.name = str "vhost"
  · have hcost : cost d.directives ≤ 2 * d.directives.length := cost_le d.directives
    obtain ⟨ds, hds⟩ : ∃ ds, vhostLoopNull (2 * d.directives.length) [] d.directives = .done ds :=
      vhostLoopNull_done hcost
    refine ⟨{ d with directives := ds }, by rw [if_neg (not_not.2 hvhost), hds]; rfl, ?_⟩
    have hsum := vhostLoopNull_left (by simp) hds
    rw [show legacyChildren [] = 0 from rfl, Nat.zero_add] at hsum
    unfold legacy
    simp only
    rw [if_neg (by rw [hvhost]; decide), if_neg (by rw [hvhost]; decide), if_pos hvhost, if_pos hvhost, hsum]
  · rw [if_pos hvhost, if_neg hvhost]
    obtain ⟨d', hd'⟩ : ∃ d', transformDirective d = .done d' := by
      unfold transformDirective
      by_cases hstream : d.name = str "http_stream"
      · exact ⟨_, if_pos hstream⟩
      · rw [if_neg hstream]
        simp only
        by_cases hrtc : d.name = str "rtc_server"
        · simp only [if_pos hrtc]
          exact ⟨_, if_pos hvhost⟩
        · simp only [if_neg hrtc]
          exact ⟨_, if_pos hvhost⟩
    exact ⟨d', hd', legacy_transformDirective hd' hvhost⟩

theorem leftForms_cons (d : SrsConfDirective) (ds : List SrsConfDirective) :
    leftForms (d :: ds) = d.left + leftForms ds := by
  unfold leftForms
  rw [List.map_cons, List.sum_cons]

/-- The migration ends, and the old forms behind it are those that one pass leaves. -/
theorem transformNull_left (ds : List SrsConfDirective) :
    ∃ ds', transformNull ds = .done ds' ∧ legacyForms ds' = leftForms ds := by
  induction ds with
  | nil => exact ⟨[], rfl, rfl⟩
  | cons d ds ih =>
    obtain ⟨d', hd, hleft⟩ := transformDirectiveNull_left d
    obtain ⟨ds', hds, hrest⟩ := ih
    refine ⟨d' :: ds', ?_, ?_⟩
    · unfold transformNull
      rw [hd, Outcome.bind_done, hds]
      rfl
    · rw [legacyForms_cons, leftForms_cons, hleft, hrest]

/-- No `http_remux` of a vhost has two `hstrs`, and no `rtc` has two `aac` or two `bframe`. -/
def SingleSwitches (ds : List SrsConfDirective) : Prop :=
  ∀ d ∈ ds, d.name = str "vhost" → ∀ c ∈ d.directives,
    (c.name = str "http_remux" → c.countOf (str "hstrs") ≤ 1) ∧
      (c.name = str "rtc" → c.countOf (str "aac") ≤ 1 ∧ c.countOf (str "bframe") ≤ 1)

theorem sum_eq_zero_iff_forall {v : SrsConfDirective → Nat} (ds : List SrsConfDirective) :
    (ds.map v).sum = 0 ↔ ∀ d ∈ ds, v d = 0 := by
  rw [List.sum_eq_zero_iff]
  simp

theorem leftChild_eq_zero_iff : d.leftChild = 0 ↔
    (d.name = str "http_remux" → d.countOf (str "hstrs") ≤ 1) ∧
      (d.name = str "rtc" → d.countOf (str "aac") ≤ 1 ∧ d.countOf (str "bframe") ≤ 1) := by
  unfold leftChild
  by_cases hremux : d.name = str "http_remux"
  · have hrtc : d.name ≠ str "rtc" := by rw [hremux]; decide
    rw [show childKind d.name = .remux by rw [hremux]; decide]
    simp only
    constructor
    · exact fun h => ⟨fun _ => by omega, fun h' => absurd h' hrtc⟩
    · exact fun h => by have := h.1 hremux; omega
  by_cases hrtc : d.name = str "rtc"
  · rw [show childKind d.name = .rtc by rw [hrtc]; decide]
    simp only
    constructor
    · exact fun h => ⟨fun h' => absurd h' hremux, fun _ => by omega⟩
    · exact fun h => by have := h.2 hrtc; omega
  refine iff_of_true ?_ ⟨fun h => absurd h hremux, fun h => absurd h hrtc⟩
  have hkind : childKind d.name ≠ .remux ∧ childKind d.name ≠ .rtc := by
    unfold childKind
    rw [if_neg hremux, if_neg hrtc]
    split_ifs <;> decide
  revert hkind
  cases childKind d.name <;> simp

theorem leftForms_eq_zero_iff : leftForms ds = 0 ↔ SingleSwitches ds := by
  unfold leftForms SingleSwitches
  rw [sum_eq_zero_iff_forall]
  refine forall₂_congr fun d _ => ?_
  unfold left
  by_cases hvhost : d.name = str "vhost"
  · rw [if_pos hvhost]
    unfold leftChildren
    rw [sum_eq_zero_iff_forall]
    simp only [hvhost, forall_true_left, leftChild_eq_zero_iff]
  · rw [if_neg hvhost]
    exact iff_of_true rfl fun h => absurd h hvhost

/-- What one pass leaves is less than what it gets, unless it gets nothing. -/
theorem leftForms_lt (h : legacyForms ds ≠ 0) : leftForms ds < legacyForms ds := by
  have hle : ∀ d : SrsConfDirective, d.left ≤ d.legacy := by
    intro d
    unfold left legacy
    by_cases hvhost : d.name = str "vhost"
    · rw [if_pos hvhost, if_neg (by rw [hvhost]; decide), if_neg (by rw [hvhost]; decide), if_pos hvhost]
      exact List.sum_le_sum fun c _ => leftChild_le
    · rw [if_neg hvhost]
      exact Nat.zero_le _
  have hlt : ∀ d : SrsConfDirective, d.legacy ≠ 0 → d.left < d.legacy := by
    intro d hd
    unfold left
    by_cases hvhost : d.name = str "vhost"
    · rw [if_pos hvhost]
      unfold legacy at hd ⊢
      rw [if_neg (by rw [hvhost]; decide), if_neg (by rw [hvhost]; decide), if_pos hvhost] at hd ⊢
      unfold legacyChildren at hd ⊢
      rw [Ne, sum_eq_zero_iff_forall] at hd
      obtain ⟨c, hc, hne⟩ : ∃ c ∈ d.directives, c.legacyChild ≠ 0 := by
        by_contra hnone
        exact hd fun c hc => not_not.1 fun hne => hnone ⟨c, hc, hne⟩
      exact List.sum_lt_sum _ _ (fun c _ => leftChild_le) ⟨c, hc, leftChild_lt hne⟩
    · rw [if_neg hvhost]
      exact Nat.pos_of_ne_zero hd
  unfold legacyForms at h
  rw [Ne, sum_eq_zero_iff_forall] at h
  obtain ⟨d, hd, hne⟩ : ∃ d ∈ ds, d.legacy ≠ 0 := by
    by_contra hnone
    exact h fun d hd => not_not.1 fun hne => hnone ⟨d, hd, hne⟩
  exact List.sum_lt_sum _ _ (fun d _ => hle d) ⟨d, hd, hlt d hne⟩

/-- **A second migration.**  The migration ends, also when it is done again.  The second one changes
nothing, and no old form has survived the first one, exactly if no `http_remux` of a vhost has two `hstrs`,
and no `rtc` two `aac` or two `bframe`. -/
theorem transformNull_idempotent_iff (ds : List SrsConfDirective) :
    ∃ ds' ds'', transformNull ds = .done ds' ∧ transformNull ds' = .done ds'' ∧
      (trees ds'' = trees ds' ↔ SingleSwitches ds) ∧ (legacyForms ds' = 0 ↔ SingleSwitches ds) := by
  obtain ⟨ds', hds, hleft⟩ := transformNull_left ds
  obtain ⟨ds'', hds', hleft'⟩ := transformNull_left ds'
  have hforms : legacyForms ds' = 0 ↔ SingleSwitches ds := by rw [hleft, leftForms_eq_zero_iff]
  refine ⟨ds', ds'', hds, hds', ?_, hforms⟩
  rw [← hforms]
  constructor
  · intro htrees
    by_contra hne
    have hlt := leftForms_lt hne
    have hcongr := legacyForms_congr htrees
    omega
  · intro hzero
    have hself := transformNull_of_done (transform_eq_self hzero)
    cases hds'.symm.trans hself
    rfl

/-- A vhost whose `http_remux` has some `hstrs`. -/
def remuxVhost (n : Nat) : List SrsConfDirective :=
  [⟨1, str "vhost", [str "__defaultVhost__"],
    [⟨1, str "http_remux", [], List.replicate n ⟨1, str "hstrs", [], []⟩⟩]⟩]

/-- One of two `hstrs` is left the first time, and none the second time. -/
theorem hstrs_twice :
    transformNull (remuxVhost 2) = .done (remuxVhost 1) ∧
      transformNull (remuxVhost 1) = .done (remuxVhost 0) ∧
      trees (remuxVhost 0) ≠ trees (remuxVhost 1) := by
  refine ⟨rfl, rfl, ?_⟩
  simp [remuxVhost, trees, tree]

end HttpProxy
