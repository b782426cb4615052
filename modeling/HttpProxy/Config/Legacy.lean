import HttpProxy.Config.Transform

/-!
# The forms of earlier versions

* `legacyForms` — the number of forms in a tree that `srs_config_transform_vhost` rewrites.
* `vhostStep_cases` — what one round of its inner loop does, with the child it rewrites or fills.
* `transform_eq_self` — a tree without old forms stays as it is.
* `transform_lt` — every other tree loses some of them, and so becomes another tree.
* `transform_ends` — the loop over a vhost ends.
-/

namespace HttpProxy

open SrsConfDirective

/-! ## The forms it rewrites -/

/-- The number of children with a name. -/
def SrsConfDirective.countOf (d : SrsConfDirective) (name : Bytes) : Nat :=
  (d.directives.map (·.name)).count name

/-- The old forms in a child of a vhost. -/
def SrsConfDirective.legacyChild (d : SrsConfDirective) : Nat :=
  match childKind d.name with
  | .http => 1
  | .remux => d.countOf (str "hstrs")
  | .refer => if d.directives.map (·.name) = [] then 1 else 0
  | .forward => if d.directives.map (·.name) = [] ∧ d.args ≠ [] then 1 else 0
  | .rtc => d.countOf (str "aac") + d.countOf (str "bframe")
  | .moved => 1
  | .modern => 0

/-- The old forms in the children of a vhost. -/
def legacyChildren (ds : List SrsConfDirective) : Nat := (ds.map legacyChild).sum

/-- The old forms in a directive of the root. -/
def SrsConfDirective.legacy (d : SrsConfDirective) : Nat :=
  if d.name = str "http_stream" then 1
  else if d.name = str "rtc_server" then d.countOf (str "perf_stat") + d.countOf (str "queue_length")
  else if d.name = str "vhost" then legacyChildren d.directives
  else 0

/-- The old forms in a configuration. -/
def legacyForms (ds : List SrsConfDirective) : Nat := (ds.map legacy).sum

/-- A child that the loop takes out of the vhost. -/
def SrsConfDirective.IsErased (d : SrsConfDirective) : Prop :=
  childKind d.name = .moved ∨ childKind d.name = .refer ∧ d.directives = []

instance (d : SrsConfDirective) : Decidable d.IsErased := by
  unfold IsErased
  infer_instance

variable {d conf : SrsConfDirective} {name n : Bytes} {f : SrsConfDirective → SrsConfDirective}
  {ds done rest : List SrsConfDirective}

theorem legacyChild_modern (h : childKind d.name = .modern) : d.legacyChild = 0 := by
  unfold legacyChild
  rw [h]

theorem legacyChild_erased (h : d.IsErased) : d.legacyChild = 1 := by
  unfold legacyChild
  rcases h with h | ⟨h, hnil⟩
  · rw [h]
  · rw [h]
    simp [hnil]

/-! ## Changes of a child -/

/-- A change that keeps the name. -/
def KeepsName (f : SrsConfDirective → SrsConfDirective) : Prop := ∀ d, (f d).name = d.name

theorem withDirective_ne_nil : withDirective name f ds ≠ [] := by
  cases ds with
  | nil => exact List.cons_ne_nil _ _
  | cons d ds =>
    unfold withDirective
    split <;> exact List.cons_ne_nil _ _

/-- The other names are as frequent as before. -/
theorem count_withDirective (hf : KeepsName f) (hne : name ≠ n) :
    ((withDirective n f ds).map (·.name)).count name = (ds.map (·.name)).count name := by
  induction ds with
  | nil =>
    have hname : (f (new n)).name = n := hf _
    simp [withDirective, hname, Ne.symm hne]
  | cons d ds ih =>
    unfold withDirective
    by_cases hd : d.name = n
    · rw [if_pos hd, List.map_cons, List.map_cons, hf d]
    · rw [if_neg hd, List.map_cons, List.map_cons, List.count_cons, List.count_cons, ih]

theorem countOf_withChild (hf : KeepsName f) (hne : name ≠ n) :
    (withChild n f d).countOf name = d.countOf name :=
  count_withDirective hf hne

theorem keepsName_setArgs (args : List Bytes) : KeepsName (setArgs args) := fun _ => rfl

theorem keepsName_setArg0 (a0 : Bytes) : KeepsName (setArg0 a0) := by
  intro d
  unfold setArg0
  split <;> rfl

theorem keepsName_copyArgs (src : Option SrsConfDirective) (name : Bytes) :
    KeepsName (copyArgs src name) := by
  intro d
  unfold copyArgs
  split <;> rfl

theorem countOf_copyArgs {src : Option SrsConfDirective} (hne : name ≠ n) :
    (copyArgs src n d).countOf name = d.countOf name := by
  unfold copyArgs
  split
  · exact countOf_withChild (keepsName_setArgs _) hne
  · rfl

/-- The first child of a name is removed. -/
theorem countOf_removeFirst (h : d.get name ≠ none) :
    (removeFirst name d).countOf name + 1 = d.countOf name := by
  unfold SrsConfDirective.get at h
  unfold removeFirst countOf
  simp only
  revert h
  induction d.directives with
  | nil => exact fun h => absurd rfl h
  | cons c cs ih =>
    intro h
    by_cases hc : c.name = name
    · simp [hc]
    · rw [List.find?_cons_of_neg (by simpa using hc)] at h
      rw [List.eraseP_cons_of_neg (by simpa using hc), List.map_cons, List.map_cons,
        List.count_cons_of_ne hc, List.count_cons_of_ne hc, ih h]

/-- Children of other names are not. -/
theorem countOf_removeFirst_of_ne (hne : name ≠ n) : (removeFirst n d).countOf name = d.countOf name := by
  unfold removeFirst countOf
  simp only
  induction d.directives with
  | nil => rfl
  | cons c cs ih =>
    by_cases hc : c.name = n
    · rw [List.eraseP_cons_of_pos (by simpa using hc), List.map_cons, List.count_cons_of_ne]
      rw [hc]
      exact Ne.symm hne
    · rw [List.eraseP_cons_of_neg (by simpa using hc), List.map_cons, List.map_cons, List.count_cons,
        List.count_cons, ih]

theorem get_eq_none (h : d.countOf name = 0) : d.get name = none := by
  unfold SrsConfDirective.get
  unfold countOf at h
  rw [List.count_eq_zero] at h
  rw [List.find?_eq_none]
  intro c hc hname
  exact h (List.mem_map.2 ⟨c, hc, by simpa using hname⟩)

theorem countOf_eq_zero (h : d.get name = none) : d.countOf name = 0 := by
  unfold SrsConfDirective.get at h
  unfold countOf
  rw [List.find?_eq_none] at h
  rw [List.count_eq_zero]
  intro hmem
  obtain ⟨c, hc, hname⟩ := List.mem_map.1 hmem
  exact h c hc (by simpa using hname)

theorem removeFirst_eq_self (h : d.get name = none) : removeFirst name d = d := by
  unfold SrsConfDirective.get at h
  unfold removeFirst
  rw [List.find?_eq_none] at h
  rw [List.eraseP_of_forall_not h]
  cases d
  rfl

/-! ## One round -/

/-- A change of a child with this name, or of a new one, that brings no old form in. -/
structure Container (n : Bytes) (f : SrsConfDirective → SrsConfDirective) : Prop where
  legacy : ∀ d, d.name = n → (f d).legacyChild ≤ d.legacyChild
  erased : ∀ d, d.name = n → (f d).IsErased → d.IsErased
  fresh : (f (new n)).legacyChild = 0

/-- A child becomes one with fewer old forms, unless it has none. -/
def Lighter (conf conf' : SrsConfDirective) : Prop :=
  if conf.legacyChild = 0 then conf' = conf else conf'.legacyChild < conf.legacyChild

theorem Lighter.refl (h : conf.legacyChild = 0) : Lighter conf conf := by
  unfold Lighter
  rw [if_pos h]

theorem Lighter.of_lt {conf' : SrsConfDirective} (h : conf'.legacyChild < conf.legacyChild) :
    Lighter conf conf' := by
  unfold Lighter
  rw [if_neg (by omega)]
  exact h

/-- A child of a name that is in use today is changed under its name. -/
theorem container_modern (hn : childKind n = .modern) (hf : KeepsName f) : Container n f := by
  have hmodern : ∀ d : SrsConfDirective, d.name = n → (f d).legacyChild = 0 := fun d hd =>
    legacyChild_modern (by rw [hf d, hd, hn])
  refine ⟨fun d hd => by rw [hmodern d hd]; exact Nat.zero_le _, fun d hd herased => ?_, hmodern _ rfl⟩
  unfold IsErased at herased
  rw [hf d, hd, hn] at herased
  rcases herased with h | ⟨h, -⟩ <;> cases h

/-- A `refer` with children is not an old form. -/
theorem container_refer (hf : KeepsName f) (hne : ∀ d, (f d).directives ≠ []) :
    Container (str "refer") f := by
  have hkind : childKind (str "refer") = .refer := by decide
  have hzero : ∀ d : SrsConfDirective, d.name = str "refer" → (f d).legacyChild = 0 := by
    intro d hd
    unfold legacyChild
    rw [hf d, hd, hkind]
    exact if_neg fun hnil => hne d (List.map_eq_nil_iff.1 hnil)
  refine ⟨fun d hd => by rw [hzero d hd]; exact Nat.zero_le _, fun d hd herased => ?_, hzero _ rfl⟩
  have := legacyChild_erased herased
  rw [hzero d hd] at this
  cases this

/-- The old switches of `rtc` stay as they are when others are set. -/
theorem container_rtc (hf : KeepsName f) (haac : ∀ d, (f d).countOf (str "aac") = d.countOf (str "aac"))
    (hbframe : ∀ d, (f d).countOf (str "bframe") = d.countOf (str "bframe")) :
    Container (str "rtc") f := by
  have hkind : childKind (str "rtc") = .rtc := by decide
  have hcount : ∀ d : SrsConfDirective, d.name = str "rtc" →
      d.legacyChild = d.countOf (str "aac") + d.countOf (str "bframe") := by
    intro d hd
    unfold legacyChild
    rw [hd, hkind]
  refine ⟨fun d hd => ?_, fun d hd herased => ?_, ?_⟩
  · rw [hcount d hd, hcount (f d) ((hf d).trans hd), haac, hbframe]
  · unfold IsErased at herased
    rw [hf d, hd, hkind] at herased
    rcases herased with h | ⟨h, -⟩ <;> cases h
  · rw [hcount _ (hf _), haac, hbframe]
    rfl

theorem erased_moved (h : childKind conf.name = .moved) : conf.IsErased := Or.inl h

theorem lighter_http (h : conf.name = str "http") :
    Lighter conf { conf with name := str "http_static" } := by
  have hkind : childKind conf.name = .http := by rw [h]; decide
  have hone : conf.legacyChild = 1 := by
    unfold legacyChild
    rw [hkind]
  refine .of_lt ?_
  rw [hone, legacyChild_modern (show childKind (str "http_static") = .modern by decide)]
  exact Nat.zero_lt_one

theorem lighter_remux (h : conf.name = str "http_remux") : Lighter conf (removeFirst (str "hstrs") conf) := by
  have hkind : childKind (str "http_remux") = .remux := by decide
  have hcount : ∀ d : SrsConfDirective, d.name = str "http_remux" →
    d.legacyChild = d.countOf (str "hstrs") := by
    intro d hd
    unfold legacyChild
    rw [hd, hkind]
  by_cases hget : conf.get (str "hstrs") = none
  · rw [removeFirst_eq_self hget]
    exact .refl (by rw [hcount conf h, countOf_eq_zero hget])
  · refine .of_lt ?_
    have := countOf_removeFirst hget
    rw [hcount conf h, hcount (removeFirst (str "hstrs") conf) h]
    omega

theorem lighter_forward (h : conf.name = str "forward") (hds : conf.directives = [])
    (hargs : conf.args ≠ []) :
    Lighter conf (transformForward conf) := by
  have hkind : childKind (str "forward") = .forward := by decide
  have hone : conf.legacyChild = 1 := by
    unfold legacyChild
    rw [h, hkind]
    exact if_pos ⟨by rw [hds]; rfl, hargs⟩
  have hzero : (transformForward conf).legacyChild = 0 := by
    have hname : (transformForward conf).name = str "forward" := h
    unfold legacyChild
    rw [hname, hkind]
    exact if_neg fun hnil => hnil.2 rfl
  refine .of_lt ?_
  rw [hone, hzero]
  exact Nat.zero_lt_one

/-- One switch is set in the place of the other, if it is there. -/
theorem transformSwitch_cases (conf : SrsConfDirective) (value : Bytes) {old sw : Bytes} (hne : old ≠ sw) :
    conf.countOf old = 0 ∧ transformSwitch old value sw conf = conf ∨
      (transformSwitch old value sw conf).countOf old + 1 = conf.countOf old := by
  unfold transformSwitch
  cases hget : conf.get old with
  | none => exact Or.inl ⟨countOf_eq_zero hget, rfl⟩
  | some c =>
    right
    simp only
    have hcount := countOf_withChild (d := conf) (n := sw) (keepsName_setArg0
      (if c.arg0 = value then str "on" else str "off")) hne
    rw [countOf_removeFirst, hcount]
    intro hnone
    have hzero := countOf_eq_zero hnone
    rw [hcount] at hzero
    rw [get_eq_none hzero] at hget
    cases hget

theorem countOf_transformSwitch_of_ne {old value sw : Bytes} (hold : name ≠ old) (hsw : name ≠ sw) :
    (transformSwitch old value sw conf).countOf name = conf.countOf name := by
  unfold transformSwitch
  split
  · rw [countOf_removeFirst_of_ne hold, countOf_withChild (keepsName_setArg0 _) hsw]
  · rfl

theorem name_transformSwitch {old value sw : Bytes} : (transformSwitch old value sw conf).name =
    conf.name := by
  unfold transformSwitch
  split <;> rfl

theorem lighter_rtc (h : conf.name = str "rtc") : Lighter conf (transformRtc conf) := by
  have hkind : childKind (str "rtc") = .rtc := by decide
  have hcount : ∀ d : SrsConfDirective, d.name = str "rtc" →
      d.legacyChild = d.countOf (str "aac") + d.countOf (str "bframe") := by
    intro d hd
    unfold legacyChild
    rw [hd, hkind]
  have haac := transformSwitch_cases conf (str "transcode") (show str "aac" ≠ str "rtmp_to_rtc" by decide)
  have hmid : (transformSwitch (str "aac") (str "transcode") (str "rtmp_to_rtc") conf).countOf
    (str "bframe") =
      conf.countOf (str "bframe") := countOf_transformSwitch_of_ne (by decide) (by decide)
  have hname : (transformRtc conf).name = str "rtc" := by
    unfold transformRtc
    rw [name_transformSwitch, name_transformSwitch, h]
  have hsum := hcount conf h
  have hsum' := hcount _ hname
  unfold transformRtc at hsum' ⊢
  generalize transformSwitch (str "aac") (str "transcode") (str "rtmp_to_rtc") conf = mid at *
  have hbframe := transformSwitch_cases mid (str "keep") (show str "bframe" ≠ str "keep_bframe" by decide)
  have hout : (transformSwitch (str "bframe") (str "keep") (str "keep_bframe") mid).countOf (str "aac") =
      mid.countOf (str "aac") := countOf_transformSwitch_of_ne (by decide) (by decide)
  rcases haac with ⟨haac, rfl⟩ | haac
  · rcases hbframe with ⟨hbframe, hsame⟩ | hbframe
    · rw [hsame]
      exact .refl (by omega)
    · exact .of_lt (by omega)
  · rcases hbframe with ⟨-, hsame⟩ | hbframe
    · rw [hsame] at hsum' ⊢
      exact .of_lt (by omega)
    · exact .of_lt (by omega)

/-- A child that no branch is for has no old form. -/
theorem legacyChild_other (hhttp : conf.name ≠ str "http") (hremux : conf.name ≠ str "http_remux")
    (hrefer : ¬ ((conf.name = str "refer" ∧ conf.directives = []) ∨ conf.name = str "refer_play" ∨
      conf.name = str "refer_publish"))
    (hpublish : conf.name ∉ [str "mr", str "publish_1stpkt_timeout", str "publish_normal_timeout"])
    (hplay : conf.name ∉ playShadows)
    (hforward : ¬ (conf.name = str "forward" ∧ conf.directives = [] ∧ conf.args ≠ []))
    (hcluster : conf.name ∉ clusterShadows) (hrtc : conf.name ∉ [str "nack", str "twcc", str "rtc"]) :
    conf.legacyChild = 0 := by
  rw [not_or, not_or] at hrefer
  by_cases hr : conf.name = str "refer"
  · unfold legacyChild
    rw [hr, show childKind (str "refer") = .refer by decide]
    exact if_neg fun hnil => hrefer.1 ⟨hr, List.map_eq_nil_iff.1 hnil⟩
  by_cases hf : conf.name = str "forward"
  · unfold legacyChild
    rw [hf, show childKind (str "forward") = .forward by decide]
    exact if_neg fun hnil => hforward ⟨hf, List.map_eq_nil_iff.1 hnil.1, hnil.2⟩
  refine legacyChild_modern ?_
  simp only [List.mem_cons, List.not_mem_nil, or_false, not_or] at hpublish hrtc
  unfold childKind
  rw [if_neg hhttp, if_neg hremux, if_neg hr, if_neg hf, if_neg hrtc.2.2, if_neg]
  simp [hrefer.2.1, hrefer.2.2, hpublish, hrtc, hplay, hcluster]

/-- The old forms of `refer`. -/
def SrsConfDirective.OldRefer (conf : SrsConfDirective) : Prop :=
  (conf.name = str "refer" ∧ conf.directives = []) ∨ conf.name = str "refer_play" ∨
    conf.name = str "refer_publish"

instance (conf : SrsConfDirective) : Decidable conf.OldRefer := by
  unfold OldRefer
  infer_instance

theorem SrsConfDirective.OldRefer.erased (h : conf.OldRefer) : conf.IsErased := by
  rcases h with ⟨h, hnil⟩ | h | h
  · exact Or.inr ⟨by rw [h]; decide, hnil⟩
  · exact Or.inl (by rw [h]; decide)
  · exact Or.inl (by rw [h]; decide)

/-- What becomes of a child that stays in its place. -/
inductive Rewritten (conf : SrsConfDirective) : SrsConfDirective → Prop
  | http (h : conf.name = str "http") : Rewritten conf { conf with name := str "http_static" }
  | remux (h : conf.name = str "http_remux") : Rewritten conf (removeFirst (str "hstrs") conf)
  | forward (h : conf.name = str "forward") (hds : conf.directives = []) (hargs : conf.args ≠ []) :
      Rewritten conf (transformForward conf)
  | rtc (h : conf.name = str "rtc") : Rewritten conf (transformRtc conf)
  | other (h : conf.legacyChild = 0) : Rewritten conf conf

/-- What becomes of the child that another one is moved into. -/
inductive Filled : Bytes → (SrsConfDirective → SrsConfDirective) → Prop
  | refer {f : SrsConfDirective → SrsConfDirective} (hf : KeepsName f) (hne : ∀ d, (f d).directives ≠ []) :
      Filled (str "refer") f
  | modern {n : Bytes} {f : SrsConfDirective → SrsConfDirective} (hn : childKind n = .modern)
      (hf : KeepsName f) : Filled n f
  | rtc {f : SrsConfDirective → SrsConfDirective} (hf : KeepsName f)
      (haac : ∀ d, (f d).countOf (str "aac") = d.countOf (str "aac"))
      (hbframe : ∀ d, (f d).countOf (str "bframe") = d.countOf (str "bframe")) : Filled (str "rtc") f

theorem Rewritten.lighter {conf' : SrsConfDirective} (h : Rewritten conf conf') : Lighter conf conf' := by
  cases h with
  | http h => exact lighter_http h
  | remux h => exact lighter_remux h
  | forward h hds hargs => exact lighter_forward h hds hargs
  | rtc h => exact lighter_rtc h
  | other h => exact .refl h

theorem Filled.container (h : Filled n f) : Container n f := by
  cases h with
  | refer hf hne => exact container_refer hf hne
  | modern hn hf => exact container_modern hn hf
  | rtc hf haac hbframe => exact container_rtc hf haac hbframe

/-- What a round of the loop does. -/
theorem vhostStep_cases (done : List SrsConfDirective) (conf : SrsConfDirective)
    (rest : List SrsConfDirective) :
    (∃ conf', vhostStep done conf rest = .done (advanceIt done conf' rest) ∧ Rewritten conf conf') ∨
    (∃ n f, vhostStep done conf rest = .done (moveInto n f done rest) ∧ Filled n f ∧ conf.IsErased) ∨
    vhostStep done conf rest = .fault .noReturn ∧ conf.OldRefer := by
  have hplays : ∀ n ∈ playShadows, childKind n = .moved := by decide
  have hclusters : ∀ n ∈ clusterShadows, childKind n = .moved := by decide
  unfold vhostStep
  simp only
  by_cases hhttp : conf.name = str "http"
  · rw [if_pos hhttp]
    exact Or.inl ⟨_, rfl, .http hhttp⟩
  rw [if_neg hhttp]
  by_cases hremux : conf.name = str "http_remux"
  · rw [if_pos hremux, hremux]
    refine Or.inl ⟨_, ?_, .remux hremux⟩
    rw [if_neg (by rintro (⟨h, -⟩ | h | h) <;> revert h <;> decide), if_neg (by decide), if_neg (by decide),
      if_neg (by decide), if_neg (by decide), if_neg (by rintro ⟨h, -⟩; revert h; decide),
      if_neg (by decide), if_neg (by decide), if_neg (by decide), if_neg (by decide)]
  rw [if_neg hremux]
  by_cases hrefer : (conf.name = str "refer" ∧ conf.directives = []) ∨ conf.name = str "refer_play" ∨
      conf.name = str "refer_publish"
  · rw [if_pos hrefer]
    have herased : conf.IsErased := OldRefer.erased hrefer
    split
    · exact Or.inr (Or.inr ⟨rfl, hrefer⟩)
    · exact Or.inr (Or.inl ⟨_, _, rfl, .refer (fun _ => rfl) fun _ => withDirective_ne_nil, herased⟩)
  rw [if_neg hrefer]
  have hpublish : childKind (str "publish") = .modern := by decide
  by_cases hmr : conf.name = str "mr"
  · rw [if_pos hmr]
    refine Or.inr (Or.inl ⟨_, _, rfl, .modern hpublish ?_, erased_moved (by rw [hmr]; decide)⟩)
    exact fun d => (keepsName_copyArgs _ _ _).trans (keepsName_copyArgs _ _ d)
  rw [if_neg hmr]
  by_cases hfirst : conf.name = str "publish_1stpkt_timeout"
  · rw [if_pos hfirst]
    exact Or.inr (Or.inl ⟨_, _, rfl, .modern hpublish fun _ => rfl, erased_moved (by rw [hfirst]; decide)⟩)
  rw [if_neg hfirst]
  by_cases hnormal : conf.name = str "publish_normal_timeout"
  · rw [if_pos hnormal]
    exact Or.inr (Or.inl ⟨_, _, rfl, .modern hpublish fun _ => rfl, erased_moved (by rw [hnormal]; decide)⟩)
  rw [if_neg hnormal]
  by_cases hplay : conf.name ∈ playShadows
  · rw [if_pos hplay]
    exact Or.inr (Or.inl ⟨_, _, rfl, .modern (by decide) fun _ => rfl, erased_moved (hplays _ hplay)⟩)
  rw [if_neg hplay]
  by_cases hforward : conf.name = str "forward" ∧ conf.directives = [] ∧ conf.args ≠ []
  · rw [if_pos hforward]
    exact Or.inl ⟨_, rfl, .forward hforward.1 hforward.2.1 hforward.2.2⟩
  rw [if_neg hforward]
  by_cases hcluster : conf.name ∈ clusterShadows
  · rw [if_pos hcluster]
    exact Or.inr (Or.inl ⟨_, _, rfl, .modern (by decide) fun _ => rfl, erased_moved (hclusters _ hcluster)⟩)
  rw [if_neg hcluster]
  by_cases hnack : conf.name = str "nack"
  · rw [if_pos hnack]
    refine Or.inr (Or.inl ⟨_, _, rfl, .rtc ?_ (fun d => ?_) (fun d => ?_),
      erased_moved (by rw [hnack]; decide)⟩)
    · exact fun d => (keepsName_copyArgs _ _ _).trans (keepsName_copyArgs _ _ d)
    · rw [countOf_copyArgs (by decide), countOf_copyArgs (by decide)]
    · rw [countOf_copyArgs (by decide), countOf_copyArgs (by decide)]
  rw [if_neg hnack]
  by_cases htwcc : conf.name = str "twcc"
  · rw [if_pos htwcc]
    exact Or.inr (Or.inl ⟨_, _, rfl, .rtc (keepsName_copyArgs _ _)
      (fun d => countOf_copyArgs (by decide)) (fun d => countOf_copyArgs (by decide)),
      erased_moved (by rw [htwcc]; decide)⟩)
  rw [if_neg htwcc]
  by_cases hrtc : conf.name = str "rtc"
  · rw [if_pos hrtc]
    exact Or.inl ⟨_, rfl, .rtc hrtc⟩
  rw [if_neg hrtc]
  refine Or.inl ⟨_, rfl, .other ?_⟩
  exact legacyChild_other hhttp hremux hrefer (by simp [hmr, hfirst, hnormal]) hplay hforward hcluster
    (by simp [hnack, htwcc, hrtc])

/-! ## The loop over a vhost -/

theorem legacyChildren_append (ds ds' : List SrsConfDirective) :
    legacyChildren (ds ++ ds') = legacyChildren ds + legacyChildren ds' := by
  unfold legacyChildren
  rw [List.map_append, List.sum_append]

theorem legacyChildren_cons (d : SrsConfDirective) (ds : List SrsConfDirective) :
    legacyChildren (d :: ds) = d.legacyChild + legacyChildren ds := by
  unfold legacyChildren
  rw [List.map_cons, List.sum_cons]

/-- A change of one child brings no old form in. -/
theorem legacyChildren_withDirective (h : Container n f) (ds : List SrsConfDirective) :
    legacyChildren (withDirective n f ds) ≤ legacyChildren ds := by
  induction ds with
  | nil =>
    unfold withDirective
    rw [legacyChildren_cons, h.fresh]
    exact Nat.zero_le _
  | cons d ds ih =>
    unfold withDirective
    by_cases hd : d.name = n
    · rw [if_pos hd, legacyChildren_cons, legacyChildren_cons]
      have := h.legacy d hd
      omega
    · rw [if_neg hd, legacyChildren_cons, legacyChildren_cons]
      omega

theorem moveInto_append (n : Bytes) (f : SrsConfDirective → SrsConfDirective)
    (done rest : List SrsConfDirective) :
    (moveInto n f done rest).1 ++ (moveInto n f done rest).2 = withDirective n f (done ++ rest) :=
  List.take_append_drop _ _

/-- The loop leaves at most the old forms there were, and fewer if it gets to one. -/
theorem vhostLoop_legacy {k : Nat} (h : vhostLoop k done rest = .done ds) :
    legacyChildren ds ≤ legacyChildren (done ++ rest) ∧
      (legacyChildren rest ≠ 0 → legacyChildren ds < legacyChildren (done ++ rest)) := by
  induction k generalizing done rest with
  | zero =>
    cases rest with
    | nil =>
      obtain rfl : done = ds := by simpa [vhostLoop] using h
      rw [List.append_nil]
      exact ⟨Nat.le_refl _, fun hne => absurd rfl hne⟩
    | cons conf rest => cases h
  | succ k ih =>
    cases rest with
    | nil =>
      obtain rfl : done = ds := by simpa [vhostLoop] using h
      rw [List.append_nil]
      exact ⟨Nat.le_refl _, fun hne => absurd rfl hne⟩
    | cons conf rest =>
      unfold vhostLoop at h
      rw [legacyChildren_append, legacyChildren_cons]
      rcases vhostStep_cases done conf rest with ⟨conf', hstep, hconf⟩ | ⟨n, f, hstep, hf, herased⟩ |
        ⟨hstep, -⟩
      · have hlight := hconf.lighter
        rw [hstep, Outcome.bind_done] at h
        obtain ⟨hle, hlt⟩ := ih h
        unfold advanceIt at hle hlt
        simp only [legacyChildren_append, legacyChildren_cons] at hle hlt
        have hnil : legacyChildren [] = 0 := rfl
        unfold Lighter at hlight
        by_cases hzero : conf.legacyChild = 0
        · rw [if_pos hzero] at hlight
          subst hlight
          exact ⟨by omega, fun hne => by have := hlt (by omega); omega⟩
        · rw [if_neg hzero] at hlight
          exact ⟨by omega, fun _ => by omega⟩
      · rw [hstep, Outcome.bind_done] at h
        obtain ⟨hle, -⟩ := ih h
        rw [moveInto_append] at hle
        have hmove := legacyChildren_withDirective hf.container (done ++ rest)
        rw [legacyChildren_append] at hmove
        have hone := legacyChild_erased herased
        exact ⟨by omega, fun _ => by omega⟩
      · rw [hstep] at h
        cases h

/-- Without old forms the loop changes nothing. -/
theorem vhostLoop_modern {k : Nat} (h : legacyChildren rest = 0) (hk : rest.length ≤ k) :
    vhostLoop k done rest = .done (done ++ rest) := by
  induction rest generalizing done k with
  | nil =>
    rw [List.append_nil]
    cases k <;> rfl
  | cons conf rest ih =>
    obtain ⟨k, rfl⟩ : ∃ j, k = j + 1 := ⟨k - 1, by rw [List.length_cons] at hk; omega⟩
    rw [legacyChildren_cons] at h
    unfold vhostLoop
    have hstep : vhostStep done conf rest = .done (advanceIt done conf rest) := by
      rcases vhostStep_cases done conf rest with ⟨conf', hstep, hconf⟩ | ⟨n, f, -, -, herased⟩ |
        ⟨-, hrefer⟩
      · have hlight := hconf.lighter
        unfold Lighter at hlight
        rw [if_pos (by omega)] at hlight
        rw [hstep, hlight]
      · have := legacyChild_erased herased
        omega
      · have := legacyChild_erased hrefer.erased
        omega
    rw [hstep, Outcome.bind_done]
    have hloop : vhostLoop k (done ++ [conf]) rest = .done (done ++ [conf] ++ rest) :=
      ih (by omega) (by rw [List.length_cons] at hk; omega)
    rwa [List.append_assoc] at hloop

/-- The rounds that a child may take: an erased one may be followed by a new one. -/
def cost (ds : List SrsConfDirective) : Nat := (ds.map fun d => if d.IsErased then 2 else 1).sum

theorem cost_cons (d : SrsConfDirective) (ds : List SrsConfDirective) :
    cost (d :: ds) = (if d.IsErased then 2 else 1) + cost ds := by
  unfold cost
  rw [List.map_cons, List.sum_cons]

theorem cost_le (ds : List SrsConfDirective) : cost ds ≤ 2 * ds.length := by
  induction ds with
  | nil => exact Nat.le_refl _
  | cons d ds ih =>
    rw [cost_cons, List.length_cons]
    split <;> omega

theorem Container.fresh_cost (h : Container n f) : ¬ (f (new n)).IsErased := by
  intro herased
  have := legacyChild_erased herased
  rw [h.fresh] at this
  cases this

/-- Behind the iterator a change costs one round at most. -/
theorem cost_drop (h : Container n f) (done rest : List SrsConfDirective) :
    cost ((withDirective n f (done ++ rest)).drop done.length) ≤ cost rest + 1 := by
  induction done with
  | nil =>
    rw [List.nil_append, List.length_nil, List.drop_zero]
    induction rest with
    | nil =>
      unfold withDirective
      rw [cost_cons, if_neg h.fresh_cost]
      exact Nat.le_of_eq (Nat.add_comm _ _)
    | cons d rest ih =>
      unfold withDirective
      by_cases hd : d.name = n
      · rw [if_pos hd, cost_cons, cost_cons]
        by_cases herased : (f d).IsErased
        · rw [if_pos herased, if_pos (h.erased d hd herased)]
          omega
        · rw [if_neg herased]
          split <;> omega
      · rw [if_neg hd, cost_cons, cost_cons]
        omega
  | cons d done ih =>
    rw [List.cons_append, List.length_cons]
    unfold withDirective
    by_cases hd : d.name = n
    · rw [if_pos hd, List.drop_succ_cons, List.drop_left]
      exact Nat.le_succ _
    · rw [if_neg hd, List.drop_succ_cons]
      exact ih

/-- The loop comes to its end. -/
theorem vhostLoop_ends {k : Nat} (hk : cost rest ≤ k) : vhostLoop k done rest ≠ .fault .endless := by
  induction k generalizing done rest with
  | zero =>
    cases rest with
    | nil => simp [vhostLoop]
    | cons conf rest =>
      rw [cost_cons] at hk
      split at hk <;> omega
  | succ k ih =>
    cases rest with
    | nil => simp [vhostLoop]
    | cons conf rest =>
      unfold vhostLoop
      rw [cost_cons] at hk
      rcases vhostStep_cases done conf rest with ⟨conf', hstep, -⟩ | ⟨n, f, hstep, hf, herased⟩ | ⟨hstep, -⟩
      · rw [hstep, Outcome.bind_done]
        refine ih ?_
        change cost rest ≤ k
        split at hk <;> omega
      · rw [hstep, Outcome.bind_done]
        refine ih ?_
        have hdrop := cost_drop hf.container done rest
        rw [if_pos herased] at hk
        change cost ((withDirective n f (done ++ rest)).drop done.length) ≤ k
        omega
      · rw [hstep]
        simp

/-! ## The root -/

variable {d' : SrsConfDirective} {ds' : List SrsConfDirective}

theorem filter_removed_eq_self (h : d.countOf (str "perf_stat") + d.countOf (str "queue_length") = 0) :
    (d.directives.filter fun c => c.name ∉ removedOfRtcServer) = d.directives := by
  rw [Nat.add_eq_zero_iff] at h
  unfold countOf at h
  rw [List.count_eq_zero, List.count_eq_zero] at h
  refine List.filter_eq_self.2 fun c hc => decide_eq_true fun hmem => ?_
  unfold removedOfRtcServer at hmem
  simp only [List.mem_cons, List.not_mem_nil, or_false] at hmem
  rcases hmem with hname | hname
  · exact h.1 (hname ▸ List.mem_map_of_mem hc)
  · exact h.2 (hname ▸ List.mem_map_of_mem hc)

theorem transformDirective_modern (h : d.legacy = 0) : transformDirective d = .done d := by
  unfold legacy at h
  unfold transformDirective
  by_cases hstream : d.name = str "http_stream"
  · rw [if_pos hstream] at h
    cases h
  rw [if_neg hstream] at h ⊢
  by_cases hrtc : d.name = str "rtc_server"
  · rw [if_pos hrtc] at h
    simp only [if_pos hrtc, filter_removed_eq_self h]
    rw [if_pos (by rw [hrtc]; decide)]
    cases d
    rfl
  rw [if_neg hrtc] at h
  simp only [if_neg hrtc]
  by_cases hvhost : d.name = str "vhost"
  · rw [if_pos hvhost] at h
    rw [if_neg (not_not.2 hvhost), vhostLoop_modern h (by omega)]
    cases d
    rfl
  · rw [if_pos hvhost]

/-- A directive that is no vhost has no old form any more. -/
theorem legacy_transformDirective (h : transformDirective d = .done d') (hvhost : d.name ≠ str "vhost") :
    d'.legacy = 0 := by
  have hserver : ∀ c : SrsConfDirective, c.name = str "http_server" → c.legacy = 0 := by
    intro c hc
    unfold legacy
    rw [hc, if_neg (by decide), if_neg (by decide), if_neg (by decide)]
  unfold transformDirective at h
  by_cases hstream : d.name = str "http_stream"
  · rw [if_pos hstream] at h
    cases h
    exact hserver _ rfl
  rw [if_neg hstream] at h
  by_cases hrtc : d.name = str "rtc_server"
  · simp only [if_pos hrtc] at h
    rw [if_pos hvhost] at h
    cases h
    unfold legacy
    simp only
    rw [if_neg hstream, if_pos hrtc, Nat.add_eq_zero_iff]
    unfold countOf
    constructor
    · rw [List.count_eq_zero]
      simp only [removedOfRtcServer, List.mem_map, List.mem_filter, not_exists, not_and]
      rintro c ⟨-, hc⟩ hname
      simp [hname] at hc
    · rw [List.count_eq_zero]
      simp only [removedOfRtcServer, List.mem_map, List.mem_filter, not_exists, not_and]
      rintro c ⟨-, hc⟩ hname
      simp [hname] at hc
  simp only [if_neg hrtc] at h
  rw [if_pos hvhost] at h
  cases h
  unfold legacy
  rw [if_neg hstream, if_neg hrtc, if_neg hvhost]

theorem transformDirective_lt (h : transformDirective d = .done d') (hne : d.legacy ≠ 0) :
    d'.legacy < d.legacy := by
  by_cases hvhost : d.name = str "vhost"
  · have hstream : d.name ≠ str "http_stream" := by rw [hvhost]; decide
    have hrtc : d.name ≠ str "rtc_server" := by rw [hvhost]; decide
    unfold transformDirective at h
    rw [if_neg hstream] at h
    simp only [if_neg hrtc] at h
    rw [if_neg (not_not.2 hvhost), Outcome.bind_eq_done] at h
    obtain ⟨ds, hds, h⟩ := h
    cases h
    unfold legacy at hne
    rw [if_neg hstream, if_neg hrtc, if_pos hvhost] at hne
    have hlt := (vhostLoop_legacy hds).2 hne
    unfold legacy
    simp only
    rw [if_neg hstream, if_neg hrtc, if_pos hvhost, if_neg hstream, if_neg hrtc, if_pos hvhost]
    exact hlt
  · rw [legacy_transformDirective h hvhost]
    exact Nat.pos_of_ne_zero hne

theorem transformDirective_ends : transformDirective d ≠ .fault .endless := by
  unfold transformDirective
  by_cases hstream : d.name = str "http_stream"
  · rw [if_pos hstream]
    simp
  rw [if_neg hstream]
  simp only
  by_cases hvhost : d.name = str "vhost"
  · have hrtc : d.name ≠ str "rtc_server" := by rw [hvhost]; decide
    rw [if_neg hrtc, if_neg (not_not.2 hvhost)]
    have hloop : vhostLoop (2 * d.directives.length) [] d.directives ≠ .fault .endless :=
      vhostLoop_ends (cost_le d.directives)
    cases hcase : vhostLoop (2 * d.directives.length) [] d.directives with
    | done ds => simp
    | failed err => simp
    | fault x =>
      rw [hcase] at hloop
      simpa using hloop
  · split <;> simp

theorem legacyForms_cons (d : SrsConfDirective) (ds : List SrsConfDirective) :
    legacyForms (d :: ds) = d.legacy + legacyForms ds := by
  unfold legacyForms
  rw [List.map_cons, List.sum_cons]

/-- A configuration without old forms stays as it is. -/
theorem transform_eq_self (h : legacyForms ds = 0) : srsConfigTransformVhost ds = .done ds := by
  induction ds with
  | nil => rfl
  | cons d ds ih =>
    rw [legacyForms_cons] at h
    unfold srsConfigTransformVhost
    rw [transformDirective_modern (by omega), Outcome.bind_done, ih (by omega)]
    rfl

/-- Every other one has fewer old forms afterwards. -/
theorem transform_lt (h : srsConfigTransformVhost ds = .done ds') (hne : legacyForms ds ≠ 0) :
    legacyForms ds' < legacyForms ds := by
  have hle : ∀ {d d'}, transformDirective d = .done d' → d'.legacy ≤ d.legacy := by
    intro d d' hd
    by_cases hzero : d.legacy = 0
    · rw [transformDirective_modern hzero] at hd
      cases hd
      exact Nat.le_refl _
    · exact Nat.le_of_lt (transformDirective_lt hd hzero)
  induction ds generalizing ds' with
  | nil => exact absurd rfl hne
  | cons d ds ih =>
    unfold srsConfigTransformVhost at h
    rw [Outcome.bind_eq_done] at h
    obtain ⟨d', hd, h⟩ := h
    rw [Outcome.bind_eq_done] at h
    obtain ⟨rest, hrest, h⟩ := h
    cases h
    rw [legacyForms_cons] at hne
    rw [legacyForms_cons, legacyForms_cons]
    have hfirst := hle hd
    by_cases hzero : legacyForms ds = 0
    · rw [transform_eq_self hzero] at hrest
      cases hrest
      have := transformDirective_lt hd (by omega)
      omega
    · have := ih hrest hzero
      omega

/-- The transformation ends. -/
theorem transform_ends : srsConfigTransformVhost ds ≠ .fault .endless := by
  induction ds with
  | nil => simp [srsConfigTransformVhost]
  | cons d ds ih =>
    unfold srsConfigTransformVhost
    cases hd : transformDirective d with
    | done d' =>
      rw [Outcome.bind_done]
      cases hds : srsConfigTransformVhost ds with
      | done ds' => simp
      | failed err => simp
      | fault x =>
        rw [hds] at ih
        simpa using ih
    | failed err => simp
    | fault x =>
      have := transformDirective_ends (d := d)
      rw [hd] at this
      simpa using this

/-! ## Old forms and trees -/

theorem names_of_trees (h : trees ds = trees ds') : ds.map (·.name) = ds'.map (·.name) := by
  have hname : ∀ d : SrsConfDirective, d.tree.name = d.name := by
    intro d
    cases d
    rfl
  have hnames : ∀ ds : List SrsConfDirective, (trees ds).map (·.name) = ds.map (·.name) := by
    intro ds
    rw [trees_eq_map, List.map_map]
    exact List.map_congr_left fun d _ => hname d
  rw [← hnames, h, hnames]

/-- The parts of equal trees are equal. -/
theorem tree_parts (h : d.tree = d'.tree) :
    d.name = d'.name ∧ d.args = d'.args ∧ trees d.directives = trees d'.directives := by
  cases d
  cases d'
  unfold tree at h
  exact ⟨congrArg ConfTree.name h, congrArg ConfTree.args h, congrArg ConfTree.directives h⟩

theorem legacyChild_congr (h : d.tree = d'.tree) : d.legacyChild = d'.legacyChild := by
  obtain ⟨hname, hargs, hds⟩ := tree_parts h
  unfold legacyChild countOf
  rw [hname, hargs, names_of_trees hds]

/-- A sum over directives that depends on their trees only. -/
theorem sum_congr_of_trees {v : SrsConfDirective → Nat} (hv : ∀ d d', d.tree = d'.tree → v d = v d')
    (h : trees ds = trees ds') : (ds.map v).sum = (ds'.map v).sum := by
  induction ds generalizing ds' with
  | nil =>
    cases ds' with
    | nil => rfl
    | cons d' ds' => cases h
  | cons d ds ih =>
    cases ds' with
    | nil => cases h
    | cons d' ds' =>
      obtain ⟨hd, hds⟩ := List.cons.inj h
      rw [List.map_cons, List.map_cons, List.sum_cons, List.sum_cons, hv d d' hd, ih hds]

theorem legacy_congr (h : d.tree = d'.tree) : d.legacy = d'.legacy := by
  obtain ⟨hname, hargs, hds⟩ := tree_parts h
  have hsum := sum_congr_of_trees (fun _ _ => legacyChild_congr) hds
  unfold legacy countOf legacyChildren
  rw [hname, hsum, names_of_trees hds]

/-- Equal trees have the same old forms. -/
theorem legacyForms_congr (h : trees ds = trees ds') : legacyForms ds = legacyForms ds' :=
  sum_congr_of_trees (fun _ _ => legacy_congr) h

end HttpProxy
