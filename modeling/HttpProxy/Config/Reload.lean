import HttpProxy.Config.Legacy

/-!
# Startup and reload

`src/app/srs_app_config.cpp`, lines 871-935 and 1045-1199.

* `parseOptions` — startup, from the parsing of the matched file on.
* `reload` — the file is parsed into another configuration, whose root takes the place of the old one,
  and then the handlers are called.
* `reload_eq_startup_iff` — a reload leads to the tree of a startup exactly if there are no old forms.
* `reload_error` — what an error of a reload leaves behind.
-/

namespace HttpProxy

open SrsConfDirective

/-- `ISrsReloadHandler::on_reload_listen`, with the root it may read: the code of its error. -/
abbrev ReloadHandler := SrsConfDirective → Option Int

/-- `SrsConfig`. -/
structure SrsConfig where
  configFile : Bytes
  root : SrsConfDirective
  subscribes : List ReloadHandler

namespace SrsConfig

/-- The constructor. -/
def new : SrsConfig := { configFile := [], root := .new (str "root"), subscribes := [] }

/-- `parse_file`: on an error the configuration is given up. -/
def parseFile (files : Files) (n : Nat) (filename : Bytes) (cfg : SrsConfig) : Outcome ConfError SrsConfig :=
  if filename = [] then .failed .emptyConfig
  else
    (buildBuffer files filename).bind fun buffer =>
    (parse (some files) n buffer.text).bind fun ds =>
    .done { cfg with configFile := filename, root := ⟨0, [], [], ds⟩ }

/-! ## Startup -/

/-- `get_log_tank_file`. -/
def getLogTankFile (cfg : SrsConfig) : Bool :=
  match cfg.root.get (str "srs_log_tank") with
  | none => true
  | some conf => if conf.arg0 = [] then true else conf.arg0 ≠ str "console"

/-- `get_log_file`. -/
def getLogFile (cfg : SrsConfig) : Bytes :=
  match cfg.root.get (str "srs_log_file") with
  | none => str "./objs/srs.log"
  | some conf => if conf.arg0 = [] then str "./objs/srs.log" else conf.arg0

/-- `parse_options`, when the file has been chosen. -/
def parseOptions (files : Files) (n : Nat) (cfg : SrsConfig) : Outcome ConfError SrsConfig :=
  (cfg.parseFile files n (cString cfg.configFile)).bind fun cfg =>
  (srsConfigTransformVhost cfg.root.directives).bind fun ds =>
  let cfg := { cfg with root := { cfg.root with directives := ds } }
  if cfg.getLogTankFile ∧ cfg.getLogFile = [] then .failed .noLogFile else .done cfg

/-! ## Reload -/

mutual

/-- `srs_directive_equals`, for two directives that are there. -/
def directiveEquals : SrsConfDirective → SrsConfDirective → Bool
  | ⟨_, name, args, ds⟩, ⟨_, name', args', ds'⟩ =>
      decide (name = name' ∧ args = args' ∧ ds.length = ds'.length) && directivesEqual ds ds'

/-- Its loop over the children. -/
def directivesEqual : List SrsConfDirective → List SrsConfDirective → Bool
  | d :: ds, d' :: ds' => directiveEquals d d' && directivesEqual ds ds'
  | _, _ => true

end

/-- `srs_directive_equals`, with `none` for NULL. -/
def srsDirectiveEquals : Option SrsConfDirective → Option SrsConfDirective → Bool
  | none, none => true
  | some a, some b => directiveEquals a b
  | _, _ => false

/-- `do_reload_listen`. -/
def doReloadListen (root : SrsConfDirective) : List ReloadHandler → Option ConfError
  | [] => none
  | handler :: rest =>
      match handler root with
      | some code => some (.reloadListen code)
      | none => doReloadListen root rest

/-- `reload_conf`: the root is replaced first. -/
def reloadConf (cfg : SrsConfig) (root : SrsConfDirective) : SrsConfig × Option ConfError :=
  let cfg' := { cfg with root := root }
  if srsDirectiveEquals (root.get (str "listen")) (cfg.root.get (str "listen")) then (cfg', none)
  else (cfg', doReloadListen root cfg.subscribes)

/-- `reload`: the configuration afterwards, and the error. -/
def reload (files : Files) (n : Nat) (cfg : SrsConfig) : Outcome ConfError (SrsConfig × Option ConfError) :=
  match new.parseFile files n (cString cfg.configFile) with
  | .done conf => .done (cfg.reloadConf conf.root)
  | .failed e => .done (cfg, some e)
  | .fault f => .fault f

variable {files : Files} {n m : Nat} {cfg cfg' cfg₀ started reloaded : SrsConfig} {text filename : Bytes}
  {e : ConfError} {root : SrsConfDirective}

/-! ## Equal directives -/

mutual

theorem directiveEquals_iff : (a b : SrsConfDirective) → (directiveEquals a b = true ↔ a.tree = b.tree)
  | ⟨_, name, args, ds⟩, ⟨_, name', args', ds'⟩ => by
      unfold directiveEquals tree
      rw [Bool.and_eq_true, decide_eq_true_iff, ConfTree.mk.injEq]
      constructor
      · rintro ⟨⟨hname, hargs, hlen⟩, hds⟩
        exact ⟨hname, hargs, (directivesEqual_iff ds ds' hlen).1 hds⟩
      · rintro ⟨hname, hargs, hds⟩
        have hlen : ds.length = ds'.length := by
          have := congrArg List.length hds
          simpa [trees_eq_map] using this
        exact ⟨⟨hname, hargs, hlen⟩, (directivesEqual_iff ds ds' hlen).2 hds⟩

theorem directivesEqual_iff : (ds ds' : List SrsConfDirective) → ds.length = ds'.length →
    (directivesEqual ds ds' = true ↔ trees ds = trees ds')
  | [], [], _ => ⟨fun _ => rfl, fun _ => rfl⟩
  | d :: ds, d' :: ds', hlen => by
      unfold directivesEqual trees
      rw [Bool.and_eq_true, List.cons.injEq, directiveEquals_iff d d',
        directivesEqual_iff ds ds' (by simpa using hlen)]

end

/-- Directives of equal trees have equal children of a name. -/
theorem get_congr {a b : SrsConfDirective} (h : a.tree = b.tree) (name : Bytes) :
    srsDirectiveEquals (a.get name) (b.get name) = true := by
  obtain ⟨-, -, hds⟩ := tree_parts h
  unfold SrsConfDirective.get
  generalize a.directives = ds at hds
  generalize b.directives = ds' at hds
  induction ds generalizing ds' with
  | nil =>
    cases ds' with
    | nil => rfl
    | cons d' ds' => cases hds
  | cons d ds ih =>
    cases ds' with
    | nil => cases hds
    | cons d' ds' =>
      obtain ⟨hd, hds⟩ := List.cons.inj hds
      have hname : d.name = d'.name := (tree_parts hd).1
      by_cases hn : d.name = name
      · rw [List.find?_cons_of_pos (by simpa using hn), List.find?_cons_of_pos (by simpa [hname] using hn)]
        exact (directiveEquals_iff d d').2 hd
      · rw [List.find?_cons_of_neg (by simpa using hn), List.find?_cons_of_neg (by simpa [hname] using hn)]
        exact ih ds' hds

/-! ## What startup and reload come to -/

theorem parseFile_of_parse {ds : List SrsConfDirective} (hne : filename ≠ [])
    (hfile : files filename = some text) (htext : text ≠ [])
    (hparse : parse (some files) n text = .done ds) : cfg.parseFile files n filename =
      .done { cfg with configFile := filename, root := ⟨0, [], [], ds⟩ } := by
  unfold parseFile
  rw [if_neg hne, buildBuffer_of_file hfile htext, Outcome.bind_done]
  simp only [SrsConfigBuffer.fullfill]
  rw [hparse]
  rfl

theorem getLogFile_ne_nil : cfg.getLogFile ≠ [] := by
  have hdefault : str "./objs/srs.log" ≠ [] := by decide
  unfold getLogFile
  split
  · exact hdefault
  · split
    · exact hdefault
    · assumption

/-- What startup comes to. -/
theorem parseOptions_of_parse {ds ds' : List SrsConfDirective} (hne : cString cfg.configFile ≠ [])
    (hfile : files (cString cfg.configFile) = some text) (htext : text ≠ [])
    (hparse : parse (some files) n text = .done ds)
    (ht : srsConfigTransformVhost ds = .done ds') : cfg.parseOptions files n =
      .done { cfg with configFile := cString cfg.configFile, root := ⟨0, [], [], ds'⟩ } := by
  unfold parseOptions
  rw [parseFile_of_parse hne hfile htext hparse, Outcome.bind_done]
  simp only
  rw [ht, Outcome.bind_done]
  rw [if_neg fun hlog => getLogFile_ne_nil hlog.2]

/-- What a reload comes to. -/
theorem reload_of_parse {ds : List SrsConfDirective} (hne : cString cfg.configFile ≠ [])
    (hfile : files (cString cfg.configFile) = some text) (htext : text ≠ [])
    (hparse : parse (some files) n text = .done ds) :
    cfg.reload files n = .done (cfg.reloadConf ⟨0, [], [], ds⟩) := by
  unfold reload
  rw [parseFile_of_parse hne hfile htext hparse]

theorem reloadConf_no_handlers (h : cfg.subscribes = []) :
    cfg.reloadConf root = ({ cfg with root := root }, none) := by
  unfold reloadConf
  rw [h]
  simp only
  split <;> rfl

/-- The text has a parse without old forms. -/
def Modern (files : Files) (text : Bytes) : Prop :=
  ∃ n ds, parse (some files) n text = .done ds ∧ legacyForms ds = 0

theorem parseFile_done (h : cfg.parseFile files n filename = .done cfg')
    (hfile : files filename = some text) :
    ∃ ds, parse (some files) n text = .done ds ∧ cfg'.root = ⟨0, [], [], ds⟩ := by
  unfold parseFile at h
  by_cases hnil : filename = []
  · rw [if_pos hnil] at h
    cases h
  rw [if_neg hnil] at h
  obtain ⟨buffer, hbuffer, h⟩ := Outcome.bind_eq_done.1 h
  obtain ⟨ds, hds, h⟩ := Outcome.bind_eq_done.1 h
  cases h
  obtain ⟨text', htext', -, rfl⟩ := buildBuffer_done hbuffer
  cases hfile.symm.trans htext'
  exact ⟨ds, hds, rfl⟩

/-- Startup transforms what it has parsed. -/
theorem parseOptions_done (h : cfg₀.parseOptions files n = .done started) :
    ∃ conf ds, cfg₀.parseFile files n (cString cfg₀.configFile) = .done conf ∧
      srsConfigTransformVhost conf.root.directives = .done ds ∧
      started.root = { conf.root with directives := ds } := by
  unfold parseOptions at h
  obtain ⟨conf, hconf, h⟩ := Outcome.bind_eq_done.1 h
  obtain ⟨ds, hds, h⟩ := Outcome.bind_eq_done.1 h
  simp only at h
  rw [if_neg (fun hlog => getLogFile_ne_nil hlog.2)] at h
  cases h
  exact ⟨conf, ds, hconf, hds, rfl⟩

/-- The root is replaced, whatever the handlers say. -/
theorem reloadConf_root (cfg : SrsConfig) (root : SrsConfDirective) :
    (cfg.reloadConf root).1.root = root := by
  unfold reloadConf
  simp only
  split <;> rfl

/-- A reload takes what it has parsed. -/
theorem reload_done (h : cfg.reload files n = .done (reloaded, none)) :
    ∃ conf, new.parseFile files n (cString cfg.configFile) = .done conf ∧ reloaded.root = conf.root := by
  unfold reload at h
  split at h
  next conf hconf =>
    have h := Outcome.done.inj h
    refine ⟨conf, hconf, ?_⟩
    rw [← reloadConf_root cfg conf.root, h]
  next => cases h
  next => cases h

/-- A reload of a text that is accepted at startup leads to the same tree, exactly if the text has no old
forms. -/
theorem reload_eq_startup_iff (hfile₀ : files (cString cfg₀.configFile) = some text)
    (hfile : files (cString cfg.configFile) = some text) (hstart : cfg₀.parseOptions files n = .done started)
    (hreload : cfg.reload files m = .done (reloaded, none)) :
    reloaded.root.tree = started.root.tree ↔ Modern files text := by
  obtain ⟨conf₀, ds', hconf₀, htransform, hstarted⟩ := parseOptions_done hstart
  obtain ⟨ds, hds, hroot₀⟩ := parseFile_done hconf₀ hfile₀
  obtain ⟨conf, hconf, hreloaded⟩ := reload_done hreload
  obtain ⟨ds₁, hds₁, hroot⟩ := parseFile_done hconf hfile
  obtain rfl := parse_unique hds hds₁
  rw [hroot₀] at htransform hstarted
  rw [hreloaded, hroot, hstarted]
  constructor
  · intro htree
    refine ⟨n, ds, hds, ?_⟩
    by_contra hne
    have hlt : legacyForms ds' < legacyForms ds := transform_lt htransform hne
    have hforms : legacyForms ds = legacyForms ds' := legacyForms_congr (tree_parts htree).2.2
    omega
  · rintro ⟨k, ds₂, hds₂, hforms⟩
    obtain rfl := parse_unique hds hds₂
    have hself := transform_eq_self hforms
    rw [Outcome.done.inj (htransform.symm.trans hself)]

/-- The files of a system with one configuration. -/
def oneFile (text : Bytes) : Files := fun file => if file = str "srs.conf" then some text else none

/-- A configuration that is running, with a handler for each code. -/
def running (codes : List (Option Int)) : SrsConfig :=
  { new with configFile := str "srs.conf", subscribes := codes.map fun code _ => code }

theorem running_file (codes : List (Option Int)) (text : Bytes) :
    cString (running codes).configFile = str "srs.conf" ∧
      oneFile text (cString (running codes).configFile) = some text := by
  have hfile : cString (running codes).configFile = str "srs.conf" := by
    change cString (str "srs.conf") = _
    decide
  exact ⟨hfile, by rw [hfile]; exact if_pos rfl⟩

/-- `listen 80;` -/
theorem reads_listen : Reads [] (str "listen 80;") [str "listen", str "80"] .entire [] :=
  .word (w := str "listen") (t := str "listen") (.known (by decide) rfl) (by decide)
    (.lastWord (w := str "80") (t := str "80") (.known (by decide) rfl))

/-- `http_stream;` -/
theorem reads_http_stream : Reads [] (str "http_stream;") [str "http_stream"] .entire [] :=
  .lastWord (w := str "http_stream") (t := str "http_stream") (.known (by decide) rfl)

/-- A file that has been parsed at startup and again. -/
theorem reload_of_file {ds ds' : List SrsConfDirective} (htext : text ≠ [])
    (hparse : parse (some (oneFile text)) n text = .done ds) (ht : srsConfigTransformVhost ds = .done ds') :
    ∃ started reloaded, (running []).parseOptions (oneFile text) n = .done started ∧
      (running []).reload (oneFile text) n = .done (reloaded, none) ∧
      started.root = ⟨0, [], [], ds'⟩ ∧ reloaded.root = ⟨0, [], [], ds⟩ := by
  obtain ⟨hname, hfile⟩ := running_file [] text
  have hne : cString (running []).configFile ≠ [] := by rw [hname]; decide
  have hreload := reload_of_parse hne hfile htext hparse
  rw [reloadConf_no_handlers rfl] at hreload
  exact ⟨_, _, parseOptions_of_parse hne hfile htext hparse ht, hreload, rfl, rfl⟩

/-- A vhost in the old form. -/
def oldVhost : Bytes := str "vhost a \x7bhttp \x7bmount b;\x7d\x7d"

/-- The same in the new form. -/
def newVhost : Bytes := str "vhost a \x7bhttp_static \x7bmount b;\x7d\x7d"

/-- A vhost with a block of one directive. -/
theorem parse_vhost {name b : Bytes} (hvhost : Reads [] text [str "vhost", str "a"] .blockStart b)
    (hblock : Reads [] b [name] .blockStart (str "mount b;\x7d\x7d")) (hname : name ≠ str "include")
    (hn : text.length < n) : ∃ l l' l'', parse (some (oneFile text)) n text =
      .done [⟨l, str "vhost", [str "a"], [⟨l', name, [], [⟨l'', str "mount", [str "b"], []⟩]⟩]⟩] := by
  have hmount : Reads [] (str "mount b;\x7d\x7d") [str "mount", str "b"] .entire (str "\x7d\x7d") :=
    .word (w := str "mount") (t := str "mount") (.known (by decide) rfl) (by decide)
      (.lastWord (w := str "b") (t := str "b") (.known (by decide) rfl))
  have hinner : Conf .block (str "mount b;\x7d\x7d") [⟨str "mount", [str "b"], []⟩] (str "\x7d") :=
    .entire hmount (by decide) (.ending .blockEnd)
  have hconf : Conf .file text [⟨str "vhost", [str "a"], [⟨name, [], [⟨str "mount", [str "b"], []⟩]⟩]⟩] [] :=
    .block hvhost (by decide) (.block hblock hname hinner (.ending .blockEnd)) (.ending .eof)
  obtain ⟨ds, hds, htrees⟩ := parse_of_conf (some (oneFile text)) hconf hn
  obtain ⟨l, ds', rfl, htrees'⟩ := eq_of_trees_singleton htrees
  obtain ⟨l', ds'', rfl, htrees''⟩ := eq_of_trees_singleton htrees'
  obtain ⟨l'', ds₀, rfl, htrees₀⟩ := eq_of_trees_singleton htrees''
  obtain rfl := eq_nil_of_trees htrees₀
  exact ⟨l, l', l'', hds⟩

theorem parse_oldVhost : ∃ l l' l'', parse (some (oneFile oldVhost)) 40 oldVhost =
    .done [⟨l, str "vhost", [str "a"], [⟨l', str "http", [], [⟨l'', str "mount", [str "b"], []⟩]⟩]⟩] := by
  refine parse_vhost (b := str "http \x7bmount b;\x7d\x7d") ?_ ?_ (by decide) (by decide)
  · exact .word (w := str "vhost") (t := str "vhost") (.known (by decide) rfl) (by decide)
      (.word (w := str "a") (t := str "a") (.known (by decide) rfl) (by decide)
        (.blockStart (by decide)))
  · exact .word (w := str "http") (t := str "http") (.known (by decide) rfl) (by decide)
      (.blockStart (by decide))

theorem parse_newVhost : ∃ l l' l'', parse (some (oneFile newVhost)) 40 newVhost =
    .done [⟨l, str "vhost", [str "a"], [⟨l', str "http_static", [], [⟨l'', str "mount", [str "b"], []⟩]⟩]⟩] := by
  refine parse_vhost (b := str "http_static \x7bmount b;\x7d\x7d") ?_ ?_ (by decide) (by decide)
  · exact .word (w := str "vhost") (t := str "vhost") (.known (by decide) rfl) (by decide)
      (.word (w := str "a") (t := str "a") (.known (by decide) rfl) (by decide)
        (.blockStart (by decide)))
  · exact .word (w := str "http_static") (t := str "http_static") (.known (by decide) rfl) (by decide)
      (.blockStart (by decide))

theorem reload_eq_startup_iff_vhost :
    (∃ started reloaded, (running []).parseOptions (oneFile newVhost) 40 = .done started ∧
      (running []).reload (oneFile newVhost) 40 = .done (reloaded, none) ∧
      reloaded.root.tree = started.root.tree ∧ Modern (oneFile newVhost) newVhost) ∧
    (∃ started reloaded, (running []).parseOptions (oneFile oldVhost) 40 = .done started ∧
      (running []).reload (oneFile oldVhost) 40 = .done (reloaded, none) ∧
      reloaded.root.tree ≠ started.root.tree ∧ ¬ Modern (oneFile oldVhost) oldVhost) := by
  constructor
  · obtain ⟨l, l', l'', hparse⟩ := parse_newVhost
    obtain ⟨started, reloaded, hstart, hreload, hs, hr⟩ :=
      reload_of_file (by decide) hparse (transform_eq_self rfl)
    have hfile := (running_file [] newVhost).2
    have htree : reloaded.root.tree = started.root.tree := by rw [hs, hr]
    exact ⟨started, reloaded, hstart, hreload, htree, (reload_eq_startup_iff hfile hfile hstart hreload).1 htree⟩
  · obtain ⟨l, l', l'', hparse⟩ := parse_oldVhost
    have ht : srsConfigTransformVhost
        [⟨l, str "vhost", [str "a"], [⟨l', str "http", [], [⟨l'', str "mount", [str "b"], []⟩]⟩]⟩] =
      .done [⟨l, str "vhost", [str "a"], [⟨l', str "http_static", [], [⟨l'', str "mount", [str "b"], []⟩]⟩]⟩] := rfl
    obtain ⟨started, reloaded, hstart, hreload, hs, hr⟩ := reload_of_file (by decide) hparse ht
    have hfile := (running_file [] oldVhost).2
    have htree : reloaded.root.tree ≠ started.root.tree := by
      rw [hs, hr]
      intro h
      obtain ⟨-, -, hroot⟩ := ConfTree.mk.inj h
      obtain ⟨-, -, hvhost⟩ := ConfTree.mk.inj (List.cons.inj hroot).1
      exact absurd (ConfTree.mk.inj (List.cons.inj hvhost).1).1 (by decide)
    exact ⟨started, reloaded, hstart, hreload, htree,
      fun h => htree ((reload_eq_startup_iff hfile hfile hstart hreload).2 h)⟩

/-- `http_stream;` becomes `http_server;` at startup, but not when it is reloaded. -/
theorem http_stream_reloaded : ∃ started reloaded,
    (running []).parseOptions (oneFile (str "http_stream;")) 20 = .done started ∧
      (running []).reload (oneFile (str "http_stream;")) 20 = .done (reloaded, none) ∧
      started.root.tree.directives = [⟨str "http_server", [], []⟩] ∧
      reloaded.root.tree.directives = [⟨str "http_stream", [], []⟩] := by
  obtain ⟨l, hparse⟩ := parse_one (some (oneFile (str "http_stream;"))) (n := 20) reads_http_stream
    (by decide) (by decide)
  have ht : srsConfigTransformVhost [⟨l, str "http_stream", [], []⟩] =
      .done [⟨l, str "http_server", [], []⟩] := rfl
  obtain ⟨started, reloaded, hstart, hreload, hs, hr⟩ := reload_of_file (by decide) hparse ht
  exact ⟨started, reloaded, hstart, hreload, by rw [hs]; rfl, by rw [hr]; rfl⟩

/-! ## Errors of a reload -/

/-- The handler that an error comes from. -/
theorem doReloadListen_some {handlers : List ReloadHandler} (h : doReloadListen root handlers = some e) :
    ∃ handler ∈ handlers, ∃ code, handler root = some code ∧ e = .reloadListen code := by
  induction handlers with
  | nil => cases h
  | cons handler rest ih =>
    unfold doReloadListen at h
    split at h
    next code hcode => exact ⟨handler, List.mem_cons_self, code, hcode, (Option.some.inj h).symm⟩
    next =>
      obtain ⟨handler', hmem, hcode⟩ := ih h
      exact ⟨handler', List.mem_cons_of_mem _ hmem, hcode⟩

/-- When a file cannot be read or parsed, a reload changes nothing.  When a handler fails, the new root
stays, and its tree is not the old one. -/
theorem reload_error (h : cfg.reload files n = .done (cfg', some e)) :
    (new.parseFile files n (cString cfg.configFile) = .failed e ∧ cfg' = cfg) ∨
    (∃ conf, new.parseFile files n (cString cfg.configFile) = .done conf ∧ cfg'.root = conf.root ∧
      cfg'.root.tree ≠ cfg.root.tree ∧
      ∃ handler ∈ cfg.subscribes, ∃ code, handler conf.root = some code ∧ e = .reloadListen code) := by
  unfold reload at h
  split at h
  next conf hconf =>
    have h := Outcome.done.inj h
    have hroot : cfg'.root = conf.root := by
      rw [← reloadConf_root cfg conf.root, h]
    unfold reloadConf at h
    simp only at h
    by_cases hlisten : srsDirectiveEquals (conf.root.get (str "listen")) (cfg.root.get (str "listen")) = true
    · rw [if_pos hlisten] at h
      cases (congrArg Prod.snd h : none = some e)
    · rw [if_neg hlisten] at h
      refine Or.inr ⟨conf, hconf, hroot, fun htree => ?_, doReloadListen_some (congrArg Prod.snd h)⟩
      rw [hroot] at htree
      exact hlisten (get_congr htree (str "listen"))
  next e' hconf =>
    have h := Outcome.done.inj h
    refine Or.inl ⟨?_, (congrArg Prod.fst h).symm⟩
    rw [hconf, Option.some.inj (congrArg Prod.snd h)]
  next => cases h

/-- A configuration that has been loaded, with two handlers, the second of which fails. -/
def runningTree : SrsConfig :=
  { running [none, some 1] with root := ⟨0, [], [], [⟨1, str "listen", [str "81"], []⟩]⟩ }

theorem runningTree_file (text : Bytes) : cString runningTree.configFile ≠ [] ∧
    oneFile text (cString runningTree.configFile) = some text := by
  obtain ⟨hname, hfile⟩ := running_file [none, some 1] text
  refine ⟨?_, hfile⟩
  change cString (running [none, some 1]).configFile ≠ []
  rw [hname]
  decide

/-- The semicolon is missing. -/
theorem parseFile_unexpectedEof :
    new.parseFile (oneFile (str "listen 80")) 20 (cString runningTree.configFile) = .failed (.unexpectedEof 1) := by
  obtain ⟨hne, hfile⟩ := runningTree_file (str "listen 80")
  have hparse : parse (some (oneFile (str "listen 80"))) 20 (str "listen 80") = .failed (.unexpectedEof 1) := rfl
  unfold parseFile
  rw [if_neg hne, buildBuffer_of_file hfile (by decide), Outcome.bind_done]
  simp only [SrsConfigBuffer.fullfill]
  rw [hparse]
  rfl

theorem reload_error_runningTree :
    (runningTree.reload (oneFile (str "listen 80")) 20 = .done (runningTree, some (.unexpectedEof 1)) ∧
      new.parseFile (oneFile (str "listen 80")) 20 (cString runningTree.configFile) = .failed (.unexpectedEof 1)) ∧
    (∃ cfg', runningTree.reload (oneFile (str "listen 80;")) 20 = .done (cfg', some (.reloadListen 1)) ∧
      cfg'.root.tree ≠ runningTree.root.tree ∧
      ∃ handler ∈ runningTree.subscribes, handler cfg'.root = some 1) := by
  constructor
  · have hreload : runningTree.reload (oneFile (str "listen 80")) 20 =
        .done (runningTree, some (.unexpectedEof 1)) := by
      unfold reload
      rw [parseFile_unexpectedEof]
    rcases reload_error hreload with ⟨hparse, -⟩ | ⟨conf, hconf, -⟩
    · exact ⟨hreload, hparse⟩
    · cases parseFile_unexpectedEof.symm.trans hconf
  · obtain ⟨hne, hfile⟩ := runningTree_file (str "listen 80;")
    obtain ⟨l, hparse⟩ := parse_one (some (oneFile (str "listen 80;"))) (n := 20) reads_listen
      (by decide) (by decide)
    have hreload : runningTree.reload (oneFile (str "listen 80;")) 20 =
        .done ({ runningTree with root := ⟨0, [], [], [⟨l, str "listen", [str "80"], []⟩]⟩ },
          some (.reloadListen 1)) := by
      rw [reload_of_parse hne hfile (by decide) hparse]
      rfl
    rcases reload_error hreload with ⟨hfailed, -⟩ | ⟨conf, -, hroot, htree, handler, hmem, code, hcode, he⟩
    · rw [parseFile_of_parse hne hfile (by decide) hparse] at hfailed
      cases hfailed
    · cases he
      exact ⟨_, hreload, htree, handler, hmem, hroot ▸ hcode⟩

/-- A handler fails, and the new tree is in force. -/
theorem reload_handler_fails : ∃ reloaded,
    (running [some 1]).reload (oneFile (str "listen 80;")) 20 = .done (reloaded, some (.reloadListen 1)) ∧
      (running [some 1]).root.tree.directives = [] ∧
      reloaded.root.tree.directives = [⟨str "listen", [str "80"], []⟩] := by
  obtain ⟨hname, hfile⟩ := running_file [some 1] (str "listen 80;")
  obtain ⟨l, hparse⟩ := parse_one (some (oneFile (str "listen 80;"))) (n := 20) reads_listen
    (by decide) (by decide)
  have hne : cString (running [some 1]).configFile ≠ [] := by rw [hname]; decide
  have hreload := reload_of_parse hne hfile (by decide) hparse
  exact ⟨_, hreload, rfl, rfl⟩

end SrsConfig

end HttpProxy
