import HttpProxy.Config.Parse

/-!
# `srs_config_transform_vhost`

`src/app/srs_app_config.cpp`, lines 149-421, which rewrites the forms of earlier versions in the tree
that was parsed at startup.

The iterator over the children of a vhost is the boundary between two lists.
-/

namespace HttpProxy

namespace SrsConfDirective

/-- A new directive with a name. -/
def new (name : Bytes) : SrsConfDirective := ⟨0, name, [], []⟩

/-- `arg0`. -/
def arg0 (d : SrsConfDirective) : Bytes := d.args.headD []

/-- `set_arg0`. -/
def setArg0 (a0 : Bytes) (d : SrsConfDirective) : SrsConfDirective :=
  if d.arg0 = a0 then d else { d with args := a0 :: d.args.tail }

/-- An assignment to `args`. -/
def setArgs (args : List Bytes) (d : SrsConfDirective) : SrsConfDirective := { d with args := args }

/-- `get(name)`, among the children. -/
def get (d : SrsConfDirective) (name : Bytes) : Option SrsConfDirective :=
  d.directives.find? fun c => c.name = name

/-- `get(name, arg0)`: there is no `return` behind the loop, and `none` stands for its end. -/
def getArg0 (d : SrsConfDirective) (name a0 : Bytes) : Option SrsConfDirective :=
  d.directives.find? fun c => c.name = name ∧ c.arg0 = a0

/-- `remove(get(name))`. -/
def removeFirst (name : Bytes) (d : SrsConfDirective) : SrsConfDirective :=
  { d with directives := d.directives.eraseP fun c => c.name = name }

end SrsConfDirective

open SrsConfDirective

/-- A change of `get_or_create(name)`, in the list of directives it belongs to. -/
def withDirective (name : Bytes) (f : SrsConfDirective → SrsConfDirective) :
    List SrsConfDirective → List SrsConfDirective
  | [] => [f (new name)]
  | d :: ds => if d.name = name then f d :: ds else d :: withDirective name f ds

/-- A change of a child that is there or is created. -/
def withChild (name : Bytes) (f : SrsConfDirective → SrsConfDirective) (d : SrsConfDirective) :
    SrsConfDirective :=
  { d with directives := withDirective name f d.directives }

/-- The value of a child, if it is there, becomes the value of another one. -/
def copyArgs (src : Option SrsConfDirective) (name : Bytes) (d : SrsConfDirective) : SrsConfDirective :=
  match src with
  | some c => withChild name (setArgs c.args) d
  | none => d

/-! ## The children of a vhost -/

/-- The children in front of the iterator, and those from it on. -/
abbrev Children := List SrsConfDirective × List SrsConfDirective

/-- `++it`, over a child that may have changed. -/
def advanceIt (done : List SrsConfDirective) (conf : SrsConfDirective) (rest : List SrsConfDirective) :
    Children :=
  (done ++ [conf], rest)

/-- `erase(it)`, and a change of a child of the vhost that is there or is created at the end. -/
def moveInto (name : Bytes) (f : SrsConfDirective → SrsConfDirective) (done rest : List SrsConfDirective) :
    Children :=
  let all := withDirective name f (done ++ rest)
  (all.take done.length, all.drop done.length)

/-- `vhost { shadow; }` becomes `vhost { play { shadow; } }`. -/
def playShadows : List Bytes :=
  [str "time_jitter", str "mix_correct", str "atc", str "atc_auto", str "mw_latency", str "gop_cache",
    str "queue_length", str "send_min_interval", str "reduce_sequence_header"]

/-- `vhost { shadow; }` becomes `vhost { cluster { shadow; } }`. -/
def clusterShadows : List Bytes :=
  [str "mode", str "origin", str "token_traverse", str "vhost", str "debug_srs_upnode"]

/-- `refer { all; play; publish; }`: the child that the arguments of `refer`, `refer_play` or
`refer_publish` go to. -/
def referField (n : Bytes) : Bytes :=
  if n = str "refer" then str "all" else if n = str "refer_play" then str "play" else str "publish"

/-- `forward target;` becomes `forward { enabled on; destination target; }`. -/
def transformForward (conf : SrsConfDirective) : SrsConfDirective :=
  setArgs [] (withChild (str "destination") (setArgs conf.args)
    (withChild (str "enabled") (setArg0 (str "on")) conf))

/-- An old switch of `rtc` and the value that stands for `on`, and the new switch. -/
def transformSwitch (old value new : Bytes) (conf : SrsConfDirective) : SrsConfDirective :=
  match conf.get old with
  | some c =>
      removeFirst old (withChild new (setArg0 (if c.arg0 = value then str "on" else str "off")) conf)
  | none => conf

/-- `rtc { aac; bframe; }` becomes `rtc { rtmp_to_rtc; keep_bframe; }`. -/
def transformRtc (conf : SrsConfDirective) : SrsConfDirective :=
  transformSwitch (str "bframe") (str "keep") (str "keep_bframe")
    (transformSwitch (str "aac") (str "transcode") (str "rtmp_to_rtc") conf)

/-- One round of the loop over the children of a vhost, at the child `conf`. -/
def vhostStep (done : List SrsConfDirective) (conf : SrsConfDirective) (rest : List SrsConfDirective) :
    Outcome ConfError Children :=
  let n := conf.name
  if n = str "http" then .done (advanceIt done { conf with name := str "http_static" } rest)
  else
    let conf := if n = str "http_remux" then removeFirst (str "hstrs") conf else conf
    if (n = str "refer" ∧ conf.directives = []) ∨ n = str "refer_play" ∨ n = str "refer_publish" then
      let refer := ((done ++ rest).find? fun d => d.name = str "refer").getD (new (str "refer"))
      match refer.getArg0 (str "enabled") (str "on") with
      | none => .fault .noReturn
      | some _ => .done (moveInto (str "refer") (withChild (referField n) (setArgs conf.args)) done rest)
    else if n = str "mr" then
      .done (moveInto (str "publish")
        (fun publish => copyArgs (conf.get (str "latency")) (str "mr_latency")
          (copyArgs (conf.get (str "enabled")) (str "mr") publish)) done rest)
    else if n = str "publish_1stpkt_timeout" then
      .done (moveInto (str "publish") (withChild (str "firstpkt_timeout") (setArgs conf.args)) done rest)
    else if n = str "publish_normal_timeout" then
      .done (moveInto (str "publish") (withChild (str "normal_timeout") (setArgs conf.args)) done rest)
    else if n ∈ playShadows then
      .done (moveInto (str "play") (withChild n (setArgs conf.args)) done rest)
    else if n = str "forward" ∧ conf.directives = [] ∧ conf.args ≠ [] then
      .done (advanceIt done (transformForward conf) rest)
    else if n ∈ clusterShadows then
      .done (moveInto (str "cluster") (withChild n (setArgs conf.args)) done rest)
    else if n = str "nack" then
      .done (moveInto (str "rtc")
        (fun rtc => copyArgs (conf.get (str "no_copy")) (str "nack_no_copy")
          (copyArgs (conf.get (str "enabled")) (str "nack") rtc)) done rest)
    else if n = str "twcc" then
      .done (moveInto (str "rtc") (copyArgs (conf.get (str "enabled")) (str "twcc")) done rest)
    else if n = str "rtc" then .done (advanceIt done (transformRtc conf) rest)
    else .done (advanceIt done conf rest)

/-- The loop over the children of a vhost. -/
def vhostLoop : Nat → List SrsConfDirective → List SrsConfDirective →
    Outcome ConfError (List SrsConfDirective)
  | _, done, [] => .done done
  | 0, _, _ :: _ => .fault .endless
  | n + 1, done, conf :: rest => (vhostStep done conf rest).bind fun p => vhostLoop n p.1 p.2

/-! ## The kinds of children -/

/-- What the name of a child of a vhost says of it. -/
inductive ChildKind
  | http
  | remux
  | refer
  | forward
  | rtc
  | moved
  | modern
  deriving DecidableEq

/-- The kind of a name. -/
def childKind (n : Bytes) : ChildKind :=
  if n = str "http" then .http
  else if n = str "http_remux" then .remux
  else if n = str "refer" then .refer
  else if n = str "forward" then .forward
  else if n = str "rtc" then .rtc
  else if n ∈ [str "refer_play", str "refer_publish", str "mr", str "publish_1stpkt_timeout",
      str "publish_normal_timeout", str "nack", str "twcc"] ++ playShadows ++ clusterShadows then .moved
  else .modern

/-! ## The directives of the root -/

/-- The children of `rtc_server` that are not supported any more. -/
def removedOfRtcServer : List Bytes := [str "perf_stat", str "queue_length"]

/-- One round of the loop over the directives of the root. -/
def transformDirective (dir : SrsConfDirective) : Outcome ConfError SrsConfDirective :=
  if dir.name = str "http_stream" then .done { dir with name := str "http_server" }
  else
    let dir := if dir.name = str "rtc_server" then
        { dir with directives := dir.directives.filter fun c => c.name ∉ removedOfRtcServer }
      else dir
    if dir.name ≠ str "vhost" then .done dir
    else
      (vhostLoop (2 * dir.directives.length) [] dir.directives).bind fun ds =>
      .done { dir with directives := ds }

/-- `srs_config_transform_vhost`, on the directives of the root. -/
def srsConfigTransformVhost : List SrsConfDirective → Outcome ConfError (List SrsConfDirective)
  | [] => .done []
  | dir :: rest =>
      (transformDirective dir).bind fun dir =>
      (srsConfigTransformVhost rest).bind fun rest => .done (dir :: rest)

end HttpProxy
