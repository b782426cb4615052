import HttpProxy.Control.Proc
import HttpProxy.Config.Reload
import HttpProxy.Message.Uri

/-!
# The command line

`src/app/srs_app_config.cpp`, lines 971-1046 and 1093-1129.

* `parseArgv`, `parseArguments` — the loop over the letters of an argument, and the one over the arguments.
* `parseArgv_last` — the last argument, if it is an option, is always an error.
* `option_c_forms` — `-c f` sets the file, and `-cf` never gets through.
* `startup` — all of `parse_options`; `startup_of_exists` is a start with `-c`.
-/

namespace HttpProxy

/-- What the command line sets of `SrsConfig`. -/
structure SrsOptions where
  argv : Bytes
  showHelp : Bool
  configFile : Bytes
  deriving DecidableEq

/-- The errors of `parse_argv`, all with the code `ERROR_SYSTEM_CONFIG_INVALID`. -/
inductive ArgvError
  | requiresParams
  | invalidOption (option : Byte) (program : Bytes)
  deriving DecidableEq

/-- The text of an error. -/
def ArgvError.text : ArgvError → Bytes
  | requiresParams => str "-c requires params"
  | invalidOption c program =>
      str "invalid option: \"" ++ [c] ++ str "\", read help: " ++ program ++ str " -h"

/-- `argv[i]`, `none` for the NULL behind the arguments. -/
def argvAt (argv : List Bytes) (i : Nat) : Option Bytes := argv[i]?.map cString

/-! ## The loops -/

open Proc

/-- `case 'c'`, with `p` behind the letter; the value is `i` afterwards.  Where the file is the rest of
the argument, `p` stays where it is. -/
def caseC (argv : List Bytes) (p : Bytes) (i : Nat) : Proc SrsOptions ArgvError Nat := do
  modify fun o => { o with showHelp := false }
  if p ≠ [] then
    modify fun o => { o with configFile := p }
    pure i
  else
    match argvAt argv (i + 1) with
    | some arg =>
        modify fun o => { o with configFile := arg }
        pure (i + 1)
    | none => exit .requiresParams

/-- The `switch` of `parse_argv` on a letter `c`, with `p` behind it. -/
def optionTurn (argv : List Bytes) (c : Byte) (p : Bytes) (i : Nat) : Proc SrsOptions ArgvError Nat :=
  if c = chr '?' ∨ c = chr 'h' then do
    -- there is no `break`
    modify fun o => { o with showHelp := true }
    caseC argv p i
  else if c = chr 'c' then caseC argv p i
  else exit (.invalidOption c ((argvAt argv 0).getD []))

/-- The loop of `parse_argv` with `p` in front of it; the value is `i` behind it. -/
def optionLoop (argv : List Bytes) : Bytes → Nat → Proc SrsOptions ArgvError Nat
  | [], i => pure i
  | c :: p, i => do
      let i ← optionTurn argv c p i
      optionLoop argv p i

/-- `parse_argv`; the value is `i` behind it. -/
def parseArgv (argv : List Bytes) (i : Nat) : Proc SrsOptions ArgvError Nat :=
  match (argvAt argv i).getD [] with
  | c :: p =>
      if c = chr '-' then optionLoop argv p i
      else do
        modify fun o => { o with showHelp := true }
        pure i
  | [] => do
      modify fun o => { o with showHelp := true }
      pure i

/-- The loop over the arguments from `i` on.  Every turn takes one of them at least. -/
def argvLoop (argv : List Bytes) : Nat → Nat → Proc SrsOptions ArgvError Unit
  | 0, _ => pure ()
  | n + 1, i =>
      if i < argv.length then do
        let i ← parseArgv argv i
        argvLoop argv n (i + 1)
      else pure ()

/-- The part of `parse_options` that reads the arguments. -/
def parseArguments (argv : List Bytes) : Proc SrsOptions ArgvError Unit := do
  modify fun o => { o with argv := o.argv ++ (str " ").intercalate (argv.map cString) }
  modify fun o => { o with showHelp := decide (1 < argv.length) }
  argvLoop argv argv.length 1

/-! ## An argument that is the last one -/

/-- The letters of the options. -/
def isOption (c : Byte) : Bool := c = chr '?' || c = chr 'h' || c = chr 'c'

variable {argv : List Bytes} {p f : Bytes} {c : Byte} {i : Nat}

/-- In front of another letter an option takes the rest of the argument. -/
theorem caseC_rest (hp : p ≠ []) (o : SrsOptions) :
    caseC argv p i o = (.ok i, { o with showHelp := false, configFile := p }) := by
  rw [caseC, bind_ok (modify_apply _ _), if_pos hp]
  rfl

/-- The last letter takes the next argument. -/
theorem caseC_next {arg : Bytes} (harg : argvAt argv (i + 1) = some arg) (o : SrsOptions) :
    caseC argv [] i o = (.ok (i + 1), { o with showHelp := false, configFile := arg }) := by
  rw [caseC, bind_ok (modify_apply _ _), if_neg fun h => h rfl, harg]
  rfl

theorem caseC_null (hnull : argvAt argv (i + 1) = none) (o : SrsOptions) :
    caseC argv [] i o = (.error .requiresParams, { o with showHelp := false }) := by
  rw [caseC, bind_ok (modify_apply _ _), if_neg fun h => h rfl, hnull]
  rfl

/-- Every option does what `case 'c'` does. -/
theorem optionTurn_option (hc : isOption c = true) (o : SrsOptions) :
    ∃ o', optionTurn argv c p i o = caseC argv p i o' := by
  rw [isOption, Bool.or_eq_true, Bool.or_eq_true, decide_eq_true_iff, decide_eq_true_iff,
    decide_eq_true_iff] at hc
  rw [optionTurn]
  split
  · exact ⟨_, bind_ok (modify_apply _ _)⟩
  · rename_i hno
    rw [if_pos (hc.resolve_left hno)]
    exact ⟨o, rfl⟩

theorem optionTurn_invalid (hc : isOption c = false) (o : SrsOptions) :
    optionTurn argv c p i o = (.error (.invalidOption c ((argvAt argv 0).getD [])), o) := by
  rw [isOption, Bool.or_eq_false_iff, Bool.or_eq_false_iff, decide_eq_false_iff_not,
    decide_eq_false_iff_not, decide_eq_false_iff_not] at hc
  rw [optionTurn, if_neg (not_or.2 hc.1), if_neg hc.2]
  rfl

/-- What becomes of the last argument: the first letter that is no option is named, and if there is
none the last letter lacks its parameter. -/
def lastError (argv : List Bytes) (p : Bytes) : ArgvError :=
  match p.find? fun c => !isOption c with
  | some c => .invalidOption c ((argvAt argv 0).getD [])
  | none => .requiresParams

/-- Nothing gets through the letters of the last argument. -/
theorem optionLoop_last (hnull : argvAt argv (i + 1) = none) (hp : p ≠ []) (o : SrsOptions) :
    (optionLoop argv p i o).1 = .error (lastError argv p) := by
  induction p generalizing o with
  | nil => exact absurd rfl hp
  | cons c p ih =>
    rw [lastError, optionLoop]
    cases hc : isOption c with
    | false =>
      rw [bind_error (optionTurn_invalid hc o), List.find?_cons_of_pos (by rw [hc]; rfl)]
    | true =>
      rw [List.find?_cons_of_neg (by rw [hc]; decide)]
      obtain ⟨o', hturn⟩ : ∃ o', optionTurn argv c p i o = caseC argv p i o' := optionTurn_option hc o
      by_cases hp : p = []
      · subst hp
        rw [bind_error (hturn.trans (caseC_null hnull o'))]
        rfl
      · rw [bind_ok (hturn.trans (caseC_rest hp o')), ih hp]
        rfl

/-- The last argument is an error if it is an option. -/
theorem parseArgv_last (hnull : argvAt argv (i + 1) = none) (harg : argvAt argv i = some (chr '-' :: p))
    (hp : p ≠ []) (o : SrsOptions) : (parseArgv argv i o).1 = .error (lastError argv p) := by
  rw [parseArgv, harg]
  exact optionLoop_last hnull hp o

/-! ## The two forms of the option -/

/-- The arguments get through, without the help, and the file is `f`. -/
def Chooses (argv : List Bytes) (o : SrsOptions) (f : Bytes) : Prop :=
  ∃ o', parseArguments argv o = (.ok (), o') ∧ o'.showHelp = false ∧ o'.configFile = f

/-- `-c f`. -/
theorem chooses_two (hnul : 0 ∉ f) (program : Bytes) (o : SrsOptions) :
    Chooses [program, str "-c", f] o f := by
  have harg : argvAt [program, str "-c", f] 2 = some f := congrArg some (cString_eq_self hnul)
  have hparse : ∀ o : SrsOptions, parseArgv [program, str "-c", f] 1 o =
      (.ok 2, { o with showHelp := false, configFile := f }) := fun o => by
    show optionLoop [program, str "-c", f] [chr 'c'] 1 o = _
    have hturn : optionTurn [program, str "-c", f] (chr 'c') [] 1 o =
        (.ok 2, { o with showHelp := false, configFile := f }) := caseC_next harg o
    rw [optionLoop, bind_ok hturn]
    rfl
  have hloop : ∀ o : SrsOptions, argvLoop [program, str "-c", f] 3 1 o =
      (.ok (), { o with showHelp := false, configFile := f }) := fun o => by
    rw [argvLoop, if_pos (by simp), bind_ok (hparse o)]
    rfl
  exact ⟨_, (bind_ok (modify_apply _ _)).trans ((bind_ok (modify_apply _ _)).trans (hloop _)), rfl, rfl⟩

/-- `-cf`. -/
theorem joined_fails (hnul : 0 ∉ f) (program : Bytes) (o : SrsOptions) :
    (parseArguments [program, str "-c" ++ f] o).1 =
      .error (lastError [program, str "-c" ++ f] (chr 'c' :: f)) := by
  have harg : argvAt [program, str "-c" ++ f] 1 = some (chr '-' :: chr 'c' :: f) := by
    refine congrArg some (cString_eq_self fun h => ?_)
    rcases List.mem_append.1 h with h | h
    · exact absurd h (by decide)
    · exact hnul h
  have hparse := parseArgv_last (p := chr 'c' :: f) rfl harg (List.cons_ne_nil _ _)
  have hloop : ∀ o : SrsOptions, (argvLoop [program, str "-c" ++ f] 2 1 o).1 =
      .error (lastError [program, str "-c" ++ f] (chr 'c' :: f)) := fun o => by
    rw [argvLoop, if_pos (by simp), bind_error (Prod.ext (hparse o) rfl)]
  exact (congrArg Prod.fst ((bind_ok (modify_apply _ _)).trans (bind_ok (modify_apply _ _)))).trans (hloop _)

theorem not_chooses_joined (hnul : 0 ∉ f) (program : Bytes) (o : SrsOptions) :
    ¬ Chooses [program, str "-c" ++ f] o f := by
  rintro ⟨o', hok, -, -⟩
  have herr := joined_fails hnul program o
  rw [hok] at herr
  cases herr

/-- No file can be given in both forms: `-c f` gets through, and `-cf` is an error. -/
theorem option_c_forms (hnul : 0 ∉ f) (program : Bytes) (o : SrsOptions) :
    ¬ (Chooses [program, str "-c", f] o f ∧ Chooses [program, str "-c" ++ f] o f) ∧
      Chooses [program, str "-c", f] o f ∧
      (parseArguments [program, str "-c" ++ f] o).1 =
        .error (lastError [program, str "-c" ++ f] (chr 'c' :: f)) :=
  ⟨fun h => not_chooses_joined hnul program o h.2, chooses_two hnul program o, joined_fails hnul program o⟩

/-- The option that is named is a letter of the path. -/
theorem option_c_conf :
    ¬ Chooses [str "myproxy", str "-c" ++ str "conf/srs.conf"] ⟨[], false, []⟩ (str "conf/srs.conf") ∧
      (parseArguments [str "myproxy", str "-c" ++ str "conf/srs.conf"] ⟨[], false, []⟩).1 =
        .error (.invalidOption (chr 'o') (str "myproxy")) := by
  have hnul : (0 : Byte) ∉ str "conf/srs.conf" := by decide
  refine ⟨not_chooses_joined hnul _ _, (joined_fails hnul _ _).trans ?_⟩
  decide

theorem option_c_forms_conf :
    ¬ (Chooses [str "myproxy", str "-c", str "conf/srs.conf"] ⟨[], false, []⟩ (str "conf/srs.conf") ∧
        Chooses [str "myproxy", str "-c" ++ str "conf/srs.conf"] ⟨[], false, []⟩ (str "conf/srs.conf")) ∧
      Chooses [str "myproxy", str "-c", str "conf/srs.conf"] ⟨[], false, []⟩ (str "conf/srs.conf") ∧
      (parseArguments [str "myproxy", str "-c" ++ str "conf/srs.conf"] ⟨[], false, []⟩).1 =
        .error (lastError [str "myproxy", str "-c" ++ str "conf/srs.conf"]
          (chr 'c' :: str "conf/srs.conf")) :=
  option_c_forms (by decide) (str "myproxy") ⟨[], false, []⟩

/-! ## The file that is read -/

/-- `srs_string_ends_with`: the last occurrence is at the end. -/
def srsStringEndsWith (s flag : Bytes) : Bool := flag.isSuffixOf s

/-- The files that are tried for the configured one. -/
def tryConfigFiles (configFile : Bytes) : List Bytes :=
  (if configFile = [] then [] else [configFile]) ++
  (if srsStringEndsWith configFile (str "docker.conf") then
    [srsStringReplace configFile (str "docker.conf") (str "srs.conf")] else []) ++
  [str "conf/srs.conf", str "/etc/srs/srs.conf"]

/-- `config_file` in front of `parse_file`: the first of the files that `srs_path_exists`, and empty if
there is none. -/
def matchConfigFile (pathExists : Bytes → Bool) (configFile : Bytes) : Bytes :=
  ((tryConfigFiles configFile).find? pathExists).getD []

/-- How `parse_options` ends. -/
inductive Startup
  /-- `parse argv` -/
  | refused (e : ArgvError)
  /-- The help is printed, and the program exits with 0. -/
  | help
  /-- The matched file is parsed. -/
  | parsed (result : Outcome ConfError SrsConfig)

/-- `parse_options`. -/
def startup (argv : List Bytes) (pathExists : Bytes → Bool) (files : Files) (n : Nat) : Startup :=
  match parseArguments argv ⟨[], false, []⟩ with
  | (.error e, _) => .refused e
  | (.ok (), o) =>
      if o.showHelp then .help
      else
        .parsed
          ({ SrsConfig.new with configFile := matchConfigFile pathExists o.configFile }.parseOptions files n)

variable {pathExists : Bytes → Bool}

/-- A file that is given and exists is the one that is parsed. -/
theorem startup_of_exists (hne : f ≠ []) (hnul : 0 ∉ f) (hf : pathExists f = true) (program : Bytes)
    (files : Files) (n : Nat) :
    startup [program, str "-c", f] pathExists files n =
      .parsed ({ SrsConfig.new with configFile := f }.parseOptions files n) := by
  obtain ⟨o, hok, hhelp, hfile⟩ := chooses_two hnul program ⟨[], false, []⟩
  have hmatch : matchConfigFile pathExists f = f := by
    rw [matchConfigFile, tryConfigFiles, if_neg hne, List.append_assoc, List.singleton_append,
      List.find?_cons_of_pos hf]
    rfl
  rw [startup, hok]
  dsimp only
  rw [if_neg (by rw [hhelp]; decide), hfile, hmatch]

end HttpProxy
