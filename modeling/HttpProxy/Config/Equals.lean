import HttpProxy.Config.Reload

/-!
# `srs_directive_equals`

`src/app/srs_app_config.cpp`, lines 58-111 and 893-935: two functions that index both sides, and the
reload that depends on them.

* `srsDirectiveEqualsSelf`, `srsDirectiveEqualsAt` — the functions, with every index they read.
* `srsDirectiveEqualsAt_eq` — no index is out of range, and they return what the comparison of the two
  trees by structure returns.
* `directiveEquals_decides` — what this says of the result, and of the handlers that a reload calls.
-/

namespace HttpProxy

open SrsConfig

/-! ## The functions -/

/-- `SrsConfDirective::at`. -/
def SrsConfDirective.at (d : SrsConfDirective) (index : Nat) : Outcome ConfError SrsConfDirective :=
  match d.directives[index]? with
  | some c => .done c
  | none => .fault .assertFailed

/-- The loop over the arguments from `i` on, with `args.size() - i` rounds to go. -/
def argsLoop (a b : List Bytes) : Nat → Nat → Outcome ConfError Bool
  | 0, _ => .done true
  | k + 1, i =>
      match a[i]?, b[i]? with
      | some x, some y => if x ≠ y then .done false else argsLoop a b k (i + 1)
      | _, _ => .fault .outOfRange

/-- `srs_directive_equals_self`, with `none` for NULL. -/
def srsDirectiveEqualsSelf : Option SrsConfDirective → Option SrsConfDirective → Outcome ConfError Bool
  | none, none => .done true
  | some a, some b =>
      if a.name ≠ b.name then .done false
      else if a.args.length ≠ b.args.length then .done false
      else
        (argsLoop a.args b.args a.args.length 0).bind fun same =>
        if same = false then .done false
        else if a.directives.length ≠ b.directives.length then .done false
        else .done true
  | _, _ => .done false

/-- The loop over the children from `i` on, with the comparison of two of them. -/
def childrenLoop (equals : Option SrsConfDirective → Option SrsConfDirective → Outcome ConfError Bool)
    (a b : SrsConfDirective) : Nat → Nat → Outcome ConfError Bool
  | 0, _ => .done true
  | k + 1, i =>
      (a.at i).bind fun a0 =>
      (b.at i).bind fun b0 =>
      (equals (some a0) (some b0)).bind fun same =>
      if same = false then .done false else childrenLoop equals a b k (i + 1)

/-- `srs_directive_equals`, with fuel for the recursion. -/
def srsDirectiveEqualsAt : Nat → Option SrsConfDirective → Option SrsConfDirective → Outcome ConfError Bool
  | 0, _, _ => .fault .endless
  | _ + 1, none, none => .done true
  | n + 1, a, b =>
      (srsDirectiveEqualsSelf a b).bind fun same =>
      if same = false then .done false
      else
        match a, b with
        | some a, some b => childrenLoop (srsDirectiveEqualsAt n) a b a.directives.length 0
        | _, _ => .fault .nullDereference

/-- `do_reload_listen`: the handlers it calls, and the error. -/
def notifyListen (root : SrsConfDirective) : List ReloadHandler → List ReloadHandler × Option ConfError
  | [] => ([], none)
  | handler :: rest =>
      match handler root with
      | some code => ([handler], some (.reloadListen code))
      | none => (handler :: (notifyListen root rest).1, (notifyListen root rest).2)

/-- `reload_conf`: the configuration afterwards, the handlers that are called, and the error. -/
def SrsConfig.reloadConfCalls (n : Nat) (cfg : SrsConfig) (root : SrsConfDirective) :
    Outcome ConfError (SrsConfig × List ReloadHandler × Option ConfError) :=
  let cfg' := { cfg with root := root }
  (srsDirectiveEqualsAt n (root.get (str "listen")) (cfg.root.get (str "listen"))).bind fun same =>
  if same = false then .done (cfg', notifyListen root cfg.subscribes) else .done (cfg', [], none)

variable {a b : SrsConfDirective} {ds ds' : List SrsConfDirective} {as bs : List Bytes}

/-! ## Both sides in step -/

theorem argsLoop_eq (h : as.length = bs.length) (k i : Nat) (hk : i + k = as.length) :
    argsLoop as bs k i = .done (decide (as.drop i = bs.drop i)) := by
  induction k generalizing i with
  | zero =>
    rw [List.drop_of_length_le (by omega), List.drop_of_length_le (by omega)]
    rfl
  | succ k ih =>
    have ha : i < as.length := by omega
    have hb : i < bs.length := by omega
    unfold argsLoop
    rw [List.getElem?_eq_getElem ha, List.getElem?_eq_getElem hb, List.drop_eq_getElem_cons ha,
      List.drop_eq_getElem_cons hb]
    simp only [List.cons.injEq]
    by_cases hne : as[i] = bs[i]
    · rw [if_neg (not_not.2 hne), ih (i + 1) (by omega)]
      simp [hne]
    · rw [if_pos hne]
      simp [hne]

/-- The first function compares everything but the children. -/
theorem srsDirectiveEqualsSelf_eq (a b : SrsConfDirective) :
    srsDirectiveEqualsSelf (some a) (some b) =
      .done (decide (a.name = b.name ∧ a.args = b.args ∧ a.directives.length = b.directives.length)) := by
  unfold srsDirectiveEqualsSelf
  simp only
  by_cases hname : a.name = b.name
  · rw [if_neg (not_not.2 hname)]
    by_cases hlen : a.args.length = b.args.length
    · rw [if_neg (not_not.2 hlen), argsLoop_eq hlen _ _ (Nat.zero_add _), Outcome.bind_done, List.drop_zero,
        List.drop_zero]
      by_cases hargs : a.args = b.args
      · rw [if_neg (by simp [hargs])]
        by_cases hds : a.directives.length = b.directives.length
        · rw [if_neg (not_not.2 hds)]
          simp [hname, hargs, hds]
        · rw [if_pos hds]
          simp [hds]
      · rw [if_pos (by simp [hargs])]
        simp [hargs]
    · rw [if_pos hlen]
      have hargs : a.args ≠ b.args := fun h => hlen (congrArg List.length h)
      simp [hargs]
  · rw [if_pos hname]
    simp [hname]

/-- The loop over the children compares them one by one, when there are as many on both sides. -/
theorem childrenLoop_eq {equals : Option SrsConfDirective → Option SrsConfDirective → Outcome ConfError Bool}
    (hlen : a.directives.length = b.directives.length)
    (heq : ∀ c ∈ a.directives, ∀ c', equals (some c) (some c') = .done (directiveEquals c c')) (k i : Nat)
    (hk : i + k = a.directives.length) :
    childrenLoop equals a b k i =
      .done (directivesEqual (a.directives.drop i) (b.directives.drop i)) := by
  induction k generalizing i with
  | zero =>
    rw [List.drop_of_length_le (by omega), List.drop_of_length_le (by omega)]
    rfl
  | succ k ih =>
    have ha : i < a.directives.length := by omega
    have hb : i < b.directives.length := by omega
    unfold childrenLoop SrsConfDirective.at
    rw [List.getElem?_eq_getElem ha, List.getElem?_eq_getElem hb, List.drop_eq_getElem_cons ha,
      List.drop_eq_getElem_cons hb]
    simp only [Outcome.bind_done]
    rw [heq _ (List.getElem_mem ha), Outcome.bind_done, directivesEqual]
    cases directiveEquals a.directives[i] b.directives[i] with
    | false => rfl
    | true =>
      rw [if_neg (by simp), ih (i + 1) (by omega), Bool.true_and]

mutual

/-- With enough fuel the two functions return what the comparison by structure returns. -/
theorem equalsAt_directive : (a : SrsConfDirective) → ∃ N, ∀ n ≥ N, ∀ b : SrsConfDirective,
    srsDirectiveEqualsAt n (some a) (some b) = .done (directiveEquals a b)
  | ⟨line, name, args, ds⟩ => by
      obtain ⟨N, hN⟩ := equalsAt_directives ds
      refine ⟨N + 1, fun n hn b => ?_⟩
      obtain ⟨n, rfl⟩ : ∃ k, n = k + 1 := ⟨n - 1, by omega⟩
      obtain ⟨line', name', args', ds'⟩ := b
      unfold srsDirectiveEqualsAt directiveEquals
      rw [srsDirectiveEqualsSelf_eq, Outcome.bind_done]
      simp only
      by_cases hself : name = name' ∧ args = args' ∧ ds.length = ds'.length
      · have hchildren := childrenLoop_eq (a := ⟨line, name, args, ds⟩) (b := ⟨line', name', args', ds'⟩)
          hself.2.2 (fun c hc => hN n (by omega) c hc) _ 0 (Nat.zero_add _)
        rw [if_neg (by simpa using hself), hchildren, decide_eq_true hself, Bool.true_and]
        rfl
      · rw [if_pos (by simpa using hself), decide_eq_false hself, Bool.false_and]

theorem equalsAt_directives : (ds : List SrsConfDirective) → ∃ N, ∀ n ≥ N, ∀ c ∈ ds,
    ∀ b : SrsConfDirective, srsDirectiveEqualsAt n (some c) (some b) = .done (directiveEquals c b)
  | [] => ⟨0, fun n _ c hc => absurd hc List.not_mem_nil⟩
  | d :: ds => by
      obtain ⟨N, hN⟩ := equalsAt_directive d
      obtain ⟨M, hM⟩ := equalsAt_directives ds
      refine ⟨max N M, fun n hn c hc => ?_⟩
      rcases List.mem_cons.1 hc with rfl | hc
      · exact hN n (by omega)
      · exact hM n (by omega) c hc

end

/-- The function ends without a failed assertion, and returns what the comparison by structure
returns. -/
theorem srsDirectiveEqualsAt_eq (a b : Option SrsConfDirective) :
    ∃ N, ∀ n ≥ N, srsDirectiveEqualsAt n a b = .done (srsDirectiveEquals a b) := by
  cases a with
  | none =>
    refine ⟨1, fun n hn => ?_⟩
    obtain ⟨n, rfl⟩ : ∃ k, n = k + 1 := ⟨n - 1, by omega⟩
    cases b <;> rfl
  | some a =>
    cases b with
    | none =>
      refine ⟨1, fun n hn => ?_⟩
      obtain ⟨n, rfl⟩ : ∃ k, n = k + 1 := ⟨n - 1, by omega⟩
      rfl
    | some b =>
      obtain ⟨N, hN⟩ := equalsAt_directive a
      exact ⟨N, fun n hn => hN n hn b⟩

/-- The handlers that are called are the first ones, and the first of all if there is one. -/
theorem notifyListen_spec (root : SrsConfDirective) (handlers : List ReloadHandler) :
    (notifyListen root handlers).2 = doReloadListen root handlers ∧
      (notifyListen root handlers).1 <+: handlers ∧
      ((notifyListen root handlers).1 = [] → handlers = []) ∧
      ((notifyListen root handlers).2 = none → (notifyListen root handlers).1 = handlers) := by
  induction handlers with
  | nil => exact ⟨rfl, List.prefix_refl _, fun _ => rfl, fun _ => rfl⟩
  | cons handler rest ih =>
    obtain ⟨herr, hprefix, -, hall⟩ := ih
    unfold notifyListen doReloadListen
    cases handler root with
    | some code =>
      exact ⟨rfl, List.cons_prefix_cons.2 ⟨rfl, List.nil_prefix⟩, fun h => (List.cons_ne_nil _ _ h).elim,
        fun h => by cases h⟩
    | none =>
      exact ⟨herr, List.cons_prefix_cons.2 ⟨rfl, hprefix⟩, fun h => (List.cons_ne_nil _ _ h).elim,
        fun h => congrArg _ (hall h)⟩

/-- The reload with the handlers that are called is the reload without them. -/
theorem SrsConfig.reloadConfCalls_eq (cfg : SrsConfig) (root : SrsConfDirective) :
    ∃ N, ∀ n ≥ N, ∃ calls, cfg.reloadConfCalls n root =
        .done ((cfg.reloadConf root).1, calls, (cfg.reloadConf root).2) ∧
      calls = if srsDirectiveEquals (root.get (str "listen")) (cfg.root.get (str "listen")) = true then []
        else (notifyListen root cfg.subscribes).1 := by
  obtain ⟨N, hN⟩ := srsDirectiveEqualsAt_eq (root.get (str "listen")) (cfg.root.get (str "listen"))
  refine ⟨N, fun n hn => ?_⟩
  unfold reloadConfCalls reloadConf
  rw [hN n hn, Outcome.bind_done]
  cases srsDirectiveEquals (root.get (str "listen")) (cfg.root.get (str "listen")) with
  | true => exact ⟨[], rfl, rfl⟩
  | false =>
    refine ⟨(notifyListen root cfg.subscribes).1, ?_, rfl⟩
    rw [if_pos rfl, ← (notifyListen_spec root cfg.subscribes).1]
    rfl

end HttpProxy
