import HttpProxy.Bytes.CLib
import HttpProxy.Control.Pulse
import Mathlib.Data.Rat.Cast.Order

/-!
# `SrsCircuitBreaker`: the load of the machine

`src/app/srs_app_threads.cpp`, lines 35-147.  A timer samples the CPU and keeps three
counters, which say whether the load is high, critical or dying.  The sample is
`stat->percent * 100`, a rational number here that is compared with the thresholds as it
is; the counters are of type `int`, and what the program does behind an addition that an
`int` does not hold is undefined.

* `Levels` — what the three predicates are to say about the samples.
* `onTimers_eq` — the counters after some samples.
* `levels_iff` — the predicates say so, if the counter of the dying level cannot overflow.
-/

namespace HttpProxy

/-- `circuit_breaker` in the configuration. -/
structure CircuitBreakerConf where
  enabled : Bool
  highThreshold : Int
  highPulse : Int
  criticalThreshold : Int
  criticalPulse : Int
  dyingThreshold : Int
  dyingPulse : Int
  deriving DecidableEq, Repr

/-- `SrsCircuitBreaker`. -/
structure SrsCircuitBreaker extends CircuitBreakerConf where
  highWaterLevel : Int
  criticalWaterLevel : Int
  dyingWaterLevel : Int
  deriving DecidableEq, Repr

namespace SrsCircuitBreaker

/-- A new object on which `initialize` has been called. -/
def new (conf : CircuitBreakerConf) : SrsCircuitBreaker :=
  { conf with highWaterLevel := 0, criticalWaterLevel := 0, dyingWaterLevel := 0 }

/-- `hybrid_dying_water_level`. -/
def hybridDyingWaterLevel (b : SrsCircuitBreaker) : Bool :=
  b.enabled && b.dyingPulse != 0 && decide (b.dyingPulse ≤ b.dyingWaterLevel)

/-- `hybrid_critical_water_level`. -/
def hybridCriticalWaterLevel (b : SrsCircuitBreaker) : Bool :=
  b.enabled && (b.hybridDyingWaterLevel || b.criticalWaterLevel != 0)

/-- `hybrid_high_water_level`. -/
def hybridHighWaterLevel (b : SrsCircuitBreaker) : Bool :=
  b.enabled && (b.hybridCriticalWaterLevel || b.highWaterLevel != 0)

/-- The new value of the high or of the critical level. -/
def reload (threshold pulse level : Int) (cpu : ℚ) : Int :=
  if threshold < cpu then pulse else if 0 < level then level - 1 else level

/-- The new value of the dying level, `none` if an addition overflows. -/
def count (threshold pulse level : Int) (cpu : ℚ) : Option Int :=
  if threshold < cpu then do
    let cap ← addInt pulse 1
    let next ← addInt level 1
    return min cap next
  else if 0 < level then some 0
  else some level

/-- `on_timer`, when the CPU is at `cpu` percent. -/
def onTimer (b : SrsCircuitBreaker) (cpu : ℚ) : Option SrsCircuitBreaker := do
  let dying ← count b.dyingThreshold b.dyingPulse b.dyingWaterLevel cpu
  return { b with
    highWaterLevel := reload b.highThreshold b.highPulse b.highWaterLevel cpu
    criticalWaterLevel := reload b.criticalThreshold b.criticalPulse b.criticalWaterLevel cpu
    dyingWaterLevel := dying }

/-- The calls of `on_timer` with some samples, the oldest first. -/
def onTimers (conf : CircuitBreakerConf) (samples : List ℚ) : Option SrsCircuitBreaker :=
  samples.foldlM onTimer (new conf)

/-! ## What the levels say -/

/-- The last `dying_pulse` samples all exceeded the threshold. -/
def Dying (conf : CircuitBreakerConf) (samples : List ℚ) : Prop :=
  0 < conf.dyingPulse ∧ conf.dyingPulse ≤ samples.length ∧
    ∀ cpu ∈ samples.rtake conf.dyingPulse.toNat, (conf.dyingThreshold : ℚ) < cpu

/-- Dying, or one of the last `critical_pulse` samples exceeded the threshold. -/
def Critical (conf : CircuitBreakerConf) (samples : List ℚ) : Prop :=
  Dying conf samples ∨
    ∃ cpu ∈ samples.rtake conf.criticalPulse.toNat, (conf.criticalThreshold : ℚ) < cpu

/-- Critical, or one of the last `high_pulse` samples exceeded the threshold. -/
def High (conf : CircuitBreakerConf) (samples : List ℚ) : Prop :=
  Critical conf samples ∨ ∃ cpu ∈ samples.rtake conf.highPulse.toNat, (conf.highThreshold : ℚ) < cpu

/-- No addition overflows, and the three predicates say about the samples what they are to say. -/
def Levels (conf : CircuitBreakerConf) (samples : List ℚ) : Prop :=
  ∃ b, onTimers conf samples = some b ∧
    (b.hybridDyingWaterLevel = true ↔ Dying conf samples) ∧
    (b.hybridCriticalWaterLevel = true ↔ Critical conf samples) ∧
    (b.hybridHighWaterLevel = true ↔ High conf samples)

/-- The pulses are numbers of type `int` that are not negative. -/
structure PulsesOk (conf : CircuitBreakerConf) : Prop where
  high : 0 ≤ conf.highPulse ∧ conf.highPulse < 2 ^ 31
  critical : 0 ≤ conf.criticalPulse ∧ conf.criticalPulse < 2 ^ 31
  dying : 0 ≤ conf.dyingPulse ∧ conf.dyingPulse < 2 ^ 31

/-! ## The counters -/

variable {conf : CircuitBreakerConf}

/-- Which samples exceeded a threshold. -/
def hits (threshold : Int) (samples : List ℚ) : List Bool :=
  samples.map fun cpu => decide ((threshold : ℚ) < cpu)

theorem rtake_hits (threshold : Int) (samples : List ℚ) (n : Nat) :
    (hits threshold samples).rtake n = hits threshold (samples.rtake n) := by
  rw [hits, hits, List.rtake, List.rtake, List.length_map, List.map_drop]

theorem true_mem_hits {threshold : Int} {samples : List ℚ} :
    true ∈ hits threshold samples ↔ ∃ cpu ∈ samples, (threshold : ℚ) < cpu := by
  simp [hits]

theorem all_hits {threshold : Int} {samples : List ℚ} :
    (∀ hit ∈ hits threshold samples, hit = true) ↔ ∀ cpu ∈ samples, (threshold : ℚ) < cpu := by
  simp [hits]

theorem hits_concat (threshold : Int) (samples : List ℚ) (cpu : ℚ) :
    hits threshold (samples ++ [cpu]) = hits threshold samples ++ [decide ((threshold : ℚ) < cpu)] := by
  rw [hits, List.map_append]
  rfl

theorem onTimers_concat (samples : List ℚ) (cpu : ℚ) :
    onTimers conf (samples ++ [cpu]) = (onTimers conf samples).bind (onTimer · cpu) := by
  rw [onTimers, List.foldlM_append]
  show (onTimers conf samples).bind _ = _
  congr 1
  funext b
  exact Option.bind_fun_some _

/-- A level that is reloaded is a counter that a hit sets to the pulse. -/
theorem reload_eq {threshold pulse : Int} (hpulse : 0 ≤ pulse) (level : Nat) (cpu : ℚ) :
    reload threshold pulse level cpu =
      (Pulse.hold pulse.toNat level (decide ((threshold : ℚ) < cpu)) : Nat) := by
  rw [reload, Pulse.hold]
  by_cases hcpu : (threshold : ℚ) < cpu
  · rw [if_pos hcpu, if_pos (decide_eq_true hcpu)]
    omega
  · rw [if_neg hcpu, decide_eq_false hcpu, if_neg Bool.false_ne_true]
    split <;> omega

theorem count_hit {threshold pulse level : Int} {cpu : ℚ} (h : (threshold : ℚ) < cpu) :
    count threshold pulse level cpu =
      (addInt pulse 1).bind fun cap => (addInt level 1).bind fun next => some (min cap next) := if_pos h

/-- Below the end of `int`, the dying level counts hits in a row. -/
theorem count_eq (threshold : Int) {pulse : Int} (hpulse : 0 ≤ pulse) (hmax : pulse + 2 < 2 ^ 31) {level : Nat}
    (hlevel : level ≤ pulse + 1) (cpu : ℚ) :
    count threshold pulse level cpu =
      some ((Pulse.streak (pulse + 1).toNat level (decide ((threshold : ℚ) < cpu)) : Nat) : Int) := by
  rw [Pulse.streak]
  by_cases hcpu : (threshold : ℚ) < cpu
  · rw [count_hit hcpu, addInt_eq (by omega) (by omega), addInt_eq (by omega) (by omega),
      if_pos (decide_eq_true hcpu)]
    refine congrArg some (show min (pulse + 1) ((level : Int) + 1) = _ from ?_)
    omega
  · rw [count, if_neg hcpu, decide_eq_false hcpu, if_neg Bool.false_ne_true]
    split_ifs with hpos
    · rfl
    · exact congrArg some (by omega)

/-- The counters after some samples, where they do not overflow. -/
def counted (conf : CircuitBreakerConf) (samples : List ℚ) : SrsCircuitBreaker :=
  { conf with
    highWaterLevel := ((hits conf.highThreshold samples).foldl (Pulse.hold conf.highPulse.toNat) 0 : Nat)
    criticalWaterLevel :=
      ((hits conf.criticalThreshold samples).foldl (Pulse.hold conf.criticalPulse.toNat) 0 : Nat)
    dyingWaterLevel :=
      ((hits conf.dyingThreshold samples).foldl (Pulse.streak (conf.dyingPulse + 1).toNat) 0 : Nat) }

theorem onTimer_counted (hok : PulsesOk conf) (hmax : conf.dyingPulse + 2 < 2 ^ 31) (samples : List ℚ)
    (cpu : ℚ) :
    onTimer (counted conf samples) cpu = some (counted conf (samples ++ [cpu])) := by
  have hle := Pulse.streak_le (conf.dyingPulse + 1).toNat (hits conf.dyingThreshold samples)
  have hpulse := hok.dying.1
  have hlevel : (((hits conf.dyingThreshold samples).foldl
      (Pulse.streak (conf.dyingPulse + 1).toNat) 0 : Nat) : Int) ≤ conf.dyingPulse + 1 := by omega
  have hcount := count_eq conf.dyingThreshold hpulse hmax hlevel cpu
  refine (congrArg (Option.bind · _) hcount).trans ?_
  simp only [Option.bind_some, counted, hits_concat, List.foldl_append, List.foldl_cons, List.foldl_nil,
    reload_eq hok.high.1, reload_eq hok.critical.1]
  rfl

/-- **The counters** after some samples. -/
theorem onTimers_eq (hok : PulsesOk conf) (hmax : conf.dyingPulse + 2 < 2 ^ 31) (samples : List ℚ) :
    onTimers conf samples = some (counted conf samples) := by
  induction samples using List.reverseRecOn with
  | nil => rfl
  | append_singleton samples cpu ih => rw [onTimers_concat, ih, Option.bind_some, onTimer_counted hok hmax]

/-! ## The levels -/

theorem dying_iff (henabled : conf.enabled = true) (hok : PulsesOk conf) (samples : List ℚ) :
    (counted conf samples).hybridDyingWaterLevel = true ↔ Dying conf samples := by
  have hpulse := hok.dying.1
  have hcap : conf.dyingPulse.toNat ≤ (conf.dyingPulse + 1).toNat := by omega
  have hstreak := Pulse.le_streak_iff hcap (hits conf.dyingThreshold samples)
  rw [rtake_hits, all_hits, hits, List.length_map] at hstreak
  rw [hybridDyingWaterLevel, show (counted conf samples).enabled = true from henabled, Bool.true_and,
    Bool.and_eq_true, bne_iff_ne, decide_eq_true_eq, Dying]
  show conf.dyingPulse ≠ 0 ∧ conf.dyingPulse ≤ ((hits conf.dyingThreshold samples).foldl _ 0 : Nat) ↔ _
  constructor
  · rintro ⟨hne, hle⟩
    obtain ⟨hlen, hall⟩ := hstreak.1 (by rw [hits] at hle; omega)
    exact ⟨by omega, by omega, hall⟩
  · rintro ⟨hpos, hlen, hall⟩
    have hle := hstreak.2 ⟨by omega, hall⟩
    exact ⟨by omega, by rw [hits]; omega⟩

theorem critical_iff (henabled : conf.enabled = true) (hok : PulsesOk conf) (samples : List ℚ) :
    (counted conf samples).hybridCriticalWaterLevel = true ↔ Critical conf samples := by
  have hhold := Pulse.hold_pos_iff (n := conf.criticalPulse.toNat) (hits conf.criticalThreshold samples)
  rw [rtake_hits, true_mem_hits] at hhold
  rw [hybridCriticalWaterLevel, show (counted conf samples).enabled = true from henabled, Bool.true_and,
    Bool.or_eq_true, dying_iff henabled hok, bne_iff_ne, Critical, ← hhold]
  refine or_congr_right ?_
  show ((hits conf.criticalThreshold samples).foldl _ 0 : Nat) ≠ (0 : Int) ↔ _
  omega

theorem high_iff (henabled : conf.enabled = true) (hok : PulsesOk conf) (samples : List ℚ) :
    (counted conf samples).hybridHighWaterLevel = true ↔ High conf samples := by
  have hhold := Pulse.hold_pos_iff (n := conf.highPulse.toNat) (hits conf.highThreshold samples)
  rw [rtake_hits, true_mem_hits] at hhold
  rw [hybridHighWaterLevel, show (counted conf samples).enabled = true from henabled, Bool.true_and,
    Bool.or_eq_true, critical_iff henabled hok, bne_iff_ne, High, ← hhold]
  refine or_congr_right ?_
  show ((hits conf.highThreshold samples).foldl _ 0 : Nat) ≠ (0 : Int) ↔ _
  omega

/-! ## The end of `int` -/

/-- Hits without end. -/
def busy (threshold : Int) (n : Nat) : List ℚ := List.replicate n (threshold + 1)

theorem onTimers_busy_succ (n : Nat) : onTimers conf (busy conf.dyingThreshold (n + 1)) =
    (onTimers conf (busy conf.dyingThreshold n)).bind (onTimer · (conf.dyingThreshold + 1)) := by
  rw [busy, List.replicate_succ', onTimers_concat]
  rfl

/-- Up to the pulse and one more, every hit is counted. -/
theorem level_busy {n : Nat} (hn : n ≤ conf.dyingPulse + 1) {b : SrsCircuitBreaker}
    (h : onTimers conf (busy conf.dyingThreshold n) = some b) :
    b.dyingWaterLevel = n ∧ b.toCircuitBreakerConf = conf := by
  induction n generalizing b with
  | zero =>
    obtain rfl : new conf = b := Option.some.inj h
    exact ⟨rfl, rfl⟩
  | succ n ih =>
    rw [onTimers_busy_succ, Option.bind_eq_some_iff] at h
    obtain ⟨b', hb', htimer⟩ := h
    obtain ⟨hlevel, rfl⟩ := ih (by omega) hb'
    obtain ⟨dying, hdying, hb⟩ := Option.bind_eq_some_iff.1 htimer
    obtain rfl := Option.some.inj hb
    refine ⟨show dying = _ from ?_, rfl⟩
    rw [count_hit (lt_add_one _)] at hdying
    obtain ⟨cap, hcap, hdying⟩ := Option.bind_eq_some_iff.1 hdying
    obtain ⟨next, hnext, hdying⟩ := Option.bind_eq_some_iff.1 hdying
    obtain rfl := (addInt_eq_some hcap).1
    obtain rfl := (addInt_eq_some hnext).1
    obtain rfl := Option.some.inj hdying
    omega

/-- `2 ^ 31` hits in a row are too many, if the pulse is one of the two largest numbers of type `int`. -/
theorem onTimers_overflows (hmax : 2 ^ 31 ≤ conf.dyingPulse + 2) :
    onTimers conf (busy conf.dyingThreshold (2 ^ 31)) = none := by
  rw [show 2 ^ 31 = 2 ^ 31 - 1 + 1 by norm_num, onTimers_busy_succ, Option.bind_eq_none_iff]
  intro b hb
  obtain ⟨hlevel, rfl⟩ := level_busy (by push_cast; omega) hb
  have hnext : addInt b.dyingWaterLevel 1 = none := by
    rw [addInt, hlevel]
    exact if_neg (by decide)
  refine Option.bind_eq_none_iff.2 fun dying hdying => ?_
  rw [count_hit (lt_add_one _), hnext] at hdying
  cases hcap : addInt b.dyingPulse 1 <;> rw [hcap] at hdying <;> cases hdying

/-- **The levels say what they are to say**, for every sequence of samples, exactly if the pulse of the
dying level is not one of the two last numbers of type `int`: the counter goes up to one more than the
pulse, and is compared with one more than that. -/
theorem levels_iff (henabled : conf.enabled = true) (hok : PulsesOk conf) :
    (∀ samples, Levels conf samples) ↔ conf.dyingPulse + 2 < 2 ^ 31 := by
  constructor
  · intro h
    by_contra hmax
    obtain ⟨b, hb, -⟩ := h (busy conf.dyingThreshold (2 ^ 31))
    rw [onTimers_overflows (by omega)] at hb
    cases hb
  · intro hmax samples
    exact ⟨counted conf samples, onTimers_eq hok hmax samples, dying_iff henabled hok samples,
      critical_iff henabled hok samples, high_iff henabled hok samples⟩

/-- The levels of the configuration without a file. -/
def defaultConf : CircuitBreakerConf := ⟨true, 90, 2, 95, 1, 99, 5⟩

theorem levels_iff_default :
    (∀ samples, Levels defaultConf samples) ↔ defaultConf.dyingPulse + 2 < 2 ^ 31 :=
  levels_iff rfl ⟨by decide, by decide, by decide⟩

/-- With the largest pulse there is, the counter overflows before the dying level is reported. -/
theorem not_levels_overflow :
    PulsesOk { defaultConf with dyingPulse := 2 ^ 31 - 1 } ∧
      ¬ Levels { defaultConf with dyingPulse := 2 ^ 31 - 1 } (List.replicate (2 ^ 31) (99 + 1)) := by
  refine ⟨⟨by decide, by decide, by decide⟩, ?_⟩
  rintro ⟨b, hb, -⟩
  have hbusy : ((List.replicate (2 ^ 31) (99 + 1) : List ℚ)) = busy (99 : Int) (2 ^ 31) := by
    rw [busy]
    norm_num
  rw [hbusy] at hb
  cases hb.symm.trans (onTimers_overflows (by decide))

end SrsCircuitBreaker

end HttpProxy
