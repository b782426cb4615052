import HttpProxy.Bytes.Basic
import Mathlib.Data.Nat.Digits.Defs
import Mathlib.Data.Nat.Digits.Lemmas
import Mathlib.Data.List.TakeWhile

/-!
# The C library functions the proxy calls on byte strings

`strtol` and its relatives, the `%x` conversion of `snprintf` and the narrowing
casts between integer types, for the LP64 data model the program is built for
(`int` has 32 bits, `long`, `long long`, `size_t` and `ssize_t` have 64).

A C string is given by its bytes without the terminating NUL; an embedded NUL
ends every conversion by itself, because it is no digit.

* `strtol` — leading white space, an optional sign, for base 16 an optional
  `0x`, then as many digits as there are; the value saturates and sets `errno`.
* `strtol_digits` — on a string of digits the whole string is converted, to the
  number the digits denote.
* `fmtX` — `%x`; `strtol_fmtX` says that `strtol` reads back what it writes.
-/

namespace HttpProxy

/-- The string that starts at the front of the memory: everything up to a NUL. -/
def cString (mem : Bytes) : Bytes := mem.takeWhile (· ≠ 0)

/-- The terminating NUL is not part of the string. -/
theorem cString_append_zero (mem rest : Bytes) : cString (mem ++ 0 :: rest) = cString mem := by
  unfold cString
  induction mem with
  | nil => simp
  | cons b mem ih =>
    rw [List.cons_append, List.takeWhile_cons, List.takeWhile_cons, ih]

theorem cString_eq_self {mem : Bytes} (h : 0 ∉ mem) : cString mem = mem := by
  unfold cString
  refine List.takeWhile_eq_self_iff.2 fun b hb => decide_eq_true ?_
  rintro rfl
  exact h hb

/-- `tolower`. -/
def tolower (b : Byte) : Byte := if 65 ≤ b ∧ b ≤ 90 then b + 32 else b

/-! ## Narrowing casts -/

/-- The cast `(int)x` of a wider integer. -/
def toInt32 (x : Int) : Int := Int.bmod x (2 ^ 32)

/-- The cast `(int64_t)x` of an unsigned 64-bit integer. -/
def toInt64 (x : Int) : Int := Int.bmod x (2 ^ 64)

/-- The cast `(size_t)x` of a signed integer. -/
def toSize (x : Int) : Nat := (x % 2 ^ 64).toNat

theorem toInt32_eq_self {x : Int} (h0 : 0 ≤ x) (h1 : x < 2 ^ 31) : toInt32 x = x := by
  rw [toInt32, Int.bmod]
  omega

/-- A value an `int` cannot hold comes out smaller by a multiple of `2 ^ 32`. -/
theorem toInt32_add_le {x : Int} (h : 2 ^ 31 ≤ x) : toInt32 x + 2 ^ 32 ≤ x := by
  rw [toInt32, Int.bmod]
  omega

theorem toInt32_le {x : Int} (h : 0 ≤ x) : toInt32 x ≤ x := by
  rw [toInt32, Int.bmod]
  omega

/-- The sum of two values of type `int`, `none` if an `int` does not hold it: what the program does then is
undefined. -/
def addInt (a b : Int) : Option Int := if -2 ^ 31 ≤ a + b ∧ a + b < 2 ^ 31 then some (a + b) else none

theorem addInt_eq {a b : Int} (h0 : 0 ≤ a + b) (h1 : a + b < 2 ^ 31) : addInt a b = some (a + b) :=
  if_pos ⟨by omega, h1⟩

theorem addInt_eq_some {a b c : Int} (h : addInt a b = some c) : a + b = c ∧ -2 ^ 31 ≤ c ∧ c < 2 ^ 31 := by
  rw [addInt, Option.ite_none_right_eq_some] at h
  obtain ⟨hrange, heq⟩ := h
  obtain rfl := Option.some.inj heq
  exact ⟨rfl, hrange⟩

/-- What a loop `for (int i = 0; i < (int)l.length(); i++)` goes over. -/
def intLoop {α : Type} (l : List α) : List α := l.take (toInt32 l.length).toNat

theorem intLoop_eq_self {α : Type} {l : List α} (h : l.length < 2 ^ 31) : intLoop l = l := by
  rw [intLoop, toInt32_eq_self (by omega) (by omega), Int.toNat_natCast, List.take_length]

theorem intLoop_map {α β : Type} (f : α → β) (l : List α) : intLoop (l.map f) = (intLoop l).map f := by
  rw [intLoop, List.length_map, ← List.map_take]
  rfl

/-- A loop gets to the last element only if an `int` counts the elements. -/
theorem length_lt_of_intLoop {α : Type} {l : List α} (h : (intLoop l).length = l.length) :
    l.length < 2 ^ 31 := by
  by_contra hlen
  have := toInt32_add_le (x := l.length) (by omega)
  rw [intLoop, List.length_take] at h
  omega

/-- A loop over a length that an `unsigned int` holds and an `int` does not goes over nothing. -/
theorem intLoop_eq_nil {α : Type} {l : List α} (h : 2 ^ 31 ≤ l.length) (hlt : l.length < 2 ^ 32) :
    intLoop l = [] := by
  have := toInt32_add_le (x := l.length) (by omega)
  rw [intLoop, List.take_eq_nil_iff]
  omega

theorem toSize_of_nonneg {x : Int} (h0 : 0 ≤ x) (h1 : x < 2 ^ 64) : (toSize x : Int) = x := by
  rw [toSize]
  omega

/-! ## Digits -/

/-- The value of a digit or letter, as `strtol` counts them. -/
def digitVal (b : Byte) : Option Nat :=
  if 48 ≤ b.toNat ∧ b.toNat ≤ 57 then some (b.toNat - 48)
  else if 97 ≤ b.toNat ∧ b.toNat ≤ 122 then some (b.toNat - 87)
  else if 65 ≤ b.toNat ∧ b.toNat ≤ 90 then some (b.toNat - 55)
  else none

/-- Is the byte a digit in the given base? -/
def isDigitIn (base : Nat) (b : Byte) : Bool :=
  match digitVal b with
  | some d => decide (d < base)
  | none => false

/-- `isxdigit`. -/
def isXDigit (b : Byte) : Bool := isDigitIn 16 b

/-- The number a string of digits denotes. -/
def digitsValue (base : Nat) (ds : Bytes) : Nat :=
  ds.foldl (fun acc b => acc * base + (digitVal b).getD 0) 0

/-- The white space `strtol` skips (`isspace` in the C locale). -/
def isSpace (b : Byte) : Bool := b == 32 || (9 ≤ b && b ≤ 13)

/-! ## `strtol` -/

/-- The outcome of `strtol`: the value, the number of bytes converted (`endptr -
nptr`) and whether `errno` was set. -/
structure StrtolResult where
  value : Int
  parsed : Nat
  erange : Bool
  deriving DecidableEq, Repr

/-- The sign at the front of a number: whether it is a minus, and its length. -/
def signOf : Bytes → Bool × Nat
  | 45 :: _ => (true, 1)
  | 43 :: _ => (false, 1)
  | _ => (false, 0)

/-- The length of the `0x` that base 16 allows in front of a digit. -/
def hexPrefixLen (base : Nat) : Bytes → Nat
  | 48 :: x :: d :: _ => if base = 16 ∧ (x = 120 ∨ x = 88) ∧ isXDigit d = true then 2 else 0
  | _ => 0

/-- Clamp a number to the range of `long`. -/
def clampLong (v : Int) : Int := max (-(2 ^ 63)) (min v (2 ^ 63 - 1))

/-- `strtol(nptr, &endptr, base)` for bases 10 and 16. -/
def strtol (base : Nat) (s : Bytes) : StrtolResult :=
  let ws := (s.takeWhile isSpace).length
  let sign := signOf (s.drop ws)
  let pre := hexPrefixLen base (s.drop (ws + sign.2))
  let digits := (s.drop (ws + sign.2 + pre)).takeWhile (isDigitIn base)
  if digits = [] then ⟨0, 0, false⟩
  else
    let v : Int := if sign.1 then -(digitsValue base digits) else digitsValue base digits
    ⟨clampLong v, ws + sign.2 + pre + digits.length, decide (clampLong v ≠ v)⟩

/-- `atoll(s)`. -/
def atoll (s : Bytes) : Int := (strtol 10 s).value

/-- `atoi(s)`, which is `(int)strtol(s, NULL, 10)`. -/
def atoi (s : Bytes) : Int := toInt32 (strtol 10 s).value

/-! ## `atof` -/

/-- The integer part of the double nearest to `num / den`, ties to even. -/
def truncDouble (num den : Nat) : Nat :=
  if num < den then if den * (2 ^ 54 - 1) ≤ num * 2 ^ 54 then 1 else 0
  else
    let e := Nat.log2 (num / den)
    let n := num * 2 ^ (52 - e)
    let d := den * 2 ^ (e - 52)
    let q := if d < 2 * (n % d) ∨ (2 * (n % d) = d ∧ n / d % 2 = 1) then n / d + 1 else n / d
    q * 2 ^ (e - 52) / 2 ^ (52 - e)

/-- The exponent at the front of `s`, introduced by `mark`; 0 if there is none. -/
def exponentOf (mark : Byte) : Bytes → Int
  | c :: s =>
      if c ||| 32 = mark then
        let sign := signOf s
        let ds := (s.drop sign.2).takeWhile (isDigitIn 10)
        if sign.1 then -(digitsValue 10 ds) else digitsValue 10 ds
      else 0
  | [] => 0

/-- The digits of a fraction, and the length of its text, if one follows. -/
def fractionOf (base : Nat) : Bytes → Bytes × Nat
  | 46 :: s => (s.takeWhile (isDigitIn base), 1 + (s.takeWhile (isDigitIn base)).length)
  | _ => ([], 0)

/-- `(int64_t)atof(s)`.  A double outside of the range of `int64_t` (an infinity
and a NaN are such) is converted to the smallest `int64_t`, as the processor
does it. -/
def atofInt64 (s : Bytes) : Int :=
  let s1 := s.dropWhile isSpace
  let sign := signOf s1
  let s2 := s1.drop sign.2
  let name := (s2.take 3).map (· ||| 32)
  if name = str "inf" ∨ name = str "nan" then -(2 ^ 63)
  else
    let pre := hexPrefixLen 16 s2
    let base := if pre = 0 then 10 else 16
    let s3 := s2.drop pre
    let whole := s3.takeWhile (isDigitIn base)
    let frac := fractionOf base (s3.drop whole.length)
    if whole = [] ∧ frac.1 = [] then 0
    else
      let s4 := s3.drop (whole.length + frac.2)
      let m := digitsValue base (whole ++ frac.1)
      let e := if base = 10 then exponentOf 101 s4 else exponentOf 112 s4
      let scale := if base = 10 then 10 else 2
      let v := truncDouble (m * scale ^ e.toNat) (base ^ frac.1.length * scale ^ (-e).toNat)
      if sign.1 then if v ≤ 2 ^ 63 then -v else -(2 ^ 63)
      else if v < 2 ^ 63 then v else -(2 ^ 63)

/-! ### Strings of digits -/

theorem not_isSpace_of_isDigitIn {base : Nat} {b : Byte} (h : isDigitIn base b = true) :
    isSpace b = false := by
  rw [isDigitIn, digitVal] at h
  rw [isSpace, Bool.or_eq_false_iff]
  have h32 : b.toNat ≠ 32 := by intro hc; simp [hc] at h
  have h13 : ¬ b.toNat ≤ 13 := by
    intro hc
    have h1 : ¬ (48 ≤ b.toNat ∧ b.toNat ≤ 57) := by omega
    have h2 : ¬ (97 ≤ b.toNat ∧ b.toNat ≤ 122) := by omega
    have h3 : ¬ (65 ≤ b.toNat ∧ b.toNat ≤ 90) := by omega
    simp [h1, h2, h3] at h
  constructor
  · rw [beq_eq_false_iff_ne]
    rintro rfl
    exact h32 rfl
  · rw [Bool.and_eq_false_iff]
    refine Or.inr (decide_eq_false ?_)
    rw [UInt8.le_iff_toNat_le]
    exact h13

theorem signOf_of_isDigitIn {base : Nat} {b : Byte} (h : isDigitIn base b = true) (s : Bytes) :
    signOf (b :: s) = (false, 0) := by
  have h45 : b ≠ 45 := by rintro rfl; simp [isDigitIn, digitVal] at h
  have h43 : b ≠ 43 := by rintro rfl; simp [isDigitIn, digitVal] at h
  unfold signOf
  split
  · rename_i heq; exact absurd (List.cons.inj heq).1 h45
  · rename_i heq; exact absurd (List.cons.inj heq).1 h43
  · rfl

theorem hexPrefixLen_of_digits {s : Bytes} (h : ∀ b ∈ s, isXDigit b = true) :
    hexPrefixLen 16 s = 0 := by
  unfold hexPrefixLen
  split
  · rename_i x d t
    have hx : isXDigit x = true := h x (by simp)
    rw [if_neg]
    rintro ⟨-, rfl | rfl, -⟩
    · exact absurd hx (by decide)
    · exact absurd hx (by decide)
  · rfl

/-- A string of hexadecimal digits is converted as a whole. -/
theorem strtol_digits {s : Bytes} (hne : s ≠ []) (h : ∀ b ∈ s, isXDigit b = true) :
    strtol 16 s = ⟨clampLong (digitsValue 16 s), s.length,
      decide (clampLong (digitsValue 16 s) ≠ digitsValue 16 s)⟩ := by
  obtain ⟨b, t, rfl⟩ := List.exists_cons_of_ne_nil hne
  have hb : isDigitIn 16 b = true := h b (by simp)
  have hws : (b :: t).takeWhile isSpace = [] := by
    simp [List.takeWhile, not_isSpace_of_isDigitIn hb]
  have htw : (b :: t).takeWhile (isDigitIn 16) = b :: t := List.takeWhile_eq_self_iff.2 h
  rw [strtol]
  simp only [hws, List.length_nil, List.drop_zero, signOf_of_isDigitIn hb, Nat.zero_add,
    hexPrefixLen_of_digits h, htw]
  simp

/-- `atoll` converts the digits at the front. -/
theorem atoll_digits {ds rest : Bytes} (hne : ds ≠ []) (h : ∀ b ∈ ds, isDigitIn 10 b = true)
    (hrest : ∀ b ∈ rest, isDigitIn 10 b = false) :
    atoll (ds ++ rest) = clampLong (digitsValue 10 ds) := by
  obtain ⟨b, t, rfl⟩ := List.exists_cons_of_ne_nil hne
  have hb : isDigitIn 10 b = true := h b (by simp)
  have hws : (b :: t ++ rest).takeWhile isSpace = [] := by
    simp [not_isSpace_of_isDigitIn hb]
  have hpre : hexPrefixLen 10 (b :: t ++ rest) = 0 := by
    unfold hexPrefixLen
    split
    · rw [if_neg (by simp)]
    · rfl
  have htw : (b :: t ++ rest).takeWhile (isDigitIn 10) = b :: t := by
    rw [List.takeWhile_append_of_pos h]
    cases rest with
    | nil => simp
    | cons c cs => simp [List.takeWhile, hrest c (by simp)]
  have hsign : signOf (b :: t ++ rest) = (false, 0) := signOf_of_isDigitIn hb (t ++ rest)
  rw [atoll, strtol]
  simp only [hws, List.length_nil, List.drop_zero, hsign, Nat.zero_add, hpre, htw]
  simp

theorem atoll_lt (s : Bytes) : atoll s < 2 ^ 63 := by
  have hclamp : ∀ v, clampLong v < 2 ^ 63 := fun v => by
    rw [clampLong]
    omega
  rw [atoll, strtol]
  simp only
  split
  · decide
  · exact hclamp _

theorem clampLong_eq_self {v : Int} (h0 : 0 ≤ v) (h1 : v < 2 ^ 63) : clampLong v = v := by
  rw [clampLong]
  omega

/-! ## `%x` -/

/-- The character of a hexadecimal digit. -/
def hexDigit (d : Nat) : Byte := if d < 10 then UInt8.ofNat (48 + d) else UInt8.ofNat (87 + d)

/-- `snprintf(.., "%x", n)`. -/
def fmtX (n : Nat) : Bytes :=
  if n = 0 then [48] else ((Nat.digits 16 n).map hexDigit).reverse

theorem digitVal_hexDigit {d : Nat} (h : d < 16) : digitVal (hexDigit d) = some d := by
  have : ∀ d : Fin 16, digitVal (hexDigit d) = some d := by decide
  exact this ⟨d, h⟩

theorem isXDigit_hexDigit {d : Nat} (h : d < 16) : isXDigit (hexDigit d) = true := by
  simp [isXDigit, isDigitIn, digitVal_hexDigit h, h]

theorem fmtX_isXDigit (n : Nat) : ∀ b ∈ fmtX n, isXDigit b = true := by
  intro b hb
  rw [fmtX] at hb
  split at hb
  · rw [List.mem_singleton.1 hb]; decide
  · obtain ⟨d, hd, rfl⟩ := List.mem_map.1 (List.mem_reverse.1 hb)
    exact isXDigit_hexDigit (Nat.digits_lt_base (by norm_num) hd)

theorem fmtX_ne_nil (n : Nat) : fmtX n ≠ [] := by
  rw [fmtX]
  split
  · simp
  · rename_i h
    simpa using Nat.digits_ne_nil_iff_ne_zero.2 h

theorem digitsValue_append (base : Nat) (xs : Bytes) (b : Byte) :
    digitsValue base (xs ++ [b]) = digitsValue base xs * base + (digitVal b).getD 0 := by
  simp [digitsValue]

theorem digitsValue_reverse_map_hexDigit {base : Nat} {ds : List Nat} (h : ∀ d ∈ ds, d < 16) :
    digitsValue base (ds.map hexDigit).reverse = Nat.ofDigits base ds := by
  induction ds with
  | nil => rfl
  | cons d ds ih =>
    rw [List.map_cons, List.reverse_cons, digitsValue_append,
      ih (fun x hx => h x (by simp [hx])), digitVal_hexDigit (h d (by simp)), Nat.ofDigits_cons]
    simp
    ring

theorem digitsValue_fmtX (n : Nat) : digitsValue 16 (fmtX n) = n := by
  rw [fmtX]
  split
  · rename_i h; rw [h]; rfl
  · rw [digitsValue_reverse_map_hexDigit (fun d hd => Nat.digits_lt_base (by norm_num) hd),
      Nat.ofDigits_digits]

/-- A number below `2 ^ 31` takes at most eight hexadecimal digits. -/
theorem fmtX_length_le {n : Nat} (h : n < 2 ^ 31) : (fmtX n).length ≤ 8 := by
  rw [fmtX]
  split
  · simp
  · rename_i h0
    rw [List.length_reverse, List.length_map, Nat.digits_length_le_iff (by norm_num)]
    omega

/-- `strtol` reads back what `%x` writes. -/
theorem strtol_fmtX {n : Nat} (h : n < 2 ^ 63) : strtol 16 (fmtX n) = ⟨n, (fmtX n).length, false⟩ := by
  rw [strtol_digits (fmtX_ne_nil n) (fmtX_isXDigit n), digitsValue_fmtX,
    clampLong_eq_self (by omega) (by omega)]
  simp

end HttpProxy
