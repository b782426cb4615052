import Mathlib.Tactic
import Mathlib.Data.Bool.AllAny
import Mathlib.Data.List.Infix

/-!
# Byte strings

Everything the proxy handles is a string of bytes, so this file fixes the
representation once and proves the few facts about searching in such a string
that the rest of the development rests on.

* `str` — the bytes of an ASCII literal, evaluated by `decide` and `rfl`.
* `findSub` — the position of the first occurrence of a pattern, which is
  `std::string::find` as well as every hand-written scan for a line end;
  `findSub_eq_some_iff` says what the position means, `findSub_append` that more
  bytes behind a match do not move it, and `findSub_eq_none_iff` what it means
  that there is none.
* `textLines` — the lines of a text; `textLines_cons` takes the first one off.
-/

namespace HttpProxy

/-- One byte of a message. -/
abbrev Byte := UInt8

/-- A byte string. -/
abbrev Bytes := List Byte

/-- The bytes of an ASCII literal. -/
def str (s : String) : Bytes := s.toByteArray.data.toList

/-- Carriage return, `'\r'`. -/
def CR : Byte := 13

/-- Line feed, `'\n'`. -/
def LF : Byte := 10

/-- The end of a line on the wire. -/
def crlf : Bytes := [CR, LF]

/-- The end of a header section written with proper line ends. -/
def crlfcrlf : Bytes := [CR, LF, CR, LF]

@[simp] theorem crlf_length : crlf.length = 2 := rfl

@[simp] theorem crlfcrlf_length : crlfcrlf.length = 4 := rfl

/-- What holds of the 256 bytes, one by one, holds of every byte. -/
theorem forall_byte {P : Byte → Prop} (h : ∀ n : Fin 256, P (UInt8.ofFin n)) (b : Byte) : P b :=
  h b.toFin

/-- No byte of a text is one that the text does not have. -/
theorem bne_of_notMem {c : Byte} {l : Bytes} (h : c ∉ l) : ∀ b ∈ l, (b != c) = true := by
  intro b hb
  rw [bne_iff_ne]
  rintro rfl
  exact h hb

/-! ## Lines -/

/-- The lines of a text that end with CRLF; `cur` is the start of the first one. -/
def textLines : Bytes → Bytes → List Bytes
  | _, [] => []
  | _, [_] => []
  | cur, a :: b :: rest =>
      if a = CR ∧ b = LF then cur :: textLines [] rest else textLines (cur ++ [a]) (b :: rest)

theorem textLines_cons {line : Bytes} (h : CR ∉ line) (cur rest : Bytes) :
    textLines cur (line ++ (crlf ++ rest)) = (cur ++ line) :: textLines [] rest := by
  induction line generalizing cur with
  | nil => simp [textLines, crlf]
  | cons a line ih =>
    rw [List.mem_cons, not_or] at h
    have hrest := ih h.2 (cur ++ [a])
    rw [List.append_assoc, List.singleton_append] at hrest
    cases hl : line ++ (crlf ++ rest) with
    | nil => simp [crlf] at hl
    | cons b l =>
      rw [hl] at hrest
      rw [List.cons_append, hl, textLines, if_neg fun hc => h.1 hc.1.symm, hrest]

/-! ## Searching -/

section Search

variable {α : Type} [DecidableEq α]

/-- The position of the first occurrence of `pat`. -/
def findSub (pat : List α) : List α → Option Nat
  | [] => if pat = [] then some 0 else none
  | c :: cs => if pat.isPrefixOf (c :: cs) then some 0 else (findSub pat cs).map (· + 1)

theorem findSub_eq_some_iff {pat l : List α} {k : Nat} :
    findSub pat l = some k ↔
      (k ≤ l.length ∧ pat <+: l.drop k) ∧ ∀ j < k, ¬ pat <+: l.drop j := by
  induction l generalizing k with
  | nil =>
    by_cases hp : pat = []
    · subst hp
      simp only [findSub, if_true, Option.some.injEq, List.length_nil, Nat.le_zero,
        List.nil_prefix, and_true, not_true_eq_false, imp_false, not_lt]
      constructor
      · rintro rfl; exact ⟨rfl, fun _ => Nat.zero_le _⟩
      · exact fun h => h.1.symm
    · simp [findSub, hp, List.prefix_nil]
  | cons c cs ih =>
    rw [findSub]
    by_cases hpre : pat.isPrefixOf (c :: cs) = true
    · rw [if_pos hpre]
      rw [List.isPrefixOf_iff_prefix] at hpre
      constructor
      · intro h
        cases h
        exact ⟨⟨Nat.zero_le _, hpre⟩, fun j hj => absurd hj (Nat.not_lt_zero j)⟩
      · rintro ⟨-, hmin⟩
        rcases Nat.eq_zero_or_pos k with rfl | hk
        · rfl
        · exact absurd hpre (hmin 0 hk)
    · rw [if_neg hpre]
      rw [List.isPrefixOf_iff_prefix] at hpre
      rw [Option.map_eq_some_iff]
      constructor
      · rintro ⟨m, hm, rfl⟩
        obtain ⟨⟨hle, hat⟩, hmin⟩ := ih.1 hm
        refine ⟨⟨by simpa using hle, by simpa using hat⟩, ?_⟩
        intro j hj
        cases j with
        | zero => exact hpre
        | succ j => simpa using hmin j (by omega)
      · rintro ⟨⟨hle, hat⟩, hmin⟩
        cases k with
        | zero => exact absurd hat hpre
        | succ m =>
          refine ⟨m, ih.2 ⟨⟨by simpa using hle, by simpa using hat⟩, ?_⟩, rfl⟩
          intro j hj
          simpa using hmin (j + 1) (by omega)

theorem findSub_eq_none_iff {pat l : List α} (hp : pat ≠ []) :
    findSub pat l = none ↔ ∀ j, ¬ pat <+: l.drop j := by
  induction l with
  | nil => simp [findSub, hp, List.prefix_nil]
  | cons c cs ih =>
    rw [findSub]
    by_cases hpre : pat.isPrefixOf (c :: cs) = true
    · rw [if_pos hpre]
      rw [List.isPrefixOf_iff_prefix] at hpre
      exact ⟨fun h => absurd h (by simp), fun h => absurd hpre (h 0)⟩
    · rw [if_neg hpre, Option.map_eq_none_iff, ih]
      rw [List.isPrefixOf_iff_prefix] at hpre
      constructor
      · intro h j
        cases j with
        | zero => exact hpre
        | succ j => simpa using h j
      · intro h j
        simpa using h (j + 1)

/-- The match lies inside the string. -/
theorem findSub_add_length_le {pat l : List α} {k : Nat} (h : findSub pat l = some k) :
    k + pat.length ≤ l.length := by
  obtain ⟨⟨hle, hat⟩, -⟩ := findSub_eq_some_iff.1 h
  have := hat.length_le
  rw [List.length_drop] at this
  omega

/-- Bytes behind a match do not move it. -/
theorem findSub_append {pat l : List α} {k : Nat} (h : findSub pat l = some k) (m : List α) :
    findSub pat (l ++ m) = some k := by
  have hlen := findSub_add_length_le h
  obtain ⟨⟨hle, hat⟩, hmin⟩ := findSub_eq_some_iff.1 h
  refine findSub_eq_some_iff.2 ⟨⟨by simp; omega, ?_⟩, ?_⟩
  · rw [List.drop_append_of_le_length hle]
    exact hat.trans (List.prefix_append _ _)
  · intro j hj hc
    refine hmin j hj ?_
    rw [List.drop_append_of_le_length (by omega)] at hc
    exact List.prefix_of_prefix_length_le hc (List.prefix_append _ _)
      (by rw [List.length_drop]; omega)

/-- What a successful search says about the string: the bytes before the match,
the match, and the bytes behind it. -/
theorem findSub_split {pat l : List α} {k : Nat} (h : findSub pat l = some k) :
    l = l.take k ++ pat ++ l.drop (k + pat.length) := by
  obtain ⟨⟨-, t, ht⟩, -⟩ := findSub_eq_some_iff.1 h
  have hdrop : l.drop (k + pat.length) = t := by
    rw [← List.drop_drop, ← ht, List.drop_left]
  rw [hdrop, List.append_assoc, ht, List.take_append_drop]

/-- The first occurrence of a pattern whose first letter does not occur before. -/
theorem findSub_of_head_notMem {c : α} {pat l m : List α} (h : c ∉ l) :
    findSub (c :: pat) (l ++ (c :: pat) ++ m) = some l.length := by
  refine findSub_eq_some_iff.2 ⟨⟨by simp, ?_⟩, ?_⟩
  · rw [List.append_assoc, List.drop_left]
    exact List.prefix_append _ _
  · intro j hj hc
    rw [List.append_assoc, List.drop_append_of_le_length (by omega)] at hc
    rw [List.drop_eq_getElem_cons hj] at hc
    have := (List.cons_prefix_cons.1 hc).1
    exact h (this ▸ List.getElem_mem hj)

end Search

end HttpProxy
