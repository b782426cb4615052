import HttpProxy.Control.Loop
import HttpProxy.Message.Uri

/-!
# Replacing and splitting

The loops of `srs_string_replace` and `srs_string_split` (`src/kernel/srs_kernel_utility.cpp`) with
the positions they keep: the one edits the text that it searches, the other only reads it.

* `Mirrors.turn` — the two loops go in step.
* `srsStringReplaceIn_eq` — replacing joins the pieces with the new text.
* `srsStringSplitIn_eq`, `srsStringReplaceIn_eq_rest` — the functions on what is left of the text,
  which the other modules use, are these loops.
-/

namespace HttpProxy

/-- `s.find(pat, pos)`. -/
def findFrom (pat s : Bytes) (pos : Nat) : Option Nat :=
  if pos ≤ s.length then (findSub pat (s.drop pos)).map (pos + ·) else none

variable {s old new sep : Bytes} {pos k n : Nat}

theorem findFrom_eq_some (h : findFrom sep s pos = some k) :
    ∃ j, findSub sep (s.drop pos) = some j ∧ k = pos + j ∧ k + sep.length ≤ s.length := by
  unfold findFrom at h
  split at h
  · rename_i hpos
    obtain ⟨j, hj, rfl⟩ := Option.map_eq_some_iff.1 h
    have hle := findSub_add_length_le hj
    rw [List.length_drop] at hle
    exact ⟨j, hj, rfl, by omega⟩
  · cases h

/-- Behind a text that is done, the search finds what it finds in the rest. -/
theorem findFrom_append (a b : Bytes) (pat : Bytes) :
    findFrom pat (a ++ b) a.length = (findSub pat b).map (a.length + ·) := by
  rw [findFrom, if_pos (by simp), List.drop_left]

/-! ## The loops -/

/-- The variables of the loop of `srs_string_split`, `none` for `npos`. -/
structure Splitting where
  result : List Bytes
  posBegin : Nat
  posSeperator : Option Nat

namespace Splitting

/-- In front of the loop. -/
def start (s sep : Bytes) : Splitting := ⟨[], 0, findFrom sep s 0⟩

/-- A turn of the loop. -/
def turn (s sep : Bytes) (p : Splitting) : Option Splitting :=
  p.posSeperator.map fun k =>
    { result := p.result ++ [(s.drop p.posBegin).take (k - p.posBegin)]
      posBegin := k + sep.length
      posSeperator := findFrom sep s (k + sep.length) }

/-- What is returned: the last element is pushed. -/
def pieces (s : Bytes) (p : Splitting) : List Bytes := p.result ++ [s.drop p.posBegin]

/-- In front of a turn the next separator is the first one in what is left. -/
def Inside (s sep : Bytes) (p : Splitting) : Prop :=
  p.posBegin ≤ s.length ∧ p.posSeperator = findFrom sep s p.posBegin

end Splitting

/-- `srs_string_split(s, seperator)`, if the loop ends in fewer than `n` turns. -/
def srsStringSplitIn (n : Nat) (s sep : Bytes) : Option (List Bytes) :=
  if sep = [] then some [s]
  else (loop (Splitting.turn s sep) n (Splitting.start s sep)).map (Splitting.pieces s)

/-- The variables of the loop of `srs_string_replace`. -/
structure Replacing where
  ret : Bytes
  pos : Nat

namespace Replacing

/-- A turn of the loop. -/
def turn (old new : Bytes) (r : Replacing) : Option Replacing :=
  (findFrom old r.ret r.pos).map fun pos =>
    { ret := r.ret.take pos ++ new ++ r.ret.drop (pos + old.length), pos := pos + new.length }

end Replacing

/-- `srs_string_replace(str, old_str, new_str)`, if the loop ends in fewer than `n` turns. -/
def srsStringReplaceIn (n : Nat) (s old new : Bytes) : Option Bytes :=
  if old = new then some s else (loop (Replacing.turn old new) n ⟨s, 0⟩).map Replacing.ret

/-! ## In step -/

/-- The text that is edited is the pieces so far, each with the new text behind it, and then the rest
of the text that is split; the search goes on at the rest. -/
structure Mirrors (s old new : Bytes) (r : Replacing) (p : Splitting) : Prop where
  inside : p.Inside s old
  ret_eq : r.ret = p.result.flatMap (· ++ new) ++ s.drop p.posBegin
  pos_eq : r.pos = (p.result.flatMap (· ++ new)).length

namespace Mirrors

variable {r : Replacing} {p : Splitting}

theorem start (s old new : Bytes) : Mirrors s old new ⟨s, 0⟩ (Splitting.start s old) :=
  ⟨⟨Nat.zero_le _, rfl⟩, rfl, rfl⟩

/-- The rest of the edited text is the rest of the text that is split. -/
theorem drop_pos (h : Mirrors s old new r p) : r.ret.drop r.pos = s.drop p.posBegin := by
  rw [h.ret_eq, h.pos_eq, List.drop_left]

/-- One search finds what the other finds. -/
theorem turn (h : Mirrors s old new r p) :
    Option.Rel (Mirrors s old new) (r.turn old new) (p.turn s old) := by
  obtain ⟨⟨hle, hsearch⟩, hret, hpos⟩ := h
  set before := p.result.flatMap (· ++ new) with hbefore
  set rest := s.drop p.posBegin with hrest
  have hfind : findFrom old r.ret r.pos = (findSub old rest).map (before.length + ·) := by
    rw [hret, hpos, findFrom_append]
  have hfind' : p.posSeperator = (findSub old rest).map (p.posBegin + ·) := by
    rw [hsearch, findFrom, if_pos hle]
  rw [Replacing.turn, Splitting.turn, hfind, hfind']
  cases hsub : findSub old rest with
  | none => exact Option.Rel.none
  | some j =>
    have hj := findSub_add_length_le hsub
    rw [hrest, List.length_drop] at hj
    refine Option.Rel.some ⟨⟨by dsimp only; omega, rfl⟩, ?_, ?_⟩
    · have htake : (before ++ rest).take (before.length + j) = before ++ rest.take j := by
        rw [List.take_append, List.take_of_length_le (by omega), Nat.add_sub_cancel_left]
      have hdrop : (before ++ rest).drop (before.length + j + old.length) = rest.drop (j + old.length) := by
        rw [Nat.add_assoc, ← List.drop_drop, List.drop_left]
      have hsame : s.drop (p.posBegin + j + old.length) = rest.drop (j + old.length) := by
        rw [hrest, List.drop_drop, Nat.add_assoc]
      dsimp only
      rw [hret, htake, hdrop, hsame, List.flatMap_append, ← hbefore, List.flatMap_singleton,
        Nat.add_sub_cancel_left, ← hrest]
      simp only [List.append_assoc]
    · dsimp only
      rw [List.flatMap_append, ← hbefore, List.flatMap_singleton, Nat.add_sub_cancel_left]
      simp only [List.length_append, List.length_take, List.length_drop]
      omega

end Mirrors

/-- The pieces joined with a text: every piece but the last has it behind it. -/
theorem intercalate_concat {α : Type} (new last : List α) (front : List (List α)) :
    new.intercalate (front ++ [last]) = front.flatMap (· ++ new) ++ last := by
  induction front with
  | nil => exact List.intercalate_singleton
  | cons piece front ih =>
    have hne : front ++ [last] ≠ [] := List.append_ne_nil_of_right_ne_nil _ (List.cons_ne_nil _ _)
    rw [List.cons_append, List.intercalate_cons_of_ne_nil hne, ih, List.flatMap_cons, ← List.append_assoc]

/-! ## The results -/

/-- Every turn of the splitting loop takes a separator off what is left. -/
theorem Splitting.turn_decreases {p p' : Splitting} (hsep : sep ≠ []) (hI : p.Inside s sep)
    (h : p.turn s sep = some p') : p'.Inside s sep ∧ s.length - p'.posBegin < s.length - p.posBegin := by
  obtain ⟨hle, hsearch⟩ := hI
  obtain ⟨k, hk, rfl⟩ := Option.map_eq_some_iff.1 h
  rw [hsearch] at hk
  obtain ⟨j, -, rfl, hlen⟩ := findFrom_eq_some hk
  have hpos := List.length_pos_iff.2 hsep
  exact ⟨⟨hlen, rfl⟩, by dsimp only; omega⟩

/-- Replacing a text by itself changes nothing. -/
theorem Replacing.turn_self {r r' : Replacing} (h : r.turn old old = some r') : r'.ret = r.ret := by
  obtain ⟨k, hk, rfl⟩ := Option.map_eq_some_iff.1 h
  obtain ⟨j, hj, rfl, -⟩ := findFrom_eq_some hk
  have hsplit := findSub_split hj
  rw [List.drop_drop] at hsplit
  calc r.ret.take (r.pos + j) ++ old ++ r.ret.drop (r.pos + j + old.length)
      = r.ret.take r.pos ++ ((r.ret.drop r.pos).take j ++ old ++ r.ret.drop (r.pos + (j + old.length))) := by
        rw [List.take_add, Nat.add_assoc]
        simp only [List.append_assoc]
    _ = r.ret := by rw [← hsplit, List.take_append_drop]

/-- Both loops end within the length of the text, and the edited text is the pieces joined. -/
theorem loops_end (hold : old ≠ []) (s new : Bytes) :
    ∃ r p, loop (Replacing.turn old new) (s.length + 1) ⟨s, 0⟩ = some r ∧
      loop (Splitting.turn s old) (s.length + 1) (Splitting.start s old) = some p ∧
      r.ret = new.intercalate (p.pieces s) := by
  have hends : ∃ p, loop (Splitting.turn s old) (s.length + 1) (Splitting.start s old) = some p :=
    loop_ends (fun p : Splitting => s.length - p.posBegin) (fun _ _ => Splitting.turn_decreases hold)
      ⟨Nat.zero_le _, rfl⟩
  obtain ⟨p, hp⟩ := hends
  have hrel := loop_rel (fun _ _ => Mirrors.turn) (Mirrors.start s old new) (s.length + 1)
  rw [hp] at hrel
  generalize hr : loop (Replacing.turn old new) (s.length + 1) ⟨s, 0⟩ = last at hrel
  cases hrel with
  | some h => exact ⟨_, p, rfl, hp, by rw [h.ret_eq, Splitting.pieces, intercalate_concat]⟩

/-- `srs_string_replace` joins the pieces of `srs_string_split` with the new text; what it searches
is always what is left of the text at the start. -/
theorem srsStringReplaceIn_eq (hold : old ≠ []) (s new : Bytes) :
    (∃ n pieces, srsStringSplitIn n s old = some pieces ∧
      srsStringReplaceIn n s old new = some (new.intercalate pieces)) ∧
    ∀ r, PassesThrough (Replacing.turn old new) ⟨s, 0⟩ r → r.ret.drop r.pos <:+ s := by
  refine ⟨⟨s.length + 1, ?_⟩, ?_⟩
  · obtain ⟨r, p, hr, hp, hret⟩ := loops_end hold s new
    refine ⟨p.pieces s, by rw [srsStringSplitIn, if_neg hold, hp]; rfl, ?_⟩
    rw [srsStringReplaceIn]
    split
    · rename_i heq
      subst heq
      have hsame : r.ret = s :=
        (passes_of_loop hr).1.invariant (I := fun r => r.ret = s)
          (fun _ _ hI hturn => (Replacing.turn_self hturn).trans hI) rfl
      rw [← hret, hsame]
    · rw [hr, Option.map_some, hret]
  · intro r hpass
    obtain ⟨p, -, h⟩ := passes_rel (fun _ _ => Mirrors.turn) (Mirrors.start s old new) hpass
    rw [h.drop_pos]
    exact List.drop_suffix _ _

/-- A new text that has the old one in it. -/
theorem srsStringReplaceIn_cabaa :
    (∃ n pieces, srsStringSplitIn n (str "cabaa") (str "a") = some pieces ∧
      srsStringReplaceIn n (str "cabaa") (str "a") (str "aa") = some ((str "aa").intercalate pieces)) ∧
    ∀ r, PassesThrough (Replacing.turn (str "a") (str "aa")) ⟨str "cabaa", 0⟩ r →
      r.ret.drop r.pos <:+ str "cabaa" :=
  srsStringReplaceIn_eq (by decide) (str "cabaa") (str "aa")

example : srsStringReplaceIn 3 (str "url: %URL%") (str "%URL%") (str "example.com") =
    some (str "url: example.com") := by decide

/-! ## The functions on the rest of the text -/

/-- The loop of `srs_string_split` from some turn on. -/
theorem splitting_eq_splitLoop {p last : Splitting} (hsep : sep ≠ []) (hI : p.Inside s sep) (m : Nat)
    (hm : s.length - p.posBegin ≤ m) (h : loop (Splitting.turn s sep) n p = some last) :
    last.pieces s = p.result ++ splitLoop sep m (s.drop p.posBegin) := by
  induction n generalizing p m with
  | zero => cases h
  | succ n ih =>
    obtain ⟨hle, hsearch⟩ := hI
    have hfind : p.posSeperator = (findSub sep (s.drop p.posBegin)).map (p.posBegin + ·) := by
      rw [hsearch, findFrom, if_pos hle]
    rw [loop] at h
    cases hsub : findSub sep (s.drop p.posBegin) with
    | none =>
      rw [Splitting.turn, hfind, hsub] at h
      cases h
      cases m with
      | zero => rfl
      | succ m => rw [splitLoop, hsub]; rfl
    | some j =>
      have hj := findSub_add_length_le hsub
      rw [List.length_drop] at hj
      have hpos := List.length_pos_iff.2 hsep
      obtain ⟨m, rfl⟩ : ∃ m', m = m' + 1 := ⟨m - 1, by omega⟩
      rw [Splitting.turn, hfind, hsub] at h
      have hrest := ih ⟨by dsimp only; omega, rfl⟩ m (by dsimp only; omega) h
      rw [hrest, splitLoop, hsub]
      dsimp only
      rw [Nat.add_sub_cancel_left, List.drop_drop, Nat.add_assoc, List.append_assoc, List.singleton_append]

/-- `srs_string_split` ends, and its pieces are those of the function on the rest. -/
theorem srsStringSplitIn_eq (s sep : Bytes) :
    srsStringSplitIn (s.length + 1) s sep = some (srsStringSplit s sep) := by
  rw [srsStringSplitIn, srsStringSplit]
  split
  · rfl
  · rename_i hsep
    obtain ⟨-, p, -, hp, -⟩ := loops_end hsep s []
    rw [hp, Option.map_some,
      splitting_eq_splitLoop hsep ⟨Nat.zero_le _, rfl⟩ s.length (Nat.sub_le _ _) hp]
    rfl

theorem replaceLoop_eq (old new : Bytes) (n : Nat) (s : Bytes) :
    replaceLoop old new n s = new.intercalate (splitLoop old n s) := by
  induction n generalizing s with
  | zero => exact List.intercalate_singleton.symm
  | succ n ih =>
    rw [replaceLoop, splitLoop]
    cases findSub old s with
    | none => exact List.intercalate_singleton.symm
    | some k =>
      have hne : splitLoop old n (s.drop (k + old.length)) ≠ [] := by
        cases n with
        | zero => exact List.cons_ne_nil _ _
        | succ n => rw [splitLoop]; split <;> exact List.cons_ne_nil _ _
      dsimp only
      rw [List.intercalate_cons_of_ne_nil hne, ih]

/-- `srs_string_replace` ends with the text of the function on the rest. -/
theorem srsStringReplaceIn_eq_rest (hold : old ≠ []) (s new : Bytes) :
    srsStringReplaceIn (s.length + 1) s old new = some (srsStringReplace s old new) := by
  rw [srsStringReplaceIn, srsStringReplace]
  split
  · rfl
  · obtain ⟨r, p, hr, hp, hret⟩ := loops_end hold s new
    rw [hr, Option.map_some, hret,
      splitting_eq_splitLoop hold ⟨Nat.zero_le _, rfl⟩ s.length (Nat.sub_le _ _) hp, replaceLoop_eq]
    rfl

end HttpProxy
