import Mathlib.Tactic
import Mathlib.Order.RelClasses

/-!
# Finite maps in key order

`std::map` as an association list with strictly increasing keys: a map is its
list of entries, two maps with the same entries are equal, and iteration goes
over the entries in key order.

* `find?`, `insert`, `erase` — the operations; `insert` replaces the value of a
  key that is there, as `m[k] = v` does.
* `find?_insert_self`, `find?_insert_of_ne`, `find?_erase_of_ne` — what a lookup
  sees after an update.
* `ofList_perm`, `nodup_of_ofList_length` — a map holds what was inserted exactly when no
  key was inserted twice.
-/

namespace HttpProxy

/-- A finite map, kept in the order of its keys. -/
structure OrdMap (α β : Type) [LT α] where
  entries : List (α × β)
  sorted : entries.Pairwise fun a b => a.1 < b.1

namespace OrdMap

variable {α β : Type} [LT α]

theorem ext_entries {m m' : OrdMap α β} (h : m.entries = m'.entries) : m = m' := by
  cases m
  cases m'
  cases h
  rfl

instance [DecidableEq α] [DecidableEq β] : DecidableEq (OrdMap α β) := fun m m' =>
  decidable_of_iff (m.entries = m'.entries) ⟨ext_entries, fun h => h ▸ rfl⟩

/-- The map without entries. -/
def empty : OrdMap α β := ⟨[], List.Pairwise.nil⟩

/-- The number of entries. -/
def size (m : OrdMap α β) : Nat := m.entries.length

section Lookup

variable [DecidableEq α]

/-- The value of a key among some entries. -/
def findIn (k : α) : List (α × β) → Option β
  | [] => none
  | e :: l => if e.1 = k then some e.2 else findIn k l

omit [LT α] in
theorem mem_of_findIn {k : α} {v : β} {l : List (α × β)} (h : findIn k l = some v) : (k, v) ∈ l := by
  induction l with
  | nil => cases h
  | cons e l ih =>
    unfold findIn at h
    split_ifs at h with hk
    · cases h
      rw [← hk]
      exact List.mem_cons_self
    · exact List.mem_cons_of_mem _ (ih h)

omit [LT α] in
theorem findIn_append (k : α) (l m : List (α × β)) :
    findIn k (l ++ m) = (findIn k l).or (findIn k m) := by
  induction l with
  | nil => rfl
  | cons e l ih =>
    rw [List.cons_append, findIn, findIn, ih]
    split
    · rfl
    · rfl

omit [LT α] in
theorem findIn_eq_none_iff {k : α} {l : List (α × β)} : findIn k l = none ↔ ∀ e ∈ l, e.1 ≠ k := by
  induction l with
  | nil => simp [findIn]
  | cons e l ih =>
    rw [findIn, List.forall_mem_cons]
    by_cases h : e.1 = k
    · simp [h]
    · simp [h, ih]

/-- `find`. -/
def find? (m : OrdMap α β) (k : α) : Option β := findIn k m.entries

@[simp] theorem find?_empty (k : α) : (empty : OrdMap α β).find? k = none := rfl

/-- Remove the entry of a key. -/
def erase (m : OrdMap α β) (k : α) : OrdMap α β :=
  ⟨m.entries.filter fun e => decide (e.1 ≠ k), m.sorted.filter _⟩

omit [LT α] in
theorem findIn_filter_of_ne {k k' : α} (h : k' ≠ k) (l : List (α × β)) :
    findIn k' (l.filter fun e => decide (e.1 ≠ k)) = findIn k' l := by
  induction l with
  | nil => rfl
  | cons e l ih =>
    rw [List.filter_cons]
    by_cases he : e.1 = k
    · have hk' : e.1 ≠ k' := fun hc => h (hc.symm.trans he)
      rw [if_neg (by simp [he]), ih, findIn, if_neg hk']
    · simp only [he, ne_eq, not_false_eq_true, decide_true, if_true, findIn]
      rw [ih]

theorem find?_erase_of_ne (m : OrdMap α β) {k k' : α} (h : k' ≠ k) :
    (m.erase k).find? k' = m.find? k' := findIn_filter_of_ne h m.entries

end Lookup

section Insert

variable [DecidableRel (α := α) (· < ·)]

/-- Put an entry at its place, or replace the value that is there. -/
def insertIn (k : α) (v : β) : List (α × β) → List (α × β)
  | [] => [(k, v)]
  | e :: l =>
      if k < e.1 then (k, v) :: e :: l
      else if e.1 < k then e :: insertIn k v l
      else (k, v) :: l

theorem mem_insertIn {k : α} {v : β} {e : α × β} {l : List (α × β)} (h : e ∈ insertIn k v l) :
    e = (k, v) ∨ e ∈ l := by
  induction l with
  | nil => simpa [insertIn] using h
  | cons d l ih =>
    rw [insertIn] at h
    split_ifs at h
    · simpa using h
    · rcases List.mem_cons.1 h with rfl | h
      · exact Or.inr (by simp)
      · rcases ih h with h | h
        · exact Or.inl h
        · exact Or.inr (by simp [h])
    · rcases List.mem_cons.1 h with h | h
      · exact Or.inl h
      · exact Or.inr (by simp [h])

variable [IsStrictTotalOrder α (· < ·)]

theorem sorted_insertIn {k : α} {v : β} {l : List (α × β)}
    (h : l.Pairwise fun a b => a.1 < b.1) : (insertIn k v l).Pairwise fun a b => a.1 < b.1 := by
  induction l with
  | nil => simp [insertIn]
  | cons d l ih =>
    obtain ⟨hd, hl⟩ := List.pairwise_cons.1 h
    rw [insertIn]
    split_ifs with h1 h2
    · refine List.pairwise_cons.2 ⟨?_, h⟩
      intro e he
      rcases List.mem_cons.1 he with rfl | he
      · exact h1
      · exact IsTrans.trans _ _ _ h1 (hd e he)
    · refine List.pairwise_cons.2 ⟨?_, ih hl⟩
      intro e he
      rcases mem_insertIn he with rfl | he
      · exact h2
      · exact hd e he
    · have heq : d.1 = k := Std.Trichotomous.trichotomous d.1 k h2 h1
      refine List.pairwise_cons.2 ⟨?_, hl⟩
      intro e he
      rw [← heq]
      exact hd e he

/-- `m[k] = v`. -/
def insert (m : OrdMap α β) (k : α) (v : β) : OrdMap α β :=
  ⟨insertIn k v m.entries, sorted_insertIn m.sorted⟩

variable [DecidableEq α]

theorem find?_insert_self (m : OrdMap α β) (k : α) (v : β) : (m.insert k v).find? k = some v := by
  show findIn k (insertIn k v m.entries) = some v
  induction m.entries with
  | nil => simp [insertIn, findIn]
  | cons d l ih =>
    rw [insertIn]
    split_ifs with h1 h2
    · simp [findIn]
    · have hne : d.1 ≠ k := by
        intro hc
        rw [hc] at h2
        exact Std.Irrefl.irrefl k h2
      simpa [findIn, hne] using ih
    · simp [findIn]

theorem find?_insert_of_ne (m : OrdMap α β) {k k' : α} (h : k' ≠ k) (v : β) :
    (m.insert k v).find? k' = m.find? k' := by
  show findIn k' (insertIn k v m.entries) = findIn k' m.entries
  induction m.entries with
  | nil => simp [insertIn, findIn, h.symm]
  | cons d l ih =>
    rw [insertIn]
    split_ifs with h1 h2
    · simp [findIn, h.symm]
    · simp only [findIn, ih]
    · have heq : d.1 = k := Std.Trichotomous.trichotomous d.1 k h2 h1
      simp [findIn, h.symm, heq]

/-- An insertion puts its entry in the place of the one with the same key. -/
theorem insertIn_perm {k : α} {v : β} {l : List (α × β)} (h : l.Pairwise fun a b => a.1 < b.1) :
    (insertIn k v l).Perm ((k, v) :: l.filter fun e => e.1 ≠ k) := by
  have hlt : ∀ {e : α × β}, k < e.1 → e.1 ≠ k := fun h1 h2 => Std.Irrefl.irrefl k (h2 ▸ h1)
  induction l with
  | nil => exact List.Perm.refl _
  | cons d l ih =>
    obtain ⟨hd, hl⟩ := List.pairwise_cons.1 h
    rw [insertIn]
    split_ifs with h1 h2
    · have hall : (d :: l).filter (fun e => e.1 ≠ k) = d :: l := by
        refine List.filter_eq_self.2 fun e he => ?_
        rcases List.mem_cons.1 he with rfl | he
        · simpa using hlt h1
        · simpa using hlt (IsTrans.trans _ _ _ h1 (hd e he))
      rw [hall]
    · have hne : d.1 ≠ k := fun hc => Std.Irrefl.irrefl k (hc ▸ h2)
      rw [List.filter_cons_of_pos (by simpa using hne)]
      exact ((ih hl).cons d).trans (List.Perm.swap _ _ _)
    · have heq : d.1 = k := Std.Trichotomous.trichotomous d.1 k h2 h1
      rw [List.filter_cons_of_neg (by simp [heq])]
      have hall : l.filter (fun e => e.1 ≠ k) = l :=
        List.filter_eq_self.2 fun e he => by simpa using hlt (heq ▸ hd e he)
      rw [hall]

/-! ## A map made of a list -/

/-- The map that a list of insertions makes, the last one first. -/
def ofList (l : List (α × β)) : OrdMap α β := l.foldr (fun e m => m.insert e.1 e.2) empty

omit [DecidableEq α] in
theorem ofList_cons (e : α × β) (l : List (α × β)) : ofList (e :: l) = (ofList l).insert e.1 e.2 := rfl

omit [DecidableEq α] in
theorem mem_ofList {e : α × β} {l : List (α × β)} (h : e ∈ (ofList l).entries) : e ∈ l := by
  induction l with
  | nil => exact absurd h List.not_mem_nil
  | cons d l ih =>
    rw [ofList_cons] at h
    rcases mem_insertIn h with rfl | h
    · simp
    · exact List.mem_cons_of_mem _ (ih h)

/-- A lookup finds what was inserted last. -/
theorem find?_ofList (k : α) (l : List (α × β)) : (ofList l).find? k = findIn k l := by
  induction l with
  | nil => rfl
  | cons e l ih =>
    rw [ofList_cons, findIn]
    by_cases h : e.1 = k
    · rw [if_pos h, ← h]
      exact find?_insert_self _ _ _
    · rw [if_neg h, ← ih]
      exact find?_insert_of_ne _ (Ne.symm h) _

/-- After insertions one after the other, a lookup finds what was inserted last, or else what was there
before. -/
theorem find?_foldl_insert (k : α) (l : List (α × β)) (m : OrdMap α β) :
    (l.foldl (fun m e => m.insert e.1 e.2) m).find? k = (findIn k l.reverse).or (m.find? k) := by
  induction l using List.reverseRecOn with
  | nil => rfl
  | append_singleton l e ih =>
    rw [List.foldl_append, List.foldl_cons, List.foldl_nil, List.reverse_append, List.reverse_singleton,
      List.singleton_append, findIn]
    by_cases h : e.1 = k
    · rw [if_pos h, ← h]
      exact find?_insert_self _ _ _
    · rw [if_neg h, ← ih]
      exact find?_insert_of_ne _ (Ne.symm h) _

omit [DecidableRel (α := α) (· < ·)] [DecidableEq α] in
/-- No key occurs twice in a map. -/
theorem nodup_keys (m : OrdMap α β) : (m.entries.map Prod.fst).Nodup := by
  refine List.pairwise_map.2 (m.sorted.imp ?_)
  intro a b hlt heq
  rw [heq] at hlt
  exact Std.Irrefl.irrefl _ hlt

omit [LT α] [DecidableRel (α := α) (· < ·)] [IsStrictTotalOrder α (· < ·)] in
/-- Among entries with different keys, the entry of a key is found. -/
theorem findIn_of_mem {k : α} {v : β} {l : List (α × β)} (hnodup : (l.map Prod.fst).Nodup)
    (h : (k, v) ∈ l) : findIn k l = some v := by
  induction l with
  | nil => cases h
  | cons e l ih =>
    rw [List.map_cons, List.nodup_cons] at hnodup
    rw [findIn]
    rcases List.mem_cons.1 h with rfl | h
    · rw [if_pos rfl]
    · have hne : e.1 ≠ k := by
        rintro rfl
        exact hnodup.1 (List.mem_map.2 ⟨(e.1, v), h, rfl⟩)
      rw [if_neg hne]
      exact ih hnodup.2 h

omit [DecidableRel (α := α) (· < ·)] in
/-- A lookup finds the entry of the key. -/
theorem find?_eq_some_iff (m : OrdMap α β) {k : α} {v : β} : m.find? k = some v ↔ (k, v) ∈ m.entries :=
  ⟨mem_of_findIn, findIn_of_mem (nodup_keys m)⟩

/-- Where no key is inserted twice, the map holds what was inserted.  The keys may be limited
to those of a kind `q`. -/
theorem ofList_perm {q : α → Bool} {l : List (α × β)}
    (h : ((l.filter fun e => q e.1).map Prod.fst).Nodup) :
    ((ofList l).entries.filter fun e => q e.1).Perm (l.filter fun e => q e.1) := by
  induction l with
  | nil => exact List.Perm.refl _
  | cons d l ih =>
    have hins := (insertIn_perm (k := d.1) (v := d.2) (ofList l).sorted).filter fun e => q e.1
    refine hins.trans ?_
    cases hq : q d.1 with
    | false =>
      rw [List.filter_cons_of_neg (by simp [hq])] at h
      rw [List.filter_cons_of_neg (by simp [hq]), List.filter_cons_of_neg (by simp [hq]),
        List.filter_filter]
      refine List.Perm.trans (List.Perm.of_eq (List.filter_congr fun e _ => ?_)) (ih h)
      have hne : q e.1 = true → e.1 ≠ d.1 := fun he hc => by simp [hc, hq] at he
      cases hqe : q e.1 with
      | false => simp
      | true => simpa using hne hqe
    | true =>
      rw [List.filter_cons_of_pos (by simp [hq]), List.map_cons, List.nodup_cons] at h
      rw [List.filter_cons_of_pos (by simp [hq]), List.filter_cons_of_pos (by simp [hq]),
        List.filter_filter]
      refine List.Perm.cons _ (List.Perm.trans (List.Perm.of_eq (List.filter_congr fun e he => ?_))
        (ih h.2))
      have hne : q e.1 = true → e.1 ≠ d.1 := fun hqe hc => h.1
        (hc ▸ List.mem_map_of_mem (List.mem_filter.2 ⟨mem_ofList he, hqe⟩))
      cases hqe : q e.1 with
      | false => simp
      | true => simpa using hne hqe

omit [DecidableEq α] in
/-- A map that holds as many entries as were inserted has seen no key twice. -/
theorem nodup_of_ofList_length {q : α → Bool} {l : List (α × β)}
    (h : (l.filter fun e => q e.1).length ≤ ((ofList l).entries.filter fun e => q e.1).length) :
    ((l.filter fun e => q e.1).map Prod.fst).Nodup := by
  have hnodup : (((ofList l).entries.filter fun e => q e.1).map Prod.fst).Nodup :=
    (nodup_keys (ofList l)).sublist (List.filter_sublist.map Prod.fst)
  have hsub : ((ofList l).entries.filter fun e => q e.1).map Prod.fst ⊆
      (l.filter fun e => q e.1).map Prod.fst := by
    intro k hk
    obtain ⟨e, he, rfl⟩ := List.mem_map.1 hk
    obtain ⟨he, hq⟩ := List.mem_filter.1 he
    exact List.mem_map_of_mem (List.mem_filter.2 ⟨mem_ofList he, hq⟩)
  have hperm := (hnodup.subperm hsub).perm_of_length_le (by simpa using h)
  exact hperm.nodup_iff.1 hnodup

end Insert

end OrdMap

end HttpProxy
