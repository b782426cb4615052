import Mathlib.Data.List.Dedup
import Mathlib.Data.List.Forall2

/-!
# Maps as vectors of pairs

A vector of keys with values that is searched from the front, and that gets new entries at its end.

* `Assoc.put` — an entry is put in the place of the one with its key, at the end.
* `Assoc.IsMapOf l es` — the vector is the map in which the last of the pairs `es` with a key wins.
* `Assoc.isMapOf_putAll` — putting pairs one by one makes this map; `IsMapOf.length` counts it.
-/

namespace HttpProxy

namespace Assoc

variable {α β γ : Type} [BEq α] {l es : List (α × β)}

/-- The vector without the first entry that has the key. -/
def eraseKey (key : α) (l : List (α × β)) : List (α × β) := l.eraseP fun p => p.1 == key

/-- The entry in the place of the one with its key, at the end. -/
def put (l : List (α × β)) (key : α) (value : β) : List (α × β) := eraseKey key l ++ [(key, value)]

/-- All of the entries, one after the other. -/
def putAll (l es : List (α × β)) : List (α × β) := es.foldl (fun l e => put l e.1 e.2) l

theorem map_fst_eraseKey (key : α) (l : List (α × β)) :
    (eraseKey key l).map Prod.fst = (l.map Prod.fst).erase key := by
  rw [List.erase_eq_eraseP', List.eraseP_map]
  rfl

variable [LawfulBEq α]

theorem lookup_eq_none {key : α} : l.lookup key = none ↔ key ∉ l.map Prod.fst := by
  rw [List.lookup_eq_none_iff]
  constructor
  · intro h hmem
    obtain ⟨p, hp, rfl⟩ := List.mem_map.1 hmem
    simpa using h p hp
  · intro h p hp
    simpa using fun heq : key = p.1 => h (List.mem_map.2 ⟨p, hp, heq.symm⟩)

theorem lookup_eraseKey_of_ne {key name : α} (hne : name ≠ key) (l : List (α × β)) :
    (eraseKey key l).lookup name = l.lookup name := by
  induction l with
  | nil => rfl
  | cons p l ih =>
    obtain ⟨k, v⟩ := p
    by_cases hk : k = key
    · subst hk
      have hbeq : (name == k) = false := beq_false_of_ne hne
      rw [eraseKey, List.eraseP_cons_of_pos (by simp), List.lookup_cons, hbeq]
    · rw [eraseKey, List.eraseP_cons_of_neg (by simpa using hk), List.lookup_cons, List.lookup_cons]
      exact ih ▸ rfl

/-! ## The last of the pairs wins -/

/-- The vector holds each key once, and its value is that of the last of the pairs with the key. -/
structure IsMapOf (l es : List (α × β)) : Prop where
  nodup : (l.map Prod.fst).Nodup
  lookup : ∀ key, l.lookup key = es.reverse.lookup key

omit [LawfulBEq α] in
theorem isMapOf_nil : IsMapOf ([] : List (α × β)) [] := ⟨List.nodup_nil, fun _ => rfl⟩

theorem IsMapOf.mem_iff (h : IsMapOf l es) {key : α} : key ∈ l.map Prod.fst ↔ key ∈ es.map Prod.fst := by
  have hnone : l.lookup key = none ↔ es.reverse.lookup key = none := by rw [h.lookup]
  rw [lookup_eq_none, lookup_eq_none, not_iff_not] at hnone
  simpa using hnone

theorem IsMapOf.put (h : IsMapOf l es) (key : α) (value : β) :
    IsMapOf (put l key value) (es ++ [(key, value)]) := by
  have hkey : key ∉ (eraseKey key l).map Prod.fst := map_fst_eraseKey key l ▸ h.nodup.not_mem_erase
  constructor
  · have herase : ((eraseKey key l).map Prod.fst).Nodup := map_fst_eraseKey key l ▸ h.nodup.erase key
    rw [Assoc.put, List.map_append]
    refine List.nodup_append.2 ⟨herase, List.nodup_singleton key, fun a ha b hb => ?_⟩
    rintro rfl
    have hak : a = key := by simpa using hb
    exact hkey (hak ▸ ha)
  · intro name
    rw [Assoc.put, List.lookup_append, List.reverse_append, List.lookup_append]
    by_cases hname : name = key
    · rw [hname, lookup_eq_none.2 hkey]
      simp
    · rw [lookup_eraseKey_of_ne hname, h.lookup]
      have hbeq : (name == key) = false := beq_false_of_ne hname
      simp [List.lookup_cons, hbeq]

theorem IsMapOf.putAll (h : IsMapOf l es) (fs : List (α × β)) : IsMapOf (putAll l fs) (es ++ fs) := by
  induction fs generalizing l es with
  | nil => simpa [Assoc.putAll] using h
  | cons f fs ih =>
    have := ih (h.put f.1 f.2)
    rwa [List.append_assoc] at this

/-- Pairs that are put into an empty vector make the map in which the last of them wins. -/
theorem isMapOf_putAll (es : List (α × β)) : IsMapOf (putAll [] es) es := isMapOf_nil.putAll es

/-- The vector has as many entries as the pairs have keys. -/
theorem IsMapOf.length [DecidableEq α] (h : IsMapOf l es) : l.length = (es.map Prod.fst).dedup.length := by
  have hperm : (l.map Prod.fst).Perm (es.map Prod.fst).dedup := by
    refine (List.perm_ext_iff_of_nodup h.nodup (List.nodup_dedup _)).2 fun key => ?_
    rw [h.mem_iff, List.mem_dedup]
  rw [← hperm.length_eq, List.length_map]

/-! ## Pairs that are related one by one -/

theorem mem_of_lookup {key : α} {value : β} (h : l.lookup key = some value) : (key, value) ∈ l := by
  obtain ⟨l₁, l₂, rfl, -⟩ := List.lookup_eq_some_iff.1 h
  simp

omit [LawfulBEq α] in
theorem rel_lookup {R : β → γ → Prop} {es : List (α × β)} {ms : List (α × γ)}
    (h : List.Forall₂ (fun e m => e.1 = m.1 ∧ R e.2 m.2) es ms) (key : α) :
    Option.Rel R (es.lookup key) (ms.lookup key) := by
  induction h with
  | nil => exact .none
  | @cons e m es ms hem _ ih =>
    obtain ⟨k, b⟩ := e
    obtain ⟨k', c⟩ := m
    obtain ⟨rfl, hR⟩ : k = k' ∧ R b c := hem
    rw [List.lookup_cons, List.lookup_cons]
    cases key == k with
    | true => exact .some hR
    | false => exact ih

end Assoc

end HttpProxy
