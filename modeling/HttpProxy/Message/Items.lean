import HttpProxy.Message.Query

/-!
# Items without a value

The pieces of a query string are paired by position, so that a bare key that is not the last
item takes the key behind it for its value.

* `ItemsRead` — every item is read as what it stands for.
* `mem_pairUp_cases` — where a pair of pieces comes from: an item in step, or the value of an
  item out of step and the key of the next one.
* `itemsRead_iff` — the items are read exactly if the last one alone may be a bare key.
-/

namespace HttpProxy

namespace QueryItem

variable {items : List QueryItem}

/-- A lookup of the key of an item finds what the last item with this key stands for. -/
def Found (items : List QueryItem) : Prop :=
  ∀ i ∈ items, (srsParseQueryString (joined items) .empty).find? i.key =
    OrdMap.findIn i.key (items.map meaning).reverse

/-- Every item is read as what it stands for, whatever the others are. -/
structure ItemsRead (items : List QueryItem) : Prop where
  /-- The counter goes by two, and is an `int` behind the last piece as well. -/
  counter : toInt32 (pieces (joined items)).length ≠ 2 ^ 31 - 1
  assigned : queryAssignments (joined items) = items.map meaning
  found : Found items

/-! ## Assignments -/

theorem length_pairUp (l : List Bytes) : (pairUp l).length = (l.length + 1) / 2 := by
  induction l using pairUp.induct with
  | case1 => rfl
  | case2 k => simp [pairUp]
  | case3 k v rest ih =>
    rw [pairUp, List.length_cons, ih, List.length_cons, List.length_cons]
    omega

theorem trimmed_flatMap_cons (i j : QueryItem) (items : List QueryItem) :
    trimmed ((i :: j :: items).flatMap parts) = i.parts ++ trimmed ((j :: items).flatMap parts) := by
  rw [List.flatMap_cons, trimmed_append _ (by simp [parts])]

/-- The first piece of an item with a key is the key. -/
theorem exists_trimmed_eq (j : QueryItem) (items : List QueryItem) (hj : j.key ≠ []) :
    ∃ l, trimmed ((j :: items).flatMap parts) = j.key :: l := by
  rw [List.flatMap_cons, parts, List.cons_append]
  rcases hrest : j.value.toList ++ items.flatMap parts with _ | ⟨p, l⟩
  · exact ⟨[], if_neg hj⟩
  · exact ⟨trimmed (p :: l), rfl⟩

theorem onlyLastBare_of_pairUp (hkeys : ∀ i ∈ items, i.key ≠ [])
    (h : pairUp (trimmed (items.flatMap parts)) = items.map meaning) : OnlyLastBare items := by
  induction items with
  | nil => exact fun i hi => absurd hi List.not_mem_nil
  | cons i items ih =>
    cases items with
    | nil => exact fun j hj => absurd hj List.not_mem_nil
    | cons j items =>
      rw [trimmed_flatMap_cons] at h
      by_cases hi : i.value = none
      · obtain ⟨l, hl⟩ := exists_trimmed_eq j items (hkeys j (by simp))
        rw [hl, parts, hi, Option.toList_none, List.singleton_append, pairUp, List.map_cons, meaning,
          hi] at h
        have hkey := congrArg Prod.snd (List.cons.inj h).1
        exact absurd hkey (hkeys j (by simp))
      · rw [parts_of_value hi] at h
        exact (onlyLastBare_cons_iff i j items).2
          ⟨hi, ih (fun k hk => hkeys k (by simp [hk])) (List.cons.inj h).2⟩

theorem le_length_of_onlyLastBare (h : OnlyLastBare items) :
    2 * items.length ≤ (pieces (joined items)).length + 1 := by
  have hlen := congrArg List.length (pairUp_of_onlyLastBare h)
  rw [length_pairUp, List.length_map, ← pieces_joined] at hlen
  omega

theorem find?_of_assigned {q : Bytes} (h : queryAssignments q = items.map meaning) (key : Bytes) :
    (srsParseQueryString q .empty).find? key = OrdMap.findIn key (items.map meaning).reverse := by
  rw [find?_srsParseQueryString, h]

theorem itemsRead_of_onlyLastBare (hcount : items.length < 2 ^ 30) (h : OnlyLastBare items) :
    ItemsRead items := by
  have hassigned := queryAssignments_joined hcount h
  have hlen := length_pieces_joined hcount
  refine ⟨?_, hassigned, fun i _ => find?_of_assigned hassigned i.key⟩
  rw [toInt32_eq_self (by omega) (by omega)]
  omega

/-- With more pieces than an `int` can count, some are left out. -/
theorem length_pieces_of_assigned (h : queryAssignments (joined items) = items.map meaning) :
    (pieces (joined items)).length < 2 ^ 31 := by
  have h1 := length_trimmed_le (items.flatMap parts)
  have h2 := length_parts_le items
  have hlen := congrArg List.length h
  rw [← pieces_joined] at h1
  rw [List.length_map, queryAssignments, length_pairUp, intLoop, List.length_take] at hlen
  rw [← pieces] at hlen
  by_contra hge
  have hle := toInt32_add_le (x := (pieces (joined items)).length) (by omega)
  omega

theorem onlyLastBare_of_itemsRead (hkeys : ∀ i ∈ items, i.key ≠ []) (h : ItemsRead items) :
    OnlyLastBare items ∧ items.length < 2 ^ 30 := by
  have hlen := length_pieces_of_assigned h.assigned
  have hassigned := h.assigned
  have hint : intLoop (pieces (joined items)) = pieces (joined items) := intLoop_eq_self hlen
  rw [queryAssignments, ← pieces, hint, pieces_joined] at hassigned
  have hlast := onlyLastBare_of_pairUp hkeys hassigned
  have hle := le_length_of_onlyLastBare hlast
  have hcounter := h.counter
  rw [toInt32_eq_self (by omega) (by omega)] at hcounter
  exact ⟨hlast, by omega⟩

/-! ## In step and out of step -/

/-- The number of bare keys. -/
def bares (items : List QueryItem) : Nat := items.countP fun i => decide (i.value = none)

/-- The key at a position, or the empty text behind the end. -/
def keyAt (items : List QueryItem) (p : Nat) : Bytes := (items[p]?.map key).getD []

/-- An assignment that comes from an item, with `n` bare keys in front of all.  Behind an even number of
bare keys the key of the item is assigned, else its value. -/
def Source (n : Nat) (items : List QueryItem) (e : Bytes × Bytes) : Prop :=
  ∃ p i, items[p]? = some i ∧
    ((n + bares (items.take p)) % 2 = 0 ∧ e = (i.key, i.value.getD (keyAt items (p + 1))) ∨
      (n + bares (items.take p)) % 2 = 1 ∧ ∃ v, i.value = some v ∧ e = (v, keyAt items (p + 1)))

theorem Source.cons {m n : Nat} {i : QueryItem} {e : Bytes × Bytes} (h : Source m items e)
    (hm : m % 2 = (n + bares [i]) % 2) : Source n (i :: items) e := by
  obtain ⟨p, j, hj, hcases⟩ := h
  have hbares : bares ((i :: items).take (p + 1)) = bares [i] + bares (items.take p) := by
    rw [List.take_succ_cons, bares, bares, bares, ← List.countP_append, List.singleton_append]
  have hkey : keyAt (i :: items) (p + 1 + 1) = keyAt items (p + 1) := rfl
  refine ⟨p + 1, j, hj, ?_⟩
  rw [hbares, hkey]
  rcases hcases with ⟨hpar, he⟩ | ⟨hpar, he⟩
  · exact Or.inl ⟨by omega, he⟩
  · exact Or.inr ⟨by omega, he⟩

/-- Every pair of pieces comes from an item; a piece in front of them is paired with the first key. -/
theorem mem_pairUp_cases (items : List QueryItem) (e : Bytes × Bytes) :
    (e ∈ pairUp (items.flatMap parts) → Source 0 items e) ∧
      ∀ x, e ∈ pairUp (x :: items.flatMap parts) → e = (x, keyAt items 0) ∨ Source 1 items e := by
  induction items with
  | nil =>
    constructor
    · intro h
      cases h
    · intro x h
      exact Or.inl (List.mem_singleton.1 h)
  | cons i items ih =>
    obtain ⟨ih0, ih1⟩ := ih
    rw [List.flatMap_cons, parts]
    cases hv : i.value with
    | some v =>
      have hbares : bares [i] = 0 := by simp [bares, hv]
      constructor
      · intro h
        rcases List.mem_cons.1 h with he | h
        · exact ⟨0, i, rfl, Or.inl ⟨rfl, by rw [he, hv]; rfl⟩⟩
        · exact (ih0 h).cons (by rw [hbares])
      · intro x h
        rcases List.mem_cons.1 h with he | h
        · exact Or.inl he
        · rcases ih1 v h with he | h
          · exact Or.inr ⟨0, i, rfl, Or.inr ⟨rfl, v, hv, he⟩⟩
          · exact Or.inr (h.cons (by rw [hbares]))
    | none =>
      have hbares : bares [i] = 1 := by simp [bares, hv]
      constructor
      · intro h
        rcases ih1 i.key h with he | h
        · exact ⟨0, i, rfl, Or.inl ⟨rfl, by rw [he, hv]; rfl⟩⟩
        · exact h.cons (by rw [hbares])
      · intro x h
        rcases List.mem_cons.1 h with he | h
        · exact Or.inl he
        · exact Or.inr ((ih0 h).cons (by rw [hbares]))

theorem mem_pairUp_of_trimmed {l : List Bytes} {e : Bytes × Bytes} (h : e ∈ pairUp (trimmed l)) :
    e ∈ pairUp l := by
  induction l using pairUp.induct with
  | case1 => exact h
  | case2 k =>
    rw [trimmed] at h
    split at h
    · cases h
    · exact h
  | case3 k v rest ih =>
    cases rest with
    | nil =>
      rw [trimmed, trimmed] at h
      split at h
      · rename_i hv
        rw [hv]
        exact h
      · exact h
    | cons p rest =>
      rw [trimmed, trimmed_cons v (by simp)] at h
      rcases List.mem_cons.1 h with he | h
      · exact List.mem_cons.2 (Or.inl he)
      · exact List.mem_cons.2 (Or.inr (ih h))

theorem source_of_assigned {e : Bytes × Bytes} (h : e ∈ queryAssignments (joined items))
    (hcount : items.length < 2 ^ 30) : Source 0 items e := by
  have hlen := length_pieces_joined hcount
  have hint : intLoop (pieces (joined items)) = pieces (joined items) := intLoop_eq_self (by omega)
  rw [queryAssignments, ← pieces, hint, pieces_joined] at h
  exact (mem_pairUp_cases items e).1 (mem_pairUp_of_trimmed h)

/-! ## Different keys -/

section Different

variable (hnodup : (items.map key).Nodup) (hkeys : ∀ i ∈ items, i.key ≠ [])

include hnodup in
theorem position_eq {p q : Nat} {i j : QueryItem} (hp : items[p]? = some i) (hq : items[q]? = some j)
    (h : i.key = j.key) : p = q := by
  obtain ⟨hlt, -⟩ := List.getElem?_eq_some_iff.1 hp
  refine (List.getElem?_inj (by rwa [List.length_map]) hnodup).1 ?_
  rw [List.getElem?_map, List.getElem?_map, hp, hq, Option.map_some, Option.map_some, h]

include hkeys in
theorem keyAt_eq_nil {p : Nat} (h : keyAt items p = []) : items[p]? = none := by
  cases hp : items[p]? with
  | none => rfl
  | some i =>
    rw [keyAt, hp] at h
    exact absurd h (hkeys i (List.mem_of_getElem? hp))

theorem keyAt_of_ne_nil {p : Nat} {key : Bytes} (h : keyAt items p = key) (hne : key ≠ []) :
    ∃ i, items[p]? = some i ∧ i.key = key := by
  cases hp : items[p]? with
  | none =>
    rw [keyAt, hp] at h
    exact absurd h.symm hne
  | some i =>
    rw [keyAt, hp] at h
    exact ⟨i, rfl, h⟩

include hnodup in
/-- The key of an item is found with what the item stands for. -/
theorem source_of_found (hcount : items.length < 2 ^ 30) (h : Found items) {p : Nat} {i : QueryItem}
    (hp : items[p]? = some i) : Source 0 items (i.key, i.value.getD []) := by
  have hmem : i ∈ items := List.mem_of_getElem? hp
  have hfind := h i hmem
  have hvalue : OrdMap.findIn i.key (items.map meaning).reverse = some (i.value.getD []) := by
    refine OrdMap.findIn_of_mem ?_ (List.mem_reverse.2 (List.mem_map_of_mem (f := meaning) hmem))
    rw [List.map_reverse, List.nodup_reverse, List.map_map]
    exact hnodup
  rw [find?_srsParseQueryString, hvalue] at hfind
  exact source_of_assigned (List.mem_reverse.1 (OrdMap.mem_of_findIn hfind)) hcount

theorem exists_first_bare (h : ¬ OnlyLastBare items) :
    ∃ p i, items[p]? = some i ∧ i.value = none ∧ p + 1 < items.length ∧
      ∀ q ≤ p, bares (items.take q) = 0 := by
  induction items with
  | nil => exact absurd (fun i hi => absurd hi List.not_mem_nil) h
  | cons i items ih =>
    cases items with
    | nil => exact absurd (fun j hj => absurd hj List.not_mem_nil) h
    | cons j items =>
      by_cases hi : i.value = none
      · refine ⟨0, i, rfl, hi, by simp, fun q hq => ?_⟩
        rw [Nat.le_zero.1 hq]
        rfl
      · have hrest : ¬ OnlyLastBare (j :: items) := fun hlast =>
          h ((onlyLastBare_cons_iff i j items).2 ⟨hi, hlast⟩)
        obtain ⟨p, k, hp, hk, hlt, hstep⟩ := ih hrest
        refine ⟨p + 1, k, hp, hk, Nat.succ_lt_succ hlt, fun q hq => ?_⟩
        cases q with
        | zero => rfl
        | succ q =>
          have hq' := hstep q (by omega)
          rw [bares] at hq' ⊢
          rw [List.take_succ_cons, List.countP_cons_of_neg (by simpa using hi), hq']

include hnodup hkeys in
/-- Of items with different keys, all are found only if the last one alone may be a bare key. -/
theorem onlyLastBare_of_found (hcount : items.length < 2 ^ 30) (h : Found items) :
    OnlyLastBare items := by
  by_contra hbare
  obtain ⟨p, i, hp, hi, hlt, hstep⟩ := exists_first_bare hbare
  have hikey : i.key ≠ [] := hkeys i (List.mem_of_getElem? hp)
  -- The first bare key takes the next key; to be found with the empty value it must come again ...
  obtain ⟨q, j, hq, ⟨-, he⟩ | ⟨hodd, v, hv, he⟩⟩ := source_of_found hnodup hcount h hp
  · rw [Prod.mk.injEq, hi] at he
    have hqp : p = q := position_eq hnodup hp hq he.1
    subst hqp
    rw [hp, Option.some.injEq] at hq
    subst hq
    rw [hi] at he
    have hnone := keyAt_eq_nil hkeys he.2.symm
    rw [List.getElem?_eq_none_iff] at hnone
    omega
  · -- ... as the value of the last item, out of step, whose own key must then be found with it.
    rw [Prod.mk.injEq, hi] at he
    obtain ⟨rfl, hend⟩ := he
    obtain ⟨r, k, hr, ⟨heven, he⟩ | ⟨hodd', w, hw, he⟩⟩ := source_of_found hnodup hcount h hq
    · rw [Prod.mk.injEq] at he
      rw [position_eq hnodup hq hr he.1] at hodd
      omega
    · rw [Prod.mk.injEq, hv, Option.getD_some] at he
      obtain ⟨n, hn, hnkey⟩ := keyAt_of_ne_nil he.2.symm hikey
      have hrp : r + 1 = p := position_eq hnodup hn hp hnkey
      rw [hstep r (by omega)] at hodd'
      omega

end Different

/-- **Items are read as they stand exactly if only the last one may be a bare key**, and their number
is below 2 ^ 30.  For items with different keys the same holds of the lookups alone. -/
theorem itemsRead_iff (items : List QueryItem) (hkeys : ∀ i ∈ items, i.key ≠ []) :
    (ItemsRead items ↔ OnlyLastBare items ∧ items.length < 2 ^ 30) ∧
      ((items.map key).Nodup → items.length < 2 ^ 30 → (Found items ↔ OnlyLastBare items)) := by
  constructor
  · constructor
    · exact onlyLastBare_of_itemsRead hkeys
    · rintro ⟨hlast, hcount⟩
      exact itemsRead_of_onlyLastBare hcount hlast
  · intro hnodup hcount
    constructor
    · exact onlyLastBare_of_found hnodup hkeys hcount
    · intro hlast
      exact (itemsRead_of_onlyLastBare hcount hlast).found

/-- A text of unreserved characters has no separator. -/
theorem noSep_of_unreserved {s : Bytes} (h : ∀ c ∈ s, isAlphanum c = true ∨ c ∈ str "-._~") : NoSep s := by
  have hsep : ∀ c ∈ str "=,&;", ¬ (isAlphanum c = true ∨ c ∈ str "-._~") :=
    List.all_iff_forall_prop.1 rfl
  exact fun c hc hc' => hsep c hc' (h c hc)

/-- The bare key `a`. -/
def bareA : QueryItem where
  key := str "a"
  value := none
  key_noSep := noSep_of_unreserved (List.all_iff_forall_prop.1 rfl)
  value_noSep := fun v hv => absurd hv (by simp)
  bare_ne_nil := fun _ => by decide

/-- The item `b=1`. -/
def oneB : QueryItem :=
  ofValue (noSep_of_unreserved (s := str "b") (List.all_iff_forall_prop.1 rfl))
    (noSep_of_unreserved (s := str "1") (List.all_iff_forall_prop.1 rfl))

/-- The text `b=1&a`, where the bare key comes last. -/
theorem itemsRead_iff_last :
    (ItemsRead [oneB, bareA] ↔ OnlyLastBare [oneB, bareA] ∧ [oneB, bareA].length < 2 ^ 30) ∧
      (([oneB, bareA].map key).Nodup → [oneB, bareA].length < 2 ^ 30 →
        (Found [oneB, bareA] ↔ OnlyLastBare [oneB, bareA])) :=
  itemsRead_iff _ (by decide)

/-- In the text `a&b=1` the value of `a` is `b`. -/
theorem not_itemsRead_first : ¬ ItemsRead [bareA, oneB] ∧ ¬ Found [bareA, oneB] := by
  have hfound : ¬ Found [bareA, oneB] := by
    intro h
    exact absurd (h bareA (by simp)) (by decide)
  exact ⟨fun h => hfound h.found, hfound⟩

end QueryItem

end HttpProxy
