import HttpProxy.Message.Escape
import HttpProxy.Message.Uri

/-!
# Query strings

`srs_parse_query_string` cuts a text at every separator, and takes the pieces in pairs.

* `pieces_noSep`, `pieces_at` — the pieces of a text: up to the first separator, and those of
  the rest.
* `readsBack_escaped` — pairs of escaped texts are read back, and the last one of a key counts.
-/

namespace HttpProxy

/-! ## The pieces -/

section Split

variable {s a rest : Bytes} {c : Byte}

/-- A byte that begins a separator. -/
def IsSep (c : Byte) : Prop := c ∈ str "=,&;"

/-- The text has no separator. -/
def NoSep (s : Bytes) : Prop := ∀ c ∈ s, ¬ IsSep c

theorem minMatchTurn_none {sep : Bytes} (h : findSub sep s = none) (best : Option (Nat × Bytes)) :
    minMatchTurn s best sep = best := by
  unfold minMatchTurn
  rw [h]

theorem minMatchTurn_first {sep : Bytes} {k : Nat} (h : findSub sep s = some k) :
    minMatchTurn s none sep = some (k, sep) := by
  unfold minMatchTurn
  rw [h]

theorem minMatchTurn_some {sep x : Bytes} {k j : Nat} (h : findSub sep s = some k) :
    minMatchTurn s (some (j, x)) sep = if k < j then some (k, sep) else some (j, x) := by
  unfold minMatchTurn
  rw [h]

/-- The separators in front of the chosen one do not occur before it or at its place, and the ones
behind do not occur before it. -/
theorem srsStringMinMatch_eq {seps₁ seps₂ : List Bytes} {sep : Bytes} {k : Nat}
    (hk : findSub sep s = some k) (h₁ : ∀ x ∈ seps₁, ∀ j, findSub x s = some j → k < j)
    (h₂ : ∀ x ∈ seps₂, ∀ j, findSub x s = some j → k ≤ j) :
    srsStringMinMatch s (seps₁ ++ sep :: seps₂) = some (k, sep) := by
  rw [srsStringMinMatch, List.foldl_append, List.foldl_cons]
  -- The best one before is none, or stands behind; from then on the best one stays.
  have hlater : ∀ j x, seps₁.foldl (minMatchTurn s) none = some (j, x) → k < j := by
    refine List.foldlRecOn (motive := fun b => ∀ j x, b = some (j, x) → k < j) seps₁ _ (by simp) ?_
    intro b hb x hx j y
    rcases hfind : findSub x s with _ | i
    · rw [minMatchTurn_none hfind]
      exact hb j y
    · have hi := h₁ x hx i hfind
      rcases b with _ | ⟨i', x'⟩
      · rw [minMatchTurn_first hfind]
        rintro ⟨⟩
        exact hi
      · rw [minMatchTurn_some hfind]
        split
        · rintro ⟨⟩
          exact hi
        · exact hb j y
  have hchosen : minMatchTurn s (seps₁.foldl (minMatchTurn s) none) sep = some (k, sep) := by
    rcases hbest : seps₁.foldl (minMatchTurn s) none with _ | ⟨j, x⟩
    · exact minMatchTurn_first hk
    · rw [minMatchTurn_some hk, if_pos (hlater j x hbest)]
  rw [hchosen]
  refine List.foldlRecOn (motive := fun b => b = some (k, sep)) seps₂ _ rfl ?_
  rintro b rfl x hx
  rcases hfind : findSub x s with _ | j
  · exact minMatchTurn_none hfind _
  · rw [minMatchTurn_some hfind, if_neg (Nat.not_lt.2 (h₂ x hx j hfind))]

/-- Where no separator occurs, none is chosen. -/
theorem srsStringMinMatch_eq_none {seps : List Bytes} (h : ∀ x ∈ seps, findSub x s = none) :
    srsStringMinMatch s seps = none := by
  refine List.foldlRecOn (motive := fun b => b = none) seps _ rfl ?_
  rintro b rfl x hx
  exact minMatchTurn_none (h x hx) none

/-! ### The first separator -/

theorem exists_cons_of_mem_queryFlags {x : Bytes} (hx : x ∈ queryFlags) :
    ∃ d t, x = d :: t ∧ IsSep d := by
  have hall : ∀ x ∈ queryFlags, x ≠ [] ∧ ∀ d ∈ x.head?, d ∈ str "=,&;" := by
    decide +kernel
  obtain ⟨hne, hhead⟩ := hall x hx
  obtain ⟨d, t, rfl⟩ := List.exists_cons_of_ne_nil hne
  exact ⟨d, t, rfl, hhead d rfl⟩

/-- A separator occurs where its first byte stands, and that is no byte of a text without separators. -/
theorem findSub_sep {x : Bytes} {j : Nat} (ha : NoSep a) (hx : x ∈ queryFlags)
    (h : findSub x (a ++ rest) = some j) :
    a.length ≤ j ∧ ∃ d t, x = d :: t ∧ IsSep d ∧ x <+: rest.drop (j - a.length) := by
  obtain ⟨⟨hle, hat⟩, -⟩ := findSub_eq_some_iff.1 h
  obtain ⟨d, t, rfl, hd⟩ := exists_cons_of_mem_queryFlags hx
  have hj : a.length ≤ j := by
    by_contra hlt
    rw [List.drop_append_of_le_length (by omega), List.drop_eq_getElem_cons (by omega)] at hat
    exact ha _ (List.getElem_mem _) ((List.cons_prefix_cons.1 hat).1 ▸ hd)
  refine ⟨hj, d, t, rfl, hd, ?_⟩
  rwa [List.drop_append, List.drop_eq_nil_of_le hj, List.nil_append] at hat

theorem findSub_noSep {x : Bytes} (hs : NoSep s) (hx : x ∈ queryFlags) : findSub x s = none := by
  by_contra hsome
  obtain ⟨j, hj⟩ := Option.ne_none_iff_exists'.1 hsome
  have hj' : findSub x (s ++ []) = some j := by rwa [List.append_nil]
  obtain ⟨-, d, t, rfl, -, hpre⟩ := findSub_sep hs hx hj'
  rw [List.drop_nil, List.prefix_nil] at hpre
  cases hpre

/-- The separator that is chosen behind a text without one. -/
def sepAt (c : Byte) (rest : Bytes) : Bytes :=
  if c = chr '&' ∧ rest.head? = some (chr '&') then str "&&" else [c]

theorem sepAt_front (c : Byte) (rest : Bytes) : sepAt c rest <+: c :: rest := by
  rw [sepAt]
  by_cases h : c = chr '&' ∧ rest.head? = some (chr '&')
  · rw [if_pos h]
    obtain ⟨rfl, hrest⟩ := h
    cases rest with
    | nil => cases hrest
    | cons d rest =>
      cases hrest
      exact ⟨rest, rfl⟩
  · rw [if_neg h]
    exact ⟨rest, rfl⟩

/-- The separators in front of the chosen one are the longer ones, and none of them stands there. -/
theorem exists_flags_split (hc : IsSep c) (rest : Bytes) :
    ∃ seps₁ seps₂, queryFlags = seps₁ ++ sepAt c rest :: seps₂ ∧ ∀ x ∈ seps₁, ¬ x <+: c :: rest := by
  have hsep : ∀ c ∈ str "=,&;", c = chr '=' ∨ c = chr ',' ∨ c = chr '&' ∨ c = chr ';' :=
    List.all_iff_forall_prop.1 rfl
  have hhead : ∀ {seps₁ : List Bytes} {c : Byte}, (∀ x ∈ seps₁, x ≠ [] ∧ x.head? ≠ some c) →
      ∀ x ∈ seps₁, ¬ x <+: c :: rest := by
    intro seps₁ c h x hx hpre
    obtain ⟨hne, hx⟩ := h x hx
    obtain ⟨d, t, rfl⟩ := List.exists_cons_of_ne_nil hne
    exact hx (congrArg some (List.cons_prefix_cons.1 hpre).1)
  rcases hsep c hc with rfl | rfl | rfl | rfl
  · rw [sepAt, if_neg (by simp [chr])]
    exact ⟨[], [str ",", str "&&", str "&", str ";"], rfl, by simp⟩
  · rw [sepAt, if_neg (by simp [chr])]
    exact ⟨[str "="], [str "&&", str "&", str ";"], rfl, hhead (by decide)⟩
  · by_cases hrest : rest.head? = some (chr '&')
    · rw [sepAt, if_pos ⟨rfl, hrest⟩]
      exact ⟨[str "=", str ","], [str "&", str ";"], rfl, hhead (by decide)⟩
    · rw [sepAt, if_neg fun h => hrest h.2]
      refine ⟨[str "=", str ",", str "&&"], [str ";"], rfl, ?_⟩
      intro x hx
      rcases List.mem_append.1 (show x ∈ [str "=", str ","] ++ [str "&&"] from hx) with hx | hx
      · exact hhead (by decide) x hx
      · rw [List.mem_singleton.1 hx]
        rintro ⟨t, ht⟩
        refine hrest ?_
        rw [← (List.cons.inj ht).2]
        rfl
  · rw [sepAt, if_neg (by simp [chr])]
    exact ⟨[str "=", str ",", str "&&", str "&"], [], rfl, hhead (by decide)⟩

theorem srsStringMinMatch_at (ha : NoSep a) (hc : IsSep c) (rest : Bytes) :
    srsStringMinMatch (a ++ c :: rest) queryFlags = some (a.length, sepAt c rest) := by
  obtain ⟨seps₁, seps₂, hflags, hfront⟩ := exists_flags_split hc rest
  have hmem : ∀ {x}, x ∈ seps₁ ++ sepAt c rest :: seps₂ → x ∈ queryFlags := fun h => hflags ▸ h
  have hle : ∀ x ∈ queryFlags, ∀ j, findSub x (a ++ c :: rest) = some j → a.length ≤ j :=
    fun x hx j hj => (findSub_sep ha hx hj).1
  rw [hflags]
  refine srsStringMinMatch_eq ?_ ?_ fun x hx j hj => hle x (hmem (by simp [hx])) j hj
  · rw [findSub_eq_some_iff]
    refine ⟨⟨by simp, by rw [List.drop_left]; exact sepAt_front c rest⟩, fun j hj hat => ?_⟩
    obtain ⟨d, t, heq, hd⟩ := exists_cons_of_mem_queryFlags (hmem (x := sepAt c rest) (by simp))
    rw [heq, List.drop_append_of_le_length (by omega), List.drop_eq_getElem_cons hj] at hat
    exact ha _ (List.getElem_mem _) ((List.cons_prefix_cons.1 hat).1 ▸ hd)
  · intro x hx j hj
    obtain ⟨hj', -, -, -, -, hpre⟩ := findSub_sep ha (hmem (by simp [hx])) hj
    refine lt_of_le_of_ne hj' ?_
    rintro rfl
    rw [Nat.sub_self] at hpre
    exact hfront x hx hpre

/-! ### Splitting -/

theorem srsStringMinMatch_noSep (hs : NoSep s) : srsStringMinMatch s queryFlags = none :=
  srsStringMinMatch_eq_none fun _ hx => findSub_noSep hs hx

/-- A text has no separator, or is cut at the first one. -/
theorem noSep_or_split (s : Bytes) : NoSep s ∨ ∃ a c rest, s = a ++ c :: rest ∧ NoSep a ∧ IsSep c := by
  induction s with
  | nil => exact Or.inl (by simp [NoSep])
  | cons d s ih =>
    by_cases hd : IsSep d
    · exact Or.inr ⟨[], d, s, rfl, by simp [NoSep], hd⟩
    · rcases ih with hs | ⟨a, c, rest, rfl, ha, hc⟩
      · exact Or.inl (List.forall_mem_cons.2 ⟨hd, hs⟩)
      · exact Or.inr ⟨d :: a, c, rest, rfl, List.forall_mem_cons.2 ⟨hd, ha⟩, hc⟩

theorem sepAt_length_pos (c : Byte) (rest : Bytes) : 0 < (sepAt c rest).length := by
  rw [sepAt]
  split_ifs
  · decide
  · exact Nat.one_pos

theorem splitAnyLoop_noSep (hs : NoSep s) (fuel : Nat) :
    splitAnyLoop queryFlags fuel s = if s = [] then [] else [s] := by
  cases fuel with
  | zero => rfl
  | succ fuel => rw [splitAnyLoop, srsStringMinMatch_noSep hs]

theorem splitAnyLoop_at (ha : NoSep a) (hc : IsSep c) (rest : Bytes) (fuel : Nat) :
    splitAnyLoop queryFlags (fuel + 1) (a ++ c :: rest) =
      a :: splitAnyLoop queryFlags fuel ((c :: rest).drop (sepAt c rest).length) := by
  rw [splitAnyLoop, srsStringMinMatch_at ha hc]
  simp only
  rw [List.take_left, List.drop_append, List.drop_eq_nil_of_le (by omega), List.nil_append,
    Nat.add_sub_cancel_left]

/-- More turns than the text has bytes change nothing. -/
theorem splitAnyLoop_fuel {f g : Nat} (hf : s.length ≤ f) (hg : s.length ≤ g) :
    splitAnyLoop queryFlags f s = splitAnyLoop queryFlags g s := by
  induction f generalizing s g with
  | zero =>
    have hnil : s = [] := List.eq_nil_of_length_eq_zero (by omega)
    have hs : NoSep s := by simp [hnil, NoSep]
    rw [splitAnyLoop_noSep hs, splitAnyLoop_noSep hs]
  | succ f ih =>
    rcases noSep_or_split s with hs | ⟨a, c, rest, rfl, ha, hc⟩
    · rw [splitAnyLoop_noSep hs, splitAnyLoop_noSep hs]
    · rw [List.length_append, List.length_cons] at hf hg
      obtain ⟨g, rfl⟩ : ∃ k, g = k + 1 := ⟨g - 1, by omega⟩
      have hpos := sepAt_length_pos c rest
      rw [splitAnyLoop_at ha hc, splitAnyLoop_at ha hc, ih]
      · rw [List.length_drop, List.length_cons]
        omega
      · rw [List.length_drop, List.length_cons]
        omega

/-- The pieces of a query string. -/
def pieces (s : Bytes) : List Bytes := srsStringSplitAny s queryFlags

theorem pieces_noSep (hs : NoSep s) : pieces s = if s = [] then [] else [s] :=
  splitAnyLoop_noSep hs _

/-- A text is cut at the first separator. -/
theorem pieces_at (ha : NoSep a) (hc : IsSep c) (rest : Bytes) :
    pieces (a ++ c :: rest) = a :: pieces ((c :: rest).drop (sepAt c rest).length) := by
  have hpos := sepAt_length_pos c rest
  rw [pieces, srsStringSplitAny, splitAnyLoop_fuel (g := (a ++ c :: rest).length + 1) (le_refl _)
    (by omega), splitAnyLoop_at ha hc]
  refine congrArg (a :: ·) (splitAnyLoop_fuel ?_ (le_refl _))
  rw [List.length_drop, List.length_cons, List.length_append, List.length_cons]
  omega

/-- A text is cut at its first separator until none is left. -/
theorem split_induction {P : Bytes → Prop} (hend : ∀ s, NoSep s → P s)
    (hat : ∀ a c rest, NoSep a → IsSep c → P ((c :: rest).drop (sepAt c rest).length) →
      P (a ++ c :: rest)) (s : Bytes) : P s := by
  induction h : s.length using Nat.strong_induction_on generalizing s with
  | _ n ih =>
    rcases noSep_or_split s with hs | ⟨a, c, rest, rfl, ha, hc⟩
    · exact hend s hs
    · have hpos := sepAt_length_pos c rest
      refine hat a c rest ha hc (ih _ ?_ _ rfl)
      rw [← h, List.length_drop, List.length_append, List.length_cons]
      omega

/-- No piece has a separator. -/
theorem noSep_of_mem_pieces {p : Bytes} (h : p ∈ pieces s) : NoSep p := by
  induction s using split_induction with
  | hend s hs =>
    rw [pieces_noSep hs] at h
    split at h
    · cases h
    · rw [List.mem_singleton.1 h]
      exact hs
  | hat a c rest ha hc ih =>
    rw [pieces_at ha hc] at h
    rcases List.mem_cons.1 h with rfl | h
    · exact ha
    · exact ih h

theorem length_pieces_le (s : Bytes) : (pieces s).length ≤ s.length := by
  induction s using split_induction with
  | hend s hs =>
    rw [pieces_noSep hs]
    split
    · exact Nat.zero_le _
    · rename_i hne
      exact List.length_pos_iff.2 hne
  | hat a c rest ha hc ih =>
    have hpos := sepAt_length_pos c rest
    rw [List.length_drop, List.length_cons] at ih
    rw [pieces_at ha hc, List.length_cons, List.length_append, List.length_cons]
    omega

end Split

/-! ## Items -/

/-- A key with a value, or a bare key, without separators in them.  A bare key has a byte. -/
structure QueryItem where
  key : Bytes
  value : Option Bytes
  key_noSep : NoSep key
  value_noSep : ∀ v ∈ value, NoSep v
  bare_ne_nil : value = none → key ≠ []

namespace QueryItem

variable {i j : QueryItem} {items : List QueryItem}

/-- How an item is written. -/
def text (i : QueryItem) : Bytes :=
  match i.value with
  | some v => i.key ++ chr '=' :: v
  | none => i.key

/-- The items in one text. -/
def joined (items : List QueryItem) : Bytes := [chr '&'].intercalate (items.map text)

/-- What an item stands for: its key has its value, or the empty one. -/
def meaning (i : QueryItem) : Bytes × Bytes := (i.key, i.value.getD [])

/-- A key with a value. -/
def ofValue {k v : Bytes} (hk : NoSep k) (hv : NoSep v) : QueryItem where
  key := k
  value := some v
  key_noSep := hk
  value_noSep := fun _ h => Option.mem_some.1 h ▸ hv
  bare_ne_nil := fun h => absurd h (Option.some_ne_none v)

theorem text_ofValue {k v : Bytes} (hk : NoSep k) (hv : NoSep v) :
    (ofValue hk hv).text = k ++ chr '=' :: v := rfl

theorem meaning_ofValue {k v : Bytes} (hk : NoSep k) (hv : NoSep v) :
    (ofValue hk hv).meaning = (k, v) := rfl

/-- The pieces an item is cut into. -/
def parts (i : QueryItem) : List Bytes := i.key :: i.value.toList

/-- The pieces of a text that ends with a separator have no empty one at the end. -/
def trimmed : List Bytes → List Bytes
  | [] => []
  | [p] => if p = [] then [] else [p]
  | p :: q :: l => p :: trimmed (q :: l)

theorem trimmed_cons (p : Bytes) {l : List Bytes} (h : l ≠ []) : trimmed (p :: l) = p :: trimmed l := by
  cases l with
  | nil => exact absurd rfl h
  | cons q l => rfl

theorem isSep_eq : IsSep (chr '=') := by unfold IsSep; decide

theorem isSep_amp : IsSep (chr '&') := by unfold IsSep; decide

theorem head?_text_ne (i : QueryItem) (rest : Bytes) : (i.text ++ rest).head? ≠ some (chr '&') := by
  have hkey : ∀ {t : Bytes}, NoSep t → t ≠ [] → ∀ u, (t ++ u).head? ≠ some (chr '&') := by
    intro t ht hne u hhead
    obtain ⟨c, t, rfl⟩ := List.exists_cons_of_ne_nil hne
    cases hhead
    exact ht _ List.mem_cons_self isSep_amp
  rw [text]
  rcases hv : i.value with _ | v
  · exact hkey i.key_noSep (i.bare_ne_nil hv) rest
  · by_cases hnil : i.key = []
    · rw [hnil]
      simp [chr]
    · rw [List.append_assoc]
      exact hkey i.key_noSep hnil _

theorem joined_cons (i j : QueryItem) (items : List QueryItem) :
    joined (i :: j :: items) = i.text ++ chr '&' :: joined (j :: items) := by
  rw [joined, List.map_cons, List.map_cons, List.intercalate_cons_cons, ← List.map_cons]
  exact List.append_assoc _ [chr '&'] _

theorem head?_joined_ne (i : QueryItem) (items : List QueryItem) :
    (joined (i :: items)).head? ≠ some (chr '&') := by
  cases items with
  | nil =>
    rw [joined, List.map_singleton, List.intercalate_singleton, ← List.append_nil i.text]
    exact head?_text_ne i []
  | cons j items =>
    rw [joined_cons]
    exact head?_text_ne i _

/-- An item in front of a separator. -/
theorem pieces_text_amp (i : QueryItem) {rest : Bytes} (hrest : rest.head? ≠ some (chr '&')) :
    pieces (i.text ++ chr '&' :: rest) = i.parts ++ pieces rest := by
  have hamp : ∀ {t : Bytes}, NoSep t → pieces (t ++ chr '&' :: rest) = t :: pieces rest := by
    intro t ht
    rw [pieces_at ht isSep_amp, sepAt, if_neg fun h => hrest h.2]
    rfl
  rw [text, parts]
  rcases hv : i.value with _ | v
  · exact hamp i.key_noSep
  · rw [List.append_assoc, List.cons_append, pieces_at i.key_noSep isSep_eq, sepAt,
      if_neg (by simp [chr])]
    exact congrArg (i.key :: ·) (hamp (i.value_noSep v hv))

/-- An item at the end. -/
theorem pieces_text (i : QueryItem) : pieces i.text = trimmed i.parts := by
  rw [text, parts]
  rcases hv : i.value with _ | v
  · rw [pieces_noSep i.key_noSep]
    rfl
  · rw [pieces_at i.key_noSep isSep_eq, sepAt, if_neg (by simp [chr])]
    exact congrArg (i.key :: ·) (pieces_noSep (i.value_noSep v hv))

theorem trimmed_append (l : List Bytes) {m : List Bytes} (h : m ≠ []) :
    trimmed (l ++ m) = l ++ trimmed m := by
  induction l with
  | nil => rfl
  | cons p l ih => rw [List.cons_append, trimmed_cons p (by simp [h]), ih, List.cons_append]

/-- The pieces of a text of items are the parts of the items. -/
theorem pieces_joined (items : List QueryItem) :
    pieces (joined items) = trimmed (items.flatMap parts) := by
  induction items with
  | nil => exact pieces_noSep (s := []) (by simp [NoSep])
  | cons i items ih =>
    cases items with
    | nil =>
      rw [joined, List.map_singleton, List.intercalate_singleton, pieces_text, List.flatMap_singleton]
    | cons j items =>
      rw [joined_cons, pieces_text_amp i (head?_joined_ne j items), ih, List.flatMap_cons]
      exact (trimmed_append i.parts (by simp [parts])).symm

/-- Only the last item may be a bare key. -/
def OnlyLastBare (items : List QueryItem) : Prop := ∀ i ∈ items.dropLast, i.value ≠ none

theorem onlyLastBare_cons_iff (i j : QueryItem) (items : List QueryItem) :
    OnlyLastBare (i :: j :: items) ↔ i.value ≠ none ∧ OnlyLastBare (j :: items) := by
  rw [OnlyLastBare, List.dropLast_cons_cons]
  exact List.forall_mem_cons

theorem parts_of_value (h : i.value ≠ none) : i.parts = [i.meaning.1, i.meaning.2] := by
  rw [parts, meaning]
  cases hv : i.value with
  | none => exact absurd hv h
  | some v => rfl

theorem pairUp_trimmed_parts (i : QueryItem) : pairUp (trimmed i.parts) = [i.meaning] := by
  rw [parts, meaning]
  cases hv : i.value with
  | none =>
    show pairUp (if i.key = [] then [] else [i.key]) = _
    rw [if_neg (i.bare_ne_nil hv)]
    rfl
  | some v =>
    show pairUp (i.key :: if v = [] then [] else [v]) = _
    by_cases hnil : v = []
    · rw [if_pos hnil, hnil]
      rfl
    · rw [if_neg hnil]
      rfl

/-- In front of the last item every item is a pair of pieces, and these are paired as they should. -/
theorem pairUp_of_onlyLastBare (h : OnlyLastBare items) :
    pairUp (trimmed (items.flatMap parts)) = items.map meaning := by
  induction items with
  | nil => rfl
  | cons i items ih =>
    cases items with
    | nil => rw [List.flatMap_singleton, pairUp_trimmed_parts, List.map_singleton]
    | cons j items =>
      obtain ⟨hi, hrest⟩ := (onlyLastBare_cons_iff i j items).1 h
      rw [List.flatMap_cons, trimmed_append _ (by simp [parts]), parts_of_value hi, List.map_cons,
        ← ih hrest]
      rfl

theorem length_trimmed_le (l : List Bytes) : (trimmed l).length ≤ l.length := by
  induction l with
  | nil => exact le_refl _
  | cons p l ih =>
    cases l with
    | nil =>
      rw [trimmed]
      split_ifs <;> simp
    | cons q l => exact Nat.succ_le_succ ih

theorem length_parts_le (items : List QueryItem) : (items.flatMap parts).length ≤ 2 * items.length := by
  induction items with
  | nil => exact le_refl _
  | cons i items ih =>
    have hi : i.parts.length ≤ 2 := by
      rw [parts]
      cases i.value <;> simp
    rw [List.flatMap_cons, List.length_append, List.length_cons]
    omega

/-- The number of the pieces is an `int`, and so is the counter behind the last one. -/
theorem length_pieces_joined (h : items.length < 2 ^ 30) : (pieces (joined items)).length + 1 < 2 ^ 31 := by
  have h1 := length_trimmed_le (items.flatMap parts)
  have h2 := length_parts_le items
  rw [pieces_joined]
  omega

theorem queryAssignments_joined (hcount : items.length < 2 ^ 30) (h : OnlyLastBare items) :
    queryAssignments (joined items) = items.map meaning := by
  have hlen := length_pieces_joined hcount
  rw [← pairUp_of_onlyLastBare h, ← pieces_joined]
  exact congrArg pairUp (intLoop_eq_self (l := pieces (joined items)) (by omega))

end QueryItem

/-- A lookup finds the value that was assigned last. -/
theorem find?_srsParseQueryString (q key : Bytes) :
    (srsParseQueryString q .empty).find? key = OrdMap.findIn key (queryAssignments q).reverse := by
  rw [srsParseQueryString, OrdMap.find?_foldl_insert, OrdMap.find?_empty, Option.or_none]

/-! ## Escaped pairs -/

section Pairs

/-- The pairs, escaped, in one text. -/
def queryOf (pairs : List (Bytes × Bytes)) : Bytes :=
  [chr '&'].intercalate (pairs.map fun p =>
    SrsHttpUri.queryEscape p.1 ++ chr '=' :: SrsHttpUri.queryEscape p.2)

/-- The text is read as the map from the escaped keys to the escaped values, of which the last one
counts. -/
def ReadsBack (pairs : List (Bytes × Bytes)) : Prop :=
  ∀ key, (srsParseQueryString (queryOf pairs) .empty).find? key =
    OrdMap.findIn key
      (pairs.map fun p => (SrsHttpUri.queryEscape p.1, SrsHttpUri.queryEscape p.2)).reverse

/-- An escaped text has no separator. -/
theorem noSep_queryEscape {s : Bytes} (hs : s.length < 2 ^ 31) : NoSep (SrsHttpUri.queryEscape s) := by
  have hfacts : ∀ c ∈ str "=,&;", c ≠ chr '%' ∧ ishex c = false ∧ ¬ QueryByte c := by
    unfold QueryByte
    exact List.all_iff_forall_prop.1 rfl
  intro c hc hsep
  obtain ⟨hpercent, hhex, hkind⟩ := hfacts c hsep
  exact (queryEscape_escaped hs).notMem hpercent hhex hkind hc

theorem exists_items {esc : Bytes → Bytes} {pairs : List (Bytes × Bytes)}
    (h : ∀ p ∈ pairs, NoSep (esc p.1) ∧ NoSep (esc p.2)) :
    ∃ items : List QueryItem, items.map QueryItem.text = (pairs.map fun p => esc p.1 ++ chr '=' :: esc p.2) ∧
      items.map QueryItem.meaning = (pairs.map fun p => (esc p.1, esc p.2)) ∧
      ∀ i ∈ items, i.value ≠ none := by
  refine ⟨pairs.pmap (fun _ h => QueryItem.ofValue h.1 h.2) h, ?_, ?_, ?_⟩
  · rw [List.map_pmap]
    simp only [QueryItem.text_ofValue, List.pmap_eq_map]
  · rw [List.map_pmap]
    simp only [QueryItem.meaning_ofValue, List.pmap_eq_map]
  · intro i hi
    obtain ⟨p, hp, rfl⟩ := List.mem_pmap.1 hi
    exact Option.some_ne_none _

/-- **Escaped pairs are read back**, whatever the keys and the values are, as long as their lengths
are ints, and the number of the pieces is one. -/
theorem readsBack_escaped (pairs : List (Bytes × Bytes))
    (hlen : ∀ p ∈ pairs, p.1.length < 2 ^ 31 ∧ p.2.length < 2 ^ 31) (hcount : pairs.length < 2 ^ 30) :
    ReadsBack pairs := by
  obtain ⟨items, htext, hmeaning, hvalue⟩ := exists_items fun p hp =>
    ⟨noSep_queryEscape (hlen p hp).1, noSep_queryEscape (hlen p hp).2⟩
  have hlast : QueryItem.OnlyLastBare items := fun i hi => hvalue i (List.mem_of_mem_dropLast hi)
  have hcount' : items.length < 2 ^ 30 := by
    rwa [← List.length_map (f := QueryItem.meaning), hmeaning, List.length_map]
  intro key
  have hassigned := QueryItem.queryAssignments_joined hcount' hlast
  rw [QueryItem.joined] at hassigned
  rw [find?_srsParseQueryString, queryOf, ← htext, ← hmeaning, hassigned]

/-- Empty keys and values, and a key that comes twice. -/
theorem readsBack_escaped_empty :
    ReadsBack [(str "a", str "1&2"), ([], []), (str "a", []), ([], str "x")] :=
  readsBack_escaped _ (by decide) (by decide)

/-- What is assigned is a piece, or empty. -/
theorem mem_pairUp {l : List Bytes} {e : Bytes × Bytes} (h : e ∈ pairUp l) :
    e.1 ∈ l ∧ (e.2 ∈ l ∨ e.2 = []) := by
  induction l using pairUp.induct with
  | case1 => cases h
  | case2 k =>
    rw [List.mem_singleton.1 h]
    exact ⟨List.mem_singleton_self k, Or.inr rfl⟩
  | case3 k v rest ih =>
    rcases List.mem_cons.1 h with rfl | h
    · exact ⟨by simp, Or.inl (by simp)⟩
    · obtain ⟨h1, h2⟩ := ih h
      exact ⟨by simp [h1], h2.imp_left fun h => by simp [h]⟩

theorem noSep_of_mem_queryAssignments {q : Bytes} {e : Bytes × Bytes} (h : e ∈ queryAssignments q) :
    NoSep e.2 := by
  rcases (mem_pairUp h).2 with hmem | hnil
  · exact noSep_of_mem_pieces (List.mem_of_mem_take hmem)
  · rw [hnil]
    exact fun c hc => absurd hc List.not_mem_nil

/-- A text of 2 ^ 31 bytes is not escaped, because its length as an `int` is negative. -/
theorem queryEscape_of_length {s : Bytes} (h : s.length = 2 ^ 31) : SrsHttpUri.queryEscape s = s := by
  have hnone : intLoop s = [] := by
    rw [intLoop, h]
    rfl
  rw [SrsHttpUri.queryEscape, escape, hnone]
  exact if_pos ⟨rfl, rfl⟩

theorem not_readsBack_of_length {s : Bytes} (h : s.length = 2 ^ 31) (hsep : chr '&' ∈ s) :
    ¬ ReadsBack [([], s)] := by
  intro hread
  have hkey := hread []
  have hnil : SrsHttpUri.queryEscape [] = [] := rfl
  rw [find?_srsParseQueryString, List.map_singleton, List.reverse_singleton, hnil,
    queryEscape_of_length h] at hkey
  have hmem := OrdMap.mem_of_findIn hkey
  exact noSep_of_mem_queryAssignments (List.mem_reverse.1 hmem) _ hsep QueryItem.isSep_amp

/-- A value of 2 ^ 31 separators is not read back. -/
theorem not_readsBack_long : ¬ ReadsBack [([], List.replicate (2 ^ 31) (chr '&'))] :=
  not_readsBack_of_length List.length_replicate (List.mem_replicate.2 ⟨by norm_num, rfl⟩)

end Pairs

end HttpProxy
