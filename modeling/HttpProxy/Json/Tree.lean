import HttpProxy.Json.Value

/-!
# From the parser's tree to a value

`srs_json_parse_tree` and `SrsJsonAny::loads` of `src/protocol/srs_protocol_json.cpp`, lines
1643-1706.  The parser itself, which is a library inside of that file, is a parameter.

* `JsonValue` — what the parser returns; `Proper` are the trees of the seven types.
* `srsJsonParseTree`, `loads` — the conversion.
* `Converts` — the trees that it returns a value for; `srsJsonParseTree_returns_iff`.
* `Converted` — the value has the elements of the arrays in order, and its objects are the maps in
  which the last member with a name wins.
* `IntSized` — nothing that counts is longer than an `int` can count.
* `conversion_iff` — the value is the converted one exactly when the tree fits, and a sequence of
  calls of `set` makes the map of its calls exactly when an `int` can count the names.
-/

namespace HttpProxy

/-- `json_value`, over the doubles `δ`. -/
inductive JsonValue (δ : Type)
  /-- NULL, or a value of the type `json_none`. -/
  | none
  | object (values : List (Bytes × JsonValue δ))
  | array (values : List (JsonValue δ))
  | integer (value : Int)
  | double (value : δ)
  | string (text : Bytes)
  | boolean (value : Int)
  | null

variable {δ ε : Type}

/-- `new SrsJsonString(v, s)`, where the length goes through an `int`: the negative ones are
lengths that no string has. -/
def newString (text : Bytes) : Outcome ε (SrsJsonAny δ) :=
  if 0 ≤ toInt32 text.length then .done (.str (intLoop text)) else .fault .lengthError

/-- The loop over the members of an object, when these are converted. -/
def setEach : List (Bytes × Outcome ε (Option (SrsJsonAny δ))) → SrsJsonObject δ →
    Outcome ε (Option (SrsJsonAny δ))
  | [], obj => .done (some (.object obj))
  | (name, converted) :: entries, obj =>
      converted.bind fun value =>
        match value with
        | none => .done none
        | some value => setEach entries (obj.set name (some value))

/-- The loop over the elements of an array, when these are converted. -/
def addEach : List (Outcome ε (Option (SrsJsonAny δ))) → List (SrsJsonAny δ) →
    Outcome ε (Option (SrsJsonAny δ))
  | [], arr => .done (some (.array arr))
  | converted :: values, arr =>
      converted.bind fun value =>
        match value with
        | none => .done none
        | some value => addEach values (arr ++ [value])

mutual

/-- `srs_json_parse_tree`. -/
def srsJsonParseTree : JsonValue δ → Outcome ε (Option (SrsJsonAny δ))
  | .none => .done none
  | .null => .done (some .null)
  | .string text => (newString text).bind fun value => .done (some value)
  | .integer value => .done (some (.integer value))
  | .double value => .done (some (.number value))
  | .boolean value => .done (some (.boolean (value != 0)))
  | .object values => setEach (intLoop (parseEntries values)) []
  | .array values => addEach (intLoop (parseValues values)) []

/-- The members of an object, each converted. -/
def parseEntries : List (Bytes × JsonValue δ) → List (Bytes × Outcome ε (Option (SrsJsonAny δ)))
  | [] => []
  | (name, value) :: values => (name, srsJsonParseTree value) :: parseEntries values

/-- The elements of an array, each converted. -/
def parseValues : List (JsonValue δ) → List (Outcome ε (Option (SrsJsonAny δ)))
  | [] => []
  | value :: values => srsJsonParseTree value :: parseValues values

end

/-- `SrsJsonAny::loads`. -/
def loads (jsonParse : Bytes → JsonValue δ) (text : Bytes) : Outcome ε (Option (SrsJsonAny δ)) :=
  if text = [] then .done none else srsJsonParseTree (jsonParse text)

theorem parseEntries_eq (values : List (Bytes × JsonValue δ)) :
    parseEntries (ε := ε) values = values.map fun e => (e.1, srsJsonParseTree e.2) := by
  induction values with
  | nil => rfl
  | cons e values ih => rw [parseEntries, ih, List.map_cons]

theorem parseValues_eq (values : List (JsonValue δ)) :
    parseValues (ε := ε) values = values.map srsJsonParseTree := by
  induction values with
  | nil => rfl
  | cons value values ih => rw [parseValues, ih, List.map_cons]

/-- What holds of a tree when it holds of all of its members and elements holds of every tree. -/
@[elab_as_elim]
theorem JsonValue.treeInduction {motive : JsonValue δ → Prop} (none : motive .none)
    (object : ∀ values, (∀ e ∈ values, motive e.2) → motive (.object values))
    (array : ∀ values, (∀ v ∈ values, motive v) → motive (.array values))
    (integer : ∀ v, motive (.integer v)) (double : ∀ v, motive (.double v))
    (string : ∀ text, motive (.string text)) (boolean : ∀ v, motive (.boolean v))
    (null : motive .null) : ∀ node, motive node := by
  refine JsonValue.rec (motive_1 := motive) (motive_2 := fun values => ∀ e ∈ values, motive e.2)
    (motive_3 := fun values => ∀ v ∈ values, motive v) (motive_4 := fun e => motive e.2)
    none object array integer double string boolean null ?_ ?_ ?_ ?_ ?_
  · exact fun e he => absurd he List.not_mem_nil
  · exact fun e values he hvalues => List.forall_mem_cons.2 ⟨he, hvalues⟩
  · exact fun v hv => absurd hv List.not_mem_nil
  · exact fun v values hv hvalues => List.forall_mem_cons.2 ⟨hv, hvalues⟩
  · exact fun _ _ h => h

/-! ## What the loops return -/

/-- The conversion of a node returned this value. -/
abbrev Returned (ε : Type) (node : JsonValue δ) (value : SrsJsonAny δ) : Prop :=
  srsJsonParseTree (ε := ε) node = .done (some value)

theorem addEach_eq {nodes : List (JsonValue δ)} {arr : List (SrsJsonAny δ)} {v : SrsJsonAny δ} :
    addEach (nodes.map (srsJsonParseTree (ε := ε))) arr = .done (some v) ↔
      ∃ values, List.Forall₂ (Returned ε) nodes values ∧ v = .array (arr ++ values) := by
  induction nodes generalizing arr with
  | nil => simp [addEach, eq_comm]
  | cons node nodes ih =>
    rw [List.map_cons, addEach, Outcome.bind_eq_done]
    constructor
    · rintro ⟨value, hvalue, hrest⟩
      cases value with
      | none => simp at hrest
      | some value =>
        obtain ⟨values, hvalues, rfl⟩ := ih.1 hrest
        exact ⟨value :: values, .cons hvalue hvalues, by simp⟩
    · rintro ⟨values, hvalues, rfl⟩
      cases hvalues with
      | @cons _ value _ values hvalue hvalues =>
        exact ⟨some value, hvalue, ih.2 ⟨values, hvalues, by simp⟩⟩

theorem setEach_eq {entries : List (Bytes × JsonValue δ)} {obj : SrsJsonObject δ}
    {v : SrsJsonAny δ} :
    setEach (entries.map fun e => (e.1, srsJsonParseTree (ε := ε) e.2)) obj = .done (some v) ↔
      ∃ ms, List.Forall₂ (fun e m => e.1 = m.1 ∧ Returned ε e.2 m.2) entries ms ∧
        v = .object (Assoc.putAll obj ms) := by
  induction entries generalizing obj with
  | nil => simp [setEach, Assoc.putAll, eq_comm]
  | cons e entries ih =>
    rw [List.map_cons, setEach, Outcome.bind_eq_done]
    constructor
    · rintro ⟨value, hvalue, hrest⟩
      cases value with
      | none => simp at hrest
      | some value =>
        obtain ⟨ms, hms, rfl⟩ := ih.1 hrest
        exact ⟨(e.1, value) :: ms, .cons ⟨rfl, hvalue⟩ hms, rfl⟩
    · rintro ⟨ms, hms, rfl⟩
      cases hms with
      | @cons _ m _ ms hm hms =>
        obtain ⟨name, value⟩ := m
        obtain ⟨rfl, hvalue⟩ : e.1 = name ∧ Returned ε e.2 value := hm
        exact ⟨some value, hvalue, ih.2 ⟨ms, hms, rfl⟩⟩

theorem returned_array {nodes : List (JsonValue δ)} {v : SrsJsonAny δ} :
    Returned ε (.array nodes) v ↔
      ∃ values, List.Forall₂ (Returned ε) (intLoop nodes) values ∧ v = .array values := by
  rw [Returned, srsJsonParseTree, parseValues_eq, intLoop_map, addEach_eq]
  simp

theorem returned_object {entries : List (Bytes × JsonValue δ)} {v : SrsJsonAny δ} :
    Returned ε (.object entries) v ↔
      ∃ ms, List.Forall₂ (fun e m => e.1 = m.1 ∧ Returned ε e.2 m.2) (intLoop entries) ms ∧
        v = .object (Assoc.putAll [] ms) := by
  rw [Returned, srsJsonParseTree, parseEntries_eq, intLoop_map, setEach_eq]

theorem returned_string {text : Bytes} {v : SrsJsonAny δ} :
    Returned ε (.string text) v ↔ 0 ≤ toInt32 text.length ∧ v = .str (intLoop text) := by
  rw [Returned, srsJsonParseTree, newString]
  split
  · next h => simp [h, eq_comm]
  · next h => simp [h]

theorem Returned.unique {node : JsonValue δ} {v w : SrsJsonAny δ} (hv : Returned ε node v)
    (hw : Returned ε node w) : v = w := by
  rw [Returned, hv] at hw
  cases hw
  rfl

/-- Only a string is converted to a string. -/
theorem Returned.isString_iff {node : JsonValue δ} {v : SrsJsonAny δ} (h : Returned ε node v) :
    v.isString = true ↔ ∃ text, node = .string text := by
  cases node with
  | string text =>
    obtain ⟨-, rfl⟩ := returned_string.1 h
    exact ⟨fun _ => ⟨text, rfl⟩, fun _ => rfl⟩
  | object entries =>
    obtain ⟨ms, -, rfl⟩ := returned_object.1 h
    simp [SrsJsonAny.isString]
  | array nodes =>
    obtain ⟨values, -, rfl⟩ := returned_array.1 h
    simp [SrsJsonAny.isString]
  | none => rw [Returned, srsJsonParseTree] at h; cases h
  | null => cases h; simp [SrsJsonAny.isString]
  | integer => cases h; simp [SrsJsonAny.isString]
  | double => cases h; simp [SrsJsonAny.isString]
  | boolean => cases h; simp [SrsJsonAny.isString]

/-- Only an object is converted to an object. -/
theorem Returned.object {node : JsonValue δ} {ps : SrsJsonObject δ} (h : Returned ε node (.object ps)) :
    ∃ entries, node = .object entries := by
  cases node with
  | object entries => exact ⟨entries, rfl⟩
  | string text => cases (returned_string.1 h).2
  | array nodes =>
    obtain ⟨values, -, heq⟩ := returned_array.1 h
    cases heq
  | none => rw [Returned, srsJsonParseTree] at h; cases h
  | null => cases h
  | integer => cases h
  | double => cases h
  | boolean => cases h

/-- A lookup in an object finds what the last member of that name was converted to. -/
theorem rel_getProperty {α : Type} {R : α → SrsJsonAny δ → Prop} {entries : List (Bytes × α)}
    {ms : List (Bytes × SrsJsonAny δ)}
    (h : List.Forall₂ (fun e m => e.1 = m.1 ∧ R e.2 m.2) entries ms) (name : Bytes) :
    Option.Rel R (entries.reverse.lookup name)
      (SrsJsonObject.getProperty (Assoc.putAll [] ms) name) := by
  rw [SrsJsonObject.getProperty, (Assoc.isMapOf_putAll ms).lookup]
  exact Assoc.rel_lookup (List.forall₂_reverse_iff.2 h) name

/-! ## The trees that are converted -/

/-- The conversion reaches only nodes of the seven types, and no string whose length is negative as
an `int`. -/
inductive Converts : JsonValue δ → Prop
  | null : Converts .null
  | string {text} (h : 0 ≤ toInt32 text.length) : Converts (.string text)
  | integer (v) : Converts (.integer v)
  | double (v) : Converts (.double v)
  | boolean (v) : Converts (.boolean v)
  | object {entries} (h : ∀ e ∈ intLoop entries, Converts e.2) : Converts (.object entries)
  | array {nodes} (h : ∀ node ∈ intLoop nodes, Converts node) : Converts (.array nodes)

theorem intLoop_subset {α : Type} {l : List α} {a : α} (h : a ∈ intLoop l) : a ∈ l :=
  List.mem_of_mem_take h

/-- The values that the elements of a list are related to, as a list. -/
theorem exists_forall₂ {α β : Type} {R : α → β → Prop} {l : List α} (h : ∀ a ∈ l, ∃ b, R a b) :
    ∃ bs, List.Forall₂ R l bs := by
  induction l with
  | nil => exact ⟨[], .nil⟩
  | cons a l ih =>
    obtain ⟨b, hb⟩ := h a List.mem_cons_self
    obtain ⟨bs, hbs⟩ := ih fun a ha => h a (List.mem_cons_of_mem _ ha)
    exact ⟨b :: bs, .cons hb hbs⟩

theorem exists_of_forall₂ {α β : Type} {R : α → β → Prop} {l : List α} {bs : List β}
    (h : List.Forall₂ R l bs) {a : α} (ha : a ∈ l) : ∃ b, R a b := by
  induction h with
  | nil => cases ha
  | cons hR _ ih =>
    rcases List.mem_cons.1 ha with rfl | ha
    · exact ⟨_, hR⟩
    · exact ih ha

/-- The conversion returns a value for these trees and no others. -/
theorem srsJsonParseTree_returns_iff (node : JsonValue δ) :
    (∃ v, Returned ε node v) ↔ Converts node := by
  induction node using JsonValue.treeInduction with
  | none =>
    constructor
    · rintro ⟨v, hv⟩
      rw [Returned, srsJsonParseTree] at hv
      cases hv
    · intro h
      cases h
  | null => exact ⟨fun _ => .null, fun _ => ⟨_, rfl⟩⟩
  | integer v => exact ⟨fun _ => .integer v, fun _ => ⟨_, rfl⟩⟩
  | double v => exact ⟨fun _ => .double v, fun _ => ⟨_, rfl⟩⟩
  | boolean v => exact ⟨fun _ => .boolean v, fun _ => ⟨_, rfl⟩⟩
  | string text =>
    constructor
    · rintro ⟨v, hv⟩
      exact .string (returned_string.1 hv).1
    · rintro (h | h)
      exact ⟨_, returned_string.2 ⟨h, rfl⟩⟩
  | array nodes ih =>
    constructor
    · rintro ⟨v, hv⟩
      obtain ⟨values, hvalues, -⟩ := returned_array.1 hv
      exact .array fun node hnode => (ih node (intLoop_subset hnode)).1 (exists_of_forall₂ hvalues hnode)
    · intro h
      cases h with
      | array h =>
        have hex : ∀ node ∈ intLoop nodes, ∃ v, Returned ε node v := fun node hnode =>
          (ih node (intLoop_subset hnode)).2 (h node hnode)
        obtain ⟨values, hvalues⟩ := exists_forall₂ hex
        exact ⟨_, returned_array.2 ⟨values, hvalues, rfl⟩⟩
  | object entries ih =>
    constructor
    · rintro ⟨v, hv⟩
      obtain ⟨ms, hms, -⟩ := returned_object.1 hv
      refine .object fun e he => (ih e (intLoop_subset he)).1 ?_
      obtain ⟨m, -, hm⟩ := exists_of_forall₂ hms he
      exact ⟨m.2, hm⟩
    · intro h
      cases h with
      | object h =>
        have hex : ∀ e ∈ intLoop entries, ∃ m : Bytes × SrsJsonAny δ, e.1 = m.1 ∧ Returned ε e.2 m.2 := by
          intro e he
          obtain ⟨v, hv⟩ := (ih e (intLoop_subset he)).2 (h e he)
          exact ⟨(e.1, v), rfl, hv⟩
        obtain ⟨ms, hms⟩ := exists_forall₂ hex
        exact ⟨_, returned_object.2 ⟨ms, hms, rfl⟩⟩

/-! ## The converted value -/

/-- The trees of the seven types, whose lengths an `unsigned int` holds. -/
inductive Proper : JsonValue δ → Prop
  | null : Proper .null
  | string {text} (h : text.length < 2 ^ 32) : Proper (.string text)
  | integer (v) : Proper (.integer v)
  | double (v) : Proper (.double v)
  | boolean (v) : Proper (.boolean v)
  | object {entries} (hlen : entries.length < 2 ^ 32) (h : ∀ e ∈ entries, Proper e.2) :
      Proper (.object entries)
  | array {nodes} (hlen : nodes.length < 2 ^ 32) (h : ∀ node ∈ nodes, Proper node) :
      Proper (.array nodes)

/-- The properties are the map of the members in which the last one with a name wins: the names
are unique, `count` counts them, and `get_property` finds what `R` relates to the last value. -/
structure LastWins {α : Type} (R : α → SrsJsonAny δ → Prop) (members : List (Bytes × α))
    (properties : SrsJsonObject δ) : Prop where
  nodup : (properties.map Prod.fst).Nodup
  count : properties.count = (members.map Prod.fst).dedup.length
  last : ∀ name, Option.Rel R (members.reverse.lookup name) (properties.getProperty name)

/-- The value has what the tree has: the elements of each array in their order, and each object as
the map of its members. -/
inductive Converted : JsonValue δ → SrsJsonAny δ → Prop
  | null : Converted .null .null
  | string (text) : Converted (.string text) (.str text)
  | integer (v) : Converted (.integer v) (.integer v)
  | double (v) : Converted (.double v) (.number v)
  | boolean (v) : Converted (.boolean v) (.boolean (v != 0))
  | object {entries} {properties : SrsJsonObject δ} (hnodup : (properties.map Prod.fst).Nodup)
      (hcount : properties.count = (entries.map Prod.fst).dedup.length)
      (hlast : ∀ name, Option.Rel Converted (entries.reverse.lookup name) (properties.getProperty name)) :
      Converted (.object entries) (.object properties)
  | array {nodes values} (h : List.Forall₂ Converted nodes values) : Converted (.array nodes) (.array values)

/-- Every string that is reached, and every object and array that is not overwritten by a later
member of the same name, is shorter than `2 ^ 31`. -/
inductive IntSized : JsonValue δ → Prop
  | null : IntSized .null
  | string {text} (h : text.length < 2 ^ 31) : IntSized (.string text)
  | integer (v) : IntSized (.integer v)
  | double (v) : IntSized (.double v)
  | boolean (v) : IntSized (.boolean v)
  | object {entries} (hlen : entries.length < 2 ^ 31) (hconv : ∀ e ∈ entries, Converts e.2)
      (h : ∀ name node, entries.reverse.lookup name = some node → IntSized node) : IntSized (.object entries)
  | array {nodes} (hlen : nodes.length < 2 ^ 31) (h : ∀ node ∈ nodes, IntSized node) : IntSized (.array nodes)

theorem mem_of_last {α : Type} {entries : List (Bytes × α)} {name : Bytes} {a : α}
    (h : entries.reverse.lookup name = some a) : (name, a) ∈ entries :=
  List.mem_reverse.1 (Assoc.mem_of_lookup h)

/-- Members of which each is converted, put into an object one by one. -/
theorem lastWins_putAll {α : Type} {R : α → SrsJsonAny δ → Prop} {entries : List (Bytes × α)}
    {ms : List (Bytes × SrsJsonAny δ)} (hlen : entries.length < 2 ^ 31)
    (h : List.Forall₂ (fun e m => e.1 = m.1 ∧ R e.2 m.2) entries ms) :
    LastWins R entries (Assoc.putAll [] ms) := by
  have hmap := Assoc.isMapOf_putAll ms
  have hnames : ms.map Prod.fst = entries.map Prod.fst := by
    rw [← List.forall₂_eq_eq_eq, List.forall₂_map_left_iff, List.forall₂_map_right_iff]
    exact h.flip.imp fun _ _ h => h.1.symm
  refine ⟨hmap.nodup, ?_, fun name => ?_⟩
  · have hdistinct := (List.dedup_sublist (ms.map Prod.fst)).length_le
    rw [hnames, List.length_map, ← hnames, ← hmap.length] at hdistinct
    rw [SrsJsonObject.count_eq (by omega), hmap.length, hnames]
  · exact rel_getProperty h name

theorem LastWins.imp {α : Type} {R S : α → SrsJsonAny δ → Prop} {entries : List (Bytes × α)}
    {properties : SrsJsonObject δ} (h : LastWins R entries properties)
    (himp : ∀ name a v, entries.reverse.lookup name = some a → properties.getProperty name = some v →
      R a v → S a v) : LastWins S entries properties := by
  refine ⟨h.nodup, h.count, fun name => ?_⟩
  have hrel := h.last name
  generalize ha : entries.reverse.lookup name = a at hrel
  generalize hv : properties.getProperty name = v at hrel
  cases hrel with
  | none => exact .none
  | some hR => exact .some (himp name _ _ ha hv hR)

/-- A tree that fits is converted. -/
theorem converted_of_intSized {node : JsonValue δ} (h : IntSized node) :
    ∃ v, Returned ε node v ∧ Converted node v := by
  induction h with
  | null => exact ⟨_, rfl, .null⟩
  | integer v => exact ⟨_, rfl, .integer v⟩
  | double v => exact ⟨_, rfl, .double v⟩
  | boolean v => exact ⟨_, rfl, .boolean v⟩
  | @string text hlen =>
    refine ⟨.str text, returned_string.2 ⟨?_, by rw [intLoop_eq_self hlen]⟩, .string text⟩
    rw [toInt32_eq_self (by omega) (by omega)]
    omega
  | @array nodes hlen _ ih =>
    obtain ⟨values, hvalues⟩ := exists_forall₂ ih
    refine ⟨.array values, returned_array.2 ⟨values, ?_, rfl⟩, .array (hvalues.imp fun _ _ h => h.2)⟩
    rw [intLoop_eq_self hlen]
    exact hvalues.imp fun _ _ h => h.1
  | @object entries hlen hconv _ ih =>
    have hret := (srsJsonParseTree_returns_iff (ε := ε) (.object entries)).2
      (.object fun e he => hconv e (intLoop_subset he))
    obtain ⟨v, hv⟩ := hret
    obtain ⟨ms, hms, rfl⟩ := returned_object.1 hv
    rw [intLoop_eq_self hlen] at hms
    have hlast : LastWins Converted entries (Assoc.putAll [] ms) :=
      (lastWins_putAll hlen hms).imp fun name node w hnode _ hw => by
        obtain ⟨w', hw', hconverted⟩ := ih name node hnode
        exact hw.unique hw' ▸ hconverted
    exact ⟨_, hv, .object hlast.nodup hlast.count hlast.last⟩

/-- A loop over more members than an `int` counts makes an object without any. -/
theorem length_lt_of_last {α : Type} {R : α → SrsJsonAny δ → Prop}
    {S : Bytes × α → Bytes × SrsJsonAny δ → Prop} {entries : List (Bytes × α)}
    {ms : List (Bytes × SrsJsonAny δ)} (hbound : entries.length < 2 ^ 32)
    (hms : List.Forall₂ S (intLoop entries) ms)
    (hlast : ∀ name, Option.Rel R (entries.reverse.lookup name)
      (SrsJsonObject.getProperty (Assoc.putAll [] ms) name)) : entries.length < 2 ^ 31 := by
  by_contra hlen
  rw [intLoop_eq_nil (Nat.le_of_not_lt hlen) hbound] at hms
  cases hms
  obtain ⟨e, es, rfl⟩ := List.exists_cons_of_length_pos (l := entries) (by omega)
  have hrel := hlast e.1
  have hnone : SrsJsonObject.getProperty (Assoc.putAll [] ([] : SrsJsonObject δ)) e.1 = none := rfl
  rw [hnone] at hrel
  generalize hl : (e :: es).reverse.lookup e.1 = l at hrel
  cases hrel
  rw [Assoc.lookup_eq_none] at hl
  exact hl (by simp)

/-- What comes out converted did fit. -/
theorem intSized_of_converted {node : JsonValue δ} (hproper : Proper node) :
    ∀ {v}, Returned ε node v → Converted node v → IntSized node := by
  induction hproper with
  | null => exact fun _ _ => .null
  | integer v => exact fun _ _ => .integer v
  | double v => exact fun _ _ => .double v
  | boolean v => exact fun _ _ => .boolean v
  | string =>
    intro v hv hc
    cases hc
    have heq := (returned_string.1 hv).2
    rw [SrsJsonAny.str.injEq] at heq
    exact .string (length_lt_of_intLoop (congrArg List.length heq.symm))
  | array _ _ ih =>
    intro v hv hc
    cases hc with
    | @array nodes values hvalues =>
      obtain ⟨values', hret, heq⟩ := returned_array.1 hv
      cases heq
      have hlen := length_lt_of_intLoop (hret.length_eq.trans hvalues.length_eq.symm)
      rw [intLoop_eq_self hlen] at hret
      refine .array hlen fun node hnode => ?_
      obtain ⟨w, hw⟩ := exists_of_forall₂ (hret.mp (fun _ _ => And.intro) hvalues) hnode
      exact ih node hnode hw.1 hw.2
  | @object entries hbound _ ih =>
    intro v hv hc
    cases hc with
    | object _ _ hlast =>
      obtain ⟨ms, hms, heq⟩ := returned_object.1 hv
      cases heq
      have hlen := length_lt_of_last hbound hms hlast
      rw [intLoop_eq_self hlen] at hms
      refine .object hlen (fun e he => ?_) fun name node hnode => ?_
      · obtain ⟨m, -, hm⟩ := exists_of_forall₂ hms he
        exact (srsJsonParseTree_returns_iff (ε := ε) e.2).1 ⟨m.2, hm⟩
      · have hret := (lastWins_putAll hlen hms).last name
        have hconv := hlast name
        rw [hnode] at hret hconv
        generalize SrsJsonObject.getProperty (Assoc.putAll [] ms) name = w at hret hconv
        cases hret with
        | some hret =>
          cases hconv with
          | some hconv => exact ih _ (mem_of_last hnode) hret hconv

/-- The names are counted right as long as an `int` counts them. -/
theorem lastWins_setAll_iff (calls : List (Bytes × Option (SrsJsonAny δ))) :
    LastWins Eq (SrsJsonObject.nonNull calls) (SrsJsonObject.setAll [] calls) ↔
      ((SrsJsonObject.nonNull calls).map Prod.fst).dedup.length < 2 ^ 31 := by
  have hmap := Assoc.isMapOf_putAll (SrsJsonObject.nonNull calls)
  rw [SrsJsonObject.setAll_eq, ← hmap.length]
  constructor
  · intro h
    by_contra hlen
    have hcount := h.count
    have := toInt32_add_le (x := (Assoc.putAll [] (SrsJsonObject.nonNull calls)).length) (by omega)
    rw [← hmap.length, SrsJsonObject.count] at hcount
    omega
  · intro hlen
    refine ⟨hmap.nodup, ?_, fun name => ?_⟩
    · rw [SrsJsonObject.count_eq hlen, hmap.length]
    · rw [SrsJsonObject.getProperty, hmap.lookup]
      cases (SrsJsonObject.nonNull calls).reverse.lookup name with
      | none => exact .none
      | some v => exact .some rfl

/-- Every tree of the seven types whose lengths an `int` holds comes out as it is, objects as the maps
in which the last member wins, and no other tree does; calls of `set` make the map of the calls. -/
theorem conversion_iff :
    (∀ node : JsonValue δ, Proper node →
      ((∃ v, srsJsonParseTree (ε := ε) node = .done (some v) ∧ Converted node v) ↔ IntSized node)) ∧
    ∀ calls : List (Bytes × Option (SrsJsonAny δ)),
      LastWins Eq (SrsJsonObject.nonNull calls) (SrsJsonObject.setAll [] calls) ↔
        ((SrsJsonObject.nonNull calls).map Prod.fst).dedup.length < 2 ^ 31 := by
  refine ⟨fun node hproper => ⟨?_, fun h => converted_of_intSized h⟩, lastWins_setAll_iff⟩
  rintro ⟨v, hv, hc⟩
  exact intSized_of_converted hproper hv hc

/-- `{"a":1,"a":["x"]}`, as the parser returns it. -/
def twiceNamed : JsonValue Nat :=
  .object [(str "a", .integer 1), (str "a", .array [.string (str "x")])]

theorem twiceNamed_proper : Proper twiceNamed := by
  have hx : Proper (.array [.string (str "x")] : JsonValue Nat) :=
    .array (by decide) (by simpa using Proper.string (by decide))
  exact .object (by decide) (by simpa using ⟨.integer 1, hx⟩)

theorem twiceNamed_intSized : IntSized twiceNamed := by
  have hx : IntSized (.array [.string (str "x")] : JsonValue Nat) :=
    .array (by decide) (by simpa using IntSized.string (by decide))
  have hconv : Converts (.array [.string (str "x")] : JsonValue Nat) :=
    .array fun node hnode => by
      rw [List.mem_singleton.1 (intLoop_subset hnode)]
      exact .string (by decide)
  refine .object (by decide) (by simpa using ⟨.integer 1, hconv⟩) fun name node hnode => ?_
  have hmem := mem_of_last hnode
  simp only [List.mem_cons, Prod.mk.injEq, List.not_mem_nil, or_false] at hmem
  obtain ⟨-, rfl⟩ | ⟨-, rfl⟩ := hmem
  · exact .integer 1
  · exact hx

theorem conversion_iff_twiceNamed :
    Proper twiceNamed ∧
      (∃ v, srsJsonParseTree (ε := Empty) twiceNamed = .done (some v) ∧ Converted twiceNamed v) :=
  ⟨twiceNamed_proper, (conversion_iff.1 twiceNamed twiceNamed_proper).2 twiceNamed_intSized⟩

/-- A text whose length is negative as an `int`. -/
def longText : Bytes := List.replicate (2 ^ 31) 97

theorem longText_length : longText.length = 2 ^ 31 := List.length_replicate

/-- A string of this length is a node that no value comes out of: the conversion throws. -/
theorem longText_not_converted :
    ¬ ∀ node : JsonValue Nat, Proper node →
      ∃ v, srsJsonParseTree (ε := Empty) node = .done (some v) ∧ Converted node v := by
  intro h
  have hproper : Proper (.string longText : JsonValue Nat) :=
    .string (by rw [longText_length]; norm_num)
  obtain ⟨v, hv, -⟩ := h _ hproper
  have hlen := (returned_string.1 hv).1
  rw [longText_length, toInt32] at hlen
  norm_num [Int.bmod] at hlen

end HttpProxy
