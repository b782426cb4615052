import HttpProxy.Json.Grammar
import HttpProxy.Json.Value
import HttpProxy.Message.Wire

/-!
# What `dumps` writes

The texts of `SrsJsonAny::dumps` against the grammar of JSON.

* `toJson` — what a value stands for; `Built` are the values made by `object`, `array`, `str`,
  `integer`, `boolean` and `null`.
* `Clean` — the names need no escape, the strings need none but the seven, and an `int` counts the
  members.
* `dumps_text_iff` — the text of a value stands for the value exactly when it is clean.
-/

namespace HttpProxy

open Json

namespace SrsJsonAny

variable {δ : Type}

mutual

/-- What a value stands for, given the numbers that the doubles are. -/
def toJson (number : δ → ℚ) : SrsJsonAny δ → Json
  | .str value => .str value
  | .boolean value => .bool value
  | .integer value => .num value
  | .number value => .num (number value)
  | .null => .null
  | .object properties => .obj (toMembers number properties)
  | .array properties => .arr (toElements number properties)

/-- The members of an object. -/
def toMembers (number : δ → ℚ) : List (Bytes × SrsJsonAny δ) → List (Bytes × Json)
  | [] => []
  | (name, any) :: properties => (name, toJson number any) :: toMembers number properties

/-- The elements of an array. -/
def toElements (number : δ → ℚ) : List (SrsJsonAny δ) → List Json
  | [] => []
  | any :: properties => toJson number any :: toElements number properties

end

variable {number : δ → ℚ} {fixed : δ → Bytes}

theorem toMembers_eq (properties : List (Bytes × SrsJsonAny δ)) :
    toMembers number properties = properties.map fun p => (p.1, toJson number p.2) := by
  induction properties with
  | nil => rfl
  | cons p properties ih => rw [toMembers, ih, List.map_cons]

theorem toElements_eq (properties : List (SrsJsonAny δ)) :
    toElements number properties = properties.map (toJson number) := by
  induction properties with
  | nil => rfl
  | cons any properties ih => rw [toElements, ih, List.map_cons]

theorem dumpsProperties_eq (properties : List (Bytes × SrsJsonAny δ)) :
    dumpsProperties fixed properties = properties.map fun p => srsJfieldName p.1 ++ dumps fixed p.2 := by
  induction properties with
  | nil => rfl
  | cons p properties ih => rw [dumpsProperties, ih, List.map_cons]

theorem dumpsElements_eq (properties : List (SrsJsonAny δ)) :
    dumpsElements fixed properties = properties.map (dumps fixed) := by
  induction properties with
  | nil => rfl
  | cons any properties ih => rw [dumpsElements, ih, List.map_cons]

/-- The values that `object`, `array`, `str`, `integer`, `boolean` and `null` make, with names and
strings in UTF-8. -/
inductive Built : SrsJsonAny δ → Prop
  | str {value} (h : IsUtf8 value) : Built (.str value)
  | boolean (value) : Built (.boolean value)
  | integer (value) : Built (.integer value)
  | null : Built .null
  | object {properties} (hname : ∀ p ∈ properties, IsUtf8 p.1) (h : ∀ p ∈ properties, Built p.2) :
      Built (.object properties)
  | array {properties} (h : ∀ v ∈ properties, Built v) : Built (.array properties)

/-- A byte that the printer escapes, or that needs no escape: any but the control characters without
an escape of their own. -/
def Printable (b : Byte) : Prop := 32 ≤ b.toNat ∨ b = 8 ∨ b = 12 ∨ b = LF ∨ b = CR ∨ b = 9

instance : DecidablePred Printable := fun b =>
  inferInstanceAs (Decidable (32 ≤ b.toNat ∨ b = 8 ∨ b = 12 ∨ b = LF ∨ b = CR ∨ b = 9))

/-- Strings are without the control characters that have no short escape, names without any control
character, quote or backslash, and `int`s count the properties. -/
inductive Clean : SrsJsonAny δ → Prop
  | str {value} (h : ∀ b ∈ value, Printable b) : Clean (.str value)
  | boolean (value) : Clean (.boolean value)
  | integer (value) : Clean (.integer value)
  | null : Clean .null
  | object {properties} (hlen : properties.length < 2 ^ 31)
      (hname : ∀ p ∈ properties, ∀ b ∈ p.1, Plain b) (h : ∀ p ∈ properties, Clean p.2) :
      Clean (.object properties)
  | array {properties} (hlen : properties.length < 2 ^ 31) (h : ∀ v ∈ properties, Clean v) :
      Clean (.array properties)

theorem joinCont_eq (texts : List Bytes) : joinCont texts = joined texts := by
  induction texts with
  | nil => rfl
  | cons t ts ih =>
    cases ts with
    | nil => rfl
    | cons u us =>
      rw [joined_cons_cons, ← ih]
      rfl

/-! ## Strings -/

/-- The printer writes a byte as it is, or as a backslash and the letter of its escape. -/
theorem serializeChar_cases (b : Byte) :
    (serializeChar b = [b] ∧ b ≠ 92 ∧ (Printable b → Plain b)) ∨
      (¬ Plain b ∧ b.toNat < 128 ∧ Printable b ∧
        ∃ e, serializeChar b = [92, e] ∧ escapeOf e = some b ∧ e ≠ 117) := by
  unfold serializeChar
  split_ifs with h34 h92 h8 h12 h10 h13 h9
  · subst h34
    exact Or.inr ⟨by decide, by decide, by decide, 34, rfl, rfl, by decide⟩
  · subst h92
    exact Or.inr ⟨by decide, by decide, by decide, 92, rfl, rfl, by decide⟩
  · subst h8
    exact Or.inr ⟨by decide, by decide, by decide, 98, rfl, rfl, by decide⟩
  · subst h12
    exact Or.inr ⟨by decide, by decide, by decide, 102, rfl, rfl, by decide⟩
  · subst h10
    exact Or.inr ⟨by decide, by decide, by decide, 110, rfl, rfl, by decide⟩
  · subst h13
    exact Or.inr ⟨by decide, by decide, by decide, 114, rfl, rfl, by decide⟩
  · subst h9
    exact Or.inr ⟨by decide, by decide, by decide, 116, rfl, rfl, by decide⟩
  · refine Or.inl ⟨rfl, h92, fun h => ⟨?_, h34, h92⟩⟩
    rcases h with h | h | h | h | h | h
    · exact h
    · exact absurd h h8
    · exact absurd h h12
    · exact absurd h h10
    · exact absurd h h13
    · exact absurd h h9

theorem serializeChar_of_plain {b : Byte} (h : Plain b) : serializeChar b = [b] := by
  rcases serializeChar_cases b with ⟨hb, -⟩ | ⟨hb, -⟩
  · exact hb
  · exact absurd h hb

theorem serialize_of_plain {x : Bytes} (h : ∀ b ∈ x, Plain b) : x.flatMap serializeChar = x := by
  induction x with
  | nil => rfl
  | cons b x ih =>
    rw [List.flatMap_cons, serializeChar_of_plain (h b List.mem_cons_self),
      ih fun c hc => h c (List.mem_cons_of_mem _ hc), List.singleton_append]

/-- A string of printable bytes is printed as a string that stands for it. -/
theorem chars_serialize {s : Bytes} (hutf : IsUtf8 s) (h : ∀ b ∈ s, Printable b) :
    Chars (s.flatMap serializeChar) s := by
  obtain ⟨cs, rfl⟩ := hutf
  induction cs with
  | nil => exact .nil
  | cons c cs ih =>
    rw [List.flatMap_cons] at h ⊢
    rw [List.flatMap_append]
    have hrest := ih fun b hb => h b (List.mem_append_right _ hb)
    have hc : ∀ b ∈ utf8 c, Printable b := fun b hb => h b (List.mem_append_left _ hb)
    rcases utf8_cases c with ⟨hlt, hutf⟩ | ⟨-, hhigh⟩
    · -- an ASCII character is one byte, which has its own escape or none
      have hb := hc (UInt8.ofNat c.toNat) (by simp [hutf])
      rcases serializeChar_cases (UInt8.ofNat c.toNat) with ⟨hself, -, hplain⟩ | ⟨-, -, -, e, hesc, he, -⟩
      · have hall : ∀ b ∈ utf8 c, Plain b := by simpa [hutf] using hplain hb
        rw [serialize_of_plain hall]
        exact .plain (unescaped_of_plain hall) hrest
      · rw [hutf, List.flatMap_singleton, hesc]
        exact .escape he hrest
    · have hall : ∀ b ∈ utf8 c, Plain b := by
        intro b hb
        have hb128 := hhigh b hb
        refine ⟨by omega, ?_, ?_⟩ <;> (rintro rfl; exact absurd hb128 (by decide))
      rw [serialize_of_plain hall]
      exact .plain (unescaped_of_plain hall) hrest

/-- The printer never writes an escape by number. -/
theorem serialize_ne_unicode (c : Char) (s X Y : Bytes) :
    92 :: 117 :: X ≠ (utf8 c ++ s).flatMap serializeChar ++ Y := by
  intro heq
  obtain ⟨b, bs, hb⟩ := List.exists_cons_of_length_pos (utf8_length c).1
  rw [hb, List.cons_append, List.flatMap_cons] at heq
  rcases serializeChar_cases b with ⟨hself, hne, -⟩ | ⟨-, -, -, e, hesc, -, hne⟩
  · rw [hself] at heq
    exact hne (List.cons.inj heq).1.symm
  · rw [hesc] at heq
    exact hne (List.cons.inj (List.cons.inj heq).2).1.symm

/-- What the printer writes for a string is read in one way only. -/
theorem chars_forced {t s : Bytes} (h : Chars t s) {X Y : Bytes}
    (heq : t ++ 34 :: X = s.flatMap serializeChar ++ 34 :: Y) :
    X = Y ∧ ∀ b ∈ s, Printable b := by
  induction h with
  | nil => exact ⟨(List.cons.inj heq).2, fun b hb => absurd hb List.not_mem_nil⟩
  | @plain c t s hc _ ih =>
    have hplain := plain_of_unescaped hc
    rw [List.flatMap_append, serialize_of_plain hplain, List.append_assoc, List.append_assoc] at heq
    obtain ⟨hXY, hs⟩ := ih (List.append_cancel_left heq)
    exact ⟨hXY, List.forall_mem_append.2 ⟨fun b hb => Or.inl (hplain b hb).1, hs⟩⟩
  | @escape e b t s he _ ih =>
    rw [List.flatMap_cons] at heq
    rcases serializeChar_cases b with ⟨hself, hne, -⟩ | ⟨-, -, hprint, e', hesc, -, -⟩
    · rw [hself] at heq
      exact absurd (List.cons.inj heq).1.symm hne
    · rw [hesc] at heq
      obtain ⟨hXY, hs⟩ := ih (List.cons.inj (List.cons.inj heq).2).2
      exact ⟨hXY, List.forall_mem_cons.2 ⟨hprint, hs⟩⟩
  | @unicode ds c t s => exact absurd heq (serialize_ne_unicode c s _ _)
  | @surrogates hi lo c t s => exact absurd heq (serialize_ne_unicode c s _ _)

/-! ## Numbers -/

theorem decimal_isInt (n : Nat) : IsInt (SrsHttpHeader.decimal n) := by
  refine ⟨⟨SrsHttpHeader.decimal_ne_nil n, SrsHttpHeader.decimal_isDigitIn n⟩, fun hhead => ?_⟩
  rw [SrsHttpHeader.decimal] at hhead ⊢
  split
  · rfl
  · -- the first digit is the last of `Nat.digits`, which is not zero
    next hn =>
    rw [if_neg hn, List.head?_reverse, List.getLast?_map,
      List.getLast?_eq_some_getLast (Nat.digits_ne_nil_iff_ne_zero.2 hn)] at hhead
    have hne := Nat.getLast_digit_ne_zero 10 hn
    have hlt : (Nat.digits 10 n).getLast (Nat.digits_ne_nil_iff_ne_zero.2 hn) < 10 :=
      Nat.digits_lt_base (by norm_num) (List.getLast_mem _)
    generalize (Nat.digits 10 n).getLast _ = d at hhead hne hlt
    interval_cases d <;> first | exact absurd rfl hne | exact absurd hhead (by decide)

theorem number_srsInt2str (n : Int) : Number (SrsHttpHeader.srsInt2str n) n := by
  have hnat : ∀ m : Nat, Number (SrsHttpHeader.decimal m) m := by
    intro m
    have := Number.nonneg (decimal_isInt m) .none .none
    simpa [SrsHttpHeader.digitsValue_decimal] using this
  rw [SrsHttpHeader.srsInt2str]
  split
  · next hn =>
    have hneg : (n : ℚ) = -(n.natAbs : ℚ) := by
      rw [Nat.cast_natAbs, abs_of_neg hn]
      simp
    rw [hneg]
    refine .minus (hnat _) fun hhead => ?_
    have := SrsHttpHeader.decimal_isDigitIn n.natAbs 45 (List.mem_of_mem_head? hhead)
    exact absurd this (by decide)
  · next hn =>
    have hpos : (n : ℚ) = (n.natAbs : ℚ) := by rw [Nat.cast_natAbs, abs_of_nonneg (by omega)]
    rw [hpos]
    exact hnat _

/-! ## Values -/

/-- The text of a value that is no double starts with a byte that stands in front of no value. -/
theorem dumps_head {v : SrsJsonAny δ} (hb : Built v) : ∀ b ∈ (dumps fixed v).head?, isOuter b = false := by
  intro b hhead
  cases hb with
  | str =>
    rw [dumps, jsonSerializeString, List.cons_append, List.head?_cons] at hhead
    cases hhead
    rfl
  | boolean value => cases value <;> (cases hhead; rfl)
  | integer value =>
    obtain ⟨b', t', heq, hb'⟩ := (Value.num (number_srsInt2str value)).head
    rw [dumps, heq] at hhead
    cases hhead
    exact hb'
  | null => cases hhead; rfl
  | object =>
    rw [dumps, List.cons_append, List.head?_cons] at hhead
    cases hhead
    rfl
  | array =>
    rw [dumps, List.cons_append, List.head?_cons] at hhead
    cases hhead
    rfl

theorem dumps_notWs {v : SrsJsonAny δ} (hb : Built v) (r : Bytes) :
    ∀ b ∈ (dumps fixed v ++ r).head?, isWs b = false := by
  intro b hhead
  have hne : dumps fixed v ≠ [] := by
    cases hb with
    | boolean value => cases value <;> exact List.cons_ne_nil _ _
    | integer value => exact (number_srsInt2str value).bytes.1
    | null => exact List.cons_ne_nil _ _
    | str => simp [dumps, jsonSerializeString]
    | object =>
      rw [dumps, List.cons_append]
      exact List.cons_ne_nil _ _
    | array =>
      rw [dumps, List.cons_append]
      exact List.cons_ne_nil _ _
  rw [List.head?_append_of_ne_nil _ hne] at hhead
  have := dumps_head hb b hhead
  simp only [isOuter, Bool.or_eq_false_iff] at this
  exact this.1.1.1

/-- The text of a value, in front of other text, is read in one way only, and then the value is clean. -/
def Forced (number : δ → ℚ) (fixed : δ → Bytes) (v : SrsJsonAny δ) : Prop :=
  ∀ u r r', Value u (toJson number v) → (∀ b ∈ r.head?, isOuter b = true) →
    (∀ b ∈ r'.head?, isOuter b = true) → u ++ r = dumps fixed v ++ r' → Clean v ∧ u = dumps fixed v

theorem Forced.element {v : SrsJsonAny δ} (hv : Forced number fixed v) (hb : Built v) {t r r' : Bytes}
    (h : Element t (toJson number v)) (hr : Stop r) (hr' : Stop r') (heq : t ++ r = dumps fixed v ++ r') :
    Clean v ∧ t = dumps fixed v := by
  generalize hj : toJson number v = j at h
  cases h with
  | @mk w u w' j hw h hw' =>
    subst hj
    rw [List.append_assoc, List.append_assoc] at heq
    obtain rfl := hw.eq_nil (dumps_notWs hb r') heq
    rw [List.nil_append] at heq
    obtain ⟨hclean, rfl⟩ := hv u (w' ++ r) r' h (outer_of_ws hw' hr) (outer_of_stop hr') heq
    obtain rfl := hw'.eq_nil hr'.notWs (List.append_cancel_left heq)
    exact ⟨hclean, by simp⟩

theorem Forced.member {p : Bytes × SrsJsonAny δ} (hv : Forced number fixed p.2) (hb : Built p.2)
    {t r r' : Bytes} (h : Member t (p.1, toJson number p.2)) (hr : Stop r) (hr' : Stop r')
    (heq : t ++ r = (srsJfieldName p.1 ++ dumps fixed p.2) ++ r') :
    ((∀ b ∈ p.1, Plain b) ∧ Clean p.2) ∧ t = srsJfieldName p.1 ++ dumps fixed p.2 := by
  obtain ⟨name, v⟩ := p
  generalize hj : toJson number v = j at h
  cases h with
  | @mk w k _ w' u j hw hname hw' h =>
    subst hj
    have heq' : w ++ (34 :: (k ++ 34 :: (w' ++ 58 :: (u ++ r)))) =
        34 :: (name ++ 34 :: 58 :: (dumps fixed v ++ r')) := by
      simpa [srsJfieldName, chr] using heq
    obtain rfl := hw.eq_nil (by rintro b ⟨⟩; rfl) heq'
    obtain ⟨rfl, hrest, hplain⟩ := hname.verbatim (List.cons.inj heq').2
    obtain rfl := hw'.eq_nil (by rintro b ⟨⟩; rfl) hrest
    obtain ⟨hclean, rfl⟩ := hv.element hb h hr hr' (List.cons.inj hrest).2
    exact ⟨⟨hplain, hclean⟩, by simp [srsJfieldName, chr]⟩

/-- How far a loop gets, and that it gets to the end only if an `int` counts the elements. -/
theorem intLoop_take {α : Type} (l : List α) :
    ∃ n, (l.length ≤ n → l.length < 2 ^ 31) ∧ intLoop l = l.take n := by
  refine ⟨(toInt32 l.length).toNat, fun h => length_lt_of_intLoop ?_, rfl⟩
  rw [intLoop, List.take_of_length_le h]

theorem dumps_array (fixed : δ → Bytes) (xs : List (SrsJsonAny δ)) :
    ∃ n, (xs.length ≤ n → xs.length < 2 ^ 31) ∧
      dumps fixed (.array xs) = 91 :: (joined ((xs.take n).map (dumps fixed)) ++ [93]) := by
  obtain ⟨n, hn, htake⟩ := intLoop_take xs
  refine ⟨n, hn, ?_⟩
  rw [dumps, dumpsElements_eq, intLoop_map, htake, joinCont_eq]
  rfl

theorem dumps_object (fixed : δ → Bytes) (ps : List (Bytes × SrsJsonAny δ)) :
    ∃ n, (ps.length ≤ n → ps.length < 2 ^ 31) ∧
      dumps fixed (.object ps) =
        123 :: (joined ((ps.take n).map fun p => srsJfieldName p.1 ++ dumps fixed p.2) ++ [125]) := by
  obtain ⟨n, hn, htake⟩ := intLoop_take ps
  refine ⟨n, hn, ?_⟩
  rw [dumps, dumpsProperties_eq, intLoop_map, htake, joinCont_eq]
  rfl

theorem forced_array {xs : List (SrsJsonAny δ)} (hb : ∀ v ∈ xs, Built v)
    (ih : ∀ v ∈ xs, Forced number fixed v) : Forced number fixed (.array xs) := by
  intro u r r' h hr hr' heq
  obtain ⟨n, hn, hdumps⟩ := dumps_array fixed xs
  rw [toJson, toElements_eq] at h
  rw [hdumps] at heq ⊢
  generalize hl : xs.map (toJson number) = l at h
  cases h with
  | @noElements w hw =>
    obtain rfl := List.map_eq_nil_iff.1 hl
    have heq' : w ++ (93 :: r) = 93 :: r' := by simpa [joined] using heq
    obtain rfl := hw.eq_nil (by rintro b ⟨⟩; rfl) heq'
    exact ⟨.array (by simp) (by simp), by simp [joined]⟩
  | @arr t _ h =>
    subst hl
    have heq' : t ++ 93 :: r = joined ((xs.take n).map (dumps fixed)) ++ 93 :: r' := by simpa using heq
    obtain ⟨hclean, hlen, rfl⟩ := h.forced (P := Clean) (Or.inl rfl) (fun t a h => h.not_stop)
      (fun v hv t r r' h hr hr' heq => (ih v hv).element (hb v hv) h hr hr' heq) heq'
    exact ⟨.array (hn hlen) hclean, List.append_cancel_right heq⟩

theorem forced_object {ps : List (Bytes × SrsJsonAny δ)} (hb : ∀ p ∈ ps, Built p.2)
    (ih : ∀ p ∈ ps, Forced number fixed p.2) : Forced number fixed (.object ps) := by
  intro u r r' h hr hr' heq
  obtain ⟨n, hn, hdumps⟩ := dumps_object fixed ps
  rw [toJson, toMembers_eq] at h
  rw [hdumps] at heq ⊢
  generalize hl : (ps.map fun p => (p.1, toJson number p.2)) = l at h
  cases h with
  | @noMembers w hw =>
    obtain rfl := List.map_eq_nil_iff.1 hl
    have heq' : w ++ (125 :: r) = 125 :: r' := by simpa [joined] using heq
    obtain rfl := hw.eq_nil (by rintro b ⟨⟩; rfl) heq'
    exact ⟨.object (by simp) (by simp) (by simp), by simp [joined]⟩
  | @obj t _ h =>
    subst hl
    have heq' : t ++ 125 :: r = joined ((ps.take n).map fun p => srsJfieldName p.1 ++ dumps fixed p.2) ++
        125 :: r' := by simpa using heq
    obtain ⟨hgood, hlen, rfl⟩ := h.forced (P := fun p => (∀ b ∈ p.1, Plain b) ∧ Clean p.2)
      (Or.inr rfl) (fun t a h => h.not_stop)
      (fun p hp t r r' h hr hr' heq => (ih p hp).member (hb p hp) h hr hr' heq) heq'
    exact ⟨.object (hn hlen) (fun p hp => (hgood p hp).1) (fun p hp => (hgood p hp).2),
      List.append_cancel_right heq⟩

/-- Every text is read in one way only. -/
theorem forced {v : SrsJsonAny δ} (hb : Built v) : Forced number fixed v := by
  induction hb with
  | @str value _ =>
    intro u r r' h _ _ heq
    rw [toJson] at h
    cases h with
    | @str t _ h =>
      rw [dumps, jsonSerializeString] at heq ⊢
      have heq' : t ++ 34 :: r = value.flatMap serializeChar ++ 34 :: r' := by simpa [chr] using heq
      obtain ⟨rfl, hprint⟩ := chars_forced h heq'
      exact ⟨.str hprint, List.append_cancel_right heq⟩
  | boolean value =>
    intro u r r' h _ _ heq
    rw [toJson] at h
    refine ⟨.boolean value, ?_⟩
    cases h with
    | litTrue => rw [dumps]; rfl
    | litFalse => rw [dumps]; rfl
  | integer value =>
    intro u r r' h hr hr' heq
    rw [toJson] at h
    rw [dumps] at heq ⊢
    cases h with
    | num h =>
      have hbytes := (number_srsInt2str value).bytes.2
      exact ⟨.integer value, h.forced hbytes (noNum_of_outer hr) (noNum_of_outer hr') heq⟩
  | null =>
    intro u r r' h _ _ heq
    rw [toJson] at h
    cases h with
    | litNull => exact ⟨.null, by rw [dumps]⟩
  | object _ hb ih => exact forced_object hb ih
  | array hb ih => exact forced_array hb ih

theorem ws_nil : Ws [] := fun _ hb => absurd hb List.not_mem_nil

/-- The text of a clean value stands for the value. -/
theorem value_dumps {v : SrsJsonAny δ} (hb : Built v) (hc : Clean v) :
    Value (dumps fixed v) (toJson number v) := by
  induction hb with
  | @str value hutf =>
    cases hc with
    | str h =>
      rw [dumps, toJson, jsonSerializeString]
      exact .str (chars_serialize hutf h)
  | boolean value =>
    rw [dumps, toJson]
    cases value with
    | true => exact .litTrue
    | false => exact .litFalse
  | integer value =>
    rw [dumps, toJson]
    exact .num (number_srsInt2str value)
  | null =>
    rw [dumps, toJson]
    exact .litNull
  | @object ps hutf _ ih =>
    cases hc with
    | object hlen hname h =>
      rw [dumps, toJson, dumpsProperties_eq, intLoop_map, intLoop_eq_self hlen, joinCont_eq, toMembers_eq]
      by_cases hps : ps = []
      · subst hps
        exact .noMembers ws_nil
      · refine .obj (commaSep_joined hps fun p hp => ?_)
        have hname := Chars.of_plain (hutf p hp) (hname p hp)
        have hmember := Member.mk ws_nil hname ws_nil (.mk ws_nil (ih p hp (h p hp)) ws_nil)
        simpa [srsJfieldName, chr] using hmember
  | @array xs _ ih =>
    cases hc with
    | array hlen h =>
      rw [dumps, toJson, dumpsElements_eq, intLoop_map, intLoop_eq_self hlen, joinCont_eq, toElements_eq]
      by_cases hxs : xs = []
      · subst hxs
        exact .noElements ws_nil
      · refine .arr (commaSep_joined hxs fun v hv => ?_)
        have helement := Element.mk ws_nil (ih v hv (h v hv)) ws_nil
        simpa using helement

theorem clean_of_text {v : SrsJsonAny δ} (hb : Built v) (h : Text (dumps fixed v) (toJson number v)) :
    Clean v := by
  have hstop : Stop [] := by
    intro b hb
    cases hb
  exact ((forced hb).element hb h hstop hstop rfl).1

/-- What `dumps` writes for a value is a JSON text that stands for the value exactly when the value is
clean. -/
theorem dumps_text_iff {v : SrsJsonAny δ} (hb : Built v) :
    Text (dumps fixed v) (toJson number v) ↔ Clean v := by
  constructor
  · exact clean_of_text hb
  · intro hc
    have hvalue : Value (dumps fixed v) (toJson number v) := value_dumps hb hc
    have helement := Element.mk ws_nil hvalue ws_nil
    simpa [Text] using helement

/-- `{"code":[0,"a\nb"]}`, as the api would build it. -/
def reply : SrsJsonAny Empty :=
  .object [(HttpProxy.str "code", .array [.integer 0, .str (HttpProxy.str "a\nb")])]

theorem reply_built : Built reply := by
  have hstr : Built (.str (HttpProxy.str "a\nb") : SrsJsonAny Empty) := .str ⟨"a\nb".toList, by decide⟩
  have harr : Built (.array [.integer 0, .str (HttpProxy.str "a\nb")] : SrsJsonAny Empty) :=
    .array (by simpa using ⟨.integer 0, hstr⟩)
  have hcode : IsUtf8 (HttpProxy.str "code") := ⟨"code".toList, by decide⟩
  exact .object (by simpa using hcode) (by simpa using harr)

theorem dumps_text_iff_reply :
    Text (dumps Empty.elim reply) (toJson Empty.elim reply) := by
  have hstr : Clean (.str (HttpProxy.str "a\nb") : SrsJsonAny Empty) := .str (List.all_iff_forall_prop.1 rfl)
  have harr : Clean (.array [.integer 0, .str (HttpProxy.str "a\nb")] : SrsJsonAny Empty) :=
    .array (by decide) (by simpa using ⟨.integer 0, hstr⟩)
  refine (dumps_text_iff reply_built).2 (.object (by decide) ?_ (by simpa using harr))
  rintro p (_ | ⟨_, ⟨⟩⟩)
  exact List.all_iff_forall_prop.1 rfl

/-- An object with the name `a"b`, which `dumps` writes as `{"a"b":null}`. -/
def quotedName : SrsJsonAny Empty := .object [(HttpProxy.str "a\"b", .null)]

/-- Built values whose text does not stand for them: the name is not escaped, so its quote ends it. -/
theorem quotedName_not_text :
    ¬ ∀ v : SrsJsonAny Empty, Built v → Text (dumps Empty.elim v) (toJson Empty.elim v) := by
  intro h
  have hname : IsUtf8 (HttpProxy.str "a\"b") := ⟨"a\"b".toList, by decide⟩
  have hb : Built quotedName := .object (by simpa using hname) (by simpa using Built.null)
  cases clean_of_text hb (h quotedName hb) with
  | object _ hname _ => exact absurd (hname _ List.mem_cons_self 34 (by decide)) (by decide)

end SrsJsonAny

end HttpProxy
