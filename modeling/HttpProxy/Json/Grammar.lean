import HttpProxy.Bytes.CLib

/-!
# JSON texts

The grammar of RFC 8259 over bytes, with what each text stands for: `Json.Text t v` says that the
bytes are a JSON text and that it is decoded to the value.

* `Json` — what a text stands for; strings are their bytes in UTF-8, numbers are exact.
* `Json.Chars` — the inside of a string and what it stands for.
* `Json.Number`, `Json.CommaSep`, `Json.Value` — the other productions.
* `Json.Chars.verbatim` — bytes that are put between quotes as they are stand for themselves only if
  none of them has to be escaped.
* `Json.CommaSep.forced` — a list is read item by item, when each item can be read in one way only.
-/

namespace HttpProxy

/-- What a JSON text stands for. -/
inductive Json
  | null
  | bool (b : Bool)
  | num (q : ℚ)
  | str (s : Bytes)
  | arr (elements : List Json)
  | obj (members : List (Bytes × Json))

namespace Json

/-! ## Characters -/

/-- A character in UTF-8. -/
def utf8 (c : Char) : Bytes := String.utf8EncodeChar c

/-- The bytes are characters in UTF-8. -/
def IsUtf8 (s : Bytes) : Prop := ∃ cs : List Char, s = cs.flatMap utf8

/-- `unescaped`: the character may stand in a string as it is. -/
def Unescaped (c : Char) : Prop := 32 ≤ c.toNat ∧ c.toNat ≠ 34 ∧ c.toNat ≠ 92

/-- What the escape with this letter stands for. -/
def escapeOf (e : Byte) : Option Byte :=
  if e = 34 then some 34
  else if e = 92 then some 92
  else if e = 47 then some 47
  else if e = 98 then some 8
  else if e = 102 then some 12
  else if e = 110 then some 10
  else if e = 114 then some 13
  else if e = 116 then some 9
  else none

/-- `4HEXDIG`. -/
def HexQuad (ds : Bytes) : Prop := ds.length = 4 ∧ ∀ b ∈ ds, isXDigit b = true

/-- The inside of a string, and the bytes that it stands for. -/
inductive Chars : Bytes → Bytes → Prop
  | nil : Chars [] []
  | plain {c t s} (hc : Unescaped c) (h : Chars t s) : Chars (utf8 c ++ t) (utf8 c ++ s)
  | escape {e b t s} (he : escapeOf e = some b) (h : Chars t s) : Chars (92 :: e :: t) (b :: s)
  | unicode {ds c t s} (hds : HexQuad ds) (hc : digitsValue 16 ds = c.toNat) (h : Chars t s) :
      Chars (92 :: 117 :: (ds ++ t)) (utf8 c ++ s)
  /-- Two escapes for the two halves of a character beyond the first 65536. -/
  | surrogates {hi lo c t s} (hhi : HexQuad hi) (hlo : HexQuad lo)
      (hhigh : 0xD800 ≤ digitsValue 16 hi ∧ digitsValue 16 hi < 0xDC00)
      (hlow : 0xDC00 ≤ digitsValue 16 lo ∧ digitsValue 16 lo < 0xE000)
      (hc : c.toNat = 0x10000 + (digitsValue 16 hi - 0xD800) * 0x400 + (digitsValue 16 lo - 0xDC00))
      (h : Chars t s) : Chars (92 :: 117 :: (hi ++ 92 :: 117 :: (lo ++ t))) (utf8 c ++ s)

/-! ## Numbers -/

/-- `1*DIGIT`. -/
def IsDigits (ds : Bytes) : Prop := ds ≠ [] ∧ ∀ b ∈ ds, isDigitIn 10 b = true

/-- `int`: digits that start with a zero only if that is all. -/
def IsInt (ds : Bytes) : Prop := IsDigits ds ∧ (ds.head? = some 48 → ds = [48])

/-- `[ frac ]`. -/
inductive Frac : Bytes → ℚ → Prop
  | none : Frac [] 0
  | some {ds} (h : IsDigits ds) : Frac (46 :: ds) (digitsValue 10 ds / 10 ^ ds.length)

/-- `[ exp ]`. -/
inductive Exp : Bytes → ℤ → Prop
  | none : Exp [] 0
  | plus {e sign ds} (he : e = 101 ∨ e = 69) (hsign : sign = [] ∨ sign = [43]) (h : IsDigits ds) :
      Exp (e :: (sign ++ ds)) (digitsValue 10 ds)
  | minus {e ds} (he : e = 101 ∨ e = 69) (h : IsDigits ds) : Exp (e :: 45 :: ds) (-digitsValue 10 ds)

/-- `number`. -/
inductive Number : Bytes → ℚ → Prop
  | nonneg {i f e q z} (hi : IsInt i) (hf : Frac f q) (he : Exp e z) :
      Number (i ++ (f ++ e)) ((digitsValue 10 i + q) * 10 ^ z)
  | minus {t q} (h : Number t q) (hdigit : t.head? ≠ some 45) : Number (45 :: t) (-q)

/-! ## Values -/

/-- One of the four bytes of white space. -/
def isWs (b : Byte) : Bool := b == 32 || b == 9 || b == 10 || b == 13

/-- `ws`. -/
def Ws (w : Bytes) : Prop := ∀ b ∈ w, isWs b = true

/-- Items with a comma between each and the next. -/
inductive CommaSep {α : Type} (Item : Bytes → α → Prop) : Bytes → List α → Prop
  | one {t a} (h : Item t a) : CommaSep Item t [a]
  | more {t a u as} (h : Item t a) (hrest : CommaSep Item u as) : CommaSep Item (t ++ 44 :: u) (a :: as)

mutual

/-- `value`. -/
inductive Value : Bytes → Json → Prop
  | litNull : Value (HttpProxy.str "null") .null
  | litTrue : Value (HttpProxy.str "true") (.bool true)
  | litFalse : Value (HttpProxy.str "false") (.bool false)
  | num {t q} (h : Number t q) : Value t (.num q)
  | str {t s} (h : Chars t s) : Value (34 :: (t ++ [34])) (.str s)
  | noElements {w} (h : Ws w) : Value (91 :: (w ++ [93])) (.arr [])
  | arr {t xs} (h : CommaSep Element t xs) : Value (91 :: (t ++ [93])) (.arr xs)
  | noMembers {w} (h : Ws w) : Value (123 :: (w ++ [125])) (.obj [])
  | obj {t ms} (h : CommaSep Member t ms) : Value (123 :: (t ++ [125])) (.obj ms)

/-- A value with white space around it. -/
inductive Element : Bytes → Json → Prop
  | mk {w t w' x} (hw : Ws w) (h : Value t x) (hw' : Ws w') : Element (w ++ (t ++ w')) x

/-- `member`, with white space around it. -/
inductive Member : Bytes → Bytes × Json → Prop
  | mk {w t k w' u x} (hw : Ws w) (hname : Chars t k) (hw' : Ws w') (h : Element u x) :
      Member (w ++ 34 :: (t ++ 34 :: (w' ++ 58 :: u))) (k, x)

end

/-- `JSON-text`: the bytes are a JSON text that stands for the value. -/
def Text (t : Bytes) (v : Json) : Prop := Element t v

/-! ## Bytes of characters -/

/-- A character is its own byte, or all of its bytes are beyond the ASCII ones. -/
theorem utf8_cases (c : Char) :
    (c.toNat < 128 ∧ utf8 c = [UInt8.ofNat c.toNat]) ∨ (128 ≤ c.toNat ∧ ∀ b ∈ utf8 c, 128 ≤ b.toNat) := by
  have hval : c.val.toNat = c.toNat := rfl
  unfold utf8 String.utf8EncodeChar
  simp only [hval]
  split
  · next h => exact Or.inl ⟨by omega, rfl⟩
  · next h =>
    refine Or.inr ⟨by omega, fun b hb => ?_⟩
    split at hb
    · simp only [List.mem_cons, List.not_mem_nil, or_false] at hb
      obtain rfl | rfl := hb <;> (rw [UInt8.toNat_ofNat']; omega)
    · split at hb
      · simp only [List.mem_cons, List.not_mem_nil, or_false] at hb
        obtain rfl | rfl | rfl := hb <;> (rw [UInt8.toNat_ofNat']; omega)
      · simp only [List.mem_cons, List.not_mem_nil, or_false] at hb
        obtain rfl | rfl | rfl | rfl := hb <;> (rw [UInt8.toNat_ofNat']; omega)

theorem utf8_length (c : Char) : 0 < (utf8 c).length ∧ (utf8 c).length ≤ 4 := by
  rw [utf8, String.length_utf8EncodeChar]
  exact ⟨c.utf8Size_pos, c.utf8Size_le_four⟩

/-- A byte that stands for itself: it is no control character, no quote and no backslash. -/
def Plain (b : Byte) : Prop := 32 ≤ b.toNat ∧ b ≠ 34 ∧ b ≠ 92

instance : DecidablePred Plain := fun b => inferInstanceAs (Decidable (32 ≤ b.toNat ∧ b ≠ 34 ∧ b ≠ 92))

theorem plain_of_unescaped {c : Char} (hc : Unescaped c) : ∀ b ∈ utf8 c, Plain b := by
  intro b hb
  have hne : ∀ n : Nat, n < 128 → b.toNat ≠ n → b ≠ UInt8.ofNat n := by
    rintro n hn h rfl
    rw [UInt8.toNat_ofNat', Nat.mod_eq_of_lt (by omega)] at h
    exact h rfl
  rcases utf8_cases c with ⟨hlt, hutf⟩ | ⟨-, hhigh⟩
  · rw [hutf, List.mem_singleton] at hb
    have hnat : b.toNat = c.toNat := by rw [hb, UInt8.toNat_ofNat', Nat.mod_eq_of_lt (by omega)]
    rw [Unescaped, ← hnat] at hc
    exact ⟨hc.1, hne 34 (by omega) hc.2.1, hne 92 (by omega) hc.2.2⟩
  · have := hhigh b hb
    exact ⟨by omega, hne 34 (by omega) (by omega), hne 92 (by omega) (by omega)⟩

theorem unescaped_of_plain {c : Char} (h : ∀ b ∈ utf8 c, Plain b) : Unescaped c := by
  rcases utf8_cases c with ⟨hlt, hutf⟩ | ⟨hle, -⟩
  · obtain ⟨h32, h34, h92⟩ := h (UInt8.ofNat c.toNat) (hutf ▸ List.mem_singleton_self _)
    rw [UInt8.toNat_ofNat', Nat.mod_eq_of_lt (by omega)] at h32
    refine ⟨h32, fun hc => h34 ?_, fun hc => h92 ?_⟩ <;> (rw [hc]; rfl)
  · exact ⟨by omega, by omega, by omega⟩

/-- Characters that all stand for themselves. -/
theorem Chars.of_plain {s : Bytes} (hutf : IsUtf8 s) (h : ∀ b ∈ s, Plain b) : Chars s s := by
  obtain ⟨cs, rfl⟩ := hutf
  induction cs with
  | nil => exact .nil
  | cons c cs ih =>
    rw [List.flatMap_cons] at h ⊢
    have hc : Unescaped c := unescaped_of_plain fun b hb => h b (List.mem_append_left _ hb)
    exact .plain hc (ih fun b hb => h b (List.mem_append_right _ hb))

/-! ## Bytes between quotes -/

theorem quote_notMem_quad {ds : Bytes} (h : HexQuad ds) : 34 ∉ ds := fun hmem =>
  absurd (h.2 34 hmem) (by decide)

/-- A quote in a string is one that is escaped, so what it stands for comes earlier in the value. -/
theorem Chars.quote {t s : Bytes} (h : Chars t s) :
    ∀ {a c}, t = a ++ 34 :: c → ∃ a' c', s = a' ++ 34 :: c' ∧ a'.length < a.length := by
  -- what stands in front of the quote starts with the first character or escape
  have hsplit : ∀ {x t a c : Bytes}, 34 ∉ x → x ++ t = a ++ 34 :: c → ∃ a₀, a = x ++ a₀ ∧ t = a₀ ++ 34 :: c := by
    intro x t a c hx heq
    rcases List.append_eq_append_iff.1 heq with ⟨a₀, ha, ht⟩ | ⟨c₀, hx', hc⟩
    · exact ⟨a₀, ha, ht⟩
    · cases c₀ with
      | nil => exact ⟨[], by simpa using hx'.symm, by simpa using hc.symm⟩
      | cons b c₀ =>
        obtain ⟨rfl, -⟩ := List.cons.inj hc
        exact absurd (hx' ▸ by simp) hx
  induction h with
  | nil =>
    intro a c heq
    simp at heq
  | @plain ch t s hc _ ih =>
    intro a c heq
    have hx : 34 ∉ utf8 ch := fun hmem => (plain_of_unescaped hc 34 hmem).2.1 rfl
    obtain ⟨a₀, rfl, ht⟩ := hsplit hx heq
    obtain ⟨a', c', rfl, hlt⟩ := ih ht
    exact ⟨utf8 ch ++ a', c', by simp, by simpa using hlt⟩
  | @escape e b t s he _ ih =>
    intro a c heq
    rcases a with _ | ⟨x, _ | ⟨y, a⟩⟩
    · exact absurd (List.cons.inj heq).1 (by decide)
    · obtain ⟨rfl, hrest⟩ := List.cons.inj heq
      obtain ⟨rfl, -⟩ := List.cons.inj hrest
      cases he
      exact ⟨[], s, rfl, by simp⟩
    · simp only [List.cons_append, List.cons.injEq] at heq
      obtain ⟨a', c', rfl, hlt⟩ := ih heq.2.2
      exact ⟨b :: a', c', rfl, by simp; omega⟩
  | @unicode ds ch t s hds _ _ ih =>
    intro a c heq
    have hx : 34 ∉ 92 :: 117 :: ds := by simpa using quote_notMem_quad hds
    obtain ⟨a₀, rfl, ht⟩ := hsplit hx heq
    obtain ⟨a', c', rfl, hlt⟩ := ih ht
    have := (utf8_length ch).2
    exact ⟨utf8 ch ++ a', c', by simp, by simp [hds.1]; omega⟩
  | @surrogates hi lo ch t s hhi hlo _ _ _ _ ih =>
    intro a c heq
    have hx : 34 ∉ 92 :: 117 :: (hi ++ 92 :: 117 :: lo) := by
      simpa using ⟨quote_notMem_quad hhi, quote_notMem_quad hlo⟩
    obtain ⟨a₀, rfl, ht⟩ := hsplit hx (by simpa using heq)
    obtain ⟨a', c', rfl, hlt⟩ := ih ht
    have := (utf8_length ch).2
    exact ⟨utf8 ch ++ a', c', by simp, by simp [hhi.1, hlo.1]; omega⟩

/-- A string is no shorter than its value, and as long only without escapes. -/
theorem Chars.length_le {t s : Bytes} (h : Chars t s) :
    s.length ≤ t.length ∧ (s.length = t.length → t = s ∧ ∀ b ∈ s, Plain b) := by
  induction h with
  | nil => simp
  | @plain ch t s hc _ ih =>
    refine ⟨by simpa using ih.1, fun hlen => ?_⟩
    obtain ⟨rfl, hplain⟩ := ih.2 (by simpa using hlen)
    refine ⟨rfl, fun b hb => ?_⟩
    rcases List.mem_append.1 hb with hb | hb
    · exact plain_of_unescaped hc b hb
    · exact hplain b hb
  | escape => simp; omega
  | @unicode ds ch t s hds _ _ ih =>
    have := (utf8_length ch).2
    simp [hds.1]
    omega
  | @surrogates hi lo ch t s hhi hlo _ _ _ _ ih =>
    have := (utf8_length ch).2
    simp [hhi.1, hlo.1]
    omega

/-- A value does not stand in front of a quote in its own string. -/
theorem Chars.not_quoted {t s : Bytes} (h : Chars t s) (rest : Bytes) : t ≠ s ++ 34 :: rest := by
  -- the quote gives an earlier one in the value, which the string has as well, and so on
  have hnone : ∀ n a c, a.length ≤ n → t = a ++ 34 :: c → t ≠ s ++ 34 :: rest := by
    intro n
    induction n with
    | zero =>
      intro a c hn heq
      obtain ⟨a', -, -, hlt⟩ := h.quote heq
      omega
    | succ n ih =>
      intro a c hn heq heq'
      obtain ⟨a', c', hs, hlt⟩ := h.quote heq
      exact ih a' (c' ++ 34 :: rest) (by omega) (by rw [heq', hs]; simp) heq'
  exact fun heq => hnone s.length s rest le_rfl heq heq

/-- Bytes that are put between quotes as they are are read as themselves only if all of them stand
for themselves. -/
theorem Chars.verbatim {t s X Y : Bytes} (h : Chars t s) (heq : t ++ 34 :: X = s ++ 34 :: Y) :
    t = s ∧ X = Y ∧ ∀ b ∈ s, Plain b := by
  rcases List.append_eq_append_iff.1 heq with ⟨a, ha, hX⟩ | ⟨c, hc, hY⟩
  · have hlen := congrArg List.length ha
    rw [List.length_append] at hlen
    obtain ⟨rfl, hplain⟩ := h.length_le.2 (by have := h.length_le.1; omega)
    exact ⟨rfl, by simpa using heq, hplain⟩
  · cases c with
    | nil =>
      rw [List.append_nil] at hc
      subst hc
      exact ⟨rfl, by simpa using heq, (h.length_le.2 rfl).2⟩
    | cons b c =>
      obtain ⟨rfl, -⟩ := List.cons.inj hY
      exact absurd hc (h.not_quoted c)

/-! ## Where a number ends -/

/-- A byte that a number may have. -/
def isNumByte (b : Byte) : Bool := isDigitIn 10 b || b == 43 || b == 45 || b == 46 || b == 69 || b == 101

/-- The text does not go on with a byte that a number may have. -/
def NoNum (r : Bytes) : Prop := ∀ b ∈ r.head?, isNumByte b = false

theorem isNumByte_of_digits {ds : Bytes} (h : IsDigits ds) : ∀ b ∈ ds, isNumByte b = true := by
  intro b hb
  simp [isNumByte, h.2 b hb]

theorem Frac.bytes {f : Bytes} {q : ℚ} (h : Frac f q) : ∀ b ∈ f, isNumByte b = true := by
  cases h with
  | none => exact fun b hb => absurd hb List.not_mem_nil
  | some h => exact List.forall_mem_cons.2 ⟨rfl, isNumByte_of_digits h⟩

theorem Exp.bytes {e : Bytes} {z : ℤ} (h : Exp e z) : ∀ b ∈ e, isNumByte b = true := by
  cases h with
  | none => exact fun b hb => absurd hb List.not_mem_nil
  | @plus x sign ds he hsign h =>
    have hsignBytes : ∀ b ∈ sign, isNumByte b = true := by
      rcases hsign with rfl | rfl <;> simp [isNumByte]
    refine List.forall_mem_cons.2 ⟨by rcases he with rfl | rfl <;> rfl, ?_⟩
    exact List.forall_mem_append.2 ⟨hsignBytes, isNumByte_of_digits h⟩
  | @minus x ds he h =>
    refine List.forall_mem_cons.2 ⟨by rcases he with rfl | rfl <;> rfl, ?_⟩
    exact List.forall_mem_cons.2 ⟨rfl, isNumByte_of_digits h⟩

theorem Number.bytes {t : Bytes} {q : ℚ} (h : Number t q) : t ≠ [] ∧ ∀ b ∈ t, isNumByte b = true := by
  induction h with
  | nonneg hi hf he =>
    refine ⟨by simp [hi.1.1], ?_⟩
    exact List.forall_mem_append.2 ⟨isNumByte_of_digits hi.1, List.forall_mem_append.2 ⟨hf.bytes, he.bytes⟩⟩
  | minus _ _ ih => exact ⟨List.cons_ne_nil _ _, List.forall_mem_cons.2 ⟨rfl, ih.2⟩⟩

/-- Bytes of a number, up to one that is none. -/
theorem takeWhile_isNumByte {t r : Bytes} (ht : ∀ b ∈ t, isNumByte b = true) (hr : NoNum r) :
    (t ++ r).takeWhile isNumByte = t := by
  rw [List.takeWhile_append_of_pos ht]
  cases r with
  | nil => simp
  | cons b r => rw [List.takeWhile_cons_of_neg (by simp [hr b rfl]), List.append_nil]

/-- A number is read in one way only. -/
theorem Number.forced {t u r r' : Bytes} {q : ℚ} (h : Number t q) (hu : ∀ b ∈ u, isNumByte b = true)
    (hr : NoNum r) (hr' : NoNum r') (heq : t ++ r = u ++ r') : t = u := by
  rw [← takeWhile_isNumByte h.bytes.2 hr, heq, takeWhile_isNumByte hu hr']

/-! ## Where values start and end -/

/-- The text is at its end, or at one of the bytes that end an item. -/
def Stop (r : Bytes) : Prop := ∀ b ∈ r.head?, b = 44 ∨ b = 93 ∨ b = 125

/-- A byte that may stand in front of a value or behind it. -/
def isOuter (b : Byte) : Bool := isWs b || b == 44 || b == 93 || b == 125

theorem Stop.notWs {r : Bytes} (h : Stop r) : ∀ b ∈ r.head?, isWs b = false := by
  intro b hb
  rcases h b hb with rfl | rfl | rfl <;> rfl

theorem noNum_of_outer {r : Bytes} (h : ∀ b ∈ r.head?, isOuter b = true) : NoNum r := by
  intro b hb
  have hbyte : ∀ b : Byte, isOuter b = true → isNumByte b = false :=
    forall_byte (by decide +kernel)
  exact hbyte b (h b hb)

theorem outer_of_stop {r : Bytes} (h : Stop r) : ∀ b ∈ r.head?, isOuter b = true := by
  intro b hb
  rcases h b hb with rfl | rfl | rfl <;> rfl

theorem outer_of_ws {w r : Bytes} (hw : Ws w) (hr : Stop r) : ∀ b ∈ (w ++ r).head?, isOuter b = true := by
  cases w with
  | nil => exact outer_of_stop hr
  | cons b w =>
    intro c hc
    cases hc
    simp [isOuter, hw b List.mem_cons_self]

/-- A value starts with a byte of its own. -/
theorem Value.head {t : Bytes} {v : Json} (h : Value t v) : ∃ b t', t = b :: t' ∧ isOuter b = false := by
  cases h with
  | litNull => exact ⟨_, _, rfl, rfl⟩
  | litTrue => exact ⟨_, _, rfl, rfl⟩
  | litFalse => exact ⟨_, _, rfl, rfl⟩
  | num h =>
    obtain ⟨b, t', rfl⟩ := List.exists_cons_of_ne_nil h.bytes.1
    have hbyte : ∀ b : Byte, isNumByte b = true → isOuter b = false :=
      forall_byte (by decide +kernel)
    exact ⟨b, t', rfl, hbyte b (h.bytes.2 b List.mem_cons_self)⟩
  | str => exact ⟨_, _, rfl, rfl⟩
  | noElements => exact ⟨_, _, rfl, rfl⟩
  | arr => exact ⟨_, _, rfl, rfl⟩
  | noMembers => exact ⟨_, _, rfl, rfl⟩
  | obj => exact ⟨_, _, rfl, rfl⟩

/-- White space in front of a text that starts without any. -/
theorem Ws.eq_nil {w X Y : Bytes} (hw : Ws w) (hY : ∀ b ∈ Y.head?, isWs b = false) (heq : w ++ X = Y) :
    w = [] := by
  cases w with
  | nil => rfl
  | cons b w =>
    have hb := hY b (by rw [← heq]; rfl)
    rw [hw b List.mem_cons_self] at hb
    cases hb

/-- An item is not at an end. -/
theorem Element.not_stop {t : Bytes} {v : Json} (h : Element t v) (r : Bytes) : ¬ Stop (t ++ r) := by
  intro hstop
  cases h with
  | @mk w t w' x hw h hw' =>
    obtain ⟨b, t', rfl, hb⟩ := h.head
    have hnil := hw.eq_nil (X := b :: t' ++ w' ++ r) hstop.notWs (by simp)
    subst hnil
    rcases hstop b rfl with rfl | rfl | rfl <;> cases hb

theorem Member.not_stop {t : Bytes} {m : Bytes × Json} (h : Member t m) (r : Bytes) : ¬ Stop (t ++ r) := by
  intro hstop
  cases h with
  | @mk w t k w' u x hw hname hw' h =>
    have hnil := hw.eq_nil (X := 34 :: (t ++ 34 :: (w' ++ 58 :: u)) ++ r) hstop.notWs (by simp)
    subst hnil
    rcases hstop 34 rfl with h | h | h <;> cases h

/-! ## Lists -/

/-- Texts with a comma between each and the next. -/
def joined : List Bytes → Bytes
  | [] => []
  | [text] => text
  | text :: texts => text ++ 44 :: joined texts

theorem joined_cons_cons (t u : Bytes) (ts : List Bytes) : joined (t :: u :: ts) = t ++ 44 :: joined (u :: ts) := rfl

section
variable {α β : Type} {Item : Bytes → α → Prop} {value : β → α} {print : β → Bytes} {P : β → Prop}

theorem commaSep_joined {xs : List β} (hne : xs ≠ []) (h : ∀ x ∈ xs, Item (print x) (value x)) :
    CommaSep Item (joined (xs.map print)) (xs.map value) := by
  induction xs with
  | nil => exact absurd rfl hne
  | cons x xs ih =>
    cases xs with
    | nil => exact .one (h x List.mem_cons_self)
    | cons y ys =>
      exact .more (h x List.mem_cons_self) (ih (by simp) fun z hz => h z (List.mem_cons_of_mem _ hz))

theorem CommaSep.not_stop (hitem : ∀ t a, Item t a → ∀ r, ¬ Stop (t ++ r)) {t : Bytes} {as : List α}
    (h : CommaSep Item t as) (r : Bytes) : ¬ Stop (t ++ r) := by
  cases h with
  | one h => exact hitem _ _ h r
  | @more t _ u _ h hrest =>
    have := hitem _ _ h (44 :: u ++ r)
    simpa using this

/-- When each item is read in one way only, so is the list: all of the items were printed, and
what the reading of an item says holds of each. -/
theorem CommaSep.forced {close : Byte} (hclose : close = 93 ∨ close = 125)
    (hitem : ∀ t a, Item t a → ∀ r, ¬ Stop (t ++ r)) {xs : List β}
    (hstep : ∀ x ∈ xs, ∀ t r r', Item t (value x) → Stop r → Stop r' → t ++ r = print x ++ r' →
      P x ∧ t = print x)
    {t r r' : Bytes} {n : Nat} (h : CommaSep Item t (xs.map value))
    (heq : t ++ close :: r = joined ((xs.take n).map print) ++ close :: r') :
    (∀ x ∈ xs, P x) ∧ xs.length ≤ n ∧ r = r' := by
  have hend : ∀ r, Stop (close :: r) := by
    intro r b hb
    cases hb
    exact Or.inr hclose
  have hcomma : ∀ r, Stop (44 :: r) := by
    intro r b hb
    cases hb
    exact Or.inl rfl
  have hne : (44 : Byte) ≠ close := by rcases hclose with rfl | rfl <;> decide
  induction xs generalizing t n with
  | nil => cases h
  | cons x xs ih =>
    have hx := hstep x List.mem_cons_self
    rcases n with _ | n
    · -- nothing was printed, but there is an item
      have heq' : t ++ close :: r = close :: r' := by simpa [joined] using heq
      exact absurd (heq' ▸ hend r') (h.not_stop hitem _)
    · rw [List.map_cons] at h
      cases xs with
      | nil =>
        cases h with
        | one h =>
          obtain ⟨hgood, rfl⟩ := hx t _ _ h (hend r) (hend r') (by simpa [joined] using heq)
          refine ⟨by simpa using hgood, by simp, ?_⟩
          simpa [joined] using heq
        | more h hrest => cases hrest
      | cons y ys =>
        cases h with
        | @more t _ u _ h hrest =>
          rcases n with _ | n
          · -- one item was printed, but there is a second
            have heq' : t ++ (44 :: u ++ close :: r) = print x ++ close :: r' := by simpa [joined] using heq
            obtain ⟨-, rfl⟩ := hx t _ _ h (hcomma _) (hend r') heq'
            have := List.append_cancel_left heq'
            exact absurd (List.cons.inj this).1 hne
          · have heq' : t ++ (44 :: (u ++ close :: r)) =
                print x ++ (44 :: (joined (((y :: ys).take (n + 1)).map print) ++ close :: r')) := by
              simpa [joined_cons_cons] using heq
            obtain ⟨hgood, rfl⟩ := hx t _ _ h (hcomma _) (hcomma _) heq'
            have htail := (List.cons.inj (List.append_cancel_left heq')).2
            have := ih (fun z hz => hstep z (List.mem_cons_of_mem _ hz)) hrest htail
            exact ⟨List.forall_mem_cons.2 ⟨hgood, this.1⟩, by simp at this ⊢; omega, this.2.2⟩

end

end Json

end HttpProxy
