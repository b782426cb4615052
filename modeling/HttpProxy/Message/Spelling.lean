import HttpProxy.Message.Header

/-!
# The names of header fields, up to case

`SrsHttpHeader::set` (`src/protocol/srs_protocol_http_stack.cpp`, lines 676-696) makes the first letter of
every part of a name a capital, and leaves the other letters as they are.

* `SameName`, `camel` — two spellings of one name, and the canonical one.
* `UpperFirst` — no capitals but at the beginning of a part.
* `CaseInsensitive` — a header in which every spelling of a name denotes the same entry.
* `caseInsensitive_iff` — when the calls of `set` build such a header.
-/

namespace HttpProxy

/-! ## Spellings -/

/-- `toupper`. -/
def toupper (b : Byte) : Byte := if isLower b then b - 32 else b

/-- The two names are equal up to the case of their letters. -/
def SameName (a b : Bytes) : Prop := a.map tolower = b.map tolower

instance (a b : Bytes) : Decidable (SameName a b) :=
  inferInstanceAs (Decidable (a.map tolower = b.map tolower))

/-- The canonical spelling: a capital at the beginning of every part, and no other. -/
def camelParts : Bool → Bytes → Bytes
  | _, [] => []
  | first, ch :: key => (if first then toupper ch else tolower ch) :: camelParts (ch == 45) key

/-- The canonical spelling of a name. -/
def camel (key : Bytes) : Bytes := camelParts true key

/-- No capitals but at the beginning of a part. -/
def UpperFirst : Bool → Bytes → Prop
  | _, [] => True
  | first, ch :: key => (first = true ∨ tolower ch = ch) ∧ UpperFirst (ch == 45) key

theorem SameName.refl (a : Bytes) : SameName a a := rfl

theorem SameName.symm {a b : Bytes} (h : SameName a b) : SameName b a := Eq.symm h

theorem SameName.trans {a b c : Bytes} (h : SameName a b) (h' : SameName b c) : SameName a c := Eq.trans h h'

theorem tolower_toupper (b : Byte) : tolower (toupper b) = tolower b :=
  forall_byte (P := fun b => tolower (toupper b) = tolower b) (by decide +kernel) b

theorem tolower_tolower (b : Byte) : tolower (tolower b) = tolower b :=
  forall_byte (P := fun b => tolower (tolower b) = tolower b) (by decide +kernel) b

theorem toupper_tolower (b : Byte) : toupper (tolower b) = toupper b :=
  forall_byte (P := fun b => toupper (tolower b) = toupper b) (by decide +kernel) b

theorem tolower_eq_dash (b : Byte) : (tolower b == 45) = (b == 45) :=
  forall_byte (P := fun b => (tolower b == 45) = (b == 45)) (by decide +kernel) b

/-- The canonical spelling is a spelling. -/
theorem sameName_camelParts (first : Bool) (key : Bytes) : SameName (camelParts first key) key := by
  induction key generalizing first with
  | nil => rfl
  | cons ch key ih =>
    have hrest : (camelParts (ch == 45) key).map tolower = key.map tolower := ih (ch == 45)
    have hch : tolower (if first then toupper ch else tolower ch) = tolower ch := by
      split_ifs
      · exact tolower_toupper ch
      · exact tolower_tolower ch
    show tolower _ :: (camelParts (ch == 45) key).map tolower = tolower ch :: key.map tolower
    rw [hch, hrest]

/-- It depends on the name alone. -/
theorem camelParts_lower (first : Bool) (key : Bytes) : camelParts first (key.map tolower) =
    camelParts first key := by
  induction key generalizing first with
  | nil => rfl
  | cons ch key ih =>
    rw [List.map_cons, camelParts, camelParts, ih, tolower_eq_dash, toupper_tolower, tolower_tolower]

theorem sameName_iff_camel {a b : Bytes} : SameName a b ↔ camel a = camel b := by
  constructor
  · intro h
    rw [camel, camel, ← camelParts_lower true a, ← camelParts_lower true b, show a.map tolower =
      b.map tolower from h]
  · intro h
    have ha := sameName_camelParts true a
    have hb := sameName_camelParts true b
    rw [show camelParts true a = camelParts true b from h] at ha
    exact ha.symm.trans hb

theorem sameName_camel (key : Bytes) : SameName (camel key) key := sameName_camelParts true key

/-- `set` capitalises. -/
theorem sameName_canonicalKey (key : Bytes) : SameName (canonicalKey key) key := by
  suffices h : ∀ first, SameName (capitalise first key) key from h true
  intro first
  induction key generalizing first with
  | nil => rfl
  | cons ch key ih =>
    have hch : tolower (if first && isLower ch then ch - 32 else ch) = tolower ch := by
      cases first
      · simp
      · simpa [toupper] using tolower_toupper ch
    have hrest : (capitalise (ch == 45) key).map tolower = key.map tolower := ih (ch == 45)
    show tolower _ :: (capitalise (ch == 45) key).map tolower = tolower ch :: key.map tolower
    rw [hch, hrest]

/-- It arrives at the canonical spelling if there are no other capitals. -/
theorem capitalise_eq_camelParts (first : Bool) (key : Bytes) :
    capitalise first key = camelParts first key ↔ UpperFirst first key := by
  induction key generalizing first with
  | nil => simp [capitalise, camelParts, UpperFirst]
  | cons ch key ih =>
    rw [capitalise, camelParts, UpperFirst, List.cons.injEq, ih (ch == 45)]
    refine and_congr_left fun _ => ?_
    cases first with
    | true => simp [toupper]
    | false => simpa using eq_comm

theorem canonicalKey_eq_camel {key : Bytes} : canonicalKey key = camel key ↔ UpperFirst true key :=
  capitalise_eq_camelParts true key

/-! ## A sequence of calls -/

namespace SrsHttpHeader

/-- The calls of `set`, in order. -/
def setAll : List (Bytes × Bytes) → SrsHttpHeader → SrsHttpHeader
  | [], h => h
  | s :: sets, h => setAll sets (h.set s.1 s.2)

/-- The last value that is set under a spelling of the name. -/
def lastValue (name : Bytes) : List (Bytes × Bytes) → Option Bytes
  | [] => none
  | s :: sets => (lastValue name sets).or (if SameName s.1 name then some s.2 else none)

/-- Every spelling of a name denotes one entry, with the last value that was set. -/
structure CaseInsensitive (sets : List (Bytes × Bytes)) (h : SrsHttpHeader) : Prop where
  /-- Nothing is stored under a spelling that is not the canonical one. -/
  one : ∀ key v, h.headers.find? key = some v → key = camel key
  last : ∀ name, h.headers.find? (camel name) = lastValue name sets
  contentLength : h.contentLength =
    (match lastValue (str "Content-Length") sets with
    | none | some [] => -1
    | some v => atofInt64 v)
  contentType : h.contentType = (lastValue (str "Content-Type") sets).getD []

/-- The last value that is stored under a key. -/
def lastStored (key : Bytes) : List (Bytes × Bytes) → Option Bytes
  | [] => none
  | s :: sets => (lastStored key sets).or (if canonicalKey s.1 = key then some s.2 else none)

theorem find?_setAll (sets : List (Bytes × Bytes)) (h : SrsHttpHeader) (key : Bytes) :
    (setAll sets h).headers.find? key = (lastStored key sets).or (h.headers.find? key) := by
  induction sets generalizing h with
  | nil => rfl
  | cons s sets ih =>
    rw [setAll, ih, lastStored, Option.or_assoc]
    congr 1
    split_ifs with hkey
    · rw [← hkey]
      exact OrdMap.find?_insert_self h.headers (canonicalKey s.1) s.2
    · exact OrdMap.find?_insert_of_ne h.headers (fun heq => hkey heq.symm) s.2

/-- What is stored has been set. -/
theorem lastStored_isSome {key : Bytes} {sets : List (Bytes × Bytes)} :
    (lastStored key sets).isSome ↔ ∃ s ∈ sets, canonicalKey s.1 = key := by
  induction sets with
  | nil => simp [lastStored]
  | cons s sets ih =>
    rw [lastStored, Option.isSome_or, Bool.or_eq_true, ih]
    constructor
    · rintro (⟨s', hs', hkey⟩ | hkey)
      · exact ⟨s', List.mem_cons_of_mem s hs', hkey⟩
      · split_ifs at hkey with hs
        · exact ⟨s, List.mem_cons_self .., hs⟩
        · cases hkey
    · rintro ⟨s', hs', hkey⟩
      rcases List.mem_cons.1 hs' with rfl | hs'
      · exact .inr (by simp [hkey])
      · exact .inl ⟨s', hs', hkey⟩

/-- With spellings that `set` makes canonical, it is the last value of the name. -/
theorem lastStored_camel {sets : List (Bytes × Bytes)} (h : ∀ s ∈ sets, UpperFirst true s.1) (name : Bytes) :
    lastStored (camel name) sets = lastValue name sets := by
  induction sets with
  | nil => rfl
  | cons s sets ih =>
    have hs : canonicalKey s.1 = camel s.1 := canonicalKey_eq_camel.2 (h s (List.mem_cons_self ..))
    rw [lastStored, lastValue, ih fun s' hs' => h s' (List.mem_cons_of_mem s hs'), hs]
    simp only [sameName_iff_camel]

/-- **Names are case-insensitive** exactly if no name is spelled with a capital that is not at the beginning
of a part. -/
theorem caseInsensitive_iff (sets : List (Bytes × Bytes)) :
    CaseInsensitive sets (setAll sets .empty) ↔ ∀ s ∈ sets, UpperFirst true s.1 := by
  have hfind (key : Bytes) : (setAll sets empty).headers.find? key = lastStored key sets := by
    rw [find?_setAll]
    exact Option.or_none
  constructor
  · intro h s hs
    have hstored : (lastStored (canonicalKey s.1) sets).isSome := lastStored_isSome.2 ⟨s, hs, rfl⟩
    obtain ⟨v, hv⟩ := Option.isSome_iff_exists.1 hstored
    have hcanon := h.one (canonicalKey s.1) v ((hfind _).trans hv)
    rw [sameName_iff_camel.1 (sameName_canonicalKey s.1)] at hcanon
    exact canonicalKey_eq_camel.1 hcanon
  · intro h
    have hlast (name : Bytes) : (setAll sets empty).headers.find? (camel name) = lastValue name sets :=
      (hfind _).trans (lastStored_camel h name)
    have hlength := hlast (str "Content-Length")
    have htype := hlast (str "Content-Type")
    refine ⟨fun key v hv => ?_, hlast, ?_, ?_⟩
    · rw [hfind] at hv
      obtain ⟨s, hs, rfl⟩ := lastStored_isSome.1 (Option.isSome_iff_exists.2 ⟨v, hv⟩)
      rw [canonicalKey_eq_camel.2 (h s hs)]
      exact sameName_iff_camel.1 (sameName_camel s.1).symm
    · rw [show camel (str "Content-Length") = str "Content-Length" by decide] at hlength
      unfold SrsHttpHeader.contentLength get
      rw [hlength]
      rcases lastValue (str "Content-Length") sets with _ | _ | ⟨b, v⟩ <;> rfl
    · rw [show camel (str "Content-Type") = str "Content-Type" by decide] at htype
      unfold SrsHttpHeader.contentType get
      rw [htype]

/-- A length in capitals is not seen. -/
theorem not_caseInsensitive_capitals :
    SameName (str "CONTENT-LENGTH") (str "Content-Length") ∧
      (setAll [(str "CONTENT-LENGTH", str "5")] .empty).contentLength = -1 ∧
      ¬ CaseInsensitive [(str "CONTENT-LENGTH", str "5")]
        (setAll [(str "CONTENT-LENGTH", str "5")] .empty) := by
  refine ⟨by decide, by decide, fun h => ?_⟩
  have hlast := h.last (str "Content-Length")
  exact absurd hlast (by decide)

end SrsHttpHeader

end HttpProxy
