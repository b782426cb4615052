import HttpProxy.Message.Head
import HttpProxy.Message.Parser

/-!
# What the callbacks collect

The callbacks of `SrsHttpParser` see a block of input at a time and a token in
pieces; `Head.read` sees single bytes.  Within a block the two agree: at every
position, once the piece of the token that is open there has been reported, the
parser object holds the header that has been read (`Collects`).  Between two
blocks they agree as well, unless the cut is inside a field name: then the second
piece of the name is taken for the name of another field.

* `tailAfter` — where `p_header_tail` points after some bytes of a block.
* `Feeding.step` — one byte of a block keeps the agreement.
* `execute_agrees` — so does a whole block, the fields if it does not start inside a
  field name.
-/

namespace HttpProxy

namespace SrsHttpParser

open HttpParser

/-- The field that is open, and the header made of the others. -/
structure Fields (h : Head) (o : SrsHttpParser) : Prop where
  name : o.fieldName = (h.fields.headD ([], [])).1
  value : o.fieldValue = (h.fields.headD ([], [])).2
  header : o.header = Head.closed h.fields.tail

/-- The parser object holds what has been read of a header; the fields only if
they are `intact`. -/
structure Collects (intact : Prop) (h : Head) (o : SrsHttpParser) : Prop where
  hp : o.hpHeader = h.hp
  done : o.state.headerDone = h.done
  url : o.url = h.url
  fields : intact → Fields h o

/-- The parser object once the piece of the open token up to `stop` is reported. -/
def settle (base size : Nat) (data : Bytes) (o : SrsHttpParser) (slot : Slot) (stop : Nat) :
    SrsHttpParser :=
  match slot with
  | some (k, m) => o.callback base size (.data k m (piece data m stop))
  | none => o

variable {intact : Prop} {base size lo : Nat} {data : Bytes} {h h' : Head} {o : SrsHttpParser}

theorem Collects.mono {intact' : Prop} (hc : Collects intact h o) (hi : intact' → intact) :
    Collects intact' h o :=
  ⟨hc.hp, hc.done, hc.url, fun hi' => hc.fields (hi hi')⟩

/-! ## Single callbacks -/

/-- The end of a field puts it among the fields that are complete. -/
theorem flushField_eq (hc : Fields h o) (hn : ∀ f ∈ h.fields, f.1 ≠ []) :
    o.flushField = { o with header := Head.closed h.fields, fieldName := [], fieldValue := [] } := by
  obtain ⟨hname, hvalue, hheader⟩ := hc
  cases hf : h.fields with
  | nil =>
    rw [hf] at hname hvalue hheader
    rw [flushField, if_pos (by simpa using hname)]
    cases o
    simp_all
  | cons f fs =>
    rw [hf] at hname hvalue hheader hn
    have hne : f.1 ≠ [] := hn f List.mem_cons_self
    rw [flushField, if_neg (by simpa [hname] using hne)]
    simp only [hname, hvalue, hheader, List.headD_cons, List.tail_cons, Head.closed,
      SrsHttpHeader.put]

/-- The end of a field touches nothing else. -/
theorem flushField_frame (o : SrsHttpParser) :
    o.flushField.hpHeader = o.hpHeader ∧ o.flushField.state = o.state ∧
      o.flushField.url = o.url ∧ o.flushField.pBodyStart = o.pBodyStart := by
  rw [flushField]
  split_ifs <;> exact ⟨rfl, rfl, rfl, rfl⟩

/-- A piece of a field name, with what it changes besides the fields. -/
theorem collects_onHeaderField (hc : Collects intact h o) {m : Nat} {bs : Bytes}
    (hh : h'.hp = h.hp ∧ h'.done = h.done ∧ h'.url = h.url)
    (hfields : intact → Fields h' (o.callback base size (.data .headerField m bs))) :
    Collects intact h' (o.callback base size (.data .headerField m bs)) := by
  obtain ⟨h1, h2, h3, -⟩ := flushField_frame o
  obtain ⟨g1, g2, g3⟩ := hh
  refine ⟨?_, ?_, ?_, hfields⟩
  · rw [g1]
    exact h1.trans hc.hp
  · rw [g2, ← hc.done]
    simp only [callback, onHeaderField, h2]
  · rw [g3]
    exact h3.trans hc.url

/-- A piece that is one byte longer. -/
theorem collects_byte {k : Mark} {m : Nat} {bs : Bytes} (ch : Byte)
    (hc : Collects intact h (o.callback base size (.data k m bs)))
    (hin : k = .headerField ∨ k = .headerValue → h.fields ≠ []) :
    Collects intact (h.byte (some k) ch) (o.callback base size (.data k m (bs ++ [ch]))) := by
  obtain ⟨hhp, hdone, hurl, hfields⟩ := hc
  cases k with
  | url =>
    refine ⟨hhp, hdone, ?_, fun hi => ⟨(hfields hi).1, (hfields hi).2, (hfields hi).3⟩⟩
    simp only [callback, onUrl] at hurl ⊢
    rw [← List.append_assoc, hurl, Head.byte_url]
  | headerField =>
    cases hf : h.fields with
    | nil => exact absurd hf (hin (.inl rfl))
    | cons f fs =>
      rw [Head.byte_name hf]
      refine ⟨hhp, hdone, hurl, fun hi => ?_⟩
      obtain ⟨hname, hvalue, hheader⟩ := hfields hi
      rw [hf] at hname hvalue hheader
      refine ⟨?_, hvalue, hheader⟩
      simp only [callback, onHeaderField] at hname ⊢
      rw [← List.append_assoc, hname]
      rfl
  | headerValue =>
    cases hf : h.fields with
    | nil => exact absurd hf (hin (.inr rfl))
    | cons f fs =>
      rw [Head.byte_value hf]
      -- An empty piece has no effect, and then this is the first byte of the piece.
      simp only [callback, onHeaderValue, List.append_eq_nil_iff, List.cons_ne_nil, and_false,
        if_false]
      simp only [callback, onHeaderValue] at hhp hdone hurl hfields
      split_ifs at hhp hdone hurl hfields with hbs
      all_goals
        refine ⟨hhp, hdone, hurl, fun hi => ?_⟩
        obtain ⟨hname, hvalue, hheader⟩ := hfields hi
        rw [hf] at hname hvalue hheader
        refine ⟨hname, ?_, hheader⟩
        simpa [hbs] using congrArg (· ++ [ch]) hvalue
  | body => exact ⟨hhp, hdone, hurl, hfields⟩

/-- The first byte of a token. -/
theorem collects_first (hc : Collects intact h o) (hn : ∀ f ∈ h.fields, f.1 ≠ []) {k : Mark}
    {m : Nat} (ch : Byte) (hk : k ≠ .body) (hin : k = .headerValue → h.fields ≠ []) :
    Collects intact ((h.act (.mark k)).byte (some k) ch)
      (o.callback base size (.data k m [ch])) := by
  cases k with
  | url =>
    refine ⟨hc.hp, hc.done, ?_, fun hi => ⟨(hc.fields hi).1, (hc.fields hi).2, (hc.fields hi).3⟩⟩
    simp [callback, onUrl, Head.act, Head.byte, hc.url]
  | headerField =>
    refine collects_onHeaderField hc ⟨rfl, rfl, rfl⟩ fun hi => ?_
    simp only [callback, onHeaderField, flushField_eq (hc.fields hi) hn]
    exact ⟨rfl, rfl, rfl⟩
  | headerValue =>
    have hc' : Collects intact h (o.callback base size (.data .headerValue m [])) := hc
    exact collects_byte ch hc' (fun _ => hin rfl)
  | body => exact absurd rfl hk

theorem collects_notify (base size : Nat) (hc : Collects intact h o) (n : Notify) :
    Collects intact (h.act (.notify n)) (o.callback base size (.notify n)) := by
  have hfields (hi : intact) := hc.fields hi
  cases n with
  | headersComplete hp =>
    exact ⟨rfl, rfl, hc.url, fun hi => ⟨(hfields hi).1, (hfields hi).2, (hfields hi).3⟩⟩
  | messageBegin | messageComplete =>
    exact ⟨hc.hp, rfl, hc.url, fun hi => ⟨(hfields hi).1, (hfields hi).2, (hfields hi).3⟩⟩

/-! ## The two pointers -/

/-- Does a piece of a token start with a byte that leads from one phase to another?
A token that is open at the start of a block is reported from there on. -/
def startsPiece (pos : Nat) (ph ph' : Phase) : Bool :=
  ph'.token.isSome && (ph.token.isNone || pos == 0)

/-- `p_header_tail` after some bytes of a block: the last piece of a token. -/
def tailAfter (base : Nat) : HttpParser → Nat → Option Nat → Bytes → Option Nat
  | _, _, tl, [] => tl
  | p, pos, tl, ch :: rest =>
      match p.stepByte ch with
      | .error _ => tl
      | .ok o =>
          let tl' := if startsPiece pos p.state.phase o.parser.state.phase then some (base + pos)
            else tl
          if o.exit then tl' else tailAfter base o.parser (pos + 1) tl' rest

/-- `p_body_start`: NULL before the header is complete, and then a place behind the
header, which ends at `lo`. -/
structure BodyStart (base size lo pos : Nat) (h : Head) (s : Option Nat) : Prop where
  before : h.hp = none → s = none
  complete : h.hp ≠ none → lo ≤ pos ∧ ∃ n, s = some (base + n) ∧ lo ≤ n ∧ n ≤ size

theorem BodyStart.congr {pos pos' : Nat} {s : Option Nat} (hb : BodyStart base size lo pos h s)
    (hhp : h'.hp = h.hp) (hpos : pos ≤ pos') : BodyStart base size lo pos' h' s :=
  ⟨fun hn => hb.before (by rwa [← hhp]),
    fun hn => ⟨Nat.le_trans (hb.complete (by rwa [← hhp])).1 hpos,
      (hb.complete (by rwa [← hhp])).2⟩⟩

/-- A piece of a token does not move the start of the body. -/
theorem callback_data_bodyStart {k : Mark} (hk : k ≠ .body) (m : Nat) (bs : Bytes) :
    (o.callback base size (.data k m bs)).pBodyStart = o.pBodyStart := by
  cases k with
  | url => rfl
  | headerField => exact (flushField_frame o).2.2.2
  | headerValue =>
    simp only [callback, onHeaderValue]
    split_ifs <;> rfl
  | body => exact absurd rfl hk

/-- A piece of a token that is not empty moves the other pointer. -/
theorem callback_data_tail {k : Mark} (hk : k ≠ .body) (m : Nat) {bs : Bytes} (hbs : bs ≠ []) :
    (o.callback base size (.data k m bs)).pHeaderTail = some (base + m) := by
  cases k with
  | url | headerField => rfl
  | headerValue => simp only [callback, onHeaderValue, if_neg hbs]
  | body => exact absurd rfl hk

/-! ## One byte of a block -/

/-- A mark that may be set in a phase. -/
def SlotFits (ph : Phase) (slot : Slot) : Prop :=
  slot.map Prod.fst = ph.token ∨ (ph = .content ∧ slot.map Prod.fst = some .body)

/-- The loop over a block at position `pos`: the mark that is set, the parser
object, and the header that has been read. -/
structure Feeding (intact : Prop) (base size lo : Nat) (data : Bytes) (tr : Bool)
    (ph : Phase) (h : Head) (tl : Option Nat) (o : SrsHttpParser) (slot : Slot) (pos : Nat) :
    Prop where
  slotFits : SlotFits ph slot
  started : ∀ k m, slot = some (k, m) → m < pos ∨ (m = 0 ∧ pos = 0)
  inBody : ∀ m, slot = some (.body, m) → lo ≤ m
  collects : Collects intact h (settle base size data o slot pos)
  fits : Head.Fits tr ph h
  tail : (settle base size data o slot pos).pHeaderTail = tl
  bodyStart : BodyStart base size lo pos h (settle base size data o slot pos).pBodyStart

theorem piece_self (data : Bytes) (m : Nat) : piece data m m = [] := by
  simp [piece]

theorem piece_succ {pre rest : Bytes} {ch : Byte} {m : Nat} (hm : m ≤ pre.length)
    (hd : data = pre ++ ch :: rest) :
    piece data m (pre.length + 1) = piece data m pre.length ++ [ch] := by
  subst hd
  simp only [piece, List.take_append, List.take_of_length_le (Nat.le_refl _)]
  rw [List.take_of_length_le (by omega : pre.length ≤ pre.length + 1)]
  simp [List.drop_append_of_le_length hm]

theorem piece_ne_nil {pre rest : Bytes} {m : Nat} (hm : m < pre.length)
    (hd : data = pre ++ rest) : piece data m pre.length ≠ [] := by
  subst hd
  rw [piece, List.take_left]
  intro hc
  have := List.drop_eq_nil_iff.1 hc
  omega

theorem runActs_append (pos : Nat) (slot : Slot) (as bs : List Act) :
    runActs data pos slot (as ++ bs) =
      ((runActs data pos (runActs data pos slot as).1 bs).1,
        (runActs data pos slot as).2 ++ (runActs data pos (runActs data pos slot as).1 bs).2) := by
  induction as generalizing slot with
  | nil => simp [runActs]
  | cons a as ih => simp [runActs, ih]

/-- The report of an empty value has no effect. -/
theorem runActs_lineHead {ph : Phase} {acts : List Act} (hl : LineHead ph acts) (pos : Nat) :
    (runActs data pos none acts).1 = none ∧
      (runActs data pos none acts).2.foldl (callback base size) o = o := by
  cases hl with
  | fresh | field => exact ⟨rfl, rfl⟩
  | emptyValue => exact ⟨rfl, by simp [runActs, runAct, callback, onHeaderValue, piece_self]⟩

theorem runActs_lastLine {ph : Phase} {acts : List Act} (hl : LastLine ph acts) (pos : Nat) :
    (runActs data pos none acts).1 = none ∧
      (runActs data pos none acts).2.foldl (callback base size) o = o := by
  cases hl with
  | bare hl => exact runActs_lineHead hl pos
  | crlf => exact ⟨rfl, rfl⟩

theorem slotFits_none {ph : Phase} {slot : Slot} (hs : SlotFits ph slot) (ht : ph.token = none)
    (hph : ph ≠ .content) : slot = none := by
  rcases hs with hs | hs
  · rw [ht] at hs
    simpa using hs
  · exact absurd hs.1 hph

theorem slotFits_some {ph : Phase} {slot : Slot} {k : Mark} (hs : SlotFits ph slot)
    (ht : ph.token = some k) : k ≠ .body ∧ ∃ m, slot = some (k, m) := by
  have hk : k ≠ .body := by
    rintro rfl
    revert ht
    cases ph <;> simp [Phase.token]
  rcases hs with hs | ⟨rfl, -⟩
  · rw [ht] at hs
    obtain ⟨⟨k', m⟩, hslot, rfl⟩ := Option.map_eq_some_iff.1 hs
    exact ⟨hk, m, hslot⟩
  · simp [Phase.token] at ht

namespace Feeding

variable {tr tr' : Bool} {ph ph' : Phase} {tl : Option Nat} {slot : Slot} {pre rest : Bytes}
  {ch : Byte} {acts : List Act}

/-- Between tokens the parser object holds the header as it is. -/
theorem settled {pos : Nat} (hf : Feeding intact base size lo data tr ph h tl o slot pos)
    (ht : ph.token = none) (hph : ph ≠ .content) :
    slot = none ∧ Collects intact h o ∧ o.pHeaderTail = tl ∧
      BodyStart base size lo pos h o.pBodyStart := by
  have hs := slotFits_none hf.slotFits ht hph
  subst hs
  exact ⟨rfl, hf.collects, hf.tail, hf.bodyStart⟩

/-- With no mark set. -/
theorem unmarked {pos : Nat} (ht : ph'.token = none) (hc : Collects intact h o)
    (hfits : Head.Fits tr' ph' h) (htl : o.pHeaderTail = tl)
    (hb : BodyStart base size lo pos h o.pBodyStart) :
    Feeding intact base size lo data tr' ph' h tl o none pos :=
  ⟨.inl ht.symm, by simp, by simp, hc, hfits, htl, hb⟩

/-- A byte outside of every token, with no action. -/
theorem quiet (hf : Feeding intact base size lo data tr ph h tl o slot pre.length)
    (ht : ph.token = none) (hph : ph ≠ .content) (ht' : ph'.token = none)
    (hfits : Head.Fits tr' ph' h) :
    Feeding intact base size lo data tr' ph' h tl o slot (pre.length + 1) := by
  obtain ⟨rfl, hc, htl, hb⟩ := hf.settled ht hph
  exact unmarked ht' hc hfits htl (hb.congr rfl (Nat.le_succ _))

/-- A byte of a token that is open. -/
theorem more (hf : Feeding intact base size lo data tr ph h tl o slot pre.length) {k : Mark}
    (ht : ph.token = some k) (hk : k = .headerField ∨ k = .headerValue → h.fields ≠ [])
    (hd : data = pre ++ ch :: rest) (hfits : Head.Fits tr ph (h.byte (some k) ch)) :
    Feeding intact base size lo data tr ph (h.byte (some k) ch)
      (if startsPiece pre.length ph ph then some (base + pre.length) else tl) o slot
      (pre.length + 1) := by
  obtain ⟨hkb, m, rfl⟩ := slotFits_some hf.slotFits ht
  have hm := hf.started k m rfl
  have hpiece := piece_succ (m := m) (by omega) hd
  refine ⟨hf.slotFits, ?_, hf.inBody, ?_, hfits, ?_, ?_⟩
  · intro k' m' he
    cases he
    omega
  · simp only [settle, hpiece]
    exact collects_byte ch hf.collects hk
  · simp only [settle, hpiece, callback_data_tail hkb m (List.append_ne_nil_of_right_ne_nil _
      (List.cons_ne_nil ch []))]
    rcases hm with hm | ⟨rfl, h0⟩
    · -- The piece is not empty, so the pointer is there already.
      have hne := piece_ne_nil hm hd
      have := hf.tail
      simp only [settle, callback_data_tail hkb m hne] at this
      have hpos : (pre.length == 0) = false := by
        rw [beq_eq_false_iff_ne]
        omega
      rw [startsPiece, ht, hpos, ← this]
      rfl
    · rw [startsPiece, ht, h0]
      rfl
  · have hb := hf.bodyStart
    simp only [settle, callback_data_bodyStart hkb] at hb ⊢
    exact hb.congr (Head.byte_hp _ _ _) (Nat.le_succ _)

/-- The first byte of a token. -/
theorem opened (hc : Collects intact h o) (hb : BodyStart base size lo pre.length h o.pBodyStart)
    (hn : ∀ f ∈ h.fields, f.1 ≠ []) {k : Mark} (hkb : k ≠ .body) (ht : ph.token = none)
    (ht' : ph'.token = some k) (hk : k = .headerValue → h.fields ≠ [])
    (hd : data = pre ++ ch :: rest)
    (hfits : Head.Fits tr' ph' ((h.act (.mark k)).byte (some k) ch)) :
    Feeding intact base size lo data tr' ph' ((h.act (.mark k)).byte (some k) ch)
      (if startsPiece pre.length ph ph' then some (base + pre.length) else tl) o
      (some (k, pre.length)) (pre.length + 1) := by
  have hpiece : piece data pre.length (pre.length + 1) = [ch] := by
    rw [piece_succ (Nat.le_refl _) hd, piece_self, List.nil_append]
  refine ⟨.inl ht'.symm, ?_, ?_, ?_, hfits, ?_, ?_⟩
  · intro k' m' he
    cases he
    omega
  · intro m' he
    cases he
    exact absurd rfl hkb
  · simp only [settle, hpiece]
    exact collects_first hc hn ch hkb hk
  · simp only [settle, hpiece, callback_data_tail hkb _ (List.cons_ne_nil ch [])]
    rw [startsPiece, ht, ht']
    rfl
  · simp only [settle, callback_data_bodyStart hkb]
    refine hb.congr ?_ (Nat.le_succ _)
    rw [Head.byte_hp]
    cases k <;> rfl

/-- The byte behind a token. -/
theorem closed (hf : Feeding intact base size lo data tr ph h tl o slot pre.length) {k : Mark}
    (ht : ph.token = some k) (ht' : ph'.token = none) (hfits : Head.Fits tr' ph' h) :
    Feeding intact base size lo data tr' ph' h tl
      ((runActs data pre.length slot [.data k 0]).2.foldl (callback base size) o)
      (runActs data pre.length slot [.data k 0]).1 (pre.length + 1) := by
  obtain ⟨-, m, rfl⟩ := slotFits_some hf.slotFits ht
  simp only [runActs, runAct, if_true, Nat.add_zero, List.append_nil, List.foldl_cons,
    List.foldl_nil]
  exact unmarked ht' hf.collects hfits hf.tail (hf.bodyStart.congr rfl (Nat.le_succ _))

/-- The mark in the content is that of a piece of the body, or there is none. -/
theorem content_cases (hf : Feeding intact base size lo data tr .content h tl o slot pre.length) :
    slot = none ∨ ∃ m, slot = some (.body, m) := by
  rcases hf.slotFits with hs | ⟨-, hs⟩
  · exact .inl (by simpa [Phase.token] using hs)
  · obtain ⟨⟨k, m⟩, rfl, hk⟩ := Option.map_eq_some_iff.1 hs
    exact .inr ⟨m, by rw [← hk]⟩

/-- A piece of the body that starts behind the header. -/
theorem bodyPiece (hf : Feeding intact base size lo data tr .content h tl o slot pre.length)
    {m : Nat} (hm : lo ≤ m) (hm' : m ≤ size) (bs : Bytes) :
    Collects intact { h with done := true } (o.callback base size (.data .body m bs)) ∧
      (o.callback base size (.data .body m bs)).pHeaderTail = tl ∧
      BodyStart base size lo (pre.length + 1) { h with done := true }
        (o.callback base size (.data .body m bs)).pBodyStart := by
  have hhp := hf.fits.completed (.inr (.inr rfl))
  have hlo := (hf.bodyStart.complete hhp).1
  have hb : BodyStart base size lo (pre.length + 1) { h with done := true } (some (base + m)) :=
    ⟨fun hn => absurd hn hhp, fun _ => ⟨Nat.le_succ_of_le hlo, m, rfl, hm, hm'⟩⟩
  have hc := hf.collects
  have htl := hf.tail
  rcases hf.content_cases with rfl | ⟨m', rfl⟩ <;>
    exact ⟨⟨hc.hp, rfl, hc.url, fun hi => ⟨(hc.fields hi).1, (hc.fields hi).2, (hc.fields hi).3⟩⟩,
      htl, hb⟩

/-- **One byte of a block.**  Whatever a byte makes the callbacks do, they end up
with the header that has been read, and the pointers with the places to remember. -/
theorem step {exit : Bool} (hf : Feeding intact base size lo data tr ph h tl o slot pre.length)
    (hm : Moves tr ph ch acts exit tr' ph') (hd : data = pre ++ ch :: rest)
    (hsize : size = data.length)
    (hlo : (h.step acts ph' ch).hp ≠ none → lo ≤ pre.length + 1) :
    Feeding intact base size lo data tr' ph' (h.step acts ph' ch)
      (if startsPiece pre.length ph ph' then some (base + pre.length) else tl)
      ((runActs data pre.length slot acts).2.foldl (callback base size) o)
      (runActs data pre.length slot acts).1 (pre.length + 1) := by
  have hfits := hf.fits.step hm
  have hlen : pre.length < size := by
    rw [hsize, hd, List.length_append, List.length_cons]
    omega
  cases hm with
  | passing => exact absurd rfl hf.fits.resting
  | skip | first | firstCr | firstLf | firstEol | gap | gapCr | gapLf | fieldEol | foldGap
  | lastChunk => exact hf.quiet rfl (by decide) rfl hfits
  | framing hph => rcases hph with rfl | rfl <;> exact hf.quiet rfl (by decide) rfl hfits
  | url => exact hf.more rfl (by simp) hd hfits
  | name | value => exact hf.more rfl (fun _ => hf.fits.inside rfl) hd hfits
  | urlSpace | urlCr | urlLf | colon | valueCr | valueLf => exact hf.closed rfl rfl hfits
  | urlOpen =>
    obtain ⟨rfl, hc, -, hb⟩ := hf.settled rfl (by decide)
    exact opened hc hb hf.fits.named (k := .url) (by decide) rfl rfl (by simp) hd hfits
  | valueOpen | foldValue =>
    obtain ⟨rfl, hc, -, hb⟩ := hf.settled rfl (by decide)
    exact opened hc hb hf.fits.named (k := .headerValue) (by decide) rfl rfl
      (fun _ => hf.fits.inside rfl) hd hfits
  | nameOpen hl =>
    obtain ⟨htok, hph⟩ := hl.between
    obtain ⟨rfl, hc, -, hb⟩ := hf.settled htok hph
    obtain ⟨h1, h2⟩ := runActs_lineHead (o := o) hl
      pre.length
    rw [Head.step, List.foldl_append, Head.foldl_act_lineHead hl] at hfits ⊢
    rw [runActs_append, h1, List.foldl_append, h2]
    exact opened hc hb hf.fits.named (k := .headerField) (by decide) htok rfl (by simp) hd hfits
  | lastCr hl =>
    obtain ⟨rfl, hc, htl, hb⟩ := hf.settled hl.between.1 hl.between.2
    obtain ⟨h1, h2⟩ := runActs_lineHead (o := o) hl
      pre.length
    rw [Head.step, Head.foldl_act_lineHead hl] at hfits ⊢
    rw [h1, h2]
    exact unmarked rfl hc hfits htl (hb.congr rfl (Nat.le_succ _))
  | «begin» =>
    obtain ⟨rfl, hc, htl, hb⟩ := hf.settled rfl (by decide)
    exact unmarked rfl (collects_notify base size hc .messageBegin) hfits htl
      (hb.congr rfl (Nat.le_succ _))
  | @header _ _ _ _ hp _ hl he =>
    obtain ⟨rfl, hc, htl, hb⟩ := hf.settled hl.between.1 hl.between.2
    obtain ⟨h1, h2⟩ := runActs_lastLine (o := o) hl
      pre.length
    rw [Head.step, List.foldl_append, Head.foldl_act_lastLine hl] at hfits hlo ⊢
    rw [runActs_append, h1, List.foldl_append, h2]
    have hc' := collects_notify base size hc (.headersComplete hp)
    have hlo' : lo ≤ pre.length + 1 := by
      refine hlo ?_
      rw [Head.byte_hp, List.foldl_cons]
      cases he <;> simp [Head.act]
    have hb' : ∀ h' : Head, h'.hp ≠ none →
        BodyStart base size lo (pre.length + 1) h' (some (base + size)) :=
      fun h' hn => ⟨fun hc => absurd hc hn, fun _ => ⟨hlo', size, rfl, by omega, Nat.le_refl _⟩⟩
    cases he with
    | body _ hph =>
      rcases hph with rfl | rfl <;>
        exact unmarked rfl hc' hfits htl (hb' _ (by simp [Head.act, Head.byte, Phase.token]))
    | message =>
      exact unmarked rfl (collects_notify base size hc' .messageComplete) hfits htl
        (hb' _ (by simp [Head.act, Head.byte, Phase.token]))
  | trailer hl =>
    obtain ⟨rfl, hc, htl, hb⟩ := hf.settled hl.between.1 hl.between.2
    obtain ⟨h1, h2⟩ := runActs_lastLine (o := o) hl
      pre.length
    rw [Head.step, List.foldl_append, Head.foldl_act_lastLine hl] at hfits ⊢
    rw [runActs_append, h1, List.foldl_append, h2]
    exact unmarked (by cases hl <;> rfl) (collects_notify base size hc .messageComplete) hfits htl
      (hb.congr rfl (Nat.le_succ _))
  | content =>
    have hlo' := (hf.bodyStart.complete (hf.fits.completed (.inr (.inr rfl)))).1
    rcases hf.content_cases with rfl | ⟨m, rfl⟩
    · obtain ⟨hc, htl, hb⟩ := hf.bodyPiece hlo' (by omega) (piece data pre.length (pre.length + 1))
      refine ⟨.inr ⟨rfl, rfl⟩, ?_, ?_, hc, hfits, htl, hb⟩
      · intro k' m' he
        cases he
        exact .inl (Nat.lt_succ_self _)
      · intro m' he
        cases he
        exact hlo'
    · have hm := hf.started .body m rfl
      obtain ⟨hc, htl, hb⟩ := hf.bodyPiece (hf.inBody m rfl) (by omega)
        (piece data m (pre.length + 1))
      refine ⟨.inr ⟨rfl, rfl⟩, ?_, hf.inBody, hc, hfits, htl, hb⟩
      intro k' m' he
      cases he
      omega
  | contentEnd =>
    have hb := hf.bodyStart.congr rfl (Nat.le_succ pre.length)
    rcases hf.content_cases with rfl | ⟨m, rfl⟩ <;>
      exact unmarked rfl hf.collects hfits hf.tail hb
  | contentMessage =>
    have hlo' := (hf.bodyStart.complete (hf.fits.completed (.inr (.inr rfl)))).1
    rcases hf.content_cases with rfl | ⟨m, rfl⟩
    · obtain ⟨hc, htl, hb⟩ := hf.bodyPiece hlo' (by omega) (piece data pre.length (pre.length + 1))
      exact unmarked rfl (collects_notify base size hc .messageComplete) hfits htl hb
    · have hm := hf.started .body m rfl
      obtain ⟨hc, htl, hb⟩ := hf.bodyPiece (hf.inBody m rfl) (by omega)
        (piece data m (pre.length + 1))
      exact unmarked rfl (collects_notify base size hc .messageComplete) hfits htl hb

end Feeding

/-! ## A block -/

/-- A block of input and the reading of its bytes agree: both fail in the same way,
or the parser object collects the header that is read. -/
inductive Agrees (intact : Prop) (base size lo start : Nat) (tl : Option Nat)
    (o : SrsHttpParser) : Except HttpErrno Executed → Except HttpErrno Head.Reading → Prop
  | error (e : HttpErrno) : Agrees intact base size lo start tl o (.error e) (.error e)
  | ok {x : Executed} {r : Head.Reading} : x.parser = r.parser →
      x.consumed = start + r.consumed →
      Collects intact r.head (x.callbacks.foldl (callback base size) o) →
      (x.callbacks.foldl (callback base size) o).pHeaderTail = tl →
      BodyStart base size lo (start + r.consumed) r.head
        (x.callbacks.foldl (callback base size) o).pBodyStart →
      Agrees intact base size lo start tl o (.ok x) (.ok r)

theorem flush_eq_settle (base size : Nat) (data : Bytes) (o : SrsHttpParser) (slot : Slot) :
    (flush data slot).foldl (callback base size) o = settle base size data o slot data.length := by
  rcases slot with _ | ⟨k, m⟩
  · rfl
  · simp [flush, settle, piece]

/-- The loop over a block reads its bytes one by one. -/
theorem executeFrom_agrees {p : HttpParser} {tl : Option Nat} {slot : Slot} {pre rest : Bytes}
    (hf : Feeding intact base size lo data p.flags.trailing p.state.phase h tl o slot pre.length)
    (hd : data = pre ++ rest) (hsize : size = data.length)
    (hlo : ∀ as bs r, rest = as ++ bs → Head.read p h as = .ok r → r.head.hp ≠ none →
      lo ≤ pre.length + as.length) :
    Agrees intact base size lo pre.length (tailAfter base p pre.length tl rest) o
      (executeFrom data p slot pre.length rest) (Head.read p h rest) := by
  induction rest generalizing p tl slot pre h o with
  | nil =>
    rw [List.append_nil] at hd
    subst hd
    refine .ok rfl rfl ?_ ?_ ?_ <;> rw [flush_eq_settle]
    · exact hf.collects
    · exact hf.tail
    · exact hf.bodyStart
  | cons ch rest ih =>
    rw [executeFrom, Head.read, tailAfter]
    cases hs : p.stepByte ch with
    | error e => exact .error e
    | ok out =>
      have hm := stepByte_moves hs
      have hf' := hf.step hm hd hsize fun hn => hlo [ch] rest _ rfl (Head.read_singleton hs h) hn
      simp only
      cases hexit : out.exit with
      | true =>
        rw [hexit] at hm
        have hstart := hm.exit_start hf.fits.resting
        obtain ⟨-, hc, htl, hb⟩ := hf'.settled (by rw [hstart]; rfl) (by rw [hstart]; decide)
        exact .ok rfl rfl hc htl hb
      | false =>
        have hlen : pre.length + 1 = (pre ++ [ch]).length := by simp
        have hlo' : ∀ as bs r, rest = as ++ bs →
            Head.read out.parser (h.step out.acts out.parser.state.phase ch) as = .ok r →
            r.head.hp ≠ none → lo ≤ (pre ++ [ch]).length + as.length := by
          intro as bs r has hr hn
          have := hlo (ch :: as) bs (r.more 1) (by rw [has]; rfl)
            (Head.read_cons hs hexit hr) hn
          rw [← hlen]
          rw [List.length_cons] at this
          omega
        simp only [Bool.false_eq_true, if_false]
        rw [hlen] at hf' ⊢
        have := ih hf' (by rw [hd]; simp) hlo'
        revert this
        generalize executeFrom data out.parser _ _ rest = x
        generalize Head.read out.parser _ rest = r
        generalize tailAfter base out.parser _ _ rest = tl'
        rintro (e | ⟨h1, h2, h3, h4, h5⟩)
        · exact .error e
        · refine .ok h1 ?_ ?_ ?_ ?_
          · simp only [h2, List.length_append, List.length_singleton]
            omega
          · simpa [List.foldl_append] using h3
          · simpa [List.foldl_append] using h4
          · rw [hlen.symm, Nat.add_assoc, Nat.add_comm 1] at h5
            simpa [List.foldl_append] using h5

/-- `p_header_tail` at the start of a block: a url or a name that goes on is reported
from there on, with an empty piece if need be. -/
def tailAtStart (base : Nat) (ph : Phase) (tl : Option Nat) : Option Nat :=
  if ph = .url ∨ ph = .name then some base else tl

/-- The start of a block; the fields stay intact if it does not lie inside a field
name. -/
theorem feeding_start {p : HttpParser} (hc : Collects intact h o)
    (hfits : Head.Fits p.flags.trailing p.state.phase h) (hn : h.hp = none)
    (hs : o.pBodyStart = none) (hname : intact → p.state.phase ≠ .name) (data : Bytes) :
    Feeding intact base size lo data p.flags.trailing p.state.phase h
      (tailAtStart base p.state.phase o.pHeaderTail) o (initialSlot p.state) 0 := by
  have hslot : ∀ k m, initialSlot p.state = some (k, m) → p.state.phase.token = some k ∧ m = 0 := by
    intro k m hs
    obtain ⟨k', hk', hk⟩ := Option.map_eq_some_iff.1 hs
    cases hk
    rw [State.token_eq] at hk'
    exact ⟨hk', rfl⟩
  have hb : BodyStart base size lo 0 h none := ⟨fun _ => rfl, fun hc => absurd hn hc⟩
  refine ⟨?_, fun k m hs => .inr ⟨(hslot k m hs).2, rfl⟩, ?_, ?_, hfits, ?_, ?_⟩
  · left
    rw [initialSlot, Option.map_map, State.token_eq]
    cases p.state.phase.token <;> rfl
  · intro m hm
    have := (hslot _ _ hm).1
    revert this
    cases p.state.phase <;> simp [Phase.token]
  · rw [initialSlot, State.token_eq]
    cases hph : p.state.phase with
    | name =>
      show Collects intact h (o.callback base size (.data .headerField 0 (piece data 0 0)))
      exact collects_onHeaderField hc ⟨rfl, rfl, rfl⟩ fun hi => absurd hph (hname hi)
    | url =>
      exact ⟨hc.hp, hc.done, by simpa [settle, callback, onUrl, piece, Phase.token] using hc.url,
        fun hi => ⟨(hc.fields hi).1, (hc.fields hi).2, (hc.fields hi).3⟩⟩
    | value => simpa [settle, callback, onHeaderValue, piece, Phase.token] using hc
    | _ => exact hc
  · rw [initialSlot, State.token_eq, tailAtStart]
    cases p.state.phase <;>
      simp [settle, callback, onUrl, onHeaderField, onHeaderValue, piece, Phase.token]
  · rw [initialSlot, State.token_eq]
    cases hph : p.state.phase with
    | name | url | value =>
      simpa only [Phase.token, Option.map_some, settle,
        callback_data_bodyStart (show Mark.url ≠ .body by decide),
        callback_data_bodyStart (show Mark.headerField ≠ .body by decide),
        callback_data_bodyStart (show Mark.headerValue ≠ .body by decide), hs] using hb
    | _ =>
      rw [← hs] at hb
      exact hb

/-- **A block agrees with the reading of its bytes**, the fields if it does not
start inside a field name. -/
theorem execute_agrees {p : HttpParser} (hc : Collects intact h o)
    (hfits : Head.Fits p.flags.trailing p.state.phase h) (hn : h.hp = none)
    (hs : o.pBodyStart = none) (hname : intact → p.state.phase ≠ .name) (data : Bytes)
    (hlo : ∀ as bs r, data = as ++ bs → Head.read p h as = .ok r → r.head.hp ≠ none →
      lo ≤ as.length) :
    Agrees intact base data.length lo 0
      (tailAfter base p 0 (tailAtStart base p.state.phase o.pHeaderTail) data) o
      (p.execute data) (Head.read p h data) :=
  @executeFrom_agrees intact base data.length lo data h o p _ _ [] data
    (feeding_start hc hfits hn hs hname data) rfl rfl (by simpa using hlo)

end SrsHttpParser

end HttpProxy
