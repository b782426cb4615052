import HttpProxy.Message.Frozen
import HttpProxy.Message.ReadBack

/-!
# The header that a reader finds

`SrsHttpHeader::write` (`src/protocol/srs_protocol_http_stack.cpp`, lines 759-772) writes every value as it
is.  What is a header on the wire is for the one who reads it: the lines up to the first empty one.

* `Rfc.takeHeader` — the lines of a header, and the bytes behind it.
* `Rfc.fieldValue`, `Rfc.SaysLength` — what these lines say about the body.
* `found_iff` — when a header that says the length of the body is found so: no value makes a line that is
  empty, or says something else.
-/

namespace HttpProxy

/-! ## Lines -/

namespace Rfc

/-- A line without the carriage return that belongs to its end. -/
def stripCr (line : Bytes) : Bytes := if line.getLast? = some CR then line.dropLast else line

/-- The lines of a header, up to the first empty one, and the bytes behind it.  A line ends with a line
feed; a carriage return in front of that is a part of the end. -/
def takeHeader (line : Bytes) : Bytes → Option (List Bytes × Bytes)
  | [] => none
  | b :: bs =>
      if b = LF then
        if stripCr line = [] then some ([], bs)
        else (takeHeader [] bs).map fun r => (stripCr line :: r.1, r.2)
      else takeHeader (line ++ [b]) bs

/-- The first line of a text, and the others. -/
def cutLines : Bytes → Bytes × List Bytes
  | [] => ([], [])
  | b :: bs =>
      if b = LF then ([], (cutLines bs).1 :: (cutLines bs).2) else (b :: (cutLines bs).1, (cutLines bs).2)

/-- The lines with their ends. -/
def withEnds (ls : List Bytes) : Bytes := ls.flatMap (· ++ [LF])

variable {line rest text : Bytes} {ls : List Bytes}

theorem withEnds_cons (l : Bytes) (ls : List Bytes) : withEnds (l :: ls) = l ++ LF :: withEnds ls := by
  simp [withEnds]

theorem withEnds_append (ls ls' : List Bytes) : withEnds (ls ++ ls') = withEnds ls ++ withEnds ls' :=
  List.flatMap_append

theorem withEnds_cutLines (text : Bytes) : withEnds ((cutLines text).1 :: (cutLines text).2) = text ++ [LF] := by
  induction text with
  | nil => rfl
  | cons b bs ih =>
    rw [cutLines]
    split_ifs with hb
    · rw [withEnds_cons, ih, hb]
      rfl
    · rw [withEnds_cons] at ih ⊢
      rw [List.cons_append, ih, List.cons_append]

theorem notMem_cutLines (text : Bytes) : ∀ l ∈ (cutLines text).1 :: (cutLines text).2, LF ∉ l := by
  induction text with
  | nil => simp [cutLines]
  | cons b bs ih =>
    rw [cutLines]
    split_ifs with hb
    · intro l hl
      rcases List.mem_cons.1 hl with rfl | hl
      · exact List.not_mem_nil
      · exact ih l hl
    · intro l hl
      rcases List.mem_cons.1 hl with rfl | hl
      · exact fun hmem => (List.mem_cons.1 hmem).elim (fun h => hb h.symm) (ih _ List.mem_cons_self)
      · exact ih l (List.mem_cons_of_mem _ hl)

/-- Bytes without a line feed are the beginning of the first line. -/
theorem cutLines_append (h : LF ∉ line) (text : Bytes) :
    cutLines (line ++ text) = (line ++ (cutLines text).1, (cutLines text).2) := by
  induction line with
  | nil => rfl
  | cons b line ih =>
    rw [List.mem_cons, not_or] at h
    rw [List.cons_append, cutLines, if_neg fun hb => h.1 hb.symm, ih h.2]
    rfl

theorem cutLines_of_notMem (h : LF ∉ text) : cutLines text = (text, []) := by
  have := cutLines_append h []
  rwa [List.append_nil, cutLines, List.append_nil] at this

/-- A line is read to its end. -/
theorem takeHeader_line (cur : Bytes) (h : LF ∉ line) (rest : Bytes) :
    takeHeader cur (line ++ LF :: rest) = if stripCr (cur ++ line) = [] then some ([], rest)
      else (takeHeader [] rest).map fun r => (stripCr (cur ++ line) :: r.1, r.2) := by
  induction line generalizing cur with
  | nil => rw [List.nil_append, List.append_nil, takeHeader, if_pos rfl]
  | cons b line ih =>
    rw [List.mem_cons, not_or] at h
    rw [List.cons_append, takeHeader, if_neg fun hb => h.1 hb.symm, ih (cur ++ [b]) h.2, List.append_assoc]
    rfl

/-- Lines that are not empty belong to the header. -/
theorem takeHeader_withEnds (hls : ∀ l ∈ ls, LF ∉ l) (hne : ∀ l ∈ ls, stripCr l ≠ []) (rest : Bytes) :
    takeHeader [] (withEnds ls ++ rest) =
      (takeHeader [] rest).map fun r => (ls.map stripCr ++ r.1, r.2) := by
  induction ls with
  | nil =>
    show takeHeader [] rest = _
    cases takeHeader [] rest <;> rfl
  | cons l ls ih =>
    rw [withEnds_cons, List.append_assoc, List.cons_append, takeHeader_line [] (hls l List.mem_cons_self),
      List.nil_append, if_neg (hne l List.mem_cons_self),
      ih (fun l hl => hls l (List.mem_cons_of_mem _ hl)) fun l hl => hne l (List.mem_cons_of_mem _ hl)]
    cases takeHeader [] rest <;> rfl

/-- An empty line among them ends the header, and the lines behind it are left. -/
theorem takeHeader_ends (hls : ∀ l ∈ ls, LF ∉ l) (hempty : ∃ l ∈ ls, stripCr l = []) (rest : Bytes) :
    ∃ header text, takeHeader [] (withEnds ls ++ rest) = some (header, text ++ rest) := by
  induction ls with
  | nil => simp at hempty
  | cons l ls ih =>
    rw [withEnds_cons, List.append_assoc, List.cons_append, takeHeader_line [] (hls l List.mem_cons_self),
      List.nil_append]
    split_ifs with hl
    · exact ⟨[], withEnds ls, rfl⟩
    · obtain ⟨l', hl', hnil⟩ := hempty
      have hmem : l' ∈ ls := (List.mem_cons.1 hl').resolve_left fun h => hl (h ▸ hnil)
      obtain ⟨header, text, htake⟩ := ih (fun l hl => hls l (List.mem_cons_of_mem _ hl)) ⟨l', hmem, hnil⟩
      rw [htake]
      exact ⟨_, text, rfl⟩

theorem stripCr_append (line : Bytes) : stripCr (line ++ [CR]) = line := by
  simp [stripCr]

/-- What ends with another byte keeps it. -/
theorem stripCr_append_of_ne {b : Byte} (hb : b ≠ CR) (x text : Bytes) :
    stripCr (x ++ [b] ++ text) = x ++ [b] ++ stripCr text := by
  unfold stripCr
  rcases List.eq_nil_or_concat text with rfl | ⟨t, c, rfl⟩
  · simp [hb]
  · simp only [List.concat_eq_append, ← List.append_assoc, List.getLast?_concat, List.dropLast_concat]
    split_ifs <;> simp only [List.append_assoc]

/-! ## Fields -/

/-- Optional white space. -/
def isOws (b : Byte) : Bool := b == 32 || b == 9

/-- The value of the field in a line, if it has this name: what is behind the colon, without the white
space around it. -/
def fieldValue (name line : Bytes) : Option Bytes :=
  match line.dropWhile (· != 58) with
  | [] => none
  | _ :: v =>
      if SameName (line.takeWhile (· != 58)) name then some ((v.dropWhile isOws).rdropWhile isOws) else none

/-- The line does not say that the body is encoded, or that it has another length. -/
def Accords (n : Nat) (line : Bytes) : Prop :=
  (∀ v ∈ fieldValue (str "Content-Length") line,
      v ≠ [] ∧ (∀ b ∈ v, isDigitIn 10 b = true) ∧ digitsValue 10 v = n) ∧
    fieldValue (str "Transfer-Encoding") line = none

/-- The fields say that the body has `n` bytes. -/
def SaysLength (fields : List Bytes) (n : Nat) : Prop :=
  (∃ line ∈ fields, fieldValue (str "Content-Length") line ≠ none) ∧ ∀ line ∈ fields, Accords n line

theorem fieldValue_colon {key : Bytes} (hkey : (58 : Byte) ∉ key) (name v : Bytes) :
    fieldValue name (key ++ 58 :: v) =
      if SameName key name then some ((v.dropWhile isOws).rdropWhile isOws) else none := by
  have htake : (key ++ 58 :: v).takeWhile (· != 58) = key := by
    rw [List.takeWhile_append_of_pos (bne_of_notMem hkey), List.takeWhile_cons_of_neg (by simp),
      List.append_nil]
  have hdrop : (key ++ 58 :: v).dropWhile (· != 58) = 58 :: v := by
    rw [List.dropWhile_append_of_pos (bne_of_notMem hkey), List.dropWhile_cons_of_neg (by simp)]
  unfold fieldValue
  rw [htake, hdrop]

/-- White space around a number is no part of it. -/
theorem trim_digits {v : Bytes} (h : ∀ b ∈ v, isDigitIn 10 b = true) :
    ((32 :: v).dropWhile isOws).rdropWhile isOws = v := by
  have hows : ∀ b ∈ v, isOws b = false := fun b hb => by
    have hd := h b hb
    revert hd
    exact forall_byte (P := fun b => isDigitIn 10 b = true → isOws b = false) (by decide +kernel) b
  rw [List.dropWhile_cons_of_pos (by decide)]
  cases v with
  | nil => rfl
  | cons b v =>
    rw [List.dropWhile_cons_of_neg (by rw [hows b List.mem_cons_self]; decide), List.rdropWhile_eq_self_iff]
    intro hne
    rw [hows _ (List.getLast_mem hne)]
    decide

end Rfc

namespace SrsHttpHeader

open Rfc SrsHttpResponseWriter SrsHttpParser Head

variable {h : SrsHttpHeader} {n : Nat} {status : Int} {body : Bytes}

/-! ## Header blocks -/

/-- The lines that a value makes behind its own one, as they are found. -/
def linesBehind (value : Bytes) : List Bytes := (cutLines (value ++ [CR])).2.map stripCr

/-- The lines of a field with their carriage returns. -/
def rawLines (f : Bytes × Bytes) : List Bytes :=
  (f.1 ++ str ": " ++ (cutLines (f.2 ++ [CR])).1) :: (cutLines (f.2 ++ [CR])).2

/-- A name is one that `set` is called with by the program: no colon, and no line feed. -/
def NameLine (key : Bytes) : Prop := LF ∉ key ∧ (58 : Byte) ∉ key

instance (key : Bytes) : Decidable (NameLine key) := inferInstanceAs (Decidable (_ ∧ _))

theorem notMem_name {key : Bytes} (hkey : NameLine key) : LF ∉ key ++ str ": " := by
  simp only [List.mem_append, not_or]
  exact ⟨hkey.1, by decide⟩

theorem withEnds_rawLines {f : Bytes × Bytes} : withEnds (rawLines f) = fieldLine f.1 f.2 := by
  have hcut := withEnds_cutLines (f.2 ++ [CR])
  rw [withEnds_cons] at hcut
  rw [rawLines, withEnds_cons, List.append_assoc, hcut, fieldLine]
  simp [crlf]

theorem notMem_rawLines {f : Bytes × Bytes} (hf : NameLine f.1) : ∀ l ∈ rawLines f, LF ∉ l := by
  have hcut := notMem_cutLines (f.2 ++ [CR])
  intro l hl
  rcases List.mem_cons.1 hl with rfl | hl
  · rw [List.mem_append, not_or]
    exact ⟨notMem_name hf, hcut _ List.mem_cons_self⟩
  · exact hcut l (List.mem_cons_of_mem _ hl)

/-- The line of a field itself. -/
theorem stripCr_rawLine (key x : Bytes) : stripCr (key ++ str ": " ++ x) = key ++ 58 :: 32 :: stripCr x := by
  have := stripCr_append_of_ne (b := 32) (by decide) (key ++ [58]) x
  have hsep : str ": " = [58, 32] := rfl
  simpa [hsep] using this

theorem map_stripCr_rawLines (f : Bytes × Bytes) :
    (rawLines f).map stripCr = (f.1 ++ 58 :: 32 :: stripCr (cutLines (f.2 ++ [CR])).1) :: linesBehind f.2 := by
  rw [rawLines, List.map_cons, stripCr_rawLine, linesBehind]

/-- A value without a line feed makes no other line. -/
theorem cutLines_value {value : Bytes} (h : LF ∉ value) : cutLines (value ++ [CR]) = (value ++ [CR], []) :=
  cutLines_of_notMem (by simpa using ⟨h, by decide⟩)

theorem linesBehind_of_notMem {value : Bytes} (h : LF ∉ value) : linesBehind value = [] := by
  rw [linesBehind, cutLines_value h]
  rfl

/-- The lines of a block in front of the empty one. -/
def blockLines (status : Int) (h : SrsHttpHeader) : List Bytes :=
  (codeLine status ++ [CR]) :: h.outFields.flatMap rawLines

theorem headerBlock_withEnds : headerBlock status h = withEnds (blockLines status h) ++ crlf := by
  have hfields : withEnds (h.outFields.flatMap rawLines) = linesOf h.outFields := by
    rw [linesOf]
    induction h.outFields with
    | nil => rfl
    | cons f L ih => rw [List.flatMap_cons, withEnds_append, withEnds_rawLines, ih, List.flatMap_cons]
  rw [headerBlock_eq, blockLines, withEnds_cons, hfields]
  simp [crlf]

theorem notMem_blockLines (status : Int) (hkeys : ∀ f ∈ h.outFields, NameLine f.1) :
    ∀ l ∈ blockLines status h, LF ∉ l := by
  intro l hl
  rcases List.mem_cons.1 hl with rfl | hl
  · rw [codeLine]
    simp only [List.mem_append, not_or]
    refine ⟨⟨⟨⟨by decide, fun hmem => ?_⟩, by decide⟩, fun hmem => (statusText_line status _ hmem).2 rfl⟩,
      by decide⟩
    rw [srsInt2str] at hmem
    split_ifs at hmem
    · exact absurd ((List.mem_cons.1 hmem).resolve_left (by decide))
        fun hmem => absurd (decimal_isDigitIn _ _ hmem) (by decide)
    · exact absurd (decimal_isDigitIn _ _ hmem) (by decide)
  · obtain ⟨f, hf, hl⟩ := List.mem_flatMap.1 hl
    exact notMem_rawLines (hkeys f hf) l hl

/-- The block is found with its own lines if no value makes an empty one. -/
theorem takeHeader_block (hkeys : ∀ f ∈ h.outFields, NameLine f.1)
    (hne : ∀ f ∈ h.outFields, [] ∉ linesBehind f.2) (body : Bytes) :
    takeHeader [] (headerBlock status h ++ body) =
      some (codeLine status :: h.outFields.flatMap (fun f => (rawLines f).map stripCr), body) := by
  rw [headerBlock_withEnds, List.append_assoc, takeHeader_withEnds (notMem_blockLines status hkeys)]
  · show (takeHeader [] (crlf ++ body)).map _ = _
    have hend : takeHeader [] (crlf ++ body) = some ([], body) := by
      have hline := takeHeader_line [] (show LF ∉ [CR] by decide) body
      rwa [if_pos (by decide)] at hline
    rw [hend]
    simp only [Option.map_some, blockLines, List.map_cons, List.map_flatMap, stripCr_append, List.append_nil]
  · intro l hl
    rcases List.mem_cons.1 hl with rfl | hl
    · have hfront : str "HTTP/1.1 " ≠ [] := by decide
      rw [stripCr_append, codeLine]
      simp [hfront]
    · obtain ⟨f, hf, hl⟩ := List.mem_flatMap.1 hl
      have hmem := List.mem_map_of_mem (f := stripCr) hl
      rw [map_stripCr_rawLines] at hmem
      rcases List.mem_cons.1 hmem with heq | hmem
      · rw [heq]
        simp
      · exact fun hnil => hne f hf (hnil ▸ hmem)

/-- Otherwise the header ends before, and there are more bytes behind it. -/
theorem takeHeader_block_short (status : Int) (hkeys : ∀ f ∈ h.outFields, NameLine f.1) {f : Bytes × Bytes}
    (hf : f ∈ h.outFields) (hempty : [] ∈ linesBehind f.2) (body : Bytes) :
    ∃ header text, takeHeader [] (headerBlock status h ++ body) = some (header, text ++ crlf ++ body) := by
  obtain ⟨l, hl, hnil⟩ := List.mem_map.1 hempty
  obtain ⟨header, text, htake⟩ := takeHeader_ends (notMem_blockLines status hkeys)
    ⟨l, List.mem_cons_of_mem _ (List.mem_flatMap.2 ⟨f, hf, List.mem_cons_of_mem _ hl⟩), hnil⟩ (crlf ++ body)
  exact ⟨header, text, by rw [headerBlock_withEnds, List.append_assoc, htake, List.append_assoc]⟩

/-- A field of a header that says the length is in its own line. -/
theorem accords_ownLine (hsaid : h.SaysLength n) {f : Bytes × Bytes} (hf : f ∈ h.outFields)
    (hkey : NameLine f.1) :
    Accords n (f.1 ++ 58 :: 32 :: stripCr (cutLines (f.2 ++ [CR])).1) := by
  have hentry : ∀ name ∈ [str "Content-Length", str "Transfer-Encoding"], SameName f.1 name →
      h.IsField name f.1 f.2 := by
    intro name hname hsame
    rcases mem_outFields_iff.1 hf with hmem | ⟨v, -, rfl⟩
    · exact ⟨hmem, hsame⟩
    · refine absurd hsame ?_
      have hnames : ∀ name ∈ [str "Content-Length", str "Transfer-Encoding"],
          ¬ SameName (str "Set-Cookie") name := by decide
      exact hnames name hname
  constructor
  · intro v hv
    rw [fieldValue_colon hkey.2] at hv
    split_ifs at hv with hsame
    · obtain ⟨hne, hdigits, hvalue⟩ := hsaid.length _ _ (hentry _ (by simp) hsame)
      have hlf : LF ∉ f.2 := fun hmem => absurd (hdigits LF hmem) (by decide)
      rw [cutLines_value hlf, stripCr_append, trim_digits hdigits, Option.mem_some_iff] at hv
      exact hv ▸ ⟨hne, hdigits, hvalue⟩
    · cases hv
  · rw [fieldValue_colon hkey.2, if_neg fun hsame => hsaid.coding _ _ (hentry _ (by simp) hsame)]

/-- **What a reader finds.**  A header that says the length of the body, sent in front of it, is found as
it was sent, with a length that all its fields agree on, exactly if no value makes a line that is empty or
disagrees. -/
theorem found_iff (status : Int) (body : Bytes) (hkeys : ∀ f ∈ h.outFields, NameLine f.1)
    (hsaid : h.SaysLength n) :
    (∃ fields, takeHeader [] (headerBlock status h ++ body) = some (codeLine status :: fields, body) ∧
        Rfc.SaysLength fields n) ↔
      ∀ f ∈ h.outFields, ∀ l ∈ linesBehind f.2, l ≠ [] ∧ Accords n l := by
  constructor
  · rintro ⟨fields, htake, -, haccords⟩
    have hne : ∀ f ∈ h.outFields, [] ∉ linesBehind f.2 := by
      intro f hf hempty
      obtain ⟨header, text, hshort⟩ := takeHeader_block_short status hkeys hf hempty body
      have hbody := congrArg List.length (Prod.mk.inj (Option.some.inj (htake.symm.trans hshort))).2
      simp only [List.length_append, crlf_length] at hbody
      omega
    rw [takeHeader_block hkeys hne] at htake
    obtain rfl := (List.cons.inj (Prod.mk.inj (Option.some.inj htake)).1).2
    intro f hf l hl
    refine ⟨fun hnil => hne f hf (hnil ▸ hl), haccords l (List.mem_flatMap.2 ⟨f, hf, ?_⟩)⟩
    rw [map_stripCr_rawLines]
    exact List.mem_cons_of_mem _ hl
  · intro hlines
    refine ⟨_, takeHeader_block hkeys (fun f hf hempty => (hlines f hf [] hempty).1 rfl) body, ?_, ?_⟩
    · obtain ⟨key, v, hfield⟩ := hsaid.present
      have hmem : (key, v) ∈ h.outFields := mem_outFields_iff.2 (.inl hfield.1)
      have hown : key ++ 58 :: 32 :: stripCr (cutLines (v ++ [CR])).1 ∈ (rawLines (key, v)).map stripCr := by
        rw [map_stripCr_rawLines]
        exact List.mem_cons_self
      refine ⟨_, List.mem_flatMap.2 ⟨(key, v), hmem, hown⟩, ?_⟩
      rw [fieldValue_colon (hkeys _ hmem).2, if_pos hfield.2]
      exact Option.some_ne_none _
    · intro line hline
      obtain ⟨f, hf, hline⟩ := List.mem_flatMap.1 hline
      rw [map_stripCr_rawLines] at hline
      rcases List.mem_cons.1 hline with rfl | hline
      · exact accords_ownLine hsaid hf (hkeys f hf)
      · exact (hlines f hf line hline).2

end SrsHttpHeader

end HttpProxy
