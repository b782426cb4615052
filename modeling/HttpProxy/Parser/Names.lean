import HttpProxy.Parser.Phase
import Mathlib.Data.List.DropRight

/-!
# What the http-parser makes of names and values

The parser compares the name of a field, and the value of a `Transfer-Encoding`
field, with constants while it reads them letter by letter.  Here these matchers are
functions of the letters, and it is said which texts they find.

* `nameState` — the header state behind a name; `nameState_transferEncoding`,
  `nameState_contentLength` say for which names it is the one of the framing fields.
* `codingState` — the header state inside the value of a `Transfer-Encoding` field;
  `codingState_chunked` says for which values it is `chunked`.
* `LengthValue` — the values of a `Content-Length` field.
-/

namespace HttpProxy

namespace HttpParser

/-! ## Matching a word -/

section Match

variable {word : Bytes} {found matching differs : HeaderState}

/-- The matcher has read the text `x` of the word: all of it, or its front. -/
structure Matches (word : Bytes) (found matching : HeaderState) (s : HeaderState × Nat) (x : Bytes) :
    Prop where
  front : s.1 = matching → x = word.take (s.2 + 1) ∧ s.2 + 1 < word.length
  all : s.1 = found → x = word

theorem take_add_two {l : Bytes} {i : Nat} {c : Byte} (hc : c ≠ 0) (h : l.getD (i + 1) 0 = c) :
    i + 1 < l.length ∧ l.take (i + 2) = l.take (i + 1) ++ [c] := by
  rw [List.getD_eq_getElem?_getD] at h
  cases hx : l[i + 1]? with
  | none =>
    rw [hx] at h
    exact absurd h.symm hc
  | some x =>
    rw [hx] at h
    obtain ⟨hlt, -⟩ := List.getElem?_eq_some_iff.1 hx
    refine ⟨hlt, ?_⟩
    rw [List.take_add_one, hx]
    simpa using h

/-- One letter: the matcher goes on exactly when it is the next letter of the word. -/
theorem matchStep_cases {i : Nat} {c : Byte} (hc : c ≠ 0) :
    (matchStep word found matching differs i c = (differs, i + 1) ∧
        ¬ (i + 1 < word.length ∧ word.take (i + 2) = word.take (i + 1) ++ [c])) ∨
      (i + 1 < word.length ∧ word.take (i + 2) = word.take (i + 1) ++ [c] ∧
        matchStep word found matching differs i c =
          (if i + 2 = word.length then found else matching, i + 1)) := by
  unfold matchStep
  by_cases h : word.length < i + 1 ∨ word.getD (i + 1) 0 ≠ c
  · refine .inl ⟨if_pos h, ?_⟩
    rintro ⟨hlt, htake⟩
    rcases h with h | h
    · omega
    · rw [List.take_add_one, List.append_cancel_left_eq, List.getElem?_eq_getElem hlt] at htake
      rw [List.getD_eq_getElem?_getD, List.getElem?_eq_getElem hlt] at h
      exact h (List.singleton_inj.1 htake)
  · rw [if_neg h]
    rw [not_or, not_not] at h
    obtain ⟨hlt, htake⟩ := take_add_two hc h.2
    refine .inr ⟨hlt, htake, ?_⟩
    by_cases hlast : i + 2 = word.length
    · rw [if_pos (by omega), if_pos hlast]
    · rw [if_neg (by omega), if_neg hlast]

/-- One letter behind the front of a word. -/
theorem matches_matchStep {i : Nat} {c : Byte} {x : Bytes} (hc : c ≠ 0)
    (hd : differs ≠ matching ∧ differs ≠ found) (hfm : found ≠ matching)
    (hx : x = word.take (i + 1)) :
    Matches word found matching (matchStep word found matching differs i c) (x ++ [c]) := by
  rcases @matchStep_cases word found matching differs i c hc with ⟨heq, -⟩ | ⟨hlt, htake, heq⟩
  · rw [heq]
    exact ⟨fun h => absurd h hd.1, fun h => absurd h hd.2⟩
  · rw [heq]
    by_cases hlast : i + 2 = word.length
    · rw [if_pos hlast]
      refine ⟨fun h => absurd h hfm, fun _ => ?_⟩
      rw [hx, ← htake, hlast, List.take_length]
    · rw [if_neg hlast]
      refine ⟨fun _ => ⟨by rw [hx, ← htake], ?_⟩, fun h => absurd h.symm hfm⟩
      show i + 1 + 1 < word.length
      omega

end Match

/-! ## Names -/

/-- The header state behind the first letter of a name. -/
def firstLetter (c : Byte) : HeaderState :=
  if c = chr 'c' then .c
  else if c = chr 'p' then .matchingProxyConnection
  else if c = chr 't' then .matchingTransferEncoding
  else if c = chr 'u' then .matchingUpgrade
  else .general

/-- The header state and the index behind a name, given in small letters. -/
def nameState : Bytes → HeaderState × Nat
  | [] => (.general, 0)
  | c :: cs => cs.foldl (fun s c => fieldStep s.1 s.2 c) (firstLetter c, 0)

theorem nameState_snoc {x : Bytes} (hx : x ≠ []) (c : Byte) :
    nameState (x ++ [c]) = fieldStep (nameState x).1 (nameState x).2 c := by
  cases x with
  | nil => exact absurd rfl hx
  | cons d ds => simp [nameState]

/-- What the states on the way to the two framing fields say about the letters read. -/
structure Spells (s : HeaderState × Nat) (x : Bytes) : Prop where
  encoding : Matches (str "transfer-encoding") .transferEncoding .matchingTransferEncoding s x
  length : Matches (str "content-length") .contentLength .matchingContentLength s x
  c : s.1 = .c → s.2 = 0 ∧ x = str "c"
  co : s.1 = .co → s.2 = 1 ∧ x = str "co"
  con : s.1 = .con → s.2 = 2 ∧ x = str "con"

/-- A state that is on the way to neither. -/
theorem spells_other {s : HeaderState × Nat} {x : Bytes}
    (h : s.1 ≠ .transferEncoding ∧ s.1 ≠ .matchingTransferEncoding ∧ s.1 ≠ .contentLength ∧
      s.1 ≠ .matchingContentLength ∧ s.1 ≠ .c ∧ s.1 ≠ .co ∧ s.1 ≠ .con) : Spells s x := by
  obtain ⟨h1, h2, h3, h4, h5, h6, h7⟩ := h
  exact ⟨⟨fun h => absurd h h2, fun h => absurd h h1⟩, ⟨fun h => absurd h h4, fun h => absurd h h3⟩,
    fun h => absurd h h5, fun h => absurd h h6, fun h => absurd h h7⟩

theorem spells_firstLetter (c : Byte) : Spells (firstLetter c, 0) [c] := by
  unfold firstLetter
  split_ifs with h1 h2 h3 h4
  · subst h1
    exact ⟨⟨by simp, by simp⟩, ⟨by simp, by simp⟩, fun _ => ⟨rfl, by decide⟩, by simp, by simp⟩
  · exact spells_other (by simp)
  · subst h3
    exact ⟨⟨fun _ => by decide, by simp⟩, ⟨by simp, by simp⟩, by simp, by simp, by simp⟩
  · exact spells_other (by simp)
  · exact spells_other (by simp)

/-- A matcher of another word stays away from the framing fields. -/
theorem spells_matchStep_other {word x : Bytes} {found matching : HeaderState} {i : Nat} {c : Byte}
    (hf : ∀ i, Spells (found, i) x) (hm : ∀ i, Spells (matching, i) x) :
    Spells (matchStep word found matching .general i c) x := by
  unfold matchStep
  split_ifs
  · exact spells_other (by simp)
  · exact hf _
  · exact hm _

theorem spells_fieldStep {s : HeaderState × Nat} {x : Bytes} {c : Byte} (hc : c ≠ 0)
    (h : Spells s x) : Spells (fieldStep s.1 s.2 c) (x ++ [c]) := by
  obtain ⟨hs, i⟩ := s
  cases hs <;> simp only [fieldStep]
  case c =>
    obtain ⟨rfl, rfl⟩ := h.c rfl
    by_cases ho : c = chr 'o'
    · subst ho
      exact ⟨⟨by simp, by simp⟩, ⟨by simp, by simp⟩, by simp, fun _ => ⟨rfl, by decide⟩, by simp⟩
    · rw [if_neg ho]
      exact spells_other (by simp)
  case co =>
    obtain ⟨rfl, rfl⟩ := h.co rfl
    by_cases hn : c = chr 'n'
    · subst hn
      exact ⟨⟨by simp, by simp⟩, ⟨by simp, by simp⟩, by simp, by simp, fun _ => ⟨rfl, by decide⟩⟩
    · rw [if_neg hn]
      exact spells_other (by simp)
  case con =>
    obtain ⟨rfl, rfl⟩ := h.con rfl
    by_cases hn : c = chr 'n'
    · rw [if_pos hn]
      exact spells_other (by simp)
    · rw [if_neg hn]
      by_cases ht : c = chr 't'
      · subst ht
        exact ⟨⟨by simp, by simp⟩, ⟨fun _ => by decide, by simp⟩, by simp, by simp, by simp⟩
      · rw [if_neg ht]
        exact spells_other (by simp)
  case matchingContentLength =>
    have hm := @matches_matchStep (str "content-length") .contentLength .matchingContentLength .general
      i c x hc (by simp) (by simp) (h.length.front rfl).1
    rcases @matchStep_cases (str "content-length") .contentLength .matchingContentLength .general i c hc
      with ⟨heq, -⟩ | ⟨-, -, heq⟩
    · rw [heq]
      exact spells_other (by simp)
    · refine ⟨⟨?_, ?_⟩, hm, ?_, ?_, ?_⟩ <;> rw [heq] <;> split_ifs <;> simp
  case matchingTransferEncoding =>
    have hm := @matches_matchStep (str "transfer-encoding") .transferEncoding .matchingTransferEncoding
      .general i c x hc (by simp) (by simp) (h.encoding.front rfl).1
    rcases @matchStep_cases (str "transfer-encoding") .transferEncoding .matchingTransferEncoding
      .general i c hc with ⟨heq, -⟩ | ⟨-, -, heq⟩
    · rw [heq]
      exact spells_other (by simp)
    · refine ⟨hm, ⟨?_, ?_⟩, ?_, ?_, ?_⟩ <;> rw [heq] <;> split_ifs <;> simp
  case matchingConnection | matchingProxyConnection | matchingUpgrade =>
    exact spells_matchStep_other (fun _ => spells_other (by simp)) fun _ => spells_other (by simp)
  all_goals exact spells_other (by simp)

theorem nameState_spells {x : Bytes} (h0 : ∀ c ∈ x, c ≠ 0) : Spells (nameState x) x := by
  induction x using List.reverseRecOn with
  | nil => exact spells_other (by simp [nameState])
  | append_singleton x c ih =>
    have hc : c ≠ 0 := h0 c (by simp)
    by_cases hx : x = []
    · subst hx
      exact spells_firstLetter c
    · rw [nameState_snoc hx]
      exact spells_fieldStep hc (ih fun c hc => h0 c (by simp [hc]))

/-- The name is `Transfer-Encoding`, in any spelling. -/
theorem nameState_transferEncoding {x : Bytes} (h0 : ∀ c ∈ x, c ≠ 0) :
    (nameState x).1 = .transferEncoding ↔ x = str "transfer-encoding" := by
  constructor
  · exact (nameState_spells h0).encoding.all
  · rintro rfl
    decide

/-- The name is `Content-Length`, in any spelling. -/
theorem nameState_contentLength {x : Bytes} (h0 : ∀ c ∈ x, c ≠ 0) :
    (nameState x).1 = .contentLength ↔ x = str "content-length" := by
  constructor
  · exact (nameState_spells h0).length.all
  · rintro rfl
    decide

/-- The header states of names. -/
def isNameState : HeaderState → Bool
  | .general | .c | .co | .con | .matchingConnection | .matchingProxyConnection
  | .matchingContentLength | .matchingTransferEncoding | .matchingUpgrade | .connection
  | .contentLength | .transferEncoding | .upgrade => true
  | _ => false

theorem isNameState_matchStep {word : Bytes} {found matching differs : HeaderState} {i : Nat} {c : Byte}
    (hf : isNameState found = true) (hm : isNameState matching = true) (hd : isNameState differs = true) :
    isNameState (matchStep word found matching differs i c).1 = true := by
  unfold matchStep
  split_ifs
  · exact hd
  · exact hf
  · exact hm

theorem isNameState_fieldStep {hs : HeaderState} {i : Nat} {c : Byte} (h : isNameState hs = true) :
    isNameState (fieldStep hs i c).1 = true := by
  cases hs <;> simp only [fieldStep]
  case matchingConnection | matchingProxyConnection | matchingContentLength | matchingTransferEncoding
      | matchingUpgrade => exact isNameState_matchStep rfl rfl rfl
  case c | co | con => split_ifs <;> rfl
  all_goals exact h

theorem isNameState_nameState (x : Bytes) : isNameState (nameState x).1 = true := by
  induction x using List.reverseRecOn with
  | nil => rfl
  | append_singleton x c ih =>
    by_cases hx : x = []
    · subst hx
      show isNameState (firstLetter c) = true
      unfold firstLetter
      split_ifs <;> rfl
    · rw [nameState_snoc hx]
      exact isNameState_fieldStep ih

/-! ## The value of `Transfer-Encoding` -/

/-- The first letter of the value. -/
def codingStart (ch : Byte) : HeaderState × Nat :=
  (if lower ch = chr 'c' then .matchingTransferEncodingChunked else .general, 0)

/-- One more letter of the value. -/
def codingStep (s : HeaderState × Nat) (ch : Byte) : HeaderState × Nat :=
  match s.1 with
  | .matchingTransferEncodingChunked =>
      matchStep (str "chunked") .transferEncodingChunked .matchingTransferEncodingChunked .general
        s.2 (lower ch)
  | .transferEncodingChunked => (if ch ≠ chr ' ' then .general else .transferEncodingChunked, s.2)
  | _ => s

/-- The header state and the index inside a value that is not folded. -/
def codingState : Bytes → HeaderState × Nat
  | [] => (.transferEncoding, 0)
  | ch :: v => v.foldl codingStep (codingStart ch)

/-- The value is `chunked`, in letters of any case and with spaces behind it. -/
def isChunkedValue (v : Bytes) : Bool :=
  (v.rdropWhile (· == chr ' ')).map lower = str "chunked"

theorem codingState_snoc {v : Bytes} (hv : v ≠ []) (ch : Byte) :
    codingState (v ++ [ch]) = codingStep (codingState v) ch := by
  cases v with
  | nil => exact absurd rfl hv
  | cons c v => simp [codingState]

theorem lower_ne_zero (ch : Byte) : lower ch ≠ 0 :=
  forall_byte (P := fun ch => lower ch ≠ 0) (by decide +kernel) ch

/-- The state belongs to the letters read. -/
structure Coding (s : HeaderState × Nat) (v : Bytes) : Prop where
  kind : s.1 = .matchingTransferEncodingChunked ∨ s.1 = .transferEncodingChunked ∨ s.1 = .general
  front : s.1 = .matchingTransferEncodingChunked ↔
    v.map lower = (str "chunked").take v.length ∧ v.length < 7
  index : s.1 = .matchingTransferEncodingChunked → s.2 + 1 = v.length
  all : s.1 = .transferEncodingChunked ↔ isChunkedValue v = true

theorem isChunkedValue_space (v : Bytes) : isChunkedValue (v ++ [chr ' ']) = isChunkedValue v := by
  unfold isChunkedValue
  rw [List.rdropWhile_concat_pos _ _ _ (by decide)]

theorem isChunkedValue_letter {v : Bytes} {ch : Byte} (h : ch ≠ chr ' ') :
    isChunkedValue (v ++ [ch]) = true ↔ (v ++ [ch]).map lower = str "chunked" := by
  unfold isChunkedValue
  rw [List.rdropWhile_concat_neg _ _ _ (by simpa using h)]
  simp

theorem isChunkedValue_length {v : Bytes} (h : isChunkedValue v = true) : 7 ≤ v.length := by
  unfold isChunkedValue at h
  rw [decide_eq_true_eq] at h
  have hlen := congrArg List.length h
  rw [List.length_map] at hlen
  have hle := List.IsPrefix.length_le (List.rdropWhile_prefix (· == chr ' ') (l := v))
  rw [hlen] at hle
  exact hle

theorem chr_space_notMem : chr ' ' ∉ str "chunked" := by decide

theorem coding_start (ch : Byte) : Coding (codingStart ch) [ch] := by
  have hnot : ¬ isChunkedValue [ch] = true := by
    intro h
    have := isChunkedValue_length h
    simp at this
  have htake : (str "chunked").take [ch].length = [chr 'c'] := by
    rw [List.length_singleton]
    decide
  unfold codingStart
  by_cases hc : lower ch = chr 'c'
  · rw [if_pos hc]
    refine ⟨.inl rfl, ⟨fun _ => ⟨?_, by simp⟩, fun _ => rfl⟩, fun _ => rfl, by simpa using hnot⟩
    rw [htake, List.map_singleton, hc]
  · rw [if_neg hc]
    refine ⟨.inr (.inr rfl), ⟨by simp, ?_⟩, by simp, by simpa using hnot⟩
    rintro ⟨h, -⟩
    rw [htake] at h
    exact absurd (List.singleton_inj.1 h) hc

/-- A front of the word without its last letter. -/
theorem front_of_snoc {v : Bytes} {ch : Byte}
    (h : (v ++ [ch]).map lower = (str "chunked").take (v ++ [ch]).length) :
    v.map lower = (str "chunked").take v.length := by
  have h1 := congrArg (List.take v.length) h
  rw [List.take_take, List.length_append, Nat.min_eq_left (by simp), List.map_append,
    List.take_left' (by simp)] at h1
  exact h1

theorem coding_space {s : HeaderState × Nat} {v : Bytes} (h : Coding s v) :
    Coding (codingStep s (chr ' ')) (v ++ [chr ' ']) := by
  -- a space belongs to no front of the word
  have hfront : ¬ ((v ++ [chr ' ']).map lower = (str "chunked").take (v ++ [chr ' ']).length ∧
      (v ++ [chr ' ']).length < 7) := by
    rintro ⟨heq, -⟩
    have hmem : chr ' ' ∈ (v ++ [chr ' ']).map lower := by
      rw [List.map_append]
      exact List.mem_append_right _ (by decide)
    rw [heq] at hmem
    exact chr_space_notMem (List.mem_of_mem_take hmem)
  obtain ⟨hs, i⟩ := s
  rcases h.kind with hk | hk | hk <;> simp only at hk <;> subst hk <;> simp only [codingStep]
  · have hdiffers : matchStep (str "chunked") .transferEncodingChunked .matchingTransferEncodingChunked
        .general i (lower (chr ' ')) = (.general, i + 1) := by
      rcases @matchStep_cases (str "chunked") .transferEncodingChunked .matchingTransferEncodingChunked
        .general i _ (lower_ne_zero (chr ' ')) with ⟨heq, -⟩ | ⟨-, htake, -⟩
      · exact heq
      · have hmem : lower (chr ' ') ∈ (str "chunked").take (i + 2) := by
          rw [htake]
          simp
        exact absurd (List.mem_of_mem_take hmem) (by decide)
    rw [hdiffers]
    refine ⟨.inr (.inr rfl), ⟨by simp, fun hf => absurd hf hfront⟩, by simp, ⟨by simp, fun hc => ?_⟩⟩
    rw [isChunkedValue_space] at hc
    exact absurd (h.all.2 hc) (by simp)
  · rw [if_neg (by simp)]
    refine ⟨.inr (.inl rfl), ⟨by simp, fun hf => absurd hf hfront⟩, by simp, ⟨fun _ => ?_, fun _ => rfl⟩⟩
    rw [isChunkedValue_space]
    exact h.all.1 rfl
  · refine ⟨.inr (.inr rfl), ⟨by simp, fun hf => absurd hf hfront⟩, by simp, ⟨by simp, fun hc => ?_⟩⟩
    rw [isChunkedValue_space] at hc
    exact absurd (h.all.2 hc) (by simp)

theorem coding_letter {s : HeaderState × Nat} {v : Bytes} {ch : Byte} (hch : ch ≠ chr ' ')
    (h : Coding s v) : Coding (codingStep s ch) (v ++ [ch]) := by
  have hlen : (v ++ [ch]).length = v.length + 1 := by simp
  have hword : (str "chunked").length = 7 := rfl
  -- without the matcher being inside the word, no letter leads into it
  have hout : s.1 ≠ .matchingTransferEncodingChunked →
      ¬ (v ++ [ch]).map lower = (str "chunked").take (v ++ [ch]).length ∨ 7 ≤ v.length := by
    intro hne
    by_contra hcon
    rw [not_or, not_not, not_le] at hcon
    exact hne (h.front.2 ⟨front_of_snoc hcon.1, hcon.2⟩)
  have hgeneral : s.1 ≠ .matchingTransferEncodingChunked → ∀ i, Coding (.general, i) (v ++ [ch]) := by
    intro hne i
    refine ⟨.inr (.inr rfl), ⟨by simp, fun hf => ?_⟩, by simp, ⟨by simp, fun hc => ?_⟩⟩
    · rcases hout hne with hno | hlong
      · exact absurd hf.1 hno
      · exact absurd hf.2 (by omega)
    · rw [isChunkedValue_letter hch] at hc
      have hl := congrArg List.length hc
      rw [List.length_map, hlen, hword] at hl
      rcases hout hne with hno | hlong
      · exact absurd (by rw [hc, hlen, hl, ← hword, List.take_length]) hno
      · omega
  obtain ⟨hs, i⟩ := s
  rcases h.kind with hk | hk | hk <;> simp only at hk <;> subst hk <;> simp only [codingStep]
  · obtain ⟨hfront, hshort⟩ := h.front.1 rfl
    have hi : i + 1 = v.length := h.index rfl
    have hsnoc : (v ++ [ch]).map lower = (str "chunked").take (i + 1) ++ [lower ch] := by
      rw [List.map_append, hfront, hi]
      rfl
    rcases @matchStep_cases (str "chunked") .transferEncodingChunked .matchingTransferEncodingChunked
      .general i _ (lower_ne_zero ch) with ⟨heq, hno⟩ | ⟨hlt, htake, heq⟩
    · rw [heq]
      have hno' : ¬ (v ++ [ch]).map lower = (str "chunked").take (v ++ [ch]).length := by
        intro heq'
        rw [hsnoc, hlen, ← hi] at heq'
        exact hno ⟨by omega, heq'.symm⟩
      refine ⟨.inr (.inr rfl), ⟨by simp, fun hf => absurd hf.1 hno'⟩, by simp, ⟨by simp, fun hc => ?_⟩⟩
      rw [isChunkedValue_letter hch] at hc
      have hl := congrArg List.length hc
      rw [List.length_map, hlen, hword] at hl
      exact absurd (by rw [hc, hlen, hl, ← hword, List.take_length]) hno'
    · have hmap : (v ++ [ch]).map lower = (str "chunked").take (v ++ [ch]).length := by
        rw [hsnoc, hlen, ← hi, htake]
      rw [heq]
      by_cases hlast : i + 2 = (str "chunked").length
      · rw [if_pos hlast]
        refine ⟨.inr (.inl rfl), ⟨by simp, fun hf => ?_⟩, by simp, ⟨fun _ => ?_, fun _ => rfl⟩⟩
        · have := hf.2
          omega
        · rw [isChunkedValue_letter hch, hmap, hlen, ← hi, hlast, List.take_length]
      · rw [if_neg hlast]
        refine ⟨.inl rfl, ⟨fun _ => ⟨hmap, by omega⟩, fun _ => rfl⟩, fun _ => by simp; omega,
          ⟨by simp, fun hc => ?_⟩⟩
        have := isChunkedValue_length hc
        omega
  · rw [if_pos hch]
    exact hgeneral (by simp) i
  · exact hgeneral (by simp) i

theorem coding_step {s : HeaderState × Nat} {v : Bytes} (h : Coding s v) (ch : Byte) :
    Coding (codingStep s ch) (v ++ [ch]) := by
  by_cases hch : ch = chr ' '
  · subst hch
    exact coding_space h
  · exact coding_letter hch h

theorem codingState_coding {v : Bytes} (hv : v ≠ []) : Coding (codingState v) v := by
  induction v using List.reverseRecOn with
  | nil => exact absurd rfl hv
  | append_singleton v ch ih =>
    by_cases h : v = []
    · subst h
      exact coding_start ch
    · rw [codingState_snoc h]
      exact coding_step (ih h) ch

/-! ## The value of `Content-Length` -/

/-- The largest number of tens that the parser lets a content length have. -/
def maxLengthTens : Nat := (ULLONG_MAX - 10) / 10

/-- A value of `Content-Length` that denotes `n`: digits, and behind them blanks, which are
spaces unless the value is folded. -/
structure LengthValue (digits blanks : Bytes) (folded : Bool) (n : Nat) : Prop where
  ne_nil : digits ≠ []
  isNum : ∀ d ∈ digits, isNum d = true
  isBlank : ∀ b ∈ blanks, isBlank b
  space : folded = false → ∀ b ∈ blanks, b = chr ' '
  value : digitsValue 10 digits = n
  le : n / 10 ≤ maxLengthTens

theorem digitVal_isNum (ch : Byte) :
    HttpProxy.isNum ch = true → digitVal ch = some (ch - chr '0').toNat ∧ (ch - chr '0').toNat ≤ 9 :=
  forall_byte (P := fun ch => HttpProxy.isNum ch = true →
    digitVal ch = some (ch - chr '0').toNat ∧ (ch - chr '0').toNat ≤ 9) (by decide +kernel) ch

/-- The first digit. -/
theorem lengthValue_start {ch : Byte} (h : HttpProxy.isNum ch = true) :
    LengthValue [ch] [] false (ch - chr '0').toNat := by
  obtain ⟨hd, hle⟩ := digitVal_isNum ch h
  refine ⟨by simp, by simpa using h, by simp, by simp, ?_, ?_⟩
  · simp [digitsValue, hd]
  · rw [Nat.div_eq_of_lt (by omega)]
    exact Nat.zero_le _

/-- One more digit. -/
theorem LengthValue.digit {ds : Bytes} {folded : Bool} {n : Nat} {ch : Byte}
    (h : LengthValue ds [] folded n) (hch : HttpProxy.isNum ch = true) (hn : n ≤ maxLengthTens) :
    LengthValue (ds ++ [ch]) [] folded (n * 10 + (ch - chr '0').toNat) := by
  obtain ⟨hd, hle⟩ := digitVal_isNum ch hch
  refine ⟨by simp, ?_, by simp, by simp, ?_, ?_⟩
  · intro d hd'
    rcases List.mem_append.1 hd' with hd' | hd'
    · exact h.isNum d hd'
    · exact List.mem_singleton.1 hd' ▸ hch
  · rw [digitsValue_append, h.value, hd]
    rfl
  · have : (n * 10 + (ch - chr '0').toNat) / 10 = n := by omega
    rw [this]
    exact hn

/-- One more blank. -/
theorem LengthValue.blank {ds ws : Bytes} {folded folded' : Bool} {n : Nat} {ch : Byte}
    (h : LengthValue ds ws folded n) (hch : HttpProxy.isBlank ch)
    (hf : folded' = false → folded = false ∧ ch = chr ' ') :
    LengthValue ds (ws ++ [ch]) folded' n := by
  refine ⟨h.ne_nil, h.isNum, fun b hb => ?_, fun hff b hb => ?_, h.value, h.le⟩
  · rcases List.mem_append.1 hb with hb | hb
    · exact h.isBlank b hb
    · exact List.mem_singleton.1 hb ▸ hch
  · rcases List.mem_append.1 hb with hb | hb
    · exact h.space (hf hff).1 b hb
    · exact List.mem_singleton.1 hb ▸ (hf hff).2

end HttpParser

end HttpProxy
