import HttpProxy.Message.Collect
import HttpProxy.Message.Section
import HttpProxy.Stream.Blocks

/-!
# Where `p_header_tail` points

The pointer is set at every piece of a token that is reported, and it is used when
the header is complete, maybe some blocks later.  By then the memory of the buffer
may have been used again from its start, so a pointer into the buffer is followed
here along with the bytes that were read.

* `PieceAt` — the places of the stream at which a piece of a token is reported.
* `Placed` — the pointer is at such a place of the stream, or it was set before the
  memory was used again and no piece has been reported since.
* `Placed.block`, `Placed.filled` — a block that is read keeps this, and so does the
  arrival of the next one.
-/

namespace HttpProxy

/-! ## Pieces -/

/-- Do the bytes end inside a url or a field name, or right behind it? -/
def inUrlOrName (t : HttpParserType) (S : Bytes) : Bool :=
  match readHead t S with
  | .ok r => r.parser.state.phase = .url ∨ r.parser.state.phase = .name
  | .error _ => false

/-- A piece of a token may be reported at place `k`: the byte there belongs to a token,
or a url or name is open there, and is reported with an empty piece. -/
def PieceAt (t : HttpParserType) (S : Bytes) (k : Nat) : Prop :=
  (k < S.length ∧ inToken t (S.take (k + 1)) = true) ∨
    (k ≤ S.length ∧ inUrlOrName t (S.take k) = true)

theorem inUrlOrName_iff {t : HttpParserType} {S : Bytes} :
    inUrlOrName t S = true ↔ ∃ r, readHead t S = .ok r ∧
      (r.parser.state.phase = .url ∨ r.parser.state.phase = .name) := by
  rw [inUrlOrName]
  cases readHead t S with
  | error e => simp
  | ok r => simp

theorem inToken_of_inUrlOrName {t : HttpParserType} {S : Bytes} (h : inUrlOrName t S = true) :
    inToken t S = true := by
  obtain ⟨r, hr, hph⟩ := inUrlOrName_iff.1 h
  refine inToken_iff.2 ⟨r, hr, ?_⟩
  rcases hph with hph | hph <;> rw [hph] <;> decide

/-- A url or name that is open is behind a byte of it. -/
theorem not_inUrlOrName_nil (t : HttpParserType) : inUrlOrName t [] = false := by
  cases t <;> rfl

/-- The bytes behind others, read from the state that these lead to. -/
theorem inToken_append {t : HttpParserType} {P D : Bytes} {r₀ : Head.Reading}
    (hr₀ : readHead t P = .ok r₀) (hex : r₀.exited = false) :
    inToken t (P ++ D) = true ↔ ∃ r, Head.read r₀.parser r₀.head D = .ok r ∧
      r.parser.state.phase.token ≠ none := by
  rw [readHead] at hr₀
  rw [inToken_iff, readHead, Head.read_append, hr₀]
  simp only [hex, Bool.false_eq_true, if_false]
  cases Head.read r₀.parser r₀.head D with
  | error e => simp [Except.map]
  | ok r => simp [Except.map, Head.Reading.more]

namespace PieceAt

variable {t : HttpParserType} {P D : Bytes} {k : Nat}

theorem le_length (h : PieceAt t P k) : k ≤ P.length := by
  rcases h with h | h
  · exact h.1.le
  · exact h.1

/-- A place at which a piece is reported is at a token. -/
theorem anchor (h : PieceAt t P k) : Anchor t P k := by
  rcases h with h | h
  · exact .inr h.2
  · exact .inl (inToken_of_inUrlOrName h.2)

/-- More bytes behind it do not change a place. -/
theorem append (h : PieceAt t P k) (D : Bytes) : PieceAt t (P ++ D) k := by
  have hlen : (P ++ D).length = P.length + D.length := List.length_append
  rcases h with ⟨hk, h⟩ | ⟨hk, h⟩
  · exact .inl ⟨by omega, by rwa [List.take_append_of_le_length (by omega)]⟩
  · exact .inr ⟨by omega, by rwa [List.take_append_of_le_length hk]⟩

/-- A place in the first bytes, or a token in the others. -/
theorem of_append (h : PieceAt t (P ++ D) k) :
    PieceAt t P k ∨ (P.length ≤ k ∧ ∃ n < D.length, inToken t (P ++ D.take (n + 1)) = true) := by
  have hlen : (P ++ D).length = P.length + D.length := List.length_append
  have htake : ∀ m, P.length ≤ m → (P ++ D).take m = P ++ D.take (m - P.length) := by
    intro m hm
    rw [List.take_append, List.take_of_length_le hm]
  rcases h with ⟨hk, h⟩ | ⟨hk, h⟩
  · by_cases hlt : k < P.length
    · exact .inl (.inl ⟨hlt, by rwa [List.take_append_of_le_length (by omega)] at h⟩)
    · refine .inr ⟨by omega, k - P.length, by omega, ?_⟩
      rwa [htake (k + 1) (by omega), Nat.sub_add_comm (by omega)] at h
  · by_cases hle : k ≤ P.length
    · exact .inl (.inr ⟨hle, by rwa [List.take_append_of_le_length hle] at h⟩)
    · refine .inr ⟨by omega, k - P.length - 1, by omega, ?_⟩
      rw [htake k (by omega)] at h
      rw [Nat.sub_add_cancel (by omega)]
      exact inToken_of_inUrlOrName h

end PieceAt

namespace SrsHttpParser

open HttpParser

/-! ## The pointer after a block -/

/-- A block in two parts. -/
theorem tailAfter_append {p : HttpParser} {h : Head} {base pos : Nat} {tl : Option Nat}
    {as bs : Bytes} {r : Head.Reading} (hr : Head.read p h as = .ok r) (hex : r.exited = false) :
    tailAfter base p pos tl (as ++ bs) =
      tailAfter base r.parser (pos + as.length) (tailAfter base p pos tl as) bs := by
  induction as generalizing p h pos tl r with
  | nil => cases hr; rfl
  | cons ch as ih =>
    obtain ⟨o, hs, ⟨-, rfl⟩ | ⟨hexit, r', hr', rfl⟩⟩ := Head.read_cons_ok hr
    · cases hex
    · rw [List.cons_append, tailAfter, tailAfter]
      simp only [hs, hexit, Bool.false_eq_true, if_false]
      rw [ih hr' hex, List.length_cons, Nat.add_assoc, Nat.add_comm 1]
      rfl

/-- What a byte at which no piece starts leads to. -/
theorem startsPiece_false {pos : Nat} {ph ph' : Phase} (h : startsPiece pos ph ph' = false)
    (hp : pos = 0 ∨ ph.token = none) : ph'.token = none := by
  by_contra hc
  rw [startsPiece, Bool.and_eq_false_iff] at h
  rcases h with h | h
  · simp [hc] at h
  · rcases hp with hp | hp <;> simp [hp] at h

/-- The pointer is at a token in the block, or it has not been moved.  If then no token
was open before, or the block starts here, there is none in it. -/
theorem tailAfter_cases {p : HttpParser} {h : Head} (base pos : Nat) (tl : Option Nat)
    {rest : Bytes} {r : Head.Reading} (hr : Head.read p h rest = .ok r) :
    (∃ m < rest.length, tailAfter base p pos tl rest = some (base + (pos + m)) ∧
      ∃ r', Head.read p h (rest.take (m + 1)) = .ok r' ∧ r'.parser.state.phase.token ≠ none) ∨
    (tailAfter base p pos tl rest = tl ∧ (pos = 0 ∨ p.state.phase.token = none →
      ∀ n < rest.length, ∀ r', Head.read p h (rest.take (n + 1)) = .ok r' →
        r'.parser.state.phase.token = none)) := by
  induction rest generalizing p h pos tl r with
  | nil => exact .inr ⟨rfl, by simp⟩
  | cons ch rest ih =>
    obtain ⟨o, hs, ho⟩ := Head.read_cons_ok hr
    have hone := Head.read_singleton hs h
    rw [tailAfter]
    simp only [hs]
    have hstarts : startsPiece pos p.state.phase o.parser.state.phase = true →
        o.parser.state.phase.token ≠ none := by
      intro hst
      rw [startsPiece, Bool.and_eq_true, Option.isSome_iff_ne_none] at hst
      exact hst.1
    have hquiet := @startsPiece_false pos p.state.phase o.parser.state.phase
    generalize startsPiece pos p.state.phase o.parser.state.phase = st at hstarts hquiet ⊢
    rcases ho with ⟨hexit, -⟩ | ⟨hexit, r', hr', -⟩
    · -- The byte is the last one that is read.
      rw [if_pos hexit]
      cases st with
      | true => exact .inl ⟨0, by simp, rfl, _, hone, hstarts rfl⟩
      | false =>
        refine .inr ⟨rfl, fun hp n hn r' hr' => ?_⟩
        rw [List.take_succ_cons, Head.read, hs] at hr'
        simp only [hexit, if_true] at hr'
        cases hr'
        exact hquiet rfl hp
    · rw [if_neg (by simp [hexit])]
      rcases ih (pos + 1) (if st = true then some (base + pos) else tl) hr' with
        ⟨m, hm, htl, r₁, hr₁, ht₁⟩ | ⟨htl, hnone⟩
      · refine .inl ⟨m + 1, by simpa using hm, ?_, r₁.more 1, Head.read_cons hs hexit hr₁, ht₁⟩
        rw [htl, Nat.add_assoc, Nat.add_comm 1]
      · rw [htl]
        cases st with
        | true => exact .inl ⟨0, by simp, rfl, _, hone, hstarts rfl⟩
        | false =>
          refine .inr ⟨rfl, fun hp n hn r₁ hr₁ => ?_⟩
          have htok := hquiet rfl hp
          rw [List.take_succ_cons] at hr₁
          cases n with
          | zero =>
            rw [List.take_zero, hone] at hr₁
            cases hr₁
            exact htok
          | succ n =>
            obtain ⟨o', hs', ho'⟩ := Head.read_cons_ok hr₁
            rw [hs] at hs'
            cases hs'
            rcases ho' with ⟨hexit', -⟩ | ⟨-, r₂, hr₂, rfl⟩
            · simp [hexit] at hexit'
            · exact hnone (.inr htok) n (by simpa using hn) r₂ hr₂

/-- What is not read any more does not move the pointer. -/
theorem tailAfter_exited {p : HttpParser} {h : Head} {base pos : Nat} {tl : Option Nat}
    {as : Bytes} {r : Head.Reading} (bs : Bytes) (hr : Head.read p h as = .ok r)
    (hex : r.exited = true) :
    tailAfter base p pos tl (as ++ bs) = tailAfter base p pos tl as := by
  induction as generalizing p h pos tl r with
  | nil => cases hr; cases hex
  | cons ch as ih =>
    obtain ⟨o, hs, ho⟩ := Head.read_cons_ok hr
    rw [List.cons_append, tailAfter, tailAfter]
    simp only [hs]
    rcases ho with ⟨hexit, rfl⟩ | ⟨hexit, r', hr', rfl⟩
    · rw [if_pos hexit, if_pos hexit]
    · simp only [hexit, Bool.false_eq_true, if_false]
      exact ih hr' hex

/-- Bytes without a token do not move the pointer. -/
theorem tailAfter_quiet {p : HttpParser} {h : Head} {base pos : Nat} {tl : Option Nat}
    {as bs : Bytes} {rA r : Head.Reading} (hrA : Head.read p h as = .ok rA)
    (hr : Head.read p h (as ++ bs) = .ok r)
    (hquiet : rA.exited = false → ∀ n < bs.length, ∀ r',
      Head.read rA.parser rA.head (bs.take (n + 1)) = .ok r' →
        r'.parser.state.phase.token = none) :
    tailAfter base p pos tl (as ++ bs) = tailAfter base p pos tl as := by
  cases hex : rA.exited with
  | true => exact tailAfter_exited bs hrA hex
  | false =>
    obtain ⟨rA', hrA', hrest⟩ := read_append_ok hr
    rw [hrA] at hrA'
    cases hrA'
    obtain ⟨rB, hrB, -⟩ := hrest hex
    rw [tailAfter_append hrA hex]
    rcases tailAfter_cases base (pos + as.length) (tailAfter base p pos tl as) hrB with
      ⟨m, hm, -, r', hr', ht'⟩ | ⟨h, -⟩
    · exact absurd (hquiet hex m hm r' hr') ht'
    · exact h

end SrsHttpParser

/-! ## Pointers into the buffer -/

/-- When `P` has been read and its last bytes end at the place `c` of the memory, byte
`k` of it is at the place `tl`. -/
def Near (P mem : Bytes) (c k tl : Nat) : Prop :=
  tl + P.length = c + k ∧ (mem.take c).drop tl = P.drop k

/-- The pointer was set before the memory was used again from its start. -/
def Far (P : Bytes) (nb c tl : Nat) : Prop :=
  c ≤ P.length ∧ nb + c ≤ tl + P.length

/-- `p_header_tail` when `P` has been read. -/
inductive Placed (t : HttpParserType) (P mem : Bytes) (nb c : Nat) : Option Nat → Prop
  | unset : (∀ k, ¬ PieceAt t P k) → Placed t P mem nb c none
  | near {tl k : Nat} : PieceAt t P k → Near P mem c k tl → Placed t P mem nb c (some tl)
  | far {tl : Nat} : Far P nb c tl → (∀ k, P.length ≤ c + k → PieceAt t P k → k = P.length) →
      Placed t P mem nb c (some tl)

/-- Nothing read. -/
theorem placed_nil (t : HttpParserType) (mem : Bytes) (nb c : Nat) :
    Placed t [] mem nb c none := by
  refine .unset fun k hk => ?_
  rcases hk with ⟨hk, -⟩ | ⟨hk, h⟩
  · simp at hk
  · simp [not_inUrlOrName_nil] at h

/-- More bytes behind what a pointer points to. -/
theorem Near.append {P D mem : Bytes} {c k tl : Nat} (h : Near P mem c k tl) (hk : k ≤ P.length)
    (hc : c ≤ mem.length) (hD : D <+: mem.drop c) : Near (P ++ D) mem (c + D.length) k tl := by
  obtain ⟨hlen, hbytes⟩ := h
  refine ⟨by rw [List.length_append]; omega, ?_⟩
  have htake : mem.take (c + D.length) = mem.take c ++ D := by
    rw [List.take_add, ← List.prefix_iff_eq_take.1 hD]
  rw [htake, List.drop_append_of_le_length (by rw [List.length_take]; omega), hbytes,
    List.drop_append_of_le_length hk]

/-- The place at which a block starts, or one in it. -/
theorem near_block (P : Bytes) {D mem : Bytes} {c : Nat} (hD : D <+: mem.drop c)
    (hc : c ≤ mem.length) (m : Nat) :
    Near (P ++ D) mem (c + D.length) (P.length + m) (c + m) := by
  refine ⟨by rw [List.length_append]; omega, ?_⟩
  have htake : mem.take (c + D.length) = mem.take c ++ D := by
    rw [List.take_add, ← List.prefix_iff_eq_take.1 hD]
  have hlen : (mem.take c).length = c := by rw [List.length_take]; omega
  have hdrop : (mem.take c ++ D).drop (c + m) = D.drop m := by
    rw [← List.drop_drop, List.drop_left' hlen]
  rw [htake, hdrop, ← List.drop_drop, List.drop_left]

/-- **A block that is read** takes the pointer to its last piece. -/
theorem Placed.block {t : HttpParserType} {P D mem : Bytes} {nb c : Nat} {tl : Option Nat}
    {r₀ r : Head.Reading} (hp : Placed t P mem nb c tl) (hr₀ : readHead t P = .ok r₀)
    (hex : r₀.exited = false) (hr : Head.read r₀.parser r₀.head D = .ok r)
    (hc : c ≤ mem.length) (hD : D <+: mem.drop c) :
    Placed t (P ++ D) mem nb (c + D.length)
      (SrsHttpParser.tailAfter c r₀.parser 0
        (SrsHttpParser.tailAtStart c r₀.parser.state.phase tl) D) := by
  have htok := fun D' => inToken_append (D := D') hr₀ hex
  rcases SrsHttpParser.tailAfter_cases c 0
    (SrsHttpParser.tailAtStart c r₀.parser.state.phase tl) hr with
    ⟨m, hm, htl, r', hr', ht'⟩ | ⟨htl, hnone⟩
  · rw [htl, Nat.zero_add]
    refine .near (.inl ⟨?_, ?_⟩) (near_block P hD hc m)
    · rw [List.length_append]
      omega
    · rw [Nat.add_assoc, List.take_length_add_append]
      exact (htok _).2 ⟨r', hr', ht'⟩
  rw [htl, SrsHttpParser.tailAtStart]
  -- No token in the block: only a url or name that was open is reported.
  have hquiet : ∀ n < D.length, inToken t (P ++ D.take (n + 1)) ≠ true := by
    intro n hn h
    obtain ⟨r', hr', ht'⟩ := (htok _).1 h
    exact ht' (hnone (.inl rfl) n hn r' hr')
  have hold : ∀ k, PieceAt t (P ++ D) k → PieceAt t P k := by
    intro k hk
    rcases hk.of_append with hk | ⟨-, n, hn, h⟩
    · exact hk
    · exact absurd h (hquiet n hn)
  split_ifs with hopen
  · have := near_block P hD hc 0
    rw [Nat.add_zero, Nat.add_zero] at this
    refine .near (.inr ⟨?_, ?_⟩) this
    · rw [List.length_append]
      omega
    · rw [List.take_left]
      exact inUrlOrName_iff.2 ⟨r₀, hr₀, hopen⟩
  cases hp with
  | unset h => exact .unset fun k hk => h k (hold k hk)
  | near hk hn => exact .near (hk.append D) (hn.append hk.le_length hc hD)
  | far hf h =>
    obtain ⟨h1, h2⟩ := hf
    refine .far ⟨?_, ?_⟩ fun k hle hk => ?_
    · rw [List.length_append]
      omega
    · rw [List.length_append]
      omega
    · -- The only place left is the end of what was read before, where nothing was open.
      rw [List.length_append] at hle
      have heq := h k (by omega) (hold k hk)
      subst heq
      rcases hold _ hk with ⟨hlt, -⟩ | ⟨-, h⟩
      · omega
      · rw [List.take_length] at h
        obtain ⟨r', hr', hph⟩ := inUrlOrName_iff.1 h
        rw [hr₀] at hr'
        cases hr'
        exact absurd hph hopen

/-- **The next block arrives**, behind the last one or at the start of the memory. -/
theorem Placed.filled {t : HttpParserType} {P : Bytes} {src src' : Source} {tl : Option Nat}
    (hp : Placed t P src.buffer.data src.buffer.nbBuffer src.buffer.p tl)
    (hlen : P.length ≤ HTTP_MAX_HEADER_SIZE)
    (hsize : src.buffer.nbBuffer = SRS_DEFAULT_RECV_BUFFER_SIZE) (h0 : src.buffer.size = 0)
    (hf : src.filled = some src') :
    Placed t P src'.buffer.data src'.buffer.nbBuffer src'.buffer.p tl := by
  have hnb := (Source.filled_unread hf).2
  have hend : src.buffer.p = src.buffer.data.length := by
    have := src.buffer.p_le
    rw [SrsFastStream.size] at h0
    omega
  have hmax : HTTP_MAX_HEADER_SIZE = 81920 := rfl
  have hdef : SRS_DEFAULT_RECV_BUFFER_SIZE = 131072 := rfl
  rw [hnb]
  rcases Source.filled_of_empty hf h0 with ⟨hpos, hdata⟩ | ⟨hfull, hpos, hdata⟩
  · rw [hpos, hdata]
    rw [hend] at hp
    cases hp with
    | unset h => exact .unset h
    | near hk hn =>
      refine .near hk ⟨hn.1, ?_⟩
      rw [List.take_left, ← hn.2, List.take_length]
    | far hfar h => exact .far hfar h
  · rw [hpos]
    cases hp with
    | unset h => exact .unset h
    | near hk hn =>
      obtain ⟨h1, -⟩ := hn
      refine .far ⟨Nat.zero_le _, by omega⟩ fun k hle hk' => ?_
      have := hk'.le_length
      omega
    | far hfar h =>
      -- The header is shorter than the buffer, so the memory starts over once at most.
      obtain ⟨h1, -⟩ := hfar
      omega

end HttpProxy
