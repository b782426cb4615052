import HttpProxy.Body.Reader

/-!
# Bodies of a given length

The body of a message with `Content-Length: n` that is not chunked, read to its
end.  `read` limits every piece to `n - nb_total_read`, so no byte behind the
body is ever taken; the end is reported when `nb_total_read` reaches the length
cast to `int`.

* `drain_fixed_delivers` — below `2 ^ 31` the cast changes nothing: the reads
  deliver exactly the body and then the end, for every fragmentation and all
  read sizes.
* `drain_fixed_short` — from `2 ^ 31` on the cast value lies at least `2 ^ 32`
  below the length, and no sequence of reads ever delivers the body: the end is
  reported within one buffer of the cast value.
* `drain_fixed_iff` — the two together.
-/

namespace HttpProxy

namespace SrsHttpResponseReader

/-- The framing of a body of `n` bytes. -/
def lengthFraming (n : Int) : BodyFraming := ⟨false, n⟩

/-- The reads stop at the end of the body, have delivered the `n` bytes in front
of it and nothing else, and leave what follows. -/
def Delivers (n : Nat) (src : Source) (d : Drained) : Prop :=
  d.stop = some .httpResponseEof ∧ d.data = src.unread.take n ∧ d.src.unread = src.unread.drop n

variable {n : Int} {r : SrsHttpResponseReader} {src : Source} {sizes : Nat → Nat} {nbData : Nat}

/-- While the body lasts, a read is a `readSpecified` of what is left of it. -/
theorem read_fixed (hn : n < 2 ^ 63) (he : r.isEof = false) (ht : (r.nbTotalRead : Int) < n) :
    read (lengthFraming n) r src nbData =
      readSpecified (lengthFraming n) r src (min nbData (n.toNat - r.nbTotalRead)) := by
  have hmax : toSize (n - r.nbTotalRead) = n.toNat - r.nbTotalRead := by
    have := toSize_of_nonneg (x := n - r.nbTotalRead) (by omega) (by omega)
    omega
  have h1 : (lengthFraming n).contentLength ≠ -1 := by
    show n ≠ -1
    omega
  rw [read, if_neg (by simp [he]), if_neg (by simp [lengthFraming]), if_pos h1]
  simp only [lengthFraming, hmax]
  rw [if_neg (by omega)]

/-- A read at the very end of the body only notices that it is over. -/
theorem read_fixed_done (hn0 : 0 ≤ n) (he : r.isEof = false) (ht : (r.nbTotalRead : Int) = n) :
    read (lengthFraming n) r src nbData = ⟨none, none, [], { r with isEof := true }, src⟩ := by
  have h1 : (lengthFraming n).contentLength ≠ -1 := by
    show n ≠ -1
    omega
  rw [read, if_neg (by simp [he]), if_neg (by simp [lengthFraming]), if_pos h1]
  show (if toSize (n - r.nbTotalRead) = 0 then _ else _) = _
  rw [ht, Int.sub_self, if_pos (by decide)]

/-- A piece of the body advances the total by its length, and is the last one
when the total reaches the cast length. -/
theorem read_fixed_ok (hn : n < 2 ^ 63) (he : r.isEof = false) (ht : (r.nbTotalRead : Int) < n)
    (h : (read (lengthFraming n) r src nbData).err = none) :
    ∃ m, 0 < m ∧ r.nbTotalRead + m ≤ n.toNat ∧ m ≤ src.buffer.nbBuffer ∧
      (read (lengthFraming n) r src nbData).data = src.unread.take m ∧
      m ≤ src.unread.length ∧
      Took src (src.unread.take m) (read (lengthFraming n) r src nbData).src ∧
      (read (lengthFraming n) r src nbData).reader.nbTotalRead = r.nbTotalRead + m ∧
      (read (lengthFraming n) r src nbData).reader.isEof =
        decide (toInt32 n ≤ (r.nbTotalRead + m : Nat)) := by
  rw [read_fixed hn he ht] at h ⊢
  obtain ⟨m, hm0, hm, hcap, hle, -, hdata, htook, hreader⟩ := readSpecified_ok h
  refine ⟨m, hm0, by omega, hcap, hdata, hle, htook, by rw [hreader], ?_⟩
  have h1 : (n != -1) = true := bne_iff_ne.2 (by omega)
  rw [hreader]
  simp only [he, reachedEnd, lengthFraming, Bool.not_false, h1, Bool.true_and, Bool.false_or]
  congr

/-- The reads from any point inside the body on. -/
theorem drain_fixed_rest (hn : n < 2 ^ 31) (hs : src.skt.Healthy) (hpos : ∀ i, 0 < sizes i)
    (he : r.isEof = false) (ht : (r.nbTotalRead : Int) ≤ n)
    (hlen : n.toNat - r.nbTotalRead ≤ src.unread.length) :
    ∃ fuel, Delivers (n.toNat - r.nbTotalRead) src (drain (lengthFraming n) sizes fuel r src) := by
  -- the number of bytes left decreases with every read
  induction hleft : n.toNat - r.nbTotalRead using Nat.strong_induction_on
    generalizing r src sizes with
  | _ left ih =>
    rcases Nat.eq_zero_or_pos left with h0 | h0
    · have hread : read (lengthFraming n) r src (sizes 0) =
          ⟨none, none, [], { r with isEof := true }, src⟩ :=
        read_fixed_done (by omega) he (show (r.nbTotalRead : Int) = n by omega)
      refine ⟨2, ?_⟩
      rw [drain_of_ok (by rw [hread]), hread, drain_of_eof rfl]
      subst h0
      exact ⟨rfl, by simp, by simp⟩
    · have ht' : (r.nbTotalRead : Int) < n := by omega
      have hok : (read (lengthFraming n) r src (sizes 0)).err = none := by
        rw [read_fixed (by omega) he ht']
        refine readSpecified_healthy hs ?_ (by have := hpos 0; omega)
        exact List.ne_nil_of_length_pos (by omega)
      obtain ⟨m, hm0, hm, -, hdata, hmle, htook, htotal, heof⟩ :=
        read_fixed_ok (by omega) he ht' hok
      have hdrop := htook.unread_drop
      rw [toInt32_eq_self (by omega) hn] at heof
      by_cases hlast : r.nbTotalRead + m = n.toNat
      · have heof' : (read (lengthFraming n) r src (sizes 0)).reader.isEof = true := by
          rw [heof]
          exact decide_eq_true (by omega)
        refine ⟨2, ?_⟩
        rw [drain_of_ok hok, drain_of_eof heof']
        have hmleft : m = left := by omega
        subst hmleft
        exact ⟨rfl, by rw [hdata]; simp, hdrop⟩
      · have heof' : (read (lengthFraming n) r src (sizes 0)).reader.isEof = false := by
          rw [heof]
          exact decide_eq_false (by omega)
        obtain ⟨fuel, hstop, hrest, hsrc⟩ := ih (left - m) (by omega)
          (htook.healthy hs) (fun i => hpos (i + 1)) heof'
          (by rw [htotal]; omega) (by rw [htotal, hdrop, List.length_drop]; omega)
          (by rw [htotal]; omega)
        refine ⟨fuel + 1, ?_⟩
        rw [drain_of_ok hok]
        refine ⟨hstop, ?_, ?_⟩
        · show _ ++ _ = _
          have htake : src.unread.take left = src.unread.take m ++ (src.unread.drop m).take (left - m) := by
            rw [← List.take_add]
            congr 1
            omega
          rw [hdata, hrest, hdrop, htake]
        · show Source.unread _ = _
          rw [hsrc, hdrop, List.drop_drop]
          congr 1
          omega

/-- **Below `2 ^ 31` the body is delivered**, in order and to its last byte, and
the stream is left right behind it. -/
theorem drain_fixed_delivers (hn0 : 0 ≤ n) (hn : n < 2 ^ 31) (hs : src.skt.Healthy)
    (hlen : n ≤ src.unread.length) (hpos : ∀ i, 0 < sizes i) :
    ∃ fuel, Delivers n.toNat src (drain (lengthFraming n) sizes fuel fresh src) := by
  have := drain_fixed_rest (r := fresh) hn hs hpos rfl (by simpa [fresh] using hn0)
    (by simp only [fresh]; omega)
  simpa [fresh] using this

/-- Before the end is reported the total is 0 or below the cast length, so that
whatever is read, the body is never completed. -/
theorem drain_fixed_rest_short (hn : n < 2 ^ 63) (hbig : 2 ^ 31 ≤ n) (fuel : Nat)
    (he : r.isEof = false) (ht : r.nbTotalRead = 0 ∨ (r.nbTotalRead : Int) < toInt32 n) :
    r.nbTotalRead + (drain (lengthFraming n) sizes fuel r src).data.length < n.toNat := by
  have hcast := toInt32_add_le hbig
  induction fuel generalizing r src sizes with
  | zero =>
    simp only [drain, List.length_nil]
    omega
  | succ fuel ih =>
    cases herr : (read (lengthFraming n) r src (sizes 0)).err with
    | some e =>
      rw [drain_of_error herr]
      simp only [List.length_nil]
      omega
    | none =>
      obtain ⟨m, hm0, hm, hcap, hdata, hmle, -, htotal, heof⟩ :=
        read_fixed_ok hn he (by omega) herr
      have hbuf := src.buffer.nbBuffer_lt
      have hmlen : (read (lengthFraming n) r src (sizes 0)).data.length = m := by
        rw [hdata, List.length_take]
        omega
      rw [drain_of_ok herr]
      simp only [List.length_append, hmlen]
      by_cases hend : toInt32 n ≤ (r.nbTotalRead + m : Nat)
      · rw [decide_eq_true hend] at heof
        cases fuel with
        | zero => simp only [drain, List.length_nil]; omega
        | succ fuel =>
          rw [drain_of_eof heof]
          simp only [List.length_nil]
          omega
      · rw [decide_eq_false hend] at heof
        have hrest := @ih (read (lengthFraming n) r src (sizes 0)).reader
          (read (lengthFraming n) r src (sizes 0)).src (fun i => sizes (i + 1)) heof
          (Or.inr (by rw [htotal]; omega))
        rw [htotal] at hrest
        omega

/-- **From `2 ^ 31` on the body is cut off**: no sequence of reads delivers all of
it. -/
theorem drain_fixed_short (hn : n < 2 ^ 63) (hbig : 2 ^ 31 ≤ n)
    (hlen : n ≤ src.unread.length) (fuel : Nat) :
    ¬ Delivers n.toNat src (drain (lengthFraming n) sizes fuel fresh src) := by
  rintro ⟨-, hdata, -⟩
  have hshort : fresh.nbTotalRead + (drain (lengthFraming n) sizes fuel fresh src).data.length <
      n.toNat := drain_fixed_rest_short hn hbig fuel rfl (Or.inl rfl)
  rw [hdata, List.length_take] at hshort
  simp only [fresh] at hshort
  omega

/-- **Bodies of a given length.**  Whatever the fragmentation and the read sizes,
reading to the end delivers exactly the `n` bytes of the body and leaves the
stream behind them, if and only if the length fits an `int`. -/
theorem drain_fixed_iff (hn0 : 0 ≤ n) (hn : n < 2 ^ 63) (hs : src.skt.Healthy)
    (hlen : n ≤ src.unread.length) (hpos : ∀ i, 0 < sizes i) :
    (∃ fuel, Delivers n.toNat src (drain (lengthFraming n) sizes fuel fresh src)) ↔
      n < 2 ^ 31 := by
  constructor
  · rintro ⟨fuel, h⟩
    by_contra hc
    exact drain_fixed_short hn (by omega) hlen fuel h
  · exact fun h => drain_fixed_delivers hn0 h hs hlen hpos

/-- Five bytes of a body, of which two are buffered, read with `srs_ioutil_read_all`. -/
theorem drain_fixed_iff_hello :
    ∃ src : Source, src.unread = str "helloGET /" ∧
      ((∃ fuel, Delivers 5 src (srsIoutilReadAll (lengthFraming 5) fuel fresh src)) ↔
        (5 : Int) < 2 ^ 31) := by
  refine ⟨⟨SrsFastStream.mk0.fill (str "he"), [.data (str "llo"), .data (str "GET /")]⟩, by decide, ?_⟩
  exact drain_fixed_iff (by decide) (by decide) (by simp) (by decide) (fun _ => by decide)

/-- A body of `2 ^ 31` bytes is not delivered, although all of it arrives. -/
theorem drain_fixed_two_gib :
    ∃ src : Source, src.skt.Healthy ∧ src.unread.length = 2 ^ 31 ∧
      ¬ ∃ fuel, Delivers (2 ^ 31) src (srsIoutilReadAll (lengthFraming (2 ^ 31)) fuel fresh src) := by
  -- the length is kept abstract, so that the body is not written out
  obtain ⟨k, hk⟩ : ∃ k : Nat, k = 2 ^ 31 := ⟨_, rfl⟩
  have hlen : (Source.mk SrsFastStream.mk0 [.data (List.replicate k 0)]).unread.length = k := by
    simp [Source.unread, SrsFastStream.unread, SrsFastStream.mk0]
  refine ⟨⟨SrsFastStream.mk0, [.data (List.replicate k 0)]⟩, by simp, hlen.trans hk, ?_⟩
  rintro ⟨fuel, h⟩
  exact drain_fixed_short (n := 2 ^ 31) (by decide) (by decide) (by rw [hlen, hk]; decide) fuel h

end SrsHttpResponseReader

end HttpProxy
