import HttpProxy.Stream.Sink

/-!
# Writing many pieces: `srs_write_large_iovs`

`src/protocol/srs_protocol_utility.cpp`, lines 65-100, on the two transports: `SrsStSocket`
(`src/protocol/srs_protocol_st.cpp`, lines 512-542), whose `writev` assigns the number of written bytes, and
`SrsSslConnection` (`src/app/srs_app_conn.cpp`, lines 789-832), whose `writev` adds to it.

* `ReadWriter`, `stSocket`, `sslConnection` — the transports.
* `srsWriteLargeIovs` — all pieces at once, or in batches.
* `WritesAll` — what a transport without errors does; `writeBatches_writes` — what the loop does on it.
* `srsWriteLargeIovs_iff` — when the number that is reported is the number of bytes.
-/

namespace HttpProxy

/-! ## Transports -/

/-- `ISrsProtocolReadWriter`, as far as it writes: the pieces and `nwrite`, `none` for NULL. -/
structure ReadWriter (σ : Type) where
  writev : List Bytes → Option Int → σ → Option SrsError × Option Int × σ
  /-- What has been written. -/
  sent : σ → Bytes

/-- `SrsStSocket::writev`.  A write of no bytes returns 0, which is an error. -/
def stSocket : ReadWriter Sink where
  writev iov nwrite skt :=
    if iov.flatten = [] then (some .socketWrite, nwrite.map fun _ => 0, skt)
    else
      match skt.write iov.flatten with
      | (some e, skt') => (some e, nwrite.map fun _ => -1, skt')
      | (none, skt') => (none, nwrite.map fun _ => (iov.flatten.length : Int), skt')
  sent := Sink.sent

/-- `ERROR_HTTPS_WRITE`. -/
def ERROR_HTTPS_WRITE : Nat := 4044

/-- How an `SSL_write` ends, and the write of its record: `n + 1` bytes at most are taken and sent, or
taken and not sent, or not even taken. -/
inductive SslEvent
  | took (n : Nat)
  | lost (n : Nat) (e : SrsError)
  | failed
  deriving DecidableEq, Repr

/-- The writing side of a TLS connection.  When no more events are listed, every `SSL_write` takes all
of its bytes. -/
structure SslConnection where
  sent : Bytes
  future : List SslEvent
  deriving DecidableEq, Repr

namespace SslConnection

/-- The loop of `SrsSslConnection::write`.  Every turn takes a byte, so the number of bytes is enough
for the first argument. -/
def write : Nat → Bytes → Option Int → SslConnection → Option SrsError × Option Int × SslConnection
  | 0, _, nwrite, s => (none, nwrite, s)
  | fuel + 1, p, nwrite, s =>
      if p = [] then (none, nwrite, s)
      else
        match s.future with
        | [] => (none, nwrite.map (· + (p.length : Int)), { s with sent := s.sent ++ p })
        | .took n :: es =>
            let r0 := min (n + 1) p.length
            write fuel (p.drop r0) (nwrite.map (· + (r0 : Int))) ⟨s.sent ++ p.take r0, es⟩
        | .lost n e :: es => (some e, nwrite.map (· + ((min (n + 1) p.length : Nat) : Int)),
          { s with future := es })
        | .failed :: es => (some (.other ERROR_HTTPS_WRITE), nwrite, { s with future := es })

/-- The loop of `SrsSslConnection::writev`. -/
def writev : List Bytes → Option Int → SslConnection → Option SrsError × Option Int × SslConnection
  | [], nwrite, s => (none, nwrite, s)
  | p :: iov, nwrite, s =>
      match write p.length p nwrite s with
      | (some e, r) => (some e, r)
      | (none, nwrite', s') => writev iov nwrite' s'

/-- A connection on which no write fails. -/
def Reliable (s : SslConnection) : Prop := ∀ ev ∈ s.future, ∃ n, ev = .took n

end SslConnection

/-- `SrsSslConnection`. -/
def sslConnection : ReadWriter SslConnection where
  writev := SslConnection.writev
  sent := SslConnection.sent

/-! ## Many pieces -/

variable {σ : Type} (rw : ReadWriter σ) (limits : Nat)

/-- The loop over the batches, with the `nwrite` that it carries on.  The number of pieces is enough for
the first argument. -/
def writeBatches : Nat → List Bytes → Int → Option Int → σ → Option SrsError × Option Int × σ
  | 0, _, _, pnwrite, skt => (none, pnwrite, skt)
  | fuel + 1, iovs, nwrite, pnwrite, skt =>
      if iovs = [] then (none, pnwrite, skt)
      else
        match rw.writev (iovs.take limits) (some nwrite) skt with
        | (some e, _, skt') => (some e, pnwrite, skt')
        | (none, nwrite', skt') =>
            let n := nwrite'.getD nwrite
            writeBatches fuel (iovs.drop limits) n (pnwrite.map (· + n)) skt'

/-- `srs_write_large_iovs`, where `limits` is the largest number of pieces of one `writev`. -/
def srsWriteLargeIovs (iovs : List Bytes) (pnwrite : Option Int) (skt : σ) :
    Option SrsError × Option Int × σ :=
  if iovs.length ≤ limits then rw.writev iovs pnwrite skt
  else writeBatches rw limits iovs.length iovs 0 pnwrite skt

/-- The batches of the loop. -/
def batches : Nat → List Bytes → List (List Bytes)
  | 0, _ => []
  | fuel + 1, iovs => if iovs = [] then [] else iovs.take limits :: batches fuel (iovs.drop limits)

/-- Every batch has a byte: all pieces at once, or each batch of the loop. -/
def Batched (iovs : List Bytes) : Prop :=
  if iovs.length ≤ limits then iovs.flatten ≠ [] else ∀ b ∈ batches limits iovs.length iovs, b.flatten ≠ []

instance (iovs : List Bytes) : Decidable (Batched limits iovs) :=
  inferInstanceAs (Decidable (if iovs.length ≤ limits then iovs.flatten ≠ [] else
    ∀ b ∈ batches limits iovs.length iovs, b.flatten ≠ []))

/-- The count is the number of bytes, and these are what was written. -/
structure Reported (iovs : List Bytes) (skt : σ) : Prop where
  err : (srsWriteLargeIovs rw limits iovs (some 0) skt).1 = none
  sent : rw.sent (srsWriteLargeIovs rw limits iovs (some 0) skt).2.2 = rw.sent skt ++ iovs.flatten
  count : (srsWriteLargeIovs rw limits iovs (some 0) skt).2.1 = some (iovs.flatten.length : Int)

/-! ## Transports without errors -/

/-- In states with `ok`, the transport writes what it gets, and adds the number of bytes to `nwrite` or
assigns it. -/
structure WritesAll (rw : ReadWriter σ) (ok : σ → Prop) (adds : Bool) : Prop where
  writev : ∀ iov nwrite skt, ok skt → iov.flatten ≠ [] → ∃ skt', ok skt' ∧
    rw.sent skt' = rw.sent skt ++ iov.flatten ∧
    rw.writev iov (some nwrite) skt =
      (none, some ((if adds then nwrite else 0) + (iov.flatten.length : Int)), skt')

theorem stSocket_writes : WritesAll stSocket Sink.Reliable false := by
  refine ⟨fun iov nwrite skt hs hne => ?_⟩
  obtain ⟨skt', hwrite, hsent, hs'⟩ := Sink.write_of_reliable hs iov.flatten
  refine ⟨skt', hs', hsent, ?_⟩
  simp only [stSocket, if_neg hne, hwrite, Option.map_some, Bool.false_eq_true, if_false, zero_add]

namespace SslConnection

theorem write_reliable {fuel : Nat} (p : Bytes) {s : SslConnection} (hs : s.Reliable)
    (hfuel : p.length ≤ fuel)
    (nwrite : Int) : ∃ s' : SslConnection, s'.Reliable ∧ s'.sent = s.sent ++ p ∧
      write fuel p (some nwrite) s = (none, some (nwrite + p.length), s') := by
  induction fuel generalizing p s nwrite with
  | zero =>
    obtain rfl : p = [] := List.eq_nil_of_length_eq_zero (by omega)
    exact ⟨s, hs, by simp, by simp [write]⟩
  | succ fuel ih =>
    rw [write]
    by_cases hp : p = []
    · subst hp
      exact ⟨s, hs, by simp, by simp⟩
    rw [if_neg hp]
    cases hf : s.future with
    | nil => exact ⟨⟨s.sent ++ p, []⟩, by simp [Reliable], rfl, by simp⟩
    | cons ev es =>
      obtain ⟨n, rfl⟩ := hs ev (by rw [hf]; exact List.mem_cons_self ..)
      have hpos := List.length_pos_of_ne_nil hp
      obtain ⟨s', hs', hsent, hwrite⟩ := ih (p.drop (min (n + 1) p.length))
        (s := ⟨s.sent ++ p.take (min (n + 1) p.length), es⟩)
        (fun ev hev => hs ev (by rw [hf]; exact List.mem_cons_of_mem _ hev))
        (by rw [List.length_drop]; omega) (nwrite + (min (n + 1) p.length : Nat))
      refine ⟨s', hs', ?_, ?_⟩
      · rw [hsent, List.append_assoc, List.take_append_drop]
      · simp only [Option.map_some]
        rw [hwrite, List.length_drop]
        congr 3
        omega

theorem writev_reliable (iov : List Bytes) {s : SslConnection} (hs : s.Reliable) (nwrite : Int) :
    ∃ s' : SslConnection, s'.Reliable ∧ s'.sent = s.sent ++ iov.flatten ∧
      writev iov (some nwrite) s = (none, some (nwrite + iov.flatten.length), s') := by
  induction iov generalizing s nwrite with
  | nil => exact ⟨s, hs, by simp, by simp [writev]⟩
  | cons p iov ih =>
    obtain ⟨s₁, hs₁, hsent₁, hwrite₁⟩ := write_reliable p hs (Nat.le_refl _) nwrite
    obtain ⟨s₂, hs₂, hsent₂, hwrite₂⟩ := ih hs₁ (nwrite + p.length)
    refine ⟨s₂, hs₂, ?_, ?_⟩
    · rw [hsent₂, hsent₁, List.flatten_cons, List.append_assoc]
    · rw [writev, hwrite₁]
      simp only
      rw [hwrite₂, List.flatten_cons, List.length_append]
      congr 3
      omega

end SslConnection

theorem sslConnection_writes : WritesAll sslConnection SslConnection.Reliable true := by
  refine ⟨fun iov nwrite skt hs _ => ?_⟩
  obtain ⟨skt', hs', hsent, hwrite⟩ := SslConnection.writev_reliable iov hs nwrite
  exact ⟨skt', hs', hsent, hwrite⟩

/-! ## What the loop counts -/

/-- The sum of what is stored through `nwrite` after the batches. -/
def counted (adds : Bool) : List (List Bytes) → Int → Int
  | [], _ => 0
  | b :: bs, nwrite =>
      (if adds then nwrite else 0) + (b.flatten.length : Int) +
        counted adds bs ((if adds then nwrite else 0) + (b.flatten.length : Int))

variable {rw limits}

/-- The batches are the list. -/
theorem batches_flatten (hlimits : 0 < limits) {fuel : Nat} {iovs : List Bytes} (hfuel : iovs.length ≤ fuel) :
    (batches limits fuel iovs).flatten = iovs := by
  induction fuel generalizing iovs with
  | zero => exact (List.eq_nil_of_length_eq_zero (by omega)).symm
  | succ fuel ih =>
    rw [batches]
    split_ifs with h
    · exact h.symm
    · have hpos := List.length_pos_of_ne_nil h
      rw [List.flatten_cons, ih (by rw [List.length_drop]; omega), List.take_append_drop]

theorem writeBatches_writes {ok : σ → Prop} {adds : Bool} (hw : WritesAll rw ok adds)
    (hlimits : 0 < limits) {fuel : Nat}
    (iovs : List Bytes) (hfuel : iovs.length ≤ fuel) (hb : ∀ b ∈ batches limits fuel iovs, b.flatten ≠ [])
    (nwrite pnwrite : Int) {skt : σ} (hs : ok skt) :
    ∃ skt', rw.sent skt' = rw.sent skt ++ iovs.flatten ∧
      writeBatches rw limits fuel iovs nwrite (some pnwrite) skt =
      (none, some (pnwrite + counted adds (batches limits fuel iovs) nwrite), skt') := by
  induction fuel generalizing iovs nwrite pnwrite skt with
  | zero =>
    obtain rfl : iovs = [] := List.eq_nil_of_length_eq_zero (by omega)
    exact ⟨skt, by simp, by simp [writeBatches, batches, counted]⟩
  | succ fuel ih =>
    rw [writeBatches]
    rw [batches] at hb ⊢
    by_cases h : iovs = []
    · subst h
      exact ⟨skt, by simp, by simp [counted]⟩
    rw [if_neg h] at hb ⊢
    rw [if_neg h]
    have hpos := List.length_pos_of_ne_nil h
    obtain ⟨skt₁, hs₁, hsent₁, hwrite₁⟩ :=
      hw.writev (iovs.take limits) nwrite skt hs (hb _ (List.mem_cons_self ..))
    obtain ⟨skt₂, hsent₂, hwrite₂⟩ := ih (iovs.drop limits) (by rw [List.length_drop]; omega)
      (fun b hmem => hb b (List.mem_cons_of_mem _ hmem))
      ((if adds then nwrite else 0) + ((iovs.take limits).flatten.length : Int))
      (pnwrite + ((if adds then nwrite else 0) + ((iovs.take limits).flatten.length : Int))) hs₁
    refine ⟨skt₂, ?_, ?_⟩
    · rw [hsent₂, hsent₁, List.append_assoc, ← List.flatten_append, List.take_append_drop]
    · rw [hwrite₁]
      simp only [Option.getD_some, Option.map_some]
      rw [hwrite₂, counted, Int.add_assoc]

/-- A count that is assigned is the number of bytes. -/
theorem counted_assigned (bs : List (List Bytes)) (nwrite : Int) :
    counted false bs nwrite = (bs.flatten.flatten.length : Int) := by
  induction bs generalizing nwrite with
  | nil => rfl
  | cons b bs ih =>
    rw [counted, ih, List.flatten_cons, List.flatten_append, List.length_append]
    simp only [Bool.false_eq_true, if_false]
    omega

/-- A count that is added to counts what came before once more in every batch. -/
theorem counted_added (bs : List (List Bytes)) (nwrite : Int) (h : 0 ≤ nwrite) :
    (bs.flatten.flatten.length : Int) + nwrite * bs.length ≤ counted true bs nwrite := by
  induction bs generalizing nwrite with
  | nil => simp [counted]
  | cons b bs ih =>
    have hrest := ih (nwrite + (b.flatten.length : Int)) (by omega)
    have hmore : 0 ≤ (b.flatten.length : Int) * bs.length := by positivity
    have hsplit : (nwrite + (b.flatten.length : Int)) * bs.length =
        nwrite * bs.length + (b.flatten.length : Int) * bs.length := Int.add_mul ..
    rw [counted, List.flatten_cons, List.flatten_append, List.length_append]
    simp only [if_true, List.length_cons]
    push_cast
    rw [mul_add, mul_one]
    omega

/-- All pieces at once. -/
theorem reported_once {ok : σ → Prop} {adds : Bool} (hw : WritesAll rw ok adds) {iovs : List Bytes}
    (hlen : iovs.length ≤ limits) (hne : iovs.flatten ≠ []) {skt : σ} (hs : ok skt) :
      Reported rw limits iovs skt := by
  obtain ⟨skt', -, hsent, hwrite⟩ := hw.writev iovs 0 skt hs hne
  have hcall : srsWriteLargeIovs rw limits iovs (some 0) skt =
    (none, some (iovs.flatten.length : Int), skt') := by
    rw [srsWriteLargeIovs, if_pos hlen, hwrite]
    simp
  exact ⟨by rw [hcall], by rw [hcall]; exact hsent, by rw [hcall]⟩

/-- The pieces in batches: they are written, and counted batch by batch. -/
theorem srsWriteLargeIovs_batches {ok : σ → Prop} {adds : Bool} (hw : WritesAll rw ok adds)
    (hlimits : 0 < limits)
    {iovs : List Bytes} (hlen : ¬ iovs.length ≤ limits)
      (hb : ∀ b ∈ batches limits iovs.length iovs, b.flatten ≠ [])
    {skt : σ} (hs : ok skt) : ∃ skt', rw.sent skt' = rw.sent skt ++ iovs.flatten ∧
      srsWriteLargeIovs rw limits iovs (some 0) skt =
        (none, some (counted adds (batches limits iovs.length iovs) 0), skt') := by
  obtain ⟨skt', hsent, hwrite⟩ := writeBatches_writes hw hlimits iovs (Nat.le_refl iovs.length) hb 0 0 hs
  refine ⟨skt', hsent, ?_⟩
  rw [srsWriteLargeIovs, if_neg hlen, hwrite, Int.zero_add]

/-- The first batch of several, and what is behind it. -/
theorem batches_two (hlimits : 0 < limits) {iovs : List Bytes} (hlen : ¬ iovs.length ≤ limits) :
    ∃ b b' bs, batches limits iovs.length iovs = b :: b' :: bs := by
  obtain ⟨n, hn⟩ : ∃ n, iovs.length = n + 2 := ⟨iovs.length - 2, by omega⟩
  have hne : iovs ≠ [] := List.ne_nil_of_length_pos (by omega)
  have hne' : iovs.drop limits ≠ [] := List.ne_nil_of_length_pos (by rw [List.length_drop]; omega)
  rw [hn, batches, if_neg hne, batches, if_neg hne']
  exact ⟨_, _, _, rfl⟩

/-- **The count is true** on an `SrsStSocket` for every list, and on an `SrsSslConnection` if and only if the
list is written at once.  What is written is the list. -/
theorem srsWriteLargeIovs_iff (hlimits : 0 < limits) {iovs : List Bytes} (hb : Batched limits iovs) :
    (∀ skt : Sink, skt.Reliable → Reported stSocket limits iovs skt) ∧
      ∀ skt : SslConnection, skt.Reliable →
        (Reported sslConnection limits iovs skt ↔ iovs.length ≤ limits) := by
  by_cases hlen : iovs.length ≤ limits
  · rw [Batched, if_pos hlen] at hb
    exact ⟨fun skt hs => reported_once stSocket_writes hlen hb hs,
      fun skt hs => iff_of_true (reported_once sslConnection_writes hlen hb hs) hlen⟩
  · rw [Batched, if_neg hlen] at hb
    have hflat : (batches limits iovs.length iovs).flatten = iovs := batches_flatten hlimits (Nat.le_refl _)
    refine ⟨fun skt hs => ?_, fun skt hs => iff_of_false ?_ hlen⟩
    · obtain ⟨skt', hsent, hcall⟩ := srsWriteLargeIovs_batches stSocket_writes hlimits hlen hb hs
      rw [counted_assigned, hflat] at hcall
      exact ⟨by rw [hcall], by rw [hcall]; exact hsent, by rw [hcall]⟩
    · rintro ⟨-, -, hcount⟩
      obtain ⟨skt', -, hcall⟩ := srsWriteLargeIovs_batches sslConnection_writes hlimits hlen hb hs
      obtain ⟨b, b', bs, hbatches⟩ := batches_two hlimits hlen
      have hpos := List.length_pos_of_ne_nil (hb b (by rw [hbatches]; exact List.mem_cons_self ..))
      -- the first batch is counted again with the second
      have hle := counted_added (b' :: bs) (b.flatten.length : Int) (by omega)
      have hmore : (b.flatten.length : Int) ≤ b.flatten.length * (b' :: bs).length := by
        rw [List.length_cons]
        push_cast
        nlinarith
      rw [hcall, Option.some.injEq, hbatches, counted] at hcount
      rw [hbatches] at hflat
      have htotal := congrArg (fun l => l.flatten.length) hflat
      simp only [List.flatten_cons, List.flatten_append, List.length_append] at htotal hle
      simp only [if_true, Int.zero_add] at hcount
      omega

/-- Three bytes in pieces of one, two pieces at a time. -/
theorem srsWriteLargeIovs_iff_abc :
    (∀ skt : Sink, skt.Reliable → Reported stSocket 2 [str "a", str "b", str "c"] skt) ∧
      ∀ skt : SslConnection, skt.Reliable →
        (Reported sslConnection 2 [str "a", str "b", str "c"] skt ↔
          [str "a", str "b", str "c"].length ≤ 2) :=
  srsWriteLargeIovs_iff (by decide) (by decide)

/-- Two pieces, one at a time over TLS: two bytes are sent, and three are counted. -/
theorem srsWriteLargeIovs_not_reported :
    (∀ b ∈ batches 1 2 [str "a", str "b"], b.flatten ≠ []) ∧ SslConnection.Reliable ⟨[], []⟩ ∧
      srsWriteLargeIovs sslConnection 1 [str "a", str "b"] (some 0) ⟨[], []⟩ =
        (none, some 3, ⟨str "ab", []⟩) ∧
      ¬ Reported sslConnection 1 [str "a", str "b"] ⟨[], []⟩ := by
  have hcall : srsWriteLargeIovs sslConnection 1 [str "a", str "b"] (some 0) ⟨[], []⟩ =
      (none, some 3, ⟨str "ab", []⟩) := by decide
  refine ⟨by decide, by simp [SslConnection.Reliable], hcall, ?_⟩
  rintro ⟨-, -, hcount⟩
  rw [hcall] at hcount
  exact absurd hcount (by decide)

end HttpProxy
