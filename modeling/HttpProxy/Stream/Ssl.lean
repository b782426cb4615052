import HttpProxy.Bytes.CLib
import HttpProxy.Stream.Iovs

/-!
# Reading and writing through TLS

`SrsSslConnection` (`src/app/srs_app_conn.cpp`, lines 723-832) and `SrsSslClient` (lines 976-1068), whose
`read` and `write` are the same, between a transport and the library, which works on two buffers in
memory.  The library is a parameter: what it does with a call is documented, how it does it is not in this
repository.

* `Ssl`, `Opens`, `Seals` — the library, and what is documented of it.
* `reads_refine` — reading through TLS is reading a socket that has the plaintext.
* `writev_refines` — writing through TLS is writing to the connection of `SslConnection`.
* `tls_round_trip` — what one side writes is what the other side reads.
-/

namespace HttpProxy

/-- `ERROR_HTTPS_READ`. -/
def ERROR_HTTPS_READ : Nat := 4043

/-- What `SSL_read` returns, with `SSL_get_error`. -/
inductive SslRead
  /-- A positive number of bytes. -/
  | data (bs : Bytes)
  /-- `-1` and `SSL_ERROR_WANT_READ`. -/
  | wantRead
  | failed
  deriving DecidableEq, Repr

/-- The library on the object `ssl` and its buffers `bio_in` and `bio_out`. -/
structure Ssl (σ : Type) where
  /-- `SSL_read`, with the size of the buffer. -/
  sslRead : σ → Int → SslRead × σ
  /-- `SSL_write`, with the bytes from the pointer on and the number of bytes to take. -/
  sslWrite : σ → Bytes → Int → Int × σ
  /-- `BIO_write(bio_in, …)`. -/
  bioWrite : σ → Bytes → Int × σ
  /-- `BIO_get_mem_data(bio_out, …)`. -/
  memData : σ → Bytes
  /-- `BIO_reset(bio_out)`. -/
  bioReset : σ → Int × σ

/-- `SrsSslConnection`, and `SrsSslClient`: the two directions of the transport, and the library. -/
structure SrsSslConnection (σ : Type) where
  transport : Socket
  out : Sink
  ssl : σ

namespace SrsSslConnection

variable {σ : Type} (E : Ssl σ)

/-- The loop of `read`.  Every turn but the last takes a byte off the transport, so that the number of
these is enough for the first argument. -/
def readLoop (size : Nat) : Nat → SrsSslConnection σ → Except SrsError Bytes × SrsSslConnection σ
  | 0, s => (.error (.other ERROR_HTTPS_READ), s)
  | fuel + 1, s =>
      match E.sslRead s.ssl (toInt32 size) with
      | (.data bs, ssl) => (.ok bs, { s with ssl := ssl })
      | (.wantRead, ssl) =>
          -- as many bytes of cipher as there is room for plaintext; a negative number is not allocated
          if toInt32 size < 0 then (.error .noReturn, { s with ssl := ssl })
          else match s.transport.read (toSize (toInt32 size)) with
          | (.error e, transport) => (.error e, { s with transport := transport, ssl := ssl })
          | (.ok cipher, transport) =>
              match E.bioWrite ssl cipher with
              | (r0, ssl) =>
                  if r0 ≤ 0 then
                    (.error (.other ERROR_HTTPS_READ), { s with transport := transport, ssl := ssl })
                  else readLoop size fuel { s with transport := transport, ssl := ssl }
      | (.failed, ssl) => (.error (.other ERROR_HTTPS_READ), { s with ssl := ssl })

/-- `read`. -/
def read (s : SrsSslConnection σ) (size : Nat) : Except SrsError Bytes × SrsSslConnection σ :=
  readLoop E size (s.transport.pending.length + 1) s

/-- What the reads of the given sizes return. -/
def reads : List Nat → SrsSslConnection σ → List (Except SrsError Bytes)
  | [], _ => []
  | size :: sizes, s => (s.read E size).1 :: reads sizes (s.read E size).2

/-- The loop of `write`.  Every turn takes a byte of the plaintext. -/
def writeLoop : Nat → Bytes → Option Int → SrsSslConnection σ →
    Option SrsError × Option Int × SrsSslConnection σ
  | 0, _, nwrite, s => (none, nwrite, s)
  | fuel + 1, p, nwrite, s =>
      if p = [] then (none, nwrite, s)
      else
        -- `left` is the rest of `(int)nn_plaintext`, that is, `(int)` of what is left
        match E.sslWrite s.ssl p (toInt32 p.length) with
        | (r0, ssl) =>
            if r0 ≤ 0 then (some (.other ERROR_HTTPS_WRITE), nwrite, { s with ssl := ssl })
            else
              match s.out.write (E.memData ssl) with
              | (some e, out) => (some e, nwrite.map (· + r0), { s with out := out, ssl := ssl })
              | (none, out) =>
                  match E.bioReset ssl with
                  | (r, ssl) =>
                      if r = 1 then
                        writeLoop fuel (p.drop r0.toNat) (nwrite.map (· + r0))
                          { s with out := out, ssl := ssl }
                      else (some (.other ERROR_HTTPS_WRITE), nwrite.map (· + r0),
                        { s with out := out, ssl := ssl })

/-- The loop of `writev`. -/
def writev : List Bytes → Option Int → SrsSslConnection σ →
    Option SrsError × Option Int × SrsSslConnection σ
  | [], nwrite, s => (none, nwrite, s)
  | p :: iov, nwrite, s =>
      match writeLoop E p.length p nwrite s with
      | (some e, r) => (some e, r)
      | (none, nwrite', s') => writev iov nwrite' s'

end SrsSslConnection

/-- What the reads of the given sizes return. -/
def Socket.reads : List Nat → Socket → List (Except SrsError Bytes)
  | [], _ => []
  | size :: sizes, s => (s.read size).1 :: Socket.reads sizes (s.read size).2

/-! ## What is documented of the library -/

section Library

variable {σ : Type}

/-- The reading side, on the stream `wire`: `opened` is the plaintext of the records that are complete.
`SSL_read` delivers it in order, and wants more when there is none; `BIO_write` takes all that it gets. -/
structure Opens (E : Ssl σ) (opened : Bytes → Bytes) (fed : σ → Bytes) (taken : σ → Nat) (wire : Bytes) :
    Prop where
  mono : ∀ a b, a <+: b → b <+: wire → opened a <+: opened b
  data : ∀ s (size : Nat), fed s <+: wire → 0 < size → taken s < (opened (fed s)).length →
    ∃ bs s', E.sslRead s size = (.data bs, s') ∧ bs ≠ [] ∧ bs.length ≤ size ∧
      bs <+: (opened (fed s)).drop (taken s) ∧ fed s' = fed s ∧ taken s' = taken s + bs.length
  wantRead : ∀ s (size : Nat), fed s <+: wire → 0 < size → (opened (fed s)).length ≤ taken s →
    ∃ s', E.sslRead s size = (.wantRead, s') ∧ fed s' = fed s ∧ taken s' = taken s
  bioWrite : ∀ s cipher, cipher ≠ [] →
    ∃ s', E.bioWrite s cipher = ((cipher.length : Int), s') ∧ fed s' = fed s ++ cipher ∧
      taken s' = taken s

/-- The writing side: `sealed` is all that `SSL_write` has ever put into `bio_out`.  A call takes some of
the plaintext and puts a record behind it, or takes none; it refuses to take no bytes. -/
structure Seals (E : Ssl σ) (opened : Bytes → Bytes) (sealed : σ → Bytes) : Prop where
  write : ∀ s p num, 0 < num → num ≤ (p.length : Int) → ∃ r0 s', E.sslWrite s p num = (r0, s') ∧ r0 ≤ num ∧
    ∃ record, E.memData s' = E.memData s ++ record ∧ sealed s' = sealed s ++ record ∧
      (0 < r0 → opened (sealed s') = opened (sealed s) ++ p.take r0.toNat)
  refuse : ∀ s p num, num ≤ 0 → (E.sslWrite s p num).1 ≤ 0
  reset : ∀ s, ∃ s', E.bioReset s = (1, s') ∧ E.memData s' = [] ∧ sealed s' = sealed s

end Library

/-! ## A library without keys -/

/-- The buffers of a library whose records are the plaintext. -/
structure NullSsl where
  bioIn : Bytes
  taken : Nat
  bioOut : Bytes
  sealed : Bytes

/-- A library without keys; a record has four bytes at most. -/
def nullSsl : Ssl NullSsl where
  sslRead s size :=
    if s.bioIn.drop s.taken = [] then (.wantRead, s)
    else (.data ((s.bioIn.drop s.taken).take size.toNat),
      { s with taken := s.taken + ((s.bioIn.drop s.taken).take size.toNat).length })
  sslWrite s p num :=
    (((p.take (min 4 num.toNat)).length : Int),
      { s with bioOut := s.bioOut ++ p.take (min 4 num.toNat), sealed := s.sealed ++ p.take (min 4 num.toNat) })
  bioWrite s cipher := ((cipher.length : Int), { s with bioIn := s.bioIn ++ cipher })
  memData := NullSsl.bioOut
  bioReset s := (1, { s with bioOut := [] })

theorem opens_nullSsl (wire : Bytes) : Opens nullSsl id NullSsl.bioIn NullSsl.taken wire := by
  refine ⟨fun a b h _ => h, fun s size _ hsize hlt => ?_, fun s size _ _ hge => ?_, fun s cipher _ => ?_⟩
  · have hne : s.bioIn.drop s.taken ≠ [] := by
      rw [Ne, List.drop_eq_nil_iff]
      exact not_le.2 hlt
    refine ⟨_, _, if_neg hne, ?_, List.length_take_le _ _, List.take_prefix _ _, rfl, rfl⟩
    rw [Ne, List.take_eq_nil_iff, Int.toNat_natCast]
    exact not_or.2 ⟨by omega, hne⟩
  · exact ⟨s, if_pos (List.drop_eq_nil_of_le hge), rfl, rfl⟩
  · exact ⟨_, rfl, rfl, rfl⟩

theorem seals_nullSsl : Seals nullSsl id NullSsl.sealed := by
  refine ⟨fun s p num hpos _ => ⟨_, _, rfl, ?_, p.take (min 4 num.toNat), rfl, rfl, fun _ => ?_⟩,
    fun s p num hnum => ?_, fun s => ⟨_, rfl, rfl, rfl⟩⟩
  · rw [List.length_take]
    omega
  · rw [Int.toNat_natCast, List.length_take, List.take_eq_take_iff.2 (show min (min 4 num.toNat) p.length =
      min (min (min 4 num.toNat) p.length) p.length by omega)]
    rfl
  · show (((p.take (min 4 num.toNat)).length : Nat) : Int) ≤ 0
    rw [List.length_take]
    omega

/-! ## Reading -/

namespace Socket

/-- A healthy socket with nothing left is closed for good. -/
theorem reads_of_drained {u : Socket} (hu : u.Healthy) (hp : u.pending = []) (sizes : List Nat) :
    u.reads sizes = sizes.map fun _ => .error .socketRead := by
  induction sizes generalizing u with
  | nil => rfl
  | cons size sizes ih =>
    have hread := read_of_drained hu hp size
    have herror : u.read size = (.error .socketRead, (u.read size).2) := Prod.ext hread rfl
    have hrest : (u.read size).2.pending = [] := by rw [read_error herror, hp]
    rw [reads, hread, ih (healthy_read hu size) hrest]
    rfl

end Socket

namespace SrsSslConnection

section Read

variable {σ : Type} {E : Ssl σ} {opened : Bytes → Bytes} {fed : σ → Bytes} {taken : σ → Nat}
  {wire : Bytes} {s : SrsSslConnection σ} {size : Nat}

/-- The connection is in the stream `wire`: some of it has been given to the library, the rest is to
come. -/
structure In (opened : Bytes → Bytes) (fed : σ → Bytes) (taken : σ → Nat) (wire : Bytes)
    (s : SrsSslConnection σ) : Prop where
  wire : fed s.ssl ++ s.transport.pending = wire
  taken : taken s.ssl ≤ (opened (fed s.ssl)).length

/-- What is still to be read. -/
def plain (opened : Bytes → Bytes) (taken : σ → Nat) (wire : Bytes) (s : SrsSslConnection σ) : Bytes :=
  (opened wire).drop (taken s.ssl)

theorem In.fed_prefix (h : In opened fed taken wire s) : fed s.ssl <+: wire := ⟨_, h.wire⟩

/-- How a read ends: with bytes from the front of the plaintext, or with an error that takes nothing. -/
def Ends (opened : Bytes → Bytes) (fed : σ → Bytes) (taken : σ → Nat) (wire : Bytes) (size : Nat)
    (s : SrsSslConnection σ) (r : Except SrsError Bytes × SrsSslConnection σ) : Prop :=
  In opened fed taken wire r.2 ∧ (s.transport.Healthy → r.2.transport.Healthy) ∧
    ((∃ bs, r.1 = .ok bs ∧ bs ≠ [] ∧ bs.length ≤ size ∧
        plain opened taken wire s = bs ++ plain opened taken wire r.2) ∨
      ∃ e, r.1 = .error e ∧ plain opened taken wire r.2 = plain opened taken wire s ∧
        (s.transport.Healthy → e = .socketRead ∧ plain opened taken wire s = []))

/-- **The loop of `read`.** -/
theorem readLoop_ends (hE : Opens E opened fed taken wire) (hin : In opened fed taken wire s)
    (hsize : 0 < size) (hmax : size < 2 ^ 31) {fuel : Nat} (hfuel : s.transport.pending.length < fuel) :
    Ends opened fed taken wire size s (readLoop E size fuel s) := by
  have hcast : toInt32 (size : Int) = size := toInt32_eq_self (by omega) (by omega)
  have hnat : toSize (size : Int) = size := by
    rw [toSize]
    omega
  -- every turn but the last takes bytes off the transport
  induction fuel generalizing s with
  | zero => exact absurd hfuel (Nat.not_lt_zero _)
  | succ fuel ih =>
    rw [readLoop, hcast]
    rcases Nat.lt_or_ge (taken s.ssl) (opened (fed s.ssl)).length with hlt | hge
    · obtain ⟨bs, ssl, hread, hne, hle, ⟨y, hy⟩, hfed, htaken⟩ := hE.data s.ssl size hin.fed_prefix hsize hlt
      rw [hread]
      have hlen : taken s.ssl + bs.length ≤ (opened (fed s.ssl)).length := by
        have := congrArg List.length hy
        rw [List.length_append, List.length_drop] at this
        omega
      refine ⟨⟨by rw [hfed]; exact hin.wire, by rw [hfed, htaken]; exact hlen⟩, fun h => h,
        .inl ⟨bs, rfl, hne, hle, ?_⟩⟩
      obtain ⟨x, hx⟩ := hE.mono _ _ hin.fed_prefix (List.prefix_refl wire)
      simp only [plain, htaken, ← List.drop_drop]
      rw [← hx, List.drop_append_of_le_length hin.taken, ← hy, List.append_assoc, List.drop_left]
    · obtain ⟨ssl, hread, hfed, htaken⟩ := hE.wantRead s.ssl size hin.fed_prefix hsize hge
      simp only [hread, hnat, if_neg (show ¬ (size : Int) < 0 by omega)]
      cases ht : s.transport.read size with
      | mk res transport =>
        cases res with
        | error e =>
          have hpending := Socket.read_error ht
          refine ⟨⟨?_, by rw [hfed, htaken]; exact hin.taken⟩, fun h => ?_,
            .inr ⟨e, rfl, ?_, fun h => ?_⟩⟩
          · simp only [hfed, hpending]
            exact hin.wire
          · have := Socket.healthy_read h size
            rwa [ht] at this
          · simp only [plain, htaken]
          · -- a healthy transport fails at its end
            have hnil : s.transport.pending = [] := by
              by_contra hne
              obtain ⟨bs, s', hok⟩ := Socket.read_of_healthy h hne hsize
              rw [ht] at hok
              cases hok
            have hwire := hin.wire
            rw [hnil, List.append_nil] at hwire
            rw [hwire] at hge
            exact ⟨Socket.read_error_of_healthy h ht, List.drop_eq_nil_of_le hge⟩
        | ok cipher =>
          obtain ⟨hne, -, hpending⟩ := Socket.read_ok ht
          obtain ⟨ssl', hwrite, hfed', htaken'⟩ := hE.bioWrite ssl cipher hne
          have hpos := List.length_pos_of_ne_nil hne
          have hlen := congrArg List.length hpending
          rw [List.length_append] at hlen
          have hwire : fed ssl' ++ transport.pending = wire := by
            rw [hfed', hfed, List.append_assoc, ← hpending]
            exact hin.wire
          have hin' : In opened fed taken wire { s with transport := transport, ssl := ssl' } := by
            refine ⟨hwire, ?_⟩
            obtain ⟨x, hx⟩ := hE.mono (fed s.ssl) (fed ssl') ⟨cipher, by rw [hfed', hfed]⟩ ⟨_, hwire⟩
            have := hin.taken
            rw [htaken', htaken, ← hx, List.length_append]
            omega
          simp only [hwrite, if_neg (show ¬ (cipher.length : Int) ≤ 0 by omega)]
          have hhealthy : s.transport.Healthy → transport.Healthy := fun h => by
            have := Socket.healthy_read h size
            rwa [ht] at this
          obtain ⟨h1, h2, h3⟩ := ih hin' (by simp only; omega)
          have hsame : plain opened taken wire { s with transport := transport, ssl := ssl' } =
              plain opened taken wire s := by
            simp only [plain, htaken', htaken]
          rw [hsame] at h3
          refine ⟨h1, fun h => h2 (hhealthy h), ?_⟩
          rcases h3 with h3 | ⟨e, he, hp, hend⟩
          · exact .inl h3
          · exact .inr ⟨e, he, hp, fun h => hend (hhealthy h)⟩

/-- **Reading through TLS is reading a socket.**  For every way in which the bytes of the stream arrive,
with errors in between, and for all sizes, there is a socket with the plaintext that is still to be
read, on which reads of these sizes return the same; it is healthy if the transport is. -/
theorem reads_refine (hE : Opens E opened fed taken wire) (hin : In opened fed taken wire s)
    {sizes : List Nat} (hsizes : ∀ n ∈ sizes, 0 < n ∧ n < 2 ^ 31) :
    ∃ u : Socket, u.pending = plain opened taken wire s ∧ u.reads sizes = s.reads E sizes ∧
      (s.transport.Healthy → u.Healthy) := by
  induction sizes generalizing s with
  | nil => exact ⟨[.data (plain opened taken wire s)], by simp, rfl, fun _ => by simp⟩
  | cons size sizes ih =>
    obtain ⟨hsize, hmax⟩ := hsizes size List.mem_cons_self
    obtain ⟨hin', hhealthy, hends⟩ := readLoop_ends hE hin hsize hmax
      (Nat.lt_succ_self s.transport.pending.length)
    obtain ⟨u, hpending, hreads, hu⟩ := ih hin' fun n hn => hsizes n (List.mem_cons_of_mem _ hn)
    rcases hends with ⟨bs, hok, hne, hle, hplain⟩ | ⟨e, herr, hplain, hend⟩
    · refine ⟨.data bs :: u, ?_, ?_, fun h => Socket.healthy_data.2 (hu (hhealthy h))⟩
      · rw [Socket.pending_data, hpending, hplain]
      · have hread : Socket.read (.data bs :: u) size = (.ok bs, u) := by
          rw [Socket.read, if_neg (by omega), if_neg hne, List.take_of_length_le hle, if_pos hle]
        rw [Socket.reads, hread, reads, hreads]
        exact congrArg (· :: _) hok.symm
    · by_cases hs : s.transport.Healthy
      · obtain ⟨rfl, hnil⟩ := hend hs
        have hdrained : u.pending = [] := by rw [hpending]; exact hplain.trans hnil
        have hu' := hu (hhealthy hs)
        refine ⟨u, by rw [hdrained, hnil], ?_, fun _ => hu'⟩
        rw [Socket.reads_of_drained hu' hdrained] at hreads ⊢
        rw [reads, ← show _ = reads E sizes (s.read E size).2 from hreads]
        exact congrArg (· :: _) herr.symm
      · refine ⟨.error e :: u, ?_, ?_, fun h => absurd h hs⟩
        · rw [Socket.pending_error, hpending]
          exact hplain
        · rw [Socket.reads, Socket.read, reads, hreads]
          exact congrArg (· :: _) herr.symm

end Read

/-- The word arrives in two pieces, with a timeout in between. -/
def helloConn : SrsSslConnection NullSsl :=
  ⟨[.data (str "hel"), .error .socketTimeout, .data (str "lo")], ⟨[], []⟩, ⟨[], 0, [], []⟩⟩

theorem reads_refine_hello : ∃ u : Socket, u.pending = str "hello" ∧
    u.reads [2, 2, 2, 9] = helloConn.reads nullSsl [2, 2, 2, 9] := by
  have hsizes : ∀ n ∈ [2, 2, 2, 9], 0 < n ∧ n < 2 ^ 31 := by decide
  obtain ⟨u, hpending, hreads, -⟩ := reads_refine (s := helloConn) (opens_nullSsl (str "hello"))
    ⟨by decide, by decide⟩ hsizes
  exact ⟨u, hpending, hreads⟩

/-! ## Writing -/

end SrsSslConnection

theorem Sink.sent_of_write {s s' : Sink} {bs : Bytes} (h : s.write bs = (none, s')) :
    s'.sent = s.sent ++ bs := by
  unfold Sink.write at h
  split at h <;> cases h <;> rfl

namespace SrsSslConnection

section Write

variable {σ : Type} {E : Ssl σ} {opened : Bytes → Bytes} {sealed : σ → Bytes} {base : Bytes}
  {s : SrsSslConnection σ}

/-- Behind `base`, the records are on the wire in their order; the last ones may still be in
`bio_out`. -/
def Wired (E : Ssl σ) (sealed : σ → Bytes) (base : Bytes) (s : SrsSslConnection σ) : Prop :=
  s.out.sent ++ E.memData s.ssl = base ++ sealed s.ssl

/-- What a write without an error has done. -/
structure Wrote (E : Ssl σ) (opened : Bytes → Bytes) (sealed : σ → Bytes) (p : Bytes)
    (s s' : SrsSslConnection σ) : Prop where
  opened : opened (sealed s'.ssl) = opened (sealed s.ssl) ++ p
  wired : ∀ base, Wired E sealed base s → Wired E sealed base s'
  flushed : p ≠ [] ∨ E.memData s.ssl = [] → E.memData s'.ssl = []
  transport : s'.transport = s.transport

theorem Wrote.refl : Wrote E opened sealed [] s s :=
  ⟨by simp, fun _ h => h, fun h => h.resolve_left fun h => h rfl, rfl⟩

theorem Wrote.trans {p q : Bytes} {s₁ s₂ : SrsSslConnection σ} (h₁ : Wrote E opened sealed p s s₁)
    (h₂ : Wrote E opened sealed q s₁ s₂) : Wrote E opened sealed (p ++ q) s s₂ := by
  refine ⟨?_, fun base h => h₂.wired base (h₁.wired base h), fun h => ?_,
    h₂.transport.trans h₁.transport⟩
  · rw [h₂.opened, h₁.opened, List.append_assoc]
  · by_cases hq : q = []
    · rw [hq, List.append_nil] at h
      exact h₂.flushed (.inr (h₁.flushed h))
    · exact h₂.flushed (.inl hq)

/-- **The loop of `write`** takes the turns of the connection that it stands for. -/
theorem writeLoop_refines (hE : Seals E opened sealed) {fuel : Nat} {p : Bytes} (nwrite : Option Int)
    (hp : p.length ≤ fuel) :
    ∃ evs, ∀ more, ∃ sent,
      SslConnection.write fuel p nwrite ⟨opened (sealed s.ssl), evs ++ more⟩ =
        ((writeLoop E fuel p nwrite s).1, (writeLoop E fuel p nwrite s).2.1, ⟨sent, more⟩) ∧
      ((writeLoop E fuel p nwrite s).1 = none →
        Wrote E opened sealed p s (writeLoop E fuel p nwrite s).2.2 ∧
          sent = opened (sealed (writeLoop E fuel p nwrite s).2.2.ssl)) := by
  -- every turn takes a byte of the plaintext
  induction fuel generalizing p nwrite s with
  | zero =>
    obtain rfl : p = [] := List.eq_nil_of_length_eq_zero (by omega)
    exact ⟨[], fun more => ⟨_, rfl, fun _ => ⟨Wrote.refl, rfl⟩⟩⟩
  | succ fuel ih =>
    by_cases hnil : p = []
    · subst hnil
      refine ⟨[], fun more => ⟨opened (sealed s.ssl), ?_, fun _ => ?_⟩⟩
      · simp only [SslConnection.write, writeLoop, if_true, List.nil_append]
      · simp only [writeLoop, if_true]
        exact ⟨Wrote.refl, trivial⟩
    by_cases hr0 : (E.sslWrite s.ssl p (toInt32 p.length)).1 ≤ 0
    · have hfails : writeLoop E (fuel + 1) p nwrite s = (some (.other ERROR_HTTPS_WRITE), nwrite,
          { s with ssl := (E.sslWrite s.ssl p (toInt32 p.length)).2 }) := by
        rw [writeLoop, if_neg hnil]
        exact if_pos hr0
      rw [hfails]
      refine ⟨[.failed], fun more => ⟨opened (sealed s.ssl), ?_, ?_⟩⟩
      · simp only [SslConnection.write, if_neg hnil, List.singleton_append]
      · intro h
        cases h
    -- a call that takes something was asked for a positive number, which is not more than there is
    have hnum : 0 < toInt32 p.length := by
      by_contra hnum
      exact hr0 (hE.refuse _ _ _ (by omega))
    have hcast := toInt32_le (Int.natCast_nonneg p.length)
    obtain ⟨r0, ssl, hwrite, hle, record, hmem, hsealed, hopened⟩ := hE.write s.ssl p _ hnum hcast
    rw [hwrite] at hr0
    rw [writeLoop, if_neg hnil, hwrite]
    simp only [if_neg hr0]
    obtain ⟨n, rfl⟩ : ∃ n : Nat, r0 = (n + 1 : Nat) := ⟨r0.toNat - 1, by omega⟩
    have hmin : min (n + 1) p.length = n + 1 := by omega
    have hopened := hopened (by omega)
    rw [Int.toNat_natCast] at hopened
    cases hout : s.out.write (E.memData ssl) with
    | mk err out =>
      cases err with
      | some e =>
        refine ⟨[.lost n e], fun more => ⟨opened (sealed s.ssl), ?_, ?_⟩⟩
        · simp only [SslConnection.write, if_neg hnil, List.singleton_append, hmin]
        · intro h
          cases h
      | none =>
        obtain ⟨ssl', hreset, hmem', hsealed'⟩ := hE.reset ssl
        simp only [hreset, if_true, Int.toNat_natCast]
        have hsent := Sink.sent_of_write hout
        have hturn : Wrote E opened sealed (p.take (n + 1)) s { s with out := out, ssl := ssl' } := by
          refine ⟨by simp only [hsealed', hopened], fun base h => ?_, fun _ => hmem', rfl⟩
          unfold Wired at h ⊢
          simp only [hmem', hsealed', hsent, hsealed, hmem, List.append_nil]
          rw [← List.append_assoc, h, List.append_assoc]
        obtain ⟨evs, hevs⟩ := ih (p := p.drop (n + 1)) (s := { s with out := out, ssl := ssl' })
          (nwrite.map (· + ((n + 1 : Nat) : Int))) (by rw [List.length_drop]; omega)
        refine ⟨.took n :: evs, fun more => ?_⟩
        obtain ⟨sent, h1, h2⟩ := hevs more
        refine ⟨sent, ?_, fun hok => ?_⟩
        · rw [List.cons_append, SslConnection.write, if_neg hnil]
          simp only [hmin]
          rw [← hopened, ← hsealed']
          exact h1
        · obtain ⟨hw, hs⟩ := h2 hok
          have := hturn.trans hw
          rw [List.take_append_drop] at this
          exact ⟨this, hs⟩

/-- **Writing through TLS is writing to the connection of `SslConnection`.**  Whatever the library and
the transport do, there is a course of events on which its `writev` returns the same error and the
same count; without an error what it has sent is what the peer can open, and every byte of the
records is on the wire, in order, behind what was there. -/
theorem writev_refines (hE : Seals E opened sealed) (iov : List Bytes) (nwrite : Option Int) :
    ∃ evs sent, SslConnection.writev iov nwrite ⟨opened (sealed s.ssl), evs⟩ =
        ((writev E iov nwrite s).1, (writev E iov nwrite s).2.1, ⟨sent, []⟩) ∧
      ((writev E iov nwrite s).1 = none →
        Wrote E opened sealed iov.flatten s (writev E iov nwrite s).2.2 ∧
          sent = opened (sealed (writev E iov nwrite s).2.2.ssl)) := by
  induction iov generalizing nwrite s with
  | nil => exact ⟨[], _, rfl, fun _ => ⟨Wrote.refl, rfl⟩⟩
  | cons p iov ih =>
    obtain ⟨evs, hevs⟩ := writeLoop_refines (s := s) hE nwrite (le_refl p.length)
    rw [writev]
    cases hloop : writeLoop E p.length p nwrite s with
    | mk err r =>
      rw [hloop] at hevs
      cases err with
      | some e =>
        obtain ⟨sent, h1, -⟩ := hevs []
        rw [List.append_nil] at h1
        refine ⟨evs, sent, by rw [SslConnection.writev, h1], ?_⟩
        intro h
        cases h
      | none =>
        obtain ⟨evs', sent', h1', h2'⟩ := ih (s := r.2) r.1
        obtain ⟨sent, h1, h2⟩ := hevs evs'
        obtain ⟨hw, hs⟩ := h2 rfl
        simp only at h1 hw hs ⊢
        refine ⟨evs ++ evs', sent', ?_, fun hok => ?_⟩
        · rw [SslConnection.writev, h1]
          simp only
          rw [hs]
          exact h1'
        · obtain ⟨hw', hs'⟩ := h2' hok
          rw [List.flatten_cons]
          exact ⟨hw.trans hw', hs'⟩

end Write

/-- A transport that fails with the third record. -/
def failingConn : SrsSslConnection NullSsl :=
  ⟨[], ⟨[], [.ok, .ok, .error 1 .socketWrite]⟩, ⟨[], 0, [], []⟩⟩

/-- One that does not fail. -/
def workingConn : SrsSslConnection NullSsl := ⟨[], ⟨[], []⟩, ⟨[], 0, [], []⟩⟩

/-- Two pieces, on either of them. -/
theorem writev_refines_failing :
    (∃ evs sent, SslConnection.writev [str "hello", str "world"] (some 0) ⟨[], evs⟩ =
      (some .socketWrite, some 9, ⟨sent, []⟩)) ∧
    ∃ evs, SslConnection.writev [str "hello", str "world"] (some 0) ⟨[], evs⟩ =
        (none, some 10, ⟨str "helloworld", []⟩) ∧
      Wrote nullSsl id NullSsl.sealed (str "helloworld") workingConn
        (writev nullSsl [str "hello", str "world"] (some 0) workingConn).2.2 := by
  constructor
  · obtain ⟨evs, sent, h, -⟩ := writev_refines (s := failingConn) seals_nullSsl [str "hello", str "world"]
      (some 0)
    have hrun : (writev nullSsl [str "hello", str "world"] (some 0) failingConn).1 = some .socketWrite ∧
        (writev nullSsl [str "hello", str "world"] (some 0) failingConn).2.1 = some 9 := by decide
    rw [hrun.1, hrun.2] at h
    exact ⟨evs, sent, h⟩
  · obtain ⟨evs, sent, h, hok⟩ := writev_refines (s := workingConn) seals_nullSsl [str "hello", str "world"]
      (some 0)
    have hrun : (writev nullSsl [str "hello", str "world"] (some 0) workingConn).1 = none ∧
        (writev nullSsl [str "hello", str "world"] (some 0) workingConn).2.1 = some 10 := by decide
    obtain ⟨hwrote, rfl⟩ := hok hrun.1
    rw [hrun.1, hrun.2, hwrote.opened] at h
    exact ⟨evs, h, hwrote⟩

/-! ## From one side to the other -/

section RoundTrip

variable {α β : Type} {A : Ssl α} {B : Ssl β} {opened : Bytes → Bytes} {sealed : α → Bytes}
  {fed : β → Bytes} {taken : β → Nat} {base : Bytes} {a a' : SrsSslConnection α} {b : SrsSslConnection β}

/-- **What is written is read.**  If the pieces are written without an error, and the other side gets the
bytes behind `base` in whatever way, then it reads the pieces as it would read them from a socket:
in order, with nothing lost or added, whatever the sizes of its reads are. -/
theorem tls_round_trip {iov : List Bytes} {nwrite nwrite' : Option Int} (hA : Seals A opened sealed)
    (hwired : Wired A sealed base a) (hok : writev A iov nwrite a = (none, nwrite', a'))
    (hne : iov.flatten ≠ []) (hB : Opens B opened fed taken (sealed a'.ssl))
    (hsent : a'.out.sent = base ++ (fed b.ssl ++ b.transport.pending))
    (htaken : taken b.ssl = (opened (sealed a.ssl)).length)
    (hfed : taken b.ssl ≤ (opened (fed b.ssl)).length) {sizes : List Nat}
    (hsizes : ∀ n ∈ sizes, 0 < n ∧ n < 2 ^ 31) :
    ∃ u : Socket, u.pending = iov.flatten ∧ u.reads sizes = b.reads B sizes ∧
      (b.transport.Healthy → u.Healthy) := by
  obtain ⟨evs, sent, -, h⟩ := writev_refines (s := a) hA iov nwrite
  rw [hok] at h
  obtain ⟨hw, -⟩ := h rfl
  have hwire : fed b.ssl ++ b.transport.pending = sealed a'.ssl := by
    have := hw.wired base hwired
    unfold Wired at this
    rw [hw.flushed (.inl hne), List.append_nil, hsent] at this
    exact List.append_cancel_left this
  obtain ⟨u, hpending, hreads, hhealthy⟩ := reads_refine hB ⟨hwire, hfed⟩ hsizes
  refine ⟨u, ?_, hreads, hhealthy⟩
  rw [hpending, plain, hw.opened, htaken, List.drop_left]

end RoundTrip

/-- Behind an answer in the clear the word is sent in two records. -/
def clearConn : SrsSslConnection NullSsl := ⟨[], ⟨str "200", []⟩, ⟨[], 0, [], []⟩⟩

theorem tls_round_trip_hello : ∃ u : Socket, u.pending = str "hello" ∧
    u.reads [2, 2, 2, 9] = helloConn.reads nullSsl [2, 2, 2, 9] := by
  obtain ⟨a', hok, hsent, hsealed⟩ : ∃ a', writev nullSsl [str "he", str "llo"] none clearConn =
      (none, none, a') ∧ a'.out.sent = str "200hello" ∧ a'.ssl.sealed = str "hello" :=
    ⟨_, rfl, by decide, by decide⟩
  have hwired : Wired nullSsl NullSsl.sealed (str "200") clearConn := rfl
  have hsizes : ∀ n ∈ [2, 2, 2, 9], 0 < n ∧ n < 2 ^ 31 := by decide
  obtain ⟨u, hpending, hreads, -⟩ := tls_round_trip (a := clearConn) (b := helloConn) seals_nullSsl
    hwired hok (by decide) (opens_nullSsl _) (by rw [hsent]; decide) rfl (by decide) hsizes
  exact ⟨u, hpending, hreads⟩

end SrsSslConnection

end HttpProxy
