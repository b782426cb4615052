import HttpProxy.App.Truncation
import HttpProxy.Body.Completeness
import HttpProxy.Body.Progress

/-!
# A response that is relayed to its end

The relay of a body ends normally exactly when its reader comes to the end of the body, and then
the client has received what was read.

* `hands_of_relayLoop`, `relayResponse_ends_iff` — a relay that ends has read the whole body.
* `relayResponse_wire`, `relay_eq` — what is written, and where the server is left.
* `DrainsTo` — a body and what lies behind it; `drainsTo_length`, `drainsTo_chunked_iff`.
-/

namespace HttpProxy

open SrsHttpResponseReader SrsHttpParser

/-! ## The loop over the parts -/

section Loop

variable {ρ : Type} {read : BodyRead ρ} {m : BodyFraming} {checked : Bool} {I : ρ → Prop}

/-- A part is made of pieces that the reader hands out, up to the end of the body when it is
the last one. -/
theorem hands_of_part (hread : ReadsIn read I fun e => e = .httpResponseEof ∨ isBodyEnd e = false)
    {size fuel : Nat} {content : Bytes} {r : ρ} {part : Part ρ} (hr : I r)
    (h : srsIoutilReadPart read size fuel content r = some part) (herr : part.err = none) :
    (part.finish = true → ∃ ds, Hands read ds r part.reader) ∧
      (part.finish = false → ∀ ds r', Hands read ds part.reader r' → ∃ ds', Hands read ds' r r') := by
  induction fuel generalizing content r with
  | zero => simp [srsIoutilReadPart] at h
  | succ fuel ih =>
    have hkeep := hread.keeps r hr
    have hend := hread.err r hr
    have hsize := hread.size r hr
    unfold srsIoutilReadPart at h
    split at h
    · rename_i e bs r₁ heq
      rw [heq] at hend
      obtain rfl := Option.some.inj h
      refine ⟨fun _ => ⟨[], bs, ?_⟩, fun hfin => by simp at hfin⟩
      rcases hend e rfl with rfl | hplain
      · exact heq
      · simp [hplain] at herr
    · rename_i bs r₁ heq
      rw [heq] at hkeep hsize
      split_ifs at h with hfull
      · obtain rfl := Option.some.inj h
        exact ⟨fun hfin => by simp at hfin, fun _ ds r' hds => ⟨bs :: ds, hsize, r₁, heq, hds⟩⟩
      · obtain ⟨hlast, hmore⟩ := ih hkeep h
        refine ⟨fun hfin => ?_, fun hfin ds r' hds => ?_⟩
        · obtain ⟨ds, hds⟩ := hlast hfin
          exact ⟨bs :: ds, hsize, r₁, heq, hds⟩
        · obtain ⟨ds', hds'⟩ := hmore hfin ds r' hds
          exact ⟨bs :: ds', hsize, r₁, heq, hds'⟩

/-- The loop ends only when the reader has handed out the body and its end. -/
theorem hands_of_relayLoop (hread : ReadsIn read I fun e => e = .httpResponseEof ∨ isBodyEnd e = false)
    {reads fuel : Nat} {r : ρ} {out : Sink} (hr : I r)
    (h : (relayLoop read m checked reads fuel r out).exit = none) :
    ∃ ds, Hands read ds r (relayLoop read m checked reads fuel r out).reader := by
  induction fuel generalizing r out with
  | zero => simp [relayLoop] at h
  | succ fuel ih =>
    cases hpart : srsIoutilReadPart read 4096 reads [] r with
    | none =>
      unfold relayLoop at h
      simp [hpart] at h
    | some part =>
      obtain ⟨hr', hends⟩ := srsIoutilReadPart_cases hread hr (by simp) hpart
      rcases hends with ⟨herr, hfin, hnone, -, -⟩ | ⟨e, -, hfin, hend, herr⟩
      · rcases @relayLoop_full ρ read m checked reads fuel r out part hpart hfin hnone herr with
          ⟨e, heq⟩ | ⟨out', heq⟩
        · rw [heq] at h
          simp at h
        · rw [heq] at h ⊢
          obtain ⟨ds, hds⟩ := ih hr' h
          exact (hands_of_part hread hr hpart herr).2 hfin ds _ hds
      · obtain ⟨-, hreader, -⟩ :=
          @relayLoop_last ρ read m checked reads fuel r out part e hpart hfin hend herr
        have hnone : part.err = none := by
          by_contra hne
          obtain ⟨e', he'⟩ := Option.ne_none_iff_exists'.1 hne
          unfold relayLoop at h
          simp [hpart, he'] at h
        rw [hreader]
        exact (hands_of_part hread hr hpart hnone).1 hfin

end Loop

namespace SrsHttpxProxyConn

variable {m : SrsHttpMessage} {fuel : Nat} {r r' : SrsHttpResponseReader × Source} {ds : List Bytes}

/-- The reads of a body with pieces of the size of the cache. -/
abbrev cached : Nat → Nat := fun _ => SRS_HTTP_READ_CACHE_BYTES

/-- What is read until the end of the body is handed out in pieces. -/
theorem hands_of_drain (h : (drain m.framing cached fuel r.1 r.2).stop = some .httpResponseEof) :
    ∃ ds, ds.length < fuel ∧ ds.flatten = (drain m.framing cached fuel r.1 r.2).data ∧
      Hands (bodyRead m) ds r
        ((drain m.framing cached fuel r.1 r.2).reader, (drain m.framing cached fuel r.1 r.2).src) := by
  induction fuel generalizing r with
  | zero => simp [drain] at h
  | succ fuel ih =>
    cases herr : (SrsHttpResponseReader.read m.framing r.1 r.2 (cached 0)).err with
    | some e =>
      rw [drain_of_error herr] at h ⊢
      obtain rfl := Option.some.inj h
      refine ⟨[], Nat.succ_pos fuel, rfl, (SrsHttpResponseReader.read m.framing r.1 r.2 (cached 0)).data, ?_⟩
      show (_, _, _) = _
      rw [← herr]
    | none =>
      rw [drain_of_ok herr] at h ⊢
      obtain ⟨ds, hlen, hflat, hds⟩ :=
        ih (r := ((SrsHttpResponseReader.read m.framing r.1 r.2 (cached 0)).reader,
        (SrsHttpResponseReader.read m.framing r.1 r.2 (cached 0)).src)) h
      refine ⟨(SrsHttpResponseReader.read m.framing r.1 r.2 (cached 0)).data :: ds,
        by simpa using hlen, by rw [List.flatten_cons, hflat], read_data_le, _, ?_, hds⟩
      show (_, _, _) = _
      rw [← herr]

/-- What a read of a body returns, in its parts. -/
theorem bodyRead_parts {res : Option SrsError × Bytes × SrsHttpResponseReader × Source}
    (h : bodyRead m r = res) :
    (SrsHttpResponseReader.read m.framing r.1 r.2 (cached 0)).err = res.1 ∧
      (SrsHttpResponseReader.read m.framing r.1 r.2 (cached 0)).data = res.2.1 ∧
      (SrsHttpResponseReader.read m.framing r.1 r.2 (cached 0)).reader = res.2.2.1 ∧
      (SrsHttpResponseReader.read m.framing r.1 r.2 (cached 0)).src = res.2.2.2 := by
  subst h
  exact ⟨rfl, rfl, rfl, rfl⟩

/-- And the other way round. -/
theorem drain_of_hands (h : Hands (bodyRead m) ds r r') :
    drain m.framing cached (ds.length + 1) r.1 r.2 = ⟨some .httpResponseEof, ds.flatten, r'.1, r'.2⟩ := by
  induction ds generalizing r with
  | nil =>
    obtain ⟨bs, hread⟩ := h
    obtain ⟨herr, -, hreader, hsrc⟩ := bodyRead_parts hread
    rw [List.length_nil, drain_of_error herr, hreader, hsrc]
    rfl
  | cons d ds ih =>
    obtain ⟨-, r₁, hread, hrest⟩ := h
    obtain ⟨herr, hdata, hreader, hsrc⟩ := bodyRead_parts hread
    rw [List.length_cons, drain_of_ok herr, hdata, hreader, hsrc, ih hrest]
    rfl

variable {src : Source} {out : Sink} {c : SrsHttpxProxyConn} {p : Path}

/-- A body that comes to its end is relayed, and the reader stays behind it. -/
theorem relayResponse_wire (hb : hasBody m = true) (hbody : m.body = .fresh) (hout : out.Reliable)
    (h : (drain m.framing cached fuel .fresh src).stop = some .httpResponseEof) :
    (relayResponse p m src out).exit = none ∧
      (relayResponse p m src out).reader.2 = (drain m.framing cached fuel .fresh src).src ∧
      (relayResponse p m src out).out.Reliable ∧
      ∃ wire, m.framing.Carries wire (drain m.framing cached fuel .fresh src).data ∧
        (relayResponse p m src out).writes.flatten = wire ∧
        (relayResponse p m src out).out.sent = out.sent ++ wire := by
  have hcases : m.chunked = true ∨ 0 < m.contentLength := by simpa [hasBody] using hb
  -- the loop has as much fuel as the reads can take
  have henough : drain m.framing cached (src.unread.length + 2) .fresh src =
      drain m.framing cached fuel .fresh src :=
    drain_eq_of_stops (framed_of_hasBody hb) (by rw [h]; simp) (by omega)
  rw [← henough] at h ⊢
  obtain ⟨ds, hlen, hflat, hds⟩ := hands_of_drain (m := m) (r := (.fresh, src)) h
  obtain ⟨hexit, hreader, hrel, hwire⟩ := @relayLoop_wire _ (bodyRead m) m.framing
    (decide (p = .http)) ds _ _ hds (src.unread.length + 3) (src.unread.length + 3)
    (by omega) (by omega) out hout hcases
  unfold relayResponse relayBody
  rw [if_pos hb, hbody, ← hflat]
  exact ⟨hexit, by rw [hreader], hrel, hwire⟩

/-- The relay of a body ends exactly if the body does. -/
theorem relayResponse_ends_iff (hb : hasBody m = true) (hbody : m.body = .fresh)
    (hs : src.skt.Healthy) (hout : out.Reliable) :
    (relayResponse p m src out).exit = none ↔
      ∃ fuel, (drain m.framing cached fuel .fresh src).stop = some .httpResponseEof := by
  constructor
  · intro h
    unfold relayResponse relayBody at h
    rw [if_pos hb, hbody] at h
    have hplain : src.skt.Fails Plain := fun e he => by
      obtain ⟨bs, hbs⟩ := hs _ he
      cases hbs
    obtain ⟨ds, hds⟩ := hands_of_relayLoop (bodyRead_readsIn m)
      (r := ((.fresh, src) : SrsHttpResponseReader × Source)) hplain h
    exact ⟨_, by rw [drain_of_hands hds]⟩
  · rintro ⟨fuel, h⟩
    exact (relayResponse_wire hb hbody hout h).1

/-- What `relay` does, with the header in front of the body. -/
theorem relay_eq (m : SrsHttpMessage) (hout : (c.client p).out.Reliable) :
    ∃ out : Sink, out.Reliable ∧ out.sent = (c.client p).out.sent ++ m.rawHeader ∧
      ((relay p m c).1 = .ok () ↔ (relayResponse p m (c.serverSource p) out).exit = none) ∧
      ((relay p m c).2.client p).out = (relayResponse p m (c.serverSource p) out).out ∧
      ((p = .http → c.dest? ≠ none) →
        (relay p m c).2.serverSource p = (relayResponse p m (c.serverSource p) out).reader.2) ∧
      (relay p m c).2.trace = c.trace ++
        [.relay m (m.rawHeader :: (relayResponse p m (c.serverSource p) out).writes)
          (relayResponse p m (c.serverSource p) out).stop] := by
  obtain ⟨out, hwrite, hsent, hrel⟩ := @writeEach_of_reliable false _ hout [m.rawHeader]
  have hclient : ((c.toClient p [m.rawHeader]).client p).out = out := by
    rw [toClient, setClient_client, hwrite]
  have hserver : (c.toClient p [m.rawHeader]).serverSource p = c.serverSource p := by cases p <;> rfl
  refine ⟨out, hrel, by simpa using hsent, ?_, ?_, ?_, ?_⟩
  · unfold relay
    simp only [hclient, hserver]
    cases (relayResponse p m (c.serverSource p) out).exit <;> simp
  · unfold relay
    simp only [hclient, hserver]
    cases p <;> rfl
  · intro hconn
    unfold relay
    simp only [hclient, hserver]
    have h := (c.toClient p [m.rawHeader]).setServerSource_serverSource p
      (relayResponse p m (c.serverSource p) out).reader.2 (fun hp => by simpa using hconn hp)
    cases p <;> exact h
  · unfold relay
    simp only [hclient, hserver]
    simp

/-! ## Bodies on the wire -/

theorem carries_chunked (hm : m.chunked = true) {wire b : Bytes} :
    m.framing.Carries wire b ↔ ChunkedBody wire b := by
  rw [BodyFraming.Carries, if_pos (show m.framing.chunked = true from hm)]

theorem carries_length (hm : m.chunked = false) {wire b : Bytes} :
    m.framing.Carries wire b ↔ wire = b := by
  rw [BodyFraming.Carries, if_neg (show ¬ m.framing.chunked = true by simp [SrsHttpMessage.framing, hm])]

/-- The reader comes to the end of the body, has delivered `data`, and leaves `T`. -/
def DrainsTo (m : SrsHttpMessage) (src : Source) (data T : Bytes) : Prop :=
  ∃ fuel, (drain m.framing cached fuel .fresh src).stop = some .httpResponseEof ∧
    (drain m.framing cached fuel .fresh src).data = data ∧
    (drain m.framing cached fuel .fresh src).src.unread = T

/-- A body of a length that fits an `int` is drained. -/
theorem drainsTo_length (hm : m.chunked = false) {n : Nat} (hn : m.contentLength = n) (hlt : n < 2 ^ 31)
    (hs : src.skt.Healthy) (hlen : n ≤ src.unread.length) :
    DrainsTo m src (src.unread.take n) (src.unread.drop n) := by
  have hframing : m.framing = lengthFraming n := by rw [SrsHttpMessage.framing, hm, hn]; rfl
  obtain ⟨fuel, hstop, hdata, hrest⟩ := drain_fixed_delivers (n := n) (by omega) (by omega) hs (by omega)
    (fun _ => (by decide : 0 < SRS_HTTP_READ_CACHE_BYTES) : ∀ i, 0 < cached i)
  rw [← hframing] at hstop hdata hrest
  exact ⟨fuel, hstop, by simpa using hdata, by simpa using hrest⟩

/-- The end of the body is reported only when all of it has come. -/
theorem drain_fixed_ends {sizes : Nat → Nat} {fuel : Nat} {n : Int} {r : SrsHttpResponseReader}
    (hn : n < 2 ^ 31) (hs : src.skt.Healthy) (he : r.isEof = false)
    (ht : (r.nbTotalRead : Int) ≤ n)
    (h : (drain (lengthFraming n) sizes fuel r src).stop = some .httpResponseEof) :
    n.toNat - r.nbTotalRead ≤ src.unread.length := by
  induction fuel generalizing r src sizes with
  | zero => simp [drain] at h
  | succ fuel ih =>
    by_cases hdone : (r.nbTotalRead : Int) = n
    · omega
    · have ht' : (r.nbTotalRead : Int) < n := by omega
      cases herr : (SrsHttpResponseReader.read (lengthFraming n) r src (sizes 0)).err with
      | some e =>
        rw [drain_of_error herr] at h
        rw [read_fixed (by omega) he ht'] at herr
        exact absurd (Option.some.inj h) (readSpecified_error hs herr)
      | none =>
        obtain ⟨m, hm0, hm, -, -, hmle, htook, htotal, heof⟩ := read_fixed_ok (by omega) he ht' herr
        rw [toInt32_eq_self (by omega) hn] at heof
        by_cases hlast : r.nbTotalRead + m = n.toNat
        · omega
        · rw [drain_of_ok herr] at h
          have hrest := ih (htook.healthy hs) (by rw [heof]; exact decide_eq_false (by omega))
            (by rw [htotal]; omega) h
          rw [htotal, htook.unread_drop, List.length_drop] at hrest
          omega

/-- A chunked body is drained exactly if the decoder takes it. -/
theorem drainsTo_chunked_iff (hm : m.chunked = true) (hs : src.skt.Healthy)
    (hbuf : src.buffer.nbBuffer = SRS_DEFAULT_RECV_BUFFER_SIZE) {data T : Bytes} :
    DrainsTo m src data T ↔ Decodes SRS_DEFAULT_RECV_BUFFER_SIZE src.unread data T := by
  rw [← hbuf]
  exact drain_iff_decodes hm hs (fun _ => (by decide : 0 < SRS_HTTP_READ_CACHE_BYTES))
    (by rw [hbuf]; decide)

end SrsHttpxProxyConn

end HttpProxy
