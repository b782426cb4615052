import HttpProxy.App.Proxy

/-!
# Plain HTTP or HTTPS

`check_http_or_https` (`src/app/srs_app_http_conn.cpp`, lines 521-545) compares a buffer of eight
bytes on the stack with `CONNECT`.  `peek` fills as many bytes of it as the first segment has, and
the others are what the stack held before.

* `checkHttpOrHttpsIn_eq` — what is compared: the front of the stream, and the memory behind it.
* `classified_iff` — when the comparison is one of the first seven bytes of the stream.
-/

namespace HttpProxy

/-! ## The comparison -/

/-- `CONNECT`, whatever the case of the letters. -/
def IsConnect (bs : Bytes) : Prop := bs.map tolower = str "connect"

instance (bs : Bytes) : Decidable (IsConnect bs) := by
  unfold IsConnect
  infer_instance

/-- Seven bytes and a NUL are compared byte by byte. -/
theorem strcasecmpEq_connect {w : Bytes} (hw : w.length = 7) :
    strcasecmpEq (w ++ [0]) (str "CONNECT" ++ [0]) = decide (IsConnect w) := by
  have hright : (cString (str "CONNECT" ++ [0])).map tolower = str "connect" := by decide
  unfold strcasecmpEq
  rw [hright]
  refine decide_eq_decide.2 ⟨fun h => ?_, fun h => ?_⟩
  · -- a string of seven bytes has no NUL in front of the last byte
    have hlen : (cString (w ++ [0])).length = 7 := by
      have := congrArg List.length h
      rw [List.length_map] at this
      exact this
    have hprefix : cString (w ++ [0]) <+: w ++ [0] := List.takeWhile_prefix _
    have heq : cString (w ++ [0]) = w := by
      rw [List.prefix_iff_eq_take.1 hprefix, hlen, ← hw, List.take_left]
    rwa [heq] at h
  · have hnul : ∀ b ∈ w, b ≠ 0 := by
      rintro b hb rfl
      have hmem := List.mem_map_of_mem (f := tolower) hb
      rw [show w.map tolower = str "connect" from h] at hmem
      exact absurd hmem (by decide)
    have heq : cString (w ++ [0]) = w := by
      unfold cString
      rw [List.takeWhile_append_of_pos fun b hb => by simpa using hnul b hb]
      simp
    rwa [heq]

namespace SrsHttpxProxyConn

variable {c : SrsHttpxProxyConn} {memory buf : Bytes}

/-- What is peeked is the front of the stream. -/
theorem peek_ok {s : Socket} {size : Nat} (h : peek s size = .ok buf) :
    buf.length ≤ size ∧ buf <+: s.pending := by
  induction s with
  | nil => simp [peek] at h
  | cons ev s ih =>
    cases ev with
    | error e => simp [peek] at h
    | data bs =>
      unfold peek at h
      rw [Socket.pending_data]
      split_ifs at h with hnil
      · rw [hnil, List.nil_append]
        exact ih h
      · obtain rfl := Except.ok.inj h
        exact ⟨List.length_take_le _ _, (List.take_prefix _ _).trans (List.prefix_append _ _)⟩

/-- The seven bytes that are compared: what was peeked, and what the memory held behind it. -/
theorem compared_eq (hmem : memory.length = 8) (hbuf : buf.length ≤ 8) :
    (buf ++ memory.drop buf.length).set 7 0 = (buf ++ memory.drop buf.length).take 7 ++ [0] := by
  have hlen : (buf ++ memory.drop buf.length).length = 8 := by
    rw [List.length_append, List.length_drop]
    omega
  rw [List.set_eq_take_append_cons_drop, if_pos (by omega),
    List.drop_of_length_le (i := 7 + 1) (by rw [hlen])]

/-- The bytes from `k` to the seventh continue `CONNECT`. -/
def Continues (bs : Bytes) (k : Nat) : Prop := ((bs.take 7).drop k).map tolower = (str "connect").drop k

/-- The first `k` bytes start it. -/
def Starts (bs : Bytes) (k : Nat) : Prop := (bs.take k).map tolower = (str "connect").take k

/-- A comparison of seven bytes is one of the first and one of the rest. -/
theorem isConnect_iff {bs : Bytes} {k : Nat} (hk : k ≤ 7) :
    IsConnect (bs.take 7) ↔ Starts bs k ∧ Continues bs k := by
  have htake : (bs.take 7).take k = bs.take k := by rw [List.take_take, Nat.min_eq_left hk]
  unfold IsConnect Starts Continues
  rw [← htake]
  constructor
  · intro h
    exact ⟨by rw [List.map_take, h], by rw [List.map_drop, h]⟩
  · rintro ⟨h1, h2⟩
    rw [← List.take_append_drop k (bs.take 7), List.map_append, h1, h2, List.take_append_drop]

/-- When the first segment decides: it has seven bytes, or it does not start `CONNECT`, or the memory
behind it continues `CONNECT` exactly if the stream does. -/
def Decided (memory stream : Bytes) (k : Nat) : Prop :=
  7 ≤ k ∨ ¬ Starts stream k ∨ (Continues memory k ↔ Continues stream k)

/-- The result of the comparison. -/
theorem checkHttpOrHttpsIn_eq (hmem : memory.length = 8) (hpeek : peek c.cltSkt.skt 8 = .ok buf) :
    checkHttpOrHttpsIn memory c =
      .ok (decide (IsConnect ((buf ++ memory.drop buf.length).take 7))) := by
  have hbuf := (peek_ok hpeek).1
  have hlen : ((buf ++ memory.drop buf.length).take 7).length = 7 := by
    rw [List.length_take, List.length_append, List.length_drop]
    omega
  unfold checkHttpOrHttpsIn
  rw [hpeek]
  simp only
  rw [compared_eq hmem hbuf, strcasecmpEq_connect hlen]

/-- **Classification.**  For every stream, whatever its first segment and whatever the buffer held
before, the connection is taken for HTTPS exactly if the first seven bytes of the stream are
`CONNECT`, if and only if the first segment decides; then `process_requests` takes the branch that
belongs to the stream. -/
theorem classified_iff (hmem : memory.length = 8) (hpeek : peek c.cltSkt.skt 8 = .ok buf) :
    (checkHttpOrHttpsIn memory c = .ok (decide (IsConnect (c.cltSkt.skt.pending.take 7))) ↔
        Decided memory c.cltSkt.skt.pending buf.length) ∧
      (Decided memory c.cltSkt.skt.pending buf.length → ∀ cfg fuel, processRequestsIn memory cfg fuel c =
        if IsConnect (c.cltSkt.skt.pending.take 7) then processHttpsConnection cfg fuel c
        else processHttpConnection cfg fuel c) := by
  obtain ⟨hbuf, stream, hstream⟩ := peek_ok hpeek
  have hk : c.cltSkt.skt.pending.take buf.length = buf := by rw [← hstream, List.take_left]
  have hiff : checkHttpOrHttpsIn memory c = .ok (decide (IsConnect (c.cltSkt.skt.pending.take 7))) ↔
      Decided memory c.cltSkt.skt.pending buf.length := by
    rw [checkHttpOrHttpsIn_eq hmem hpeek, Except.ok.injEq, decide_eq_decide]
    rcases Nat.lt_or_ge buf.length 7 with hshort | hlong
    · -- the memory takes the place of the bytes that have not come
      have hstarts : Starts (buf ++ memory.drop buf.length) buf.length ↔
          Starts c.cltSkt.skt.pending buf.length := by
        unfold Starts
        rw [List.take_left, hk]
      have hcontinues : Continues (buf ++ memory.drop buf.length) buf.length ↔
          Continues memory buf.length := by
        unfold Continues
        rw [List.drop_take, List.drop_left, List.drop_take]
      rw [isConnect_iff hshort.le, isConnect_iff hshort.le, hstarts, hcontinues]
      unfold Decided
      rw [or_iff_right (by omega : ¬ 7 ≤ buf.length)]
      tauto
    · have heq : (buf ++ memory.drop buf.length).take 7 = c.cltSkt.skt.pending.take 7 := by
        rw [← hstream, List.take_append_of_le_length hlong, List.take_append_of_le_length hlong]
      rw [heq]
      exact ⟨fun _ => Or.inl hlong, fun _ => Iff.rfl⟩
  refine ⟨hiff, fun hdecided cfg fuel => ?_⟩
  unfold processRequestsIn
  rw [hiff.2 hdecided]
  by_cases hconnect : IsConnect (c.cltSkt.skt.pending.take 7)
  · simp only [hconnect, decide_true, if_true]
  · simp only [hconnect, decide_false, if_false]

/-- A client that sends `CONNECT`, in one segment or in two. -/
def connectClient (segments : List Bytes) : SrsHttpxProxyConn :=
  init ⟨segments.map .data, ⟨[], []⟩⟩ [] [] (.error .socketTimeout) (.error .socketTimeout)

/-- In one segment. -/
theorem classified_iff_connect :
    checkHttpOrHttpsIn (List.replicate 8 0) (connectClient [str "CONNECT a:443 HTTP/1.1"]) = .ok true := by
  have h := (@classified_iff (connectClient [str "CONNECT a:443 HTTP/1.1"]) (List.replicate 8 0)
    (str "CONNECT ") (by decide) (by decide)).1.2 (Or.inl (by decide))
  rw [h]
  decide

/-- The same stream in two segments is taken for plain HTTP. -/
theorem connect_in_two_segments :
    (connectClient [str "CON", str "NECT a:443 HTTP/1.1"]).cltSkt.skt.pending =
        (connectClient [str "CONNECT a:443 HTTP/1.1"]).cltSkt.skt.pending ∧
      IsConnect ((connectClient [str "CON", str "NECT a:443 HTTP/1.1"]).cltSkt.skt.pending.take 7) ∧
      checkHttpOrHttpsIn (List.replicate 8 0) (connectClient [str "CON", str "NECT a:443 HTTP/1.1"]) =
        .ok false ∧
      checkHttpOrHttpsIn (List.replicate 8 0) (connectClient [str "CONNECT a:443 HTTP/1.1"]) = .ok true := by
  decide

end SrsHttpxProxyConn

end HttpProxy
