import HttpProxy.Message.Alike
import HttpProxy.Message.Spelling

/-!
# The header of a response is frozen

`write_header` takes the length of the body from the header, and `send_header` sends the header as it is
then, which may be any number of calls later (`src/protocol/srs_protocol_http_conn.cpp`, lines 1103-1158).
The interface says that changing the header after `write_header` or `write` has no effect
(`src/protocol/srs_protocol_http_stack.hpp`, lines 87-90).

* `Says`, `Plans` — the fields of a header that say how the body is encoded, when it is sent and before.
* `Allowed` — the actions that keep the header frozen.
* `Frozen` — what is sent does not depend on late changes, and its fields agree with the body.
* `frozen_of_allowed` — allowed actions keep the header frozen, in every run.
-/

namespace HttpProxy

namespace SrsHttpHeader

/-! ## What a header says -/

/-- A field with the name, in the spelling `key`. -/
def IsField (h : SrsHttpHeader) (name key value : Bytes) : Prop :=
  (key, value) ∈ h.headers.entries ∧ SameName key name

/-- The body has `n` bytes. -/
structure SaysLength (h : SrsHttpHeader) (n : Nat) : Prop where
  present : ∃ key v, h.IsField (str "Content-Length") key v
  length : ∀ key v, h.IsField (str "Content-Length") key v →
    v ≠ [] ∧ (∀ b ∈ v, isDigitIn 10 b = true) ∧ digitsValue 10 v = n
  coding : ∀ key v, ¬ h.IsField (str "Transfer-Encoding") key v

/-- The body is a sequence of chunks. -/
structure SaysChunked (h : SrsHttpHeader) : Prop where
  present : ∃ key, h.IsField (str "Transfer-Encoding") key (str "chunked")
  coding : ∀ key v, h.IsField (str "Transfer-Encoding") key v → v = str "chunked"
  length : ∀ key v, ¬ h.IsField (str "Content-Length") key v

/-- The header agrees with the encoding that a writer with this content length uses. -/
def Says (h : SrsHttpHeader) (contentLength : Int) : Prop :=
  contentLength = -1 ∧ h.SaysChunked ∨ ∃ n : Nat, contentLength = n ∧ h.SaysLength n

/-- The header will agree once `send_header` has completed it: there is no length, and another encoding
only where `chunked` is written over it, or there is a length that a double holds. -/
def Plans (h : SrsHttpHeader) : Prop :=
  h.contentLength = -1 ∧ (∀ key v, ¬ h.IsField (str "Content-Length") key v) ∧
      (∀ key v, h.IsField (str "Transfer-Encoding") key v → key = str "Transfer-Encoding" ∨
        v = str "chunked") ∨
    ∃ n : Nat, n ≤ 2 ^ 53 ∧ h.contentLength = n ∧ h.SaysLength n

variable {h h' : SrsHttpHeader} {name key value : Bytes}

theorem mem_set {e : Bytes × Bytes} : e ∈ (h.set key value).headers.entries ↔
    e = (canonicalKey key, value) ∨ e ∈ h.headers.entries ∧ e.1 ≠ canonicalKey key := by
  obtain ⟨k, v⟩ := e
  rw [← OrdMap.find?_eq_some_iff, ← OrdMap.find?_eq_some_iff]
  show (h.headers.insert (canonicalKey key) value).find? k = some v ↔ _
  by_cases hk : k = canonicalKey key
  · subst hk
    rw [OrdMap.find?_insert_self]
    simp [eq_comm]
  · rw [OrdMap.find?_insert_of_ne _ hk]
    simp [hk]

/-- The two headers have the same fields of the names that tell how the body is encoded. -/
def SameFraming (h h' : SrsHttpHeader) : Prop :=
  ∀ name ∈ [str "Content-Length", str "Transfer-Encoding"], ∀ key v, h.IsField name key v ↔
    h'.IsField name key v

theorem SameFraming.refl (h : SrsHttpHeader) : SameFraming h h := fun _ _ _ _ => Iff.rfl

theorem SameFraming.trans {h'' : SrsHttpHeader} (h₁ : SameFraming h h') (h₂ : SameFraming h' h'') :
    SameFraming h h'' :=
  fun name hname key v => (h₁ name hname key v).trans (h₂ name hname key v)

theorem SameFraming.length (hs : SameFraming h h') (key v : Bytes) :
    h.IsField (str "Content-Length") key v ↔ h'.IsField (str "Content-Length") key v := hs _ (by simp) key v

theorem SameFraming.coding (hs : SameFraming h h') (key v : Bytes) :
    h.IsField (str "Transfer-Encoding") key v ↔ h'.IsField (str "Transfer-Encoding") key v :=
      hs _ (by simp) key v

/-- A field of another name. -/
theorem isField_set (hne : ¬ SameName key name) (k v : Bytes) :
    (h.set key value).IsField name k v ↔ h.IsField name k v := by
  rw [IsField, IsField, mem_set]
  constructor
  · rintro ⟨heq | ⟨hmem, -⟩, hname⟩
    · obtain ⟨rfl, rfl⟩ := Prod.mk.inj heq
      exact absurd ((sameName_canonicalKey key).symm.trans hname) hne
    · exact ⟨hmem, hname⟩
  · rintro ⟨hmem, hname⟩
    refine ⟨.inr ⟨hmem, ?_⟩, hname⟩
    rintro rfl
    exact hne ((sameName_canonicalKey key).symm.trans hname)

theorem sameFraming_set (hne : ∀ name ∈ [str "Content-Length", str "Transfer-Encoding"], ¬ SameName key name)
    (value : Bytes) : SameFraming (h.set key value) h :=
      fun name hname k v => isField_set (hne name hname) k v

/-- The same, if it is set at all. -/
theorem sameFraming_ite (hne : ∀ name ∈ [str "Content-Length", str "Transfer-Encoding"], ¬ SameName key name)
    (value : Bytes) (c : Prop) [Decidable c] : SameFraming (if c then h.set key value else h) h := by
  split_ifs
  · exact sameFraming_set hne value
  · exact .refl h

/-- A field that `send_header` sets where it is missing. -/
theorem sameFraming_default (hne : ∀ name ∈ [str "Content-Length", str "Transfer-Encoding"],
    ¬ SameName key name)
    (value : Bytes) : SameFraming (if h.get key = [] then h.set key value else h) h :=
      sameFraming_ite hne value _

theorem SaysLength.congr {n : Nat} (hs : SameFraming h h') (hsaid : h'.SaysLength n) : h.SaysLength n := by
  obtain ⟨key, v, hfield⟩ := hsaid.present
  exact ⟨⟨key, v, (hs.length key v).2 hfield⟩, fun key v hf => hsaid.length key v ((hs.length key v).1 hf),
    fun key v hf => hsaid.coding key v ((hs.coding key v).1 hf)⟩

/-- What the header plans is declared. -/
theorem Plans.declares (h : h'.Plans) : ∃ d, h'.Declares d := by
  rcases h with ⟨-, hnone, -⟩ | ⟨n, hle, hlen, hsaid⟩
  · refine ⟨none, ?_⟩
    show (h'.headers.find? (str "Content-Length")).getD [] = []
    cases hfind : h'.headers.find? (str "Content-Length") with
    | none => rfl
    | some v => exact absurd ⟨(OrdMap.find?_eq_some_iff _).1 hfind, SameName.refl _⟩ (hnone _ v)
  · have hget : h'.get (str "Content-Length") ≠ [] := by
      intro hnil
      rw [contentLength, if_pos hnil] at hlen
      omega
    cases hfind : h'.headers.find? (str "Content-Length") with
    | none => exact absurd (by rw [get, hfind]; rfl) hget
    | some v =>
      obtain ⟨hne, hdigits, hvalue⟩ :=
        hsaid.length _ v ⟨(OrdMap.find?_eq_some_iff _).1 hfind, SameName.refl _⟩
      exact ⟨some n, v, by rw [get, hfind]; rfl, hne, hdigits, hvalue, hle⟩

end SrsHttpHeader

namespace SrsHttpResponseWriter

open SrsHttpHeader

variable {w w' : SrsHttpResponseWriter}

/-! ## The header that is sent -/

/-- What `send_header` adds, apart from the encoding. -/
theorem sameFraming_completeHeader (w : SrsHttpResponseWriter) (data : Option Bytes) :
    ∃ h₂ : SrsHttpHeader, SameFraming h₂ w.hdr ∧
      SameFraming (w.completeHeader data)
        (if w.contentLength = -1 then h₂.set (str "Transfer-Encoding") (str "chunked") else h₂) := by
  have htype : ∀ name ∈ [str "Content-Length", str "Transfer-Encoding"],
    ¬ SameName (str "Content-Type") name := by
    decide
  have hserver : ∀ name ∈ [str "Content-Length", str "Transfer-Encoding"],
    ¬ SameName (str "Server") name := by
    decide
  have hconnection : ∀ name ∈ [str "Content-Length", str "Transfer-Encoding"],
    ¬ SameName (str "Connection") name := by
    decide
  cases data with
  | none =>
    unfold completeHeader
    exact ⟨_, sameFraming_default hserver RTMP_SIG_SRS_SERVER, sameFraming_default hconnection
      (str "Keep-Alive")⟩
  | some d =>
    have hsame₁ : SameFraming (if srsGoHttpBodyAllowd w.status ∧ w.hdr.contentType = [] then
        w.hdr.setContentType (srsGoHttpDetect d) else w.hdr) w.hdr := sameFraming_ite htype _ _
    unfold completeHeader
    exact ⟨_, (sameFraming_default hserver RTMP_SIG_SRS_SERVER).trans hsame₁,
      sameFraming_default hconnection (str "Keep-Alive")⟩

/-- The completed header says what was planned. -/
theorem says_completeHeader (hplans : w.hdr.Plans) (hlen : w.contentLength = w.hdr.contentLength)
    (data : Option Bytes) : (w.completeHeader data).Says w.contentLength := by
  obtain ⟨h₂, hsame₂, hsame⟩ := sameFraming_completeHeader w data
  rcases hplans with ⟨hnone, hnolength, hcoding⟩ | ⟨n, -, hn, hsaid⟩
  · rw [if_pos (hlen.trans hnone)] at hsame
    have hne : ¬ SameName (str "Transfer-Encoding") (str "Content-Length") := by decide
    have hkey : canonicalKey (str "Transfer-Encoding") = str "Transfer-Encoding" := by decide
    refine .inl ⟨hlen.trans hnone,
      ⟨str "Transfer-Encoding", (hsame.coding _ _).2 ⟨mem_set.2 (.inl (by rw [hkey])), .refl _⟩⟩,
      fun key v hf => ?_, fun key v hf => ?_⟩
    · obtain ⟨hmem, hname⟩ := (hsame.coding key v).1 hf
      rcases mem_set.1 hmem with heq | ⟨hold, hother⟩
      · exact (Prod.mk.inj heq).2
      · rw [hkey] at hother
        exact (hcoding key v ((hsame₂.coding key v).1 ⟨hold, hname⟩)).resolve_left hother
    · exact hnolength key v ((hsame₂.length key v).1 ((isField_set hne key v).1 ((hsame.length key v).1 hf)))
  · rw [if_neg (by omega)] at hsame
    exact .inr ⟨n, hlen.trans hn, hsaid.congr (hsame.trans hsame₂)⟩

/-! ## Runs -/

/-- The header with which a call is made, if no header has been written: `write` adds defaults to it. -/
def headerOf (w : SrsHttpResponseWriter) : Call → Option SrsHttpHeader
  | .writeHeader _ => some w.hdr
  | .write x => some (w.defaultHeader x.size).hdr
  | .writev [] => none
  | .writev (d :: _) => some (w.defaultHeader d.length).hdr
  | .finalRequest => some w.hdr

/-- The actions that keep the header frozen: between `write_header` and the sending of the header nothing
in it is changed, and it is written with fields that agree with each other. -/
def Allowed (w : SrsHttpResponseWriter) : Action → Prop
  | .modify f => w.headerWrote = false ∨ w.headerSent = true ∨ f w.hdr = w.hdr
  | .call c => c.Sized ∧ (w.headerWrote = false → ∀ h ∈ w.headerOf c, h.Plans)

/-- A run of such actions. -/
def AllAllowed : List Action → SrsHttpResponseWriter → Prop
  | [], _ => True
  | x :: acts, w => w.Allowed x ∧ AllAllowed acts (w.act x)

/-- The run without the changes that are made after the header has been written. -/
def withoutLate : List Action → SrsHttpResponseWriter → List Action
  | [], _ => []
  | .modify f :: acts, w =>
      if w.headerWrote then withoutLate acts w else .modify f :: withoutLate acts (w.act (.modify f))
  | .call c :: acts, w => .call c :: withoutLate acts (w.act (.call c))

/-- The writes that are made in a run. -/
def attempts : List Action → SrsHttpResponseWriter → List Attempt
  | [], _ => []
  | .modify f :: acts, w => attempts acts (w.act (.modify f))
  | .call c :: acts, w => (w.step c).2.1 ++ attempts acts (w.act (.call c))

/-- After a run from a fresh writer: late changes have not changed what has been sent, and this is nothing,
or a header whose fields agree with the encoding of the body behind it. -/
structure Frozen (io : Sink) (acts : List Action) : Prop where
  unaffected : (actAll acts (init io)).skt.sent = (actAll (withoutLate acts (init io)) (init io)).skt.sent
  agrees : (actAll acts (init io)).skt.sent = io.sent ∨ ∃ (status : Int) (H : SrsHttpHeader) (body : Bytes),
    (actAll acts (init io)).skt.sent = io.sent ++ headerBlock status H ++ body ∧
      H.Says (actAll acts (init io)).contentLength ∧
      ((actAll acts (init io)).contentLength = -1 → Pieces body) ∧
      ∀ n : Nat, (actAll acts (init io)).contentLength = n → Counted n (attempts acts (init io)) body

/-! ## One call, once the header has been written -/

/-- The writer has gone on to `w'`: it has its header still, or it has sent it. -/
structure Passed (w w' : SrsHttpResponseWriter) : Prop where
  hf : w'.hf = none
  wrote : w'.headerWrote = true
  length : w'.contentLength = w.contentLength
  status : w'.status = w.status
  hdr : w'.headerSent = w.headerSent ∧ w'.hdr = w.hdr ∨
    w.headerSent = false ∧ w'.headerSent = true ∧ ∃ data, w'.hdr = w.completeHeader data

theorem Passed.refl (hf : w.hf = none) (hwrote : w.headerWrote = true) : Passed w w :=
  ⟨hf, hwrote, rfl, rfl, .inl ⟨rfl, rfl⟩⟩

theorem Passed.trans {w'' : SrsHttpResponseWriter} (h₁ : Passed w w') (h₂ : Passed w' w'') :
    Passed w w'' := by
  refine ⟨h₂.hf, h₂.wrote, h₂.length.trans h₁.length, h₂.status.trans h₁.status, ?_⟩
  rcases h₂.hdr with ⟨hsent₂, hhdr₂⟩ | ⟨hunsent, hsent₂, data, hhdr₂⟩
  · rw [hsent₂, hhdr₂]
    exact h₁.hdr
  · obtain ⟨hsent₁, hhdr₁⟩ := h₁.hdr.resolve_right fun h => by rw [hunsent] at h; cases h.2.1
    refine .inr ⟨hsent₁ ▸ hunsent, hsent₂, data, ?_⟩
    rw [hhdr₂]
    unfold completeHeader
    rw [h₁.status, hhdr₁, h₁.length]

theorem writeHeader_of_wrote (hwrote : w.headerWrote = true) (code : Int) : w.writeHeader code = w := by
  rw [writeHeader, if_pos hwrote]

theorem defaultHeader_of_wrote (hwrote : w.headerWrote = true) (size : Nat) : w.defaultHeader size = w := by
  rw [defaultHeader, if_pos hwrote]

theorem sendHeader_passed (hf : w.hf = none) (hwrote : w.headerWrote = true) (data : Option Bytes) :
    Passed w (w.sendHeader data).2 := by
  unfold sendHeader
  by_cases hsent : w.headerSent = true
  · rw [if_pos hsent]
    exact .refl hf hwrote
  · rw [if_neg hsent]
    simp only [hf]
    exact ⟨rfl, hwrote, rfl, rfl, .inr ⟨by simpa using hsent, rfl, data, rfl⟩⟩

theorem writeContent_passed (hf : w.hf = none) (hwrote : w.headerWrote = true) (x : Content) :
    Passed w (w.writeContent x).2 := by
  have h := sendHeader_passed hf hwrote x.toOption
  unfold writeContent
  rw [defaultHeader_of_wrote hwrote]
  cases hsend : w.sendHeader x.toOption with
  | mk err w₁ =>
    rw [hsend] at h
    cases err with
    | some e => exact h
    | none =>
      simp only
      split_ifs <;> exact ⟨h.hf, h.wrote, h.length, h.status, h.hdr⟩

theorem writeEach_passed (hf : w.hf = none) (hwrote : w.headerWrote = true) (iov : List Bytes) :
    Passed w (writeEach iov w).2.2 := by
  induction iov generalizing w with
  | nil => exact .refl hf hwrote
  | cons d iov ih =>
    have h := writeContent_passed hf hwrote (.data d)
    unfold writeEach
    cases hwrite : w.writeContent (.data d) with
    | mk err w₁ =>
      rw [hwrite] at h
      cases err with
      | some e => exact h
      | none => exact h.trans (ih h.hf h.wrote)

theorem writev_passed (hf : w.hf = none) (hwrote : w.headerWrote = true) (iov : List Bytes) :
    Passed w (w.writev iov).2.2 := by
  unfold writev
  by_cases heach : w.headerWrote = false ∨ w.contentLength ≠ -1
  · rw [if_pos heach]
    exact writeEach_passed hf hwrote iov
  rw [if_neg heach]
  by_cases hnil : iov = []
  · rw [if_pos hnil]
    exact .refl hf hwrote
  · rw [if_neg hnil]
    have h := sendHeader_passed hf hwrote none
    cases hsend : w.sendHeader none with
    | mk err w₁ =>
      rw [hsend] at h
      cases err with
      | some e => exact h
      | none => exact ⟨h.hf, h.wrote, h.length, h.status, h.hdr⟩

theorem step_passed (hf : w.hf = none) (hwrote : w.headerWrote = true) (c : Call) :
    Passed w (w.step c).2.2 := by
  have hheader := writeHeader_of_wrote hwrote
  cases c with
  | writeHeader code =>
    show Passed w (w.writeHeader code)
    rw [hheader]
    exact .refl hf hwrote
  | write x => exact writeContent_passed hf hwrote x
  | writev iov => exact writev_passed hf hwrote iov
  | finalRequest =>
    show Passed w w.finalRequest.2
    have h := sendHeader_passed hf hwrote none
    unfold finalRequest
    rw [hheader]
    cases hsend : w.sendHeader none with
    | mk err w₁ =>
      rw [hsend] at h
      cases err with
      | some e => exact h
      | none =>
        simp only
        split_ifs
        · exact ⟨h.hf, h.wrote, h.length, h.status, h.hdr⟩
        · rw [← writeContent_null]
          exact h.trans (writeContent_passed h.hf h.wrote _)

/-- The fields agree: those that are planned, or those that have been sent. -/
def Framed (w : SrsHttpResponseWriter) : Prop :=
  if w.headerSent then w.hdr.Says w.contentLength else w.hdr.Plans ∧ w.contentLength = w.hdr.contentLength

theorem Framed.passed (h : w.Framed) (hp : Passed w w') : w'.Framed := by
  rcases hp.hdr with ⟨hsent, hhdr⟩ | ⟨hunsent, hsent, data, hhdr⟩
  · rw [Framed, hsent, hhdr, hp.length]
    exact h
  · rw [Framed, if_neg (by simp [hunsent])] at h
    rw [Framed, if_pos hsent, hhdr, hp.length]
    exact says_completeHeader h.1 h.2 data

/-! ## The call that writes the header -/

/-- The writer with the header written. -/
def named (w : SrsHttpResponseWriter) (h : SrsHttpHeader) (code : Int) : SrsHttpResponseWriter :=
  { w with hdr := h, headerWrote := true, status := code, contentLength := h.contentLength }

theorem writeHeader_eq (hfirst : w.headerWrote = false) (code : Int) : w.writeHeader code =
    w.named w.hdr code := by
  rw [writeHeader, if_neg (by simp [hfirst])]
  rfl

theorem defaultHeader_eq (hfirst : w.headerWrote = false) (size : Nat) :
    w.defaultHeader size = w.named (w.defaultHeader size).hdr 200 := by
  unfold defaultHeader
  rw [if_neg (by simp [hfirst])]
  simp only [writeHeader, hfirst, Bool.false_eq_true, if_false]
  rfl

/-- Whether a length has been declared or not, a write has one. -/
theorem contentLength_defaultHeader (hfirst : w.headerWrote = false) {size : Nat} (hsize : size < 2 ^ 31) :
    (w.defaultHeader size).hdr.contentLength ≠ -1 := by
  unfold defaultHeader
  rw [if_neg (by simp [hfirst])]
  simp only [writeHeader, hfirst, Bool.false_eq_true, if_false]
  generalize (if w.hdr.contentType = [] then w.hdr.setContentType
    (str "text/plain; charset=utf-8") else w.hdr) = h₁
  split_ifs with hlen
  · rw [SrsHttpHeader.contentLength_some (SrsHttpHeader.declares_setContentLength h₁ (by omega))]
    omega
  · exact hlen

/-- The call is the same one with the header written. -/
theorem step_named {c : Call} {h : SrsHttpHeader} (hfirst : w.headerWrote = false) (hc : c.Sized)
    (hh : w.headerOf c = some h) : ∃ code, w.step c = (w.named h code).step c := by
  have hwrite (x : Content) : w.writeContent x =
    (w.named (w.defaultHeader x.size).hdr 200).writeContent x := by
    unfold writeContent
    rw [defaultHeader_of_wrote (w := w.named _ 200) rfl, ← defaultHeader_eq hfirst]
  cases c with
  | writeHeader code =>
    obtain rfl : w.hdr = h := Option.some.inj hh
    refine ⟨code, ?_⟩
    show (none, [], w.writeHeader code) = (none, [], (w.named w.hdr code).writeHeader code)
    rw [writeHeader_eq hfirst, writeHeader_of_wrote (w := w.named w.hdr code) rfl]
  | write x =>
    obtain rfl : (w.defaultHeader x.size).hdr = h := Option.some.inj hh
    refine ⟨200, ?_⟩
    unfold step
    simp only [hwrite x]
  | writev iov =>
    cases iov with
    | nil => cases hh
    | cons d iov =>
      obtain rfl : (w.defaultHeader d.length).hdr = h := Option.some.inj hh
      refine ⟨200, ?_⟩
      show w.writev (d :: iov) = (w.named (w.defaultHeader d.length).hdr 200).writev (d :: iov)
      rw [writev, if_pos (.inl hfirst), writev,
        if_pos (.inr (contentLength_defaultHeader hfirst (hc d (List.mem_cons_self ..)))),
          writeEach, writeEach,
        hwrite (.data d)]
      rfl
  | finalRequest =>
    obtain rfl : w.hdr = h := Option.some.inj hh
    refine ⟨200, ?_⟩
    have hsame : (w.named w.hdr 200).writeHeader 200 = w.writeHeader 200 := by
      rw [writeHeader_eq hfirst, writeHeader_of_wrote (w := w.named w.hdr 200) rfl]
    unfold step finalRequest
    simp only [hsame]

/-! ## The run without late changes -/

/-- The writer `b` without late changes goes on like `a`.  It is fresh apart from its header, or it has
its books, and the fields of its header agree. -/
structure Follows (io : Sink) (a b : SrsHttpResponseWriter) (log : List Attempt) : Prop where
  alike : Alike a b
  state : b.headerWrote = false ∧ log = [] ∧ (∃ h, b = { init io with hdr := h }) ∨
    b.headerWrote = true ∧ b.Framed ∧ ∃ declared body, Wired io declared b log body

variable {io : Sink} {a b : SrsHttpResponseWriter} {log : List Attempt} {acts : List Action}

/-- A fresh writer names its header. -/
theorem wired_fresh_named (hio : io.Reliable) {h h' : SrsHttpHeader} (hb : b = { init io with hdr := h })
    (hplans : h'.Plans) (code : Int) : ∃ declared, Wired io declared (b.named h' code) [] [] := by
  obtain ⟨d, hd⟩ := hplans.declares
  subst hb
  refine ⟨d, ⟨rfl, hio, by simp [init, named], fun _ => ⟨rfl, rfl, rfl⟩, fun _ => rfl,
    by simp [named], fun _ n hn => ?_,
    fun _ => ?_⟩⟩
  · subst hn
    exact contentLength_some hd
  · cases d with
    | none => exact .inl ⟨contentLength_none hd, pieces_nil⟩
    | some n => exact .inr ⟨n, contentLength_some hd, rfl, counted_nil n⟩

/-- The header that a call writes is the same for both. -/
theorem headerOf_alike (h : Alike a b) (hfirst : b.headerWrote = false) (c : Call) : a.headerOf c =
    b.headerOf c := by
  have hunsent : a.headerSent = false := h.headerSent.trans (h.right.unsent hfirst)
  have hhdr : a.hdr = b.hdr := h.hdr hunsent
  have hdefault (size : Nat) : (a.defaultHeader size).hdr = (b.defaultHeader size).hdr := by
    have hfirst' : a.headerWrote = false := h.headerWrote.trans hfirst
    refine (h.defaultHeader size).hdr ?_
    rw [defaultHeader_eq hfirst']
    exact hunsent
  cases c with
  | writeHeader code => exact congrArg some hhdr
  | write x => exact congrArg some (hdefault x.size)
  | writev iov =>
    cases iov with
    | nil => rfl
    | cons d iov => exact congrArg some (hdefault d.length)
  | finalRequest => exact congrArg some hhdr

/-- Once the header has been written, a call leaves the fields agreeing. -/
theorem Follows.call_wrote {c : Call} {declared : Option Nat} {body : Bytes} (hc : c.Sized)
    (hwrote : b.headerWrote = true)
    (hframed : b.Framed) (hwired : Wired io declared b log body) :
    (b.step c).2.2.headerWrote = true ∧ (b.step c).2.2.Framed ∧
      ∃ declared body, Wired io declared (b.step c).2.2 (log ++ (b.step c).2.1) body := by
  have hpassed := step_passed hwired.hf hwrote c
  obtain ⟨more, hwired', -⟩ := wired_step hwired hc
  exact ⟨hpassed.wrote, hframed.passed hpassed, declared, body ++ more, hwired'⟩

/-- **One call.** -/
theorem Follows.call (h : Follows io a b log) (hio : io.Reliable) {c : Call}
    (hallowed : a.Allowed (.call c)) :
    Follows io (a.act (.call c)) (b.act (.call c)) (log ++ (a.step c).2.1) := by
  obtain ⟨-, hlog, halike⟩ := h.alike.step c
  refine ⟨halike, ?_⟩
  rw [hlog]
  rcases h.state with ⟨hfirst, rfl, hdr, hb⟩ | ⟨hwrote, hframed, declared, body, hwired⟩
  · cases hheader : b.headerOf c with
    | none =>
      -- only a list without pieces writes no header
      have hnothing : c = .writev [] := by
        rcases c with _ | _ | _ | _
        · cases hheader
        · cases hheader
        · rename_i iov
          cases iov with
          | nil => rfl
          | cons d iov => cases hheader
        · cases hheader
      have hsame : b.step (.writev []) = (none, [], b) := by
        show b.writev [] = _
        rw [writev, if_pos (.inl hfirst)]
        rfl
      subst hnothing
      rw [show b.act (.call (.writev [])) = b from congrArg (fun r => r.2.2) hsame, hsame]
      exact .inl ⟨hfirst, rfl, hdr, hb⟩
    | some h' =>
      have hplans : h'.Plans := by
        refine hallowed.2 (h.alike.headerWrote.trans hfirst) h' ?_
        rw [headerOf_alike h.alike hfirst, hheader]
        rfl
      obtain ⟨code, hstep⟩ := step_named hfirst hallowed.1 hheader
      obtain ⟨declared, hwired⟩ := wired_fresh_named hio hb hplans code
      have hframed : (b.named h' code).Framed := by
        rw [Framed, if_neg (by simp [named, h.alike.right.unsent hfirst])]
        exact ⟨hplans, rfl⟩
      have hcall := Follows.call_wrote hallowed.1 rfl hframed hwired
      rw [← hstep] at hcall
      exact .inr hcall
  · exact .inr (Follows.call_wrote hallowed.1 hwrote hframed hwired)

/-- **A change** that comes late is not made in the other run. -/
theorem Follows.modify (h : Follows io a b log) {f : SrsHttpHeader → SrsHttpHeader}
    (hallowed : a.Allowed (.modify f)) :
    Follows io (a.act (.modify f)) (if b.headerWrote then b else b.act (.modify f)) log := by
  rcases h.state with ⟨hfirst, rfl, hdr, hb⟩ | ⟨hwrote, hrest⟩
  · rw [if_neg (by simp [hfirst])]
    exact ⟨h.alike.modify f, .inl ⟨hfirst, rfl, f hdr, by rw [hb]; rfl⟩⟩
  · rw [if_pos hwrote]
    refine ⟨?_, .inr ⟨hwrote, hrest⟩⟩
    rcases hallowed with hfirst | hsent | hsame
    · rw [h.alike.headerWrote, hwrote] at hfirst
      cases hfirst
    · refine ⟨(h.alike.modify f).left, h.alike.right, h.alike.sent, h.alike.headerWrote, h.alike.headerSent,
        h.alike.status, h.alike.contentLength, fun hunsent => ?_, h.alike.written⟩
      rw [show a.headerSent = false from hunsent] at hsent
      cases hsent
    · have hid : a.act (.modify f) = a := by
        show { a with hdr := f a.hdr } = a
        rw [hsame]
      rw [hid]
      exact h.alike

/-- **A run.** -/
theorem Follows.run (h : Follows io a b log) (hio : io.Reliable) (hallowed : AllAllowed acts a) :
    Follows io (actAll acts a) (actAll (withoutLate acts b) b) (log ++ attempts acts a) := by
  induction acts generalizing a b log with
  | nil =>
    rw [attempts, List.append_nil]
    exact h
  | cons x acts ih =>
    obtain ⟨hx, hrest⟩ := hallowed
    cases x with
    | modify f =>
      have hnext := ih (h.modify hx) hrest
      rw [withoutLate, attempts]
      split_ifs at hnext ⊢
      · exact hnext
      · exact hnext
    | call c =>
      have hnext := ih (h.call hio hx) hrest
      rw [List.append_assoc] at hnext
      exact hnext

/-- **The header is frozen** in every run of allowed actions: what is sent after any number of them is what
is sent without the changes that come after `write_header` or `write`, and the header in it agrees with
the encoding of the body behind it. -/
theorem frozen_of_allowed (hio : io.Reliable) (hallowed : AllAllowed acts (init io)) : Frozen io acts := by
  have hstart : Follows io (init io) (init io) [] :=
    ⟨(sound_init hio).alike, .inl ⟨rfl, rfl, (init io).hdr, rfl⟩⟩
  obtain ⟨halike, hstate⟩ := hstart.run hio hallowed
  refine ⟨halike.sent, ?_⟩
  rw [halike.sent, halike.contentLength, ← List.nil_append (attempts acts (init io))]
  generalize actAll (withoutLate acts (init io)) (init io) = b at halike hstate ⊢
  rcases hstate with ⟨-, -, h, rfl⟩ | ⟨hwrote, hframed, declared, body, hwired⟩
  · exact .inl rfl
  · have hwire := hwired.wire
    cases hsent : b.headerSent with
    | false =>
      obtain ⟨-, rfl, -⟩ := hwired.quiet hsent
      left
      simpa [hsent] using hwire
    | true =>
      rw [Framed, if_pos hsent] at hframed
      rw [if_pos hsent] at hwire
      refine .inr ⟨b.status, b.hdr, body, hwire, hframed, fun hnone => ?_, fun n hn => ?_⟩
      · exact (hwired.books hwrote).elim (fun h => h.2) fun ⟨n, hn, _⟩ => by omega
      · rcases hwired.books hwrote with ⟨hnone, -⟩ | ⟨n', hn', -, hcounted⟩
        · omega
        · obtain rfl : n' = n := by omega
          exact hcounted

/-- A length that is set after everything has been sent. -/
theorem frozen_of_allowed_sent :
    Frozen ⟨[], []⟩ [.call (.writeHeader 200), .call (.write (.data (str "ab"))),
      .modify fun h => h.set (str "Content-Length") (str "9")] := by
  have hplans : (init ⟨[], []⟩).hdr.Plans :=
    .inl ⟨by decide, fun _ _ hf => absurd hf.1 (by simp [init, SrsHttpHeader.empty, OrdMap.empty]),
      fun _ _ hf => absurd hf.1 (by simp [init, SrsHttpHeader.empty, OrdMap.empty])⟩
  refine frozen_of_allowed (by simp [Sink.Reliable])
    ⟨⟨trivial, fun _ h hh => ?_⟩, ⟨show (str "ab").length < 2 ^ 31 by decide, fun hf => by cases hf⟩,
    .inr (.inl rfl), trivial⟩
  obtain rfl := Option.some.inj hh
  exact hplans

/-- A length that is set between `write_header` and the first `write`: it is sent, with a body in chunks. -/
theorem not_frozen_late :
    (actAll [.call (.writeHeader 200), .modify fun h => h.set (str "Content-Length") (str "5"),
        .call (.write (.data (str "ab")))] (init ⟨[], []⟩)).skt.sent =
      str "HTTP/1.1 200 OK\r\nConnection: Keep-Alive\r\nContent-Length: 5\r\nContent-Type: application/octet-stream\r\n" ++
        str "Server: SRS/5.0.61(Bee)\r\nTransfer-Encoding: chunked\r\n\r\n2\r\nab\r\n" ∧
      ¬ Frozen ⟨[], []⟩ [.call (.writeHeader 200), .modify fun h => h.set (str "Content-Length") (str "5"),
        .call (.write (.data (str "ab")))] := by
  refine ⟨by decide +kernel, fun h => ?_⟩
  have hdiffer : (actAll [.call (.writeHeader 200), .modify fun h => h.set (str "Content-Length") (str "5"),
      .call (.write (.data (str "ab")))] (init ⟨[], []⟩)).skt.sent ≠
      (actAll (withoutLate [.call (.writeHeader 200), .modify fun h => h.set (str "Content-Length") (str "5"),
        .call (.write (.data (str "ab")))] (init ⟨[], []⟩)) (init ⟨[], []⟩)).skt.sent := by decide
  exact hdiffer h.unaffected

end SrsHttpResponseWriter

end HttpProxy
