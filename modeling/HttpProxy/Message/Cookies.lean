import HttpProxy.Message.Fields

/-!
# `Set-Cookie` fields of a response

The values of `Set-Cookie` fields are kept in a list of their own, so that a response may
have several of them.  `on_header_field` knows two spellings of the name, and the last field
of a header does not pass through it; all other cookies go into the map of the fields, where
a second one with the same name takes the place of the first.

* `setCookieLines` — the values of the `Set-Cookie` lines of a header text.
* `setCookieLines_rawHeader` — where the lines of the restored header come from.
* `setCookies_iff` — when the restored header has the cookies of the response.
-/

namespace HttpProxy

/-- Is the name `Set-Cookie`, in any case? -/
def isSetCookie (name : Bytes) : Bool := name.map token = str "set-cookie"

/-- The values of the `Set-Cookie` fields. -/
def cookieValues (fields : List (Bytes × Bytes)) : List Bytes :=
  (fields.filter fun f => isSetCookie f.1).map Prod.snd

/-- The value of a line that is a `Set-Cookie` field. -/
def cookieLine (line : Bytes) : Option Bytes :=
  match findSub (str ": ") line with
  | some k => if isSetCookie (line.take k) then some (line.drop (k + 2)) else none
  | none => none

/-- The values of the `Set-Cookie` lines of a header text. -/
def setCookieLines (raw : Bytes) : List Bytes := (textLines [] raw).filterMap cookieLine

/-! ## The lines of a restored header -/

theorem cookieLine_field {name value : Bytes} (h : chr ':' ∉ name) :
    cookieLine (name ++ str ": " ++ value) = if isSetCookie name then some value else none := by
  have hfind : findSub (str ": ") (name ++ str ": " ++ value) = some name.length :=
    findSub_of_head_notMem h
  have hdrop : (name ++ str ": " ++ value).drop (name.length + 2) = value := by
    rw [← List.drop_drop, List.append_assoc, List.drop_left]
    rfl
  unfold cookieLine
  simp only [hfind, hdrop]
  rw [List.append_assoc, List.take_left]

theorem setCookieLines_line {line : Bytes} (h : CR ∉ line) (rest : Bytes) :
    setCookieLines (line ++ (crlf ++ rest)) = (cookieLine line).toList ++ setCookieLines rest := by
  unfold setCookieLines
  rw [textLines_cons h, List.nil_append, List.filterMap_cons]
  cases cookieLine line <;> rfl

/-- The lines that fields are written as. -/
theorem setCookieLines_fields {es : List (Bytes × Bytes)} (h : ∀ e ∈ es, Head.Clean e) (rest : Bytes) :
    setCookieLines (es.flatMap (fun e => SrsHttpHeader.fieldLine e.1 e.2) ++ rest) =
      cookieValues es ++ setCookieLines rest := by
  induction es with
  | nil => rfl
  | cons e es ih =>
    have he := h e (by simp)
    have hcr : CR ∉ e.1 ++ str ": " ++ e.2 := by
      simp only [List.mem_append, not_or]
      exact ⟨⟨fun hc => (ne_of_token (he.name _ hc)).1 rfl, by decide⟩,
        fun hc => (he.value _ hc).1 rfl⟩
    have hcolon : chr ':' ∉ e.1 := fun hc => (ne_of_token (he.name _ hc)).2.2 rfl
    rw [List.flatMap_cons, SrsHttpHeader.fieldLine, List.append_assoc, List.append_assoc,
      setCookieLines_line hcr, cookieLine_field hcolon, ih fun e he => h e (by simp [he])]
    unfold cookieValues
    rw [List.filter_cons]
    split_ifs <;> simp

/-- No reason phrase has a line end or a colon in it. -/
theorem statusText_plain (status : Int) :
    CR ∉ srsGenerateHttpStatusText status ∧ chr ':' ∉ srsGenerateHttpStatusText status := by
  have htable : ∀ e ∈ statusMap, CR ∉ str e.2 ∧ chr ':' ∉ str e.2 := by decide
  unfold srsGenerateHttpStatusText
  cases hl : statusMap.lookup status with
  | none => decide
  | some text =>
    obtain ⟨l₁, l₂, heq, -⟩ := List.lookup_eq_some_iff.1 hl
    exact htable (status, text) (by rw [heq]; simp)

theorem decimal_isNum {n : Nat} {ch : Byte} (h : ch ∈ SrsHttpHeader.decimal n) : isNum ch = true := by
  have hdigits : ∀ d < 10, isNum (hexDigit d) = true := by decide
  unfold SrsHttpHeader.decimal at h
  split_ifs at h
  · rw [List.mem_singleton.1 h]
    decide
  · obtain ⟨d, hd, rfl⟩ := List.mem_map.1 (List.mem_reverse.1 h)
    exact hdigits d (Nat.digits_lt_base (by decide) hd)

/-- The first line of a restored response is no field. -/
theorem statusLine_plain (status : Nat) :
    CR ∉ str "HTTP/1.1 " ++ SrsHttpHeader.decimal status ++ str " " ++
        srsGenerateHttpStatusText status ∧
      chr ':' ∉ str "HTTP/1.1 " ++ SrsHttpHeader.decimal status ++ str " " ++
        srsGenerateHttpStatusText status := by
  have hnum : ∀ ch ∈ SrsHttpHeader.decimal status, ch ≠ CR ∧ ch ≠ chr ':' := by
    intro ch hch
    have := decimal_isNum hch
    constructor <;> rintro rfl <;> exact absurd this (by decide)
  obtain ⟨h1, h2⟩ := statusText_plain status
  simp only [List.mem_append, not_or]
  exact ⟨⟨⟨⟨by decide, fun h => (hnum _ h).1 rfl⟩, by decide⟩, h1⟩,
    ⟨⟨⟨by decide, fun h => (hnum _ h).2 rfl⟩, by decide⟩, h2⟩⟩

theorem cookieLine_none {line : Bytes} (h : chr ':' ∉ line) : cookieLine line = none := by
  unfold cookieLine
  cases hfind : findSub (str ": ") line with
  | none => rfl
  | some k =>
    have hsplit := findSub_split hfind
    have hcolon : chr ':' ∈ str ": " := by decide
    exact absurd (by rw [hsplit]; simp [hcolon]) h

/-! ## The restored header -/

open SrsHttpParser Head

/-- The first line of a restored response. -/
def statusLine (status : Nat) : Bytes :=
  str "HTTP/1.1 " ++ SrsHttpHeader.decimal status ++ str " " ++ srsGenerateHttpStatusText status

/-- The fields of a restored header. -/
def SrsHttpHeader.outFields (h : SrsHttpHeader) : List (Bytes × Bytes) :=
  h.headers.entries ++ h.cookieList.map fun v => (str "Set-Cookie", v)

theorem SrsHttpHeader.write_eq (h : SrsHttpHeader) :
    h.write = h.outFields.flatMap fun e => fieldLine e.1 e.2 := by
  rw [write, outFields, List.flatMap_append, List.flatMap_map]

/-- What `parse_message` makes of a response. -/
theorem messageOf_response (pa : Option Bytes) {o : SrsHttpParser} {h : Head} {hp : HttpParser}
    (ho : o.type = .response) (hhp : h.hp = some hp) (ht : hp.type = .response) :
    ∃ m, messageOf pa o h = (none, some m) ∧ m.type = .response ∧ m.status = hp.statusCode ∧
      m.rawHeader = statusLine hp.statusCode ++
        (crlf ++ (h.header.outFields.flatMap (fun e => SrsHttpHeader.fieldLine e.1 e.2) ++ crlf)) := by
  refine ⟨_, by simp only [messageOf, toMessage, hhp, ho]; rfl, ?_, rfl, ?_⟩
  · exact ht
  · simp only [SrsHttpMessage.restoreHttpHeader, SrsHttpMessage.setHeader, SrsHttpMessage.setBasic, ht,
      SrsHttpHeader.write_eq, statusLine, List.append_assoc]

/-- The fields of a restored header are as clean as those of the message. -/
theorem clean_outFields {h : Head} (hc : ∀ f ∈ h.fields, Clean f) :
    ∀ e ∈ h.header.outFields, Clean e := by
  obtain ⟨h1, h2⟩ := header_eq h
  intro e he
  rcases List.mem_append.1 he with he | he
  · rw [h1] at he
    obtain ⟨f, hf, rfl⟩ := mem_stored (OrdMap.mem_ofList he)
    exact clean_canonicalKey (hc f hf)
  · obtain ⟨v, hv, rfl⟩ := List.mem_map.1 he
    rw [h2, List.mem_reverse, listed] at hv
    obtain ⟨f, hf, rfl⟩ := List.mem_map.1 hv
    have hmem : f ∈ h.fields := List.mem_of_mem_tail (List.mem_filter.1 hf).1
    have hname : ∀ ch ∈ str "Set-Cookie", token ch ≠ 0 := List.all_iff_forall_prop.1 rfl
    exact ⟨hname, (hc f hmem).value⟩

/-- The cookies of a restored header: those in the map, and those in the list. -/
theorem setCookieLines_rawHeader {h : Head} (hc : ∀ f ∈ h.fields, Clean f) (status : Nat) :
    setCookieLines (statusLine status ++
        (crlf ++ (h.header.outFields.flatMap (fun e => SrsHttpHeader.fieldLine e.1 e.2) ++ crlf))) =
      cookieValues (OrdMap.ofList (stored h.fields)).entries ++ (listed h.fields).reverse := by
  obtain ⟨h1, h2⟩ := header_eq h
  obtain ⟨hcr, hcolon⟩ := statusLine_plain status
  have hend : setCookieLines crlf = [] := rfl
  have hlist : ∀ vs : List Bytes, cookieValues (vs.map fun v => (str "Set-Cookie", v)) = vs := by
    intro vs
    induction vs with
    | nil => rfl
    | cons v vs ih =>
      unfold cookieValues at ih ⊢
      rw [List.map_cons, List.filter_cons_of_pos (by rfl), List.map_cons, ih]
  unfold statusLine
  rw [setCookieLines_line hcr, cookieLine_none hcolon, setCookieLines_fields (clean_outFields hc), hend,
    List.append_nil, Option.toList_none, List.nil_append, SrsHttpHeader.outFields, cookieValues,
    List.filter_append, List.map_append, ← cookieValues, ← cookieValues, hlist, h1, h2]

/-! ## None lost, none overwritten -/

/-- The `Set-Cookie` fields that go into the map, given the fields with the last one first: the
last field, and those in another spelling than the two that are known. -/
def mappedCookies : List (Bytes × Bytes) → List (Bytes × Bytes)
  | [] => []
  | f :: fs => (f :: fs.filter fun g => !isListed g.1).filter fun g => isSetCookie g.1

/-- No two cookies in the map have the same canonical name, and the last field is no empty
cookie. -/
def CookiesKept (fields : List (Bytes × Bytes)) : Prop :=
  ((mappedCookies fields).map fun f => canonicalKey f.1).Nodup ∧
    ∀ f ∈ fields.head?, isSetCookie f.1 = true → f.2 ≠ []

instance (fields : List (Bytes × Bytes)) : Decidable (CookiesKept fields) :=
  inferInstanceAs (Decidable (_ ∧ _))

theorem isSetCookie_canonicalKey (name : Bytes) : isSetCookie (canonicalKey name) = isSetCookie name := by
  unfold isSetCookie
  rw [canonicalKey_map_token]

theorem isSetCookie_of_isListed {name : Bytes} (h : isListed name = true) : isSetCookie name = true := by
  simp only [isListed, Bool.or_eq_true, decide_eq_true_eq] at h
  rcases h with rfl | rfl <;> decide

/-- All cookies, sorted by where they go. -/
theorem cookieValues_cons_perm (f : Bytes × Bytes) (fs : List (Bytes × Bytes)) :
    (cookieValues (f :: fs)).Perm ((mappedCookies (f :: fs)).map Prod.snd ++ listed (f :: fs)) := by
  have hsplit : (fs.filter fun g => isSetCookie g.1).Perm
      (((fs.filter fun g => !isListed g.1).filter fun g => isSetCookie g.1) ++
        fs.filter fun g => isListed g.1) := by
    refine (List.filter_append_perm (fun g => !isListed g.1) _).symm.trans ?_
    rw [List.filter_filter, List.filter_filter, List.filter_filter]
    refine List.Perm.append (List.Perm.of_eq (List.filter_congr fun g _ => ?_))
      (List.Perm.of_eq (List.filter_congr fun g _ => ?_))
    · exact Bool.and_comm _ _
    · cases hl : isListed g.1 with
      | false => simp
      | true => simp [isSetCookie_of_isListed hl]
  simp only [cookieValues, mappedCookies, listed]
  rw [List.filter_cons, List.filter_cons, List.tail_cons, ← List.map_append]
  refine List.Perm.map _ ?_
  split_ifs with hf
  · exact hsplit.cons f
  · exact hsplit

/-- The cookies that are inserted into the map. -/
theorem stored_cookies (f : Bytes × Bytes) (fs : List (Bytes × Bytes)) :
    ((stored (f :: fs)).filter fun e => isSetCookie e.1) =
      (((if f.2 = [] then [] else [f] : List (Bytes × Bytes)) ++ fs.filter fun g => !isListed g.1).filter
        fun g => isSetCookie g.1).map fun g => (canonicalKey g.1, g.2) := by
  unfold stored
  rw [List.filter_map]
  congr 1
  exact List.filter_congr fun g _ => isSetCookie_canonicalKey g.1

/-- Unless the last field is an empty cookie, these are the cookies that belong there. -/
theorem stored_cookies_eq {f : Bytes × Bytes} {fs : List (Bytes × Bytes)}
    (h : ¬ (isSetCookie f.1 = true ∧ f.2 = [])) :
    ((stored (f :: fs)).filter fun e => isSetCookie e.1) =
      (mappedCookies (f :: fs)).map fun g => (canonicalKey g.1, g.2) := by
  rw [stored_cookies, mappedCookies]
  congr 1
  by_cases hv : f.2 = []
  · have hf : isSetCookie f.1 = false := by
      cases hc : isSetCookie f.1 with
      | false => rfl
      | true => exact absurd ⟨hc, hv⟩ h
    rw [if_pos hv, List.nil_append, List.filter_cons_of_neg (by simp [hf])]
  · rw [if_neg hv, List.singleton_append]

/-- An empty cookie at the end is dropped. -/
theorem stored_cookies_length {f : Bytes × Bytes} {fs : List (Bytes × Bytes)}
    (h : isSetCookie f.1 = true ∧ f.2 = []) :
    (mappedCookies (f :: fs)).length = ((stored (f :: fs)).filter fun e => isSetCookie e.1).length + 1 := by
  rw [stored_cookies, mappedCookies, if_pos h.2, List.nil_append, List.length_map,
    List.filter_cons_of_pos (by simpa using h.1), List.length_cons]

theorem perm_iff_cookiesKept (fields : List (Bytes × Bytes)) :
    (cookieValues (OrdMap.ofList (stored fields)).entries ++ (listed fields).reverse).Perm
        (cookieValues fields) ↔ CookiesKept fields := by
  cases fields with
  | nil => exact ⟨fun _ => ⟨List.nodup_nil, by simp⟩, fun _ => List.Perm.refl _⟩
  | cons f fs =>
    have hcancel : (cookieValues (OrdMap.ofList (stored (f :: fs))).entries ++
          (listed (f :: fs)).reverse).Perm (cookieValues (f :: fs)) ↔
        (cookieValues (OrdMap.ofList (stored (f :: fs))).entries).Perm
          ((mappedCookies (f :: fs)).map Prod.snd) := by
      have hall := cookieValues_cons_perm f fs
      constructor
      · intro h
        refine (List.perm_append_right_iff (listed (f :: fs))).1 ?_
        exact ((List.reverse_perm _).symm.append_left _).trans (h.trans hall)
      · intro h
        refine ((List.reverse_perm _).append_left _).trans (List.Perm.trans ?_ hall.symm)
        exact (List.perm_append_right_iff (listed (f :: fs))).2 h
    have hlength : ∀ {vs : List Bytes}, (cookieValues (OrdMap.ofList (stored (f :: fs))).entries).Perm vs →
        ((OrdMap.ofList (stored (f :: fs))).entries.filter fun e => isSetCookie e.1).length = vs.length :=
      fun h => by simpa [cookieValues] using h.length_eq
    rw [hcancel]
    by_cases hlast : isSetCookie f.1 = true ∧ f.2 = []
    · -- the last field is dropped, so that there are too few cookies
      have hlen : (mappedCookies (f :: fs)).length = _ := stored_cookies_length hlast
      refine ⟨fun h => ?_, fun h => absurd hlast.2 (h.2 f rfl hlast.1)⟩
      have hE := hlength h
      rw [List.length_map] at hE
      have hnodup := OrdMap.nodup_of_ofList_length (q := isSetCookie) (by omega :
        ((stored (f :: fs)).filter fun e => isSetCookie e.1).length ≤ _)
      have := (OrdMap.ofList_perm hnodup).length_eq
      omega
    · have hstored : ((stored (f :: fs)).filter fun e => isSetCookie e.1) = _ := stored_cookies_eq hlast
      have hkeys : ((stored (f :: fs)).filter fun e => isSetCookie e.1).map Prod.fst =
          (mappedCookies (f :: fs)).map fun g => canonicalKey g.1 := by
        rw [hstored, List.map_map]
        rfl
      constructor
      · intro h
        refine ⟨?_, fun g hg hc hv => hlast ?_⟩
        · rw [← hkeys]
          refine OrdMap.nodup_of_ofList_length (q := isSetCookie) ?_
          rw [hlength h, hstored, List.length_map, List.length_map]
        · obtain rfl : f = g := Option.some.inj hg
          exact ⟨hc, hv⟩
      · intro h
        have hperm := OrdMap.ofList_perm (q := isSetCookie) (l := stored (f :: fs))
          (by rw [hkeys]; exact h.1)
        rw [hstored] at hperm
        have hvalues := hperm.map Prod.snd
        rw [List.map_map] at hvalues
        exact hvalues

/-- **`Set-Cookie` fields.**  For every response header, in whatever pieces it arrives without a
cut inside a field name, the restored header has exactly the cookies of the response as its
`Set-Cookie` lines, each as often as in the response, if and only if no two cookies that go
into the map have the same canonical name and the last field is no empty cookie. -/
theorem setCookies_iff (pa : Option Bytes) {src : Source} {ps : List Bytes} {H : Bytes} {r : Head.Reading}
    (hH : IsHeader .response H) (hread : readHead .response H = .ok r) (hd : src.Delivers ps)
    (hps : ps.flatten = H) (hb : src.buffer.nbBuffer = SRS_DEFAULT_RECV_BUFFER_SIZE)
    (hcut : NoNameCut ps) :
    ∃ m, (parseMessage pa (new .response) src).msg = some m ∧
      ((setCookieLines m.rawHeader).Perm (cookieValues r.head.fields) ↔ CookiesKept r.head.fields) := by
  obtain ⟨hp, hhp, htype, -⟩ := hH.reported hread
  obtain ⟨m, hm, -, -, hraw⟩ := messageOf_response pa (o := new .response) rfl hhp htype
  have hmsg := (parseMessage_of_delivers pa (o := new .response) hH hd hps hb hcut).2
  rw [show readHead (new .response).type H = .ok r from hread] at hmsg
  simp only [hm] at hmsg
  refine ⟨m, hmsg, ?_⟩
  rw [hraw, setCookieLines_rawHeader (readHead_clean hread)]
  exact perm_iff_cookiesKept r.head.fields

/-- A response with two cookies in front of another field. -/
def twoCookies : Bytes := str "HTTP/1.1 200 OK\r\nSet-Cookie: a\r\nSet-Cookie: b\r\nServer: s\r\n\r\n"

/-- Both are kept. -/
theorem setCookies_iff_two : ∃ m,
    (parseMessage none (new .response) (Source.ofPieces [twoCookies])).msg = some m ∧
      (setCookieLines m.rawHeader).Perm [str "b", str "a"] := by
  obtain ⟨hH, r, hr⟩ := isHeader_of_accepts (t := .response) (H := twoCookies) (by decide)
  have hfields : r.head.fields =
      [(str "Server", str "s"), (str "Set-Cookie", str "b"), (str "Set-Cookie", str "a")] := by
    have h : (readHead .response twoCookies).toOption.map (fun r => r.head.fields) =
        some [(str "Server", str "s"), (str "Set-Cookie", str "b"), (str "Set-Cookie", str "a")] := by
      decide
    rw [hr] at h
    exact Option.some.inj h
  obtain ⟨m, hm, hiff⟩ := @setCookies_iff none (Source.ofPieces [twoCookies]) [twoCookies] _ _ hH hr
    (by decide) (by simp) rfl (noNameCut_of_getLast (by simp))
  rw [hfields] at hiff
  exact ⟨m, hm, hiff.2 (by decide)⟩

/-- A response with two cookies in capitals. -/
def capitalCookies : Bytes :=
  str "HTTP/1.1 200 OK\r\nSET-COOKIE: a\r\nSET-COOKIE: b\r\nServer: s\r\n\r\n"

/-- The second one takes the place of the first. -/
theorem setCookies_overwritten :
    ∃ r m, IsHeader .response capitalCookies ∧ readHead .response capitalCookies = .ok r ∧
      (parseMessage none (new .response) (Source.ofPieces [capitalCookies])).msg = some m ∧
      ¬ (setCookieLines m.rawHeader).Perm (cookieValues r.head.fields) := by
  obtain ⟨hH, r, hr⟩ := isHeader_of_accepts (t := .response) (H := capitalCookies) (by decide)
  have hvalues : (readHead .response capitalCookies).toOption.map (fun r => cookieValues r.head.fields) =
      some [str "b", str "a"] := by decide
  have hlines : (parseMessage none (new .response) (Source.ofPieces [capitalCookies])).msg.map
      (fun m => setCookieLines m.rawHeader) = some [str "b"] := by decide
  obtain ⟨m, hm, hlines⟩ := Option.map_eq_some_iff.1 hlines
  rw [hr] at hvalues
  refine ⟨r, m, hH, hr, hm, fun h => ?_⟩
  have hvals : cookieValues r.head.fields = [str "b", str "a"] := Option.some.inj hvalues
  have hlen := h.length_eq
  rw [hlines, hvals] at hlen
  exact absurd hlen (by decide)

end HttpProxy
