import HttpProxy.Message.Cookies
import HttpProxy.Message.Positions

/-!
# The parts of a url

What the observers of `SrsHttpUri` say about the parts of an absolute url can be put together
again.  Here the url does not name the host that stands for none.

* `UrlParts` — an absolute url, in parts.
* `reassembled` — the url that the answers for its parts make up.
* `Expressible` — the offsets and the lengths of the parts survive 16 bits.
* `expressible_iff` — that is, what they point at is the parts.
* `length_lt_of_reassembled` — a part of 2 ^ 16 bytes or more makes the answers shorter.
* `stored_auth_of_reassembled` — the authority is one of the parts that have to survive.
* `reassembled_iff_of_stored_auth` — if it does, the other parts have to, and nothing else.
-/

namespace HttpProxy

open SrsHttpHeader (decimal srsInt2str)

/-! ## The parts -/

/-- A path, and a query behind it. -/
def targetOf (path : Bytes) : Option Bytes → Bytes
  | none => path
  | some query => path ++ chr '?' :: query

/-- An absolute url without userinfo and fragment.  Its port is a number in decimal. -/
structure UrlParts where
  schema : Bytes
  host : Bytes
  port : Option Nat
  path : Bytes
  query : Option Bytes
  isSchema : IsSchema schema
  host_ne_nil : host ≠ []
  isRegNameChar_host : ∀ b ∈ host, isRegNameChar b = true
  head_path : ∀ b ∈ path.head?, b = chr '/'
  inPath_path : ∀ b ∈ path, inPath b = true
  query_ne_nil : ∀ q ∈ query, q ≠ []
  hash_notMem_query : ∀ q ∈ query, chr '#' ∉ q

namespace UrlParts

/-- The host and the port. -/
def auth (p : UrlParts) : Bytes := authority p.host (p.port.map decimal)

/-- The path and the query. -/
def target (p : UrlParts) : Bytes := targetOf p.path p.query

/-- The url. -/
def text (p : UrlParts) : Bytes := absoluteUrl p.schema p.auth p.target

/-- The url that the answers for its parts make up. -/
def reassembled (p : UrlParts) (u : SrsHttpUri) : Bytes :=
  absoluteUrl u.schema (authority u.host (p.port.map fun _ => srsInt2str u.port))
    (targetOf u.path (p.query.map fun _ => u.query))

/-- The offsets and the lengths of the parts survive 16 bits, and the host that stands for none is not
named.  The port is not 0; where its offset does not survive, what stands there is read as the port. -/
structure Expressible (p : UrlParts) : Prop where
  mark : ¬ vhostMark <:+: p.text
  schema : p.schema.length < 2 ^ 16
  auth : Survives p.text (p.schema.length + 3) p.auth
  port : ∀ n ∈ p.port, if p.schema.length + 3 + p.host.length + 1 < 2 ^ 16 then 0 < n ∧ n < 2 ^ 31
    else SrsHttpUri.portOf p.schema
      (stored p.text (p.schema.length + 3 + p.host.length + 1) (decimal n).length) 0 = n
  path : Survives p.text (p.schema.length + 3 + p.auth.length) p.path
  query : ∀ q ∈ p.query, Survives p.text (p.schema.length + 3 + p.auth.length + p.path.length + 1) q

variable (p : UrlParts)

/-! ## The text of the parts -/

theorem digits_port : ∀ ds ∈ p.port.map decimal, ds ≠ [] ∧ ∀ b ∈ ds, isNum b = true := by
  intro ds hds
  obtain ⟨n, -, rfl⟩ := Option.mem_map.1 hds
  exact ⟨SrsHttpHeader.decimal_ne_nil n, fun b hb => decimal_isNum hb⟩

theorem auth_ne_nil : p.auth ≠ [] := by
  obtain ⟨b, hsplit, -⟩ := authority_split p.host (p.port.map decimal)
  rw [auth, hsplit]
  exact List.append_ne_nil_of_left_ne_nil p.host_ne_nil b

theorem char_auth : ∀ b ∈ p.auth, (isRegNameChar b || b == chr ':') = true := by
  have hnum : ∀ b, isNum b = true → isRegNameChar b = true := forall_byte (by decide +kernel)
  intro b hb
  rw [Bool.or_eq_true]
  rw [auth] at hb
  have hds := p.digits_port
  cases hport : p.port.map decimal with
  | none =>
    rw [hport] at hb
    exact Or.inl (p.isRegNameChar_host b hb)
  | some ds =>
    rw [hport] at hb hds
    rcases List.mem_append.1 hb with hb | hb
    · exact Or.inl (p.isRegNameChar_host b hb)
    · rcases List.mem_cons.1 hb with rfl | hb
      · exact Or.inr (beq_self_eq_true _)
      · exact Or.inl (hnum b ((hds ds rfl).2 b hb))

theorem path_eq : p.path = [] ∨ ∃ t, p.path = chr '/' :: t := by
  cases h : p.path with
  | nil => exact Or.inl rfl
  | cons b t =>
    have hb := p.head_path b (by rw [h]; rfl)
    exact Or.inr ⟨t, by rw [hb]⟩

theorem beginsTarget_target : BeginsTarget p.target := by
  rw [target]
  rcases p.path_eq with h | ⟨t, h⟩
  · rw [h]
    cases p.query with
    | none => exact Or.inl rfl
    | some q => exact Or.inr ⟨q, Or.inr rfl⟩
  · rw [h]
    cases p.query with
    | none => exact Or.inr ⟨t, Or.inl rfl⟩
    | some q => exact Or.inr ⟨t ++ chr '?' :: q, Or.inl rfl⟩

theorem targetPath_target : targetPath p.target = p.path := by
  rw [target]
  cases p.query with
  | none => exact List.takeWhile_eq_self_iff.2 p.inPath_path
  | some q =>
    rw [targetOf, targetPath, (takeWhile_append_stop (by decide) p.path q).1]
    exact List.takeWhile_eq_self_iff.2 p.inPath_path

theorem targetQuery_target : targetQuery p.target = p.query.getD [] := by
  have hdrop : p.path.dropWhile inPath = [] := by
    rw [List.dropWhile_eq_nil_iff]
    exact p.inPath_path
  rw [target]
  cases hquery : p.query with
  | none =>
    rw [targetOf, targetQuery, hdrop]
    rfl
  | some q =>
    rw [targetOf, targetQuery, (takeWhile_append_stop (by decide) p.path q).2, hdrop]
    simp only [List.nil_append, if_true, Option.getD_some]
    exact List.takeWhile_eq_self_iff.2 (bne_of_notMem (p.hash_notMem_query q hquery))

end UrlParts

/-! ## The answers -/

namespace SrsHttpUri

theorem atoi_lt (s : Bytes) : atoi s < 2 ^ 31 := by
  rw [atoi, toInt32]
  exact Int.bmod_lt (by decide)

theorem portOf_pos (schema text : Bytes) (before : Int) : 0 < portOf schema text before := by
  have hdefault := defaultPort_pos schema
  rw [portOf]
  split_ifs
  · exact hdefault
  · omega
  · exact hdefault
  · omega

theorem portOf_lt (schema text : Bytes) : portOf schema text 0 < 2 ^ 31 := by
  have hdefault : defaultPort schema < 2 ^ 31 := by
    rw [defaultPort]
    split_ifs <;> decide
  have hatoi := atoi_lt text
  rw [portOf]
  split_ifs
  · exact hdefault
  · omega
  · exact hdefault
  · exact hatoi

/-- The answers of a fresh object for an accepted url. -/
theorem answers_initializeFrom {url : Bytes} {hp : HttpParserUrl}
    (h : httpParserParseUrl (parsedText url) = some hp) :
    (empty.initializeFrom url).2.schema = getUriField (parsedText url) hp .schema ∧
      (empty.initializeFrom url).2.host =
        (if (findSub vhostMark url).isSome then defaultVhost else getUriField (parsedText url) hp .host) ∧
      (empty.initializeFrom url).2.port = portOf (getUriField (parsedText url) hp .schema)
        (getUriField (parsedText url) hp .port) 0 ∧
      (empty.initializeFrom url).2.path = getUriField (parsedText url) hp .path ∧
      (empty.initializeFrom url).2.query = getUriField (parsedText url) hp .query := by
  have hfield : ∀ f, field url f = getUriField (parsedText url) hp f := by
    intro f
    rw [field, h]
  have hsome : httpParserParseUrl (parsedText url) ≠ none := by
    rw [h]
    exact Option.some_ne_none hp
  rw [initializeFrom_some empty hsome]
  have hkeeps := parseQuery_keeps
  simp only [fun v => (hkeeps v).2.1, fun v => (hkeeps v).2.2.1, fun v => (hkeeps v).2.2.2.1,
    fun v => (hkeeps v).2.2.2.2.1, fun v => (hkeeps v).2.2.2.2.2.1, hfield]
  exact ⟨trivial, trivial, by simp only [empty], trivial, trivial⟩

end SrsHttpUri

/-! ## Lengths -/

theorem length_absoluteUrl (schema auth t : Bytes) :
    (absoluteUrl schema auth t).length = schema.length + 3 + auth.length + t.length := by
  have hsep : (str "://").length = 3 := rfl
  rw [absoluteUrl, List.length_append, List.length_append, List.length_append, hsep]
  omega

theorem length_authority_le (host : Bytes) (digits : Option Bytes) :
    host.length ≤ (authority host digits).length := by
  obtain ⟨b, hsplit, -⟩ := authority_split host digits
  rw [hsplit, List.length_append]
  omega

/-- A port takes ten digits at most. -/
theorem length_srsInt2str_le {n : Int} (h0 : 0 < n) (h1 : n < 2 ^ 31) : (srsInt2str n).length ≤ 10 := by
  rw [srsInt2str, if_neg (by omega), decimal, if_neg (by omega), List.length_reverse, List.length_map,
    Nat.digits_length_le_iff (by norm_num)]
  omega

namespace UrlParts

variable (p : UrlParts)

/-- A fresh object that the url was given to. -/
def fresh : SrsHttpUri := (SrsHttpUri.empty.initializeFrom p.text).2

variable {p} {hp : HttpParserUrl}

theorem readAs (h : httpParserParseUrl p.text = some hp) : ReadAs p.schema p.auth p.target hp :=
  parseUrl_absolute_stored p.isSchema p.auth_ne_nil p.char_auth p.beginsTarget_target h

/-- What a url that does not name the host that is none is read as. -/
theorem fresh_eq (hmark : ¬ vhostMark <:+: p.text) (h : httpParserParseUrl p.text = some hp) :
    p.fresh.schema = stored p.text 0 p.schema.length ∧
      p.fresh.host = getUriField p.text hp .host ∧
      p.fresh.port = SrsHttpUri.portOf p.fresh.schema (getUriField p.text hp .port) 0 ∧
      p.fresh.path = stored p.text (p.schema.length + 3 + p.auth.length) p.path.length ∧
      p.fresh.query = stored p.text (p.schema.length + 3 + p.auth.length + p.path.length + 1)
        (p.query.getD []).length := by
  have hread := readAs h
  have htext := parsedText_of_absent hmark
  have hnone : ¬ (findSub vhostMark p.text).isSome = true := by
    rw [findSub_isSome_iff]
    exact hmark
  have hparse : httpParserParseUrl (parsedText p.text) = some hp := by rw [htext, h]
  obtain ⟨hschema, hhost, hport, hpath, hquery⟩ := SrsHttpUri.answers_initializeFrom hparse
  rw [htext] at hschema hhost hport hpath hquery
  rw [if_neg hnone] at hhost
  refine ⟨hschema.trans hread.ofSchema, hhost, hport.trans (by rw [fresh, hschema]), hpath.trans ?_,
    hquery.trans ?_⟩
  · have := hread.ofPath
    rw [targetPath_target] at this
    exact this
  · have := hread.ofQuery
    rw [targetPath_target, targetQuery_target] at this
    exact this

theorem length_host_le (h : httpParserParseUrl p.text = some hp) :
    (getUriField p.text hp .host).length ≤ p.auth.length % 2 ^ 16 := by
  obtain ⟨u, s, -, hloop⟩ := (readAs h).ofHost
  have hle := parseHostLoop_length_le hloop
  have hzero : (u.begin .host ((p.schema.length + 3) % 2 ^ 16) 0).hostLength = 0 := by
    rw [HttpParserUrl.hostLength, u.begin_self]
    rfl
  have hstored := length_stored_le p.text (p.schema.length + 3) p.auth.length
  have hfield : (getUriField p.text hp .host).length ≤ hp.hostLength := by
    rw [getUriField, HttpParserUrl.hostLength]
    cases hp .host with
    | none => exact Nat.zero_le _
    | some x => exact (List.length_take_le _ _)
  rw [hzero, Nat.zero_add] at hle
  exact hfield.trans (hle.trans hstored)

/-- A part of 2 ^ 16 bytes or more makes the answers shorter. -/
theorem length_lt_of_reassembled (hmark : ¬ vhostMark <:+: p.text)
    (h : httpParserParseUrl p.text = some hp) (heq : p.reassembled p.fresh = p.text) :
    p.schema.length < 2 ^ 16 ∧ p.auth.length < 2 ^ 16 ∧ p.path.length < 2 ^ 16 ∧
      ∀ q ∈ p.query, q.length < 2 ^ 16 := by
  obtain ⟨hschema, hhost, hport, hpath, hquery⟩ := fresh_eq hmark h
  have h1 := length_stored_le p.text 0 p.schema.length
  have h2 := length_host_le h
  have h3 := length_stored_le p.text (p.schema.length + 3 + p.auth.length) p.path.length
  have h4 := length_stored_le p.text (p.schema.length + 3 + p.auth.length + p.path.length + 1)
    (p.query.getD []).length
  have h5 : (srsInt2str p.fresh.port).length ≤ 10 := by
    rw [hport]
    exact length_srsInt2str_le (SrsHttpUri.portOf_pos _ _ _) (SrsHttpUri.portOf_lt _ _)
  rw [← hschema] at h1
  rw [← hhost] at h2
  rw [← hpath] at h3
  rw [← hquery] at h4
  have hlen := congrArg List.length heq
  rw [reassembled, text, length_absoluteUrl, length_absoluteUrl] at hlen
  have hauth : (authority p.fresh.host (p.port.map fun _ => srsInt2str p.fresh.port)).length ≤
      p.auth.length % 2 ^ 16 + 11 := by
    cases p.port with
    | none => simp only [Option.map_none, authority]; omega
    | some n => simp only [Option.map_some, authority, List.length_append, List.length_cons]; omega
  rw [target] at hlen
  cases hq : p.query with
  | none =>
    simp only [hq, targetOf, Option.map_none] at hlen
    have hbound : p.schema.length < 2 ^ 16 ∧ p.auth.length < 2 ^ 16 ∧ p.path.length < 2 ^ 16 := by omega
    exact ⟨hbound.1, hbound.2.1, hbound.2.2, by simp⟩
  | some q =>
    simp only [hq, targetOf, Option.map_some, List.length_append, List.length_cons, Option.getD_some]
      at hlen h4
    have hbound : p.schema.length < 2 ^ 16 ∧ p.auth.length < 2 ^ 16 ∧ p.path.length < 2 ^ 16 ∧
        q.length < 2 ^ 16 := by omega
    refine ⟨hbound.1, hbound.2.1, hbound.2.2.1, ?_⟩
    rintro q' ⟨⟩
    exact hbound.2.2.2

/-! ## The authority -/

/-- Where the authority is stored right, the host and the port are found in it. -/
theorem host_of_stored_auth (h : httpParserParseUrl p.text = some hp)
    (hauth : stored p.text (p.schema.length + 3) p.auth.length = p.auth) :
    getUriField p.text hp .host = p.host ∧ ∀ n ∈ p.port, getUriField p.text hp .port =
      stored p.text (p.schema.length + 3 + p.host.length + 1) (decimal n).length := by
  obtain ⟨u, s, hu, hloop⟩ := (readAs h).ofHost
  have hlt := length_lt_of_stored hauth
  have hle := length_authority_le p.host (p.port.map decimal)
  rw [← auth] at hle
  have hhost := parseHostLoop_authority p.host_ne_nil p.isRegNameChar_host p.digits_port
    (Nat.mod_lt _ (by norm_num)) (by omega) hu (hauth ▸ hloop : parseHostLoop _ _ _ (authority _ _) = _)
  obtain ⟨hfound, hport⟩ := hhost
  simp only at hfound hport
  constructor
  · have htake : stored p.text (p.schema.length + 3) p.auth.length =
        (p.text.drop ((p.schema.length + 3) % 2 ^ 16)).take p.auth.length := by
      rw [stored, Nat.mod_eq_of_lt hlt]
    obtain ⟨b, hsplit, -⟩ := authority_split p.host (p.port.map decimal)
    rw [getUriField, hfound]
    simp only
    have hmin : p.host.length = min p.host.length p.auth.length := by omega
    conv_lhs => rw [hmin, ← List.take_take, ← htake, hauth, auth, hsplit, List.take_left]
  · intro n hn
    have hn' : p.port = some n := hn
    rw [hn', Option.map_some, Option.map_some] at hport
    rw [getUriField, hport]
    simp only [stored]
    rw [Nat.add_assoc, Nat.mod_add_mod, ← Nat.add_assoc]

/-- Letters that are taken for the authority are the host. -/
theorem host_of_stored_letters (h : httpParserParseUrl p.text = some hp)
    (hne : stored p.text (p.schema.length + 3) p.auth.length ≠ [])
    (hletters : ∀ b ∈ stored p.text (p.schema.length + 3) p.auth.length, isAlpha b = true) :
    getUriField p.text hp .host = stored p.text (p.schema.length + 3) p.auth.length := by
  have hname : ∀ b, isAlpha b = true → isRegNameChar b = true := forall_byte (by decide +kernel)
  have hlt : (stored p.text (p.schema.length + 3) p.auth.length).length < 2 ^ 16 :=
    (length_stored_le _ _ _).trans_lt (Nat.mod_lt _ (by norm_num))
  obtain ⟨u, s, hu, hloop⟩ := (readAs h).ofHost
  have hnone : ∀ ds ∈ (none : Option Bytes), ds ≠ [] ∧ ∀ b ∈ ds, isNum b = true := by simp
  obtain ⟨hfound, -⟩ := parseHostLoop_authority hne (fun b hb => hname b (hletters b hb)) hnone
    (Nat.mod_lt _ (by norm_num)) hlt hu hloop
  have hpre : stored p.text (p.schema.length + 3) p.auth.length <+:
      p.text.drop ((p.schema.length + 3) % 2 ^ 16) := List.take_prefix _ _
  simp only at hfound
  rw [getUriField, hfound]
  exact (List.prefix_iff_eq_take.1 hpre).symm

/-- An accepted url of at most 80 KB whose answers make it up has its authority stored right. -/
theorem stored_auth_of_reassembled (hmark : ¬ vhostMark <:+: p.text)
    (h : httpParserParseUrl p.text = some hp) (hlen : p.text.length ≤ HTTP_MAX_HEADER_SIZE)
    (heq : p.reassembled p.fresh = p.text) :
    stored p.text (p.schema.length + 3) p.auth.length = p.auth := by
  obtain ⟨hs, ha, -, -⟩ := length_lt_of_reassembled hmark h heq
  obtain ⟨hschema, hhost, -, -, -⟩ := fresh_eq hmark h
  have htext : p.text = p.schema ++ (str "://" ++ (p.auth ++ p.target)) := rfl
  by_cases hoff : p.schema.length + 3 < 2 ^ 16
  · have hsplit : p.text = (p.schema ++ str "://") ++ (p.auth ++ p.target) := by
      rw [htext, List.append_assoc]
    have hpre : (p.schema ++ str "://").length = p.schema.length + 3 := List.length_append
    rw [hsplit, ← hpre]
    exact stored_append _ _ _ (hpre ▸ hoff) ha
  · -- The offset points into the schema, whose letters are taken for the host.
    rw [text, length_absoluteUrl, HTTP_MAX_HEADER_SIZE] at hlen
    have hinside : (p.schema.length + 3) % 2 ^ 16 + p.auth.length ≤ p.schema.length := by omega
    obtain ⟨hlength, hmem⟩ := stored_inside (b := str "://" ++ (p.auth ++ p.target)) ha hinside
    rw [← htext] at hlength hmem
    have hne : stored p.text (p.schema.length + 3) p.auth.length ≠ [] := by
      intro hnil
      rw [hnil] at hlength
      exact p.auth_ne_nil (List.length_eq_zero_iff.1 hlength.symm)
    have hletters := host_of_stored_letters h hne fun b hb => (readAs h).letters b (hmem b hb)
    have hsame : p.fresh.schema = p.schema := by
      rw [hschema]
      exact stored_append [] p.schema _ (by norm_num) hs
    obtain ⟨b, hsplit, -⟩ := authority_split p.fresh.host (p.port.map fun _ => srsInt2str p.fresh.port)
    rw [reassembled, htext, absoluteUrl, hsame, List.append_cancel_left_eq, List.append_cancel_left_eq,
      hsplit, List.append_assoc, hhost, hletters] at heq
    exact List.append_inj_left heq hlength

/-! ## The answers one by one -/

/-- No longer parts make up the same text only if they are the same. -/
theorem targetOf_eq {x y r : Bytes} {query : Option Bytes} (hx : x.length ≤ y.length)
    (hr : ∀ q ∈ query, r.length ≤ q.length)
    (h : targetOf x (query.map fun _ => r) = targetOf y query) : x = y ∧ ∀ q ∈ query, r = q := by
  cases query with
  | none => exact ⟨h, by simp⟩
  | some q =>
    have hlen := congrArg List.length h
    have hq := hr q rfl
    simp only [targetOf, Option.map_some, List.length_append, List.length_cons] at hlen h
    obtain ⟨hxy, hrq⟩ := List.append_inj h (by omega)
    refine ⟨hxy, ?_⟩
    rintro q' ⟨⟩
    exact (List.cons.inj hrq).2

theorem length_targetOf_le {x y r : Bytes} {query : Option Bytes} (hx : x.length ≤ y.length)
    (hr : ∀ q ∈ query, r.length ≤ q.length) :
    (targetOf x (query.map fun _ => r)).length ≤ (targetOf y query).length := by
  cases query with
  | none => exact hx
  | some q =>
    have hq := hr q rfl
    simp only [targetOf, Option.map_some, List.length_append, List.length_cons]
    omega

/-- A number in front of a target is seen to its end. -/
theorem digits_append_eq {ds ds' t t' : Bytes} (hd : ∀ b ∈ ds, isNum b = true) (ht : BeginsTarget t')
    (hlen : t.length ≤ t'.length) (h : ds ++ t = ds' ++ t') : ds = ds' := by
  rcases List.append_eq_append_iff.1 h with ⟨z, hz, hzt⟩ | ⟨z, hz, hzt⟩
  · have hzero := congrArg List.length hzt
    rw [List.length_append] at hzero
    have hnil : z = [] := List.length_eq_zero_iff.1 (by omega)
    rw [hz, hnil, List.append_nil]
  · cases z with
    | nil => rw [hz, List.append_nil]
    | cons b z =>
      have hb : isNum b = true := hd b (by rw [hz]; simp)
      exfalso
      rcases ht with rfl | ⟨t'', rfl | rfl⟩
      · exact absurd hzt (by simp)
      · rw [← (List.cons.inj hzt).1] at hb
        exact absurd hb (by decide)
      · rw [← (List.cons.inj hzt).1] at hb
        exact absurd hb (by decide)

theorem decimal_inj {m n : Nat} (h : decimal m = decimal n) : m = n := by
  rw [← SrsHttpHeader.digitsValue_decimal m, h, SrsHttpHeader.digitsValue_decimal]

theorem srsInt2str_natCast (n : Nat) : srsInt2str n = decimal n := by
  rw [srsInt2str, if_neg (by omega), Int.natAbs_natCast]

/-- With the schema and the host right and the rest not too long, the answers make up the url
exactly if they are its parts. -/
theorem reassembled_eq_iff {u : SrsHttpUri} (hschema : u.schema = p.schema) (hhost : u.host = p.host)
    (hport : 0 < u.port) (hpath : u.path.length ≤ p.path.length)
    (hquery : ∀ q ∈ p.query, u.query.length ≤ q.length) :
    p.reassembled u = p.text ↔
      (∀ n ∈ p.port, u.port = n) ∧ u.path = p.path ∧ ∀ q ∈ p.query, u.query = q := by
  obtain ⟨m, hm⟩ : ∃ m : Nat, u.port = m := ⟨u.port.toNat, by omega⟩
  rw [reassembled, text, absoluteUrl, absoluteUrl, hschema, hhost, hm, srsInt2str_natCast,
    List.append_cancel_left_eq, List.append_cancel_left_eq, auth, target]
  constructor
  · intro h
    cases hp : p.port with
    | none =>
      rw [hp] at h
      exact ⟨by simp, targetOf_eq hpath hquery (List.append_cancel_left h)⟩
    | some n =>
      rw [hp, Option.map_some, Option.map_some, authority, authority, List.append_assoc,
        List.append_assoc, List.append_cancel_left_eq, List.cons_append, List.cons_append,
        List.cons.injEq] at h
      have heq := digits_append_eq (fun b hb => decimal_isNum hb) p.beginsTarget_target
        (length_targetOf_le hpath hquery) h.2
      rw [heq, List.append_cancel_left_eq] at h
      refine ⟨?_, targetOf_eq hpath hquery h.2⟩
      rintro n' ⟨⟩
      rw [decimal_inj heq]
  · rintro ⟨hn, hx, hq⟩
    have hauth : (p.port.map fun _ => decimal m) = p.port.map decimal := by
      cases hp : p.port with
      | none => rfl
      | some n =>
        have hmn := hn n hp
        rw [Option.map_some, Option.map_some, Int.natCast_inj.1 hmn]
    have htarget : (p.query.map fun _ => u.query) = p.query := by
      cases hp : p.query with
      | none => rfl
      | some q => rw [Option.map_some, hq q hp]
    rw [hauth, hx, htarget]

/-! ## What the offsets and the lengths point at -/

/-- A port that is given is read. -/
theorem portOf_decimal (schema : Bytes) {n : Nat} :
    SrsHttpUri.portOf schema (decimal n) 0 = n ↔ 0 < n ∧ n < 2 ^ 31 := by
  constructor
  · intro h
    have hpos := SrsHttpUri.portOf_pos schema (decimal n) 0
    have hlt := SrsHttpUri.portOf_lt schema (decimal n)
    omega
  · rintro ⟨hpos, hlt⟩
    have hvalue := SrsHttpHeader.digitsValue_decimal n
    rw [SrsHttpUri.portOf]
    simp only [if_neg (SrsHttpHeader.decimal_ne_nil n)]
    rw [atoi_digits (SrsHttpHeader.decimal_ne_nil n) (SrsHttpHeader.decimal_isDigitIn n) (by omega), hvalue,
      if_neg (by omega)]

theorem text_port {n : Nat} (hn : n ∈ p.port) : p.text =
    (p.schema ++ (str "://" ++ (p.host ++ [chr ':']))) ++ (decimal n ++ p.target) ∧
      (p.schema ++ (str "://" ++ (p.host ++ [chr ':']))).length = p.schema.length + 3 + p.host.length + 1 := by
  have hsep : (str "://").length = 3 := rfl
  have htext : p.text = p.schema ++ (str "://" ++ (p.auth ++ p.target)) := rfl
  have hauth : p.auth = p.host ++ chr ':' :: decimal n := by
    rw [auth, Option.mem_def.1 hn]
    rfl
  constructor
  · rw [htext, hauth]
    simp
  · simp only [List.length_append, hsep, List.length_singleton]
    omega

/-- What the offsets and the lengths point at, in an expressible url. -/
theorem expressible_iff : p.Expressible ↔ ¬ vhostMark <:+: p.text ∧ stored p.text 0 p.schema.length = p.schema ∧
    stored p.text (p.schema.length + 3) p.auth.length = p.auth ∧
    (∀ n ∈ p.port, SrsHttpUri.portOf p.schema
      (stored p.text (p.schema.length + 3 + p.host.length + 1) (decimal n).length) 0 = n) ∧
    stored p.text (p.schema.length + 3 + p.auth.length) p.path.length = p.path ∧
    ∀ q ∈ p.query, stored p.text (p.schema.length + 3 + p.auth.length + p.path.length + 1) q.length = q := by
  have hsep : (str "://").length = 3 := rfl
  have htext : p.text = p.schema ++ (str "://" ++ (p.auth ++ p.target)) := rfl
  obtain ⟨rest, hrest⟩ : ∃ rest, p.target = p.path ++ rest := by
    rw [target]
    cases p.query with
    | none => exact ⟨[], (List.append_nil _).symm⟩
    | some q => exact ⟨chr '?' :: q, rfl⟩
  have hschema : stored p.text 0 p.schema.length = p.schema ↔ p.schema.length < 2 ^ 16 := by
    have hpre : p.schema <+: p.text.drop 0 := prefix_of_split (a := []) htext rfl
    rw [stored_eq_iff hpre]
    exact and_iff_left (.inl (by norm_num))
  have hauth : stored p.text (p.schema.length + 3) p.auth.length = p.auth ↔
      Survives p.text (p.schema.length + 3) p.auth := by
    refine stored_eq_iff (prefix_of_split (a := p.schema ++ str "://") (b := p.target) ?_ ?_)
    · rw [htext, List.append_assoc]
    · rw [List.length_append, hsep]
  have hpath : stored p.text (p.schema.length + 3 + p.auth.length) p.path.length = p.path ↔
      Survives p.text (p.schema.length + 3 + p.auth.length) p.path := by
    refine stored_eq_iff (prefix_of_split (a := p.schema ++ (str "://" ++ p.auth)) (b := rest) ?_ ?_)
    · rw [htext, hrest]
      simp
    · simp only [List.length_append, hsep]
      omega
  have hquery : ∀ q ∈ p.query,
      (stored p.text (p.schema.length + 3 + p.auth.length + p.path.length + 1) q.length = q ↔
        Survives p.text (p.schema.length + 3 + p.auth.length + p.path.length + 1) q) := by
    intro q hq
    refine stored_eq_iff (prefix_of_split (a := p.schema ++ (str "://" ++ (p.auth ++ (p.path ++ [chr '?']))))
      (b := []) ?_ ?_)
    · rw [htext, target, Option.mem_def.1 hq, targetOf]
      simp
    · simp only [List.length_append, hsep, List.length_singleton]
      omega
  -- the port is a part of the authority, so that its length survives with it
  have hport : p.auth.length < 2 ^ 16 → ∀ n ∈ p.port,
      (SrsHttpUri.portOf p.schema
        (stored p.text (p.schema.length + 3 + p.host.length + 1) (decimal n).length) 0 = n ↔
      if p.schema.length + 3 + p.host.length + 1 < 2 ^ 16 then 0 < n ∧ n < 2 ^ 31
      else SrsHttpUri.portOf p.schema
        (stored p.text (p.schema.length + 3 + p.host.length + 1) (decimal n).length) 0 = n) := by
    intro hlen n hn
    obtain ⟨hsplit, hfront⟩ := p.text_port hn
    split_ifs with hoff
    · have hdecimal : (decimal n).length < 2 ^ 16 := by
        rw [auth, Option.mem_def.1 hn, Option.map_some, authority, List.length_append, List.length_cons] at hlen
        omega
      have hread : stored p.text (p.schema.length + 3 + p.host.length + 1) (decimal n).length = decimal n :=
        (stored_eq_iff (prefix_of_split hsplit hfront)).2 ⟨hdecimal, .inl hoff⟩
      rw [hread, portOf_decimal]
    · exact Iff.rfl
  constructor
  · rintro ⟨hm, hs, ha, hp, hx, hq⟩
    exact ⟨hm, hschema.2 hs, hauth.2 ha, fun n hn => (hport ha.1 n hn).2 (hp n hn), hpath.2 hx,
      fun q hmem => (hquery q hmem).2 (hq q hmem)⟩
  · rintro ⟨hm, hs, ha, hp, hx, hq⟩
    have ha' := hauth.1 ha
    exact ⟨hm, hschema.1 hs, ha', fun n hn => (hport ha'.1 n hn).1 (hp n hn), hpath.1 hx,
      fun q hmem => (hquery q hmem).1 (hq q hmem)⟩

/-- A url that 16 bits can measure is expressible, if its port is not 0. -/
theorem expressible_of_lt (hlen : p.text.length < 2 ^ 16) (hmark : ¬ vhostMark <:+: p.text)
    (hport : ∀ n ∈ p.port, 0 < n ∧ n < 2 ^ 31) : p.Expressible := by
  rw [text, length_absoluteUrl] at hlen
  have htarget : p.path.length + ((p.query.map fun q => q.length + 1).getD 0) = p.target.length := by
    rw [target]
    cases p.query with
    | none => rfl
    | some q => simp [targetOf]
  have hauth : p.host.length + ((p.port.map fun n => (decimal n).length + 1).getD 0) = p.auth.length := by
    rw [auth]
    cases p.port with
    | none => rfl
    | some n => simp [authority]
  refine ⟨hmark, by omega, ⟨by omega, .inl (by omega)⟩, fun n hn => ?_, ⟨by omega, .inl (by omega)⟩,
    fun q hq => ?_⟩
  · rw [Option.mem_def.1 hn, Option.map_some, Option.getD_some] at hauth
    rw [if_pos (by omega)]
    exact hport n hn
  · rw [Option.mem_def.1 hq, Option.map_some, Option.getD_some] at htarget
    exact ⟨by omega, .inl (by omega)⟩
/-- Where the schema and the authority are stored right, the answers make up the url exactly if the
other parts are stored right too. -/
theorem reassembled_iff_of_stored_auth (hmark : ¬ vhostMark <:+: p.text)
    (h : httpParserParseUrl p.text = some hp) (hs : stored p.text 0 p.schema.length = p.schema)
    (hauth : stored p.text (p.schema.length + 3) p.auth.length = p.auth) :
    p.reassembled p.fresh = p.text ↔ p.Expressible := by
  obtain ⟨hschema, hhost, hport, hpath, hquery⟩ := fresh_eq hmark h
  obtain ⟨hname, hdigits⟩ := host_of_stored_auth h hauth
  have hle : ∀ off len, (stored p.text off len).length ≤ len := fun off len =>
    (length_stored_le _ _ _).trans (Nat.mod_le _ _)
  have hpos : 0 < p.fresh.port := by
    rw [hport]
    exact SrsHttpUri.portOf_pos _ _ _
  have hgetD : ∀ q ∈ p.query, p.query.getD [] = q := by
    intro q hq
    rw [Option.mem_def.1 hq, Option.getD_some]
  have hqueryq : ∀ q ∈ p.query, p.fresh.query =
      stored p.text (p.schema.length + 3 + p.auth.length + p.path.length + 1) q.length := by
    intro q hq
    rw [hquery, hgetD q hq]
  have hportn : ∀ n ∈ p.port, p.fresh.port = SrsHttpUri.portOf p.schema
      (stored p.text (p.schema.length + 3 + p.host.length + 1) (decimal n).length) 0 := by
    intro n hn
    rw [hport, hschema, hs, hdigits n hn]
  rw [reassembled_eq_iff (hschema.trans hs) (hhost.trans hname) hpos (by rw [hpath]; exact hle _ _)
    (fun q hq => by rw [hqueryq q hq]; exact hle _ _)]
  constructor
  · rintro ⟨hn, hx, hq⟩
    exact p.expressible_iff.2 ⟨hmark, hs, hauth, fun n hmem => (hportn n hmem).symm.trans (hn n hmem),
      hpath.symm.trans hx, fun q hmem => (hqueryq q hmem).symm.trans (hq q hmem)⟩
  · intro hexp
    obtain ⟨-, -, -, hn, hx, hq⟩ := p.expressible_iff.1 hexp
    exact ⟨fun n hmem => (hportn n hmem).trans (hn n hmem), hpath.trans hx,
      fun q hmem => (hqueryq q hmem).trans (hq q hmem)⟩

end UrlParts

end HttpProxy
