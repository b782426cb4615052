import HttpProxy.Message.Target

/-!
# One object for several urls

`SrsHttpUri::initialize` resets the schema, the host, the path and the query.  The port, the
password and the query parameters are left as they are unless the new url has some.

* `initializeFrom_some` — what an accepted url leaves of the object.
* `SameAnswers` — two objects answer alike.
* `sameAnswers_iff` — after any urls, the object answers like a fresh one exactly if what
  the new url leaves out was not set, or was set to what it is by default.
-/

namespace HttpProxy

namespace SrsHttpUri

/-- A field of the url, as the url parser finds it. -/
def field (url : Bytes) (f : UrlField) : Bytes :=
  match httpParserParseUrl (parsedText url) with
  | some hp => getUriField (parsedText url) hp f
  | none => []

/-- The user name and the password of a userinfo, which has none without a colon. -/
def credentials (userinfo : Bytes) (password : Bytes) : Bytes × Bytes :=
  match findSub (str ":") userinfo with
  | some k => (userinfo.take k, userinfo.drop (k + 1))
  | none => (userinfo, password)

/-- The port of a url with the text `field` for a port, over an object with the port `before`. -/
def portOf (schema text : Bytes) (before : Int) : Int :=
  let port := if text = [] then before else atoi text
  if port ≤ 0 then defaultPort schema else port

/-- What an accepted url leaves. -/
theorem initializeFrom_some {url : Bytes} (u : SrsHttpUri)
    (h : httpParserParseUrl (parsedText url) ≠ none) :
    u.initializeFrom url = (none, parseQuery
      { u with
        url := url
        schema := field url .schema
        host := if (findSub vhostMark url).isSome then defaultVhost else field url .host
        port := portOf (field url .schema) (field url .port) u.port
        path := field url .path
        query := field url .query
        username := (credentials (field url .userinfo) u.password).1
        password := (credentials (field url .userinfo) u.password).2 }) := by
  obtain ⟨hp, hparse⟩ := Option.ne_none_iff_exists'.1 h
  have hfield : ∀ f, field url f = getUriField (parsedText url) hp f := by
    intro f
    rw [field, hparse]
  simp only [hfield]
  unfold parsedText vhostMark safeMark at hparse
  simp only [initializeFrom, hparse]
  rfl

/-- Whether a url is accepted does not depend on the object. -/
theorem initializeFrom_accepted_iff {url : Bytes} (u : SrsHttpUri) :
    (u.initializeFrom url).1 = none ↔ httpParserParseUrl (parsedText url) ≠ none := by
  constructor
  · intro h hnone
    unfold parsedText vhostMark safeMark at hnone
    simp only [initializeFrom, hnone] at h
    cases h
  · intro h
    rw [initializeFrom_some u h]

/-! ## The observers -/

/-- All observers give the same answers. -/
structure SameAnswers (u v : SrsHttpUri) : Prop where
  url : u.url = v.url
  schema : u.schema = v.schema
  host : u.host = v.host
  port : u.port = v.port
  path : u.path = v.path
  query : u.query = v.query
  byKey : ∀ key, u.getQueryByKey key = v.getQueryByKey key
  username : u.username = v.username
  password : u.password = v.password

/-- The parts that a url may leave as they are: the object has none of them, or the url has its own. -/
structure Overwrites (url : Bytes) (u : SrsHttpUri) : Prop where
  port : field url .port ≠ [] ∨ u.port ≤ 0 ∨ u.port = defaultPort (field url .schema)
  query : field url .query ≠ [] ∨ ∀ key, u.getQueryByKey key = []
  password : chr ':' ∈ field url .userinfo ∨ u.password = []

theorem defaultPort_pos (schema : Bytes) : 0 < defaultPort schema := by
  rw [defaultPort]
  split_ifs <;> decide

theorem portOf_eq_iff (schema text : Bytes) (before : Int) :
    portOf schema text before = portOf schema text 0 ↔
      text ≠ [] ∨ before ≤ 0 ∨ before = defaultPort schema := by
  rw [portOf, portOf]
  by_cases h : text = []
  · simp only [if_pos h, le_refl, if_true]
    by_cases hb : before ≤ 0
    · rw [if_pos hb]
      exact iff_of_true rfl (Or.inr (Or.inl hb))
    · rw [if_neg hb]
      exact ⟨fun heq => Or.inr (Or.inr heq), fun hor => (hor.resolve_left (not_not.2 h)).resolve_left hb⟩
  · simp only [if_neg h]
    exact iff_of_true trivial (Or.inl h)

theorem credentials_eq_iff (userinfo before : Bytes) :
    (credentials userinfo before).1 = (credentials userinfo []).1 ∧
      ((credentials userinfo before).2 = (credentials userinfo []).2 ↔
        chr ':' ∈ userinfo ∨ before = []) := by
  have hmem : (findSub (str ":") userinfo).isSome = true ↔ chr ':' ∈ userinfo := by
    rw [findSub_isSome_iff]
    exact List.singleton_infix_iff _ _
  rw [credentials, credentials]
  cases hfind : findSub (str ":") userinfo with
  | none =>
    rw [hfind] at hmem
    exact ⟨rfl, Or.inr, fun h => h.resolve_left fun hm => by simpa using hmem.2 hm⟩
  | some k =>
    rw [hfind] at hmem
    exact ⟨rfl, iff_of_true rfl (Or.inl (hmem.1 rfl))⟩

/-- Only the query parameters are parsed. -/
theorem parseQuery_keeps (v : SrsHttpUri) :
    v.parseQuery.url = v.url ∧ v.parseQuery.schema = v.schema ∧ v.parseQuery.host = v.host ∧
      v.parseQuery.port = v.port ∧ v.parseQuery.path = v.path ∧ v.parseQuery.query = v.query ∧
      v.parseQuery.username = v.username ∧ v.parseQuery.password = v.password := by
  rw [parseQuery]
  split <;> exact ⟨rfl, rfl, rfl, rfl, rfl, rfl, rfl, rfl⟩

/-- The query parameters are those of the query, if there is one. -/
theorem parseQuery_queryValues_eq {v w : SrsHttpUri} (h : v.query = w.query) (hne : v.query ≠ []) :
    v.parseQuery.queryValues = w.parseQuery.queryValues := by
  rw [parseQuery, parseQuery, if_neg hne, if_neg (h ▸ hne), h]

theorem parseQuery_nil {v : SrsHttpUri} (h : v.query = []) : v.parseQuery = v := by
  rw [parseQuery, if_pos h]

/-- Two objects that differ in the port, the password and the parameters only. -/
theorem sameAnswers_parseQuery_iff {v w : SrsHttpUri} (hurl : v.url = w.url)
    (hschema : v.schema = w.schema) (hhost : v.host = w.host) (hpath : v.path = w.path)
    (hquery : v.query = w.query) (husername : v.username = w.username) :
    SameAnswers v.parseQuery w.parseQuery ↔ v.port = w.port ∧
      (v.query ≠ [] ∨ ∀ key, v.getQueryByKey key = w.getQueryByKey key) ∧ v.password = w.password := by
  obtain ⟨v1, v2, v3, v4, v5, v6, v7, v8⟩ := parseQuery_keeps v
  obtain ⟨w1, w2, w3, w4, w5, w6, w7, w8⟩ := parseQuery_keeps w
  constructor
  · intro h
    refine ⟨v4.symm.trans (h.port.trans w4), ?_, v8.symm.trans (h.password.trans w8)⟩
    by_cases hne : v.query = []
    · have hkey := h.byKey
      rw [parseQuery_nil hne, parseQuery_nil (hquery ▸ hne)] at hkey
      exact Or.inr hkey
    · exact Or.inl hne
  · rintro ⟨hport, hkeys, hpassword⟩
    refine ⟨by rw [v1, w1, hurl], by rw [v2, w2, hschema], by rw [v3, w3, hhost], by rw [v4, w4, hport],
      by rw [v5, w5, hpath], by rw [v6, w6, hquery], fun key => ?_, by rw [v7, w7, husername],
      by rw [v8, w8, hpassword]⟩
    by_cases hne : v.query = []
    · rw [parseQuery_nil hne, parseQuery_nil (hquery ▸ hne)]
      exact hkeys.resolve_left (not_not.2 hne) key
    · rw [getQueryByKey, getQueryByKey, parseQuery_queryValues_eq hquery hne]

/-- One more url: the object answers like a fresh one exactly if the url overwrites what it has. -/
theorem sameAnswers_initializeFrom_iff {url : Bytes} (u : SrsHttpUri)
    (h : httpParserParseUrl (parsedText url) ≠ none) :
    SameAnswers (u.initializeFrom url).2 (empty.initializeFrom url).2 ↔ Overwrites url u := by
  obtain ⟨husername, hpassword⟩ := credentials_eq_iff (field url .userinfo) u.password
  rw [initializeFrom_some u h, initializeFrom_some empty h]
  refine (sameAnswers_parseQuery_iff (by rfl) (by rfl) (by rfl) (by rfl) (by rfl)
    (by exact husername)).trans ?_
  constructor
  · rintro ⟨hport, hkeys, hpass⟩
    exact ⟨(portOf_eq_iff _ _ _).1 hport, hkeys, hpassword.1 hpass⟩
  · rintro ⟨hport, hkeys, hpass⟩
    exact ⟨(portOf_eq_iff _ _ _).2 hport, hkeys, hpassword.2 hpass⟩

/-! ## Any urls before -/

/-- The object after `initialize` was called for each of the urls. -/
def after (urls : List Bytes) : SrsHttpUri := urls.foldl (fun u url => (u.initializeFrom url).2) empty

/-- **An object has no memory exactly where the new url overwrites it**: it has a port, or the port of the
object is not positive, or the default one; it has a query, or no key has a value; it has a
password, or the object has none. -/
theorem sameAnswers_iff (urls : List Bytes) (url : Bytes) (h : (empty.initializeFrom url).1 = none) :
    SameAnswers ((after urls).initializeFrom url).2 (empty.initializeFrom url).2 ↔
      Overwrites url (after urls) :=
  sameAnswers_initializeFrom_iff (after urls) ((initializeFrom_accepted_iff empty).1 h)

/-- A url with a port, a query and a password, after one with others. -/
theorem sameAnswers_iff_all :
    SameAnswers ((after [str "http://u:p@a:8080/?k=1"]).initializeFrom (str "http://v:q@b:81/?j=2")).2
        (empty.initializeFrom (str "http://v:q@b:81/?j=2")).2 ↔
      Overwrites (str "http://v:q@b:81/?j=2") (after [str "http://u:p@a:8080/?k=1"]) :=
  sameAnswers_iff _ _ (by decide)

/-- The port 8080 is left for a url without a port. -/
theorem not_sameAnswers_port :
    (empty.initializeFrom (str "http://b/")).1 = none ∧
      ¬ SameAnswers ((after [str "http://a:8080/"]).initializeFrom (str "http://b/")).2
        (empty.initializeFrom (str "http://b/")).2 := by
  refine ⟨by decide, ?_⟩
  intro h
  exact absurd h.port (by decide)

end SrsHttpUri

end HttpProxy
