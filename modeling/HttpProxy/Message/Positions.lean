import HttpProxy.Message.QueryMark
import HttpProxy.Message.Wire

/-!
# Where the fields of an absolute url are

`http_parser_url` has an offset and a length for every field, both of them numbers of 16 bits.
The parser finds the fields of a longer url where they are, and what it stores of it points
somewhere else.  `http_parse_host` is given the authority that way, and then reads what is there.

* `stored` — what an offset and a length of a url point at, once they are stored.
* `parseUrl_absolute_stored` — the schema, the path and the query of an absolute url.
* `parseHostLoop_length_le`, `parseHostLoop_letters`, `parseHostLoop_name_port` — the host and the
  port in the text that is taken for the authority.
-/

namespace HttpProxy

/-- What an offset and a length of 16 bits point at. -/
def stored (text : Bytes) (off len : Nat) : Bytes := (text.drop (off % 2 ^ 16)).take (len % 2 ^ 16)

theorem length_stored_le (text : Bytes) (off len : Nat) :
    (stored text off len).length ≤ len % 2 ^ 16 := by
  rw [stored, List.length_take]
  exact Nat.min_le_left _ _

/-- A part that is stored right has fewer than 2 ^ 16 bytes. -/
theorem length_lt_of_stored {text x : Bytes} {off : Nat} (h : stored text off x.length = x) :
    x.length < 2 ^ 16 := by
  have hle := length_stored_le text off x.length
  have hlt : x.length % 2 ^ 16 < 2 ^ 16 := Nat.mod_lt _ (by norm_num)
  rw [h] at hle
  exact hle.trans_lt hlt

/-- A part at an offset survives 16 bits: its length does, and so does its offset, or what is left of the
offset happens to point at the same bytes. -/
def Survives (text : Bytes) (off : Nat) (part : Bytes) : Prop :=
  part.length < 2 ^ 16 ∧ (off < 2 ^ 16 ∨ part <+: text.drop (off % 2 ^ 16))

theorem stored_eq_iff {text part : Bytes} {off : Nat} (h : part <+: text.drop off) :
    stored text off part.length = part ↔ Survives text off part := by
  constructor
  · intro heq
    have hlen : part.length < 2 ^ 16 := length_lt_of_stored heq
    refine ⟨hlen, .inr ?_⟩
    rw [stored, Nat.mod_eq_of_lt hlen] at heq
    rw [← heq]
    exact List.take_prefix _ _
  · rintro ⟨hlen, hoff⟩
    have hpre : part <+: text.drop (off % 2 ^ 16) := by
      rcases hoff with hoff | hoff
      · rw [Nat.mod_eq_of_lt hoff]
        exact h
      · exact hoff
    rw [stored, Nat.mod_eq_of_lt hlen]
    exact (List.prefix_iff_eq_take.1 hpre).symm

theorem prefix_of_split {text a x b : Bytes} {off : Nat} (h : text = a ++ (x ++ b)) (ha : a.length = off) :
    x <+: text.drop off := by
  rw [h, ← ha, List.drop_left]
  exact List.prefix_append x b

/-- What is stored is right if both numbers have 16 bits. -/
theorem stored_append (a x b : Bytes) (ha : a.length < 2 ^ 16) (hx : x.length < 2 ^ 16) :
    stored (a ++ (x ++ b)) a.length x.length = x := by
  rw [stored, Nat.mod_eq_of_lt ha, Nat.mod_eq_of_lt hx, List.drop_left, List.take_left]

/-- What points into the first part of a text is made of its bytes. -/
theorem stored_inside {a b : Bytes} {off len : Nat} (hlen : len < 2 ^ 16)
    (h : off % 2 ^ 16 + len ≤ a.length) :
    (stored (a ++ b) off len).length = len ∧ ∀ c ∈ stored (a ++ b) off len, c ∈ a := by
  have heq : stored (a ++ b) off len = (a.drop (off % 2 ^ 16)).take len := by
    rw [stored, Nat.mod_eq_of_lt hlen, List.drop_append_of_le_length (by omega),
      List.take_append_of_le_length (by rw [List.length_drop]; omega)]
  rw [heq]
  refine ⟨?_, fun c hc => List.mem_of_mem_drop (List.mem_of_mem_take hc)⟩
  rw [List.length_take, List.length_drop]
  omega

/-! ## The schema -/

section Schema

variable {c : Byte} {a rest : Bytes} {r : HttpParserUrl × Bool}

theorem parseUrlChar_reqSchema {b : Byte} (h : b ≠ chr ':') :
    parseUrlChar .reqSchema b = .reqSchema ∨ parseUrlChar .reqSchema b = .dead := by
  rw [parseUrlChar]
  split_ifs
  · exact Or.inr rfl
  · exact Or.inl rfl
  · exact Or.inr rfl

theorem isAlpha_of_reqSchema {b : Byte} (h : parseUrlChar .reqSchema b = .reqSchema) :
    isAlpha b = true := by
  revert b
  apply forall_byte
  decide +kernel

theorem parseUrlChar_isAlpha {b : Byte} (h : isAlpha b = true) :
    parseUrlChar .reqSpacesBeforeUrl b = .reqSchema := by
  revert b
  apply forall_byte
  decide +kernel

/-- A schema that is accepted has letters only. -/
theorem letters_of_accepted (hc : isAlpha c = true) (ha : chr ':' ∉ a)
    (h : parseUrlLoop .reqSpacesBeforeUrl none 0 (fun _ => none) false (c :: a ++ rest) = some r) :
    (∀ b ∈ a, parseUrlChar .reqSchema b = .reqSchema) ∧ ∀ b ∈ c :: a, isAlpha b = true := by
  rw [List.cons_append, parseUrlLoop_field (parseUrlChar_isAlpha hc) (by decide) rfl] at h
  have hkeeps : ∀ b ∈ a, parseUrlChar .reqSchema b = .reqSchema := by
    refine parseUrlLoop_keeps (by decide) rfl (fun b hb => parseUrlChar_reqSchema ?_)
      (Option.ne_none_iff_exists'.2 ⟨r, h⟩)
    rintro rfl
    exact ha hb
  refine ⟨hkeeps, fun b hb => ?_⟩
  rcases List.mem_cons.1 hb with rfl | hb
  · exact hc
  · exact isAlpha_of_reqSchema (hkeeps b hb)

/-- The states in front of the schema and in it are left for good. -/
theorem parseUrlChar_behind {s : State} (hs : s ≠ .reqSpacesBeforeUrl ∧ s ≠ .reqSchema) (b : Byte) :
    parseUrlChar s b ≠ .reqSpacesBeforeUrl ∧ parseUrlChar s b ≠ .reqSchema := by
  have hserver : parseServerChar b ≠ .reqSpacesBeforeUrl ∧ parseServerChar b ≠ .reqSchema := by
    rw [parseServerChar]
    split_ifs <;> decide
  have hquery : parseQueryChar b ≠ .reqSpacesBeforeUrl ∧ parseQueryChar b ≠ .reqSchema := by
    rw [parseQueryChar]
    split_ifs <;> decide
  unfold parseUrlChar
  split
  · decide
  · -- The first two states are excluded, the others have the cases of a path, a server or a query.
    split
    · exact absurd rfl hs.1
    · exact absurd rfl hs.2
    all_goals first
      | exact hserver
      | exact hquery
      | decide
      | split_ifs <;> first
        | exact hserver
        | decide

theorem parseUrlLoop_schema_eq {s : State} {old : Option UrlField} {off : Nat} {u : HttpParserUrl}
    {foundAt : Bool} {buf : Bytes} (hs : s ≠ .reqSpacesBeforeUrl ∧ s ≠ .reqSchema)
    (h : parseUrlLoop s old off u foundAt buf = some r) : r.1 .schema = u .schema := by
  have hne : ∀ {s : State} {f : UrlField}, s ≠ .reqSchema → urlFieldOf s = some f →
      UrlField.schema ≠ f := by
    intro s f hs hf
    rintro rfl
    cases s <;> first
      | exact absurd rfl hs
      | exact absurd hf (by decide)
  induction buf generalizing s old off u foundAt with
  | nil =>
    rw [parseUrlLoop, Option.some.injEq] at h
    rw [← h]
  | cons b buf ih =>
    have hb := parseUrlChar_behind hs b
    rw [parseUrlLoop] at h
    split at h
    · cases h
    · split at h
      · exact ih hb h
      · rename_i f hf
        rw [ih hb h]
        split
        · exact u.extend_of_ne (hne hb.2 hf)
        · exact u.begin_of_ne _ _ (hne hb.2 hf)

end Schema

/-! ## An absolute url -/

/-- A schema: a letter, and then letters, digits, plus signs, dashes and dots. -/
structure IsSchema (schema : Bytes) : Prop where
  letter : ∀ c ∈ schema.head?, isAlpha c = true
  nonempty : schema ≠ []
  char : ∀ b ∈ schema, (isAlphanum b || (str "+-.").contains b) = true

/-- What may stand behind an authority. -/
def BeginsTarget (t : Bytes) : Prop := t = [] ∨ ∃ t', t = chr '/' :: t' ∨ t = chr '?' :: t'

theorem beginsTarget_iff {t : Bytes} :
    BeginsTarget t ↔ t.head? = none ∨ t.head? = some (chr '/') ∨ t.head? = some (chr '?') := by
  rw [BeginsTarget, List.head?_eq_none_iff, List.head?_eq_some_iff, List.head?_eq_some_iff, exists_or]

theorem IsSchema.colon_notMem {schema : Bytes} (h : IsSchema schema) : chr ':' ∉ schema := by
  intro hc
  exact absurd (h.char _ hc) (by decide)

section Absolute

variable {schema auth t : Bytes}

/-- The fields of an absolute url whose schema has `n` bytes and whose authority has `m`. -/
structure Found (n m : Nat) (t : Bytes) (u : HttpParserUrl) : Prop where
  schema : u .schema = some (0, n % 2 ^ 16)
  path : u .path = if targetPath t = [] then none else
    some ((n + 3 + m) % 2 ^ 16, (targetPath t).length % 2 ^ 16)
  query : u .query = if targetQuery t = [] then none else
    some ((n + 3 + m + (targetPath t).length + 1) % 2 ^ 16, (targetQuery t).length % 2 ^ 16)

/-- The fields that the loop over the url finds. -/
theorem parseUrlLoop_absolute {r : HttpParserUrl × Bool} (hs : IsSchema schema) (hne : auth ≠ [])
    (hauth : ∀ b ∈ auth, (isRegNameChar b || b == chr ':') = true) (ht : BeginsTarget t)
    (h : parseUrlLoop .reqSpacesBeforeUrl none 0 (fun _ => none) false
      (schema ++ (str "://" ++ (auth ++ t))) = some r) :
    (∀ b ∈ schema, isAlpha b = true) ∧ r.2 = false ∧ Found schema.length auth.length t r.1 ∧
      r.1 .host = some ((schema.length + 3) % 2 ^ 16, auth.length % 2 ^ 16) ∧ r.1 .port = none := by
  obtain ⟨c, a, rfl⟩ := List.exists_cons_of_ne_nil hs.nonempty
  obtain ⟨d, e, rfl⟩ := List.exists_cons_of_ne_nil hne
  have hc : isAlpha c = true := hs.letter c rfl
  obtain ⟨ha, hletters⟩ :=
    letters_of_accepted hc (fun h => hs.colon_notMem (List.mem_cons_of_mem c h)) h
  rw [parseUrlLoop_schema (parseUrlChar_isAlpha hc) ha,
    parseUrlLoop_segment (parseUrlChar_reqServer (hauth d List.mem_cons_self)).2 (by decide) rfl
      (by decide) (fun b hb => (parseUrlChar_reqServer (hauth b (List.mem_cons_of_mem d hb))).1)] at h
  generalize (c :: a).length = n at h ⊢
  generalize (d :: e).length = m at h ⊢
  refine ⟨hletters, ?_⟩
  rcases ht with rfl | ⟨t, rfl | rfl⟩
  · rw [parseUrlLoop, Option.some.injEq] at h
    rw [← h]
    exact ⟨rfl, ⟨rfl, rfl, rfl⟩, rfl, rfl⟩
  · obtain ⟨hat, hg, hpath, hquery⟩ := parseUrlLoop_target rfl (by decide) rfl h
    refine ⟨hat, ⟨?_, ?_, hquery⟩, ?_, ?_⟩
    · rw [hg .schema (by decide) (by decide) (by decide)]
      rfl
    · rw [hpath, if_neg (by rw [targetPath_cons]; simp)]
    · rw [hg .host (by decide) (by decide) (by decide)]
      rfl
    · rw [hg .port (by decide) (by decide) (by decide)]
      rfl
  · have hpath : targetPath (chr '?' :: t) = [] := rfl
    have hquery : targetQuery (chr '?' :: t) = t.takeWhile fun b => b != chr '#' := rfl
    have hmark : parseUrlChar .reqServer (chr '?') = .reqQueryStringStart := rfl
    have hno := hash_notMem_targetQuery (chr '?' :: t)
    rw [hquery] at hno
    rw [parseUrlLoop_delimiter hmark (by decide) (by decide) rfl,
      ← List.takeWhile_append_dropWhile (p := fun b => b != chr '#') (l := t)] at h
    obtain ⟨hat, hg, hq⟩ := parseUrlLoop_query hno (isFragment_dropWhile t) (by decide) h
    refine ⟨hat, ⟨?_, ?_, ?_⟩, ?_, ?_⟩
    · rw [hg .schema (by decide) (by decide)]
      rfl
    · rw [hg .path (by decide) (by decide), hpath]
      rfl
    · rw [hq, hquery, hpath]
      rfl
    · rw [hg .host (by decide) (by decide)]
      rfl
    · rw [hg .port (by decide) (by decide)]
      rfl

/-- An absolute url, in three parts. -/
def absoluteUrl (schema auth t : Bytes) : Bytes := schema ++ (str "://" ++ (auth ++ t))

theorem getUriField_stored {buf x : Bytes} {u : HttpParserUrl} {f : UrlField} {off : Nat}
    (h : u f = if x = [] then none else some (off % 2 ^ 16, x.length % 2 ^ 16)) :
    getUriField buf u f = stored buf off x.length := by
  rw [getUriField, h]
  by_cases hx : x = []
  · rw [if_pos hx, hx, stored]
    rfl
  · rw [if_neg hx]
    rfl

/-- What is read of an absolute url: the schema, the path and the query where they are stored,
and the host and the port in what is stored for the authority. -/
structure ReadAs (schema auth t : Bytes) (hp : HttpParserUrl) : Prop where
  letters : ∀ b ∈ schema, isAlpha b = true
  ofSchema : getUriField (absoluteUrl schema auth t) hp .schema =
    stored (absoluteUrl schema auth t) 0 schema.length
  ofPath : getUriField (absoluteUrl schema auth t) hp .path =
    stored (absoluteUrl schema auth t) (schema.length + 3 + auth.length) (targetPath t).length
  ofQuery : getUriField (absoluteUrl schema auth t) hp .query =
    stored (absoluteUrl schema auth t) (schema.length + 3 + auth.length + (targetPath t).length + 1)
      (targetQuery t).length
  ofHost : ∃ (u : HttpParserUrl) (s : HostState), u .port = none ∧
    parseHostLoop .hostStart ((schema.length + 3) % 2 ^ 16)
      (u.begin .host ((schema.length + 3) % 2 ^ 16) 0)
      (stored (absoluteUrl schema auth t) (schema.length + 3) auth.length) = some (s, hp)

theorem parseUrl_absolute_stored {hp : HttpParserUrl} (hs : IsSchema schema) (hne : auth ≠ [])
    (hauth : ∀ b ∈ auth, (isRegNameChar b || b == chr ':') = true) (ht : BeginsTarget t)
    (h : httpParserParseUrl (absoluteUrl schema auth t) = some hp) : ReadAs schema auth t hp := by
  obtain ⟨r, hloop, hr⟩ := parseUrl_some h
  obtain ⟨hletters, hat, hfound, hhost, hport⟩ := parseUrlLoop_absolute hs hne hauth ht hloop
  rcases hr with ⟨hnone, -⟩ | ⟨off, len, hsome, hparse⟩
  · rw [hhost] at hnone
    exact absurd hnone (by simp)
  · rw [hhost, Option.some.injEq, Prod.mk.injEq] at hsome
    obtain ⟨rfl, rfl⟩ := hsome
    have hother : ∀ g, g ≠ .host ∧ g ≠ .port ∧ g ≠ .userinfo → hp g = r.1 g := fun g hg =>
      httpParseHost_other hg hparse
    obtain ⟨s, hloop'⟩ := httpParseHost_some hparse
    rw [hat, if_neg (by decide)] at hloop'
    refine ⟨hletters, ?_, getUriField_stored ?_, getUriField_stored ?_, r.1, s, hport, hloop'⟩
    · rw [getUriField, hother .schema (by decide), hfound.schema]
      rfl
    · rw [hother .path (by decide), hfound.path]
    · rw [hother .query (by decide), hfound.query]

end Absolute

/-! ## The host and the port -/

section Authority

variable {off : Nat} {u : HttpParserUrl} {r : HostState × HttpParserUrl}

/-- The length of the host found so far. -/
def HttpParserUrl.hostLength (u : HttpParserUrl) : Nat := ((u .host).map Prod.snd).getD 0

theorem hostLength_extend_le (u : HttpParserUrl) : (u.extend .host).hostLength ≤ u.hostLength + 1 := by
  rw [HttpParserUrl.hostLength, HttpParserUrl.hostLength, HttpParserUrl.extend, if_pos rfl]
  cases u .host with
  | none => exact Nat.zero_le _
  | some x => exact Nat.mod_le _ _

theorem hostLength_hostField_host_le (u : HttpParserUrl) (same : Bool) (off : Nat) :
    (hostField u .host same off (((u .host).map Prod.snd).getD 0 + 1)).hostLength ≤ u.hostLength + 1 := by
  rw [hostField]
  split
  · exact hostLength_extend_le u
  · rw [HttpParserUrl.hostLength, u.begin_self]
    exact le_rfl

theorem hostLength_hostField_of_ne {f : UrlField} (h : .host ≠ f) (u : HttpParserUrl) (same : Bool)
    (off len : Nat) : (hostField u f same off len).hostLength = u.hostLength := by
  rw [HttpParserUrl.hostLength, HttpParserUrl.hostLength, hostField]
  split
  · rw [u.extend_of_ne h]
  · rw [u.begin_of_ne _ _ h]

/-- The host is no longer than the text. -/
theorem parseHostLoop_length_le {s : HostState} {bs : Bytes} (h : parseHostLoop s off u bs = some r) :
    r.2.hostLength ≤ u.hostLength + bs.length := by
  induction bs generalizing s off u with
  | nil =>
    rw [parseHostLoop, Option.some.injEq] at h
    rw [← h, List.length_nil, Nat.add_zero]
  | cons b bs ih =>
    rw [List.length_cons]
    rw [parseHostLoop] at h
    split at h
    · cases h
    · have := hostLength_hostField_host_le u (s == .host) off
      exact (ih h).trans (by omega)
    · have := hostLength_hostField_host_le u (s == .v6) off
      exact (ih h).trans (by omega)
    · have := hostLength_extend_le u
      exact (ih h).trans (by omega)
    · have := hostLength_extend_le u
      exact (ih h).trans (by omega)
    · have := hostLength_hostField_of_ne (f := .port) (by decide) u (s == .port) off 1
      exact (ih h).trans (by omega)
    · have := hostLength_hostField_of_ne (f := .userinfo) (by decide) u (s == .userinfo) off 1
      exact (ih h).trans (by omega)
    · exact (ih h).trans (by omega)

theorem httpParseHostChar_digit {s : HostState} {b : Byte} (hs : s = .portStart ∨ s = .port)
    (hb : isNum b = true) : httpParseHostChar s b = .port := by
  rcases hs with rfl | rfl
  · simp only [httpParseHostChar, hb, if_true]
  · simp only [httpParseHostChar, hb, if_true]

theorem parseHostLoop_digits {ds : Bytes} (hd : ∀ b ∈ ds, isNum b = true) (start : Nat) {len : Nat}
    (hlen : len < 2 ^ 16) :
    parseHostLoop .port off (u.begin .port start len) ds =
      some (.port, u.begin .port start ((len + ds.length) % 2 ^ 16)) := by
  induction ds generalizing off len with
  | nil => rw [parseHostLoop, List.length_nil, Nat.add_zero, Nat.mod_eq_of_lt hlen]
  | cons b ds ih =>
    rw [parseHostLoop, httpParseHostChar_digit (Or.inr rfl) (hd b List.mem_cons_self)]
    simp only [hostField, beq_self_eq_true, if_true]
    rw [u.extend_begin, ih (fun x hx => hd x (List.mem_cons_of_mem b hx)) (Nat.mod_lt _ (by norm_num)),
      Nat.mod_add_mod, List.length_cons, Nat.add_assoc, Nat.add_comm 1]

/-- The port is what stands behind the colon. -/
theorem parseHostLoop_portStart {ds : Bytes} (hne : ds ≠ []) (hd : ∀ b ∈ ds, isNum b = true) :
    parseHostLoop .portStart off u ds = some (.port, u.begin .port off (ds.length % 2 ^ 16)) := by
  obtain ⟨b, ds, rfl⟩ := List.exists_cons_of_ne_nil hne
  have hfirst : hostField u .port (HostState.portStart == .port) off 1 = u.begin .port off 1 := rfl
  rw [parseHostLoop, httpParseHostChar_digit (Or.inl rfl) (hd b List.mem_cons_self)]
  simp only [hfirst]
  rw [parseHostLoop_digits (fun x hx => hd x (List.mem_cons_of_mem b hx)) off (by norm_num),
    List.length_cons, Nat.add_comm 1]

/-- The name in front of the port is read to its end, and marks no port. -/
theorem parseHostLoop_behind {s : HostState} {a b : Bytes} (hs : s = .hostStart ∨ s = .host)
    (ha : ∀ c ∈ a, isRegNameChar c = true) (hne : s = .hostStart → a ≠ [])
    (h : parseHostLoop s off u (a ++ b) = some r) :
    ∃ u', u' .port = u .port ∧ parseHostLoop .host (off + a.length) u' b = some r := by
  induction a generalizing s off u with
  | nil =>
    rcases hs with rfl | rfl
    · exact absurd rfl (hne rfl)
    · exact ⟨u, rfl, h⟩
  | cons c a ih =>
    have hc := ha c List.mem_cons_self
    have hcolon : c ≠ chr ':' := by
      rintro rfl
      exact absurd hc (by decide)
    have hbracket : c ≠ chr '[' := by
      rintro rfl
      exact absurd hc (by decide)
    have hchar : httpParseHostChar s c = .host ∨ httpParseHostChar s c = .dead := by
      rcases hs with rfl | rfl
      · exact httpParseHostChar_hostStart hbracket
      · exact httpParseHostChar_host hcolon
    rw [List.cons_append, parseHostLoop] at h
    rcases hchar with hchar | hchar
    · rw [hchar] at h
      obtain ⟨u', hport, h'⟩ := ih (Or.inr rfl) (fun x hx => ha x (List.mem_cons_of_mem c hx))
        (by simp) h
      refine ⟨u', hport.trans ?_, ?_⟩
      · rw [hostField]
        split
        · exact u.extend_of_ne (by decide)
        · exact u.begin_of_ne _ _ (by decide)
      · rw [List.length_cons, Nat.add_comm a.length, ← Nat.add_assoc]
        exact h'
    · rw [hchar] at h
      cases h

/-- In a text that begins with a name, the host is the name, and the port what stands behind it. -/
theorem parseHostLoop_authority {name : Bytes} {digits : Option Bytes} (hne : name ≠ [])
    (hname : ∀ b ∈ name, isRegNameChar b = true)
    (hdigits : ∀ ds ∈ digits, ds ≠ [] ∧ ∀ b ∈ ds, isNum b = true) (hoff : off < 2 ^ 16)
    (hlen : name.length < 2 ^ 16) (hu : u .port = none)
    (h : parseHostLoop .hostStart off (u.begin .host off 0) (authority name digits) = some r) :
    r.2 .host = some (off, name.length) ∧
      r.2 .port = digits.map fun ds => ((off + name.length + 1) % 2 ^ 16, ds.length % 2 ^ 16) := by
  constructor
  · obtain ⟨b, hsplit, hb⟩ := authority_split name digits
    rw [hsplit] at h
    exact (parseHostLoop_name hne hname hb hoff hlen h).1
  · cases digits with
    | none =>
      rw [authority, ← List.append_nil name] at h
      obtain ⟨u', hport, h'⟩ := parseHostLoop_behind (Or.inl rfl) hname (fun _ => hne) h
      rw [parseHostLoop, Option.some.injEq] at h'
      rw [← h']
      exact hport.trans ((u.begin_of_ne _ _ (by decide)).trans hu)
    | some ds =>
      obtain ⟨hds, hnum⟩ := hdigits ds rfl
      obtain ⟨u', -, h'⟩ := parseHostLoop_behind (Or.inl rfl) hname (fun _ => hne) h
      have hcolon : httpParseHostChar .host (chr ':') = .portStart := rfl
      rw [parseHostLoop, hcolon] at h'
      simp only at h'
      rw [parseHostLoop_portStart hds hnum, Option.some.injEq] at h'
      rw [← h']
      exact u'.begin_self .port (off + name.length + 1) (ds.length % 2 ^ 16)

end Authority

end HttpProxy
