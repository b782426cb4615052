import HttpProxy.Message.Authority

/-!
# What the url parser finds

`http_parser_parse_url` walks over the url one byte at a time and marks the
fields as it enters them.  A field is read by one lemma per stretch of bytes that
keeps its state (`parseUrlLoop_segment`), and a url that is accepted leaves no
other way: a byte that does not keep the state is an error or a separator.

* `targetPath`, `targetQuery` — the path and the query of an origin-form target.
* `parseUrlLoop_target` — the fields behind the authority are those of the target.
* `parseHostLoop_name` — the host is the name in front of the port.
* `parseUrl_absolute`, `parseUrl_origin` — both together, for a target with an
  authority in front and for one without.
-/

namespace HttpProxy

/-! ## Origin-form targets -/

/-- A byte that ends neither the path nor the query. -/
def inPath (b : Byte) : Bool := b != chr '?' && b != chr '#'

/-- The path of a target. -/
def targetPath (t : Bytes) : Bytes := t.takeWhile inPath

/-- The query of a target. -/
def targetQuery (t : Bytes) : Bytes :=
  match t.dropWhile inPath with
  | [] => []
  | b :: rest => if b = chr '?' then rest.takeWhile fun b => b != chr '#' else []

/-- What may stand behind the query of a target. -/
def IsFragment (r : Bytes) : Prop := r = [] ∨ ∃ f, r = chr '#' :: f

theorem isFragment_dropWhile (t : Bytes) : IsFragment (t.dropWhile fun b => b != chr '#') := by
  cases h : t.dropWhile fun b => b != chr '#' with
  | nil => exact Or.inl rfl
  | cons b f =>
    have hb := List.head?_dropWhile_not (fun b => b != chr '#') t
    rw [h] at hb
    have : b = chr '#' := by simpa using hb
    exact Or.inr ⟨f, by rw [this]⟩

/-- A target is its path, its query if it has one, and a fragment. -/
theorem target_split (t : Bytes) :
    (∃ r, IsFragment r ∧ t = targetPath t ++ r ∧ targetQuery t = []) ∨
      ∃ r, IsFragment r ∧ t = targetPath t ++ chr '?' :: (targetQuery t ++ r) := by
  have ht : t = targetPath t ++ t.dropWhile inPath := List.takeWhile_append_dropWhile.symm
  cases h : t.dropWhile inPath with
  | nil => exact Or.inl ⟨[], Or.inl rfl, by rw [h] at ht; exact ht, by rw [targetQuery, h]⟩
  | cons b rest =>
    have hb := List.head?_dropWhile_not inPath t
    rw [h] at hb
    by_cases hq : b = chr '?'
    · refine Or.inr ⟨rest.dropWhile fun b => b != chr '#', isFragment_dropWhile rest, ?_⟩
      rw [targetQuery, h]
      simp only [if_pos hq, List.takeWhile_append_dropWhile]
      rw [← hq, ← h]
      exact ht
    · have hf : b = chr '#' := by simpa [inPath, hq] using hb
      refine Or.inl ⟨b :: rest, Or.inr ⟨rest, by rw [hf]⟩, by rw [h] at ht; exact ht, ?_⟩
      rw [targetQuery, h]
      simp only [if_neg hq]

/-! ## The fields of a url -/

namespace HttpParserUrl

theorem extend_begin (u : HttpParserUrl) (f : UrlField) (off len : Nat) :
    (u.begin f off len).extend f = u.begin f off ((len + 1) % 2 ^ 16) := by
  funext g
  simp only [extend, begin, if_true, Option.map_some]
  split <;> rfl

theorem begin_begin (u : HttpParserUrl) (f : UrlField) (off len off' len' : Nat) :
    (u.begin f off len).begin f off' len' = u.begin f off' len' := by
  funext g
  simp only [begin]
  split <;> rfl

theorem begin_self (u : HttpParserUrl) (f : UrlField) (off len : Nat) :
    u.begin f off len f = some (off % 2 ^ 16, len) := by
  rw [begin, if_pos rfl]

theorem begin_of_ne (u : HttpParserUrl) {f g : UrlField} (off len : Nat) (h : g ≠ f) :
    u.begin f off len g = u g := by
  rw [begin, if_neg h]

theorem extend_of_ne (u : HttpParserUrl) {f g : UrlField} (h : g ≠ f) : u.extend f g = u g := by
  rw [extend, if_neg h]

end HttpParserUrl

/-! ## One byte of a url -/

section Loop

variable {s s' : State} {old : Option UrlField} {f : UrlField} {off : Nat} {u : HttpParserUrl}
  {foundAt : Bool} {ch : Byte} {rest : Bytes}

theorem parseUrlLoop_dead (h : parseUrlChar s ch = .dead) :
    parseUrlLoop s old off u foundAt (ch :: rest) = none := by
  rw [parseUrlLoop, h]
  rfl

theorem parseUrlLoop_delimiter (h : parseUrlChar s ch = s') (hd : s' ≠ .dead)
    (hat : s' ≠ .reqServerWithAt) (hf : urlFieldOf s' = none) :
    parseUrlLoop s old off u foundAt (ch :: rest) =
      parseUrlLoop s' old (off + 1) u foundAt rest := by
  rw [parseUrlLoop, h]
  simp only [if_neg hd, hf, beq_eq_false_iff_ne.2 hat, Bool.or_false]

theorem parseUrlLoop_field (h : parseUrlChar s ch = s') (hat : s' ≠ .reqServerWithAt)
    (hf : urlFieldOf s' = some f) :
    parseUrlLoop s old off u foundAt (ch :: rest) =
      parseUrlLoop s' (some f) (off + 1) (if old = some f then u.extend f else u.begin f off 1)
        foundAt rest := by
  have hd : s' ≠ .dead := by
    rintro rfl
    simp [urlFieldOf] at hf
  rw [parseUrlLoop, h]
  simp only [if_neg hd, hf, beq_eq_false_iff_ne.2 hat, Bool.or_false]

/-! ## A stretch of bytes that keeps the state -/

theorem parseUrlLoop_stretch {a : Bytes} (hat : s ≠ .reqServerWithAt)
    (hf : urlFieldOf s = some f) (ha : ∀ b ∈ a, parseUrlChar s b = s) (off start : Nat)
    {len : Nat} (hlen : len < 2 ^ 16) :
    parseUrlLoop s (some f) off (u.begin f start len) foundAt (a ++ rest) =
      parseUrlLoop s (some f) (off + a.length) (u.begin f start ((len + a.length) % 2 ^ 16)) foundAt
        rest := by
  induction a generalizing off len with
  | nil =>
    rw [List.length_nil, Nat.add_zero, Nat.add_zero, Nat.mod_eq_of_lt hlen, List.nil_append]
  | cons b a ih =>
    rw [List.cons_append, parseUrlLoop_field (ha b List.mem_cons_self) hat hf, if_pos rfl,
      HttpParserUrl.extend_begin u f start, ih (fun x hx => ha x (List.mem_cons_of_mem b hx)) (off + 1)
        (Nat.mod_lt _ (by norm_num)), List.length_cons, Nat.mod_add_mod, Nat.add_right_comm off,
      Nat.add_right_comm len, Nat.add_assoc off, Nat.add_assoc len]

/-- A field of the url, from its first byte on.  Its length is a number of 16 bits. -/
theorem parseUrlLoop_segment {b : Byte} {a : Bytes} (hb : parseUrlChar s b = s')
    (hat : s' ≠ .reqServerWithAt) (hf : urlFieldOf s' = some f) (hold : old ≠ some f)
    (ha : ∀ b ∈ a, parseUrlChar s' b = s') :
    parseUrlLoop s old off u foundAt (b :: a ++ rest) =
      parseUrlLoop s' (some f) (off + (b :: a).length) (u.begin f off ((b :: a).length % 2 ^ 16))
        foundAt rest := by
  rw [List.cons_append, parseUrlLoop_field hb hat hf, if_neg hold,
    parseUrlLoop_stretch hat hf ha (off + 1) off (by norm_num), List.length_cons,
    Nat.add_right_comm off, Nat.add_comm 1, Nat.add_assoc off]

/-- Where every byte keeps the state or is an error, an accepted url keeps it. -/
theorem parseUrlLoop_keeps {a : Bytes} (hat : s ≠ .reqServerWithAt) (hf : urlFieldOf s = some f)
    (hor : ∀ b ∈ a, parseUrlChar s b = s ∨ parseUrlChar s b = .dead)
    (h : parseUrlLoop s old off u foundAt (a ++ rest) ≠ none) :
    ∀ b ∈ a, parseUrlChar s b = s := by
  induction a generalizing old off u with
  | nil => simp
  | cons b a ih =>
    rcases hor b List.mem_cons_self with hb | hb
    · rw [List.cons_append, parseUrlLoop_field hb hat hf] at h
      have hrest := ih (fun x hx => hor x (List.mem_cons_of_mem b hx)) h
      intro x hx
      rcases List.mem_cons.1 hx with rfl | hx
      · exact hb
      · exact hrest x hx
    · rw [List.cons_append, parseUrlLoop_dead hb] at h
      exact absurd rfl h

end Loop

/-! ## The path, the query and the fragment -/

section Target

variable {s : State} {old : Option UrlField} {off : Nat} {u : HttpParserUrl} {foundAt : Bool}
  {r : HttpParserUrl × Bool}

theorem parseUrlChar_reqPath {b : Byte} (h : inPath b = true) :
    parseUrlChar .reqPath b = .reqPath ∨ parseUrlChar .reqPath b = .dead := by
  rw [inPath, Bool.and_eq_true, bne_iff_ne, bne_iff_ne] at h
  rw [parseUrlChar]
  split
  · exact Or.inr rfl
  · simp only [h.1, h.2, if_false]
    split
    · exact Or.inl rfl
    · exact Or.inr rfl

theorem parseUrlChar_reqQueryString {b : Byte} (h : b ≠ chr '#') :
    parseUrlChar .reqQueryString b = .reqQueryString ∨ parseUrlChar .reqQueryString b = .dead := by
  rw [parseUrlChar]
  split
  · exact Or.inr rfl
  · simp only [parseQueryChar, h, if_false]
    split
    · exact Or.inl rfl
    · split
      · exact Or.inl rfl
      · exact Or.inr rfl

theorem parseUrlChar_fragment (hs : s = .reqFragmentStart ∨ s = .reqFragment) (b : Byte) :
    parseUrlChar s b = .reqFragmentStart ∨ parseUrlChar s b = .reqFragment ∨
      parseUrlChar s b = .dead := by
  rcases hs with rfl | rfl
  · rw [parseUrlChar]
    split_ifs <;> simp
  · rw [parseUrlChar]
    split_ifs <;> simp

/-- The fragment touches no other field. -/
theorem parseUrlLoop_fragment {t : Bytes} (hs : s = .reqFragmentStart ∨ s = .reqFragment)
    (h : parseUrlLoop s old off u foundAt t = some r) :
    r.2 = foundAt ∧ ∀ g ≠ .fragment, r.1 g = u g := by
  induction t generalizing s old off u with
  | nil =>
    rw [parseUrlLoop, Option.some.injEq] at h
    subst h
    exact ⟨rfl, fun g _ => rfl⟩
  | cons b t ih =>
    rcases parseUrlChar_fragment hs b with hb | hb | hb
    · rw [parseUrlLoop_delimiter hb (by decide) (by decide) rfl] at h
      exact ih (Or.inl rfl) h
    · rw [parseUrlLoop_field hb (by decide) rfl] at h
      obtain ⟨hat, hg⟩ := ih (Or.inr rfl) h
      refine ⟨hat, fun g hne => (hg g hne).trans ?_⟩
      split
      · exact u.extend_of_ne hne
      · exact u.begin_of_ne _ _ hne
    · rw [parseUrlLoop_dead hb] at h
      exact absurd h (by simp)

/-- What stands behind the path or the query is a fragment. -/
theorem parseUrlLoop_tail {t : Bytes} (ht : IsFragment t)
    (hs : parseUrlChar s (chr '#') = .reqFragmentStart)
    (h : parseUrlLoop s old off u foundAt t = some r) :
    r.2 = foundAt ∧ ∀ g ≠ .fragment, r.1 g = u g := by
  rcases ht with rfl | ⟨f, rfl⟩
  · rw [parseUrlLoop, Option.some.injEq] at h
    subst h
    exact ⟨rfl, fun g _ => rfl⟩
  · rw [parseUrlLoop_delimiter hs (by decide) (by decide) rfl] at h
    exact parseUrlLoop_fragment (Or.inl rfl) h

/-- The query of a target, from the byte behind the question mark on. -/
theorem parseUrlLoop_query {q t : Bytes} (hq : chr '#' ∉ q) (ht : IsFragment t)
    (hold : old ≠ some .query)
    (h : parseUrlLoop .reqQueryStringStart old off u foundAt (q ++ t) = some r) :
    r.2 = foundAt ∧ (∀ g, g ≠ .fragment → g ≠ .query → r.1 g = u g) ∧
      r.1 .query = if q = [] then u .query else some (off % 2 ^ 16, q.length % 2 ^ 16) := by
  cases q with
  | nil =>
    obtain ⟨hat, hg⟩ := parseUrlLoop_tail ht rfl h
    exact ⟨hat, fun g hne _ => hg g hne, hg .query (by decide)⟩
  | cons b q =>
    have hchar : ∀ b ∈ q, b ≠ chr '#' := fun b hb hc => hq (hc ▸ List.mem_cons_of_mem _ hb)
    have hb : parseUrlChar .reqQueryStringStart b = .reqQueryString ∨
        parseUrlChar .reqQueryStringStart b = .dead :=
      parseUrlChar_reqQueryString fun hc => hq (hc ▸ List.mem_cons_self)
    rcases hb with hb | hb
    · have hrest := h
      rw [List.cons_append, parseUrlLoop_field hb (by decide) rfl] at hrest
      have hkeeps : ∀ b ∈ q, parseUrlChar .reqQueryString b = .reqQueryString :=
        parseUrlLoop_keeps (by decide) rfl
          (fun b hb => parseUrlChar_reqQueryString (hchar b hb))
          (Option.ne_none_iff_exists'.2 ⟨r, hrest⟩)
      rw [parseUrlLoop_segment hb (by decide) rfl hold hkeeps] at h
      obtain ⟨hat, hg⟩ := parseUrlLoop_tail ht rfl h
      refine ⟨hat, fun g hne hne' => (hg g hne).trans (u.begin_of_ne _ _ hne'), ?_⟩
      rw [hg .query (by decide), if_neg (by simp), HttpParserUrl.begin, if_pos rfl]
    · rw [List.cons_append, parseUrlLoop_dead hb] at h
      exact absurd h (by simp)

/-- The path of a target. -/
theorem parseUrlLoop_path {p t : Bytes} (hp : ∀ b ∈ p, inPath b = true)
    (hs : parseUrlChar s (chr '/') = .reqPath) (hold : old ≠ some .path)
    (h : parseUrlLoop s old off u foundAt (chr '/' :: p ++ t) = some r) :
    parseUrlLoop .reqPath (some .path) (off + (chr '/' :: p).length)
      (u.begin .path off ((chr '/' :: p).length % 2 ^ 16)) foundAt t = some r := by
  have hrest := h
  rw [List.cons_append, parseUrlLoop_field hs (by decide) rfl] at hrest
  have hkeeps : ∀ b ∈ p, parseUrlChar .reqPath b = .reqPath :=
    parseUrlLoop_keeps (by decide) rfl (fun b hb => parseUrlChar_reqPath (hp b hb))
      (Option.ne_none_iff_exists'.2 ⟨r, hrest⟩)
  rwa [parseUrlLoop_segment hs (by decide) rfl hold hkeeps] at h

theorem targetPath_cons (t : Bytes) :
    targetPath (chr '/' :: t) = chr '/' :: t.takeWhile inPath := rfl

theorem hash_notMem_targetQuery (t : Bytes) : chr '#' ∉ targetQuery t := by
  rw [targetQuery]
  cases t.dropWhile inPath with
  | nil => simp
  | cons b rest =>
    simp only
    split
    · intro hc
      exact absurd (List.mem_takeWhile_imp hc) (by decide)
    · simp

/-- The fields of an accepted url behind its authority: the path and the query are
those of the target, with offsets and lengths of 16 bits, and nothing in front of them is
touched. -/
theorem parseUrlLoop_target {t : Bytes} (hs : parseUrlChar s (chr '/') = .reqPath)
    (hold : old ≠ some .path) (hu : u .query = none)
    (h : parseUrlLoop s old off u foundAt (chr '/' :: t) = some r) :
    r.2 = foundAt ∧
      (∀ g, g ≠ .fragment → g ≠ .query → g ≠ .path → r.1 g = u g) ∧
      r.1 .path = some (off % 2 ^ 16, (targetPath (chr '/' :: t)).length % 2 ^ 16) ∧
      r.1 .query = if targetQuery (chr '/' :: t) = [] then none else
        some ((off + (targetPath (chr '/' :: t)).length + 1) % 2 ^ 16,
          (targetQuery (chr '/' :: t)).length % 2 ^ 16) := by
  have hp : ∀ b ∈ t.takeWhile inPath, inPath b = true := fun b hb => List.mem_takeWhile_imp hb
  have hq := hash_notMem_targetQuery (chr '/' :: t)
  have hsplit := target_split (chr '/' :: t)
  rw [targetPath_cons] at hsplit ⊢
  generalize targetQuery (chr '/' :: t) = q at hq hsplit ⊢
  generalize t.takeWhile inPath = p at hp hsplit ⊢
  rcases hsplit with ⟨rest, hrest, heq, rfl⟩ | ⟨rest, hrest, heq⟩
  · rw [heq] at h
    obtain ⟨hat, hg⟩ := parseUrlLoop_tail hrest rfl (parseUrlLoop_path hp hs hold h)
    refine ⟨hat, fun g h1 _ h3 => (hg g h1).trans (u.begin_of_ne _ _ h3), ?_, ?_⟩
    · rw [hg .path (by decide), u.begin_self]
    · rw [hg .query (by decide), u.begin_of_ne _ _ (by decide), if_pos rfl, hu]
  · rw [heq] at h
    have hpath := parseUrlLoop_path hp hs hold h
    have hmark : parseUrlChar .reqPath (chr '?') = .reqQueryStringStart := rfl
    rw [parseUrlLoop_delimiter hmark (by decide) (by decide) rfl] at hpath
    obtain ⟨hat, hg, hquery⟩ := parseUrlLoop_query hq hrest (by decide) hpath
    refine ⟨hat, fun g h1 h2 h3 => (hg g h1 h2).trans (u.begin_of_ne _ _ h3), ?_, ?_⟩
    · rw [hg .path (by decide) (by decide), u.begin_self]
    · rw [hquery, u.begin_of_ne _ _ (by decide), hu]

/-- The path and the query of a target. -/
theorem length_target_le (t : Bytes) :
    (targetPath t).length ≤ t.length ∧
      (targetQuery t = [] ∨ (targetPath t).length + 1 + (targetQuery t).length ≤ t.length) := by
  refine ⟨(List.takeWhile_prefix inPath).length_le, ?_⟩
  rcases target_split t with ⟨r, -, -, hnil⟩ | ⟨r, -, heq⟩
  · exact Or.inl hnil
  · have hlen := congrArg List.length heq
    rw [List.length_append, List.length_cons, List.length_append] at hlen
    exact Or.inr (by omega)

end Target

/-! ## The host and the port -/

section Host

variable {off : Nat} {u : HttpParserUrl} {r : HostState × HttpParserUrl}

theorem parseHostLoop_port {s : HostState} {bs : Bytes} (hs : s = .portStart ∨ s = .port)
    (h : parseHostLoop s off u bs = some r) : ∀ g ≠ .port, r.2 g = u g := by
  induction bs generalizing s off u with
  | nil =>
    rw [parseHostLoop, Option.some.injEq] at h
    subst h
    exact fun g _ => rfl
  | cons b bs ih =>
    have hchar : httpParseHostChar s b = if isNum b then .port else .dead := by
      rcases hs with rfl | rfl <;> rfl
    rw [parseHostLoop, hchar] at h
    by_cases hb : isNum b = true
    · rw [if_pos hb] at h
      intro g hg
      rw [ih (Or.inr rfl) h g hg, hostField]
      split
      · exact u.extend_of_ne hg
      · exact u.begin_of_ne _ _ hg
    · rw [if_neg hb] at h
      exact absurd h (by simp)

theorem httpParseHostChar_host {b : Byte} (h : b ≠ chr ':') :
    httpParseHostChar .host b = .host ∨ httpParseHostChar .host b = .dead := by
  simp only [httpParseHostChar, if_neg h]
  split
  · exact Or.inl rfl
  · exact Or.inr rfl

theorem httpParseHostChar_hostStart {b : Byte} (h : b ≠ chr '[') :
    httpParseHostChar .hostStart b = .host ∨ httpParseHostChar .hostStart b = .dead := by
  simp only [httpParseHostChar, if_neg h]
  split
  · exact Or.inl rfl
  · exact Or.inr rfl

/-- The rest of a name, and the port behind it. -/
theorem parseHostLoop_host {a b : Bytes} (ha : chr ':' ∉ a)
    (hb : b = [] ∨ ∃ digits, b = chr ':' :: digits) {start len : Nat} (hstart : start < 2 ^ 16)
    (hlen : len + a.length < 2 ^ 16)
    (h : parseHostLoop .host off (u.begin .host start len) (a ++ b) = some r) :
    r.2 .host = some (start, len + a.length) ∧
      ∀ g, g ≠ .host → g ≠ .port → r.2 g = u g := by
  induction a generalizing off len with
  | nil =>
    rcases hb with rfl | ⟨digits, rfl⟩
    · rw [List.append_nil, parseHostLoop, Option.some.injEq] at h
      subst h
      refine ⟨?_, fun g hg _ => u.begin_of_ne _ _ hg⟩
      exact (u.begin_self .host start len).trans (by rw [Nat.mod_eq_of_lt hstart]; rfl)
    · rw [List.nil_append, parseHostLoop,
        show httpParseHostChar .host (chr ':') = .portStart from rfl] at h
      have hport := parseHostLoop_port (Or.inl rfl) h
      refine ⟨?_, fun g hg hg' => (hport g hg').trans (u.begin_of_ne _ _ hg)⟩
      rw [hport .host (by decide), u.begin_self, Nat.mod_eq_of_lt hstart]
      rfl
  | cons c a ih =>
    rw [List.mem_cons, not_or] at ha
    rw [List.length_cons] at hlen ⊢
    rcases httpParseHostChar_host (Ne.symm ha.1) with hc | hc
    · rw [List.cons_append, parseHostLoop, hc] at h
      simp only [hostField, beq_self_eq_true, if_true] at h
      rw [HttpParserUrl.extend_begin u .host start, Nat.mod_eq_of_lt (by omega)] at h
      obtain ⟨hhost, hg⟩ := ih ha.2 (by omega) h
      exact ⟨by rw [hhost, Nat.add_right_comm, Nat.add_assoc], hg⟩
    · rw [List.cons_append, parseHostLoop, hc] at h
      exact absurd h (by simp)

/-- The host of an accepted authority is the name in front of the port. -/
theorem parseHostLoop_name {a b : Bytes} (hne : a ≠ []) (ha : ∀ c ∈ a, isRegNameChar c = true)
    (hb : b = [] ∨ ∃ digits, b = chr ':' :: digits) (hoff : off < 2 ^ 16)
    (hlen : a.length < 2 ^ 16)
    (h : parseHostLoop .hostStart off (u.begin .host off 0) (a ++ b) = some r) :
    r.2 .host = some (off, a.length) ∧ ∀ g, g ≠ .host → g ≠ .port → r.2 g = u g := by
  obtain ⟨c, a, rfl⟩ := List.exists_cons_of_ne_nil hne
  have hc : c ≠ chr '[' := by
    rintro rfl
    exact absurd (ha _ List.mem_cons_self) (by decide)
  have hcolon := colon_notMem_regName fun c hc => ha c (List.mem_cons_of_mem _ hc)
  rw [List.length_cons] at hlen ⊢
  rcases httpParseHostChar_hostStart hc with hstart | hstart
  · rw [List.cons_append, parseHostLoop, hstart] at h
    have hfirst : hostField (u.begin .host off 0) .host false off
        (((u.begin .host off 0 .host).map Prod.snd).getD 0 + 1) = u.begin .host off 1 := by
      rw [u.begin_self]
      exact u.begin_begin _ _ _ _ _
    obtain ⟨hhost, hg⟩ := parseHostLoop_host hcolon hb hoff (by omega) (hfirst ▸ h)
    exact ⟨by rw [hhost, Nat.add_comm], hg⟩
  · rw [List.cons_append, parseHostLoop, hstart] at h
    exact absurd h (by simp)

/-- The authority marks no field but its own. -/
theorem parseHostLoop_other {g : UrlField} (hg : g ≠ .host ∧ g ≠ .port ∧ g ≠ .userinfo) {s : HostState}
    {off : Nat} {u : HttpParserUrl} {bs : Bytes} {r : HostState × HttpParserUrl}
    (h : parseHostLoop s off u bs = some r) : r.2 g = u g := by
  have hfield : ∀ {f : UrlField} (u : HttpParserUrl) same off len, g ≠ f →
      hostField u f same off len g = u g := by
    intro f u same off len hne
    rw [hostField]
    split
    · exact u.extend_of_ne hne
    · exact u.begin_of_ne _ _ hne
  induction bs generalizing s off u with
  | nil =>
    rw [parseHostLoop, Option.some.injEq] at h
    rw [← h]
  | cons ch bs ih =>
    rw [parseHostLoop] at h
    split at h
    · cases h
    · exact (ih h).trans (hfield u _ _ _ hg.1)
    · exact (ih h).trans (hfield u _ _ _ hg.1)
    · exact (ih h).trans (u.extend_of_ne hg.1)
    · exact (ih h).trans (u.extend_of_ne hg.1)
    · exact (ih h).trans (hfield u _ _ _ hg.2.1)
    · exact (ih h).trans (hfield u _ _ _ hg.2.2)
    · exact ih h

/-- An authority that is accepted is read to its end. -/
theorem httpParseHost_some {buf : Bytes} {len : Nat} {foundAt : Bool} {hp : HttpParserUrl}
    (h : httpParseHost buf u off len foundAt = some hp) :
    ∃ s, parseHostLoop (if foundAt then .userinfoStart else .hostStart) off (u.begin .host off 0)
      ((buf.drop off).take len) = some (s, hp) := by
  rw [httpParseHost] at h
  split at h
  · cases h
  · rename_i s u' hloop
    split at h
    · cases h
    · cases h
      exact ⟨s, hloop⟩

theorem httpParseHost_other {g : UrlField} (hg : g ≠ .host ∧ g ≠ .port ∧ g ≠ .userinfo) {buf : Bytes}
    {len : Nat} {foundAt : Bool} {hp : HttpParserUrl}
    (h : httpParseHost buf u off len foundAt = some hp) : hp g = u g := by
  obtain ⟨s, hloop⟩ := httpParseHost_some h
  exact (parseHostLoop_other hg hloop).trans (u.begin_of_ne _ _ hg.1)

end Host

/-! ## The whole url -/

section Url

variable {hp : HttpParserUrl}

theorem parseUrlChar_reqServer {b : Byte} (h : (isRegNameChar b || b == chr ':') = true) :
    parseUrlChar .reqServer b = .reqServer ∧ parseUrlChar .reqServerStart b = .reqServer := by
  revert b
  apply forall_byte
  decide +kernel

/-- The schema is read up to the two slashes. -/
theorem parseUrlLoop_schema {c : Byte} {a : Bytes}
    (hc : parseUrlChar .reqSpacesBeforeUrl c = .reqSchema)
    (ha : ∀ b ∈ a, parseUrlChar .reqSchema b = .reqSchema) (rest : Bytes) :
    parseUrlLoop .reqSpacesBeforeUrl none 0 (fun _ => none) false (c :: a ++ (str "://" ++ rest)) =
      parseUrlLoop .reqServerStart (some .schema) ((c :: a).length + 3)
        (HttpParserUrl.begin (fun _ => none) .schema 0 ((c :: a).length % 2 ^ 16)) false rest := by
  have hcolon : parseUrlChar .reqSchema (chr ':') = .reqSchemaSlash := rfl
  have hslash : parseUrlChar .reqSchemaSlash (chr '/') = .reqSchemaSlashSlash := rfl
  have hslashes : parseUrlChar .reqSchemaSlashSlash (chr '/') = .reqServerStart := rfl
  rw [parseUrlLoop_segment hc (by decide) rfl (by decide) ha,
    show str "://" = [chr ':', chr '/', chr '/'] from rfl, List.cons_append,
    parseUrlLoop_delimiter hcolon (by decide) (by decide) rfl,
    List.cons_append,
    parseUrlLoop_delimiter hslash (by decide) (by decide) rfl,
    List.cons_append,
    parseUrlLoop_delimiter hslashes (by decide) (by decide) rfl, List.nil_append, Nat.zero_add]

/-- An accepted url has a port of at most 16 bits; what is accepted is what the loop
and `http_parse_host` leave. -/
theorem parseUrl_some {buf : Bytes} (h : httpParserParseUrl buf = some hp) :
    ∃ r, parseUrlLoop .reqSpacesBeforeUrl none 0 (fun _ => none) false buf = some r ∧
      ((r.1 .host = none ∧ hp = r.1) ∨
        ∃ off len, r.1 .host = some (off, len) ∧ httpParseHost buf r.1 off len r.2 = some hp) := by
  rw [httpParserParseUrl] at h
  by_cases hnil : buf = []
  · rw [if_pos hnil] at h
    exact absurd h (by simp)
  · rw [if_neg hnil] at h
    cases hloop : parseUrlLoop .reqSpacesBeforeUrl none 0 (fun _ => none) false buf with
    | none => simp [hloop] at h
    | some r =>
      refine ⟨r, rfl, ?_⟩
      simp only [hloop] at h
      split at h
      · exact absurd h (by simp)
      · cases hhost : r.1 .host with
        | none =>
          simp only [hhost, Option.map_eq_some_iff] at h
          obtain ⟨-, -, rfl⟩ := h
          exact Or.inl ⟨rfl, rfl⟩
        | some x =>
          refine Or.inr ⟨x.1, x.2, rfl, ?_⟩
          simp only [hhost] at h
          cases hp' : httpParseHost buf r.1 x.1 x.2 r.2 with
          | none => simp [hp'] at h
          | some u' =>
            simp only [hp', Option.map_eq_some_iff] at h
            obtain ⟨-, -, rfl⟩ := h
            rfl

/-- The name is in front of the authority, and a colon or nothing behind it. -/
theorem authority_split (name : Bytes) (port : Option Bytes) :
    ∃ b, authority name port = name ++ b ∧ (b = [] ∨ ∃ digits, b = chr ':' :: digits) := by
  cases port with
  | none => exact ⟨[], (List.append_nil name).symm, Or.inl rfl⟩
  | some digits => exact ⟨chr ':' :: digits, rfl, Or.inr ⟨digits, rfl⟩⟩

end Url

end HttpProxy
