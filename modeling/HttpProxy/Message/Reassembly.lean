import HttpProxy.Message.UrlParts

/-!
# A url from its parts

An absolute url is put together again from what a fresh `SrsHttpUri` says about its parts exactly if
the parts are `Expressible`.  What is left is a url that names the host that stands for none: it is
parsed with another host in its place, and has `__defaultVhost__` for its host.

* `replaceLoop_append`, `head?_replaceLoop`, `length_replaceLoop_le` — the text that is parsed.
* `not_reassembled_of_mark` — the answers do not make up such a url.
* `reassembled_iff` — the answers make up the url exactly if its parts are expressible.
-/

namespace HttpProxy

open SrsHttpHeader (decimal srsInt2str)

/-! ## The text that is parsed -/

section Replace

variable {c : Byte} {pat new a b : Bytes}

theorem findSub_append_of_notMem (h : c ∉ a) :
    findSub (c :: pat) (a ++ b) = (findSub (c :: pat) b).map (a.length + ·) := by
  induction a with
  | nil => cases hb : findSub (c :: pat) b <;> simp [hb]
  | cons d a ih =>
    rw [List.mem_cons, not_or] at h
    have hpre : ¬ (c :: pat).isPrefixOf (d :: (a ++ b)) = true := by
      rw [List.isPrefixOf_iff_prefix, List.cons_prefix_cons]
      exact fun hc => h.1 hc.1
    rw [List.cons_append, findSub, if_neg hpre, ih h.2, Option.map_map, List.length_cons]
    congr 1
    funext k
    simp only [Function.comp_apply]
    omega

/-- A front without the first letter of the pattern stays as it is. -/
theorem replaceLoop_append (h : c ∉ a) (fuel : Nat) :
    replaceLoop (c :: pat) new fuel (a ++ b) = a ++ replaceLoop (c :: pat) new fuel b := by
  cases fuel with
  | zero => rfl
  | succ fuel =>
    rw [replaceLoop, replaceLoop, findSub_append_of_notMem h]
    cases findSub (c :: pat) b with
    | none => rfl
    | some k =>
      simp only [Option.map_some]
      rw [List.take_length_add_append, Nat.add_assoc, List.drop_length_add_append, List.append_assoc,
        List.append_assoc, List.append_assoc]

theorem replaceLoop_self_append (fuel : Nat) :
    replaceLoop pat new (fuel + 1) (pat ++ b) = new ++ replaceLoop pat new fuel b := by
  have hfind : findSub pat (pat ++ b) = some 0 := by
    refine findSub_eq_some_iff.2 ⟨⟨Nat.zero_le _, List.prefix_append pat b⟩, ?_⟩
    intro j hj
    omega
  rw [replaceLoop, hfind]
  simp only [List.take_zero, List.nil_append, Nat.zero_add, List.drop_left]

/-- The first letter stays as it is, if the pattern and what replaces it begin with the same. -/
theorem head?_replaceLoop {d : Byte} {l : Bytes} (fuel : Nat) :
    (replaceLoop (d :: pat) (d :: new) fuel l).head? = l.head? := by
  cases fuel with
  | zero => rfl
  | succ fuel =>
    rw [replaceLoop]
    cases h : findSub (d :: pat) l with
    | none => rfl
    | some k =>
      cases k with
      | zero =>
        obtain ⟨⟨-, t, ht⟩, -⟩ := findSub_eq_some_iff.1 h
        rw [List.drop_zero] at ht
        rw [← ht]
        rfl
      | succ k =>
        have hle := findSub_add_length_le h
        cases l with
        | nil => simp at hle
        | cons x l => rfl

theorem length_replaceLoop_le (fuel : Nat) (l : Bytes) :
    19 * (replaceLoop vhostMark safeMark fuel l).length ≤ 30 * l.length := by
  have hmark : vhostMark.length = 19 := rfl
  have hsafe : safeMark.length = 30 := rfl
  induction fuel generalizing l with
  | zero =>
    rw [replaceLoop]
    omega
  | succ fuel ih =>
    rw [replaceLoop]
    cases h : findSub vhostMark l with
    | none =>
      simp only
      omega
    | some k =>
      have hle := findSub_add_length_le h
      have hrest := ih (l.drop (k + vhostMark.length))
      simp only [List.length_append, List.length_take, List.length_drop, hmark, hsafe] at hle hrest ⊢
      omega

/-- What is parsed of a url with a front without a colon. -/
theorem parsedText_append (ha : chr ':' ∉ a) (hb : b ≠ []) :
    ∃ fuel, parsedText (a ++ b) = a ++ replaceLoop vhostMark safeMark (fuel + 1) b := by
  obtain ⟨fuel, hfuel⟩ : ∃ fuel, (a ++ b).length = fuel + 1 := by
    refine ⟨(a ++ b).length - 1, ?_⟩
    have := List.length_pos_iff.2 hb
    rw [List.length_append]
    omega
  have hmark : vhostMark = chr ':' :: str "//__defaultVhost__" := rfl
  refine ⟨fuel, ?_⟩
  by_cases h : vhostMark <:+: a ++ b
  · rw [parsedText, if_pos (findSub_isSome_iff.2 h), srsStringReplace, if_neg (by decide), hfuel, hmark,
      replaceLoop_append ha]
  · rw [parsedText_of_absent h, hmark, ← replaceLoop_append ha, ← hmark, replaceLoop_of_absent h]

end Replace

/-! ## The host that stands for none -/

theorem append_cons_cancel {c : Byte} {a a' b b' : Bytes} (ha : c ∉ a) (ha' : c ∉ a')
    (h : a ++ c :: b = a' ++ c :: b') : a = a' ∧ b = b' := by
  have hfront : ∀ {l m : Bytes}, c ∉ l → (l ++ c :: m).takeWhile (· != c) = l := by
    intro l m hl
    rw [(takeWhile_append_stop (by simp) l m).1]
    exact List.takeWhile_eq_self_iff.2 (bne_of_notMem hl)
  have haa : a = a' := by rw [← hfront (m := b) ha, h, hfront ha']
  subst haa
  exact ⟨rfl, (List.cons.inj (List.append_cancel_left h)).2⟩

/-- The schema of a url is found whatever stands behind its colon. -/
theorem parseUrl_schema {schema rest : Bytes} {hp : HttpParserUrl} (hs : IsSchema schema)
    (h : httpParserParseUrl (schema ++ chr ':' :: rest) = some hp) :
    (∀ b ∈ schema, isAlpha b = true) ∧ hp .schema = some (0, schema.length % 2 ^ 16) := by
  obtain ⟨c, a, rfl⟩ := List.exists_cons_of_ne_nil hs.nonempty
  have hc : isAlpha c = true := hs.letter c rfl
  obtain ⟨r, hloop, hr⟩ := parseUrl_some h
  obtain ⟨ha, hletters⟩ :=
    letters_of_accepted hc (fun h => hs.colon_notMem (List.mem_cons_of_mem c h)) hloop
  have hcolon : parseUrlChar .reqSchema (chr ':') = .reqSchemaSlash := rfl
  rw [parseUrlLoop_segment (parseUrlChar_isAlpha hc) (by decide) rfl (by decide) ha,
    parseUrlLoop_delimiter hcolon (by decide) (by decide) rfl] at hloop
  have hschema := parseUrlLoop_schema_eq (by decide) hloop
  rw [HttpParserUrl.begin_self] at hschema
  refine ⟨hletters, ?_⟩
  rcases hr with ⟨-, rfl⟩ | ⟨off, len, -, hhost⟩
  · exact hschema
  · exact (httpParseHost_other (by decide) hhost).trans hschema

namespace UrlParts

variable {p : UrlParts} {hp : HttpParserUrl}

/-- Whatever is replaced, the schema and its colon are not. -/
theorem exists_parsedText (p : UrlParts) :
    ∃ fuel rest, parsedText p.text =
        p.schema ++ replaceLoop vhostMark safeMark (fuel + 1) (str "://" ++ (p.auth ++ p.target)) ∧
      parsedText p.text = p.schema ++ chr ':' :: rest := by
  obtain ⟨fuel, hfuel⟩ := parsedText_append (b := str "://" ++ (p.auth ++ p.target))
    p.isSchema.colon_notMem (List.append_ne_nil_of_left_ne_nil (by decide) _)
  have hhead : (replaceLoop vhostMark safeMark (fuel + 1) (str "://" ++ (p.auth ++ p.target))).head? =
      some (chr ':') := head?_replaceLoop (fuel + 1)
  obtain ⟨rest, hrest⟩ := List.head?_eq_some_iff.1 hhead
  exact ⟨fuel, rest, hfuel, hfuel.trans (by rw [hrest])⟩

/-- In a url that names the host, the schema that is read has no colon. -/
theorem colon_notMem_fresh_schema (h : httpParserParseUrl (parsedText p.text) = some hp) :
    chr ':' ∉ p.fresh.schema := by
  obtain ⟨-, rest, -, htext⟩ := p.exists_parsedText
  obtain ⟨-, hschema⟩ := parseUrl_schema p.isSchema (htext ▸ h)
  have hread : p.fresh.schema = p.schema.take (p.schema.length % 2 ^ 16) := by
    rw [fresh, (SrsHttpUri.answers_initializeFrom h).1, getUriField, hschema, htext]
    simp only
    rw [List.drop_zero, List.take_append_of_le_length (Nat.mod_le _ _)]
  rw [hread]
  exact fun hc => p.isSchema.colon_notMem (List.mem_of_mem_take hc)

/-- If the answers make up a url that names the host, its own host begins with it and it has no port. -/
theorem host_of_reassembled (hmark : vhostMark <:+: p.text)
    (h : httpParserParseUrl (parsedText p.text) = some hp) (hvhost : p.host ≠ defaultVhost)
    (heq : p.reassembled p.fresh = p.text) :
    ∃ x, x ≠ [] ∧ p.host = defaultVhost ++ x ∧ p.port = none ∧
      targetOf p.fresh.path (p.query.map fun _ => p.fresh.query) = x ++ p.target := by
  have hhost : p.fresh.host = defaultVhost := by
    rw [fresh, (SrsHttpUri.answers_initializeFrom h).2.1, if_pos (findSub_isSome_iff.2 hmark)]
  have hcolon : chr ':' ∉ p.host := colon_notMem_regName p.isRegNameChar_host
  obtain ⟨-, hbehind⟩ := append_cons_cancel (colon_notMem_fresh_schema h) p.isSchema.colon_notMem heq
  have hrest : authority defaultVhost (p.port.map fun _ => srsInt2str p.fresh.port) ++
      targetOf p.fresh.path (p.query.map fun _ => p.fresh.query) = p.auth ++ p.target := by
    rw [← hhost]
    have hslashes : str "//" ++ (authority p.fresh.host (p.port.map fun _ => srsInt2str p.fresh.port) ++
        targetOf p.fresh.path (p.query.map fun _ => p.fresh.query)) =
      str "//" ++ (p.auth ++ p.target) := hbehind
    exact List.append_cancel_left hslashes
  rw [auth] at hrest
  cases hport : p.port with
  | some n =>
    rw [hport, Option.map_some, Option.map_some, authority, authority, List.append_assoc,
      List.append_assoc, List.cons_append, List.cons_append] at hrest
    exact absurd (append_cons_cancel (by decide) hcolon hrest).1.symm hvhost
  | none =>
    rw [hport, Option.map_none, Option.map_none, authority, authority] at hrest
    rcases List.append_eq_append_iff.1 hrest with ⟨x, hx, hx'⟩ | ⟨y, hy, hy'⟩
    · refine ⟨x, ?_, hx, rfl, hx'⟩
      rintro rfl
      exact hvhost (hx.trans (List.append_nil _))
    · -- The host cannot end inside of the other one: no target begins there.
      cases y with
      | nil => exact absurd (by rw [hy, List.append_nil]) hvhost
      | cons b y =>
        have hb : b ∈ defaultVhost := by
          rw [hy]
          simp
        exfalso
        rcases p.beginsTarget_target with ht | ⟨t, ht | ht⟩
        · rw [ht] at hy'
          exact absurd hy' (by simp)
        · rw [ht] at hy'
          rw [← (List.cons.inj hy').1] at hb
          exact absurd hb (by decide)
        · rw [ht] at hy'
          rw [← (List.cons.inj hy').1] at hb
          exact absurd hb (by decide)

/-- Such a url is parsed as one with another host. -/
theorem parsedText_eq {x : Bytes} (hhost : p.host = defaultVhost ++ x) (hport : p.port = none) :
    ∃ fuel, parsedText p.text =
      absoluteUrl p.schema (safeVhost ++ x) (replaceLoop vhostMark safeMark fuel p.target) := by
  obtain ⟨fuel, -, htext, -⟩ := p.exists_parsedText
  have hx : chr ':' ∉ x := fun hc =>
    colon_notMem_regName p.isRegNameChar_host (hhost ▸ List.mem_append_right _ hc)
  have hauth : p.auth = defaultVhost ++ x := by rw [auth, hport, ← hhost]; rfl
  have hmark : str "://" ++ (p.auth ++ p.target) = vhostMark ++ (x ++ p.target) := by
    rw [hauth, List.append_assoc]
    rfl
  have hkeep : replaceLoop vhostMark safeMark fuel (x ++ p.target) =
      x ++ replaceLoop vhostMark safeMark fuel p.target := replaceLoop_append hx fuel
  refine ⟨fuel, ?_⟩
  rw [htext, hmark, replaceLoop_self_append, hkeep, absoluteUrl, List.append_assoc safeVhost]
  rfl

/-- A path of the answers goes on where the url goes on with a slash. -/
theorem exists_path_eq {x y w : Bytes} {query : Option Bytes} (hx : chr '?' ∉ x)
    (h : targetOf y query = x ++ chr '/' :: w) : ∃ v, y = x ++ chr '/' :: v := by
  cases query with
  | none => exact ⟨w, h⟩
  | some q =>
    rcases List.append_eq_append_iff.1 h with ⟨v, hv, hv'⟩ | ⟨v, hv, hv'⟩
    · exfalso
      cases v with
      | nil => exact absurd (List.cons.inj hv').1 (by decide)
      | cons c v =>
        refine hx ?_
        rw [hv, (List.cons.inj hv').1]
        simp
    · cases v with
      | nil => exact absurd (List.cons.inj hv').1 (by decide)
      | cons c v => exact ⟨v, by rw [hv, (List.cons.inj hv').1]⟩

/-- No 16 bits make up for the bytes of the host that is left out: what they point at is in the
schema, which has no slash. -/
theorem stored_path_ne {schema x t v : Bytes} {len : Nat} (hs : ∀ b ∈ schema, isAlpha b = true)
    (hx : x ≠ []) (hname : ∀ b ∈ x, isRegNameChar b = true) (ht : t.head? = some (chr '/'))
    (hlen : len ≤ t.length) (hbound : schema.length + 19 + x.length + 19 * t.length / 30 ≤ 80 * 1024) :
    stored (absoluteUrl schema (safeVhost ++ x) t) (schema.length + 3 + (safeVhost ++ x).length) len ≠
      x ++ chr '/' :: v := by
  intro heq
  have hsafe : (safeVhost ++ x).length = 27 + x.length := List.length_append
  have hle := length_stored_le (absoluteUrl schema (safeVhost ++ x) t)
    (schema.length + 3 + (safeVhost ++ x).length) len
  have hmod := Nat.mod_le len (2 ^ 16)
  rw [heq, List.length_append, List.length_cons] at hle
  obtain ⟨t, rfl⟩ := List.head?_eq_some_iff.1 ht
  by_cases hoff : schema.length + 3 + (safeVhost ++ x).length < 2 ^ 16
  · -- The path is found, and it begins with a slash.
    have hdrop : (absoluteUrl schema (safeVhost ++ x) (chr '/' :: t)).drop
        (schema.length + 3 + (safeVhost ++ x).length) = chr '/' :: t := by
      have hfront : (schema ++ (str "://" ++ (safeVhost ++ x))).length =
          schema.length + 3 + (safeVhost ++ x).length := by
        rw [List.length_append, List.length_append, ← Nat.add_assoc]
        rfl
      rw [absoluteUrl, ← List.append_assoc, ← List.append_assoc, List.append_assoc schema, ← hfront,
        List.drop_left]
    rw [stored, Nat.mod_eq_of_lt hoff, hdrop] at heq
    obtain ⟨b, x, rfl⟩ := List.exists_cons_of_ne_nil hx
    cases hn : len % 2 ^ 16 with
    | zero =>
      rw [hn, List.take_zero] at heq
      exact absurd heq (by simp)
    | succ n =>
      rw [hn, List.take_succ_cons, List.cons_append] at heq
      have hb := hname b List.mem_cons_self
      rw [← (List.cons.inj heq).1] at hb
      exact absurd hb (by decide)
  · -- The slash is in the schema.
    have hfit : x.length + 1 < 2 ^ 16 := by omega
    have hinside : (schema.length + 3 + (safeVhost ++ x).length) % 2 ^ 16 + (x.length + 1) ≤
        schema.length := by omega
    obtain ⟨-, hmem⟩ := stored_inside (b := str "://" ++ (safeVhost ++ x ++ chr '/' :: t)) hfit hinside
    have htake : (stored (absoluteUrl schema (safeVhost ++ x) (chr '/' :: t))
        (schema.length + 3 + (safeVhost ++ x).length) len).take (x.length + 1) =
        stored (absoluteUrl schema (safeVhost ++ x) (chr '/' :: t))
          (schema.length + 3 + (safeVhost ++ x).length) (x.length + 1) := by
      rw [stored, stored, List.take_take, Nat.min_eq_left (by omega), Nat.mod_eq_of_lt hfit]
    have hslash : chr '/' ∈ stored (absoluteUrl schema (safeVhost ++ x) (chr '/' :: t))
        (schema.length + 3 + (safeVhost ++ x).length) (x.length + 1) := by
      rw [← htake, heq, List.take_length_add_append]
      simp
    exact absurd (hs _ (hmem _ hslash)) (by decide)

/-- The path that is read of such a url: behind the host that is parsed stands a text that begins like
the target, and is not much longer. -/
theorem fresh_path_eq {x : Bytes} (h : httpParserParseUrl (parsedText p.text) = some hp)
    (hhost : p.host = defaultVhost ++ x) (hport : p.port = none) :
    ∃ t, t.head? = p.target.head? ∧ 19 * t.length ≤ 30 * p.target.length ∧
      (∀ b ∈ p.schema, isAlpha b = true) ∧
      p.fresh.path = stored (absoluteUrl p.schema (safeVhost ++ x) t)
        (p.schema.length + 3 + (safeVhost ++ x).length) (targetPath t).length := by
  obtain ⟨fuel, htext⟩ := parsedText_eq hhost hport
  have hname : ∀ b ∈ x, isRegNameChar b = true := fun b hb =>
    p.isRegNameChar_host b (hhost ▸ List.mem_append_right _ hb)
  have hhead : (replaceLoop vhostMark safeMark fuel p.target).head? = p.target.head? :=
    head?_replaceLoop fuel
  have hbegins : BeginsTarget (replaceLoop vhostMark safeMark fuel p.target) := by
    rw [beginsTarget_iff, hhead, ← beginsTarget_iff]
    exact p.beginsTarget_target
  have hchar : ∀ b ∈ safeVhost ++ x, (isRegNameChar b || b == chr ':') = true := fun b hb => by
    rw [isRegNameChar_safeVhost hname b hb, Bool.true_or]
  have hread := parseUrl_absolute_stored p.isSchema (List.append_ne_nil_of_left_ne_nil (by decide) _) hchar
    hbegins (htext ▸ h)
  refine ⟨_, hhead, length_replaceLoop_le fuel p.target, hread.letters, ?_⟩
  rw [fresh, (SrsHttpUri.answers_initializeFrom h).2.2.2.1, htext]
  exact hread.ofPath

/-- Where the target begins with no slash, there is no path to begin with a name. -/
theorem targetOf_ne_of_head {c : Byte} {x t : Bytes} {query : Option Bytes} {off : Nat} {url : Bytes}
    (ht : BeginsTarget t) (hslash : t.head? ≠ some (chr '/')) (hc : isRegNameChar c = true) :
    targetOf (stored url off (targetPath t).length) query ≠ c :: x := by
  have hempty : targetPath t = [] := by
    rcases ht with rfl | ⟨t, rfl | rfl⟩
    · rfl
    · exact absurd rfl hslash
    · rfl
  rw [hempty, stored, List.length_nil, Nat.zero_mod, List.take_zero]
  cases query with
  | none =>
    rw [targetOf]
    simp
  | some q =>
    intro h
    rw [← (List.cons.inj h).1] at hc
    exact absurd hc (by decide)

/-- The answers do not make up a url that names the host that stands for none. -/
theorem not_reassembled_of_mark (hmark : vhostMark <:+: p.text)
    (h : httpParserParseUrl (parsedText p.text) = some hp) (hvhost : p.host ≠ defaultVhost)
    (hlen : p.text.length ≤ HTTP_MAX_HEADER_SIZE) : p.reassembled p.fresh ≠ p.text := by
  intro heq
  obtain ⟨x, hx, hhost, hport, hpath⟩ := host_of_reassembled hmark h hvhost heq
  obtain ⟨t, hhead, hlonger, hletters, hfresh⟩ := fresh_path_eq h hhost hport
  have hname : ∀ b ∈ x, isRegNameChar b = true := fun b hb =>
    p.isRegNameChar_host b (hhost ▸ List.mem_append_right _ hb)
  have hbegins : BeginsTarget t := by
    rw [beginsTarget_iff, hhead, ← beginsTarget_iff]
    exact p.beginsTarget_target
  by_cases hslash : t.head? = some (chr '/')
  · obtain ⟨w, hw⟩ := List.head?_eq_some_iff.1 (hhead.symm.trans hslash)
    have hmarkless : chr '?' ∉ x := fun hm => absurd (hname _ hm) (by decide)
    obtain ⟨v, hv⟩ := exists_path_eq hmarkless (hpath.trans (by rw [hw]))
    have hhostlen : p.auth.length = 16 + x.length := by
      rw [auth, hport, Option.map_none, authority, hhost, List.length_append]
      rfl
    rw [text, length_absoluteUrl, hhostlen, HTTP_MAX_HEADER_SIZE] at hlen
    exact stored_path_ne hletters hx hname hslash (length_target_le t).1 (by omega)
      (hfresh.symm.trans hv)
  · obtain ⟨c, x, rfl⟩ := List.exists_cons_of_ne_nil hx
    rw [hfresh] at hpath
    exact targetOf_ne_of_head hbegins hslash (hname c List.mem_cons_self) hpath

/-! ## The law -/

/-- **The answers make up an accepted url of at most 80 KB exactly if its parts are expressible.** -/
theorem reassembled_iff (p : UrlParts) (h : (SrsHttpUri.empty.initializeFrom p.text).1 = none)
    (hlen : p.text.length ≤ HTTP_MAX_HEADER_SIZE) (hvhost : p.host ≠ defaultVhost) :
    p.reassembled p.fresh = p.text ↔ p.Expressible := by
  obtain ⟨hp, hparse⟩ :=
    Option.ne_none_iff_exists'.1 ((SrsHttpUri.initializeFrom_accepted_iff _).1 h)
  by_cases hmark : vhostMark <:+: p.text
  · exact iff_of_false (not_reassembled_of_mark hmark hparse hvhost hlen) fun hexp => hexp.mark hmark
  · rw [parsedText_of_absent hmark] at hparse
    constructor
    · intro heq
      have hschema : stored p.text 0 p.schema.length = p.schema :=
        stored_append [] p.schema _ (by norm_num) (length_lt_of_reassembled hmark hparse heq).1
      have hauth := stored_auth_of_reassembled hmark hparse hlen heq
      exact (reassembled_iff_of_stored_auth hmark hparse hschema hauth).1 heq
    · intro hexp
      obtain ⟨-, hschema, hauth, -⟩ := p.expressible_iff.1 hexp
      exact (reassembled_iff_of_stored_auth hmark hparse hschema hauth).2 hexp

/-- `http://a:8080/b?c=d`. -/
def complete : UrlParts where
  schema := str "http"
  host := str "a"
  port := some 8080
  path := str "/b"
  query := some (str "c=d")
  isSchema := ⟨by rintro _ ⟨⟩; decide, by decide, List.all_iff_forall_prop.1 rfl⟩
  host_ne_nil := by decide
  isRegNameChar_host := List.all_iff_forall_prop.1 rfl
  head_path := by rintro _ ⟨⟩; decide
  inPath_path := List.all_iff_forall_prop.1 rfl
  query_ne_nil := by decide
  hash_notMem_query := by decide

theorem reassembled_complete : complete.reassembled complete.fresh = complete.text :=
  (reassembled_iff complete (by decide) (by decide) (by decide)).2
    (complete.expressible_of_lt (by decide) (by rw [← findSub_isSome_iff]; decide) (by decide))

/-- A path of a slash and `n` letters. -/
def withPath (n : Nat) : UrlParts where
  schema := str "http"
  host := str "a"
  port := none
  path := chr '/' :: List.replicate n (chr 'a')
  query := none
  isSchema := ⟨by rintro _ ⟨⟩; decide, by decide, List.all_iff_forall_prop.1 rfl⟩
  host_ne_nil := by decide
  isRegNameChar_host := List.all_iff_forall_prop.1 rfl
  head_path := by simp
  inPath_path := by
    intro b hb
    rcases List.mem_cons.1 hb with rfl | hb
    · decide
    · rw [List.eq_of_mem_replicate hb]
      decide
  query_ne_nil := by simp
  hash_notMem_query := by simp

theorem length_text_withPath (n : Nat) : (withPath n).text.length = n + 9 := by
  have hauth : (withPath n).auth.length = 1 := rfl
  have hschema : (withPath n).schema.length = 4 := rfl
  have htarget : (withPath n).target.length = n + 1 := by
    show (chr '/' :: List.replicate n (chr 'a')).length = n + 1
    rw [List.length_cons, List.length_replicate]
  rw [text, length_absoluteUrl, hauth, hschema, htarget]
  omega

theorem not_infix_withPath (n : Nat) : ¬ vhostMark <:+: (withPath n).text := by
  intro h
  have hmem : chr '_' ∈ (withPath n).text := h.subset (by decide)
  have htext : (withPath n).text = str "http://a/" ++ List.replicate n (chr 'a') := rfl
  rw [htext] at hmem
  rcases List.mem_append.1 hmem with hmem | hmem
  · exact absurd hmem (by decide)
  · exact absurd (List.eq_of_mem_replicate hmem) (by decide)

theorem accepted_withPath (n : Nat) : httpParserParseUrl (withPath n).text ≠ none := by
  have htext : (withPath n).text =
      chr 'h' :: str "ttp" ++ (str "://" ++
        (chr 'a' :: [] ++ (chr '/' :: List.replicate n (chr 'a') ++ []))) := by
    rw [List.append_nil]
    rfl
  have hserver : parseUrlChar .reqServerStart (chr 'a') = .reqServer := rfl
  have hslash : parseUrlChar .reqServer (chr '/') = .reqPath := rfl
  have hpath : ∀ b ∈ List.replicate n (chr 'a'), parseUrlChar .reqPath b = .reqPath := by
    intro b hb
    rw [List.eq_of_mem_replicate hb]
    rfl
  -- The loop finds the authority at offset 7, and no port.
  obtain ⟨u, hloop, hhost, hport⟩ : ∃ u,
      parseUrlLoop .reqSpacesBeforeUrl none 0 (fun _ => none) false (withPath n).text = some (u, false) ∧
        u .host = some (7, 1) ∧ u .port = none := by
    refine ⟨((HttpParserUrl.begin (fun _ => none) .schema 0 4).begin .host 7 1).begin .path 8
      ((chr '/' :: List.replicate n (chr 'a')).length % 2 ^ 16), ?_, rfl, rfl⟩
    rw [htext, parseUrlLoop_schema rfl (List.all_iff_forall_prop.1 rfl),
      parseUrlLoop_segment hserver (by decide) rfl (by decide) (by simp),
      parseUrlLoop_segment hslash (by decide) rfl (by decide) hpath, parseUrlLoop]
    rfl
  have hrange : ((withPath n).text.drop 7).take 1 = [chr 'a'] := rfl
  have hname : httpParseHost (withPath n).text u 7 1 false =
      some ((u.begin .host 7 0).begin .host 7 1) := by
    rw [httpParseHost, hrange]
    rfl
  have hnone : ((u.begin .host 7 0).begin .host 7 1) .port = none := by
    rw [HttpParserUrl.begin_of_ne _ _ _ (by decide), u.begin_of_ne _ _ (by decide), hport]
  rw [httpParserParseUrl, if_neg (by rw [htext]; simp), hloop]
  simp only [hhost, hname, getUriField, hnone]
  rw [portLoop]
  simp

/-- The path of 2 ^ 16 bytes has the length 0 for the parser. -/
theorem not_reassembled_withPath :
    (SrsHttpUri.empty.initializeFrom (withPath 65535).text).1 = none ∧
      (withPath 65535).text.length ≤ HTTP_MAX_HEADER_SIZE ∧ (withPath 65535).host ≠ defaultVhost ∧
      (withPath 65535).reassembled (withPath 65535).fresh ≠ (withPath 65535).text := by
  have hmark := not_infix_withPath 65535
  have haccepted := accepted_withPath 65535
  refine ⟨?_, ?_, by decide, fun heq => ?_⟩
  · rw [SrsHttpUri.initializeFrom_accepted_iff, parsedText_of_absent hmark]
    exact haccepted
  · rw [length_text_withPath, HTTP_MAX_HEADER_SIZE]
    omega
  · obtain ⟨hp, hparse⟩ := Option.ne_none_iff_exists'.1 haccepted
    have hlt := (length_lt_of_reassembled hmark hparse heq).2.2.1
    have hpath : (withPath 65535).path = chr '/' :: List.replicate 65535 (chr 'a') := by rw [withPath]
    rw [hpath, List.length_cons, List.length_replicate] at hlt
    omega

end UrlParts

end HttpProxy
