import HttpProxy.Message.Message

/-!
# The handler of a request

`SrsHttpServeMux` (`src/protocol/srs_protocol_http_stack.cpp`, lines 803-1003): a
table of patterns, and a second one of the hosts that patterns begin with.  The
scan for a handler keeps the longest pattern that matches so far.  The lengths,
which the source keeps in an `int`, are numbers here: a pattern is a literal of
the program, and a path is a field of 16 bits.

* `Matches`, `IsSelection` — what a pattern matches, and the choice among them.
* `Best`, `best_foldl` — what the scan knows of the entries that it has seen.
* `Holds`, `holds_handleAll` — the two tables stand for the registrations, whatever
  their order.
* `findHandler_longest` — the handler of the longest pattern is found, whatever the
  order of the registrations, and a failed one changes nothing.
-/

namespace HttpProxy

/-- `ERROR_HTTP_PATTERN_EMPTY`. -/
def ERROR_HTTP_PATTERN_EMPTY : Nat := 4000

/-- `ERROR_HTTP_PATTERN_DUPLICATED`. -/
def ERROR_HTTP_PATTERN_DUPLICATED : Nat := 4001

/-- `ERROR_HTTP_URL_NOT_CLEAN`. -/
def ERROR_HTTP_URL_NOT_CLEAN : Nat := 4002

/-- `SrsHttpMuxEntry`, for handlers of a type `H`. -/
structure SrsHttpMuxEntry (H : Type) where
  explicitMatch : Bool
  handler : H
  pattern : Bytes
  enabled : Bool
  deriving DecidableEq, Repr

/-- The handler that is found: a registered one, or the one for 404. -/
inductive Selection (H : Type)
  | handler (h : H)
  | notFound
  deriving DecidableEq, Repr

/-- `SrsHttpServeMux`. -/
structure SrsHttpServeMux (H : Type) where
  entries : OrdMap Bytes (SrsHttpMuxEntry H)
  vhosts : OrdMap Bytes H

namespace SrsHttpServeMux

variable {H : Type}

/-- The constructor. -/
def new : SrsHttpServeMux H := ⟨.empty, .empty⟩

/-- The vhost of a pattern that does not begin with a slash. -/
def vhostOf (pattern : Bytes) : Bytes :=
  match findSub (str "/") pattern with
  | some k => pattern.take k
  | none => pattern

/-- `handle(pattern, handler)`, which asserts that there is a handler. -/
def handle (mux : SrsHttpServeMux H) (pattern : Bytes) (handler : H) :
    Option SrsError × SrsHttpServeMux H :=
  if pattern = [] then (some (.other ERROR_HTTP_PATTERN_EMPTY), mux)
  else if ((mux.entries.find? pattern).map (·.explicitMatch)).getD false then
    (some (.other ERROR_HTTP_PATTERN_DUPLICATED), mux)
  else
    let vhosts :=
      if pattern.head? ≠ some (chr '/') then mux.vhosts.insert (vhostOf pattern) handler
      else mux.vhosts
    let entry := { explicitMatch := true, handler := handler, pattern := pattern, enabled := true }
    (none, ⟨mux.entries.insert pattern entry, vhosts⟩)

/-- `path_match`.  The lengths are `int`s: patterns and paths have fewer than 2 ^ 31 bytes. -/
def pathMatch (pattern path : Bytes) : Bool :=
  if pattern = [] then false
  -- not endswith '/', exactly match.
  else if pattern.getLast? ≠ some (chr '/') then pattern == path
  -- endswith '/', match any
  else if pattern.length ≤ path.length then path.take pattern.length == pattern
  else false

/-- One turn of the scan, with the length, an `int`, and the handler of the best match so far. -/
def matchTurn (path : Bytes) (best : Nat × Option H) (e : Bytes × SrsHttpMuxEntry H) :
    Nat × Option H :=
  if !e.2.enabled then best
  else if !pathMatch e.1 path then best
  else if best.2.isNone ∨ best.1 < e.1.length then (e.1.length, some e.2.handler)
  else best

/-- The path that is matched: host-specific patterns take precedence over generic ones. -/
def matchedPath (mux : SrsHttpServeMux H) (r : SrsHttpMessage) : Bytes :=
  if mux.vhosts.size ≠ 0 ∧ (mux.vhosts.find? r.host).isSome then r.host ++ r.path else r.path

/-- `match`. -/
def matchRequest (mux : SrsHttpServeMux H) (r : SrsHttpMessage) : Option H :=
  (mux.entries.entries.foldl (matchTurn (mux.matchedPath r)) (0, none)).2

/-- `find_handler`. -/
def findHandler (mux : SrsHttpServeMux H) (r : SrsHttpMessage) :
    Except SrsError (Selection H) :=
  if (findSub (str "..") r.uri.url).isSome then .error (.other ERROR_HTTP_URL_NOT_CLEAN)
  else
    match mux.matchRequest r with
    | some h => .ok (.handler h)
    | none => .ok .notFound

/-! ## The choice of a handler -/

/-- A pattern that ends in a slash matches what it is a prefix of, any other only
itself. -/
def Matches (pattern path : Bytes) : Prop :=
  if pattern.getLast? = some (chr '/') then pattern <+: path else pattern = path

/-- The host part of a pattern. -/
def hostPart (pattern : Bytes) : Option Bytes :=
  if pattern.head? = some (chr '/') then none
  else some (pattern.takeWhile fun b => b != chr '/')

/-- The patterns and handlers that have been registered. -/
abbrev Registrations (H : Type) := List (Bytes × H)

/-- The path with the host in front, when some pattern is for this host. -/
def effectivePath (regs : Registrations H) (r : SrsHttpMessage) : Bytes :=
  if ∃ e ∈ regs, hostPart e.1 = some r.host then r.host ++ r.path else r.path

/-- The handler of the one longest pattern that matches, or 404 when none matches. -/
def IsSelection (regs : Registrations H) (path : Bytes) : Selection H → Prop
  | .handler h => ∃ e ∈ regs, e.2 = h ∧ Matches e.1 path ∧
      ∀ d ∈ regs, Matches d.1 path → d ≠ e → d.1.length < e.1.length
  | .notFound => ∀ e ∈ regs, ¬ Matches e.1 path

theorem pathMatch_iff {pattern path : Bytes} (hne : pattern ≠ []) :
    pathMatch pattern path = true ↔ Matches pattern path := by
  rw [pathMatch, Matches, if_neg hne]
  by_cases hslash : pattern.getLast? = some (chr '/')
  · rw [if_neg (not_not.2 hslash), if_pos hslash, List.prefix_iff_eq_take]
    by_cases hle : pattern.length ≤ path.length
    · rw [if_pos hle, beq_iff_eq]
      exact eq_comm
    · rw [if_neg hle]
      refine iff_of_false (by simp) fun h => hle ?_
      have := congrArg List.length h
      rw [List.length_take] at this
      omega
  · rw [if_pos hslash, if_neg hslash, beq_iff_eq]

/-- Of two patterns of one length that match, one is the other. -/
theorem Matches.eq_of_length {p q path : Bytes} (hp : Matches p path) (hq : Matches q path)
    (h : p.length = q.length) : p = q := by
  have hpre : ∀ {p : Bytes}, Matches p path → p <+: path := by
    intro p hp
    rw [Matches] at hp
    split at hp
    · exact hp
    · exact hp ▸ List.prefix_rfl
  exact List.IsPrefix.eq_of_length
    (List.prefix_of_prefix_length_le (hpre hp) (hpre hq) (by omega)) h

/-- The choice depends on the set of the registrations only, and there is just one. -/
theorem IsSelection.unique {regs regs' : Registrations H} {path : Bytes} {s s' : Selection H}
    (hmem : ∀ e, e ∈ regs ↔ e ∈ regs') (h : IsSelection regs path s)
    (h' : IsSelection regs' path s') : s = s' := by
  cases s with
  | notFound =>
    cases s' with
    | notFound => rfl
    | handler h₂ =>
      obtain ⟨e, he, -, hm, -⟩ := h'
      exact absurd hm (h e ((hmem e).2 he))
  | handler h₁ =>
    obtain ⟨e, he, rfl, hm, hmax⟩ := h
    cases s' with
    | notFound => exact absurd hm (h' e ((hmem e).1 he))
    | handler h₂ =>
      obtain ⟨d, hd, rfl, hm', hmax'⟩ := h'
      by_cases hde : d = e
      · rw [hde]
      · have h1 := hmax d ((hmem d).2 hd) hm' hde
        have h2 := hmax' e ((hmem e).1 he) hm (Ne.symm hde)
        omega

/-! ## The scan -/

/-- What the scan knows of the entries that it has seen: no match, or a longest one. -/
def Best (path : Bytes) (seen : List (Bytes × SrsHttpMuxEntry H)) (best : Nat × Option H) : Prop :=
  match best.2 with
  | none => ∀ e ∈ seen, pathMatch e.1 path = false
  | some h => ∃ e ∈ seen, e.2.handler = h ∧ e.1.length = best.1 ∧ pathMatch e.1 path = true ∧
      ∀ d ∈ seen, pathMatch d.1 path = true → d.1.length ≤ e.1.length

variable {path : Bytes} {seen : List (Bytes × SrsHttpMuxEntry H)} {best : Nat × Option H}

/-- One turn of the scan takes an enabled entry in. -/
theorem best_matchTurn {e : Bytes × SrsHttpMuxEntry H} (henabled : e.2.enabled = true)
    (h : Best path seen best) : Best path (seen ++ [e]) (matchTurn path best e) := by
  obtain ⟨n, h?⟩ := best
  rw [matchTurn, henabled]
  simp only [Bool.not_true, Bool.false_eq_true, if_false]
  cases hm : pathMatch e.1 path with
  | false =>
    simp only [Bool.not_false, if_true]
    cases h? with
    | none =>
      intro d hd
      rcases List.mem_append.1 hd with hd | hd
      · exact h d hd
      · rwa [List.mem_singleton.1 hd]
    | some x =>
      obtain ⟨d, hd, hx, hn, hdm, hmax⟩ := h
      refine ⟨d, List.mem_append_left _ hd, hx, hn, hdm, fun c hc hcm => ?_⟩
      rcases List.mem_append.1 hc with hc | hc
      · exact hmax c hc hcm
      · rw [List.mem_singleton.1 hc, hm] at hcm
        exact absurd hcm (by simp)
  | true =>
    simp only [Bool.not_true, Bool.false_eq_true, if_false]
    have hlast : e ∈ seen ++ [e] := List.mem_append_right _ (List.mem_singleton_self e)
    cases h? with
    | none =>
      -- The first match is taken, whatever its length.
      have hnone : (none : Option H).isNone = true := rfl
      rw [if_pos (Or.inl hnone)]
      refine ⟨e, hlast, rfl, rfl, hm, fun d hd hdm => ?_⟩
      rcases List.mem_append.1 hd with hd | hd
      · rw [h d hd] at hdm
        exact absurd hdm (by simp)
      · rw [List.mem_singleton.1 hd]
    | some x =>
      obtain ⟨d, hd, hx, hn, hdm, hmax⟩ := h
      by_cases hlt : n < e.1.length
      · rw [if_pos (Or.inr hlt)]
        refine ⟨e, hlast, rfl, rfl, hm, fun c hc hcm => ?_⟩
        rcases List.mem_append.1 hc with hc | hc
        · have := hmax c hc hcm
          simp only at hn
          omega
        · rw [List.mem_singleton.1 hc]
      · rw [if_neg (by simp [hlt])]
        refine ⟨d, List.mem_append_left _ hd, hx, hn, hdm, fun c hc hcm => ?_⟩
        rcases List.mem_append.1 hc with hc | hc
        · exact hmax c hc hcm
        · rw [List.mem_singleton.1 hc]
          simp only at hn
          omega

theorem best_foldl (l : List (Bytes × SrsHttpMuxEntry H)) (henabled : ∀ e ∈ l, e.2.enabled = true)
    (h : Best path seen best) : Best path (seen ++ l) (l.foldl (matchTurn path) best) := by
  induction l generalizing seen best with
  | nil => rwa [List.append_nil]
  | cons e l ih =>
    have hrest := ih (fun d hd => henabled d (List.mem_cons_of_mem e hd))
      (best_matchTurn (henabled e List.mem_cons_self) h)
    rwa [List.append_assoc] at hrest

/-! ## Registrations -/

/-- The calls of `handle`, one after the other. -/
def handleAll (mux : SrsHttpServeMux H) (calls : Registrations H) : SrsHttpServeMux H :=
  calls.foldl (fun mux c => (mux.handle c.1 c.2).2) mux

/-- The calls of `handle` that return no error. -/
def registered (mux : SrsHttpServeMux H) : Registrations H → Registrations H
  | [] => []
  | c :: calls =>
      if (mux.handle c.1 c.2).1 = none then c :: registered (mux.handle c.1 c.2).2 calls
      else registered (mux.handle c.1 c.2).2 calls

/-- The two tables hold the registrations. -/
structure Holds (mux : SrsHttpServeMux H) (regs : Registrations H) : Prop where
  entries : ∀ p e, (p, e) ∈ mux.entries.entries ↔ ∃ h, (p, h) ∈ regs ∧ e = ⟨true, h, p, true⟩
  vhosts : ∀ v, (mux.vhosts.find? v).isSome = true ↔ ∃ e ∈ regs, hostPart e.1 = some v
  nonempty : ∀ e ∈ regs, e.1 ≠ []
  nodup : (regs.map Prod.fst).Nodup

variable {mux : SrsHttpServeMux H} {regs : Registrations H} {p : Bytes} {h : H}

theorem holds_new : Holds (new : SrsHttpServeMux H) [] where
  entries := by simp [new, OrdMap.empty]
  vhosts := by simp [new]
  nonempty := by simp
  nodup := List.nodup_nil

/-- The part in front of the first slash. -/
theorem hostPart_of_ne (hp : p.head? ≠ some (chr '/')) : hostPart p = some (vhostOf p) := by
  rw [hostPart, if_neg hp, vhostOf]
  cases hfind : findSub (str "/") p with
  | none =>
    have hno : chr '/' ∉ p := by
      intro hc
      obtain ⟨a, b, rfl⟩ := List.append_of_mem hc
      refine (findSub_eq_none_iff (by decide)).1 hfind a.length ?_
      rw [List.drop_left]
      exact ⟨b, rfl⟩
    have hall : ∀ b ∈ p, (b != chr '/') = true := bne_of_notMem hno
    rw [List.takeWhile_eq_self_iff.2 hall]
  | some k =>
    have hsplit := findSub_split hfind
    have hno : chr '/' ∉ p.take k := by
      intro hc
      obtain ⟨j, hj, hcj⟩ := List.mem_take_iff_getElem.1 hc
      refine (findSub_eq_some_iff.1 hfind).2 j (by omega) ?_
      rw [List.drop_eq_getElem_cons (by omega), hcj]
      exact ⟨_, rfl⟩
    have hall : ∀ b ∈ p.take k, (b != chr '/') = true := bne_of_notMem hno
    congr 1
    conv_lhs => rw [hsplit]
    rw [List.append_assoc, List.takeWhile_append_of_pos hall,
      show str "/" = [chr '/'] from rfl, List.singleton_append,
      List.takeWhile_cons_of_neg (by decide), List.append_nil]

/-- A call that returns an error has changed nothing. -/
theorem handle_error (herr : (mux.handle p h).1 ≠ none) : (mux.handle p h).2 = mux := by
  rw [handle] at herr ⊢
  by_cases hp : p = []
  · rw [if_pos hp]
  · rw [if_neg hp] at herr ⊢
    split at herr
    · rename_i hdup
      rw [if_pos hdup]
    · exact absurd rfl herr

/-- A pattern is refused if it is empty or there already. -/
theorem handle_known (hm : Holds mux regs) (hp : p = [] ∨ p ∈ regs.map Prod.fst) :
    (mux.handle p h).1 ≠ none := by
  rw [handle]
  by_cases hnil : p = []
  · rw [if_pos hnil]
    simp
  · obtain ⟨⟨q, h'⟩, hq, rfl⟩ := List.mem_map.1 (hp.resolve_left hnil)
    have hfind : mux.entries.find? q = some ⟨true, h', q, true⟩ :=
      (mux.entries.find?_eq_some_iff).2 ((hm.entries _ _).2 ⟨h', hq, rfl⟩)
    rw [if_neg hnil, hfind]
    simp

/-- The entries with the one for a new pattern. -/
theorem entries_insert (hm : Holds mux regs) (hkey : ∀ h', (p, h') ∉ regs) (q : Bytes)
    (e : SrsHttpMuxEntry H) :
    (q, e) ∈ (mux.entries.insert p ⟨true, h, p, true⟩).entries ↔
      ∃ h', (q, h') ∈ regs ++ [(p, h)] ∧ e = ⟨true, h', q, true⟩ := by
  rw [← OrdMap.find?_eq_some_iff]
  by_cases hq : q = p
  · subst hq
    rw [OrdMap.find?_insert_self, Option.some.injEq]
    constructor
    · rintro rfl
      exact ⟨h, List.mem_append_right _ (List.mem_singleton_self _), rfl⟩
    · rintro ⟨h', hh, rfl⟩
      rcases List.mem_append.1 hh with hh | hh
      · exact absurd hh (hkey h')
      · cases List.mem_singleton.1 hh
        rfl
  · rw [OrdMap.find?_insert_of_ne _ hq, OrdMap.find?_eq_some_iff, hm.entries]
    constructor
    · rintro ⟨h', hh, he⟩
      exact ⟨h', List.mem_append_left _ hh, he⟩
    · rintro ⟨h', hh, he⟩
      rcases List.mem_append.1 hh with hh | hh
      · exact ⟨h', hh, he⟩
      · cases List.mem_singleton.1 hh
        exact absurd rfl hq

/-- The hosts with the one of a new pattern, if it has one. -/
theorem vhosts_insert (hm : Holds mux regs) (v : Bytes) :
    ((if p.head? ≠ some (chr '/') then mux.vhosts.insert (vhostOf p) h else mux.vhosts).find?
        v).isSome = true ↔ ∃ e ∈ regs ++ [(p, h)], hostPart e.1 = some v := by
  have hlast : (∃ e ∈ regs ++ [(p, h)], hostPart e.1 = some v) ↔
      (mux.vhosts.find? v).isSome = true ∨ hostPart p = some v := by
    rw [hm.vhosts]
    constructor
    · rintro ⟨e, he, hv⟩
      rcases List.mem_append.1 he with he | he
      · exact Or.inl ⟨e, he, hv⟩
      · rw [List.mem_singleton.1 he] at hv
        exact Or.inr hv
    · rintro (⟨e, he, hv⟩ | hv)
      · exact ⟨e, List.mem_append_left _ he, hv⟩
      · exact ⟨(p, h), List.mem_append_right _ (List.mem_singleton_self _), hv⟩
  rw [hlast]
  by_cases hslash : p.head? = some (chr '/')
  · rw [if_neg (not_not.2 hslash), hostPart, if_pos hslash]
    simp
  · rw [if_pos hslash, hostPart_of_ne hslash, Option.some.injEq]
    by_cases hv : v = vhostOf p
    · rw [hv, OrdMap.find?_insert_self]
      exact iff_of_true rfl (Or.inr rfl)
    · rw [OrdMap.find?_insert_of_ne _ hv]
      exact ⟨Or.inl, fun hor => hor.resolve_right (Ne.symm hv)⟩

/-- A pattern that is neither empty nor there is put into both tables. -/
theorem handle_fresh (hm : Holds mux regs) (hne : p ≠ []) (hp : p ∉ regs.map Prod.fst) :
    (mux.handle p h).1 = none ∧ Holds (mux.handle p h).2 (regs ++ [(p, h)]) := by
  have hkey : ∀ h', (p, h') ∉ regs := fun h' hc => hp (List.mem_map.2 ⟨(p, h'), hc, rfl⟩)
  have hnone : mux.entries.find? p = none := by
    cases hfind : mux.entries.find? p with
    | none => rfl
    | some e =>
      obtain ⟨h', hc, -⟩ := (hm.entries p e).1 ((mux.entries.find?_eq_some_iff).1 hfind)
      exact absurd hc (hkey h')
  rw [handle, if_neg hne, hnone]
  refine ⟨rfl, entries_insert hm hkey, vhosts_insert hm, ?_, ?_⟩
  · intro e he
    rcases List.mem_append.1 he with he | he
    · exact hm.nonempty e he
    · rw [List.mem_singleton.1 he]
      exact hne
  · rw [List.map_append]
    refine List.nodup_append.2 ⟨hm.nodup, List.nodup_singleton p, ?_⟩
    rintro a ha b hb rfl
    have hab : a = p := List.mem_singleton.1 hb
    exact hp (hab ▸ ha)

/-- After any calls, the tables hold the ones that have returned no error. -/
theorem holds_handleAll (hm : Holds mux regs) (calls : Registrations H) :
    Holds (mux.handleAll calls) (regs ++ mux.registered calls) := by
  induction calls generalizing mux regs with
  | nil => rwa [registered, List.append_nil]
  | cons c calls ih =>
    rw [registered]
    by_cases hp : c.1 = [] ∨ c.1 ∈ regs.map Prod.fst
    · have herr : (mux.handle c.1 c.2).1 ≠ none := handle_known hm hp
      have hsame : Holds (mux.handle c.1 c.2).2 regs := by rwa [handle_error herr]
      rw [if_neg herr]
      exact ih hsame
    · rw [not_or] at hp
      obtain ⟨hok, hholds⟩ := handle_fresh (h := c.2) hm hp.1 hp.2
      have hrest := ih hholds
      rw [if_pos hok]
      rwa [List.append_assoc] at hrest

/-- Distinct patterns that are not empty are all registered. -/
theorem registered_eq_self (hm : Holds mux regs) {calls : Registrations H}
    (hne : ∀ c ∈ calls, c.1 ≠ []) (hnodup : ((regs ++ calls).map Prod.fst).Nodup) :
    mux.registered calls = calls := by
  induction calls generalizing mux regs with
  | nil => rfl
  | cons c calls ih =>
    have hp : c.1 ∉ regs.map Prod.fst := by
      rw [List.map_append, List.map_cons] at hnodup
      intro hc
      exact (List.nodup_append.1 hnodup).2.2 _ hc _ List.mem_cons_self rfl
    obtain ⟨hok, hholds⟩ := handle_fresh (h := c.2) hm (hne c List.mem_cons_self) hp
    rw [registered, if_pos hok,
      ih hholds (fun d hd => hne d (List.mem_cons_of_mem c hd)) (by
        rw [List.append_assoc]
        exact hnodup)]

/-! ## The handler that is found -/

theorem matchedPath_eq (hm : Holds mux regs) (r : SrsHttpMessage) :
    mux.matchedPath r = effectivePath regs r := by
  rw [matchedPath, effectivePath]
  by_cases hv : ∃ e ∈ regs, hostPart e.1 = some r.host
  · have hsome := (hm.vhosts _).2 hv
    have hsize : mux.vhosts.size ≠ 0 := by
      intro hc
      rw [OrdMap.find?, List.eq_nil_of_length_eq_zero hc] at hsome
      exact absurd hsome (by simp [OrdMap.findIn])
    rw [if_pos ⟨hsize, hsome⟩, if_pos hv]
  · rw [if_neg fun hc => hv ((hm.vhosts _).1 hc.2), if_neg hv]

/-- What the scan finds: a handler, or none. -/
def selected : Option H → Selection H
  | some h => .handler h
  | none => .notFound

/-- The scan over the tables chooses among the registrations. -/
theorem matchRequest_isSelection (hm : Holds mux regs) (r : SrsHttpMessage) :
    IsSelection regs (effectivePath regs r) (selected (mux.matchRequest r)) := by
  have henabled : ∀ e ∈ mux.entries.entries, e.2.enabled = true := by
    rintro ⟨q, e⟩ he
    obtain ⟨h', -, rfl⟩ := (hm.entries q e).1 he
    rfl
  have hstart : Best (mux.matchedPath r) ([] : List (Bytes × SrsHttpMuxEntry H)) (0, none) :=
    fun e he => absurd he List.not_mem_nil
  have hbest := best_foldl mux.entries.entries henabled hstart
  have hmatch : ∀ e ∈ regs, (pathMatch e.1 (effectivePath regs r) = true ↔
      Matches e.1 (effectivePath regs r)) := fun e he => pathMatch_iff (hm.nonempty e he)
  have hentry : ∀ e ∈ regs, (e.1, (⟨true, e.2, e.1, true⟩ : SrsHttpMuxEntry H)) ∈
      mux.entries.entries := fun e he => (hm.entries _ _).2 ⟨e.2, he, rfl⟩
  rw [List.nil_append, Best, matchedPath_eq hm] at hbest
  rw [matchRequest, matchedPath_eq hm]
  cases hfound : (mux.entries.entries.foldl (matchTurn (effectivePath regs r)) (0, none)).2 with
  | none =>
    rw [hfound] at hbest
    intro e he hc
    have := hbest _ (hentry e he)
    rw [(hmatch e he).2 hc] at this
    exact absurd this (by simp)
  | some h =>
    rw [hfound] at hbest
    obtain ⟨⟨q, e⟩, he, rfl, -, hq, hmax⟩ := hbest
    obtain ⟨h', hreg, rfl⟩ := (hm.entries q e).1 he
    refine ⟨(q, h'), hreg, rfl, (hmatch _ hreg).1 hq, fun d hd hdm hne => ?_⟩
    have hle := hmax _ (hentry d hd) ((hmatch d hd).2 hdm)
    -- Another pattern of the same length would be the same pattern.
    rcases lt_or_eq_of_le hle with hlt | heq
    · exact hlt
    · have hkey : d.1 = q := Matches.eq_of_length hdm ((hmatch _ hreg).1 hq) heq
      exact absurd (List.inj_on_of_nodup_map hm.nodup hd hreg hkey) hne

theorem findHandler_isSelection (hm : Holds mux regs) {r : SrsHttpMessage}
    (hurl : findSub (str "..") r.uri.url = none) :
    ∃ s, mux.findHandler r = .ok s ∧ IsSelection regs (effectivePath regs r) s := by
  refine ⟨selected (mux.matchRequest r), ?_, matchRequest_isSelection hm r⟩
  rw [findHandler, hurl]
  cases mux.matchRequest r <;> rfl

theorem effectivePath_congr {regs' : Registrations H} (hmem : ∀ e, e ∈ regs ↔ e ∈ regs')
    (r : SrsHttpMessage) : effectivePath regs r = effectivePath regs' r := by
  have hiff : (∃ e ∈ regs, hostPart e.1 = some r.host) ↔
      ∃ e ∈ regs', hostPart e.1 = some r.host := by simp only [hmem]
  rw [effectivePath, effectivePath]
  by_cases hv : ∃ e ∈ regs, hostPart e.1 = some r.host
  · rw [if_pos hv, if_pos (hiff.1 hv)]
  · rw [if_neg hv, if_neg (mt hiff.2 hv)]

/-- Two tables with the same registrations find the same handlers. -/
theorem findHandler_congr {mux' : SrsHttpServeMux H} {regs' : Registrations H}
    (hm : Holds mux regs) (hm' : Holds mux' regs') (hmem : ∀ e, e ∈ regs ↔ e ∈ regs')
    (r : SrsHttpMessage) : mux.findHandler r = mux'.findHandler r := by
  cases hurl : findSub (str "..") r.uri.url with
  | none =>
    obtain ⟨s, hs, hsel⟩ := findHandler_isSelection hm hurl
    obtain ⟨s', hs', hsel'⟩ := findHandler_isSelection hm' hurl
    rw [effectivePath_congr hmem] at hsel
    rw [hs, hs', hsel.unique hmem hsel']
  | some k => simp only [findHandler, hurl, Option.isSome_some, if_true]

/-- After any calls of `handle`, in any order, a request whose url has no `..` is given
the handler of the longest registered pattern that matches its effective path, or the one
for 404; distinct patterns that are not empty are all registered; only the set of the
registered patterns matters; and a call that returns an error has no effect on any later
choice. -/
theorem findHandler_longest (calls : Registrations H) :
    (∀ r, findSub (str "..") r.uri.url = none →
      ∃ s, (new.handleAll calls).findHandler r = .ok s ∧
        IsSelection (new.registered calls) (effectivePath (new.registered calls) r) s) ∧
    ((∀ c ∈ calls, c.1 ≠ []) → (calls.map Prod.fst).Nodup → new.registered calls = calls) ∧
    (∀ calls', (∀ e, e ∈ new.registered calls ↔ e ∈ new.registered calls') →
      ∀ r, (new.handleAll calls).findHandler r = (new.handleAll calls').findHandler r) ∧
    (∀ pattern handler, ((new.handleAll calls).handle pattern handler).1 ≠ none →
      ∀ later r,
        (((new.handleAll calls).handle pattern handler).2.handleAll later).findHandler r =
          ((new.handleAll calls).handleAll later).findHandler r) := by
  have hholds : ∀ calls : Registrations H, Holds (new.handleAll calls) (new.registered calls) :=
    fun calls => holds_handleAll holds_new calls
  refine ⟨fun r hurl => ?_, fun hne hnodup => ?_, fun calls' hmem r => ?_,
    fun pattern handler herr later r => ?_⟩
  · exact findHandler_isSelection (hholds calls) hurl
  · exact registered_eq_self holds_new hne hnodup
  · exact findHandler_congr (hholds calls) (hholds calls') hmem r
  · rw [handle_error herr]

/-- The patterns of the api server, with their numbers for handlers. -/
def apiPatterns : Registrations Nat :=
  [(str "/api/", 0), (str "/api/mytest", 1), (str "/api/v1/self_proc_stats", 2)]

/-- A request for a path of the api server. -/
def apiRequest : SrsHttpMessage :=
  { SrsHttpMessage.new with
    uri := { SrsHttpUri.empty with url := str "http://a/api/mytest", path := str "/api/mytest" } }

/-- The api server, with its patterns in order and the other way round, and with one of them
registered twice. -/
theorem findHandler_longest_api :
    (∃ s, (new.handleAll apiPatterns).findHandler apiRequest = .ok s ∧
      IsSelection (new.registered apiPatterns)
        (effectivePath (new.registered apiPatterns) apiRequest) s) ∧
    new.registered apiPatterns = apiPatterns ∧
    (new.handleAll apiPatterns).findHandler apiRequest =
      (new.handleAll apiPatterns.reverse).findHandler apiRequest ∧
    (((new.handleAll apiPatterns).handle (str "/api/") 3).2.handleAll []).findHandler apiRequest =
      ((new.handleAll apiPatterns).handleAll []).findHandler apiRequest := by
  obtain ⟨hfound, hall, hset, herr⟩ := findHandler_longest apiPatterns
  have hreverse : ∀ e, e ∈ new.registered apiPatterns ↔ e ∈ new.registered apiPatterns.reverse := by
    have h1 : new.registered apiPatterns = apiPatterns := by decide
    have h2 : new.registered apiPatterns.reverse = apiPatterns.reverse := by decide
    intro e
    rw [h1, h2, List.mem_reverse]
  exact ⟨hfound apiRequest (by decide), hall (by decide) (by decide),
    hset _ hreverse apiRequest, herr (str "/api/") 3 (by decide) [] apiRequest⟩

end SrsHttpServeMux

end HttpProxy
