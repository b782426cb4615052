import HttpProxy.Message.Mux

/-!
# Patterns for a host

A pattern that begins with a host is for the requests to this host.  `match` puts the host
in front of the path as soon as one pattern is for the host, and then compares every
pattern with the result, so that the generic ones, which begin with a slash, are out.

* `IsFor`, `Generic` — a pattern for the host and the path of a request, and a generic
  pattern for its path.
* `Precedence` — the longest pattern for the host, or else the longest generic one.
* `precedence_iff` — this is the choice exactly if no pattern is for the host, or one of
  them matches, or no generic one does.
-/

namespace HttpProxy

namespace SrsHttpServeMux

variable {H : Type} {regs : Registrations H} {r : SrsHttpMessage} {pattern : Bytes}

/-- The pattern is `host/p` with the host of the request, and `/p` matches its path. -/
def IsFor (r : SrsHttpMessage) (pattern : Bytes) : Prop :=
  hostPart pattern = some r.host ∧ ∃ p, pattern = r.host ++ p ∧ Matches p r.path

/-- The pattern begins with a slash, and matches the path of the request. -/
def Generic (r : SrsHttpMessage) (pattern : Bytes) : Prop :=
  pattern.head? = some (chr '/') ∧ Matches pattern r.path

/-- The handler of the one longest pattern of a kind. -/
def Longest (regs : Registrations H) (kind : Bytes → Prop) (h : H) : Prop :=
  ∃ e ∈ regs, e.2 = h ∧ kind e.1 ∧ ∀ d ∈ regs, kind d.1 → d ≠ e → d.1.length < e.1.length

instance (pattern path : Bytes) : Decidable (Matches pattern path) :=
  inferInstanceAs (Decidable
    (if pattern.getLast? = some (chr '/') then pattern <+: path else pattern = path))

/-- Patterns for the host come first, and the generic ones are there for the others. -/
structure Precedence (regs : Registrations H) (r : SrsHttpMessage) (found : Option H) : Prop where
  host : (∃ e ∈ regs, IsFor r e.1) → ∃ h, found = some h ∧ Longest regs (IsFor r) h
  generic : (¬ ∃ e ∈ regs, IsFor r e.1) → (∃ e ∈ regs, Generic r e.1) →
    ∃ h, found = some h ∧ Longest regs (Generic r) h

/-! ## What matches -/

/-- The path of a request is empty or begins with a slash; else no pattern is for it. -/
def Rooted (path : Bytes) : Prop := path = [] ∨ path.head? = some (chr '/')

theorem Matches.isPrefix {path : Bytes} (h : Matches pattern path) : pattern <+: path := by
  rw [Matches] at h
  split at h
  · exact h
  · rw [h]

theorem head?_of_front {p path : Bytes} (h : p <+: path) (hne : p ≠ []) : p.head? = path.head? := by
  obtain ⟨t, rfl⟩ := h
  obtain ⟨b, p, rfl⟩ := List.exists_cons_of_ne_nil hne
  rfl

theorem matches_nil_iff {path : Bytes} : Matches [] path ↔ path = [] := by
  rw [Matches, if_neg (by simp)]
  exact eq_comm

theorem Generic.rooted (h : Generic r pattern) : Rooted r.path := by
  have hne : pattern ≠ [] := by
    rintro rfl
    exact absurd h.1 (by simp)
  exact Or.inr ((head?_of_front h.2.isPrefix hne).symm.trans h.1)

/-- A host in front of a pattern has no slash. -/
theorem slash_notMem_hostPart {host : Bytes} (h : hostPart pattern = some host) : chr '/' ∉ host := by
  rw [hostPart] at h
  split at h
  · cases h
  · cases h
    intro hc
    exact absurd (List.mem_takeWhile_imp hc) (by simp)

theorem hostPart_ne_nil {host : Bytes} (hne : pattern ≠ []) (h : hostPart pattern = some host) :
    host ≠ [] := by
  obtain ⟨b, rest, rfl⟩ := List.exists_cons_of_ne_nil hne
  rw [hostPart] at h
  split at h
  · cases h
  · rename_i hb
    cases h
    rw [List.head?_cons, Option.some.injEq] at hb
    rw [List.takeWhile_cons_of_pos (by simpa using hb)]
    simp

/-- What stands behind the host of a pattern is empty or begins with a slash. -/
theorem rooted_behind {host p : Bytes} (h : hostPart (host ++ p) = some host) : Rooted p := by
  cases p with
  | nil => exact Or.inl rfl
  | cons b p =>
    refine Or.inr ?_
    have hno := slash_notMem_hostPart h
    rw [hostPart] at h
    split at h
    · cases h
    · rw [Option.some.injEq] at h
      have hall : ∀ c ∈ host, (c != chr '/') = true := bne_of_notMem hno
      rw [List.takeWhile_append_of_pos hall] at h
      have hnil : (b :: p).takeWhile (fun b => b != chr '/') = [] := by
        simpa using h
      by_contra hb
      rw [List.head?_cons, Option.some.injEq] at hb
      rw [List.takeWhile_cons_of_pos (by simpa using hb)] at hnil
      cases hnil

theorem IsFor.rooted (h : IsFor r pattern) : Rooted r.path := by
  obtain ⟨hhost, p, rfl, hp⟩ := h
  rcases rooted_behind hhost with rfl | hslash
  · exact Or.inl (matches_nil_iff.1 hp)
  · have hne : p ≠ [] := by
      rintro rfl
      exact absurd hslash (by simp)
    exact Or.inr ((head?_of_front hp.isPrefix hne).symm.trans hslash)

/-- With the same text in front, a pattern matches the same. -/
theorem matches_append_iff {host p path : Bytes} (hhost : chr '/' ∉ host) :
    Matches (host ++ p) (host ++ path) ↔ Matches p path := by
  rw [Matches, Matches]
  rcases List.eq_nil_or_concat p with rfl | ⟨p', b, rfl⟩
  · have hlast : (host ++ []).getLast? ≠ some (chr '/') := by
      rw [List.append_nil]
      intro hc
      exact hhost (List.mem_of_getLast? hc)
    rw [if_neg hlast, if_neg (by simp), List.append_cancel_left_eq]
  · rw [List.concat_eq_append, ← List.append_assoc, List.getLast?_concat, List.getLast?_concat,
      List.append_assoc]
    split
    · exact List.prefix_append_right_inj host
    · rw [List.append_cancel_left_eq]

/-- A pattern matches the host and the path exactly if it is for them. -/
theorem matches_host_iff {host : Bytes} (hslash : chr '/' ∉ host) (hne : host ≠ [])
    (hpath : Rooted r.path) (hr : r.host = host) (hpattern : pattern ≠ []) :
    Matches pattern (host ++ r.path) ↔ IsFor r pattern := by
  subst hr
  constructor
  · intro h
    have hhost : r.host <+: pattern := by
      by_contra hno
      have hlt : pattern.length ≤ r.host.length := by
        by_contra hle
        exact hno (List.prefix_of_prefix_length_le (List.prefix_append _ _) h.isPrefix (by omega))
      have hpre : pattern <+: r.host :=
        List.prefix_of_prefix_length_le h.isPrefix (List.prefix_append _ _) hlt
      -- Inside of the host there is no slash to match the rest.
      rw [Matches, if_neg fun hc => hslash (hpre.subset (List.mem_of_getLast? hc))] at h
      exact hno (h ▸ List.prefix_append _ _)
    obtain ⟨p, rfl⟩ := hhost
    have hp := (matches_append_iff hslash).1 h
    refine ⟨?_, p, rfl, hp⟩
    obtain ⟨b, rest, hcons⟩ := List.exists_cons_of_ne_nil hne
    have hb : b ≠ chr '/' := by
      rintro rfl
      exact hslash (hcons ▸ List.mem_cons_self)
    have hall : ∀ c ∈ r.host, (c != chr '/') = true := bne_of_notMem hslash
    have hnil : p.takeWhile (fun b => b != chr '/') = [] := by
      by_cases hpnil : p = []
      · rw [hpnil]
        rfl
      · have hhead := head?_of_front hp.isPrefix hpnil
        obtain ⟨c, t, rfl⟩ := List.exists_cons_of_ne_nil hpnil
        rcases hpath with hpath | hpath
        · rw [hpath] at hhead
          cases hhead
        · rw [hpath, List.head?_cons, Option.some.injEq] at hhead
          rw [hhead, List.takeWhile_cons_of_neg (by simp)]
    rw [hostPart, if_neg (by rw [hcons]; simpa using hb), List.takeWhile_append_of_pos hall, hnil,
      List.append_nil]
  · rintro ⟨-, p, rfl, hp⟩
    exact (matches_append_iff hslash).2 hp

/-- A pattern that matches a path with a slash in front begins with one. -/
theorem matches_path_iff (hpath : r.path.head? = some (chr '/')) (hpattern : pattern ≠ []) :
    Matches pattern r.path ↔ Generic r pattern :=
  ⟨fun h => ⟨(head?_of_front h.isPrefix hpattern).trans hpath, h⟩, fun h => h.2⟩

/-! ## The choice -/

/-- The choice among the patterns of a kind, when these are the ones that match. -/
theorem IsSelection.longest {path : Bytes} {kind : Bytes → Prop} {found : Option H}
    (hkind : ∀ e ∈ regs, (Matches e.1 path ↔ kind e.1)) (hex : ∃ e ∈ regs, kind e.1)
    (h : IsSelection regs path (selected found)) : ∃ h, found = some h ∧ Longest regs kind h := by
  cases found with
  | none =>
    obtain ⟨e, he, hk⟩ := hex
    exact absurd ((hkind e he).2 hk) (h e he)
  | some x =>
    obtain ⟨e, he, rfl, hm, hmax⟩ := h
    exact ⟨e.2, rfl, e, he, rfl, (hkind e he).1 hm,
      fun d hd hk hne => hmax d hd ((hkind d hd).2 hk) hne⟩

theorem precedence_of_isSelection {found : Option H} (hregs : ∀ e ∈ regs, e.1 ≠ [])
    (h : IsSelection regs (effectivePath regs r) (selected found)) :
    Precedence regs r found ↔
      ((∃ e ∈ regs, hostPart e.1 = some r.host) →
        (∃ e ∈ regs, IsFor r e.1) ∨ ¬ ∃ e ∈ regs, Generic r e.1) := by
  -- With a pattern for the host, the patterns that match are the ones for host and path.
  have hhosted : (∃ e ∈ regs, hostPart e.1 = some r.host) → Rooted r.path →
      ∀ e ∈ regs, (Matches e.1 (effectivePath regs r) ↔ IsFor r e.1) := by
    intro hv hpath e he
    rw [effectivePath, if_pos hv]
    obtain ⟨d, hd, hhost⟩ := hv
    exact matches_host_iff (slash_notMem_hostPart hhost) (hostPart_ne_nil (hregs d hd) hhost) hpath
      rfl (hregs e he)
  constructor
  · intro hp hv
    by_contra hno
    rw [not_or, not_not] at hno
    obtain ⟨hnone, g, hg, hgeneric⟩ := hno
    obtain ⟨x, rfl, -⟩ := hp.generic hnone ⟨g, hg, hgeneric⟩
    obtain ⟨e, he, -, hm, -⟩ := h
    exact hnone ⟨e, he, (hhosted hv hgeneric.rooted e he).1 hm⟩
  · intro hcond
    constructor
    · rintro ⟨e, he, hfor⟩
      have hv : ∃ e ∈ regs, hostPart e.1 = some r.host := ⟨e, he, hfor.1⟩
      exact IsSelection.longest (hhosted hv hfor.rooted) ⟨e, he, hfor⟩ h
    · rintro hnone ⟨g, hg, hgeneric⟩
      have hv : ¬ ∃ e ∈ regs, hostPart e.1 = some r.host := by
        intro hv
        rcases hcond hv with hfor | hno
        · exact hnone hfor
        · exact hno ⟨g, hg, hgeneric⟩
      have hslash : r.path.head? = some (chr '/') := by
        rcases hgeneric.rooted with hnil | hslash
        · have hpre := hgeneric.2.isPrefix
          rw [hnil, List.prefix_nil] at hpre
          exact absurd hpre (hregs g hg)
        · exact hslash
      rw [effectivePath, if_neg hv] at h
      exact IsSelection.longest (fun e he => matches_path_iff hslash (hregs e he))
        ⟨g, hg, hgeneric⟩ h

/-- **Patterns for a host come first**, and leave the generic ones in place, exactly if no pattern is for
the host of the request, or one of them matches its path as well, or no generic pattern does. -/
theorem precedence_iff (calls : Registrations H) (r : SrsHttpMessage) :
    Precedence (new.registered calls) r ((new.handleAll calls).matchRequest r) ↔
      ((∃ e ∈ new.registered calls, hostPart e.1 = some r.host) →
        (∃ e ∈ new.registered calls, IsFor r e.1) ∨
          ¬ ∃ e ∈ new.registered calls, Generic r e.1) := by
  have hholds : Holds (new.handleAll calls) (new.registered calls) := holds_handleAll holds_new calls
  exact precedence_of_isSelection hholds.nonempty (matchRequest_isSelection hholds r)

/-- A request to the host `a`, for the path `/api/mytest`. -/
def hostRequest : SrsHttpMessage :=
  { SrsHttpMessage.new with
    uri := { SrsHttpUri.empty with
      url := str "http://a/api/mytest", host := str "a", path := str "/api/mytest" } }

/-- The pattern `a/img/` takes the handler of `/api/` away from the host `a`. -/
theorem not_precedence_generic :
    ¬ Precedence (new.registered [(str "/api/", 0), (str "a/img/", 1)]) hostRequest
        ((new.handleAll [(str "/api/", 0), (str "a/img/", 1)]).matchRequest hostRequest) := by
  have hreg : new.registered [(str "/api/", 0), (str "a/img/", 1)] =
      [(str "/api/", 0), (str "a/img/", 1)] := by decide
  have hnone : (new.handleAll [(str "/api/", 0), (str "a/img/", 1)]).matchRequest hostRequest =
      none := by decide
  have hfor : ¬ ∃ e ∈ [(str "/api/", 0), (str "a/img/", 1)], IsFor hostRequest e.1 := by
    rintro ⟨e, he, hfor⟩
    have hslash : chr '/' ∉ hostRequest.host := by decide
    have hrooted : Rooted hostRequest.path := Or.inr (by decide)
    rcases List.mem_pair.1 he with rfl | rfl
    · exact absurd hfor.1 (by decide)
    · have hm := (matches_host_iff hslash (by decide) hrooted rfl (by decide)).2 hfor
      exact absurd hm (by decide)
  intro h
  obtain ⟨x, hx, -⟩ := h.generic (by rw [hreg]; exact hfor)
    ⟨(str "/api/", 0), by rw [hreg]; exact List.mem_cons_self, by decide, by decide⟩
  rw [hnone] at hx
  cases hx

end SrsHttpServeMux

end HttpProxy
