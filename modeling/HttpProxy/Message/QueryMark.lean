import HttpProxy.Message.Query
import HttpProxy.Message.Again

/-!
# A query with a question mark

A message parses the whole query of its url.  `SrsHttpUri` parses what stands behind the first
question mark in it, if there is one.

* `pieces_mark` — the pieces of a query with a question mark, and of what stands behind it.
* `KeysAgree` — a message and its url answer alike for every key.
* `keysAgree_iff` — they do so without a question mark, and with one if the parameters up to
  it have no value; without a name that comes again behind it, they do so only then.
-/

namespace HttpProxy

/-- What `parse_query` parses. -/
def behindMark (q : Bytes) : Bytes :=
  match findSub (str "?") q with
  | some k => q.drop (k + 1)
  | none => q

theorem behindMark_of_notMem {q : Bytes} (h : chr '?' ∉ q) : behindMark q = q := by
  have hnone : findSub (str "?") q = none := by
    rw [← Option.not_isSome_iff_eq_none, findSub_isSome_iff]
    exact fun hin => h ((List.singleton_infix_iff _ _).1 hin)
  rw [behindMark, hnone]

theorem behindMark_append {a b : Bytes} (ha : chr '?' ∉ a) : behindMark (a ++ chr '?' :: b) = b := by
  have hfind : findSub (str "?") (a ++ chr '?' :: b) = some a.length := by
    have h : findSub (chr '?' :: []) (a ++ (chr '?' :: []) ++ b) = some a.length :=
      findSub_of_head_notMem ha
    rwa [List.append_assoc] at h
  rw [behindMark, hfind]
  simp only
  rw [List.drop_append, List.drop_eq_nil_of_le (by omega), List.nil_append, Nat.add_sub_cancel_left]
  rfl

/-! ## The pieces -/

theorem sepAt_mark (c : Byte) (r b : Bytes) : sepAt c (r ++ chr '?' :: b) = sepAt c r := by
  cases r with
  | nil =>
    rw [sepAt, sepAt, if_neg (by simp [chr]), if_neg (by simp)]
  | cons d r => rfl

theorem noSep_mark {a y : Bytes} (ha : NoSep a) (hy : NoSep y) : NoSep (a ++ chr '?' :: y) := by
  have hmark : ¬ IsSep (chr '?') := by
    unfold IsSep
    decide
  intro c hc
  rcases List.mem_append.1 hc with hc | hc
  · exact ha c hc
  · rcases List.mem_cons.1 hc with rfl | hc
    · exact hmark
    · exact hy c hc

/-- The piece with the first question mark is cut in two, and nothing behind it changes. -/
theorem pieces_mark {a : Bytes} (ha : chr '?' ∉ a) (b : Bytes) :
    ∃ A x y B, pieces (a ++ chr '?' :: b) = A ++ (x ++ chr '?' :: y) :: B ∧
      (∀ p ∈ A, chr '?' ∉ p) ∧ (pieces b = y :: B ∨ y = [] ∧ B = [] ∧ pieces b = []) := by
  induction a using split_induction with
  | hend a hno =>
    rcases noSep_or_split b with hb | ⟨y, c, rest, rfl, hy, hc⟩
    · have hall : NoSep (a ++ chr '?' :: b) := noSep_mark hno hb
      refine ⟨[], a, b, [], by rw [pieces_noSep hall, if_neg (by simp)]; rfl, by simp, ?_⟩
      rw [pieces_noSep hb]
      by_cases hnil : b = []
      · exact Or.inr ⟨hnil, rfl, if_pos hnil⟩
      · exact Or.inl (if_neg hnil)
    · have hall : NoSep (a ++ chr '?' :: y) := noSep_mark hno hy
      refine ⟨[], a, y, _, ?_, by simp, Or.inl (pieces_at hy hc rest)⟩
      have hsplit : a ++ chr '?' :: (y ++ c :: rest) = (a ++ chr '?' :: y) ++ c :: rest := by simp
      rw [hsplit, pieces_at hall hc]
      rfl
  | hat p c r hp hc ih =>
    have hle : (sepAt c r).length ≤ (c :: r).length := (sepAt_front c r).length_le
    have hdrop : chr '?' ∉ (c :: r).drop (sepAt c r).length := fun h =>
      ha (List.mem_append_right p (List.mem_of_mem_drop h))
    obtain ⟨A, x, y, B, hpieces, hA, hB⟩ := ih hdrop
    refine ⟨p :: A, x, y, B, ?_, ?_, hB⟩
    · rw [List.append_assoc, List.cons_append, pieces_at hp hc, sepAt_mark, ← List.cons_append,
        List.drop_append_of_le_length hle, hpieces, List.cons_append]
    · intro q hq
      rcases List.mem_cons.1 hq with rfl | hq
      · exact fun h => ha (List.mem_append_left _ h)
      · exact hA q hq

/-! ## Lookups -/

/-- The value of a key after some assignments. -/
def lastValue (l : List (Bytes × Bytes)) (key : Bytes) : Bytes := (OrdMap.findIn key l.reverse).getD []

theorem lastValue_append_of_absent {l m : List (Bytes × Bytes)} {key : Bytes}
    (h : ∀ e ∈ m, e.1 ≠ key) : lastValue (l ++ m) key = lastValue l key := by
  have hnone : OrdMap.findIn key m.reverse = none := by
    refine OrdMap.findIn_eq_none_iff.2 fun e he => h e (List.mem_reverse.1 he)
  rw [lastValue, List.reverse_append, OrdMap.findIn_append, hnone, Option.none_or]
  rfl

/-- Behind values that are empty, what is assigned before does not matter. -/
theorem lastValue_append_of_empty {l l' m : List (Bytes × Bytes)} {key : Bytes}
    (h : lastValue l key = lastValue l' key) : lastValue (l ++ m) key = lastValue (l' ++ m) key := by
  rw [lastValue, lastValue, List.reverse_append, List.reverse_append, OrdMap.findIn_append,
    OrdMap.findIn_append]
  cases OrdMap.findIn key m.reverse with
  | some v => rfl
  | none =>
    rw [Option.none_or, Option.none_or]
    exact h

theorem lastValue_of_absent {l : List (Bytes × Bytes)} {key : Bytes} (h : ∀ e ∈ l, e.1 ≠ key) :
    lastValue l key = [] := by
  rw [← List.nil_append l, lastValue_append_of_absent h]
  rfl

theorem lastValue_concat (l : List (Bytes × Bytes)) (e : Bytes × Bytes) :
    lastValue (l ++ [e]) e.1 = e.2 := by
  rw [lastValue, List.reverse_append, List.reverse_singleton, List.singleton_append, OrdMap.findIn,
    if_pos rfl]
  rfl

theorem lastValue_nil (y key : Bytes) : lastValue [(y, [])] key = [] := by
  by_cases h : y = key
  · rw [← h]
    exact lastValue_concat [] (y, [])
  · exact lastValue_of_absent (by simpa using h)

/-! ## Up to the question mark -/

/-- Neither the key nor the value has a question mark. -/
def noMark (e : Bytes × Bytes) : Bool := !(e.1.contains (chr '?') || e.2.contains (chr '?'))

/-- The assignments up to the first one with a question mark. -/
def upToMark (l : List (Bytes × Bytes)) : List (Bytes × Bytes) :=
  l.takeWhile noMark ++ (l.dropWhile noMark).take 1

theorem upToMark_append {P R : List (Bytes × Bytes)} {e : Bytes × Bytes} (hP : ∀ p ∈ P, noMark p = true)
    (he : noMark e = false) : upToMark (P ++ e :: R) = P ++ [e] := by
  have hneg : ¬ noMark e = true := by
    rw [he]
    exact Bool.false_ne_true
  rw [upToMark, List.takeWhile_append_of_pos hP, List.dropWhile_append_of_pos hP,
    List.takeWhile_cons_of_neg hneg, List.dropWhile_cons_of_neg hneg, List.append_nil]
  rfl

theorem pairUp_append {l : List Bytes} (h : l.length % 2 = 0) (m : List Bytes) :
    pairUp (l ++ m) = pairUp l ++ pairUp m := by
  induction l using pairUp.induct with
  | case1 => rfl
  | case2 k => exact absurd h (by simp)
  | case3 k v rest ih =>
    rw [List.length_cons, List.length_cons] at h
    rw [List.cons_append, List.cons_append, pairUp, pairUp, ih (by omega), List.cons_append]

theorem noMark_of_mem_pairUp {l : List Bytes} (hl : ∀ p ∈ l, chr '?' ∉ p) {e : Bytes × Bytes}
    (h : e ∈ pairUp l) : noMark e = true := by
  obtain ⟨h1, h2⟩ := mem_pairUp h
  have hvalue : chr '?' ∉ e.2 := by
    rcases h2 with h2 | h2
    · exact hl _ h2
    · rw [h2]
      exact List.not_mem_nil
  rw [noMark, Bool.not_eq_true', Bool.or_eq_false_iff]
  exact ⟨by simpa using hl _ h1, by simpa using hvalue⟩

/-- What the two parses of a query with a question mark have in common: the assignments behind the
parameter with the question mark.  This one is a key that is cut in two in the second parse, or
it has a value and the second parse is out of step. -/
structure Marked (b : Bytes) (l front : List (Bytes × Bytes)) (mark : Bytes × Bytes)
    (back : List (Bytes × Bytes)) : Prop where
  split : l = front ++ mark :: back
  upTo : upToMark l = front ++ [mark]
  behind : ∀ e ∈ back, e.1 ∈ pieces b
  parsed : mark.2 ≠ [] ∨
    ∃ y, ∀ key, lastValue (pairUp (pieces b)) key = lastValue ([(y, mark.2)] ++ back) key

/-- One piece in front of others is paired with the first of them, whatever it is. -/
theorem exists_pairUp_cons (B : List Bytes) :
    ∃ v R, (∀ z, pairUp (z :: B) = (z, v) :: R) ∧ (∀ e ∈ R, e.1 ∈ B) ∧ (B = [] → v = [] ∧ R = []) := by
  cases B with
  | nil => exact ⟨[], [], fun z => rfl, fun e he => absurd he List.not_mem_nil, fun _ => ⟨rfl, rfl⟩⟩
  | cons v B =>
    refine ⟨v, pairUp B, fun z => rfl, fun e he => ?_, fun h => absurd h (by simp)⟩
    exact List.mem_cons_of_mem v (mem_pairUp he).1

theorem exists_marked {a : Bytes} (ha : chr '?' ∉ a) (b : Bytes) :
    ∃ front mark back, Marked b (pairUp (pieces (a ++ chr '?' :: b))) front mark back := by
  obtain ⟨A, x, y, B, hpieces, hA, hB⟩ := pieces_mark ha b
  have hBmem : ∀ p ∈ B, p ∈ pieces b := by
    intro p hp
    rcases hB with hB | ⟨-, rfl, -⟩
    · rw [hB]
      exact List.mem_cons_of_mem y hp
    · exact absurd hp List.not_mem_nil
  rw [hpieces]
  by_cases heven : A.length % 2 = 0
  · -- The piece with the question mark is a key.
    obtain ⟨v, R, hcons, hR, hnil⟩ := exists_pairUp_cons B
    have hsplit : pairUp (A ++ (x ++ chr '?' :: y) :: B) =
        pairUp A ++ (x ++ chr '?' :: y, v) :: R := by
      rw [pairUp_append heven, hcons]
    refine ⟨pairUp A, (x ++ chr '?' :: y, v), R, hsplit, ?_, fun e he => hBmem _ (hR e he),
      Or.inr ⟨y, ?_⟩⟩
    · rw [hsplit]
      exact upToMark_append (fun p hp => noMark_of_mem_pairUp hA hp) (by simp [noMark])
    · intro key
      rcases hB with hB | ⟨rfl, rfl, hB⟩
      · rw [hB, hcons]
        rfl
      · obtain ⟨rfl, rfl⟩ := hnil rfl
        rw [hB, List.append_nil, lastValue_nil]
        rfl
  · -- It is a value.
    obtain ⟨A', w, rfl⟩ : ∃ A' w, A = A' ++ [w] := by
      rcases List.eq_nil_or_concat A with rfl | ⟨A', w, h⟩
      · exact absurd rfl heven
      · exact ⟨A', w, h.trans List.concat_eq_append⟩
    rw [List.length_append, List.length_singleton] at heven
    have hsplit : pairUp (A' ++ [w] ++ (x ++ chr '?' :: y) :: B) =
        pairUp A' ++ (w, x ++ chr '?' :: y) :: pairUp B := by
      rw [List.append_assoc, pairUp_append (by omega)]
      rfl
    refine ⟨pairUp A', (w, x ++ chr '?' :: y), pairUp B, hsplit, ?_, ?_, Or.inl (by simp)⟩
    · rw [hsplit]
      refine upToMark_append (fun p hp => ?_) (by simp [noMark])
      exact noMark_of_mem_pairUp (fun p hp => hA p (List.mem_append_left _ hp)) hp
    · exact fun e he => hBmem _ (mem_pairUp he).1

/-! ## Agreement -/

/-- The parameters up to the one with the first question mark have no value. -/
def UpToMarkEmpty (q : Bytes) : Prop := ∀ key, lastValue (upToMark (queryAssignments q)) key = []

/-- No name of these parameters is a piece of what stands behind the question mark. -/
def NamesOnce (q : Bytes) : Prop :=
  ∀ e ∈ upToMark (queryAssignments q), e.1 ∉ pieces (behindMark q)

/-- The whole query has the same values as what stands behind the question mark. -/
def ParsesAgree (q : Bytes) : Prop :=
  ∀ key, lastValue (queryAssignments q) key = lastValue (queryAssignments (behindMark q)) key

theorem queryAssignments_eq {q : Bytes} (h : q.length < 2 ^ 31) : queryAssignments q = pairUp (pieces q) := by
  have hle := length_pieces_le q
  exact congrArg pairUp (intLoop_eq_self (l := pieces q) (by omega))

theorem parsesAgree_iff {q : Bytes} (hlen : q.length < 2 ^ 31) :
    (chr '?' ∉ q ∨ UpToMarkEmpty q → ParsesAgree q) ∧
      (NamesOnce q → ParsesAgree q → chr '?' ∉ q ∨ UpToMarkEmpty q) := by
  by_cases hq : chr '?' ∈ q
  · obtain ⟨a, b, rfl, ha⟩ := List.eq_append_cons_of_mem hq
    have hb : b.length < 2 ^ 31 := by
      rw [List.length_append, List.length_cons] at hlen
      omega
    obtain ⟨front, mark, back, hm⟩ := exists_marked ha b
    rw [UpToMarkEmpty, NamesOnce, ParsesAgree, behindMark_append ha, queryAssignments_eq hlen,
      queryAssignments_eq hb, hm.upTo]
    have hsplit : pairUp (pieces (a ++ chr '?' :: b)) = (front ++ [mark]) ++ back := by
      rw [hm.split, List.append_assoc, List.singleton_append]
    rw [hsplit]
    constructor
    · intro hor key
      have hempty := hor.resolve_left (not_not.2 hq)
      have hvalue : mark.2 = [] := by rw [← lastValue_concat front mark, hempty]
      obtain ⟨y, hy⟩ := hm.parsed.resolve_left (not_not.2 hvalue)
      rw [hy key]
      refine lastValue_append_of_empty ?_
      rw [hempty key, hvalue, lastValue_nil]
    · intro hnames hagree
      refine Or.inr fun key => ?_
      by_cases hkey : ∃ e ∈ front ++ [mark], e.1 = key
      · obtain ⟨e, he, rfl⟩ := hkey
        have hback : ∀ d ∈ back, d.1 ≠ e.1 := fun d hd h => hnames e he (h ▸ hm.behind d hd)
        have hparsed : ∀ d ∈ pairUp (pieces b), d.1 ≠ e.1 := fun d hd h =>
          hnames e he (h ▸ (mem_pairUp hd).1)
        rw [← lastValue_append_of_absent hback, hagree e.1, lastValue_of_absent hparsed]
      · exact lastValue_of_absent fun e he h => hkey ⟨e, he, h⟩
  · have hagree : ParsesAgree q := by
      intro key
      rw [behindMark_of_notMem hq]
    exact ⟨fun _ => hagree, fun _ _ => Or.inl hq⟩

/-! ## The length of the query -/

section Length

/-- The fields that the loop over the url marks are shorter than 2 ^ 16 bytes. -/
theorem parseUrlLoop_len_lt {s : State} {old : Option UrlField} {off : Nat} {u : HttpParserUrl}
    {foundAt : Bool} {buf : Bytes} {r : HttpParserUrl × Bool}
    (h : parseUrlLoop s old off u foundAt buf = some r)
    (hu : ∀ f x, u f = some x → x.2 < 2 ^ 16) : ∀ f x, r.1 f = some x → x.2 < 2 ^ 16 := by
  have hextend : ∀ (u : HttpParserUrl) g, (∀ f x, u f = some x → x.2 < 2 ^ 16) →
      ∀ f x, u.extend g f = some x → x.2 < 2 ^ 16 := by
    intro u g hu f x hx
    rw [HttpParserUrl.extend] at hx
    split at hx
    · obtain ⟨y, -, rfl⟩ := Option.map_eq_some_iff.1 hx
      exact Nat.mod_lt _ (by norm_num)
    · exact hu f x hx
  have hbegin : ∀ (u : HttpParserUrl) g off, (∀ f x, u f = some x → x.2 < 2 ^ 16) →
      ∀ f x, u.begin g off 1 f = some x → x.2 < 2 ^ 16 := by
    intro u g off hu f x hx
    rw [HttpParserUrl.begin] at hx
    split at hx
    · rw [← Option.some.inj hx]
      norm_num
    · exact hu f x hx
  induction buf generalizing s old off u foundAt with
  | nil =>
    rw [parseUrlLoop, Option.some.injEq] at h
    rw [← h]
    exact hu
  | cons ch buf ih =>
    rw [parseUrlLoop] at h
    split at h
    · cases h
    · split at h
      · exact ih h hu
      · refine ih h ?_
        split
        · exact hextend u _ hu
        · exact hbegin u _ off hu

theorem length_query_lt {buf : Bytes} {hp : HttpParserUrl} (h : httpParserParseUrl buf = some hp) :
    (getUriField buf hp .query).length < 2 ^ 16 := by
  obtain ⟨r, hloop, hr⟩ := parseUrl_some h
  have hlt := parseUrlLoop_len_lt hloop (by simp)
  have hquery : hp .query = r.1 .query := by
    rcases hr with ⟨-, rfl⟩ | ⟨off, len, -, hhost⟩
    · rfl
    · exact httpParseHost_other (by decide) hhost
  rw [getUriField, hquery]
  cases hx : r.1 .query with
  | none => exact Nat.pos_of_ne_zero (by norm_num)
  | some x =>
    simp only [List.length_take]
    have := hlt .query x hx
    omega

end Length

/-! ## The message -/

namespace SrsHttpUri

theorem getQueryByKey_eq (u : SrsHttpUri) (key : Bytes) :
    u.getQueryByKey key = (u.queryValues.find? key).getD [] := by
  rw [getQueryByKey]
  cases u.queryValues.find? key <;> rfl

/-- Over no parameters, a key has the value that the parse of the query gives it. -/
theorem getQueryByKey_parseQuery {u : SrsHttpUri} (hu : u.queryValues = .empty) (key : Bytes) :
    u.parseQuery.getQueryByKey key = lastValue (queryAssignments (behindMark u.query)) key := by
  rw [getQueryByKey_eq, lastValue, parseQuery]
  by_cases hnil : u.query = []
  · have hnone : queryAssignments (behindMark []) = [] := by decide
    rw [if_pos hnil, hu, OrdMap.find?_empty, hnil, hnone]
    rfl
  · rw [if_neg hnil]
    simp only
    rw [find?_srsParseQueryString, behindMark]
    cases findSub (str "?") u.query with
    | none => simp only [List.drop_zero]
    | some k => simp only

theorem getQueryByKey_initializeFrom {url : Bytes} (h : (empty.initializeFrom url).1 = none) (key : Bytes) :
    (empty.initializeFrom url).2.getQueryByKey key =
      lastValue (queryAssignments (behindMark (empty.initializeFrom url).2.query)) key := by
  rw [initializeFrom_some empty ((initializeFrom_accepted_iff empty).1 h)]
  simp only
  rw [(parseQuery_keeps _).2.2.2.2.2.1]
  exact getQueryByKey_parseQuery (by rfl) key

theorem length_query_initializeFrom {url : Bytes} (h : (empty.initializeFrom url).1 = none) :
    (empty.initializeFrom url).2.query.length < 2 ^ 31 := by
  obtain ⟨hp, hparse, -, -, hquery⟩ := initializeFrom_accepted h
  have hlt := length_query_lt hparse
  rw [hquery]
  omega

end SrsHttpUri

namespace SrsHttpMessage

variable {m m' : SrsHttpMessage}

/-- The message and its url answer alike for every key. -/
def KeysAgree (m : SrsHttpMessage) : Prop := ∀ key, m.queryGet key = m.uri.getQueryByKey key

/-- No url has been set. -/
structure NoUrl (m : SrsHttpMessage) : Prop where
  uri : m.uri = .empty
  query : m.query = .empty

theorem keysAgree_iff_parsesAgree (hm : m.NoUrl) {publicAddress : Option Bytes} {t : Bytes} {allowJsonp : Bool}
    (h : m.setUrl publicAddress t allowJsonp = (none, m')) :
    m'.queryText.length < 2 ^ 31 ∧ (KeysAgree m' ↔ ParsesAgree m'.queryText) := by
  by_cases hconnect : m.isHttpConnect = true
  · -- A CONNECT request has a url, and no query.
    have hm' : m' = { m with url := t } := by
      rw [setUrl] at h
      exact (Prod.mk.inj ((if_pos hconnect).symm.trans h)).2.symm
    subst hm'
    have hnone : queryAssignments (behindMark []) = [] ∧ queryAssignments [] = [] := by decide
    rw [queryText, hm.uri]
    refine ⟨by decide, iff_of_true (fun key => ?_) fun key => ?_⟩
    · rw [queryGet, hm.query, SrsHttpUri.getQueryByKey_eq]
      rfl
    · show lastValue (queryAssignments []) key = lastValue (queryAssignments (behindMark [])) key
      rw [hnone.1, hnone.2]
  · have haccepted : (m.setUrl publicAddress t allowJsonp).1 = none := by rw [h]
    obtain ⟨hinit, huri, hquery⟩ := setUrl_accepted (by simpa using hconnect) haccepted
    rw [h, hm.uri] at huri
    rw [h, hm.uri, hm.query, ← huri] at hquery
    rw [hm.uri] at hinit
    have hlen := SrsHttpUri.length_query_initializeFrom hinit
    have hkey := SrsHttpUri.getQueryByKey_initializeFrom hinit
    rw [← huri] at hlen hkey
    refine ⟨hlen, forall_congr' fun key => ?_⟩
    rw [queryGet, hquery, find?_srsParseQueryString, hkey key]
    exact Iff.rfl

/-- **The two query maps agree without a question mark in the query, and with one if the parameters up to
it have no value.**  If none of their names comes again behind it, they agree only then. -/
theorem keysAgree_iff (hm : m.NoUrl) {publicAddress : Option Bytes} {t : Bytes} {allowJsonp : Bool}
    (h : m.setUrl publicAddress t allowJsonp = (none, m')) :
    (chr '?' ∉ m'.queryText ∨ UpToMarkEmpty m'.queryText → KeysAgree m') ∧
      (NamesOnce m'.queryText → KeysAgree m' → chr '?' ∉ m'.queryText ∨ UpToMarkEmpty m'.queryText) := by
  obtain ⟨hlen, hiff⟩ := keysAgree_iff_parsesAgree hm h
  rw [hiff]
  exact parsesAgree_iff hlen

theorem noUrl_new : NoUrl new := ⟨rfl, rfl⟩

/-- A fresh message with the url. -/
def withUrl (url : Bytes) : SrsHttpMessage := (new.setUrl none url false).2

theorem setUrl_withUrl {url : Bytes} (h : (new.setUrl none url false).1 = none) :
    new.setUrl none url false = (none, withUrl url) := by
  rw [withUrl, ← h]

/-- A parameter without a value in front of the question mark. -/
theorem keysAgree_iff_empty :
    (chr '?' ∉ (withUrl (str "http://a/?k?b=2")).queryText ∨
        UpToMarkEmpty (withUrl (str "http://a/?k?b=2")).queryText →
      KeysAgree (withUrl (str "http://a/?k?b=2"))) ∧
    (NamesOnce (withUrl (str "http://a/?k?b=2")).queryText →
      KeysAgree (withUrl (str "http://a/?k?b=2")) →
        chr '?' ∉ (withUrl (str "http://a/?k?b=2")).queryText ∨
          UpToMarkEmpty (withUrl (str "http://a/?k?b=2")).queryText) :=
  keysAgree_iff noUrl_new (setUrl_withUrl (by decide))

/-- The key `b` has no value in the message, and the value 2 in its url. -/
theorem not_keysAgree_twice :
    (new.setUrl none (str "http://a/?a=1?b=2") false).1 = none ∧
      ¬ KeysAgree (withUrl (str "http://a/?a=1?b=2")) := by
  refine ⟨by decide, ?_⟩
  intro h
  exact absurd (h (str "b")) (by decide)

end SrsHttpMessage

end HttpProxy
