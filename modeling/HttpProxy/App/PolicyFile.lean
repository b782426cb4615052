import HttpProxy.App.Policy
import HttpProxy.Json.Tree

/-!
# Reading the policy and the block page

`SrsPolicy::loadPolicy` and `SrsNotification::loadNotification` of `src/app/srs_app_policy.cpp`, lines
19-101 and 141-174, over `SrsFileReader::read` of `src/kernel/srs_kernel_file.cpp`, lines 230-253.

* `FileRead`, `SrsFileReader.read` — what a call of `read` gives, and what is made of it.
* `readLoop` — the loop that is written in both of the functions.
* `readLoops_iff` — which sequences of calls it reads as it should.
* `SrsPolicy.loadSettings`, `SrsPolicy.loadPolicy` — the settings, from the text that was read.
* `SrsPolicy.loaded_iff` — the contents from which every setting is taken that can be taken.
-/

namespace HttpProxy

/-! ## The read call -/

/-- What a call of `read` for 4096 bytes gives. -/
inductive FileRead
  | block (bytes : Bytes) (hne : bytes ≠ []) (hle : bytes.length ≤ 4096)
  | eof
  | error

namespace FileRead

/-- The bytes that were read. -/
def bytes : FileRead → Bytes
  | block bytes _ _ => bytes
  | eof => []
  | error => []

/-- The call has read a block. -/
def IsBlock : FileRead → Prop
  | block _ _ _ => True
  | eof => False
  | error => False

end FileRead

/-- The errors of `SrsFileReader::read`. -/
inductive SrsFileError
  /-- `ERROR_SYSTEM_FILE_READ`. -/
  | read
  /-- `ERROR_SYSTEM_FILE_EOF`. -/
  | eof
  deriving DecidableEq

/-- `SrsFileReader::read`: the error, the buffer and the count behind `pnread`, which stays as it is when
the call fails. -/
def SrsFileReader.read (call : FileRead) (buf : Bytes) (nread : Nat) :
    Option SrsFileError × Bytes × Nat :=
  match call with
  | .error => (some .read, buf, nread)
  | .eof => (some .eof, buf, 0)
  | .block bytes _ _ => (none, bytes ++ buf.drop bytes.length, bytes.length)

/-- `memset(buf, 0, sizeof(buf))`. -/
def zeroed : Bytes := List.replicate 4096 0

/-- `srs_freep(err)`, which frees the error and makes the pointer NULL. -/
def srsFreep {α : Type} (_ : Option α) : Option α := none

/-- The loop `while(1)` of the two functions: the number of calls it has made in the end, and the text. -/
def readLoop (reads : Nat → FileRead) : Nat → Nat → Bytes → Nat → Bytes → Outcome Empty (Nat × Bytes)
  | 0, _, _, _, _ => .fault .endless
  | fuel + 1, k, buf, nread, text =>
      let res := SrsFileReader.read (reads k) buf nread
      let err := srsFreep res.1
      if res.2.2 = 0 then .done (k + 1, text)
      else if err ≠ none then .done (k + 1, text)
      else readLoop reads fuel (k + 1) zeroed res.2.2 (text ++ res.2.1.take res.2.2)

/-- The loop of `loadPolicy`, with what happens to be in its buffer. -/
def SrsPolicy.readPolicy (reads : Nat → FileRead) (buf : Bytes) (fuel : Nat) : Outcome Empty (Nat × Bytes) :=
  readLoop reads fuel 0 buf 0 []

/-- `loadNotification`, which appends to the page. -/
def SrsNotification.loadNotification (page : Bytes) (reads : Nat → FileRead) (buf : Bytes) (fuel : Nat) :
    Outcome Empty (Nat × Bytes) := readLoop reads fuel 0 buf 0 page

/-! ## What the loop should do -/

/-- What the calls in front of the `j`-th have read. -/
def collected (reads : Nat → FileRead) (j : Nat) : Bytes := (List.range j).flatMap fun i => (reads i).bytes

/-- The `j`-th call is the first that is at the end of the file or fails. -/
structure FirstStop (reads : Nat → FileRead) (j : Nat) : Prop where
  blocks : ∀ i < j, (reads i).IsBlock
  stop : ¬ (reads j).IsBlock

/-- The loop ends with the `j`-th call, and has added exactly what was read before it. -/
def EndsAt (run : Nat → Outcome Empty (Nat × Bytes)) (reads : Nat → FileRead) (start : Bytes) (j : Nat) : Prop :=
  ∃ fuel, run fuel = .done (j + 1, start ++ collected reads j)

variable {reads : Nat → FileRead} {fuel j k n nread : Nat} {buf text start : Bytes} {res : Nat × Bytes}

theorem collected_succ (reads : Nat → FileRead) (j : Nat) :
    collected reads (j + 1) = collected reads j ++ (reads j).bytes := by
  rw [collected, List.range_succ, List.flatMap_append]
  simp [collected]

/-! ## One turn -/

theorem FileRead.IsBlock.length_ne {call : FileRead} (h : call.IsBlock) : call.bytes.length ≠ 0 := by
  cases call with
  | block bytes hne hle => simpa [FileRead.bytes] using hne
  | eof => exact absurd h id
  | error => exact absurd h id

/-- A block is added to the text. -/
theorem readLoop_block (h : (reads k).IsBlock) :
    readLoop reads (fuel + 1) k buf nread text =
      readLoop reads fuel (k + 1) zeroed (reads k).bytes.length (text ++ (reads k).bytes) := by
  have hlen := h.length_ne
  have hread : SrsFileReader.read (reads k) buf nread =
      (none, (reads k).bytes ++ buf.drop (reads k).bytes.length, (reads k).bytes.length) := by
    cases hcall : reads k with
    | block bytes hne hle => rfl
    | eof => rw [hcall] at h; exact absurd h id
    | error => rw [hcall] at h; exact absurd h id
  rw [readLoop, hread]
  simp only [hlen, srsFreep, ne_eq, not_true_eq_false, if_false, List.take_left]

theorem readLoop_eof (h : reads k = .eof) : readLoop reads (fuel + 1) k buf nread text = .done (k + 1, text) := by
  rw [readLoop, h]
  rfl

/-- A failed call ends the loop if nothing was read before it. -/
theorem readLoop_error_zero (h : reads k = .error) :
    readLoop reads (fuel + 1) k buf 0 text = .done (k + 1, text) := by
  rw [readLoop, h]
  rfl

/-- Behind a block the count of the block is still there, so the failed call adds as many bytes. -/
theorem readLoop_error (h : reads k = .error) (hn : nread ≠ 0) :
    readLoop reads (fuel + 1) k buf nread text =
      readLoop reads fuel (k + 1) zeroed nread (text ++ buf.take nread) := by
  have hread : SrsFileReader.read (reads k) buf nread = (some .read, buf, nread) := by
    rw [h]
    rfl
  rw [readLoop, hread]
  simp only [hn, srsFreep, ne_eq, not_true_eq_false, if_false]

/-! ## Whole runs -/

/-- More fuel changes nothing once the loop has ended. -/
theorem readLoop_mono (h : readLoop reads fuel k buf nread text = .done res) (d : Nat) :
    readLoop reads (fuel + d) k buf nread text = .done res := by
  induction fuel generalizing k buf nread text with
  | zero => cases h
  | succ fuel ih =>
    rw [Nat.succ_add, readLoop]
    rw [readLoop] at h
    split
    · next h0 => rwa [if_pos h0] at h
    · next h0 =>
      rw [if_neg h0] at h
      split
      · next herr => rwa [if_pos herr] at h
      · next herr =>
        rw [if_neg herr] at h
        exact ih h

/-- The loop makes the call that it is at. -/
theorem lt_of_readLoop (h : readLoop reads fuel k buf nread text = .done res) : k < res.1 := by
  induction fuel generalizing k buf nread text with
  | zero => cases h
  | succ fuel ih =>
    rw [readLoop] at h
    split at h
    · cases h
      exact Nat.lt_succ_self k
    · split at h
      · cases h
        exact Nat.lt_succ_self k
      · exact Nat.lt_of_succ_lt (ih h)

/-- Blocks are added one after the other; the count is that of the last, if there was any. -/
theorem readLoop_blocks (buf start : Bytes) (h : ∀ i < j, (reads i).IsBlock) :
    ∃ buf' m, (m = 0 ↔ j = 0) ∧ ∀ fuel, readLoop reads (j + fuel) 0 buf 0 start =
      readLoop reads fuel j buf' m (start ++ collected reads j) := by
  induction j with
  | zero => exact ⟨buf, 0, by simp, fun fuel => by simp [collected]⟩
  | succ j ih =>
    obtain ⟨buf', m, -, hrun⟩ := ih fun i hi => h i (by omega)
    have hblock := h j (by omega)
    refine ⟨zeroed, (reads j).bytes.length, by simpa using hblock.length_ne, fun fuel => ?_⟩
    rw [Nat.add_right_comm, Nat.add_assoc, hrun, readLoop_block hblock, List.append_assoc, collected_succ]

/-- The loop ends as it should at the end of the file, and at a failed call only if that is the first
call. -/
theorem endsAt_iff (buf start : Bytes) (hstop : FirstStop reads j) :
    EndsAt (fun fuel => readLoop reads fuel 0 buf 0 start) reads start j ↔ reads j = .eof ∨ j = 0 := by
  obtain ⟨buf', m, hm, hrun⟩ := readLoop_blocks buf start hstop.blocks
  cases hcall : reads j with
  | block bytes hne hle =>
    have hblock := hstop.stop
    rw [hcall] at hblock
    exact absurd trivial hblock
  | eof => exact iff_of_true ⟨j + 1, (hrun 1).trans (readLoop_eof hcall)⟩ (Or.inl rfl)
  | error =>
    by_cases hj : j = 0
    · obtain rfl := hm.2 hj
      exact iff_of_true ⟨j + 1, (hrun 1).trans (readLoop_error_zero hcall)⟩ (Or.inr hj)
    · -- the loop goes on and makes at least one more call
      refine iff_of_false ?_ (by simp [hj])
      rintro ⟨fuel, hend⟩
      have hmore := readLoop_mono hend (j + 1)
      rw [show fuel + (j + 1) = j + (fuel + 1) by omega, hrun, readLoop_error hcall (by omega)] at hmore
      exact absurd (lt_of_readLoop hmore) (by simp)

/-- Both of the functions end at the first end of file or failed call, with what was read until then,
exactly when no call fails behind a block. -/
theorem readLoops_iff (reads : Nat → FileRead) (buf page : Bytes) :
    (∀ j, FirstStop reads j → EndsAt (SrsPolicy.readPolicy reads buf) reads [] j ∧
      EndsAt (SrsNotification.loadNotification page reads buf) reads page j) ↔
      ∀ j, FirstStop reads j → reads j = .eof ∨ j = 0 := by
  refine forall₂_congr fun j hstop => ?_
  have hpolicy : EndsAt (SrsPolicy.readPolicy reads buf) reads [] j ↔ _ := endsAt_iff _ _ hstop
  have hpage : EndsAt (SrsNotification.loadNotification page reads buf) reads page j ↔ _ := endsAt_iff _ _ hstop
  rw [hpolicy, hpage, and_self]

/-- A file that can be read once, and then fails once. -/
def failsOnce : Nat → FileRead
  | 0 => .block [chr 'a'] (List.cons_ne_nil _ _) (by decide)
  | 1 => .error
  | _ => .eof

theorem failsOnce_firstStop : FirstStop failsOnce 1 := by
  refine ⟨fun i hi => ?_, id⟩
  obtain rfl : i = 0 := by omega
  trivial

/-- The failed call adds a byte of the cleared buffer, and the loop reads on. -/
theorem failsOnce_not_endsAt :
    FirstStop failsOnce 1 ∧ SrsPolicy.readPolicy failsOnce zeroed 3 = .done (3, [97, 0]) ∧
      ¬ EndsAt (SrsPolicy.readPolicy failsOnce zeroed) failsOnce [] 1 := by
  have hblock : (failsOnce 0).IsBlock := trivial
  refine ⟨failsOnce_firstStop, ?_, fun h => ?_⟩
  · rw [SrsPolicy.readPolicy, readLoop_block hblock, readLoop_error rfl hblock.length_ne, readLoop_eof rfl]
    rfl
  · have hends := (endsAt_iff _ _ failsOnce_firstStop).1 h
    exact absurd hends (by simp [failsOnce])

/-! ## The settings -/

namespace SrsPolicy

variable {δ : Type} (jsonParse : Bytes → JsonValue δ)

/-- The members behind the constructor, in front of `loadPolicy`. -/
def fresh : SrsPolicy := ⟨[], [], false⟩

/-- The loop `vec.push_back(array->at(i)->to_str())`.  No array of a text that was parsed has so many
elements that `count` would be negative. -/
def pushEach : List (SrsJsonAny δ) → List Bytes → Outcome Empty (List Bytes)
  | [], vec => .done vec
  | item :: array, vec => item.toStr.bind fun text => pushEach array (vec ++ [text])

/-- `loadPolicy` behind the loop. -/
def loadSettings (p : SrsPolicy) (policy : Bytes) : Outcome Empty SrsPolicy :=
  (loads jsonParse policy).bind fun any =>
    match any with
    | none => .done p
    | some any =>
        any.objectOrNull.bind fun objReq =>
        (Outcome.deref objReq).bind fun objReq =>
        (Outcome.deref (objReq.getProperty (str "black_list"))).bind fun prop =>
        if !prop.isArray then .done p
        else
          prop.toArray.bind fun array =>
          (pushEach array p.blackListVec).bind fun vec =>
          let p := { p with blackListVec := vec }
          (Outcome.deref (objReq.getProperty (str "https_descrypt"))).bind fun prop =>
          if !prop.isBoolean then .done p
          else
            prop.toBoolean.bind fun value =>
            let p := { p with httpsDescryptEnable := value }
            (Outcome.deref (objReq.getProperty (str "tunnel_domain"))).bind fun prop =>
            if !prop.isArray then .done p
            else
              prop.toArray.bind fun array =>
              (pushEach array p.tunnelDomainVec).bind fun vec =>
              .done { p with tunnelDomainVec := vec }

/-- `loadPolicy`. -/
def loadPolicy (p : SrsPolicy) (reads : Nat → FileRead) (buf : Bytes) (fuel : Nat) : Outcome Empty SrsPolicy :=
  (readPolicy reads buf fuel).bind fun res => loadSettings jsonParse p res.2

/-! ## What the settings should be -/

/-- A list of strings. -/
def texts : List (SrsJsonAny δ) → Option (List Bytes)
  | [] => some []
  | .str text :: items => (texts items).map (text :: ·)
  | _ :: _ => none

/-- The strings of a property that is an array of strings, and none for any other. -/
def listOf : Option (SrsJsonAny δ) → List Bytes
  | some (.array items) => (texts items).getD []
  | _ => []

/-- The value of a property that is a boolean, and false for any other. -/
def flagOf : Option (SrsJsonAny δ) → Bool
  | some (.boolean value) => value
  | _ => false

/-- The settings that are given: each on its own, and the default where it is missing or has another
type. -/
def given : Option (SrsJsonAny δ) → SrsPolicy
  | some (.object obj) =>
      ⟨listOf (SrsJsonObject.getProperty obj (str "black_list")),
        listOf (SrsJsonObject.getProperty obj (str "tunnel_domain")),
        flagOf (SrsJsonObject.getProperty obj (str "https_descrypt"))⟩
  | _ => fresh

/-- From `tunnel_domain` on, behind an `https_descrypt` that is a boolean. -/
def OrderlyTunnel : Option (SrsJsonAny δ) → Prop
  | none => False
  | some (.array items) => texts items ≠ none
  | some _ => True

/-- From `https_descrypt` on, behind a `black_list` of strings. -/
def OrderlyHttps (https tunnel : Option (SrsJsonAny δ)) : Prop :=
  match https with
  | none => False
  | some (.boolean _) => OrderlyTunnel tunnel
  | some _ => listOf tunnel = []

/-- From `black_list` on. -/
def OrderlyBlack (black https tunnel : Option (SrsJsonAny δ)) : Prop :=
  match black with
  | none => False
  | some (.array items) => texts items ≠ none ∧ OrderlyHttps https tunnel
  | some _ => flagOf https = false ∧ listOf tunnel = []

/-- The three properties are there, in the order of reading, as far as they are needed; one of another
type has none behind it that says anything else than the default. -/
def Orderly : Option (SrsJsonAny δ) → Prop
  | none => True
  | some (.object obj) =>
      OrderlyBlack (SrsJsonObject.getProperty obj (str "black_list"))
        (SrsJsonObject.getProperty obj (str "https_descrypt"))
        (SrsJsonObject.getProperty obj (str "tunnel_domain"))
  | some _ => False

variable {jsonParse} {vec : List Bytes} {items : List (SrsJsonAny δ)} {policy : Bytes}
  {black https tunnel root : Option (SrsJsonAny δ)}

/-- The loop appends the strings of the array, or fails an assertion. -/
theorem pushEach_of_texts {ts : List Bytes} (h : texts items = some ts) :
    pushEach items vec = .done (vec ++ ts) := by
  induction items generalizing vec ts with
  | nil =>
    cases h
    simp [pushEach]
  | cons item items ih =>
    cases item with
    | str text =>
      obtain ⟨ts, hts, rfl⟩ := Option.map_eq_some_iff.1 h
      rw [pushEach, SrsJsonAny.toStr, Outcome.bind_done, ih hts]
      simp
    | _ => cases h

theorem pushEach_of_none (h : texts items = none) : pushEach items vec = .fault .assertFailed := by
  induction items generalizing vec with
  | nil => cases h
  | cons item items ih =>
    cases item with
    | str text => exact ih (Option.map_eq_none_iff.1 h)
    | _ => rfl

/-- `loadPolicy` from `tunnel_domain` on. -/
def loadTunnel (p : SrsPolicy) (tunnel : Option (SrsJsonAny δ)) : Outcome Empty SrsPolicy :=
  (Outcome.deref tunnel).bind fun prop =>
  if !prop.isArray then .done p
  else
    prop.toArray.bind fun array =>
    (pushEach array p.tunnelDomainVec).bind fun vec =>
    .done { p with tunnelDomainVec := vec }

/-- `loadPolicy` from `https_descrypt` on. -/
def loadHttps (p : SrsPolicy) (https tunnel : Option (SrsJsonAny δ)) : Outcome Empty SrsPolicy :=
  (Outcome.deref https).bind fun prop =>
  if !prop.isBoolean then .done p
  else
    prop.toBoolean.bind fun value => loadTunnel { p with httpsDescryptEnable := value } tunnel

/-- `loadPolicy` from `black_list` on. -/
def loadBlack (p : SrsPolicy) (black https tunnel : Option (SrsJsonAny δ)) : Outcome Empty SrsPolicy :=
  (Outcome.deref black).bind fun prop =>
  if !prop.isArray then .done p
  else
    prop.toArray.bind fun array =>
    (pushEach array p.blackListVec).bind fun vec => loadHttps { p with blackListVec := vec } https tunnel

theorem loadSettings_object {p : SrsPolicy} {obj : SrsJsonObject δ}
    (h : loads (ε := Empty) jsonParse policy = .done (some (.object obj))) :
    loadSettings jsonParse p policy = loadBlack p (obj.getProperty (str "black_list"))
      (obj.getProperty (str "https_descrypt")) (obj.getProperty (str "tunnel_domain")) := by
  rw [loadSettings, h]
  rfl

/-- The defaults are what is given when nothing else is. -/
theorem defaults_iff {ts : List Bytes} {value : Bool} :
    (.done ⟨vec, [], false⟩ : Outcome Empty SrsPolicy) = .done ⟨vec, ts, value⟩ ↔ value = false ∧ ts = [] := by
  constructor
  · intro h
    cases h
    exact ⟨rfl, rfl⟩
  · rintro ⟨rfl, rfl⟩
    rfl

theorem loadTunnel_iff {value : Bool} :
    loadTunnel ⟨vec, [], value⟩ tunnel = .done ⟨vec, listOf tunnel, value⟩ ↔ OrderlyTunnel tunnel := by
  cases tunnel with
  | none => simp [loadTunnel, OrderlyTunnel]
  | some prop =>
    cases prop with
    | array items =>
      rw [loadTunnel, OrderlyTunnel, listOf, Outcome.deref_some, Outcome.bind_done]
      simp only [SrsJsonAny.isArray, SrsJsonAny.toArray, Bool.not_true, Bool.false_eq_true, if_false,
        Outcome.bind_done]
      cases hts : texts items with
      | none => simp [pushEach_of_none hts]
      | some ts => simp [pushEach_of_texts hts]
    | _ => simp [loadTunnel, OrderlyTunnel, listOf, SrsJsonAny.isArray]

theorem loadHttps_iff :
    loadHttps ⟨vec, [], false⟩ https tunnel = .done ⟨vec, listOf tunnel, flagOf https⟩ ↔
      OrderlyHttps https tunnel := by
  cases https with
  | none => simp [loadHttps, OrderlyHttps]
  | some prop =>
    cases prop with
    | boolean value => exact loadTunnel_iff
    | _ => exact defaults_iff.trans (and_iff_right rfl)

theorem loadBlack_iff :
    loadBlack fresh black https tunnel = .done ⟨listOf black, listOf tunnel, flagOf https⟩ ↔
      OrderlyBlack black https tunnel := by
  cases black with
  | none => simp [loadBlack, OrderlyBlack]
  | some prop =>
    cases prop with
    | array items =>
      rw [loadBlack, OrderlyBlack, listOf, Outcome.deref_some, Outcome.bind_done]
      simp only [SrsJsonAny.isArray, SrsJsonAny.toArray, Bool.not_true, Bool.false_eq_true, if_false,
        Outcome.bind_done]
      cases hts : texts items with
      | none => simp [pushEach_of_none hts]
      | some ts =>
        rw [pushEach_of_texts hts, Outcome.bind_done]
        exact loadHttps_iff.trans (by simp)
    | _ => exact defaults_iff

/-- The settings are those that are given exactly when the properties are orderly. -/
theorem loadSettings_iff (h : loads (ε := Empty) jsonParse policy = .done root) :
    loadSettings jsonParse fresh policy = .done (given root) ↔ Orderly root := by
  cases root with
  | none =>
    rw [loadSettings, h]
    exact iff_of_true rfl trivial
  | some any =>
    cases any with
    | object obj =>
      rw [loadSettings_object h]
      exact loadBlack_iff
    | _ =>
      refine iff_of_false (fun heq => ?_) id
      rw [loadSettings, h, Outcome.bind_done] at heq
      cases heq

/-! ## A policy file -/

/-- The calls read a file with this content to its end. -/
def Delivers (reads : Nat → FileRead) (content : Bytes) : Prop :=
  ∃ j, FirstStop reads j ∧ reads j = .eof ∧ collected reads j = content

/-- `loadPolicy` returns, with the settings that the content gives. -/
def LoadsGiven (jsonParse : Bytes → JsonValue δ) (reads : Nat → FileRead) (buf content : Bytes) : Prop :=
  ∃ root fuel, loads (ε := Empty) jsonParse content = .done root ∧
    loadPolicy jsonParse fresh reads buf fuel = .done (given root)

/-- The calls that deliver a content are read to their end. -/
theorem readPolicy_of_delivers (buf : Bytes) {content : Bytes} (h : Delivers reads content) :
    ∃ fuel k, readPolicy reads buf fuel = .done (k, content) := by
  obtain ⟨j, hstop, heof, rfl⟩ := h
  obtain ⟨fuel, hread⟩ := (endsAt_iff buf [] hstop).2 (Or.inl heof)
  exact ⟨fuel, j + 1, hread⟩

/-- The settings that come out are those of the content. -/
theorem loadSettings_of_loadPolicy {content : Bytes} {p p' : SrsPolicy} (h : Delivers reads content)
    (hload : loadPolicy jsonParse p reads buf fuel = .done p') : loadSettings jsonParse p content = .done p' := by
  obtain ⟨fuel', k, hend⟩ := readPolicy_of_delivers buf h
  rw [loadPolicy, Outcome.bind_eq_done] at hload
  obtain ⟨res, hres, hload⟩ := hload
  -- the text does not depend on the fuel
  have hmore := readLoop_mono hend fuel
  have hmore' := readLoop_mono hres fuel'
  rw [Nat.add_comm, hmore] at hmore'
  cases hmore'
  exact hload

/-- A policy file is loaded as it says exactly when its content is converted to a value with orderly
properties, or is no JSON. -/
theorem loaded_iff {content : Bytes} (h : Delivers reads content) :
    LoadsGiven jsonParse reads buf content ↔
      ∃ root, loads (ε := Empty) jsonParse content = .done root ∧ Orderly root := by
  constructor
  · rintro ⟨root, fuel, hroot, hload⟩
    exact ⟨root, hroot, (loadSettings_iff hroot).1 (loadSettings_of_loadPolicy h hload)⟩
  · rintro ⟨root, hroot, horder⟩
    obtain ⟨fuel, k, hend⟩ := readPolicy_of_delivers buf h
    refine ⟨root, fuel, hroot, ?_⟩
    rw [loadPolicy, hend, Outcome.bind_done]
    exact (loadSettings_iff hroot).2 horder

/-- A file that is read with one call. -/
def oneBlock (content : Bytes) (hne : content ≠ []) (hle : content.length ≤ 4096) : Nat → FileRead
  | 0 => .block content hne hle
  | _ => .eof

theorem delivers_oneBlock (content : Bytes) (hne : content ≠ []) (hle : content.length ≤ 4096) :
    Delivers (oneBlock content hne hle) content := by
  refine ⟨1, ⟨fun i hi => ?_, id⟩, rfl, ?_⟩
  · obtain rfl : i = 0 := by omega
    trivial
  · simp [collected, oneBlock, FileRead.bytes]

/-- A policy with a black list, and one without. -/
def fullPolicy : Bytes := str "\x7b\"black_list\":[\"a\"],\"https_descrypt\":1\x7d"

def flagPolicy : Bytes := str "\x7b\"https_descrypt\":true\x7d"

/-- What the parser makes of them. -/
def policyParse (text : Bytes) : JsonValue Empty :=
  if text = fullPolicy then .object [(str "black_list", .array [.string (str "a")]), (str "https_descrypt", .integer 1)]
  else if text = flagPolicy then .object [(str "https_descrypt", .boolean 1)]
  else .none

theorem loads_fullPolicy : loads (ε := Empty) policyParse fullPolicy =
    .done (some (.object [(str "black_list", .array [.str (str "a")]), (str "https_descrypt", .integer 1)])) := by
  have harr : Returned Empty (.array [.string (str "a")] : JsonValue Empty) (.array [.str (str "a")]) := by
    refine returned_array.2 ⟨[.str (str "a")], ?_, rfl⟩
    rw [intLoop_eq_self (by simp)]
    refine .cons (returned_string.2 ⟨by decide, ?_⟩) .nil
    rw [intLoop_eq_self (by decide)]
  rw [loads, if_neg (by decide), policyParse, if_pos rfl]
  refine returned_object.2 ⟨[(str "black_list", .array [.str (str "a")]), (str "https_descrypt", .integer 1)], ?_, rfl⟩
  rw [intLoop_eq_self (by simp)]
  exact .cons ⟨rfl, harr⟩ (.cons ⟨rfl, rfl⟩ .nil)

theorem loads_flagPolicy : loads (ε := Empty) policyParse flagPolicy =
    .done (some (.object [(str "https_descrypt", .boolean true)])) := by
  rw [loads, if_neg (by decide), policyParse, if_neg (by decide), if_pos rfl]
  refine returned_object.2 ⟨[(str "https_descrypt", .boolean true)], ?_, rfl⟩
  rw [intLoop_eq_self (by simp)]
  exact .cons ⟨rfl, rfl⟩ .nil

theorem loaded_iff_fullPolicy :
    Delivers (oneBlock fullPolicy (by decide) (by decide)) fullPolicy ∧
      LoadsGiven policyParse (oneBlock fullPolicy (by decide) (by decide)) zeroed fullPolicy := by
  have hdelivers := delivers_oneBlock fullPolicy (by decide) (by decide)
  refine ⟨hdelivers, (loaded_iff hdelivers).2 ⟨_, loads_fullPolicy, ?_⟩⟩
  show texts [SrsJsonAny.str (str "a")] ≠ none ∧ ([] : List Bytes) = []
  exact ⟨by simp [texts], rfl⟩

/-- Without a black list the property that is looked up is NULL, and its member is used. -/
theorem flagPolicy_not_loaded :
    loadSettings policyParse fresh flagPolicy = .fault .nullDereference ∧
      ¬ LoadsGiven policyParse (oneBlock flagPolicy (by decide) (by decide)) zeroed flagPolicy := by
  have hfault : loadSettings policyParse fresh flagPolicy = .fault .nullDereference := by
    rw [loadSettings_object loads_flagPolicy]
    rfl
  refine ⟨hfault, ?_⟩
  rintro ⟨root, fuel, -, hload⟩
  have hdone := loadSettings_of_loadPolicy (delivers_oneBlock flagPolicy (by decide) (by decide)) hload
  rw [hfault] at hdone
  cases hdone

end SrsPolicy

end HttpProxy
