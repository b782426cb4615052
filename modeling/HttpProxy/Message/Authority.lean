import HttpProxy.Message.Message

/-!
# The destination of a request

`SrsHttpMessage::get_host_port` takes the destination from the `Host` header, or
from the target of a CONNECT request.  It splits the text at every colon and
looks at the first two pieces, so a host that has colons itself is cut at the
first of them; `srs_parse_endpoint`, which looks for the last colon, is not used
here.

* `IsHost`, `IsPort`, `authority` — the texts an authority may be.
* `Designates` — the message has the host and the port of an authority as its
  destination.
* `getHostPort_designates_iff` — this is the case exactly if no colon is in the
  host, that is if it is no IPv6 literal.
-/

namespace HttpProxy

/-! ## Authorities -/

/-- The characters of a registered name: the unreserved ones, the ones of a
percent-encoding and the `sub-delims`.  An IPv4 address has no others. -/
def isRegNameChar (b : Byte) : Bool :=
  isAlphanum b || b == 39 || (str "-._~%!$&()*+,;=").contains b

/-- The text between the brackets of an IPv6 literal: groups of hexadecimal digits
with colons between them, of which there are two at least; the last group may be
an IPv4 address. -/
def IsIPv6 (groups : Bytes) : Prop :=
  (∀ b ∈ groups, (isXDigit b || b == chr ':' || b == chr '.') = true) ∧
    2 ≤ groups.count (chr ':')

/-- The host of an authority. -/
inductive IsHost : Bytes → Prop
  | regName {name : Bytes} (hne : name ≠ []) (h : ∀ b ∈ name, isRegNameChar b = true) : IsHost name
  | ipv6 {groups : Bytes} (h : IsIPv6 groups) : IsHost (chr '[' :: groups ++ [chr ']'])

/-- The digits of a port. -/
structure IsPort (digits : Bytes) : Prop where
  nonempty : digits ≠ []
  digit : ∀ b ∈ digits, isDigitIn 10 b = true
  pos : 1 ≤ digitsValue 10 digits
  le : digitsValue 10 digits ≤ 65535

/-- `host` or `host:port`. -/
def authority (host : Bytes) : Option Bytes → Bytes
  | none => host
  | some digits => host ++ chr ':' :: digits

theorem colon_notMem_regName {name : Bytes} (h : ∀ b ∈ name, isRegNameChar b = true) :
    chr ':' ∉ name := by
  intro hc
  exact absurd (h _ hc) (by decide)

theorem colon_notMem_port {digits : Bytes} (h : IsPort digits) : chr ':' ∉ digits := by
  intro hc
  exact absurd (h.digit _ hc) (by decide)

/-! ## The pieces between the colons -/

/-- A text without the separator is a single piece. -/
theorem splitLoop_of_notMem {c : Byte} {s : Bytes} (h : c ∉ s) (fuel : Nat) :
    splitLoop [c] fuel s = [s] := by
  have hfind : findSub [c] s = none := by
    refine (findSub_eq_none_iff (by simp)).2 fun j hj => ?_
    exact h (List.drop_subset j s (hj.subset (by simp)))
  cases fuel with
  | zero => rfl
  | succ fuel => rw [splitLoop, hfind]

/-- The first piece ends at the first separator. -/
theorem srsStringSplit_head {c : Byte} {a : Bytes} (h : c ∉ a) (b : Bytes) :
    ∃ fuel, srsStringSplit (a ++ c :: b) [c] = a :: splitLoop [c] fuel b := by
  have hfind : findSub [c] (a ++ c :: b) = some a.length := by
    have := @findSub_of_head_notMem _ _ c [] a b h
    rwa [List.append_assoc] at this
  have hlen : (a ++ c :: b).length = (a.length + b.length) + 1 := by
    rw [List.length_append, List.length_cons]
    omega
  refine ⟨a.length + b.length, ?_⟩
  rw [srsStringSplit, if_neg (by simp), hlen, splitLoop, hfind]
  simp only [List.take_left, List.length_singleton]
  rw [List.drop_append, List.drop_eq_nil_of_le (by omega)]
  simp

namespace SrsHttpMessage

theorem hostPort_of_notMem {text : Bytes} (h : chr ':' ∉ text) (defaultPort : Int) :
    hostPort text defaultPort = (text, defaultPort) := by
  have hsplit : srsStringSplit text (str ":") = [text] := by
    rw [srsStringSplit, if_neg (by decide)]
    exact splitLoop_of_notMem h _
  rw [hostPort, hsplit]

/-- Whatever stands behind the first colon, the host ends there. -/
theorem hostPort_fst {a : Bytes} (h : chr ':' ∉ a) (b : Bytes) (defaultPort : Int) :
    (hostPort (a ++ chr ':' :: b) defaultPort).1 = a := by
  obtain ⟨fuel, hsplit⟩ := srsStringSplit_head h b
  rw [hostPort, show str ":" = [chr ':'] from rfl, hsplit]
  cases splitLoop [chr ':'] fuel b <;> rfl

theorem hostPort_port {a digits : Bytes} (ha : chr ':' ∉ a) (hd : chr ':' ∉ digits)
    (defaultPort : Int) :
    hostPort (a ++ chr ':' :: digits) defaultPort = (a, atoi digits) := by
  obtain ⟨fuel, hsplit⟩ := srsStringSplit_head ha digits
  rw [hostPort, show str ":" = [chr ':'] from rfl, hsplit, splitLoop_of_notMem hd]

end SrsHttpMessage

/-- `atoi` reads a number of an `int`. -/
theorem atoi_digits {digits : Bytes} (hne : digits ≠ []) (hdigit : ∀ b ∈ digits, isDigitIn 10 b = true)
    (hlt : digitsValue 10 digits < 2 ^ 31) : atoi digits = digitsValue 10 digits := by
  have hvalue : (strtol 10 digits).value = digitsValue 10 digits := by
    have hnil : ∀ b ∈ ([] : Bytes), isDigitIn 10 b = false := by simp
    have hatoll := atoll_digits hne hdigit hnil
    rw [List.append_nil] at hatoll
    rw [← atoll, hatoll, clampLong_eq_self (by omega) (by omega)]
  rw [atoi, hvalue, toInt32_eq_self (by omega) (by omega)]

/-- `atoi` reads a port as the number it is. -/
theorem atoi_port {digits : Bytes} (h : IsPort digits) : atoi digits = digitsValue 10 digits :=
  atoi_digits h.nonempty h.digit (h.le.trans_lt (by norm_num))

/-! ## The destination -/

namespace SrsHttpMessage

/-- Where a request names its destination, and the port that stands for none there. -/
inductive Carries (m : SrsHttpMessage) (text : Bytes) : Int → Prop
  | host (hm : m.isHttpConnect = false) (h : m.header.get (str "Host") = text) : Carries m text 80
  | connect (hm : m.isHttpConnect = true) (h : m.url = text) : Carries m text 443

/-- The message goes to the host, an IPv6 literal with or without its brackets, and
to the port, or to the default one. -/
structure Designates (m : SrsHttpMessage) (host : Bytes) (port : Option Bytes)
    (defaultPort : Int) : Prop where
  domain : m.getDestDomain = host ∨ chr '[' :: m.getDestDomain ++ [chr ']'] = host
  port : m.getDestPort = (port.map fun digits => (digitsValue 10 digits : Int)).getD defaultPort

theorem authority_ne_nil {host : Bytes} (h : IsHost host) (port : Option Bytes) :
    authority host port ≠ [] := by
  have hne : host ≠ [] := by
    cases h with
    | regName hne => exact hne
    | ipv6 => simp
  cases port with
  | none => exact hne
  | some digits => simp [authority]

/-- From either place, the destination is what `hostPort` makes of the text. -/
theorem getHostPort_of_carries {m : SrsHttpMessage} {text : Bytes} {defaultPort : Int}
    (h : Carries m text defaultPort) (hne : text ≠ []) :
    m.getHostPort.getDestDomain = (hostPort text defaultPort).1 ∧
      m.getHostPort.getDestPort = (hostPort text defaultPort).2 := by
  cases h with
  | host hm h =>
    rw [SrsHttpMessage.getHostPort, if_neg (by simp [hm])]
    simp only [h, if_neg hne]
    exact ⟨rfl, rfl⟩
  | connect hm h =>
    rw [SrsHttpMessage.getHostPort, if_pos hm, h]
    exact ⟨rfl, rfl⟩

/-- Without a colon in the host, the host and the port are those of the authority. -/
theorem hostPort_authority {host : Bytes} (h : chr ':' ∉ host) {port : Option Bytes}
    (hport : ∀ digits ∈ port, IsPort digits) (defaultPort : Int) :
    hostPort (authority host port) defaultPort =
      (host, (port.map fun digits => (digitsValue 10 digits : Int)).getD defaultPort) := by
  cases port with
  | none => exact hostPort_of_notMem h defaultPort
  | some digits =>
    have hd : IsPort digits := hport digits rfl
    rw [authority, hostPort_port h (colon_notMem_port hd), atoi_port hd]
    rfl

/-- The domain never has a colon: a host with one is cut in front of it. -/
theorem colon_notMem_hostPort (text : Bytes) (defaultPort : Int) :
    chr ':' ∉ (hostPort text defaultPort).1 := by
  by_cases h : chr ':' ∈ text
  · obtain ⟨a, b, rfl, ha⟩ := List.eq_append_cons_of_mem h
    rwa [hostPort_fst ha]
  · rwa [hostPort_of_notMem h]

/-- A request with a `Host` header. -/
def ofHost (text : Bytes) : SrsHttpMessage :=
  { new with header := SrsHttpHeader.empty.set (str "Host") text }

/-- The destination of a request is the one its authority names exactly if the host
is no IPv6 literal, that is if it has no colon. -/
theorem getHostPort_designates_iff {m : SrsHttpMessage} {host : Bytes} {port : Option Bytes}
    {defaultPort : Int} (hhost : IsHost host) (hport : ∀ digits ∈ port, IsPort digits)
    (hm : Carries m (authority host port) defaultPort) :
    Designates m.getHostPort host port defaultPort ↔ chr ':' ∉ host := by
  obtain ⟨hdomain, hdest⟩ := getHostPort_of_carries hm (authority_ne_nil hhost port)
  constructor
  · rintro ⟨hd, -⟩ hcolon
    have hno := colon_notMem_hostPort (authority host port) defaultPort
    rw [← hdomain] at hno
    rcases hd with hd | hd
    · exact hno (hd ▸ hcolon)
    · rw [← hd] at hcolon
      simp only [List.cons_append, List.mem_cons, List.mem_append, List.not_mem_nil, or_false]
        at hcolon
      rcases hcolon with hc | hc | hc
      · exact absurd hc (by decide)
      · exact hno hc
      · exact absurd hc (by decide)
  · intro h
    have heq := hostPort_authority h hport defaultPort
    exact ⟨Or.inl (by rw [hdomain, heq]), by rw [hdest, heq]⟩

/-- The request for `example.com:8080`. -/
theorem getHostPort_designates_iff_regName :
    Designates (ofHost (str "example.com:8080")).getHostPort (str "example.com")
        (some (str "8080")) 80 ↔ chr ':' ∉ str "example.com" := by
  refine getHostPort_designates_iff (.regName (by decide) (List.all_iff_forall_prop.1 rfl)) ?_
    (.host rfl (by decide))
  rintro digits ⟨⟩
  exact ⟨by decide, List.all_iff_forall_prop.1 rfl, by decide, by decide⟩

/-- The request for `[2001:db8::1]:8080` goes to `[2001`, port 0. -/
theorem getHostPort_not_designates_ipv6 :
    IsHost (str "[2001:db8::1]") ∧ IsPort (str "8080") ∧
      Carries (ofHost (str "[2001:db8::1]:8080"))
        (authority (str "[2001:db8::1]") (some (str "8080"))) 80 ∧
      (ofHost (str "[2001:db8::1]:8080")).getHostPort.getDestDomain = str "[2001" ∧
      (ofHost (str "[2001:db8::1]:8080")).getHostPort.getDestPort = 0 ∧
      ¬ Designates (ofHost (str "[2001:db8::1]:8080")).getHostPort (str "[2001:db8::1]")
        (some (str "8080")) 80 := by
  have hipv6 : IsIPv6 (str "2001:db8::1") := ⟨List.all_iff_forall_prop.1 rfl, by decide⟩
  have hdomain : (ofHost (str "[2001:db8::1]:8080")).getHostPort.getDestDomain = str "[2001" := by
    decide
  refine ⟨.ipv6 hipv6, ⟨by decide, List.all_iff_forall_prop.1 rfl, by decide, by decide⟩, .host rfl (by decide),
    hdomain, by decide, ?_⟩
  rintro ⟨hd, -⟩
  rw [hdomain] at hd
  rcases hd with hd | hd
  · exact absurd hd (by decide)
  · exact absurd hd (by decide)

end SrsHttpMessage

end HttpProxy
