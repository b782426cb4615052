import HttpProxy.Bytes.CLib
import HttpProxy.Data.OrdMap

/-!
# `SrsHttpHeader`: the header fields of a message

`src/protocol/srs_protocol_http_stack.cpp`, lines 668-774.  The fields are a
`std::map` from names to values, with the values of `Set-Cookie` fields in a
list of their own.  `set` capitalises the name, `get` looks up the name as it
is given.

* `canonicalKey` — the spelling under which `set` stores a field.
* `get_set_self`, `get_set_of_ne` — what a lookup sees after `set`.
-/

namespace HttpProxy

/-- Is the byte a small letter? -/
def isLower (b : Byte) : Bool := 97 ≤ b && b ≤ 122

/-- The loop of `set` over the name, whose index is an `int`: a name has fewer than 2 ^ 31 bytes.  `first` is
`i == 0 || pchar == '-'`. -/
def capitalise : Bool → Bytes → Bytes
  | _, [] => []
  | first, ch :: key =>
      (if first && isLower ch then ch - 32 else ch) :: capitalise (ch == 45) key

/-- The name under which `set` stores a field: the first letter, and the letter
behind every dash, as capitals. -/
def canonicalKey (key : Bytes) : Bytes := capitalise true key

example : canonicalKey (str "transfer-encoding") = str "Transfer-Encoding" := by decide

/-- The header of a message. -/
structure SrsHttpHeader where
  headers : OrdMap Bytes Bytes
  cookieList : List Bytes
  deriving DecidableEq

namespace SrsHttpHeader

instance : IsStrictTotalOrder Bytes (· < ·) where

/-- A header without fields. -/
def empty : SrsHttpHeader := ⟨.empty, []⟩

/-- `set`. -/
def set (h : SrsHttpHeader) (key value : Bytes) : SrsHttpHeader :=
  { h with headers := h.headers.insert (canonicalKey key) value }

/-- `addCookie`. -/
def addCookie (h : SrsHttpHeader) (cookie : Bytes) : SrsHttpHeader :=
  { h with cookieList := h.cookieList ++ [cookie] }

/-- `get`, which is empty for a field that is not there. -/
def get (h : SrsHttpHeader) (key : Bytes) : Bytes := (h.headers.find? key).getD []

/-- `del`. -/
def del (h : SrsHttpHeader) (key : Bytes) : SrsHttpHeader :=
  { h with headers := h.headers.erase key }

/-- `count`. -/
def count (h : SrsHttpHeader) : Nat := h.headers.size

/-- `content_length`, which goes through a double. -/
def contentLength (h : SrsHttpHeader) : Int :=
  if h.get (str "Content-Length") = [] then -1 else atofInt64 (h.get (str "Content-Length"))

/-- The decimal digits of a number. -/
def decimal (n : Nat) : Bytes :=
  if n = 0 then [48] else ((Nat.digits 10 n).map hexDigit).reverse

/-- `srs_int2str`. -/
def srsInt2str (n : Int) : Bytes := if n < 0 then 45 :: decimal n.natAbs else decimal n.natAbs

/-- `set_content_length`. -/
def setContentLength (h : SrsHttpHeader) (size : Int) : SrsHttpHeader :=
  h.set (str "Content-Length") (srsInt2str size)

/-- `content_type`. -/
def contentType (h : SrsHttpHeader) : Bytes := h.get (str "Content-Type")

/-- `set_content_type`. -/
def setContentType (h : SrsHttpHeader) (ct : Bytes) : SrsHttpHeader :=
  h.set (str "Content-Type") ct

/-- One line of a header. -/
def fieldLine (name value : Bytes) : Bytes := name ++ str ": " ++ value ++ crlf

/-- `write`: the fields in the order of the map, then the cookies. -/
def write (h : SrsHttpHeader) : Bytes :=
  h.headers.entries.flatMap (fun e => fieldLine e.1 e.2) ++
    h.cookieList.flatMap fun c => fieldLine (str "Set-Cookie") c

theorem get_set_self (h : SrsHttpHeader) (key value : Bytes) :
    (h.set key value).get (canonicalKey key) = value := by
  rw [get, set, OrdMap.find?_insert_self]
  rfl

theorem get_set_of_ne (h : SrsHttpHeader) {key key' : Bytes} (hne : key' ≠ canonicalKey key)
    (value : Bytes) : (h.set key value).get key' = h.get key' := by
  rw [get, set, OrdMap.find?_insert_of_ne _ hne]
  rfl

end SrsHttpHeader

end HttpProxy
