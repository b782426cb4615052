import HttpProxy.Data.Assoc
import HttpProxy.Message.Header
import HttpProxy.Control.Outcome
import HttpProxy.Parser.Basic

/-!
# JSON values

`SrsJsonAny` of `src/protocol/srs_protocol_json.cpp`, lines 1461-1601 and 1724-1953: the values
that the policy and the api are read from and written with.

* `SrsJsonAny` — the values; `toStr`, `toBoolean` and `toArray` are the accessors that assert.
* `SrsJsonObject.set`, `getProperty`, `count` — an object, which is a vector of properties.
* `jsonSerializeString`, `SrsJsonAny.dumps` — the text of a value.
* `setAll_eq` — a sequence of calls of `set` is a sequence of `Assoc.put`.
-/

namespace HttpProxy

/-- `SrsJsonAny`, over the doubles `δ`. -/
inductive SrsJsonAny (δ : Type)
  | str (value : Bytes)
  | boolean (value : Bool)
  | integer (value : Int)
  | number (value : δ)
  | null
  | object (properties : List (Bytes × SrsJsonAny δ))
  | array (properties : List (SrsJsonAny δ))

/-- The properties of a `SrsJsonObject`, in the order of the vector. -/
abbrev SrsJsonObject (δ : Type) : Type := List (Bytes × SrsJsonAny δ)

variable {δ ε : Type}

namespace SrsJsonAny

/-- `is_string`. -/
def isString : SrsJsonAny δ → Bool
  | str _ => true
  | _ => false

/-- `is_boolean`. -/
def isBoolean : SrsJsonAny δ → Bool
  | boolean _ => true
  | _ => false

/-- `is_array`. -/
def isArray : SrsJsonAny δ → Bool
  | array _ => true
  | _ => false

/-- `is_object`. -/
def isObject : SrsJsonAny δ → Bool
  | object _ => true
  | _ => false

/-- `to_str`. -/
def toStr : SrsJsonAny δ → Outcome ε Bytes
  | str value => .done value
  | _ => .fault .assertFailed

/-- `to_boolean`. -/
def toBoolean : SrsJsonAny δ → Outcome ε Bool
  | boolean value => .done value
  | _ => .fault .assertFailed

/-- `to_array`. -/
def toArray : SrsJsonAny δ → Outcome ε (List (SrsJsonAny δ))
  | array properties => .done properties
  | _ => .fault .assertFailed

/-- `to_object`. -/
def toObject : SrsJsonAny δ → Outcome ε (SrsJsonObject δ)
  | object properties => .done properties
  | _ => .fault .assertFailed

/-- `if (any->is_object()) obj_req = any->to_object();`, where `obj_req` was NULL. -/
def objectOrNull (any : SrsJsonAny δ) : Outcome ε (Option (SrsJsonObject δ)) :=
  if any.isObject then any.toObject.bind fun obj => .done (some obj) else .done none

@[simp] theorem objectOrNull_object (obj : SrsJsonObject δ) :
    objectOrNull (ε := ε) (object obj) = .done (some obj) := rfl

end SrsJsonAny

/-! ## Objects -/

namespace SrsJsonObject

/-- `get_property`. -/
def getProperty (properties : SrsJsonObject δ) (name : Bytes) : Option (SrsJsonAny δ) :=
  properties.lookup name

/-- `set`, whose loop erases the property with the key and then ends. -/
def set (properties : SrsJsonObject δ) (key : Bytes) : Option (SrsJsonAny δ) → SrsJsonObject δ
  | none => properties
  | some value => Assoc.put properties key value

/-- `count`. -/
def count (properties : SrsJsonObject δ) : Int := toInt32 properties.length

/-- A sequence of calls of `set`. -/
def setAll (properties : SrsJsonObject δ) (calls : List (Bytes × Option (SrsJsonAny δ))) :
    SrsJsonObject δ := calls.foldl (fun properties call => set properties call.1 call.2) properties

/-- The calls whose value is not NULL. -/
def nonNull (calls : List (Bytes × Option (SrsJsonAny δ))) : List (Bytes × SrsJsonAny δ) :=
  calls.filterMap fun call => call.2.map (call.1, ·)

/-- `set` ignores NULL, and puts any other value in the place of the one with its key. -/
theorem setAll_eq (properties : SrsJsonObject δ) (calls : List (Bytes × Option (SrsJsonAny δ))) :
    setAll properties calls = Assoc.putAll properties (nonNull calls) := by
  induction calls generalizing properties with
  | nil => rfl
  | cons call calls ih =>
    obtain ⟨key, value⟩ := call
    cases value with
    | none => exact ih properties
    | some value => exact ih (Assoc.put properties key value)

theorem count_eq {properties : SrsJsonObject δ} (h : properties.length < 2 ^ 31) :
    count properties = properties.length := toInt32_eq_self (by omega) (by omega)

end SrsJsonObject

/-! ## The text of a value -/

/-- One byte of a string, as the switch of `json_serialize_string` writes it. -/
def serializeChar (p : Byte) : Bytes :=
  if p = chr '"' then [chr '\\', chr '"']
  else if p = chr '\\' then [chr '\\', chr '\\']
  else if p = 8 then [chr '\\', chr 'b']
  else if p = 12 then [chr '\\', chr 'f']
  else if p = LF then [chr '\\', chr 'n']
  else if p = CR then [chr '\\', chr 'r']
  else if p = 9 then [chr '\\', chr 't']
  else [p]

/-- `json_serialize_string`. -/
def jsonSerializeString (v : Bytes) : Bytes := chr '"' :: v.flatMap serializeChar ++ [chr '"']

/-- `SRS_JFIELD_NAME`. -/
def srsJfieldName (k : Bytes) : Bytes := chr '"' :: k ++ [chr '"', chr ':']

/-- Texts with `SRS_JFIELD_CONT` between each and the next. -/
def joinCont : List Bytes → Bytes
  | [] => []
  | [text] => text
  | text :: texts => text ++ chr ',' :: joinCont texts

namespace SrsJsonAny

variable (fixed : δ → Bytes)

mutual

/-- `SrsJsonAny::dumps`, `SrsJsonObject::dumps` and `SrsJsonArray::dumps`; `fixed` is the
conversion `%.2f` of `snprintf`, whose result is cut to the 21 bytes there is room for. -/
def dumps : SrsJsonAny δ → Bytes
  | str value => jsonSerializeString value
  | boolean value => if value then HttpProxy.str "true" else HttpProxy.str "false"
  | integer value => SrsHttpHeader.srsInt2str value
  | number value => (fixed value).take 21
  | null => HttpProxy.str "null"
  | object properties => chr '{' :: joinCont (intLoop (dumpsProperties properties)) ++ [chr '}']
  | array properties => chr '[' :: joinCont (intLoop (dumpsElements properties)) ++ [chr ']']

/-- What the loop of `SrsJsonObject::dumps` writes for each property. -/
def dumpsProperties : List (Bytes × SrsJsonAny δ) → List Bytes
  | [] => []
  | (name, any) :: properties => (srsJfieldName name ++ dumps any) :: dumpsProperties properties

/-- What the loop of `SrsJsonArray::dumps` writes for each element. -/
def dumpsElements : List (SrsJsonAny δ) → List Bytes
  | [] => []
  | any :: properties => dumps any :: dumpsElements properties

end

end SrsJsonAny

end HttpProxy
