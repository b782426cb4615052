import HttpProxy.Json.Tree

/-!
# The JSON parser

`json_parse_ex` of `src/protocol/srs_protocol_json.cpp`, lines 330-1236, as `json_parse` calls it: without
comments, without a limit, and with memory to be had.  It goes over the text twice.  The first pass
allocates the values and counts what will be in them, the second one fills them.

* `control` — one turn of the loop, which is the same in both passes: what it does to the values is a list
  of `Act`s.
* `Counted`, `Filled` — the values in the first pass and in the second.
* `Built` — the values without anything that is counted.
* `jsonParseEx`, `jsonParse` — the two passes.
-/

namespace HttpProxy

namespace JsonParser

/-! ## The state of the loop -/

/-- `json_type`, without `json_none`. -/
inductive JsonType
  | object
  | array
  | integer
  | double
  | string
  | boolean
  | null
  deriving DecidableEq, Repr

/-- The flags that outlive a turn, but for those of numbers, and the bytes from `state.ptr` on. -/
structure Scan where
  needComma : Bool
  seekValue : Bool
  escaped : Bool
  string : Bool
  needColon : Bool
  done : Bool
  rest : Bytes
  deriving DecidableEq

/-- The flags and the counters of numbers. -/
structure NumScan where
  negative : Bool
  zero : Bool
  e : Bool
  eGotSign : Bool
  eNegative : Bool
  numDigits : Nat
  numE : Int
  numFraction : Int
  deriving DecidableEq

/-- The arithmetic of doubles: `(double) integer`, `dbl + fraction / pow(10, digits)`, `dbl * pow(10, e)`
and `- dbl`. -/
structure Doubles (δ : Type) where
  zero : δ
  ofInt : Int → δ
  addFraction : δ → Int → Nat → δ
  scale : δ → Int → δ
  neg : δ → δ

/-- A number, whose type changes from `json_integer` to `json_double` while it is read. -/
structure Num (δ : Type) where
  isDouble : Bool
  integer : Int
  dbl : δ

variable {δ σ : Type}

/-- `top->u.integer = (top->u.integer * 10) + (b - '0')`. -/
def Num.digit (b : Byte) (n : Num δ) : Num δ :=
  { n with integer := toInt64 (n.integer * 10 + (b - chr '0').toNat) }

/-- `top->type = json_double; top->u.dbl = (double) top->u.integer`. -/
def Num.toDouble (D : Doubles δ) (n : Num δ) : Num δ :=
  { n with isDouble := true, dbl := D.ofInt n.integer }

/-- The fraction is added. -/
def Num.addFraction (D : Doubles δ) (fraction : Int) (digits : Nat) (n : Num δ) : Num δ :=
  { n with dbl := D.addFraction n.dbl fraction digits }

/-- The exponent is applied. -/
def Num.scale (D : Doubles δ) (e : Int) (n : Num δ) : Num δ := { n with dbl := D.scale n.dbl e }

/-- The sign is applied. -/
def Num.neg (D : Doubles δ) (n : Num δ) : Num δ :=
  if n.isDouble then { n with dbl := D.neg n.dbl } else { n with integer := toInt64 (-n.integer) }

/-- What a turn of the loop does to the values. -/
inductive Act (δ : Type)
  /-- `new_value`. -/
  | newValue (type : JsonType)
  /-- `new_value` with `json_boolean`, and `u.boolean`. -/
  | newBoolean (value : Int)
  /-- `string_length = 0`. -/
  | beginString
  /-- `string_add`. -/
  | add (b : Byte)
  /-- The quote behind a string. -/
  | endText
  /-- The quote behind a name. -/
  | endName
  /-- A change to the number that is `top`. -/
  | number (f : Num δ → Num δ)
  /-- `top` is put into its parent, which is `top` then. -/
  | attach

/-- What becomes of a turn that is not inside of a number. -/
inductive Flow (δ : Type)
  | failed
  /-- `top` is used, which is NULL. -/
  | noTop
  | stop
  | go (acts : List (Act δ)) (s : Scan)
  /-- A number starts. -/
  | start (s : Scan)

/-- What becomes of a turn. -/
inductive Turn (δ : Type)
  | failed
  | noTop
  | stop
  | go (acts : List (Act δ)) (s : Scan) (n : NumScan)

/-! ## One turn -/

namespace Scan

/-- The byte at `state.ptr`, which is 0 at the end. -/
def byte (s : Scan) : Byte := s.rest.headD 0

/-- `++ state.ptr`. -/
def skip (s : Scan) : Scan := { s with rest := s.rest.tail }

/-- `flag_next`, where `parents` are the types of the values that `top` is in. -/
def next (parents : List JsonType) (acts : List (Act δ)) (s : Scan) : Flow δ :=
  match parents with
  | [] => .go acts { s with needComma := true, done := true }
  | parent :: _ =>
      .go (acts ++ [.attach])
        { s with needComma := true, seekValue := s.seekValue || decide (parent = .array) }

end Scan

/-- `whitespace`. -/
def isWhitespace (b : Byte) : Bool := b = LF || b = chr ' ' || b = 9 || b = CR

/-- `hex_value`, where none is 0xFF. -/
def hexValue (c : Byte) : Option Nat :=
  if isNum c then some (c - chr '0').toNat
  else if chr 'a' ≤ c ∧ c ≤ chr 'f' then some ((c - chr 'a').toNat + 10)
  else if chr 'A' ≤ c ∧ c ≤ chr 'F' then some ((c - chr 'A').toNat + 10)
  else none

/-- The four digits behind `\u`, and what comes after them. -/
def hexQuad : Bytes → Option (Nat × Bytes)
  | b₁ :: b₂ :: b₃ :: b₄ :: rest =>
      match hexValue b₁, hexValue b₂, hexValue b₃, hexValue b₄ with
      | some h₁, some h₂, some h₃, some h₄ =>
          some (((h₁ <<< 4 ||| h₂) <<< 8) ||| (h₃ <<< 4 ||| h₄), rest)
      | _, _, _, _ => none
  | _ => none

/-- The bytes of a `json_uchar`. -/
def ucharBytes (u : Nat) : Bytes :=
  if u ≤ 0x7F then [UInt8.ofNat u]
  else if u ≤ 0x7FF then [UInt8.ofNat (0xC0 ||| u >>> 6), UInt8.ofNat (0x80 ||| u &&& 0x3F)]
  else if u ≤ 0xFFFF then
    [UInt8.ofNat (0xE0 ||| u >>> 12), UInt8.ofNat (0x80 ||| (u >>> 6) &&& 0x3F),
      UInt8.ofNat (0x80 ||| u &&& 0x3F)]
  else
    [UInt8.ofNat (0xF0 ||| u >>> 18), UInt8.ofNat (0x80 ||| (u >>> 12) &&& 0x3F),
      UInt8.ofNat (0x80 ||| (u >>> 6) &&& 0x3F), UInt8.ofNat (0x80 ||| u &&& 0x3F)]

/-- The escape `\u`: the bytes it is read as, and what comes after it.  Two escapes are put together with
an `or`. -/
def unicodeEscape (rest : Bytes) : Option (Bytes × Bytes) :=
  match hexQuad rest with
  | none => none
  | some (u, rest) =>
      if u &&& 0xF800 = 0xD800 then
        match rest with
        | b₁ :: b₂ :: rest =>
            if b₁ = chr '\\' ∧ b₂ = chr 'u' then
              match hexQuad rest with
              | none => none
              | some (u₂, rest) => some (ucharBytes (0x010000 ||| (u &&& 0x3FF) <<< 10 ||| u₂ &&& 0x3FF), rest)
            else none
        | _ => none
      else some (ucharBytes u, rest)

/-- The byte behind a backslash. -/
def escape (s : Scan) : Flow δ :=
  let s := { s with escaped := false }
  let b := s.byte
  if b = chr 'b' then .go [.add 8] s.skip
  else if b = chr 'f' then .go [.add 12] s.skip
  else if b = chr 'n' then .go [.add LF] s.skip
  else if b = chr 'r' then .go [.add CR] s.skip
  else if b = chr 't' then .go [.add 9] s.skip
  else if b = chr 'u' then
    match unicodeEscape s.rest.tail with
    | none => .failed
    | some (bytes, rest) => .go (bytes.map .add) { s with rest := rest }
  else .go [.add b] s.skip

/-- `state.uint_max`. -/
def uintMax : Nat := 2 ^ 32 - 1 - 8

/-- A word, if it is there. -/
def literal (word : Bytes) (act : Act δ) (types : List JsonType) (s : Scan) : Flow δ :=
  if word.isPrefixOf s.rest then { s with rest := s.rest.drop word.length }.next types [act] else .failed

/-- The first byte of a value. -/
def openValue (types : List JsonType) (s : Scan) : Flow δ :=
  let b := s.byte
  if b = chr '{' then .go [.newValue .object] s.skip
  else if b = chr '[' then .go [.newValue .array] { s.skip with seekValue := true }
  else if b = chr '"' then .go [.newValue .string, .beginString] { s.skip with string := true }
  else if b = chr 't' then literal (str "true") (.newBoolean 1) types s
  else if b = chr 'f' then literal (str "false") (.newBoolean 0) types s
  else if b = chr 'n' then literal (str "null") (.newValue .null) types s
  else if isNum b ∨ b = chr '-' then .start s
  else .failed

/-- The branch for `flag_seek_value`. -/
def seek (types : List JsonType) (s : Scan) : Flow δ :=
  let b := s.byte
  if isWhitespace b then .go [] s.skip
  else if b = chr ']' then
    match types with
    | .array :: parents => { s.skip with needComma := false, seekValue := false }.next parents []
    | _ => .failed
  else if s.needComma then
    if b = chr ',' then .go [] { s.skip with needComma := false } else .failed
  else if s.needColon then
    if b = chr ':' then .go [] { s.skip with needColon := false } else .failed
  else openValue types { s with seekValue := false }

/-- The branch for an object. -/
def inObject (parents : List JsonType) (s : Scan) : Flow δ :=
  let b := s.byte
  if isWhitespace b then .go [] s.skip
  else if b = chr '"' then
    if s.needComma then .failed else .go [.beginString] { s.skip with string := true }
  else if b = chr '}' then { s.skip with needComma := false }.next parents []
  else if b = chr ',' then
    if s.needComma then .go [] { s.skip with needComma := false } else .failed
  else .failed

/-- The rest of a turn, outside of strings. -/
def outside (types : List JsonType) (s : Scan) : Flow δ :=
  if s.done then
    if s.byte = 0 then .stop
    else if isWhitespace s.byte then .go [] s.skip
    else .failed
  else if s.seekValue then seek types s
  else
    match types with
    | [] => .noTop
    | .object :: parents => inObject parents s
    | _ => .go [] s.skip

/-- The branch for `flag_string`. -/
def inString (types : List JsonType) (stringLength : Nat) (s : Scan) : Flow δ :=
  let b := s.byte
  if b = 0 then .failed
  else if uintMax < stringLength then .failed
  else if s.escaped then escape s
  else if b = chr '\\' then .go [] { s.skip with escaped := true }
  else if b = chr '"' then
    let s := { s with string := false }
    match types with
    | .string :: parents => s.skip.next parents [.endText]
    | .object :: _ => .go [.endName] { s.skip with seekValue := true, needColon := true }
    | _ => outside types s
  else .go [.add b] s.skip

/-- A turn outside of numbers. -/
def flow (types : List JsonType) (stringLength : Nat) (s : Scan) : Flow δ :=
  if s.string then inString types stringLength s else outside types s

/-! ## Numbers -/

/-- The end of a number: the sign is applied, and the byte that ends it is looked at again. -/
def finishNumber (D : Doubles δ) (parents : List JsonType) (acts : List (Act δ)) (s : Scan) (n : NumScan) :
    Turn δ :=
  let acts := acts ++ if n.negative then [.number (Num.neg D)] else []
  match s.next parents acts with
  | .go acts s => .go acts s n
  | _ => .failed

/-- The branch for a number, which is a double or not. -/
def inNumber (D : Doubles δ) (double : Bool) (parents : List JsonType) (s : Scan) (n : NumScan) : Turn δ :=
  let b := s.byte
  if isNum b then
    let n := { n with numDigits := n.numDigits + 1 }
    if n.e then
      .go [] s.skip { n with eGotSign := true, numE := toInt64 (n.numE * 10 + (b - chr '0').toNat) }
    else if double then
      .go [] s.skip { n with numFraction := toInt64 (n.numFraction * 10 + (b - chr '0').toNat) }
    else if n.zero then .failed
    else .go [.number (.digit b)] s.skip { n with zero := decide (n.numDigits = 1 ∧ b = chr '0') }
  else if (b = chr '+' ∨ b = chr '-') ∧ n.e ∧ ¬ n.eGotSign then
    .go [] s.skip { n with eGotSign := true, eNegative := n.eNegative || decide (b = chr '-') }
  else if b = chr '.' ∧ ¬ double then
    if n.numDigits = 0 then .failed
    else .go [.number (.toDouble D)] s.skip { n with numDigits := 0 }
  else if ¬ n.e then
    if double ∧ n.numDigits = 0 then .failed
    else
      let acts := if double then [.number (.addFraction D n.numFraction n.numDigits)] else []
      if b = chr 'e' ∨ b = chr 'E' then
        .go (acts ++ if double then [] else [.number (.toDouble D)]) s.skip
          { n with e := true, numDigits := 0, zero := false }
      else finishNumber D parents acts s n
  else if n.numDigits = 0 then .failed
  else finishNumber D parents [.number (.scale D (if n.eNegative then -n.numE else n.numE))] s n

/-- A byte that the second pass skips behind the start of a number. -/
def isNumberByte (b : Byte) : Bool :=
  isNum b || b = chr '+' || b = chr '-' || b = chr 'e' || b = chr 'E' || b = chr '.'

/-- The start of a number: in the first pass it is read from here on, in the second it is skipped. -/
def startNumber (first : Bool) (types : List JsonType) (s : Scan) (n : NumScan) : Turn δ :=
  if first then
    let n := { n with negative := false, e := false, eGotSign := false, eNegative := false, zero := false,
                      numDigits := 0, numFraction := 0, numE := 0 }
    if s.byte = chr '-' then .go [.newValue .integer] s.skip { n with negative := true }
    else .go [.newValue .integer] s n
  else
    match { s with rest := s.rest.dropWhile isNumberByte }.next types [.newValue .integer] with
    | .go acts s => .go acts s n
    | _ => .failed

/-- The number that is read, and the types of the values that it is in. -/
def numberAt (s : Scan) (types : List JsonType) : Option (Bool × List JsonType) :=
  if s.string || s.done || s.seekValue then none
  else
    match types with
    | .integer :: parents => some (false, parents)
    | .double :: parents => some (true, parents)
    | _ => none

/-- A turn outside of numbers, or the start of one. -/
def Flow.turn (first : Bool) (types : List JsonType) (n : NumScan) : Flow δ → Turn δ
  | .failed => .failed
  | .noTop => .noTop
  | .stop => .stop
  | .go acts s => .go acts s n
  | .start s => startNumber first types s n

/-- One turn of the loop. -/
def control (D : Doubles δ) (first : Bool) (types : List JsonType) (stringLength : Nat) (s : Scan)
    (n : NumScan) : Turn δ :=
  match numberAt s types with
  | some (double, parents) => inNumber D double parents s n
  | none => (flow types stringLength s).turn first types n

/-! ## The first pass -/

/-- A `json_value` when the first pass has counted what will be in it. -/
structure Node (δ : Type) where
  type : JsonType
  boolean : Int
  integer : Int
  dbl : δ
  /-- `u.string.length`, `u.array.length` and `u.object.length`. -/
  length : Nat
  /-- The room for the names, which is counted in the pointer `u.object.values`. -/
  names : Nat

/-- A value that has been allocated. -/
def Node.new (D : Doubles δ) (type : JsonType) : Node δ := ⟨type, 0, 0, D.zero, 0, 0⟩

/-- A change to a number, which changes nothing else. -/
def Node.number (f : Num δ → Num δ) (node : Node δ) : Node δ :=
  if node.type = .integer ∨ node.type = .double then
    let n := f ⟨decide (node.type = .double), node.integer, node.dbl⟩
    { node with type := if n.isDouble then .double else .integer, integer := n.integer, dbl := n.dbl }
  else node

/-- The values in the first pass, in the order in which they are allocated; `top`, its parent and so on;
and `string_length`. -/
structure Counted (δ : Type) where
  nodes : List (Node δ)
  stack : List Nat
  stringLength : Nat

namespace Counted

def init : Counted δ := ⟨[], [], 0⟩

/-- The types of `top`, of its parent and so on. -/
def types (c : Counted δ) : List JsonType := c.stack.filterMap fun i => (c.nodes[i]?).map Node.type

/-- A new value, which is `top` then. -/
def push (c : Counted δ) (node : Node δ) : Counted δ :=
  { c with nodes := c.nodes ++ [node], stack := c.nodes.length :: c.stack }

/-- A change to `top`. -/
def modifyTop (c : Counted δ) (f : Node δ → Node δ) : Outcome Unit (Counted δ) :=
  match c.stack with
  | [] => .fault .nullDereference
  | i :: _ => .done { c with nodes := c.nodes.modify i f }

/-- What the first pass does. -/
def act (D : Doubles δ) (c : Counted δ) : Act δ → Outcome Unit (Counted δ)
  | .newValue type => .done (c.push (.new D type))
  | .newBoolean value => .done (c.push { Node.new D .boolean with boolean := value })
  | .beginString => .done { c with stringLength := 0 }
  | .add _ => .done { c with stringLength := c.stringLength + 1 }
  | .endText => c.modifyTop fun node => { node with length := c.stringLength }
  | .endName => c.modifyTop fun node => { node with names := node.names + (c.stringLength + 1) }
  | .number f => c.modifyTop (Node.number f)
  | .attach =>
      match c.stack with
      | _ :: parent :: stack =>
          let c := { c with nodes := c.nodes.modify parent fun node => { node with length := node.length + 1 },
                            stack := parent :: stack }
          if ∃ node ∈ c.nodes[parent]?, uintMax < node.length then .failed () else .done c
      | _ => .fault .nullDereference

end Counted

/-! ## The values -/

/-- A value that is not complete: the members or elements that are there, and for an object the last
name. -/
inductive Open (δ : Type)
  | object (members : List (Bytes × JsonValue δ)) (name : Bytes)
  | array (values : List (JsonValue δ))
  | number (n : Num δ)
  | string (text : Bytes)
  | boolean (value : Int)
  | null

namespace Open

/-- The value that is filled where the first pass has left this one. -/
def ofNode (node : Node δ) : Open δ :=
  match node.type with
  | .object => .object [] []
  | .array => .array []
  | .integer => .number ⟨false, node.integer, node.dbl⟩
  | .double => .number ⟨true, node.integer, node.dbl⟩
  | .string => .string []
  | .boolean => .boolean node.boolean
  | .null => .null

def type : Open δ → JsonType
  | object _ _ => .object
  | array _ => .array
  | number n => if n.isDouble then .double else .integer
  | string _ => .string
  | boolean _ => .boolean
  | null => .null

/-- The value when it is complete. -/
def value : Open δ → JsonValue δ
  | object members _ => .object members
  | array values => .array values
  | number n => if n.isDouble then .double n.dbl else .integer n.integer
  | string text => .string text
  | boolean value => .boolean value
  | null => .null

/-- How many members or elements are there. -/
def size : Open δ → Nat
  | object members _ => members.length
  | array values => values.length
  | _ => 0

/-- One more element, or member with the last name. -/
def put (v : JsonValue δ) : Open δ → Open δ
  | object members name => object (members ++ [(name, v)]) name
  | array values => array (values ++ [v])
  | o => o

/-- `u.string.length = string_length`, where the text has been written. -/
def setText (text : Bytes) : Open δ → Open δ
  | string _ => string text
  | o => o

/-- The name of the next member. -/
def setName (name : Bytes) : Open δ → Open δ
  | object members _ => object members name
  | o => o

/-- A change to a number. -/
def change (f : Num δ → Num δ) : Open δ → Open δ
  | number n => number (f n)
  | o => o

end Open

/-- `top`, its parent and so on, and what has been written of a string. -/
structure Built (δ : Type) where
  stack : List (Open δ)
  buffer : Bytes

namespace Built

def init : Built δ := ⟨[], []⟩

def types (m : Built δ) : List JsonType := m.stack.map Open.type

/-- A change to `top`. -/
def modifyTop (m : Built δ) (f : Open δ → Open δ) : Outcome Unit (Built δ) :=
  match m.stack with
  | [] => .fault .nullDereference
  | o :: stack => .done { m with stack := f o :: stack }

/-- What is done to the values. -/
def act (D : Doubles δ) (m : Built δ) : Act δ → Outcome Unit (Built δ)
  | .newValue type => .done { m with stack := .ofNode (.new D type) :: m.stack }
  | .newBoolean value => .done { m with stack := .boolean value :: m.stack }
  | .beginString => .done { m with buffer := [] }
  | .add b => .done { m with buffer := m.buffer ++ [b] }
  | .endText => m.modifyTop (.setText m.buffer)
  | .endName => m.modifyTop (.setName m.buffer)
  | .number f => m.modifyTop (.change f)
  | .attach =>
      match m.stack with
      | o :: parent :: stack =>
          if uintMax < parent.size + 1 then .failed ()
          else .done { m with stack := parent.put o.value :: stack }
      | _ => .fault .nullDereference

end Built

/-! ## The second pass -/

/-- The room of a value: the value as the first pass has left it, and how much of the room for names is
used. -/
structure Room (δ : Type) where
  node : Node δ
  used : Nat

/-- The values in the second pass: those that are still to be filled, the rooms of `top`, of its parent and
so on, and what is in them. -/
structure Filled (δ : Type) where
  alloc : List (Node δ)
  rooms : List (Room δ)
  built : Built δ

namespace Filled

/-- `new_value`: the next value is taken.  Of an object the size is computed in an `int`, 24 bytes for a
member; when it is negative even with the names, there is no memory for it. -/
def push (f : Filled δ) (fill : Node δ → Open δ) : Outcome Unit (Filled δ) :=
  match f.alloc with
  | [] => .fault .nullDereference
  | node :: alloc =>
      if node.type = .object ∧ toInt32 (24 * node.length) ≠ 24 * node.length then
        if toInt32 (24 * node.length) + node.names < 0 then .failed () else .fault .outOfBounds
      else .done ⟨alloc, ⟨node, 0⟩ :: f.rooms, { f.built with stack := fill node :: f.built.stack }⟩

/-- There is room for one more byte of the text of `top`, or of a name in it. -/
def hasRoom (f : Filled δ) : Bool :=
  match f.rooms with
  | room :: _ =>
      match room.node.type with
      | .string => decide (f.built.buffer.length < room.node.length + 1)
      | .object => decide (room.used + f.built.buffer.length < room.node.names)
      | _ => false
  | [] => false

/-- There is room for one more member or element in the value with this room. -/
def hasEntry (room : Room δ) (o : Open δ) : Bool := decide (o.size < room.node.length)

/-- What the second pass does. -/
def act (D : Doubles δ) (f : Filled δ) (a : Act δ) : Outcome Unit (Filled δ) :=
  match a with
  | .newValue _ => f.push .ofNode
  | .newBoolean value => f.push fun node => .boolean (if value = 0 then node.boolean else value)
  | .add _ =>
      if f.hasRoom then (f.built.act D a).bind fun built => .done { f with built := built }
      else .fault .outOfBounds
  | .endText =>
      if f.hasRoom then (f.built.act D a).bind fun built => .done { f with built := built }
      else .fault .outOfBounds
  | .endName =>
      match f.rooms, f.built.stack with
      | room :: rooms, o :: _ =>
          if f.hasRoom ∧ hasEntry room o then
            (f.built.act D a).bind fun built => .done
              { f with rooms := { room with used := room.used + (f.built.buffer.length + 1) } :: rooms,
                       built := built }
          else .fault .outOfBounds
      | _, _ => .fault .nullDereference
  | .attach =>
      match f.rooms, f.built.stack with
      | _ :: room :: rooms, _ :: parent :: _ =>
          if hasEntry room parent then
            (f.built.act D a).bind fun built => .done { f with rooms := room :: rooms, built := built }
          else .fault .outOfBounds
      | _, _ => .fault .nullDereference
  | a => (f.built.act D a).bind fun built => .done { f with built := built }

end Filled

/-! ## The passes -/

/-- What a pass has to do with the values. -/
structure Pass (δ σ : Type) where
  types : σ → List JsonType
  stringLength : σ → Nat
  act : σ → Act δ → Outcome Unit σ

/-- Several acts. -/
def Pass.acts (P : Pass δ σ) : List (Act δ) → σ → Outcome Unit σ
  | [], a => .done a
  | act :: acts, a => (P.act a act).bind fun a => P.acts acts a

def countPass (D : Doubles δ) : Pass δ (Counted δ) := ⟨Counted.types, Counted.stringLength, Counted.act D⟩

def fillPass (D : Doubles δ) : Pass δ (Filled δ) :=
  ⟨fun f => f.built.types, fun f => f.built.buffer.length, Filled.act D⟩

def buildPass (D : Doubles δ) : Pass δ (Built δ) := ⟨Built.types, fun m => m.buffer.length, Built.act D⟩

/-- The loop over the text. -/
def loop (D : Doubles δ) (P : Pass δ σ) (first : Bool) : Nat → Scan → NumScan → σ → Outcome Unit σ
  | 0, _, _, _ => .fault .endless
  | fuel + 1, s, n, a =>
      match control D first (P.types a) (P.stringLength a) s n with
      | .failed => .failed ()
      | .noTop => .fault .nullDereference
      | .stop => .done a
      | .go acts s n => (P.acts acts a).bind fun a => loop D P first fuel s n a

/-- The start of a pass. -/
def Scan.start (text : Bytes) : Scan := ⟨false, true, false, false, false, false, text⟩

/-- The counters before the first number. -/
def NumScan.start : NumScan := ⟨false, false, false, false, false, 0, 0, 0⟩

/-- One pass over the text. -/
def pass (D : Doubles δ) (P : Pass δ σ) (first : Bool) (text : Bytes) (a : σ) : Outcome Unit σ :=
  loop D P first (3 * text.length + 2) (.start text) .start a

/-- The byte order mark is skipped. -/
def skipBom (json : Bytes) : Bytes := if [0xEF, 0xBB, 0xBF].isPrefixOf json then json.drop 3 else json

/-- `root`. -/
def root (m : Built δ) : JsonValue δ :=
  match m.stack.getLast? with
  | none => .none
  | some o => o.value

/-- `json_parse_ex`. -/
def jsonParseEx (D : Doubles δ) (json : Bytes) : Outcome Unit (JsonValue δ) :=
  let text := skipBom json
  (pass D (countPass D) true text .init).bind fun c =>
    (pass D (fillPass D) false text ⟨c.nodes, [], .init⟩).bind fun f => .done (root f.built)

/-- `json_parse`, which returns NULL when the text is refused. -/
def jsonParse (D : Doubles δ) (json : Bytes) : Outcome Empty (JsonValue δ) :=
  match jsonParseEx D json with
  | .done v => .done v
  | .failed _ => .done .none
  | .fault x => .fault x

/-- The values in a single pass that counts nothing. -/
def read (D : Doubles δ) (json : Bytes) : Outcome Unit (JsonValue δ) :=
  (pass D (buildPass D) true (skipBom json) .init).bind fun m => .done (root m)

end JsonParser

end HttpProxy
