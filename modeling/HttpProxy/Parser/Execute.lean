import HttpProxy.Parser.Step

/-!
# The embedded http-parser: a block of input

`http_parser_execute`: the loop over a block of input, the marks, and the
callbacks.  A mark is the position at which a token started in the block, or 0 if
the token goes on from the block before; the source asserts that at most one mark
is set, so the model keeps one.  At the end of the block the token that is still
open is reported, so a token that spans two blocks is reported in pieces.

* `State.token` — the token a state is inside of.
* `HttpParser.execute` — the callbacks of a block and the number of bytes consumed.
-/

namespace HttpProxy

/-- A call of one of the callbacks: a piece of a token with its position in the
block, or an event. -/
inductive Callback
  | data (k : Mark) (pos : Nat) (bytes : Bytes)
  | notify (n : Notify)
  deriving DecidableEq, Repr

/-- The token a state is inside of, for the tokens that are reported from the start
of a block on when they began in an earlier one. -/
def State.token : State → Option Mark
  | .reqPath | .reqSchema | .reqSchemaSlash | .reqSchemaSlashSlash | .reqServerStart
  | .reqServer | .reqServerWithAt | .reqQueryStringStart | .reqQueryString | .reqFragmentStart
  | .reqFragment => some .url
  | .headerField => some .headerField
  | .headerValue => some .headerValue
  | _ => none

/-- What an execution leaves: the parser, the calls made, and the number of bytes
consumed. -/
structure Executed where
  parser : HttpParser
  callbacks : List Callback
  consumed : Nat
  deriving DecidableEq, Repr

namespace HttpParser

/-- The mark that is set, with its position. -/
abbrev Slot := Option (Mark × Nat)

/-- The bytes of the block from a mark up to `stop`. -/
def piece (data : Bytes) (m stop : Nat) : Bytes := (data.take stop).drop m

/-- One action at position `pos` of the block. -/
def runAct (data : Bytes) (pos : Nat) (slot : Slot) : Act → Slot × List Callback
  | .mark k => (some (slot.getD (k, pos)), [])
  | .data k extra =>
      match slot with
      | some (k', m) =>
          if k' = k then (none, [.data k m (piece data m (pos + extra))]) else (slot, [])
      | none => (none, [])
  | .notify n => (slot, [.notify n])

/-- The actions of a byte. -/
def runActs (data : Bytes) (pos : Nat) : Slot → List Act → Slot × List Callback
  | slot, [] => (slot, [])
  | slot, a :: as =>
      let r := runAct data pos slot a
      let rs := runActs data pos r.1 as
      (rs.1, r.2 ++ rs.2)

/-- The callback for a token that is open at the end of the block. -/
def flush (data : Bytes) : Slot → List Callback
  | some (k, m) => [.data k m (data.drop m)]
  | none => []

/-- The loop, from position `pos` on, where `rest` is still to be read. -/
def executeFrom (data : Bytes) : HttpParser → Slot → Nat → Bytes → Except HttpErrno Executed
  | p, slot, pos, [] => .ok ⟨p, flush data slot, pos⟩
  | p, slot, pos, ch :: rest =>
      match p.stepByte ch with
      | .error e => .error e
      | .ok o =>
          let r := runActs data pos slot o.acts
          if o.exit then .ok ⟨o.parser, r.2, pos + 1⟩
          else
            match executeFrom data o.parser r.1 (pos + 1) rest with
            | .error e => .error e
            | .ok x => .ok { x with callbacks := r.2 ++ x.callbacks }

/-- The mark at the start of a block. -/
def initialSlot (s : State) : Slot := s.token.map fun k => (k, 0)

/-- `http_parser_execute`, for a block that is not empty. -/
def execute (p : HttpParser) (data : Bytes) : Except HttpErrno Executed :=
  executeFrom data p (initialSlot p.state) 0 data

/-- `http_parser_init`. -/
def init (t : HttpParserType) : HttpParser :=
  ⟨t, .none, startState t, .general, 0, 0, 0, 0, 0, 0, .delete, false⟩

end HttpParser

end HttpProxy
