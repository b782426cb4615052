import HttpProxy.Bytes.CLib
import HttpProxy.Control.Outcome

/-!
# `SrsConfDirective::read_token`

`src/app/srs_app_config.cpp`, lines 695-841: a loop over the bytes of the file with five flags.

* `readToken` — the loop, with every byte it reads and copies.
* `scan` — the same on the bytes that are left, with a mode in place of the flags.
* `readToken_eq` — the loop reads only inside of the buffer, and returns what `scan` returns.
-/

namespace HttpProxy

/-- `is_common_space`. -/
def isCommonSpace (ch : Byte) : Bool := ch = 32 || ch = 9 || ch = CR || ch = LF

/-- The double quote. -/
def DQUOTE : Byte := 34

/-- The single quote. -/
def SQUOTE : Byte := 39

def SEMICOLON : Byte := 59

def LBRACE : Byte := 123

def RBRACE : Byte := 125

def SHARP : Byte := 35

/-- `SrsConfigBuffer`: the bytes between `start` and `end`, the position and the line. -/
structure SrsConfigBuffer where
  text : Bytes
  pos : Nat
  line : Nat

namespace SrsConfigBuffer

/-- A buffer that has just been filled. -/
def fullfill (text : Bytes) : SrsConfigBuffer := { text := text, pos := 0, line := 1 }

/-- `empty`. -/
def empty (b : SrsConfigBuffer) : Bool := decide (b.text.length ≤ b.pos)

/-- The bytes that have not been consumed. -/
def rest (b : SrsConfigBuffer) : Bytes := b.text.drop b.pos

end SrsConfigBuffer

/-- `SrsDirectiveState`. -/
inductive SrsDirectiveState
  | init
  | entire
  | blockStart
  | blockEnd
  | eof
  deriving DecidableEq

/-- The errors of the configuration, each with what its text shows. -/
inductive ConfError
  /-- `line %d: unexpected end of file, expecting ; or "}"` -/
  | unexpectedEof (line : Nat)
  /-- `line %d: unexpected '%c'` -/
  | unexpected (line : Nat) (ch : Byte)
  /-- `line %d: unexpected "}"` -/
  | unexpectedBlockEnd (line : Nat)
  /-- `line %d: unexpected end of file, expecting "}"` -/
  | expectingBlockEnd (line : Nat)
  /-- `line %d: include is empty directive` -/
  | includeEmpty (line : Nat)
  /-- `line %d: no config` -/
  | noConfig (line : Nat)
  /-- `buffer fullfill %s` -/
  | bufferFullfill (file : Bytes)
  /-- `empty config` -/
  | emptyConfig
  /-- `no log file` -/
  | noLogFile
  /-- `notify subscribes reload listen failed`, with the code of the handler. -/
  | reloadListen (code : Int)
  deriving DecidableEq

/-- What `read_token` returns, with the buffer behind it. -/
structure Token where
  args : List Bytes
  lineStart : Nat
  state : SrsDirectiveState
  buffer : SrsConfigBuffer

/-! ## The loop -/

/-- The variables of the loop. -/
structure Scan where
  buffer : SrsConfigBuffer
  args : List Bytes
  lineStart : Nat
  pstart : Nat
  sharpComment : Bool
  dQuoted : Bool
  sQuoted : Bool
  needSpace : Bool
  lastSpace : Bool

/-- What one round of the loop leads to. -/
inductive Round
  | again (s : Scan)
  | ret (t : Token)
  | err (e : ConfError)
  | fault (f : Fault)

namespace Scan

/-- The loop returns with a state. -/
def ret (s : Scan) (state : SrsDirectiveState) : Round := .ret ⟨s.args, s.lineStart, state, s.buffer⟩

/-- `need_space`: the byte behind a quoted word. -/
def afterQuote (s : Scan) (ch : Byte) : Round :=
  if isCommonSpace ch then .again { s with lastSpace := true, needSpace := false }
  else if ch = SEMICOLON then s.ret .entire
  else if ch = LBRACE then s.ret .blockStart
  else .err (.unexpected s.buffer.line ch)

/-- `last_space`: a byte in front of a word. -/
def atSpace (s : Scan) (ch : Byte) : Round :=
  if isCommonSpace ch then .again s
  else
    let s := { s with pstart := s.buffer.pos - 1 }
    if ch = SEMICOLON then
      if s.args = [] then .err (.unexpected s.buffer.line ch) else s.ret .entire
    else if ch = LBRACE then
      if s.args = [] then .err (.unexpected s.buffer.line ch) else s.ret .blockStart
    else if ch = RBRACE then
      if s.args ≠ [] then .err (.unexpected s.buffer.line ch) else s.ret .blockEnd
    else if ch = SHARP then .again { s with sharpComment := true }
    else if ch = DQUOTE then
      .again { s with pstart := s.pstart + 1, dQuoted := true, lastSpace := false }
    else if ch = SQUOTE then
      .again { s with pstart := s.pstart + 1, sQuoted := true, lastSpace := false }
    else .again { s with lastSpace := false }

/-- `args.push_back` of a word that is not empty. -/
def push (args : List Bytes) (word : Bytes) : List Bytes := if word = [] then args else args ++ [word]

/-- The word that ends with the byte before the position: `memcpy` and `aword[len - 1] = 0`.  `len` is an
`int`: a word has fewer than 2 ^ 31 bytes. -/
def found (s : Scan) (ch : Byte) : Round :=
  if s.pstart < s.buffer.pos ∧ s.buffer.pos ≤ s.buffer.text.length then
    let aword := (s.buffer.text.drop s.pstart).take (s.buffer.pos - s.pstart - 1) ++ [0]
    let s := { s with args := push s.args (cString aword) }
    if ch = SEMICOLON then s.ret .entire
    else if ch = LBRACE then s.ret .blockStart
    else .again s
  else .fault .outOfBounds

/-- `line_start`, which is set once. -/
def firstLine (lineStart line : Nat) : Nat := if lineStart = 0 then line else lineStart

/-- A byte of a word, or the one that ends it. -/
def inWord (s : Scan) (ch : Byte) : Round :=
  let s := { s with lineStart := firstLine s.lineStart s.buffer.line }
  if s.dQuoted then
    if ch = DQUOTE then found { s with dQuoted := false, needSpace := true } ch else .again s
  else if s.sQuoted then
    if ch = SQUOTE then found { s with sQuoted := false, needSpace := true } ch else .again s
  else if isCommonSpace ch || ch = SEMICOLON || ch = LBRACE then found { s with lastSpace := true } ch
  else .again s

/-- One round of the loop. -/
def round (s : Scan) : Round :=
  if s.buffer.empty then
    if s.args ≠ [] ∨ s.lastSpace = false then .err (.unexpectedEof s.buffer.line) else s.ret .eof
  else
    match s.buffer.text[s.buffer.pos]? with
    | none => .fault .outOfBounds
    | some ch =>
        let s := { s with buffer := { s.buffer with pos := s.buffer.pos + 1 } }
        let s := if ch = LF then
            { s with buffer := { s.buffer with line := s.buffer.line + 1 }, sharpComment := false }
          else s
        if s.sharpComment then .again s
        else if s.needSpace then s.afterQuote ch
        else if s.lastSpace then s.atSpace ch
        else s.inWord ch

/-- The loop. -/
def loop : Nat → Scan → Outcome ConfError Token
  | 0, _ => .fault .endless
  | n + 1, s =>
      match s.round with
      | .again s' => loop n s'
      | .ret t => .done t
      | .err e => .failed e
      | .fault f => .fault f

/-- The variables at the start. -/
def start (buffer : SrsConfigBuffer) : Scan :=
  { buffer := buffer, args := [], lineStart := 0, pstart := buffer.pos, sharpComment := false
    dQuoted := false, sQuoted := false, needSpace := false, lastSpace := true }

end Scan

/-- `read_token`.  Every round but the last one consumes a byte. -/
def readToken (buffer : SrsConfigBuffer) : Outcome ConfError Token :=
  (Scan.start buffer).loop (buffer.rest.length + 1)

/-! ## The loop on the bytes that are left -/

/-- Where the loop stands, with the bytes of the word it is in. -/
inductive Mode
  | space
  | comment
  | word (w : Bytes)
  | quoted (q : Byte) (w : Bytes)
  | afterQuote

/-- The end of the file is expected: between directives. -/
def Mode.atEnd : Mode → Bool
  | .space => true
  | .comment => true
  | _ => false

/-- A token, and the bytes behind it. -/
structure Lexeme where
  args : List Bytes
  lineStart : Nat
  state : SrsDirectiveState
  rest : Bytes
  line : Nat

/-- The line behind a byte. -/
def nextLine (line : Nat) (ch : Byte) : Nat := if ch = LF then line + 1 else line

/-- `read_token` on the bytes that are left. -/
def scan : Mode → List Bytes → Nat → Nat → Bytes → Outcome ConfError Lexeme
  | m, args, ls, line, [] =>
      if args ≠ [] ∨ m.atEnd = false then .failed (.unexpectedEof line) else .done ⟨args, ls, .eof, [], line⟩
  | m, args, ls, line, ch :: rest =>
      let line := nextLine line ch
      match m with
      | .comment => if ch = LF then scan .space args ls line rest else scan .comment args ls line rest
      | .afterQuote =>
          if isCommonSpace ch then scan .space args ls line rest
          else if ch = SEMICOLON then .done ⟨args, ls, .entire, rest, line⟩
          else if ch = LBRACE then .done ⟨args, ls, .blockStart, rest, line⟩
          else .failed (.unexpected line ch)
      | .space =>
          if isCommonSpace ch then scan .space args ls line rest
          else if ch = SEMICOLON then
            if args = [] then .failed (.unexpected line ch) else .done ⟨args, ls, .entire, rest, line⟩
          else if ch = LBRACE then
            if args = [] then .failed (.unexpected line ch) else .done ⟨args, ls, .blockStart, rest, line⟩
          else if ch = RBRACE then
            if args ≠ [] then .failed (.unexpected line ch) else .done ⟨args, ls, .blockEnd, rest, line⟩
          else if ch = SHARP then scan .comment args ls line rest
          else if ch = DQUOTE then scan (.quoted DQUOTE []) args ls line rest
          else if ch = SQUOTE then scan (.quoted SQUOTE []) args ls line rest
          else scan (.word [ch]) args ls line rest
      | .word w =>
          let ls := Scan.firstLine ls line
          if isCommonSpace ch then scan .space (Scan.push args (cString w)) ls line rest
          else if ch = SEMICOLON then .done ⟨Scan.push args (cString w), ls, .entire, rest, line⟩
          else if ch = LBRACE then .done ⟨Scan.push args (cString w), ls, .blockStart, rest, line⟩
          else scan (.word (w ++ [ch])) args ls line rest
      | .quoted q w =>
          let ls := Scan.firstLine ls line
          if ch = q then scan .afterQuote (Scan.push args (cString w)) ls line rest
          else scan (.quoted q (w ++ [ch])) args ls line rest

theorem scan_nil {m : Mode} {args : List Bytes} {ls line : Nat} : scan m args ls line [] =
    if args ≠ [] ∨ m.atEnd = false then .failed (.unexpectedEof line)
    else .done ⟨args, ls, .eof, [], line⟩ := rfl

theorem scan_comment {args : List Bytes} {ls line : Nat} {ch : Byte} {rest : Bytes} :
    scan .comment args ls line (ch :: rest) =
      if ch = LF then scan .space args ls (nextLine line ch) rest
      else scan .comment args ls (nextLine line ch) rest := rfl

theorem scan_afterQuote {args : List Bytes} {ls line : Nat} {ch : Byte} {rest : Bytes} :
    scan .afterQuote args ls line (ch :: rest) =
      if isCommonSpace ch then scan .space args ls (nextLine line ch) rest
      else if ch = SEMICOLON then .done ⟨args, ls, .entire, rest, nextLine line ch⟩
      else if ch = LBRACE then .done ⟨args, ls, .blockStart, rest, nextLine line ch⟩
      else .failed (.unexpected (nextLine line ch) ch) := rfl

theorem scan_space {args : List Bytes} {ls line : Nat} {ch : Byte} {rest : Bytes} :
    scan .space args ls line (ch :: rest) =
      if isCommonSpace ch then scan .space args ls (nextLine line ch) rest
      else if ch = SEMICOLON then
        if args = [] then .failed (.unexpected (nextLine line ch) ch)
        else .done ⟨args, ls, .entire, rest, nextLine line ch⟩
      else if ch = LBRACE then
        if args = [] then .failed (.unexpected (nextLine line ch) ch)
        else .done ⟨args, ls, .blockStart, rest, nextLine line ch⟩
      else if ch = RBRACE then
        if args ≠ [] then .failed (.unexpected (nextLine line ch) ch)
        else .done ⟨args, ls, .blockEnd, rest, nextLine line ch⟩
      else if ch = SHARP then scan .comment args ls (nextLine line ch) rest
      else if ch = DQUOTE then scan (.quoted DQUOTE []) args ls (nextLine line ch) rest
      else if ch = SQUOTE then scan (.quoted SQUOTE []) args ls (nextLine line ch) rest
      else scan (.word [ch]) args ls (nextLine line ch) rest := rfl

theorem scan_word {w : Bytes} {args : List Bytes} {ls line : Nat} {ch : Byte} {rest : Bytes} :
    scan (.word w) args ls line (ch :: rest) =
      if isCommonSpace ch then
        scan .space (Scan.push args (cString w)) (Scan.firstLine ls (nextLine line ch))
          (nextLine line ch) rest
      else if ch = SEMICOLON then
        .done ⟨Scan.push args (cString w), Scan.firstLine ls (nextLine line ch), .entire, rest,
          nextLine line ch⟩
      else if ch = LBRACE then
        .done ⟨Scan.push args (cString w), Scan.firstLine ls (nextLine line ch), .blockStart, rest,
          nextLine line ch⟩
      else scan (.word (w ++ [ch])) args (Scan.firstLine ls (nextLine line ch)) (nextLine line ch) rest := rfl

theorem scan_quoted {q : Byte} {w : Bytes} {args : List Bytes} {ls line : Nat} {ch : Byte} {rest : Bytes} :
    scan (.quoted q w) args ls line (ch :: rest) =
      if ch = q then
        scan .afterQuote (Scan.push args (cString w)) (Scan.firstLine ls (nextLine line ch))
          (nextLine line ch)
          rest
      else scan (.quoted q (w ++ [ch])) args (Scan.firstLine ls (nextLine line ch))
        (nextLine line ch) rest := rfl

namespace Scan

/-- The flags stand for the mode, and a word is what lies between `pstart` and the position. -/
def InMode (s : Scan) : Mode → Prop
  | .space => s.sharpComment = false ∧ s.needSpace = false ∧ s.lastSpace = true ∧ s.dQuoted = false ∧
      s.sQuoted = false
  | .comment => s.sharpComment = true ∧ s.needSpace = false ∧ s.lastSpace = true ∧ s.dQuoted = false ∧
      s.sQuoted = false
  | .word w => s.sharpComment = false ∧ s.needSpace = false ∧ s.lastSpace = false ∧ s.dQuoted = false ∧
      s.sQuoted = false ∧ s.buffer.text.drop s.pstart = w ++ s.buffer.rest
  | .quoted q w => s.sharpComment = false ∧ s.needSpace = false ∧ s.lastSpace = false ∧
      (q = DQUOTE ∧ s.dQuoted = true ∧ s.sQuoted = false ∨
        q = SQUOTE ∧ s.dQuoted = false ∧ s.sQuoted = true) ∧
      s.buffer.text.drop s.pstart = w ++ s.buffer.rest
  | .afterQuote => s.sharpComment = false ∧ s.needSpace = true ∧ s.lastSpace = false ∧
      s.dQuoted = false ∧ s.sQuoted = false

/-- The variables behind the byte that a round reads. -/
def advance (s : Scan) (ch : Byte) : Scan :=
  { s with
    buffer := { text := s.buffer.text, pos := s.buffer.pos + 1, line := nextLine s.buffer.line ch }
    sharpComment := if ch = LF then false else s.sharpComment }

variable {s : Scan} {m : Mode} {ch : Byte} {rest w : Bytes}

theorem round_nil (h : s.buffer.rest = []) : s.round =
    if s.args ≠ [] ∨ s.lastSpace = false then .err (.unexpectedEof s.buffer.line) else s.ret .eof := by
  unfold round SrsConfigBuffer.empty
  rw [if_pos]
  exact decide_eq_true (List.drop_eq_nil_iff.1 h)

/-- The byte at the position is the first of those that are left, and it is inside of the buffer. -/
theorem rest_cons (h : s.buffer.rest = ch :: rest) : s.buffer.pos < s.buffer.text.length ∧
    s.buffer.text[s.buffer.pos]? = some ch ∧ s.buffer.text.drop (s.buffer.pos + 1) = rest := by
  unfold SrsConfigBuffer.rest at h
  have hlt : s.buffer.pos < s.buffer.text.length := by
    by_contra hge
    rw [List.drop_eq_nil_of_le (by omega)] at h
    cases h
  have hcons := List.drop_eq_getElem_cons hlt
  rw [h] at hcons
  obtain ⟨hch, hrest⟩ := List.cons.inj hcons
  exact ⟨hlt, by rw [List.getElem?_eq_getElem hlt, hch], hrest.symm⟩

theorem round_cons (h : s.buffer.rest = ch :: rest) : s.round =
    if (s.advance ch).sharpComment then .again (s.advance ch)
    else if (s.advance ch).needSpace then (s.advance ch).afterQuote ch
    else if (s.advance ch).lastSpace then (s.advance ch).atSpace ch
    else (s.advance ch).inWord ch := by
  obtain ⟨hlt, hget, -⟩ := rest_cons h
  unfold round SrsConfigBuffer.empty
  rw [if_neg (by simpa using hlt), hget]
  unfold advance nextLine
  by_cases hlf : ch = LF
  · simp only [if_pos hlf]
  · simp only [if_neg hlf]

/-- What is copied is the word, and it lies inside of the buffer. -/
theorem found_word {r : Bytes} (h : s.buffer.text.drop s.pstart = w ++ ch :: r)
    (hpos : s.buffer.pos = s.pstart + w.length + 1) : s.found ch =
      if ch = SEMICOLON then ret { s with args := push s.args (cString w) } .entire
      else if ch = LBRACE then ret { s with args := push s.args (cString w) } .blockStart
      else .again { s with args := push s.args (cString w) } := by
  have hlen := congrArg List.length h
  simp only [List.length_drop, List.length_append, List.length_cons] at hlen
  have htake : s.buffer.pos - s.pstart - 1 = w.length := by omega
  have hcopy : (s.buffer.text.drop s.pstart).take (s.buffer.pos - s.pstart - 1) = w := by
    rw [h, htake, List.take_left']
    rfl
  unfold found
  rw [if_pos ⟨by omega, by omega⟩]
  simp only [hcopy, cString_append_zero]

/-- The lexeme as a token of a buffer. -/
def toToken (text : Bytes) (l : Lexeme) : Outcome ConfError Token :=
  .done ⟨l.args, l.lineStart, l.state, { text := text, pos := text.length - l.rest.length, line := l.line }⟩

/-- The loop has these bytes in front of it. -/
structure Before (s : Scan) (bs : Bytes) : Prop where
  rest : s.buffer.rest = bs
  pos : s.buffer.pos + bs.length = s.buffer.text.length

/-- From any mode the loop does on the buffer what `scan` does on these bytes. -/
def Scans (n : Nat) (rest : Bytes) : Prop :=
  ∀ (s : Scan) (m : Mode), s.InMode m → s.Before rest →
    s.loop n = (scan m s.args s.lineStart s.buffer.line rest).bind (toToken s.buffer.text)

variable {s' : Scan} {n : Nat}

theorem Before.advance (h : s.Before (ch :: rest)) : (s.advance ch).Before rest := by
  refine ⟨(rest_cons h.rest).2.2, ?_⟩
  have hpos := h.pos
  rw [List.length_cons] at hpos
  unfold Scan.advance
  simp only
  omega

/-! The three ways a round can end. -/

theorem loop_again (ih : Scans n rest) (h : s.Before (ch :: rest)) (s' : Scan)
    (hround : s.round = .again s') (hb : s'.buffer = (s.advance ch).buffer) (hm : s'.InMode m) :
    s.loop (n + 1) = (scan m s'.args s'.lineStart (nextLine s.buffer.line ch) rest).bind
      (toToken s.buffer.text) := by
  obtain ⟨hrest, hpos⟩ := h.advance
  have hloop := ih s' m hm ⟨hb ▸ hrest, hb ▸ hpos⟩
  unfold loop
  rw [hround]
  rwa [hb] at hloop

theorem loop_ret (s' : Scan) {state : SrsDirectiveState} (hround : s.round = s'.ret state)
    (h : s'.Before rest) : s.loop (n + 1) =
      toToken s'.buffer.text ⟨s'.args, s'.lineStart, state, rest, s'.buffer.line⟩ := by
  have hback : s'.buffer.text.length - rest.length = s'.buffer.pos := by
    have := h.pos
    omega
  unfold loop toToken
  rw [hround, hback]
  rfl

theorem loop_err {e : ConfError} (hround : s.round = .err e) : s.loop (n + 1) = .failed e := by
  unfold loop
  rw [hround]

/-! The modes, one by one. -/

theorem space_eq (ih : Scans n rest) (h : s.Before (ch :: rest)) (hm : s.InMode .space) :
    s.loop (n + 1) = (scan .space s.args s.lineStart s.buffer.line (ch :: rest)).bind
      (toToken s.buffer.text) := by
  obtain ⟨hsharp, hneed, hlast, hd, hs⟩ := hm
  have hsharp' : (s.advance ch).sharpComment = false := by simp [advance, hsharp]
  have hargs : (s.advance ch).args = s.args := rfl
  have hround := round_cons h.rest
  rw [if_neg (by simp [hsharp']), if_neg (by simp [advance, hneed]), if_pos (by simp [advance, hlast])]
    at hround
  unfold atSpace at hround
  unfold scan
  simp only [hargs] at hround ⊢
  by_cases hsp : isCommonSpace ch
  · rw [if_pos hsp] at hround ⊢
    exact (loop_again (m := .space) ih h _ hround rfl ⟨hsharp', hneed, hlast, hd, hs⟩).trans rfl
  rw [if_neg hsp] at hround ⊢
  by_cases hsemi : ch = SEMICOLON
  · rw [if_pos hsemi] at hround ⊢
    by_cases hnil : s.args = []
    · rw [if_pos hnil] at hround ⊢
      exact loop_err hround
    · rw [if_neg hnil] at hround ⊢
      exact loop_ret _ hround ⟨h.advance.rest, h.advance.pos⟩
  rw [if_neg hsemi] at hround ⊢
  by_cases hopen : ch = LBRACE
  · rw [if_pos hopen] at hround ⊢
    by_cases hnil : s.args = []
    · rw [if_pos hnil] at hround ⊢
      exact loop_err hround
    · rw [if_neg hnil] at hround ⊢
      exact loop_ret _ hround ⟨h.advance.rest, h.advance.pos⟩
  rw [if_neg hopen] at hround ⊢
  by_cases hclose : ch = RBRACE
  · rw [if_pos hclose] at hround ⊢
    by_cases hnil : s.args ≠ []
    · rw [if_pos hnil] at hround ⊢
      exact loop_err hround
    · rw [if_neg hnil] at hround ⊢
      exact loop_ret _ hround ⟨h.advance.rest, h.advance.pos⟩
  rw [if_neg hclose] at hround ⊢
  by_cases hcom : ch = SHARP
  · rw [if_pos hcom] at hround ⊢
    exact (loop_again (m := .comment) ih h _ hround rfl ⟨rfl, hneed, hlast, hd, hs⟩).trans rfl
  rw [if_neg hcom] at hround ⊢
  -- a word starts behind its quote, or with this byte
  by_cases hdq : ch = DQUOTE
  · rw [if_pos hdq] at hround ⊢
    refine (loop_again (m := .quoted DQUOTE []) ih h _ hround rfl
      ⟨hsharp', hneed, rfl, Or.inl ⟨rfl, rfl, hs⟩, ?_⟩).trans rfl
    simp [advance, SrsConfigBuffer.rest]
  rw [if_neg hdq] at hround ⊢
  by_cases hsq : ch = SQUOTE
  · rw [if_pos hsq] at hround ⊢
    refine (loop_again (m := .quoted SQUOTE []) ih h _ hround rfl
      ⟨hsharp', hneed, rfl, Or.inr ⟨rfl, hd, rfl⟩, ?_⟩).trans rfl
    simp [advance, SrsConfigBuffer.rest]
  rw [if_neg hsq] at hround ⊢
  refine (loop_again (m := .word [ch]) ih h _ hround rfl ⟨hsharp', hneed, rfl, hd, hs, ?_⟩).trans rfl
  have hword := h.rest
  unfold SrsConfigBuffer.rest at hword
  simpa [advance, SrsConfigBuffer.rest, (rest_cons h.rest).2.2] using hword

theorem comment_eq (ih : Scans n rest) (h : s.Before (ch :: rest)) (hm : s.InMode .comment) :
    s.loop (n + 1) = (scan .comment s.args s.lineStart s.buffer.line (ch :: rest)).bind
      (toToken s.buffer.text) := by
  obtain ⟨hsharp, hneed, hlast, hd, hs⟩ := hm
  have hround := round_cons h.rest
  unfold scan
  by_cases hlf : ch = LF
  · have hsharp' : (s.advance ch).sharpComment = false := by simp [advance, hlf]
    have hspace : isCommonSpace ch = true := by
      rw [hlf]
      decide
    rw [if_neg (by simp [hsharp']), if_neg (by simp [advance, hneed]), if_pos (by simp [advance, hlast])]
      at hround
    unfold atSpace at hround
    rw [if_pos hspace] at hround
    simp only [if_pos hlf]
    exact (loop_again (m := .space) ih h _ hround rfl ⟨hsharp', hneed, hlast, hd, hs⟩).trans rfl
  · have hsharp' : (s.advance ch).sharpComment = true := by simp [advance, hlf, hsharp]
    rw [if_pos hsharp'] at hround
    simp only [if_neg hlf]
    exact (loop_again (m := .comment) ih h _ hround rfl ⟨hsharp', hneed, hlast, hd, hs⟩).trans rfl

theorem afterQuote_eq (ih : Scans n rest) (h : s.Before (ch :: rest)) (hm : s.InMode .afterQuote) :
    s.loop (n + 1) = (scan .afterQuote s.args s.lineStart s.buffer.line (ch :: rest)).bind
      (toToken s.buffer.text) := by
  obtain ⟨hsharp, hneed, hlast, hd, hs⟩ := hm
  have hsharp' : (s.advance ch).sharpComment = false := by simp [advance, hsharp]
  have hround := round_cons h.rest
  rw [if_neg (by simp [hsharp']), if_pos (by simp [advance, hneed])] at hround
  unfold afterQuote at hround
  unfold scan
  simp only
  by_cases hsp : isCommonSpace ch
  · rw [if_pos hsp] at hround ⊢
    exact (loop_again (m := .space) ih h _ hround rfl ⟨hsharp', rfl, rfl, hd, hs⟩).trans rfl
  rw [if_neg hsp] at hround ⊢
  by_cases hsemi : ch = SEMICOLON
  · rw [if_pos hsemi] at hround ⊢
    exact loop_ret _ hround h.advance
  rw [if_neg hsemi] at hround ⊢
  by_cases hopen : ch = LBRACE
  · rw [if_pos hopen] at hround ⊢
    exact loop_ret _ hround h.advance
  rw [if_neg hopen] at hround ⊢
  exact loop_err hround

/-- The byte behind a word is the one at the position. -/
theorem word_pos (h : s.Before (ch :: rest)) (hw : s.buffer.text.drop s.pstart = w ++ s.buffer.rest) :
    s.buffer.text.drop s.pstart = w ++ ch :: rest ∧ s.buffer.pos + 1 = s.pstart + w.length + 1 := by
  rw [h.rest] at hw
  refine ⟨hw, ?_⟩
  have hlen := congrArg List.length hw
  have hpos := h.pos
  simp only [List.length_drop, List.length_append, List.length_cons] at hlen hpos
  omega

theorem word_eq (ih : Scans n rest) (h : s.Before (ch :: rest)) (hm : s.InMode (.word w)) :
    s.loop (n + 1) = (scan (.word w) s.args s.lineStart s.buffer.line (ch :: rest)).bind
      (toToken s.buffer.text) := by
  obtain ⟨hsharp, hneed, hlast, hd, hs, hw⟩ := hm
  have hsharp' : (s.advance ch).sharpComment = false := by simp [advance, hsharp]
  have hround := round_cons h.rest
  rw [if_neg (by simp [hsharp']), if_neg (by simp [advance, hneed]), if_neg (by simp [advance, hlast])]
    at hround
  unfold inWord at hround
  rw [if_neg (by simp [advance, hd]), if_neg (by simp [advance, hs])] at hround
  obtain ⟨hw, hpos⟩ := word_pos h hw
  unfold scan
  simp only
  by_cases hstop : isCommonSpace ch ∨ ch = SEMICOLON ∨ ch = LBRACE
  · rw [if_pos (by simpa [or_assoc] using hstop), found_word (w := w) (r := rest)] at hround
    case h => exact hw
    case hpos => exact hpos
    by_cases hsemi : ch = SEMICOLON
    · rw [if_pos hsemi] at hround
      rw [if_neg (by rw [hsemi]; decide), if_pos hsemi]
      exact loop_ret _ hround ⟨h.advance.rest, h.advance.pos⟩
    rw [if_neg hsemi] at hround ⊢
    by_cases hopen : ch = LBRACE
    · rw [if_pos hopen] at hround
      rw [if_neg (by rw [hopen]; decide), if_pos hopen]
      exact loop_ret _ hround ⟨h.advance.rest, h.advance.pos⟩
    rw [if_neg hopen] at hround
    rw [if_pos (by tauto)]
    exact (loop_again (m := .space) ih h _ hround rfl ⟨hsharp', hneed, rfl, hd, hs⟩).trans rfl
  · rw [not_or, not_or] at hstop
    rw [if_neg (by simpa [and_assoc] using hstop)] at hround
    rw [if_neg hstop.1, if_neg hstop.2.1, if_neg hstop.2.2]
    refine (loop_again (m := .word (w ++ [ch])) ih h _ hround rfl
      ⟨hsharp', hneed, hlast, hd, hs, ?_⟩).trans rfl
    simpa [advance, SrsConfigBuffer.rest, (rest_cons h.rest).2.2] using hw

/-- The quote that ends a quoted word is not one of the bytes that end a directive. -/
theorem found_quote {r : Bytes} (hq : ch = DQUOTE ∨ ch = SQUOTE)
    (hw : s.buffer.text.drop s.pstart = w ++ ch :: r)
    (hpos : s.buffer.pos = s.pstart + w.length + 1) :
    s.found ch = .again { s with args := push s.args (cString w) } := by
  rw [found_word hw hpos]
  rcases hq with rfl | rfl
  · rw [if_neg (by decide), if_neg (by decide)]
  · rw [if_neg (by decide), if_neg (by decide)]

theorem quoted_eq (ih : Scans n rest) (h : s.Before (ch :: rest)) {q : Byte}
    (hm : s.InMode (.quoted q w)) :
    s.loop (n + 1) = (scan (.quoted q w) s.args s.lineStart s.buffer.line (ch :: rest)).bind
      (toToken s.buffer.text) := by
  obtain ⟨hsharp, hneed, hlast, hquote, hw⟩ := hm
  have hsharp' : (s.advance ch).sharpComment = false := by simp [advance, hsharp]
  have hround := round_cons h.rest
  rw [if_neg (by simp [hsharp']), if_neg (by simp [advance, hneed]), if_neg (by simp [advance, hlast])]
    at hround
  unfold inWord at hround
  obtain ⟨hw, hpos⟩ := word_pos h hw
  unfold scan
  simp only
  have hword : (s.advance ch).buffer.text.drop (s.advance ch).pstart =
      (w ++ [ch]) ++ (s.advance ch).buffer.rest := by
    simpa [advance, SrsConfigBuffer.rest, (rest_cons h.rest).2.2] using hw
  rcases hquote with ⟨rfl, hd, hs⟩ | ⟨rfl, hd, hs⟩
  · rw [if_pos (by simp [advance, hd])] at hround
    by_cases hq : ch = DQUOTE
    · rw [if_pos hq, found_quote (w := w) (r := rest) (Or.inl hq)] at hround
      case hw => exact hw
      case hpos => exact hpos
      rw [if_pos hq]
      exact (loop_again (m := .afterQuote) ih h _ hround rfl ⟨hsharp', rfl, hlast, rfl, hs⟩).trans rfl
    · rw [if_neg hq] at hround ⊢
      exact (loop_again (m := .quoted DQUOTE (w ++ [ch])) ih h _ hround rfl
        ⟨hsharp', hneed, hlast, Or.inl ⟨rfl, hd, hs⟩, hword⟩).trans rfl
  · rw [if_neg (by simp [advance, hd]), if_pos (by simp [advance, hs])] at hround
    by_cases hq : ch = SQUOTE
    · rw [if_pos hq, found_quote (w := w) (r := rest) (Or.inr hq)] at hround
      case hw => exact hw
      case hpos => exact hpos
      rw [if_pos hq]
      exact (loop_again (m := .afterQuote) ih h _ hround rfl ⟨hsharp', rfl, hlast, hd, rfl⟩).trans rfl
    · rw [if_neg hq] at hround ⊢
      exact (loop_again (m := .quoted SQUOTE (w ++ [ch])) ih h _ hround rfl
        ⟨hsharp', hneed, hlast, Or.inr ⟨rfl, hd, hs⟩, hword⟩).trans rfl

theorem nil_eq (h : s.Before []) (hm : s.InMode m) :
    s.loop (n + 1) = (scan m s.args s.lineStart s.buffer.line []).bind (toToken s.buffer.text) := by
  have hround := round_nil h.rest
  have hend : (s.args ≠ [] ∨ s.lastSpace = false) ↔ (s.args ≠ [] ∨ m.atEnd = false) := by
    cases m <;> simp only [InMode] at hm <;> simp [Mode.atEnd, hm]
  unfold scan
  by_cases hargs : s.args ≠ [] ∨ m.atEnd = false
  · rw [if_pos hargs]
    rw [if_pos (hend.2 hargs)] at hround
    exact loop_err hround
  · rw [if_neg hargs]
    rw [if_neg (fun h => hargs (hend.1 h))] at hround
    exact loop_ret _ hround h

/-- The loop does on the buffer what `scan` does on the bytes that are left. -/
theorem loop_eq (rest : Bytes) : ∀ n, rest.length < n → Scans n rest := by
  induction rest with
  | nil =>
    intro n hn s m hm h
    obtain ⟨n, rfl⟩ : ∃ k, n = k + 1 := ⟨n - 1, by omega⟩
    exact nil_eq h hm
  | cons ch rest ih =>
    intro n hn s m hm h
    obtain ⟨n, rfl⟩ : ∃ k, n = k + 1 := ⟨n - 1, by omega⟩
    have ih := ih n (by rw [List.length_cons] at hn; omega)
    cases m with
    | space => exact space_eq ih h hm
    | comment => exact comment_eq ih h hm
    | word w => exact word_eq ih h hm
    | quoted q w => exact quoted_eq ih h hm
    | afterQuote => exact afterQuote_eq ih h hm

end Scan

/-- `read_token` reads and copies inside of the buffer only, and it comes to an end: it returns what
`scan` returns. -/
theorem readToken_eq {buffer : SrsConfigBuffer} (h : buffer.pos ≤ buffer.text.length) :
    readToken buffer = (scan .space [] 0 buffer.line buffer.rest).bind (Scan.toToken buffer.text) := by
  refine Scan.loop_eq buffer.rest _ (Nat.lt_succ_self _) (.start buffer) .space ?_ ⟨rfl, ?_⟩
  · exact ⟨rfl, rfl, rfl, rfl, rfl⟩
  · change buffer.pos + buffer.rest.length = buffer.text.length
    unfold SrsConfigBuffer.rest
    rw [List.length_drop]
    omega

end HttpProxy
