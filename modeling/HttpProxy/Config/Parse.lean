import HttpProxy.Config.Lexical

/-!
# `SrsConfDirective::parse`

`src/app/srs_app_config.cpp`, lines 618-692.  A file is read directive by directive, blocks and
included files by recursion.

* `parseConf`, `parse` — the functions, with fuel for the recursion.
* `Conf` — complete directives with balanced braces, and the trees they stand for.
* `Meets` — a directive of some kind stands where the parser gets to.
* `parse_of_conf`, `parse_returns_iff` — what the parser does on a text that includes nothing.
-/

namespace HttpProxy

/-- `SrsConfDirective`. -/
structure SrsConfDirective where
  confLine : Nat
  name : Bytes
  args : List Bytes
  directives : List SrsConfDirective

/-- A directive without the line it comes from. -/
structure ConfTree where
  name : Bytes
  args : List Bytes
  directives : List ConfTree

mutual

/-- The names, arguments and children of a directive. -/
def SrsConfDirective.tree : SrsConfDirective → ConfTree
  | ⟨_, name, args, directives⟩ => ⟨name, args, trees directives⟩

/-- The trees of directives, in order. -/
def trees : List SrsConfDirective → List ConfTree
  | [] => []
  | d :: ds => d.tree :: trees ds

end

theorem trees_eq_map (ds : List SrsConfDirective) : trees ds = ds.map SrsConfDirective.tree := by
  induction ds with
  | nil => rfl
  | cons d ds ih =>
    unfold trees
    rw [ih]
    rfl

/-- `SrsDirectiveContext`. -/
inductive SrsDirectiveContext
  | file
  | block
  deriving DecidableEq

/-- The files that can be read. -/
abbrev Files := Bytes → Option Bytes

/-- `build_buffer`.  Of an empty file `read` says that it has come to the end.  The size of a file is an `int`:
it has fewer than 2 ^ 31 bytes. -/
def buildBuffer (files : Files) (src : Bytes) : Outcome ConfError SrsConfigBuffer :=
  match files src with
  | some (ch :: text) => .done (.fullfill (ch :: text))
  | some [] => .failed (.bufferFullfill src)
  | none => .failed (.bufferFullfill src)

/-- The loop over the files of an `include`, with the parser for the buffer of each. -/
def parseIncludes (files : Files)
    (parse : SrsConfigBuffer → Outcome ConfError (List SrsConfDirective × SrsConfigBuffer)) :
    List Bytes → Outcome ConfError (List SrsConfDirective)
  | [] => .done []
  | file :: rest =>
      (buildBuffer files file).bind fun buffer =>
      (parse buffer).bind fun parsed =>
      (parseIncludes files parse rest).bind fun more => .done (parsed.1 ++ more)

/-- An `include` with its files. -/
def parseInclude (conf : Option Files) (line : Nat)
    (parse : SrsConfigBuffer → Outcome ConfError (List SrsConfDirective × SrsConfigBuffer))
    (names : List Bytes) : Outcome ConfError (List SrsConfDirective) :=
  if names = [] then .failed (.includeEmpty line)
  else
    match conf with
    | none => .failed (.noConfig line)
    | some files => parseIncludes files parse names

/-- `parse_conf` for a directive that starts in the line `confLine`: what it appends to `directives`.
`conf` is `none` for NULL. -/
def parseConf (conf : Option Files) :
    Nat → SrsDirectiveContext → Nat → SrsConfigBuffer →
      Outcome ConfError (List SrsConfDirective × SrsConfigBuffer)
  | 0, _, _, _ => .fault .endless
  | n + 1, ctx, confLine, buffer =>
      (readToken buffer).bind fun tok =>
        if tok.state = .blockEnd then
          if ctx = .block then .done ([], tok.buffer) else .failed (.unexpectedBlockEnd tok.buffer.line)
        else if tok.state = .eof then
          if ctx ≠ .block then .done ([], tok.buffer) else .failed (.expectingBlockEnd confLine)
        else
          match tok.args with
          | [] => .fault .outOfRange
          | name :: args =>
              if name ≠ str "include" then
                (if tok.state = .blockStart then parseConf conf n .block tok.lineStart tok.buffer
                  else .done ([], tok.buffer)).bind fun block =>
                (parseConf conf n ctx confLine block.2).bind fun more =>
                .done (⟨tok.lineStart, name, args, block.1⟩ :: more.1, more.2)
              else
                (parseInclude conf tok.buffer.line (parseConf conf n .file confLine) args).bind
                  fun included =>
                (parseConf conf n ctx confLine tok.buffer).bind fun more =>
                .done (included ++ more.1, more.2)

/-- `parse`, for a root that is in line 0. -/
def parse (conf : Option Files) (n : Nat) (text : Bytes) : Outcome ConfError (List SrsConfDirective) :=
  (parseConf conf n .file 0 (.fullfill text)).bind fun parsed => .done parsed.1

/-- A file that is not empty is read. -/
theorem buildBuffer_of_file {files : Files} {src text : Bytes} (hfile : files src = some text)
    (htext : text ≠ []) : buildBuffer files src = .done (.fullfill text) := by
  unfold buildBuffer
  rw [hfile]
  cases text with
  | nil => exact absurd rfl htext
  | cons ch text => rfl

/-- What has been read is a file that is not empty. -/
theorem buildBuffer_done {files : Files} {src : Bytes} {b : SrsConfigBuffer}
    (h : buildBuffer files src = .done b) : ∃ text, files src = some text ∧ text ≠ [] ∧ b = .fullfill text := by
  unfold buildBuffer at h
  split at h
  next ch text hfile =>
    cases h
    exact ⟨_, hfile, List.cons_ne_nil _ _, rfl⟩
  next => cases h
  next => cases h

/-! ## More fuel -/

theorem parseIncludes_below {files : Files} {names : List Bytes}
    {p q : SrsConfigBuffer → Outcome ConfError (List SrsConfDirective × SrsConfigBuffer)}
    (h : ∀ b, (p b).Below (q b)) : (parseIncludes files p names).Below (parseIncludes files q names) := by
  induction names with
  | nil => exact .refl _
  | cons name names ih =>
    unfold parseIncludes
    refine Outcome.bind_below (.refl _) fun buffer => ?_
    refine Outcome.bind_below (h buffer) fun parsed => ?_
    exact Outcome.bind_below ih fun more => .refl _

theorem parseInclude_below {conf : Option Files} {line : Nat} {names : List Bytes}
    {p q : SrsConfigBuffer → Outcome ConfError (List SrsConfDirective × SrsConfigBuffer)}
    (h : ∀ b, (p b).Below (q b)) :
    (parseInclude conf line p names).Below (parseInclude conf line q names) := by
  unfold parseInclude
  split
  · exact .refl _
  · cases conf with
    | none => exact .refl _
    | some files => exact parseIncludes_below h

/-- With more fuel a call that has ended ends in the same way. -/
theorem parseConf_below (conf : Option Files) {n m : Nat} (hnm : n ≤ m) (ctx : SrsDirectiveContext)
    (confLine : Nat) (b : SrsConfigBuffer) :
    (parseConf conf n ctx confLine b).Below (parseConf conf m ctx confLine b) := by
  induction n generalizing m ctx confLine b with
  | zero => exact Or.inl rfl
  | succ n ih =>
    obtain ⟨m, rfl⟩ : ∃ k, m = k + 1 := ⟨m - 1, by omega⟩
    have ih := ih (m := m) (by omega)
    unfold parseConf
    refine Outcome.bind_below (.refl _) fun tok => ?_
    split
    · exact .refl _
    split
    · exact .refl _
    cases tok.args with
    | nil => exact .refl _
    | cons name args =>
      simp only
      split
      · refine Outcome.bind_below ?_ fun block => ?_
        · split
          · exact ih _ _ _
          · exact .refl _
        · exact Outcome.bind_below (ih _ _ _) fun more => .refl _
      · refine Outcome.bind_below (parseInclude_below fun b => ih _ _ b) fun included => ?_
        exact Outcome.bind_below (ih _ _ _) fun more => .refl _

/-- A text has one parse. -/
theorem parse_unique {conf : Option Files} {n m : Nat} {text : Bytes} {ds ds' : List SrsConfDirective}
    (h : parse conf n text = .done ds) (h' : parse conf m text = .done ds') : ds = ds' := by
  have hbelow : ∀ {n m : Nat}, n ≤ m → (parse conf n text).Below (parse conf m text) := fun hnm =>
    Outcome.bind_below (parseConf_below conf hnm .file 0 _) fun parsed => .refl _
  rcases Nat.le_total n m with hnm | hnm
  · exact Outcome.done.inj (((hbelow hnm).done_eq h).symm.trans h')
  · exact Outcome.done.inj (h.symm.trans ((hbelow hnm).done_eq h'))

/-! ## Complete directives -/

/-- The state that ends a file or a block. -/
def SrsDirectiveContext.ending : SrsDirectiveContext → SrsDirectiveState
  | .file => .eof
  | .block => .blockEnd

theorem ending_ne (ctx : SrsDirectiveContext) : ctx.ending ≠ .entire ∧ ctx.ending ≠ .blockStart := by
  cases ctx <;> decide

/-- The text goes on with these directives, each complete, up to the end of the file or the block.  None
of them is an `include`. -/
inductive Conf : SrsDirectiveContext → Bytes → List ConfTree → Bytes → Prop
  | ending {ctx text out} (h : Reads [] text [] ctx.ending out) : Conf ctx text [] out
  | entire {ctx text name args rest ts out} (h : Reads [] text (name :: args) .entire rest)
      (hname : name ≠ str "include") (hrest : Conf ctx rest ts out) :
      Conf ctx text (⟨name, args, []⟩ :: ts) out
  | block {ctx text name args rest cs rest' ts out}
      (h : Reads [] text (name :: args) .blockStart rest) (hname : name ≠ str "include")
      (hblock : Conf .block rest cs rest') (hrest : Conf ctx rest' ts out) :
      Conf ctx text (⟨name, args, cs⟩ :: ts) out

/-- A directive with these words stands behind complete directives, or in a block behind them. -/
inductive Meets (P : List Bytes → Prop) : Bytes → Prop
  | here {text args st rest} (h : Reads [] text args st rest) (hst : st = .entire ∨ st = .blockStart)
      (hP : P args) : Meets P text
  | behind {text name args rest} (h : Reads [] text (name :: args) .entire rest)
      (hname : name ≠ str "include") (hrest : Meets P rest) : Meets P text
  | inside {text name args rest} (h : Reads [] text (name :: args) .blockStart rest)
      (hname : name ≠ str "include") (hrest : Meets P rest) : Meets P text
  | behindBlock {text name args rest cs rest'} (h : Reads [] text (name :: args) .blockStart rest)
      (hname : name ≠ str "include") (hblock : Conf .block rest cs rest') (hrest : Meets P rest') :
      Meets P text

variable {conf : Option Files} {ctx : SrsDirectiveContext} {confLine n : Nat} {b : SrsConfigBuffer}
  {tok : Token} {name : Bytes} {args : List Bytes} {text out : Bytes} {ts : List ConfTree}
  {P : List Bytes → Prop}

theorem Conf.suffix (h : Conf ctx text ts out) : out <:+ text := by
  induction h with
  | ending h => exact h.suffix
  | entire h _ _ ih => exact ih.trans h.suffix
  | block h _ _ _ ihblock ih => exact ih.trans (ihblock.trans h.suffix)

theorem Conf.file_nil (h : Conf ctx text ts out) (hctx : ctx = .file) : out = [] := by
  induction h with
  | ending h => exact h.eof_nil (by rw [hctx]; rfl)
  | entire _ _ _ ih => exact ih hctx
  | block _ _ _ _ _ ih => exact ih hctx

/-- A text has one reading. -/
theorem Conf.unique {ts' : List ConfTree} {out' : Bytes} (h : Conf ctx text ts out)
    (h' : Conf ctx text ts' out') : ts = ts' ∧ out = out' := by
  induction h generalizing ts' out' with
  | ending h =>
    cases h' with
    | ending h' => exact ⟨rfl, (h.unique h').2.2⟩
    | entire h' => exact absurd (h.unique h').2.1 (ending_ne _).1
    | block h' => exact absurd (h.unique h').2.1 (ending_ne _).2
  | entire h _ _ ih =>
    cases h' with
    | ending h' => exact absurd (h'.unique h).2.1 (ending_ne _).1
    | entire h' _ hrest =>
      obtain ⟨hwords, -, rfl⟩ := h.unique h'
      obtain ⟨rfl, rfl⟩ := List.cons.inj hwords
      obtain ⟨rfl, rfl⟩ := ih hrest
      exact ⟨rfl, rfl⟩
    | block h' => exact absurd (h.unique h').2.1 (by simp)
  | block h _ _ _ ihblock ih =>
    cases h' with
    | ending h' => exact absurd (h'.unique h).2.1 (ending_ne _).2
    | entire h' => exact absurd (h.unique h').2.1 (by simp)
    | block h' _ hblock hrest =>
      obtain ⟨hwords, -, rfl⟩ := h.unique h'
      obtain ⟨rfl, rfl⟩ := List.cons.inj hwords
      obtain ⟨rfl, rfl⟩ := ihblock hblock
      obtain ⟨rfl, rfl⟩ := ih hrest
      exact ⟨rfl, rfl⟩

/-- Complete directives are the only ones that the parser gets to. -/
theorem Conf.not_meets (h : Conf ctx text ts out) (hP : ∀ name args, name ≠ str "include" → ¬ P (name :: args)) :
    ¬ Meets P text := by
  induction h with
  | ending h =>
    intro hmeets
    cases hmeets with
    | here h' hst _ =>
      rw [← (h.unique h').2.1] at hst
      exact hst.elim (ending_ne _).1 (ending_ne _).2
    | behind h' => exact absurd (h.unique h').2.1 (ending_ne _).1
    | inside h' => exact absurd (h.unique h').2.1 (ending_ne _).2
    | behindBlock h' => exact absurd (h.unique h').2.1 (ending_ne _).2
  | entire h hname _ ih =>
    intro hmeets
    cases hmeets with
    | here h' _ hP' => exact hP _ _ hname ((h.unique h').1 ▸ hP')
    | behind h' _ hrest => exact ih ((h.unique h').2.2 ▸ hrest)
    | inside h' => exact absurd (h.unique h').2.1 (by simp)
    | behindBlock h' => exact absurd (h.unique h').2.1 (by simp)
  | block h hname hblock _ ihblock ih =>
    intro hmeets
    cases hmeets with
    | here h' _ hP' => exact hP _ _ hname ((h.unique h').1 ▸ hP')
    | behind h' => exact absurd (h.unique h').2.1 (by simp)
    | inside h' _ hrest => exact ihblock ((h.unique h').2.2 ▸ hrest)
    | behindBlock h' _ hblock' hrest =>
      obtain rfl := (h.unique h').2.2
      exact ih ((hblock.unique hblock').2 ▸ hrest)

/-! ## One token -/

theorem parseConf_ending (h : readToken b = .done tok) (hst : tok.state = ctx.ending) :
    parseConf conf (n + 1) ctx confLine b = .done ([], tok.buffer) := by
  unfold parseConf
  rw [h, Outcome.bind_done]
  cases ctx with
  | file =>
    have hst : tok.state = .eof := hst
    rw [if_neg (by simp [hst]), if_pos hst, if_pos (by decide)]
  | block =>
    have hst : tok.state = .blockEnd := hst
    rw [if_pos hst, if_pos rfl]

/-- The words of a directive are those of the token. -/
theorem parseConf_token (h : readToken b = .done tok) (hst : tok.state = .entire ∨ tok.state = .blockStart) :
    parseConf conf (n + 1) ctx confLine b =
      match tok.args with
      | [] => .fault .outOfRange
      | name :: args =>
          if name ≠ str "include" then
            (if tok.state = .blockStart then parseConf conf n .block tok.lineStart tok.buffer
              else .done ([], tok.buffer)).bind fun block =>
            (parseConf conf n ctx confLine block.2).bind fun more =>
            .done (⟨tok.lineStart, name, args, block.1⟩ :: more.1, more.2)
          else
            (parseInclude conf tok.buffer.line (parseConf conf n .file confLine) args).bind
              fun included =>
            (parseConf conf n ctx confLine tok.buffer).bind fun more =>
            .done (included ++ more.1, more.2) := by
  conv_lhs => unfold parseConf
  rw [h, Outcome.bind_done]
  rcases hst with hst | hst
  · rw [if_neg (by simp [hst]), if_neg (by simp [hst])]
  · rw [if_neg (by simp [hst]), if_neg (by simp [hst])]

theorem parseConf_directive (h : readToken b = .done tok) (hst : tok.state = .entire)
    (hargs : tok.args = name :: args) (hname : name ≠ str "include") :
    parseConf conf (n + 1) ctx confLine b = (parseConf conf n ctx confLine tok.buffer).bind fun more =>
      .done (⟨tok.lineStart, name, args, []⟩ :: more.1, more.2) := by
  rw [parseConf_token h (Or.inl hst), hargs]
  simp only [if_pos hname]
  rw [if_neg (by simp [hst]), Outcome.bind_done]

theorem parseConf_block (h : readToken b = .done tok) (hst : tok.state = .blockStart)
    (hargs : tok.args = name :: args) (hname : name ≠ str "include") :
    parseConf conf (n + 1) ctx confLine b =
      (parseConf conf n .block tok.lineStart tok.buffer).bind fun block =>
      (parseConf conf n ctx confLine block.2).bind fun more =>
      .done (⟨tok.lineStart, name, args, block.1⟩ :: more.1, more.2) := by
  rw [parseConf_token h (Or.inr hst), hargs]
  simp only [if_pos hname]
  rw [if_pos hst]

theorem parseConf_empty (h : readToken b = .done tok) (hst : tok.state = .entire ∨ tok.state = .blockStart)
    (hargs : tok.args = []) : parseConf conf (n + 1) ctx confLine b = .fault .outOfRange := by
  rw [parseConf_token h hst, hargs]

/-! ## What stands in the text is parsed -/

/-- Complete directives are parsed to their trees. -/
theorem parseConf_of_conf (conf : Option Files) (confLine : Nat) (h : Conf ctx text ts out)
    (hrest : b.rest = text) (hb : b.Inside)
    (hn : text.length < n) :
    ∃ ds b', parseConf conf n ctx confLine b = .done (ds, b') ∧ trees ds = ts ∧ b'.rest = out ∧
      b'.Inside := by
  induction h generalizing n confLine b with
  | ending h =>
    obtain ⟨n, rfl⟩ : ∃ k, n = k + 1 := ⟨n - 1, by omega⟩
    obtain ⟨tok, htok, -, hst, hout, hin⟩ := readToken_of_reads hb (hrest ▸ h)
    exact ⟨[], tok.buffer, parseConf_ending htok hst, rfl, hout, hin⟩
  | @entire _ _ _ _ rest _ _ h hname _ ih =>
    obtain ⟨n, rfl⟩ : ∃ k, n = k + 1 := ⟨n - 1, by omega⟩
    obtain ⟨tok, htok, hargs, hst, hout, hin⟩ := readToken_of_reads hb (hrest ▸ h)
    have hlen := h.shorter (by simp)
    have hn' : rest.length < n := by omega
    obtain ⟨ds, b', hmore, hts, hout', hin'⟩ := ih confLine hout hin hn'
    refine ⟨_, b', by rw [parseConf_directive htok hst hargs hname, hmore]; rfl, ?_, hout', hin'⟩
    unfold trees SrsConfDirective.tree
    rw [hts]
    rfl
  | @block _ _ _ _ rest _ rest' _ _ h hname hblock _ ihblock ih =>
    obtain ⟨n, rfl⟩ : ∃ k, n = k + 1 := ⟨n - 1, by omega⟩
    obtain ⟨tok, htok, hargs, hst, hout, hin⟩ := readToken_of_reads hb (hrest ▸ h)
    have hlen := h.shorter (by simp)
    have hlen' := hblock.suffix.length_le
    have hn' : rest.length < n := by omega
    have hn'' : rest'.length < n := by omega
    obtain ⟨cs, b₁, hcs, hts₁, hout₁, hin₁⟩ := ihblock tok.lineStart hout hin hn'
    obtain ⟨ds, b', hmore, hts, hout', hin'⟩ := ih confLine hout₁ hin₁ hn''
    refine ⟨_, b', by rw [parseConf_block htok hst hargs hname, hcs, Outcome.bind_done, hmore]; rfl, ?_,
      hout', hin'⟩
    unfold trees SrsConfDirective.tree
    rw [hts, hts₁]

/-- At a directive without words, `args.at(0)` throws. -/
theorem parseConf_of_meets (h : Meets (· = []) text) (hrest : b.rest = text) (hb : b.Inside)
    (hn : text.length < n) : parseConf conf n ctx confLine b = .fault .outOfRange := by
  induction h generalizing n ctx confLine b with
  | here h hst hP =>
    obtain ⟨n, rfl⟩ : ∃ k, n = k + 1 := ⟨n - 1, by omega⟩
    obtain ⟨tok, htok, hargs, hst', -, -⟩ := readToken_of_reads hb (hrest ▸ h)
    exact parseConf_empty htok (hst' ▸ hst) (hargs.trans hP)
  | behind h hname _ ih =>
    obtain ⟨n, rfl⟩ : ∃ k, n = k + 1 := ⟨n - 1, by omega⟩
    obtain ⟨tok, htok, hargs, hst, hout, hin⟩ := readToken_of_reads hb (hrest ▸ h)
    have hlen := h.shorter (by simp)
    rw [parseConf_directive htok hst hargs hname, ih hout hin (by omega)]
    rfl
  | inside h hname _ ih =>
    obtain ⟨n, rfl⟩ : ∃ k, n = k + 1 := ⟨n - 1, by omega⟩
    obtain ⟨tok, htok, hargs, hst, hout, hin⟩ := readToken_of_reads hb (hrest ▸ h)
    have hlen := h.shorter (by simp)
    rw [parseConf_block htok hst hargs hname, ih hout hin (by omega)]
    rfl
  | behindBlock h hname hblock _ ih =>
    obtain ⟨n, rfl⟩ : ∃ k, n = k + 1 := ⟨n - 1, by omega⟩
    obtain ⟨tok, htok, hargs, hst, hout, hin⟩ := readToken_of_reads hb (hrest ▸ h)
    have hlen := h.shorter (by simp)
    have hlen' := hblock.suffix.length_le
    obtain ⟨cs, b₁, hcs, -, hout₁, hin₁⟩ :=
      parseConf_of_conf conf tok.lineStart hblock hout hin (n := n) (by omega)
    rw [parseConf_block htok hst hargs hname, hcs, Outcome.bind_done, ih hout₁ hin₁ (by omega)]
    rfl

/-! ## What is parsed stands in the text -/

/-- The text includes nothing, as far as the parser gets. -/
def NoInclude (text : Bytes) : Prop := ¬ Meets (fun args => args.head? = some (str "include")) text

/-- What a call of `parse_conf` comes to, unless it gets to a directive without words. -/
def Classified (ctx : SrsDirectiveContext) (b : SrsConfigBuffer)
    (x : Outcome ConfError (List SrsConfDirective × SrsConfigBuffer)) : Prop :=
  (∃ ds b', x = .done (ds, b') ∧ Conf ctx b.rest (trees ds) b'.rest ∧ b'.Inside) ∨
    (∃ e, x = .failed e) ∨ Meets (· = []) b.rest

theorem classified_ending (h : readToken b = .done tok)
    (hread : Reads [] b.rest tok.args tok.state tok.buffer.rest) (hin : tok.buffer.Inside)
    (hst : tok.state = .eof ∨ tok.state = .blockEnd) (hargs : tok.args = []) :
    Classified ctx b (parseConf conf (n + 1) ctx confLine b) := by
  by_cases hctx : tok.state = ctx.ending
  · rw [hargs, hctx] at hread
    exact Or.inl ⟨[], tok.buffer, parseConf_ending h hctx, .ending hread, hin⟩
  · refine Or.inr (Or.inl ?_)
    unfold parseConf
    rw [h, Outcome.bind_done]
    rcases hst with hst | hst
    · rw [if_neg (by simp [hst]), if_pos hst]
      cases ctx with
      | file => exact absurd hst hctx
      | block => exact ⟨_, rfl⟩
    · rw [if_pos hst]
      cases ctx with
      | file => exact ⟨_, rfl⟩
      | block => exact absurd hst hctx

/-- A directive with a name that is no `include`, in front of what is classified. -/
theorem classified_directive (h : readToken b = .done tok) (hst : tok.state = .entire)
    (hargs : tok.args = name :: args) (hname : name ≠ str "include")
    (hread : Reads [] b.rest (name :: args) .entire tok.buffer.rest)
    (ih : Classified ctx tok.buffer (parseConf conf n ctx confLine tok.buffer)) :
    Classified ctx b (parseConf conf (n + 1) ctx confLine b) := by
  rw [parseConf_directive h hst hargs hname]
  rcases ih with ⟨ds, b', hds, hconf, hin⟩ | ⟨e, he⟩ | hmeets
  · refine Or.inl ⟨_, b', by rw [hds]; rfl, ?_, hin⟩
    unfold trees SrsConfDirective.tree
    exact .entire hread hname hconf
  · exact Or.inr (Or.inl ⟨e, by rw [he]; rfl⟩)
  · exact Or.inr (Or.inr (.behind hread hname hmeets))

/-- A block, in front of what is classified when the block is. -/
theorem classified_block (h : readToken b = .done tok) (hst : tok.state = .blockStart)
    (hargs : tok.args = name :: args) (hname : name ≠ str "include")
    (hread : Reads [] b.rest (name :: args) .blockStart tok.buffer.rest)
    (ihblock : Classified .block tok.buffer (parseConf conf n .block tok.lineStart tok.buffer))
    (ih : ∀ cs b₁, Conf .block tok.buffer.rest cs b₁.rest → b₁.Inside →
      Classified ctx b₁ (parseConf conf n ctx confLine b₁)) :
    Classified ctx b (parseConf conf (n + 1) ctx confLine b) := by
  rw [parseConf_block h hst hargs hname]
  rcases ihblock with ⟨cs, b₁, hcs, hblock, hin₁⟩ | ⟨e, he⟩ | hmeets
  · rw [hcs, Outcome.bind_done]
    rcases ih (trees cs) b₁ hblock hin₁ with ⟨ds, b', hds, hconf, hin⟩ | ⟨e, he⟩ | hmeets
    · refine Or.inl ⟨_, b', by rw [hds]; rfl, ?_, hin⟩
      unfold trees SrsConfDirective.tree
      exact .block hread hname hblock hconf
    · exact Or.inr (Or.inl ⟨e, by rw [he]; rfl⟩)
    · exact Or.inr (Or.inr (.behindBlock hread hname hblock hmeets))
  · exact Or.inr (Or.inl ⟨e, by rw [he]; rfl⟩)
  · exact Or.inr (Or.inr (.inside hread hname hmeets))

/-- Every call is of one of these kinds, with fuel for the bytes that are left. -/
theorem parseConf_classified (hinc : NoInclude b.rest) (hb : b.Inside) (hn : b.rest.length < n) :
    Classified ctx b (parseConf conf n ctx confLine b) := by
  induction n generalizing ctx confLine b with
  | zero => exact absurd hn (Nat.not_lt_zero _)
  | succ n ih =>
    rcases readToken_returns hb with ⟨tok, htok, hread, hin⟩ | ⟨e, he⟩
    · rcases hread.kind with hst | ⟨hst, hargs⟩
      · cases hargs : tok.args with
        | nil => exact Or.inr (Or.inr (.here hread hst hargs))
        | cons name args =>
          have hname : name ≠ str "include" := by
            intro hname
            exact hinc (.here hread hst (by simp [hargs, hname]))
          rw [hargs] at hread
          rcases hst with hst | hst
          · rw [hst] at hread
            have hlen := hread.shorter (by simp)
            refine classified_directive htok hst hargs hname hread (ih ?_ hin (by omega))
            exact fun hmeets => hinc (.behind hread hname hmeets)
          · rw [hst] at hread
            have hlen := hread.shorter (by simp)
            refine classified_block htok hst hargs hname hread (ih ?_ hin (by omega)) ?_
            · exact fun hmeets => hinc (.inside hread hname hmeets)
            · intro cs b₁ hblock hin₁
              have hlen' := hblock.suffix.length_le
              refine ih ?_ hin₁ (by omega)
              exact fun hmeets => hinc (.behindBlock hread hname hblock hmeets)
      · exact classified_ending htok hread hin hst hargs
    · refine Or.inr (Or.inl ⟨e, ?_⟩)
      unfold parseConf
      rw [he]
      rfl

/-! ## The whole file -/

@[simp] theorem fullfill_rest : (SrsConfigBuffer.fullfill text).rest = text := rfl

theorem fullfill_inside : (SrsConfigBuffer.fullfill text).Inside := Nat.zero_le _

/-- Directives that are complete and include nothing are parsed to their trees. -/
theorem parse_of_conf (conf : Option Files) (h : Conf .file text ts out) (hn : text.length < n) :
    ∃ ds, parse conf n text = .done ds ∧ trees ds = ts := by
  obtain ⟨ds, b', hds, hts, -, -⟩ :=
    parseConf_of_conf conf 0 h fullfill_rest fullfill_inside hn
  exact ⟨ds, by unfold parse; rw [hds]; rfl, hts⟩

/-- Directives with one tree. -/
theorem eq_of_trees_singleton {cs : List ConfTree} {ds : List SrsConfDirective}
    (h : trees ds = [⟨name, args, cs⟩]) :
    ∃ l ds', ds = [⟨l, name, args, ds'⟩] ∧ trees ds' = cs := by
  cases ds with
  | nil => cases h
  | cons d ds =>
    obtain ⟨hd, hds⟩ := List.cons.inj h
    cases ds with
    | nil =>
      obtain ⟨l, name', args', ds'⟩ := d
      obtain ⟨rfl, rfl, hcs⟩ := ConfTree.mk.inj hd
      exact ⟨l, ds', rfl, hcs⟩
    | cons d ds => cases hds

theorem eq_nil_of_trees {ds : List SrsConfDirective} (h : trees ds = []) : ds = [] := by
  cases ds with
  | nil => rfl
  | cons d ds => cases h

/-- A text of one directive. -/
theorem parse_one (conf : Option Files) (h : Reads [] text (name :: args) .entire [])
    (hname : name ≠ str "include")
    (hn : text.length < n) : ∃ l, parse conf n text = .done [⟨l, name, args, []⟩] := by
  obtain ⟨ds, hds, htrees⟩ := parse_of_conf conf
    (show Conf .file text _ [] from .entire h hname (.ending .eof)) hn
  obtain ⟨l, cs, rfl, hcs⟩ := eq_of_trees_singleton htrees
  obtain rfl := eq_nil_of_trees hcs
  exact ⟨l, hds⟩

/-- A text that includes nothing is parsed, or an error is returned, and what is parsed consists of
complete directives with balanced braces: exactly if the parser gets to no directive without words. -/
theorem parse_returns_iff (hinc : NoInclude text) (hn : text.length < n) :
    ((parse conf n text).Returns ∧ ∀ ds, parse conf n text = .done ds → Conf .file text (trees ds) []) ↔
      ¬ Meets (· = []) text := by
  have hclass : Classified .file (.fullfill text) (parseConf conf n .file 0 (.fullfill text)) :=
    parseConf_classified hinc fullfill_inside hn
  constructor
  · rintro ⟨hret, -⟩ hmeets
    unfold parse at hret
    rw [parseConf_of_meets hmeets fullfill_rest fullfill_inside hn] at hret
    exact hret
  · intro hmeets
    unfold parse
    rcases hclass with ⟨ds, b', hds, hconf, hin⟩ | ⟨e, he⟩ | h
    · rw [hds, Outcome.bind_done]
      refine ⟨trivial, fun ds' hds' => ?_⟩
      cases hds'
      exact hconf.file_nil rfl ▸ hconf
    · rw [he, Outcome.bind_failed]
      exact ⟨trivial, fun ds' hds' => by cases hds'⟩
    · exact absurd h hmeets

/-- Nothing stands behind the last directive. -/
theorem not_meets_last {st : SrsDirectiveState} (h : Reads [] text args st [])
    (hP : ¬ P args) : ¬ Meets P text := by
  have hnil : ¬ Meets P [] := by
    intro hmeets
    cases hmeets with
    | here h hst _ => rcases hst with rfl | rfl <;> exact absurd (h.shorter (by simp)) (by simp)
    | behind h _ _ => exact absurd (h.shorter (by simp)) (by simp)
    | inside h _ _ => exact absurd (h.shorter (by simp)) (by simp)
    | behindBlock h _ _ _ => exact absurd (h.shorter (by simp)) (by simp)
  intro hmeets
  cases hmeets with
  | here h' _ hP' => exact hP ((h.unique h').1 ▸ hP')
  | behind h' _ hrest => exact hnil ((h.unique h').2.2 ▸ hrest)
  | inside h' _ hrest => exact hnil ((h.unique h').2.2 ▸ hrest)
  | behindBlock h' _ hblock hrest =>
    obtain rfl := (h.unique h').2.2
    have : [] = _ := (List.suffix_nil.1 hblock.suffix).symm
    exact hnil (this ▸ hrest)

/-- `"";` -/
theorem reads_empty_word : Reads [] (str "\"\";") [] .entire [] :=
  .lastWord (w := []) (t := [DQUOTE, DQUOTE]) (.quoted (q := DQUOTE) (Or.inl rfl) (by simp))

/-- Blocks, quotes and a comment. -/
def nestedText : Bytes := str "vhost \"a b\" \x7b\n# c;\nhttp \x7blisten '80';\x7d\x7d"

theorem conf_nestedText : Conf .file nestedText
    [⟨str "vhost", [str "a b"], [⟨str "http", [], [⟨str "listen", [str "80"], []⟩]⟩]⟩] [] := by
  have hlisten : Reads [] (str "listen '80';\x7d\x7d") [str "listen", str "80"] .entire (str "\x7d\x7d") :=
    .word (w := str "listen") (t := str "listen") (.known (by decide) rfl) (by decide)
      (.lastWord (w := str "80") (t := str "'80'") (.quoted (q := SQUOTE) (Or.inr rfl) (by decide)))
  have hcomment : LF ∉ str " c;" := by decide
  have hhttp : Reads [] (str "\n# c;\nhttp \x7blisten '80';\x7d\x7d") [str "http"] .blockStart
      (str "listen '80';\x7d\x7d") :=
    .space (by decide) (.comment hcomment
      (.word (w := str "http") (t := str "http") (.known (by decide) rfl) (by decide)
        (.blockStart (by decide))))
  have hvhost : Reads [] nestedText [str "vhost", str "a b"] .blockStart
      (str "\n# c;\nhttp \x7blisten '80';\x7d\x7d") :=
    .word (w := str "vhost") (t := str "vhost") (.known (by decide) rfl) (by decide)
      (.word (w := str "a b") (t := str "\"a b\"") (.quoted (q := DQUOTE) (Or.inl rfl) (by decide)) (by decide)
        (.blockStart (by decide)))
  have hinner : Conf .block (str "listen '80';\x7d\x7d") [⟨str "listen", [str "80"], []⟩] (str "\x7d") :=
    .entire hlisten (by decide) (.ending .blockEnd)
  exact .block hvhost (by decide) (.block hhttp (by decide) hinner (.ending .blockEnd)) (.ending .eof)

theorem parse_returns_iff_nested :
    ((parse none 50 nestedText).Returns ∧
      ∀ ds, parse none 50 nestedText = .done ds → Conf .file nestedText (trees ds) []) ∧
    ¬ ((parse none 4 (str "\"\";")).Returns ∧
      ∀ ds, parse none 4 (str "\"\";") = .done ds → Conf .file (str "\"\";") (trees ds) []) := by
  constructor
  · rw [parse_returns_iff (conf_nestedText.not_meets (by simp)) (by decide)]
    exact conf_nestedText.not_meets (by simp)
  · rw [parse_returns_iff (not_meets_last reads_empty_word (by simp)) (by decide)]
    exact not_not.2 (.here reads_empty_word (Or.inl rfl) rfl)

/-- An empty word in quotes, and a semicolon. -/
theorem empty_word_throws :
    NoInclude (str "\"\";") ∧ parse none 4 (str "\"\";") = .fault .outOfRange :=
  ⟨not_meets_last reads_empty_word (by simp), rfl⟩

end HttpProxy
