import HttpProxy.Config.Parse

/-!
# Textual inclusion

`src/app/srs_app_config.cpp`, lines 624-692 and 1131-1143: an `include` parses each of its files with a
buffer of its own.

* `expandIncludes` — the text in which what the files contain stands in the place of the `include`
  statements.
* `Skipped` — what may stand in front of a token; what ends a file is skipped when a line break follows.
* `ConfIn` — complete directives, when what they include stands in files.
* `parsesTo_iff` — a text is parsed to what stands in it and in the files it includes.
-/

namespace HttpProxy

/-! ## The expanded text -/

/-- What is left behind spaces and comments; the flag says that a comment goes on. -/
def skipBlank : Bool → Bytes → Bytes
  | _, [] => []
  | true, ch :: text => skipBlank (ch ≠ LF) text
  | false, ch :: text =>
      if isCommonSpace ch then skipBlank false text
      else if ch = SHARP then skipBlank true text
      else ch :: text

/-- The bytes of `text` in front of a suffix. -/
def before (text rest : Bytes) : Bytes := text.take (text.length - rest.length)

/-- What the files contain, in order, each followed by a line break. -/
def expandFiles (files : Files) (expand : Bytes → Option Bytes) : List Bytes → Option Bytes
  | [] => some []
  | name :: names =>
      (files name).bind fun text =>
      (expand text).bind fun text' =>
      (expandFiles files expand names).bind fun contents => some (text' ++ LF :: contents)

/-- `include a b ...;` -/
def IsIncludeStatement (args : List Bytes) (state : SrsDirectiveState) : Prop :=
  state = .entire ∧ args.head? = some (str "include") ∧ args.tail ≠ []

instance (args : List Bytes) (state : SrsDirectiveState) : Decidable (IsIncludeStatement args state) := by
  unfold IsIncludeStatement
  infer_instance

/-- The text in which every statement `include a b ...;`, in or outside of a block, is replaced by what its
files contain, which is expanded itself.  There is none when a file is not there, or the fuel for the
statements and the files is used up.  Behind an error the text stays as it is. -/
def expandIncludes (files : Files) : Nat → Bytes → Option Bytes
  | 0, _ => none
  | n + 1, text =>
      match scan .space [] 0 1 text with
      | .done tok =>
          if tok.state = .eof then some text
          else
            (expandIncludes files n tok.rest).bind fun rest =>
            if IsIncludeStatement tok.args tok.state then
              (expandFiles files (expandIncludes files n) tok.args.tail).bind fun contents =>
              some (before text (skipBlank false text) ++ (contents ++ rest))
            else some (before text tok.rest ++ rest)
      | _ => some text

/-- A statement of the text includes this file. -/
inductive IncludesFile : Bytes → Bytes → Prop
  | here {text args st rest name} (h : Reads [] text args st rest) (hst : IsIncludeStatement args st)
      (hname : name ∈ args.tail) : IncludesFile text name
  | behind {text args st rest name} (h : Reads [] text args st rest) (hst : st ≠ .eof)
      (hrest : IncludesFile rest name) : IncludesFile text name

/-- The text goes on with these directives, each complete, up to the end of the file or the block.  In the
place of an `include` stand the directives of its files. -/
inductive ConfIn (files : Files) : SrsDirectiveContext → Bytes → List ConfTree → Bytes → Prop
  | ending {ctx text out} (h : Reads [] text [] ctx.ending out) : ConfIn files ctx text [] out
  | entire {ctx text name args rest ts out} (h : Reads [] text (name :: args) .entire rest)
      (hname : name ≠ str "include") (hrest : ConfIn files ctx rest ts out) :
      ConfIn files ctx text (⟨name, args, []⟩ :: ts) out
  | block {ctx text name args rest cs rest' ts out}
      (h : Reads [] text (name :: args) .blockStart rest) (hname : name ≠ str "include")
      (hblock : ConfIn files .block rest cs rest') (hrest : ConfIn files ctx rest' ts out) :
      ConfIn files ctx text (⟨name, args, cs⟩ :: ts) out
  | included {ctx text names st rest ts out} {texts : Bytes → Bytes} {trees : Bytes → List ConfTree}
      (h : Reads [] text (str "include" :: names) st rest) (hst : st = .entire ∨ st = .blockStart)
      (hnames : names ≠ []) (hfile : ∀ name ∈ names, files name = some (texts name) ∧ texts name ≠ [])
      (hparsed : ∀ name ∈ names, ConfIn files .file (texts name) (trees name) [])
      (hrest : ConfIn files ctx rest ts out) : ConfIn files ctx text (names.flatMap trees ++ ts) out

variable {files : Files} {ctx : SrsDirectiveContext} {args args' names : List Bytes} {name : Bytes}
  {st : SrsDirectiveState} {text text' rest rest' out out' lead X Y : Bytes} {ts ts' : List ConfTree}
  {n m : Nat}

/-! ## Tokens do not depend on what is behind them -/

/-- A token that is not the end of the file, with other bytes behind it. -/
theorem Reads.local (h : Reads args text args' st rest) (hst : st ≠ .eof) :
    ∃ used, text = used ++ rest ∧ ∀ rest', Reads args (used ++ rest') args' st rest' := by
  induction h with
  | @space _ ch _ _ _ _ hch _ ih =>
    obtain ⟨used, rfl, hread⟩ := ih hst
    exact ⟨ch :: used, rfl, fun rest' => .space hch (hread rest')⟩
  | @comment _ body _ _ _ _ hbody _ ih =>
    obtain ⟨used, rfl, hread⟩ := ih hst
    refine ⟨SHARP :: (body ++ LF :: used), by simp, fun rest' => ?_⟩
    have := Reads.comment hbody (hread rest')
    simpa using this
  | @word _ _ t ch _ _ _ _ hw hch _ ih =>
    obtain ⟨used, rfl, hread⟩ := ih hst
    refine ⟨t ++ ch :: used, by simp, fun rest' => ?_⟩
    have := Reads.word hw hch (hread rest')
    simpa using this
  | @lastWord _ _ t _ hw =>
    refine ⟨t ++ [SEMICOLON], by simp, fun rest' => ?_⟩
    rw [List.append_assoc]
    exact .lastWord hw
  | @lastWordBlock _ _ t _ hw =>
    refine ⟨t ++ [LBRACE], by simp, fun rest' => ?_⟩
    rw [List.append_assoc]
    exact .lastWordBlock hw
  | entire hargs => exact ⟨[SEMICOLON], rfl, fun _ => .entire hargs⟩
  | blockStart hargs => exact ⟨[LBRACE], rfl, fun _ => .blockStart hargs⟩
  | blockEnd => exact ⟨[RBRACE], rfl, fun _ => .blockEnd⟩
  | eof => exact absurd rfl hst
  | eofComment _ => exact absurd rfl hst

theorem Reads.append (h : Reads args text args' st rest) (hst : st ≠ .eof) (X : Bytes) :
    Reads args (text ++ X) args' st (rest ++ X) := by
  obtain ⟨used, rfl, hread⟩ := h.local hst
  rw [List.append_assoc]
  exact hread _

/-- Bytes that a token may start with, and that do not count. -/
def Skipped (lead : Bytes) : Prop := ∀ X, Passes .space [] (lead ++ X) .space [] X

theorem reads_skipped (h : Skipped lead) (hread : Reads [] X args st out) : Reads [] (lead ++ X) args st out := by
  obtain ⟨ls, line, hscan⟩ := (h X).ends (ends_of_reads hread) 0 1
  exact resumes_of_scan hscan

theorem reads_of_skipped (h : Skipped lead) (hread : Reads [] (lead ++ X) args st out) :
    Reads [] X args st out := by
  obtain ⟨ls, line, hscan⟩ := ends_of_reads hread 0 1
  obtain ⟨ls', line', hpass⟩ := h X 0 1
  exact resumes_of_scan (hpass.symm.trans hscan)

/-- What ends a file is skipped when a line break follows. -/
theorem eof_passes (h : Reads args text args' st out) (hargs : args' = []) (hst : st = .eof) :
    args = [] ∧ ∀ X, Passes .space [] (text ++ LF :: X) .space [] X := by
  induction h with
  | space hch _ ih =>
    obtain ⟨rfl, hpass⟩ := ih hargs hst
    exact ⟨rfl, fun X => (space_passes hch).trans (hpass X)⟩
  | comment hbody _ ih =>
    obtain ⟨rfl, hpass⟩ := ih hargs hst
    refine ⟨rfl, fun X => ?_⟩
    rw [List.cons_append, List.append_assoc]
    exact sharp_passes.trans ((comment_passes hbody).trans (hpass X))
  | @word args w t ch rest _ _ _ hw hch _ ih =>
    obtain ⟨hpush, hpass⟩ := ih hargs hst
    -- a word that does not count, such as an empty one in quotes
    have hword : cString w = [] := by
      by_contra hne
      unfold Scan.push at hpush
      rw [if_neg hne] at hpush
      exact absurd hpush (by simp)
    unfold Scan.push at hpush
    rw [if_pos hword] at hpush
    subst hpush
    refine ⟨rfl, fun X => ?_⟩
    have hspelled : Passes .space [] (t ++ ch :: (rest ++ LF :: X)) .afterQuote (Scan.push [] (cString w))
        (ch :: (rest ++ LF :: X)) := spelled_passes hw (Or.inl hch)
    rw [Scan.push, if_pos hword] at hspelled
    rw [List.append_assoc]
    exact hspelled.trans ((afterQuote_passes hch).trans (hpass X))
  | lastWord _ => cases hst
  | lastWordBlock _ => cases hst
  | entire _ => cases hst
  | blockStart _ => cases hst
  | blockEnd => cases hst
  | eof => exact ⟨rfl, fun X => space_passes (by decide)⟩
  | eofComment hbody => exact ⟨rfl, fun X => sharp_passes.trans (comment_passes hbody)⟩

theorem skipped_of_eof (h : Reads [] text [] .eof out) : Skipped (text ++ [LF]) := by
  intro X
  rw [List.append_assoc]
  exact (eof_passes h rfl rfl).2 X

/-! ## What is skipped in front of a token -/

theorem before_append (used rest : Bytes) : before (used ++ rest) rest = used := by
  unfold before
  rw [List.length_append, Nat.add_sub_cancel, List.take_left]

theorem skipBlank_comment {body : Bytes} (hbody : LF ∉ body) (X : Bytes) :
    skipBlank true (body ++ LF :: X) = skipBlank false X := by
  induction body with
  | nil => rfl
  | cons ch body ih =>
    rw [List.mem_cons, not_or] at hbody
    rw [List.cons_append, skipBlank, decide_eq_true (Ne.symm hbody.1)]
    exact ih hbody.2

theorem skipBlank_stops {ch : Byte} (hsp : isCommonSpace ch = false) (hsharp : ch ≠ SHARP) (X : Bytes) :
    skipBlank false (ch :: X) = ch :: X := by
  rw [skipBlank, if_neg (by simp [hsp]), if_neg hsharp]

theorem skipBlank_spelled {w t : Bytes} (hw : Spelled w t) (X : Bytes) :
    skipBlank false (t ++ X) = t ++ X := by
  cases hw with
  | plain hch _ => exact skipBlank_stops hch.1 (fun hsharp => hch.2 (by simp [hsharp])) _
  | quoted hq _ =>
    rcases hq with rfl | rfl
    · exact skipBlank_stops (by decide) (by decide) _
    · exact skipBlank_stops (by decide) (by decide) _

theorem skipped_nil : Skipped [] := fun _ ls line => ⟨ls, line, rfl⟩

/-- Spaces and comments in front of a token are skipped. -/
theorem skipped_skipBlank (h : Reads args text args' st out) (hst : st ≠ .eof) :
    ∃ lead, text = lead ++ skipBlank false text ∧ Skipped lead := by
  induction h with
  | @space _ ch rest _ _ _ hch _ ih =>
    obtain ⟨lead, heq, hskip⟩ := ih hst
    refine ⟨ch :: lead, ?_, fun X => (space_passes hch).trans (hskip X)⟩
    rw [skipBlank, if_pos hch, List.cons_append, ← heq]
  | @comment _ body rest _ _ _ hbody _ ih =>
    obtain ⟨lead, heq, hskip⟩ := ih hst
    refine ⟨SHARP :: (body ++ LF :: lead), ?_, fun X => ?_⟩
    · rw [skipBlank, if_neg (by decide), if_pos rfl, skipBlank_comment hbody]
      rw [List.cons_append, List.append_assoc, List.cons_append, ← heq]
    · rw [List.cons_append, List.append_assoc]
      exact sharp_passes.trans ((comment_passes hbody).trans (hskip X))
  | word hw _ _ _ => exact ⟨[], (skipBlank_spelled hw _).symm, skipped_nil⟩
  | lastWord hw => exact ⟨[], (skipBlank_spelled hw _).symm, skipped_nil⟩
  | lastWordBlock hw => exact ⟨[], (skipBlank_spelled hw _).symm, skipped_nil⟩
  | entire _ => exact ⟨[], (skipBlank_stops (by decide) (by decide) _).symm, skipped_nil⟩
  | blockStart _ => exact ⟨[], (skipBlank_stops (by decide) (by decide) _).symm, skipped_nil⟩
  | blockEnd => exact ⟨[], (skipBlank_stops (by decide) (by decide) _).symm, skipped_nil⟩
  | eof => exact absurd rfl hst
  | eofComment _ => exact absurd rfl hst

theorem skipped_before (h : Reads [] text args st rest) (hst : st ≠ .eof) :
    Skipped (before text (skipBlank false text)) := by
  obtain ⟨lead, heq, hskip⟩ := skipped_skipBlank h hst
  generalize skipBlank false text = stop at heq
  subst heq
  rw [before_append]
  exact hskip

/-! ## One round of the expansion -/

/-- A text has a token, or only what may stand in front of one. -/
theorem ends_or_reads (text : Bytes) :
    (∀ args st rest, Reads [] text args st rest → st = .eof) ∨
      ∃ args st rest, Reads [] text args st rest ∧ st ≠ .eof := by
  refine or_iff_not_imp_right.2 fun hnone args st rest hread => ?_
  by_contra hst
  exact hnone ⟨args, st, rest, hread, hst⟩

theorem expand_pos (h : expandIncludes files n text = some text') : ∃ k, n = k + 1 := by
  cases n with
  | zero => cases h
  | succ k => exact ⟨k, rfl⟩

theorem expand_stop (h : ∀ args st rest, Reads [] text args st rest → st = .eof) :
    expandIncludes files (n + 1) text = some text := by
  unfold expandIncludes
  split
  next tok htok =>
    exact if_pos (h _ _ _ (resumes_of_scan htok))
  next => rfl

theorem expand_token (h : Reads [] text args st rest) (hst : st ≠ .eof) :
    expandIncludes files (n + 1) text =
      (expandIncludes files n rest).bind fun rest' =>
      if IsIncludeStatement args st then
        (expandFiles files (expandIncludes files n) args.tail).bind fun contents =>
        some (before text (skipBlank false text) ++ (contents ++ rest'))
      else some (before text rest ++ rest') := by
  obtain ⟨ls, line, hscan⟩ := ends_of_reads h 0 1
  conv_lhs => unfold expandIncludes
  rw [hscan]
  exact if_neg hst

/-- What the files expand to, one by one. -/
theorem expandFiles_some {expand : Bytes → Option Bytes} {contents : Bytes}
    (h : expandFiles files expand names = some contents) :
    ∃ texts' : Bytes → Bytes, contents = names.flatMap (fun name => texts' name ++ [LF]) ∧
      ∀ name ∈ names, ∃ text, files name = some text ∧ expand text = some (texts' name) := by
  obtain ⟨f, hf⟩ : ∃ f : Bytes → Bytes, ∀ name, f name = ((files name).bind expand).getD [] :=
    ⟨_, fun _ => rfl⟩
  refine ⟨f, ?_⟩
  induction names generalizing contents with
  | nil =>
    cases h
    exact ⟨rfl, fun name hname => absurd hname List.not_mem_nil⟩
  | cons name names ih =>
    unfold expandFiles at h
    obtain ⟨text, htext, h⟩ := Option.bind_eq_some_iff.1 h
    obtain ⟨text', htext', h⟩ := Option.bind_eq_some_iff.1 h
    obtain ⟨contents', hcontents, h⟩ := Option.bind_eq_some_iff.1 h
    cases h
    obtain ⟨heq, hall⟩ := ih hcontents
    have hhead : f name = text' := by rw [hf, htext, Option.bind_some, htext']; rfl
    refine ⟨?_, fun name' hname' => ?_⟩
    · rw [List.flatMap_cons, hhead, List.append_assoc, ← heq]
      rfl
    · rcases List.mem_cons.1 hname' with rfl | hname'
      · exact ⟨text, htext, by rw [hhead, htext']⟩
      · exact hall name' hname'

theorem expandFiles_mono {expand expand' : Bytes → Option Bytes}
    (h : ∀ t t', expand t = some t' → expand' t = some t') {contents : Bytes}
    (hc : expandFiles files expand names = some contents) :
    expandFiles files expand' names = some contents := by
  induction names generalizing contents with
  | nil => exact hc
  | cons name names ih =>
    unfold expandFiles at hc ⊢
    obtain ⟨text, htext, hc⟩ := Option.bind_eq_some_iff.1 hc
    obtain ⟨text', htext', hc⟩ := Option.bind_eq_some_iff.1 hc
    obtain ⟨contents', hcontents, hc⟩ := Option.bind_eq_some_iff.1 hc
    rw [htext, Option.bind_some, h _ _ htext', Option.bind_some, ih hcontents, Option.bind_some, hc]

/-- More fuel changes nothing. -/
theorem expand_mono (hnm : n ≤ m) (h : expandIncludes files n text = some text') :
    expandIncludes files m text = some text' := by
  induction n generalizing m text text' with
  | zero => cases h
  | succ n ih =>
    obtain ⟨m, rfl⟩ : ∃ k, m = k + 1 := ⟨m - 1, by omega⟩
    have ih : ∀ t t', expandIncludes files n t = some t' → expandIncludes files m t = some t' :=
      fun t t' => ih (by omega)
    rcases ends_or_reads text with hstop | ⟨args, st, rest, hread, hst⟩
    · rw [expand_stop hstop] at h ⊢
      exact h
    · rw [expand_token hread hst] at h ⊢
      obtain ⟨rest', hrest, h⟩ := Option.bind_eq_some_iff.1 h
      rw [ih _ _ hrest, Option.bind_some]
      by_cases hinc : IsIncludeStatement args st
      · rw [if_pos hinc] at h ⊢
        obtain ⟨contents, hcontents, h⟩ := Option.bind_eq_some_iff.1 h
        rw [expandFiles_mono ih hcontents, Option.bind_some, h]
      · rw [if_neg hinc] at h ⊢
        exact h

/-! ## Directives, with what they include -/

theorem trees_append (ds ds' : List SrsConfDirective) : trees (ds ++ ds') = trees ds ++ trees ds' := by
  rw [trees_eq_map, trees_eq_map, trees_eq_map, List.map_append]

/-- What holds from some number on for each of finitely many things holds from one number on for all. -/
theorem exists_bound {α : Type} {P : Nat → α → Prop} {l : List α} (h : ∀ x ∈ l, ∃ N, ∀ n ≥ N, P n x) :
    ∃ N, ∀ n ≥ N, ∀ x ∈ l, P n x := by
  induction l with
  | nil => exact ⟨0, fun n _ x hx => absurd hx List.not_mem_nil⟩
  | cons y l ih =>
    obtain ⟨N, hN⟩ := h y List.mem_cons_self
    obtain ⟨M, hM⟩ := ih fun x hx => h x (List.mem_cons_of_mem _ hx)
    refine ⟨max N M, fun n hn x hx => ?_⟩
    rcases List.mem_cons.1 hx with rfl | hx
    · exact hN n (by omega)
    · exact hM n (by omega) x hx

variable {b b' : SrsConfigBuffer} {tok : Token} {confLine : Nat} {ds : List SrsConfDirective}

theorem ConfIn.file_nil (h : ConfIn files ctx text ts out) (hctx : ctx = .file) : out = [] := by
  induction h with
  | ending h => exact h.eof_nil (by rw [hctx]; rfl)
  | entire _ _ _ ih => exact ih hctx
  | block _ _ _ _ _ ih => exact ih hctx
  | included _ _ _ _ _ _ _ ih => exact ih hctx

/-- An `include` in front of what follows it. -/
theorem parseConf_include (h : readToken b = .done tok) (hst : tok.state = .entire ∨ tok.state = .blockStart)
    (hargs : tok.args = str "include" :: names) :
    parseConf (some files) (n + 1) ctx confLine b =
      (parseInclude (some files) tok.buffer.line (parseConf (some files) n .file confLine) names).bind
        fun included =>
      (parseConf (some files) n ctx confLine tok.buffer).bind fun more =>
      .done (included ++ more.1, more.2) := by
  rw [parseConf_token h hst, hargs]
  exact if_neg (not_not.2 rfl)

/-- The loop over the files appends their directives. -/
theorem parseIncludes_of_parsed
    {parse : SrsConfigBuffer → Outcome ConfError (List SrsConfDirective × SrsConfigBuffer)}
    {texts : Bytes → Bytes} {tss : Bytes → List ConfTree}
    (hfile : ∀ name ∈ names, files name = some (texts name) ∧ texts name ≠ [])
    (hparse : ∀ name ∈ names, ∃ ds b', parse (.fullfill (texts name)) = .done (ds, b') ∧
      trees ds = tss name) :
    ∃ ds, parseIncludes files parse names = .done ds ∧ trees ds = names.flatMap tss := by
  induction names with
  | nil => exact ⟨[], rfl, rfl⟩
  | cons name names ih =>
    obtain ⟨hname, hne⟩ := hfile name List.mem_cons_self
    obtain ⟨ds, b', hds, hts⟩ := hparse name List.mem_cons_self
    obtain ⟨more, hmore, htsmore⟩ := ih (fun x hx => hfile x (List.mem_cons_of_mem _ hx))
      fun x hx => hparse x (List.mem_cons_of_mem _ hx)
    refine ⟨ds ++ more, ?_, ?_⟩
    · unfold parseIncludes
      rw [buildBuffer_of_file hname hne, Outcome.bind_done, hds, Outcome.bind_done, hmore]
      rfl
    · rw [trees_append, hts, htsmore, List.flatMap_cons]

/-- What the loop over the files appends comes from files that are parsed. -/
theorem parseIncludes_done
    {parse : SrsConfigBuffer → Outcome ConfError (List SrsConfDirective × SrsConfigBuffer)}
    (h : parseIncludes files parse names = .done ds) :
    ∃ (texts : Bytes → Bytes) (dss : Bytes → List SrsConfDirective), ds = names.flatMap dss ∧
      ∀ name ∈ names, (files name = some (texts name) ∧ texts name ≠ []) ∧
        ∃ b', parse (.fullfill (texts name)) = .done (dss name, b') := by
  obtain ⟨texts, htexts⟩ : ∃ texts : Bytes → Bytes, ∀ name, texts name = (files name).getD [] :=
    ⟨_, fun _ => rfl⟩
  obtain ⟨dss, hdss⟩ : ∃ dss : Bytes → List SrsConfDirective, ∀ name ds b',
      parse (.fullfill (texts name)) = .done (ds, b') → dss name = ds := by
    refine ⟨fun name => match parse (.fullfill (texts name)) with | .done r => r.1 | _ => [], ?_⟩
    intro name ds b' hparse
    simp only [hparse]
  refine ⟨texts, dss, ?_⟩
  induction names generalizing ds with
  | nil =>
    cases h
    exact ⟨rfl, fun name hname => absurd hname List.not_mem_nil⟩
  | cons name names ih =>
    unfold parseIncludes at h
    obtain ⟨buffer, hbuffer, h⟩ := Outcome.bind_eq_done.1 h
    obtain ⟨⟨first, b'⟩, hparse, h⟩ := Outcome.bind_eq_done.1 h
    obtain ⟨more, hmore, h⟩ := Outcome.bind_eq_done.1 h
    cases h
    obtain ⟨text, htext, hne, rfl⟩ := buildBuffer_done hbuffer
    obtain ⟨heq, hall⟩ := ih hmore
    have hname : texts name = text := by rw [htexts, htext]; rfl
    rw [← hname] at hparse hne htext
    have hfirst := hdss name first b' hparse
    refine ⟨by rw [List.flatMap_cons, hfirst, heq], fun name' hname' => ?_⟩
    rcases List.mem_cons.1 hname' with rfl | hname'
    · exact ⟨⟨htext, hne⟩, b', by rw [hfirst, hparse]⟩
    · exact hall name' hname'

/-- Directives that stand in the text, and in the files it includes, are parsed. -/
theorem parseConf_of_confIn (h : ConfIn files ctx text ts out) :
    ∃ N, ∀ n ≥ N, ∀ confLine b, SrsConfigBuffer.rest b = text → b.Inside →
      ∃ ds b', parseConf (some files) n ctx confLine b = .done (ds, b') ∧ trees ds = ts ∧ b'.rest = out ∧
        b'.Inside := by
  induction h with
  | ending h =>
    refine ⟨1, fun n hn confLine b hrest hb => ?_⟩
    obtain ⟨n, rfl⟩ : ∃ k, n = k + 1 := ⟨n - 1, by omega⟩
    obtain ⟨tok, htok, -, hst, hout, hin⟩ := readToken_of_reads hb (hrest ▸ h)
    exact ⟨[], tok.buffer, parseConf_ending htok hst, rfl, hout, hin⟩
  | entire h hname _ ih =>
    obtain ⟨N, hN⟩ := ih
    refine ⟨N + 1, fun n hn confLine b hrest hb => ?_⟩
    obtain ⟨n, rfl⟩ : ∃ k, n = k + 1 := ⟨n - 1, by omega⟩
    obtain ⟨tok, htok, hargs, hst, hout, hin⟩ := readToken_of_reads hb (hrest ▸ h)
    obtain ⟨ds, b', hmore, hts, hout', hin'⟩ := hN n (by omega) confLine tok.buffer hout hin
    refine ⟨_, b', by rw [parseConf_directive htok hst hargs hname, hmore]; rfl, ?_, hout', hin'⟩
    unfold trees SrsConfDirective.tree
    rw [hts]
    rfl
  | block h hname _ _ ihblock ih =>
    obtain ⟨N, hN⟩ := ihblock
    obtain ⟨M, hM⟩ := ih
    refine ⟨max N M + 1, fun n hn confLine b hrest hb => ?_⟩
    obtain ⟨n, rfl⟩ : ∃ k, n = k + 1 := ⟨n - 1, by omega⟩
    obtain ⟨tok, htok, hargs, hst, hout, hin⟩ := readToken_of_reads hb (hrest ▸ h)
    obtain ⟨cs, b₁, hcs, hts₁, hout₁, hin₁⟩ := hN n (by omega) tok.lineStart tok.buffer hout hin
    obtain ⟨ds, b', hmore, hts, hout', hin'⟩ := hM n (by omega) confLine b₁ hout₁ hin₁
    refine ⟨_, b', by rw [parseConf_block htok hst hargs hname, hcs, Outcome.bind_done, hmore]; rfl, ?_,
      hout', hin'⟩
    unfold trees SrsConfDirective.tree
    rw [hts, hts₁]
  | @included _ _ names _ _ _ _ texts tss h hst hnames hfile _ _ ihfile ih =>
    obtain ⟨N, hN⟩ := exists_bound (P := fun n name => ∀ confLine b, SrsConfigBuffer.rest b = texts name →
      b.Inside → ∃ ds b', parseConf (some files) n .file confLine b = .done (ds, b') ∧
        trees ds = tss name ∧ b'.rest = [] ∧ b'.Inside) ihfile
    obtain ⟨M, hM⟩ := ih
    refine ⟨max N M + 1, fun n hn confLine b hrest hb => ?_⟩
    obtain ⟨n, rfl⟩ : ∃ k, n = k + 1 := ⟨n - 1, by omega⟩
    obtain ⟨tok, htok, hargs, hst', hout, hin⟩ := readToken_of_reads hb (hrest ▸ h)
    have hparse : ∀ name ∈ names, ∃ ds b',
        parseConf (some files) n .file confLine (.fullfill (texts name)) = .done (ds, b') ∧
          trees ds = tss name := by
      intro name hname
      obtain ⟨ds, b', hds, hts, -, -⟩ := hN n (by omega) name hname confLine (.fullfill (texts name)) rfl
        fullfill_inside
      exact ⟨ds, b', hds, hts⟩
    obtain ⟨included, hincluded, hts₁⟩ := parseIncludes_of_parsed hfile hparse
    obtain ⟨ds, b', hmore, hts, hout', hin'⟩ := hM n (by omega) confLine tok.buffer hout hin
    refine ⟨included ++ ds, b', ?_, ?_, hout', hin'⟩
    · rw [parseConf_include htok (hst' ▸ hst) hargs, parseInclude, if_neg hnames]
      rw [hincluded, Outcome.bind_done, hmore]
      rfl
    · rw [trees_append, hts₁, hts]

/-- Directives that are parsed stand in the text, and in the files it includes. -/
theorem confIn_of_parseConf (h : parseConf (some files) n ctx confLine b = .done (ds, b')) (hb : b.Inside) :
    ConfIn files ctx b.rest (trees ds) b'.rest ∧ b'.Inside := by
  induction n generalizing ctx confLine b ds b' with
  | zero => cases h
  | succ n ih =>
    rcases readToken_returns hb with ⟨tok, htok, hread, hin⟩ | ⟨e, he⟩
    · rcases hread.kind with hst | ⟨hst, hargs⟩
      · cases hargs : tok.args with
        | nil =>
          rw [parseConf_empty htok hst hargs] at h
          cases h
        | cons name args =>
          rw [hargs] at hread
          by_cases hname : name = str "include"
          · subst hname
            rw [parseConf_include htok hst hargs] at h
            obtain ⟨included, hincluded, h⟩ := Outcome.bind_eq_done.1 h
            obtain ⟨⟨more, b₁⟩, hmore, h⟩ := Outcome.bind_eq_done.1 h
            cases h
            unfold parseInclude at hincluded
            by_cases hnil : args = []
            · rw [if_pos hnil] at hincluded
              cases hincluded
            rw [if_neg hnil] at hincluded
            obtain ⟨texts, dss, rfl, hall⟩ := parseIncludes_done hincluded
            obtain ⟨hconf, hin₁⟩ := ih hmore hin
            refine ⟨?_, hin₁⟩
            have hflat : trees (args.flatMap dss) = args.flatMap fun name => trees (dss name) := by
              rw [trees_eq_map, List.map_flatMap]
              simp only [trees_eq_map]
            rw [trees_append, hflat]
            refine .included hread hst hnil (fun name hname => (hall name hname).1) (fun name hname => ?_) hconf
            obtain ⟨-, b₂, hparse⟩ := hall name hname
            have hfile := (ih hparse fullfill_inside).1
            rwa [hfile.file_nil rfl] at hfile
          · rcases hst with hst | hst
            · rw [parseConf_directive htok hst hargs hname] at h
              obtain ⟨⟨more, b₁⟩, hmore, h⟩ := Outcome.bind_eq_done.1 h
              cases h
              obtain ⟨hconf, hin₁⟩ := ih hmore hin
              refine ⟨?_, hin₁⟩
              unfold trees SrsConfDirective.tree
              exact .entire (hst ▸ hread) hname hconf
            · rw [parseConf_block htok hst hargs hname] at h
              obtain ⟨⟨cs, b₁⟩, hcs, h⟩ := Outcome.bind_eq_done.1 h
              obtain ⟨⟨more, b₂⟩, hmore, h⟩ := Outcome.bind_eq_done.1 h
              cases h
              obtain ⟨hblock, hin₁⟩ := ih hcs hin
              obtain ⟨hconf, hin₂⟩ := ih hmore hin₁
              refine ⟨?_, hin₂⟩
              unfold trees SrsConfDirective.tree
              exact .block (hst ▸ hread) hname hblock hconf
      · by_cases hctx : tok.state = ctx.ending
        · rw [parseConf_ending htok hctx] at h
          cases h
          rw [hargs, hctx] at hread
          exact ⟨.ending hread, hin⟩
        · unfold parseConf at h
          rw [htok, Outcome.bind_done] at h
          rcases hst with hst | hst
          · rw [if_neg (by simp [hst]), if_pos hst] at h
            cases ctx with
            | file => exact absurd hst hctx
            | block => cases h
          · rw [if_pos hst] at h
            cases ctx with
            | file => cases h
            | block => exact absurd hst hctx
    · unfold parseConf at h
      rw [he] at h
      cases h

/-- What a text is parsed to, with some fuel. -/
def ParsesTo (files : Files) (text : Bytes) (ts : List ConfTree) : Prop :=
  ∃ n ds, parse (some files) n text = .done ds ∧ trees ds = ts

/-- A text is parsed to what stands in it and in the files it includes. -/
theorem parsesTo_iff : ParsesTo files text ts ↔ ConfIn files .file text ts [] := by
  constructor
  · rintro ⟨n, ds, hparse, rfl⟩
    unfold parse at hparse
    obtain ⟨⟨ds', b'⟩, hconf, h⟩ := Outcome.bind_eq_done.1 hparse
    cases h
    obtain ⟨h, -⟩ := confIn_of_parseConf hconf fullfill_inside
    rwa [h.file_nil rfl] at h
  · intro h
    obtain ⟨N, hN⟩ := parseConf_of_confIn h
    obtain ⟨ds, b', hds, hts, -, -⟩ := hN N (Nat.le_refl N) 0 (.fullfill text) rfl fullfill_inside
    exact ⟨N, ds, by unfold parse; rw [hds]; rfl, hts⟩

end HttpProxy
