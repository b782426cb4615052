import HttpProxy.Config.Include

/-!
# An included file is parsed like its text

* `ConfIn.append_file`, `confIn_of_append_file` — the directives of a file, followed by a line break and by
  other directives.
* `ConfIn.expand`, `confIn_of_expand` — the directives of a text and of the expanded one.
* `parse_expanded_iff` — the parser gives the same tree for both.
-/

namespace HttpProxy

variable {files : Files} {ctx : SrsDirectiveContext} {args names : List Bytes} {name : Bytes}
  {st : SrsDirectiveState} {text text' rest out out' lead X : Bytes} {ts ts' cs : List ConfTree}
  {n m : Nat}

/-! ## The first token of complete directives -/

theorem ConfIn.ending_inv (h : ConfIn files ctx text ts out) (hread : Reads [] text [] st rest) :
    st = ctx.ending ∧ ts = [] ∧ out = rest := by
  cases h with
  | ending h =>
    obtain ⟨-, hst', hout⟩ := hread.unique h
    exact ⟨hst', rfl, hout.symm⟩
  | entire h _ _ => cases (hread.unique h).1
  | block h _ _ _ => cases (hread.unique h).1
  | included h _ _ _ _ _ => cases (hread.unique h).1

theorem ConfIn.entire_inv (h : ConfIn files ctx text ts out)
    (hread : Reads [] text (name :: args) .entire rest) (hname : name ≠ str "include") :
    ∃ ts', ts = ⟨name, args, []⟩ :: ts' ∧ ConfIn files ctx rest ts' out := by
  cases h with
  | ending h => exact absurd (hread.unique h).2.1.symm (ending_ne ctx).1
  | entire h _ hrest =>
    obtain ⟨heq, -, rfl⟩ := hread.unique h
    cases heq
    exact ⟨_, rfl, hrest⟩
  | block h _ _ _ => cases (hread.unique h).2.1
  | included h _ _ _ _ _ => exact absurd (List.cons.inj (hread.unique h).1).1 hname

theorem ConfIn.block_inv (h : ConfIn files ctx text ts out)
    (hread : Reads [] text (name :: args) .blockStart rest) (hname : name ≠ str "include") :
    ∃ cs rest' ts', ts = ⟨name, args, cs⟩ :: ts' ∧ ConfIn files .block rest cs rest' ∧
      ConfIn files ctx rest' ts' out := by
  cases h with
  | ending h => exact absurd (hread.unique h).2.1.symm (ending_ne ctx).2
  | entire h _ _ => cases (hread.unique h).2.1
  | block h _ hblock hrest =>
    obtain ⟨heq, -, rfl⟩ := hread.unique h
    cases heq
    exact ⟨_, _, _, rfl, hblock, hrest⟩
  | included h _ _ _ _ _ => exact absurd (List.cons.inj (hread.unique h).1).1 hname

theorem ConfIn.included_inv (h : ConfIn files ctx text ts out)
    (hread : Reads [] text (str "include" :: names) st rest) (hst : st = .entire ∨ st = .blockStart) :
    names ≠ [] ∧ ∃ (texts : Bytes → Bytes) (trees : Bytes → List ConfTree) (ts' : List ConfTree),
      ts = names.flatMap trees ++ ts' ∧ ConfIn files ctx rest ts' out ∧
      (∀ name ∈ names, files name = some (texts name) ∧ texts name ≠ []) ∧
      ∀ name ∈ names, ConfIn files .file (texts name) (trees name) [] := by
  cases h with
  | ending h =>
    have hst' := (hread.unique h).2.1
    rcases hst with rfl | rfl
    · exact absurd hst'.symm (ending_ne ctx).1
    · exact absurd hst'.symm (ending_ne ctx).2
  | entire h hname _ => exact absurd (List.cons.inj (hread.unique h).1).1.symm hname
  | block h hname _ _ => exact absurd (List.cons.inj (hread.unique h).1).1.symm hname
  | included h _ hnames hfile hparsed hrest =>
    obtain ⟨heq, -, rfl⟩ := hread.unique h
    cases heq
    exact ⟨hnames, _, _, _, rfl, hrest, hfile, hparsed⟩

/-- Trees of files that are the same one by one are the same together. -/
theorem flatMap_trees_congr {f g : Bytes → List ConfTree} (h : ∀ name ∈ names, f name = g name) :
    names.flatMap f = names.flatMap g := by
  induction names with
  | nil => rfl
  | cons name names ih =>
    rw [List.flatMap_cons, List.flatMap_cons, h name List.mem_cons_self,
      ih fun x hx => h x (List.mem_cons_of_mem _ hx)]

/-- A text has one tree. -/
theorem ConfIn.unique (h : ConfIn files ctx text ts out) (h' : ConfIn files ctx text ts' out') :
    ts = ts' ∧ out = out' := by
  induction h generalizing ts' out' with
  | ending h =>
    obtain ⟨-, rfl, hout⟩ := h'.ending_inv h
    exact ⟨rfl, hout.symm⟩
  | entire h hname _ ih =>
    obtain ⟨ts₁, rfl, hrest⟩ := h'.entire_inv h hname
    obtain ⟨rfl, rfl⟩ := ih hrest
    exact ⟨rfl, rfl⟩
  | block h hname _ _ ihblock ih =>
    obtain ⟨cs, rest₁, ts₁, rfl, hblock, hrest⟩ := h'.block_inv h hname
    obtain ⟨rfl, rfl⟩ := ihblock hblock
    obtain ⟨rfl, rfl⟩ := ih hrest
    exact ⟨rfl, rfl⟩
  | included h hst hnames hfile _ _ ihfile ih =>
    obtain ⟨-, texts₁, trees₁, ts₁, rfl, hrest, hfile₁, hparsed₁⟩ := h'.included_inv h hst
    obtain ⟨rfl, rfl⟩ := ih hrest
    refine ⟨congrArg (· ++ _) (flatMap_trees_congr fun name hname => ?_), rfl⟩
    have htext := Option.some.inj ((hfile name hname).1.symm.trans (hfile₁ name hname).1)
    have hparsed := hparsed₁ name hname
    rw [← htext] at hparsed
    exact (ihfile name hname hparsed).1

/-! ## Directives behind a file -/

theorem confIn_skipped (hlead : Skipped lead) (h : ConfIn files ctx X ts out) :
    ConfIn files ctx (lead ++ X) ts out := by
  cases h with
  | ending h => exact .ending (reads_skipped hlead h)
  | entire h hname hrest => exact .entire (reads_skipped hlead h) hname hrest
  | block h hname hblock hrest => exact .block (reads_skipped hlead h) hname hblock hrest
  | included h hst hnames hfile hparsed hrest =>
    exact .included (reads_skipped hlead h) hst hnames hfile hparsed hrest

theorem confIn_of_skipped (hlead : Skipped lead) (h : ConfIn files ctx (lead ++ X) ts out) :
    ConfIn files ctx X ts out := by
  cases h with
  | ending h => exact .ending (reads_of_skipped hlead h)
  | entire h hname hrest => exact .entire (reads_of_skipped hlead h) hname hrest
  | block h hname hblock hrest => exact .block (reads_of_skipped hlead h) hname hblock hrest
  | included h hst hnames hfile hparsed hrest =>
    exact .included (reads_of_skipped hlead h) hst hnames hfile hparsed hrest

/-- A block ends with its brace, whatever stands behind it. -/
theorem ConfIn.append_block (h : ConfIn files ctx text ts out) (hctx : ctx = .block) (X : Bytes) :
    ConfIn files ctx (text ++ X) ts (out ++ X) := by
  induction h with
  | ending h => exact .ending (h.append (by rw [hctx]; decide) X)
  | entire h hname _ ih => exact .entire (h.append (by decide) X) hname (ih hctx)
  | block h hname _ _ ihblock ih => exact .block (h.append (by decide) X) hname (ihblock rfl) (ih hctx)
  | included h hst hnames hfile hparsed _ _ ih =>
    exact .included (h.append (by rcases hst with rfl | rfl <;> decide) X) hst hnames hfile hparsed (ih hctx)

/-- The directives of a file, a line break, and other directives. -/
theorem ConfIn.append_file {ctx' : SrsDirectiveContext} {o : Bytes} (h : ConfIn files ctx' text ts o)
    (hctx : ctx' = .file) (hX : ConfIn files ctx X ts' out) :
    ConfIn files ctx (text ++ LF :: X) (ts ++ ts') out := by
  induction h with
  | ending h =>
    rw [hctx] at h
    rw [List.append_cons]
    exact confIn_skipped (skipped_of_eof h) hX
  | entire h hname _ ih => exact .entire (h.append (by decide) _) hname (ih hctx)
  | block h hname hblock _ _ ih =>
    exact .block (h.append (by decide) _) hname (hblock.append_block rfl _) (ih hctx)
  | included h hst hnames hfile hparsed _ _ ih =>
    rw [List.append_assoc]
    exact .included (h.append (by rcases hst with rfl | rfl <;> decide) _) hst hnames hfile hparsed (ih hctx)

/-- The directives of a file come first. -/
theorem confIn_of_append_file {ctx' : SrsDirectiveContext} {o : Bytes} (h : ConfIn files ctx' text ts o)
    (hctx : ctx' = .file) (hX : ConfIn files ctx (text ++ LF :: X) ts' out) :
    ∃ ts₂, ts' = ts ++ ts₂ ∧ ConfIn files ctx X ts₂ out := by
  induction h generalizing ts' with
  | ending h =>
    rw [hctx] at h
    rw [List.append_cons] at hX
    exact ⟨ts', rfl, confIn_of_skipped (skipped_of_eof h) hX⟩
  | entire h hname _ ih =>
    obtain ⟨ts₁, rfl, hrest⟩ := hX.entire_inv (h.append (by decide) _) hname
    obtain ⟨ts₂, rfl, hmore⟩ := ih hctx hrest
    exact ⟨ts₂, rfl, hmore⟩
  | block h hname hblock _ _ ih =>
    obtain ⟨cs, rest₁, ts₁, rfl, hblock', hrest⟩ := hX.block_inv (h.append (by decide) _) hname
    obtain ⟨rfl, rfl⟩ := (hblock.append_block rfl _).unique hblock'
    obtain ⟨ts₂, rfl, hmore⟩ := ih hctx hrest
    exact ⟨ts₂, rfl, hmore⟩
  | included h hst _ hfile hparsed _ _ ih =>
    obtain ⟨-, texts₁, trees₁, ts₁, rfl, hrest, hfile₁, hparsed₁⟩ :=
      hX.included_inv (h.append (by rcases hst with rfl | rfl <;> decide) _) hst
    obtain ⟨ts₂, rfl, hmore⟩ := ih hctx hrest
    refine ⟨ts₂, ?_, hmore⟩
    rw [List.append_assoc]
    refine congrArg (· ++ _) (flatMap_trees_congr fun name hname => ?_)
    have htext := Option.some.inj ((hfile name hname).1.symm.trans (hfile₁ name hname).1)
    have hparsed' := hparsed₁ name hname
    rw [← htext] at hparsed'
    exact (hparsed'.unique (hparsed name hname)).1

section Files

variable {texts : Bytes → Bytes} {trees : Bytes → List ConfTree}

theorem files_cons (name : Bytes) (names : List Bytes) (X : Bytes) :
    (name :: names).flatMap (fun name => texts name ++ [LF]) ++ X =
      texts name ++ LF :: (names.flatMap (fun name => texts name ++ [LF]) ++ X) := by
  rw [List.flatMap_cons, List.append_assoc, List.append_assoc]
  rfl

/-- The directives of several files, each followed by a line break. -/
theorem confIn_files (h : ∀ name ∈ names, ConfIn files .file (texts name) (trees name) [])
    (hX : ConfIn files ctx X ts out) :
    ConfIn files ctx (names.flatMap (fun name => texts name ++ [LF]) ++ X) (names.flatMap trees ++ ts) out := by
  induction names with
  | nil => exact hX
  | cons name names ih =>
    have hmore := ih fun x hx => h x (List.mem_cons_of_mem _ hx)
    rw [files_cons, List.flatMap_cons, List.append_assoc]
    exact (h name List.mem_cons_self).append_file rfl hmore

theorem confIn_of_files (h : ∀ name ∈ names, ConfIn files .file (texts name) (trees name) [])
    (hX : ConfIn files ctx (names.flatMap (fun name => texts name ++ [LF]) ++ X) ts out) :
    ∃ ts₂, ts = names.flatMap trees ++ ts₂ ∧ ConfIn files ctx X ts₂ out := by
  induction names generalizing ts with
  | nil => exact ⟨ts, rfl, hX⟩
  | cons name names ih =>
    rw [files_cons] at hX
    obtain ⟨ts₁, rfl, hmore⟩ := confIn_of_append_file (h name List.mem_cons_self) rfl hX
    obtain ⟨ts₂, rfl, hlast⟩ := ih (fun x hx => h x (List.mem_cons_of_mem _ hx)) hmore
    exact ⟨ts₂, by rw [List.flatMap_cons, List.append_assoc], hlast⟩

end Files

/-! ## The directives of the expanded text -/

theorem used_append (h : Reads [] text args st rest) (hst : st ≠ .eof) (rest' : Bytes) :
    Reads [] (before text rest ++ rest') args st rest' := by
  obtain ⟨used, rfl, hread⟩ := h.local hst
  rw [before_append]
  exact hread rest'

theorem not_statement (h : name ≠ str "include") : ¬ IsIncludeStatement (name :: args) st := by
  rintro ⟨-, hhead, -⟩
  exact h (Option.some.inj hhead)

/-- The directives of a text are those of the expanded text. -/
theorem ConfIn.expand (h : ConfIn files ctx text ts out)
    (hexpand : expandIncludes files n text = some text') :
    ∃ m out', expandIncludes files m out = some out' ∧ ConfIn files ctx text' ts out' := by
  induction h generalizing n text' with
  | @ending ctx text rest h =>
    obtain ⟨n, rfl⟩ := expand_pos hexpand
    by_cases hst : ctx.ending = .eof
    · rw [expand_stop fun args st rest hread => (h.unique hread).2.1 ▸ hst] at hexpand
      cases hexpand
      obtain rfl := h.eof_nil hst
      exact ⟨1, [], rfl, .ending h⟩
    · rw [expand_token h hst] at hexpand
      obtain ⟨rest', hrest, hexpand⟩ := Option.bind_eq_some_iff.1 hexpand
      rw [if_neg (fun hinc => (ending_ne ctx).1 hinc.1)] at hexpand
      cases hexpand
      exact ⟨n, rest', hrest, .ending (used_append h hst rest')⟩
  | entire h hname _ ih =>
    obtain ⟨n, rfl⟩ := expand_pos hexpand
    rw [expand_token h (by decide)] at hexpand
    obtain ⟨rest', hrest, hexpand⟩ := Option.bind_eq_some_iff.1 hexpand
    rw [if_neg (not_statement hname)] at hexpand
    cases hexpand
    obtain ⟨m, out', hout, hconf⟩ := ih hrest
    exact ⟨m, out', hout, .entire (used_append h (by decide) rest') hname hconf⟩
  | block h hname _ _ ihblock ih =>
    obtain ⟨n, rfl⟩ := expand_pos hexpand
    rw [expand_token h (by decide)] at hexpand
    obtain ⟨rest', hrest, hexpand⟩ := Option.bind_eq_some_iff.1 hexpand
    rw [if_neg (not_statement hname)] at hexpand
    cases hexpand
    obtain ⟨m₁, mid, hmid, hblock⟩ := ihblock hrest
    obtain ⟨m, out', hout, hconf⟩ := ih hmid
    exact ⟨m, out', hout, .block (used_append h (by decide) rest') hname hblock hconf⟩
  | @included _ _ names st _ _ _ texts trees h hst hnames hfile hparsed _ ihfile ih =>
    obtain ⟨n, rfl⟩ := expand_pos hexpand
    have hne : st ≠ .eof := by rcases hst with rfl | rfl <;> decide
    rw [expand_token h hne] at hexpand
    obtain ⟨rest', hrest, hexpand⟩ := Option.bind_eq_some_iff.1 hexpand
    obtain ⟨m, out', hout, hconf⟩ := ih hrest
    refine ⟨m, out', hout, ?_⟩
    by_cases hinc : IsIncludeStatement (str "include" :: names) st
    · rw [if_pos hinc] at hexpand
      obtain ⟨contents, hcontents, hexpand⟩ := Option.bind_eq_some_iff.1 hexpand
      cases hexpand
      obtain ⟨texts', rfl, hall⟩ := expandFiles_some hcontents
      refine confIn_skipped (skipped_before h hne) (confIn_files (fun name hname => ?_) hconf)
      obtain ⟨text, htext, htext'⟩ := hall name hname
      obtain rfl := Option.some.inj ((hfile name hname).1.symm.trans htext)
      obtain ⟨k, o, ho, hconf'⟩ := ihfile name hname htext'
      rwa [hconf'.file_nil rfl] at hconf'
    · rw [if_neg hinc] at hexpand
      cases hexpand
      exact .included (used_append h hne rest') hst hnames hfile hparsed hconf

/-- The directives of a file are those of the expanded file. -/
theorem ConfIn.expand_file (h : ConfIn files .file text ts [])
    (hexpand : expandIncludes files n text = some text') : ConfIn files .file text' ts [] := by
  obtain ⟨m, out', -, hconf⟩ := h.expand hexpand
  rwa [hconf.file_nil rfl] at hconf

/-- What a text includes is named in its first statement, or behind it. -/
theorem includesFile_iff (hread : Reads [] text args st rest) (hst : st ≠ .eof) :
    IncludesFile text name ↔ (IsIncludeStatement args st ∧ name ∈ args.tail) ∨ IncludesFile rest name := by
  constructor
  · intro h
    cases h with
    | here h hinc hname =>
      obtain ⟨rfl, rfl, -⟩ := hread.unique h
      exact Or.inl ⟨hinc, hname⟩
    | behind h _ hrest =>
      obtain ⟨-, -, rfl⟩ := hread.unique h
      exact Or.inr hrest
  · rintro (⟨hinc, hname⟩ | hrest)
    · exact .here hread hinc hname
    · exact .behind hread hst hrest

theorem not_includesFile_nil : ¬ IncludesFile [] name := by
  intro h
  cases h with
  | here h hinc _ =>
    rw [← (Reads.eof.unique h).2.1] at hinc
    cases hinc.1
  | behind h hst _ => exact hst (Reads.eof.unique h).2.1.symm

/-- Where the contents of files stand, in the place of the statement that includes them, their directives
come first; the statement stands for as many. -/
theorem confIn_of_contents {contents rest' : Bytes} (hread : Reads [] text args st rest)
    (hinc : IsIncludeStatement args st)
    (hfiles : ∀ name ∈ args.tail, ∃ t, files name = some t ∧ t ≠ [] ∧ ∃ ts, ConfIn files .file t ts [])
    (hcontents : expandFiles files (expandIncludes files n) args.tail = some contents)
    (h : ConfIn files ctx (before text (skipBlank false text) ++ (contents ++ rest')) ts out') :
    ∃ ts₁ ts₂, ts = ts₁ ++ ts₂ ∧ ConfIn files ctx rest' ts₂ out' ∧
      ∀ out, ConfIn files ctx rest ts₂ out → ConfIn files ctx text (ts₁ ++ ts₂) out := by
  obtain ⟨texts', rfl, hall⟩ := expandFiles_some hcontents
  choose! texts hfile hne trees htrees using hfiles
  obtain ⟨rfl, hhead, hnames⟩ := hinc
  obtain ⟨names, rfl⟩ : ∃ names, args = str "include" :: names := by
    cases args with
    | nil => cases hhead
    | cons name names => exact ⟨names, by rw [Option.some.inj hhead]⟩
  have htrees' : ∀ name ∈ names, ConfIn files .file (texts' name) (trees name) [] := by
    intro name hname
    obtain ⟨text, htext, htext'⟩ := hall name hname
    obtain rfl := Option.some.inj ((hfile name hname).symm.trans htext)
    exact (htrees name hname).expand_file htext'
  have hskip : Skipped (before text (skipBlank false text)) := skipped_before hread (by decide)
  obtain ⟨ts₂, rfl, hmore⟩ := confIn_of_files htrees' (confIn_of_skipped hskip h)
  refine ⟨names.flatMap trees, ts₂, rfl, hmore, fun out hconf => ?_⟩
  exact .included hread (Or.inl rfl) hnames (fun name hname => ⟨hfile name hname, hne name hname⟩) htrees hconf

/-- The directives of the expanded text are those of the text, when every included file is parsed on its
own. -/
theorem confIn_of_expand (hexpand : expandIncludes files n text = some text')
    (hfiles : ∀ name, IncludesFile text name →
      ∃ t, files name = some t ∧ t ≠ [] ∧ ∃ ts, ConfIn files .file t ts [])
    (h : ConfIn files ctx text' ts out') :
    ∃ m ≤ n, ∃ out, expandIncludes files m out = some out' ∧ ConfIn files ctx text ts out ∧
      ∀ name, IncludesFile out name → IncludesFile text name := by
  induction n generalizing ctx text text' ts out' with
  | zero => cases hexpand
  | succ n ih =>
    rcases ends_or_reads text with hstop | ⟨args, st, rest, hread, hst⟩
    · rw [expand_stop hstop] at hexpand
      cases hexpand
      cases h with
      | ending h =>
        have hst := hstop _ _ _ h
        obtain rfl := h.eof_nil hst
        exact ⟨1, by omega, [], rfl, .ending h, fun name hname => absurd hname not_includesFile_nil⟩
      | entire h _ _ => cases hstop _ _ _ h
      | block h _ _ _ => cases hstop _ _ _ h
      | included h hst _ _ _ _ =>
        rcases hst with rfl | rfl
        · cases hstop _ _ _ h
        · cases hstop _ _ _ h
    · rw [expand_token hread hst] at hexpand
      obtain ⟨rest', hrest, hexpand⟩ := Option.bind_eq_some_iff.1 hexpand
      have hbehind : ∀ name, IncludesFile rest name → IncludesFile text name :=
        fun name hname => .behind hread hst hname
      have ih' : ∀ {ctx : SrsDirectiveContext} {ts : List ConfTree} {out' : Bytes},
          ConfIn files ctx rest' ts out' → ∃ m ≤ n, ∃ out, expandIncludes files m out = some out' ∧
            ConfIn files ctx rest ts out ∧ ∀ name, IncludesFile out name → IncludesFile text name := by
        intro ctx ts out' hconf
        obtain ⟨m, hm, out, hout, hconf, hinc⟩ :=
          ih hrest (fun name hname => hfiles name (hbehind name hname)) hconf
        exact ⟨m, hm, out, hout, hconf, fun name hname => hbehind name (hinc name hname)⟩
      by_cases hinc : IsIncludeStatement args st
      · rw [if_pos hinc] at hexpand
        obtain ⟨contents, hcontents, hexpand⟩ := Option.bind_eq_some_iff.1 hexpand
        cases hexpand
        obtain ⟨ts₁, ts₂, rfl, hmore, hstatement⟩ := confIn_of_contents hread hinc
          (fun name hname => hfiles name (.here hread hinc hname)) hcontents h
        obtain ⟨m, hm, out, hout, hconf, hback⟩ := ih' hmore
        exact ⟨m, by omega, out, hout, hstatement out hconf, hback⟩
      · rw [if_neg hinc] at hexpand
        cases hexpand
        have hread' := used_append hread hst rest'
        cases h with
        | ending h =>
          obtain ⟨rfl, rfl, rfl⟩ := hread'.unique h
          exact ⟨n, by omega, rest, hrest, .ending hread, hbehind⟩
        | entire h hname hmore =>
          obtain ⟨rfl, rfl, rfl⟩ := hread'.unique h
          obtain ⟨m, hm, out, hout, hconf, hback⟩ := ih' hmore
          exact ⟨m, by omega, out, hout, .entire hread hname hconf, hback⟩
        | block h hname hblock hmore =>
          obtain ⟨rfl, rfl, rfl⟩ := hread'.unique h
          obtain ⟨m₁, hm₁, mid, hmid, hblock, hback₁⟩ := ih' hblock
          obtain ⟨m, hm, out, hout, hconf, hback⟩ :=
            ih (expand_mono hm₁ hmid) (fun name hname => hfiles name (hback₁ name hname)) hmore
          exact ⟨m, by omega, out, hout, .block hread hname hblock hconf,
            fun name hname => hback₁ name (hback name hname)⟩
        | included h hst' hnames hfile hparsed hmore =>
          obtain ⟨rfl, rfl, rfl⟩ := hread'.unique h
          obtain ⟨m, hm, out, hout, hconf, hback⟩ := ih' hmore
          exact ⟨m, by omega, out, hout, .included hread hst' hnames hfile hparsed hconf, hback⟩

/-! ## There is an expanded text -/

theorem expandFiles_exists {expand : Bytes → Option Bytes}
    (h : ∀ name ∈ names, ∃ t t', files name = some t ∧ expand t = some t') :
    ∃ contents, expandFiles files expand names = some contents := by
  induction names with
  | nil => exact ⟨[], rfl⟩
  | cons name names ih =>
    obtain ⟨t, t', ht, ht'⟩ := h name List.mem_cons_self
    obtain ⟨contents, hcontents⟩ := ih fun x hx => h x (List.mem_cons_of_mem _ hx)
    refine ⟨t' ++ LF :: contents, ?_⟩
    unfold expandFiles
    rw [ht, Option.bind_some, ht', Option.bind_some, hcontents]
    rfl

/-- A statement is expanded when what follows it is, and the files it includes. -/
theorem expand_exists_token (hread : Reads [] text args st rest) (hst : st ≠ .eof)
    (hrest : ∃ n rest', expandIncludes files n rest = some rest')
    (hfiles : IsIncludeStatement args st → ∀ name ∈ args.tail,
      ∃ t, files name = some t ∧ ∃ n t', expandIncludes files n t = some t') :
    ∃ n text', expandIncludes files n text = some text' := by
  obtain ⟨M, rest', hrest⟩ := hrest
  by_cases hinc : IsIncludeStatement args st
  · obtain ⟨N, hN⟩ := exists_bound
      (P := fun n name => ∃ t t', files name = some t ∧ expandIncludes files n t = some t') fun name hname => by
        obtain ⟨t, ht, n, t', ht'⟩ := hfiles hinc name hname
        exact ⟨n, fun m hm => ⟨t, t', ht, expand_mono hm ht'⟩⟩
    obtain ⟨contents, hcontents⟩ := expandFiles_exists (hN (max N M) (by omega))
    refine ⟨max N M + 1, before text (skipBlank false text) ++ (contents ++ rest'), ?_⟩
    rw [expand_token hread hst, expand_mono (by omega) hrest, Option.bind_some, if_pos hinc, hcontents,
      Option.bind_some]
  · refine ⟨M + 1, before text rest ++ rest', ?_⟩
    rw [expand_token hread hst, hrest, Option.bind_some, if_neg hinc]

/-- A file that is parsed is expanded, with the files it includes. -/
theorem ConfIn.expand_exists (h : ConfIn files ctx text ts out)
    (hout : ∃ n out', expandIncludes files n out = some out') :
    ∃ n text', expandIncludes files n text = some text' := by
  induction h with
  | @ending ctx text rest h =>
    by_cases hst : ctx.ending = .eof
    · exact ⟨1, text, expand_stop fun args st rest hread => (h.unique hread).2.1 ▸ hst⟩
    · exact expand_exists_token h hst hout fun hinc => absurd hinc.1 (ending_ne ctx).1
  | entire h hname _ ih =>
    exact expand_exists_token h (by decide) (ih hout) fun hinc => absurd hinc (not_statement hname)
  | block h hname _ _ ihblock ih =>
    exact expand_exists_token h (by decide) (ihblock (ih hout)) fun hinc => absurd hinc (not_statement hname)
  | included h hst hnames hfile _ _ ihfile ih =>
    refine expand_exists_token h (by rcases hst with rfl | rfl <;> decide) (ih hout) fun _ name hname => ?_
    exact ⟨_, (hfile name hname).1, ihfile name hname ⟨1, [], rfl⟩⟩

/-- A text is expanded when every file it includes is parsed on its own. -/
theorem expand_exists (hfiles : ∀ name, IncludesFile text name →
    ∃ t, files name = some t ∧ t ≠ [] ∧ ∃ ts, ConfIn files .file t ts []) :
    ∃ n text', expandIncludes files n text = some text' := by
  induction hlen : text.length using Nat.strong_induction_on generalizing text with
  | _ len ih =>
    rcases ends_or_reads text with hstop | ⟨args, st, rest, hread, hst⟩
    · exact ⟨1, text, expand_stop hstop⟩
    · have hrest := ih rest.length (hlen ▸ hread.shorter hst)
        (fun name hname => hfiles name (.behind hread hst hname)) rfl
      refine expand_exists_token hread hst hrest fun hinc name hname => ?_
      obtain ⟨t, ht, -, ts, hconf⟩ := hfiles name (.here hread hinc hname)
      exact ⟨t, ht, hconf.expand_exists ⟨1, [], rfl⟩⟩

/-- **Inclusion is textual.**  When every file that a statement of the text includes is there, is not empty
and is parsed on its own, the text has an expansion, and the parser gives the same tree for both.  (A file
that includes itself, or one of a cycle, is not parsed.) -/
theorem parse_expanded_iff (files : Files) (main : Bytes)
    (hfiles : ∀ name, IncludesFile main name →
      ∃ text, files name = some text ∧ text ≠ [] ∧ ∃ ts, ParsesTo files text ts) :
    ∃ N expanded, (∀ n ≥ N, expandIncludes files n main = some expanded) ∧
      ∀ ts, ParsesTo files main ts ↔ ParsesTo files expanded ts := by
  have hconf : ∀ name, IncludesFile main name →
      ∃ t, files name = some t ∧ t ≠ [] ∧ ∃ ts, ConfIn files .file t ts [] := by
    intro name hname
    obtain ⟨t, ht, hne, ts, hts⟩ := hfiles name hname
    exact ⟨t, ht, hne, ts, parsesTo_iff.1 hts⟩
  obtain ⟨N, expanded, hN⟩ := expand_exists hconf
  refine ⟨N, expanded, fun n hn => expand_mono hn hN, fun ts => ?_⟩
  rw [parsesTo_iff, parsesTo_iff]
  constructor
  · intro h
    exact h.expand_file hN
  · intro h
    obtain ⟨m, -, out, -, h', -⟩ := confIn_of_expand hN hconf h
    rwa [h'.file_nil rfl] at h'

/-- A file `a` that contains `x 1;`. -/
def fileA : Files := fun name => if name = str "a" then some (str "x 1;") else none

theorem parse_expanded_iff_block :
    ∃ N expanded, (∀ n ≥ N, expandIncludes fileA n (str "b \x7b include a; \x7d") = some expanded) ∧
      ∀ ts, ParsesTo fileA (str "b \x7b include a; \x7d") ts ↔ ParsesTo fileA expanded ts := by
  have hx : Reads [] (str "x 1;") [str "x", str "1"] .entire [] :=
    .word (w := str "x") (t := str "x") (.known (by decide) rfl) (by decide)
      (.lastWord (w := str "1") (t := str "1") (.known (by decide) rfl))
  have hopen : Reads [] (str "b \x7b include a; \x7d") [str "b"] .blockStart (str " include a; \x7d") :=
    .word (w := str "b") (t := str "b") (.known (by decide) rfl) (by decide)
      (.blockStart (by decide))
  have hinclude : Reads [] (str " include a; \x7d") [str "include", str "a"] .entire (str " \x7d") :=
    .space (by decide) (.word (w := str "include") (t := str "include")
      (.known (by decide) rfl) (by decide)
      (.lastWord (w := str "a") (t := str "a") (.known (by decide) rfl)))
  have hclose : Reads [] (str " \x7d") [] .blockEnd [] := .space (by decide) .blockEnd
  refine parse_expanded_iff fileA _ fun name hname => ?_
  rw [includesFile_iff hopen (by decide), includesFile_iff hinclude (by decide),
    includesFile_iff hclose (by decide)] at hname
  rcases hname with ⟨hinc, -⟩ | ⟨-, hname⟩ | ⟨hinc, -⟩ | hname
  · exact absurd hinc (by decide)
  · obtain rfl : name = str "a" := List.mem_singleton.1 hname
    obtain ⟨l, hparse⟩ := parse_one (some fileA) (n := 10) hx (by decide) (by decide)
    exact ⟨str "x 1;", if_pos rfl, by decide, _, 10, _, hparse, rfl⟩
  · exact absurd hinc (by decide)
  · exact absurd hname not_includesFile_nil

example : expandIncludes fileA 5 (str "b \x7b include a; \x7d") = some (str "b \x7b x 1;\n \x7d") := by decide

end HttpProxy
