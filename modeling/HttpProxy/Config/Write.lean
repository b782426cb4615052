import HttpProxy.Config.Parse

/-!
# Writing a configuration

* `Writes` — the texts that a tree may be written as: words in quotes, any spaces between them, blank
  and comment lines between directives.
* `parse_writes` — the parser gives the tree back.
* `writeAll`, `parse_writeAll` — one of these texts.
-/

namespace HttpProxy

/-- A word that can be written: it is a string, and one of the quotes is free. -/
def IsWord (w : Bytes) : Prop := w ≠ [] ∧ 0 ∉ w ∧ (DQUOTE ∉ w ∨ SQUOTE ∉ w)

instance (w : Bytes) : Decidable (IsWord w) := by
  unfold IsWord
  infer_instance

mutual

/-- A tree whose words can all be written, and that includes nothing. -/
def ConfTree.Writable : ConfTree → Prop
  | ⟨name, args, directives⟩ =>
      (∀ w ∈ name :: args, IsWord w) ∧ name ≠ str "include" ∧ AllWritable directives

/-- Trees of this kind. -/
def AllWritable : List ConfTree → Prop
  | [] => True
  | t :: ts => t.Writable ∧ AllWritable ts

end

/-- Spaces, tabs and line breaks. -/
def Spaces (s : Bytes) : Prop := ∀ ch ∈ s, isCommonSpace ch = true

instance (s : Bytes) : Decidable (Spaces s) :=
  List.decidableBAll (fun ch => isCommonSpace ch = true) s

/-- Blank lines and comment lines. -/
inductive Blank : Bytes → Prop
  | nil : Blank []
  | space {ch g} (hch : isCommonSpace ch = true) (h : Blank g) : Blank (ch :: g)
  | comment {c g} (hc : LF ∉ c) (h : Blank g) : Blank (SHARP :: (c ++ LF :: g))

/-- A word in a quote that it does not contain. -/
def Quoted (w t : Bytes) : Prop := ∃ q, (q = DQUOTE ∨ q = SQUOTE) ∧ q ∉ w ∧ t = q :: (w ++ [q])

/-- Words in quotes, with spaces between them. -/
inductive WritesWords : List Bytes → Bytes → Prop
  | last {w t s} (hw : Quoted w t) (hs : Spaces s) : WritesWords [w] (t ++ s)
  | cons {w t s ws r} (hw : Quoted w t) (hs : Spaces s) (hne : s ≠ []) (h : WritesWords ws r) :
      WritesWords (w :: ws) (t ++ (s ++ r))

/-- The trees, one after the other. -/
inductive Writes : List ConfTree → Bytes → Prop
  | nil {g} (hg : Blank g) : Writes [] g
  | entire {name args g t ts r} (hg : Blank g) (ht : WritesWords (name :: args) t) (h : Writes ts r) :
      Writes (⟨name, args, []⟩ :: ts) (g ++ (t ++ SEMICOLON :: r))
  | block {name args cs g t body ts r} (hg : Blank g) (ht : WritesWords (name :: args) t)
      (hbody : Writes cs body) (h : Writes ts r) :
      Writes (⟨name, args, cs⟩ :: ts) (g ++ (t ++ LBRACE :: (body ++ RBRACE :: r)))

/-- A file may end with a comment that has no line break. -/
def WritesFile (ts : List ConfTree) (text : Bytes) : Prop :=
  ∃ t last, Writes ts t ∧ (last = [] ∨ ∃ body, LF ∉ body ∧ last = SHARP :: body) ∧ text = t ++ last

variable {args args' ws : List Bytes} {w s t g text rest out : Bytes} {st : SrsDirectiveState}
  {ctx : SrsDirectiveContext} {ts : List ConfTree} {conf : Option Files} {n : Nat}

/-! ## Words -/

theorem spaces_reads (hs : Spaces s) (h : Reads args rest args' st out) :
    Reads args (s ++ rest) args' st out := by
  induction s with
  | nil => exact h
  | cons ch s ih =>
    exact .space (hs ch List.mem_cons_self) (ih fun c hc => hs c (List.mem_cons_of_mem _ hc))

theorem blank_reads (hg : Blank g) (h : Reads args rest args' st out) :
    Reads args (g ++ rest) args' st out := by
  induction hg with
  | nil => exact h
  | space hch _ ih => exact .space hch ih
  | @comment c g hc _ ih =>
    have hread := Reads.comment hc ih
    rwa [show SHARP :: (c ++ LF :: (g ++ rest)) = SHARP :: (c ++ LF :: g) ++ rest by simp] at hread

theorem Quoted.spelled (h : Quoted w t) : Spelled w t := by
  obtain ⟨q, hq, hw, rfl⟩ := h
  exact .quoted hq hw

theorem IsWord.push (h : IsWord w) (args : List Bytes) : Scan.push args (cString w) = args ++ [w] := by
  rw [cString_eq_self h.2.1]
  exact if_neg h.1

/-- A quoted word and the spaces behind it. -/
theorem quoted_reads (hw : Quoted w t) (hword : IsWord w) (hs : Spaces s) (hne : s ≠ [])
    (h : Reads (args ++ [w]) rest args' st out) : Reads args (t ++ (s ++ rest)) args' st out := by
  obtain ⟨ch, s, rfl⟩ := List.exists_cons_of_ne_nil hne
  refine .word hw.spelled (hs ch List.mem_cons_self) ?_
  rw [hword.push args]
  exact spaces_reads (fun c hc => hs c (List.mem_cons_of_mem _ hc)) h

/-- The words of a directive, and the byte that ends it. -/
theorem words_reads (h : WritesWords ws t) (hwords : ∀ w ∈ ws, IsWord w) (args : List Bytes) (out : Bytes) :
    Reads args (t ++ SEMICOLON :: out) (args ++ ws) .entire out ∧
      Reads args (t ++ LBRACE :: out) (args ++ ws) .blockStart out := by
  induction h generalizing args with
  | @last w t s hw hs =>
    have hword := hwords w List.mem_cons_self
    by_cases hnil : s = []
    · subst hnil
      rw [List.append_nil]
      exact ⟨hword.push args ▸ .lastWord hw.spelled,
        hword.push args ▸ .lastWordBlock hw.spelled⟩
    · rw [List.append_assoc, List.append_assoc]
      exact ⟨quoted_reads hw hword hs hnil (.entire (by simp)),
        quoted_reads hw hword hs hnil (.blockStart (by simp))⟩
  | @cons w t s ws r hw hs hne _ ih =>
    have hword := hwords w List.mem_cons_self
    obtain ⟨hentire, hblock⟩ := ih (fun v hv => hwords v (List.mem_cons_of_mem _ hv)) (args ++ [w])
    rw [List.append_assoc args, List.singleton_append] at hentire hblock
    refine ⟨?_, ?_⟩
    · have hread := quoted_reads hw hword hs hne hentire
      simpa using hread
    · have hread := quoted_reads hw hword hs hne hblock
      simpa using hread

/-! ## Directives -/

/-- What is written for trees consists of complete directives that stand for them. -/
theorem writes_conf (h : Writes ts text) (hts : AllWritable ts) (hend : Reads [] rest [] ctx.ending out) :
    Conf ctx (text ++ rest) ts out := by
  induction h generalizing ctx rest out with
  | nil hg => exact .ending (blank_reads hg hend)
  | @entire name args g t ts r hg ht _ ih =>
    obtain ⟨⟨hwords, hname, -⟩, hts⟩ := hts
    have hread := blank_reads hg (words_reads ht hwords [] (r ++ rest)).1
    refine .entire ?_ hname (ih hts hend)
    simpa using hread
  | @block name args cs g t body ts r hg ht _ _ ihblock ih =>
    obtain ⟨⟨hwords, hname, hcs⟩, hts⟩ := hts
    have hread := blank_reads hg (words_reads ht hwords [] (body ++ RBRACE :: (r ++ rest))).2
    have hend' : ∀ tail, Reads [] (RBRACE :: tail) [] SrsDirectiveContext.block.ending tail :=
      fun _ => .blockEnd
    refine .block ?_ hname (ihblock hcs (hend' _)) (ih hts hend)
    simpa using hread

/-- A text that is written for trees is parsed to them. -/
theorem parse_writes (hts : AllWritable ts) (h : WritesFile ts text) (hn : text.length < n) :
    ∃ ds, parse conf n text = .done ds ∧ trees ds = ts := by
  obtain ⟨t, last, ht, hlast, rfl⟩ := h
  have hend : Reads [] last [] .eof [] := by
    rcases hlast with rfl | ⟨body, hbody, rfl⟩
    · exact .eof
    · exact .eofComment hbody
  have hconf : Conf .file (t ++ last) ts [] := writes_conf ht hts hend
  exact parse_of_conf conf hconf hn

/-- `'listen' '80';`, and a block with a comment. -/
theorem parse_writes_listen :
    ∃ ds, parse none 60 (str "'listen' \t'80';\n# \x7b\n'a;b' \x7b\"c'\";\x7d") = .done ds ∧
      trees ds = [⟨str "listen", [str "80"], []⟩, ⟨str "a;b", [], [⟨str "c'", [], []⟩]⟩] := by
  have hlisten : WritesWords [str "listen", str "80"] (str "'listen' \t'80'") :=
    .cons (s := str " \t") (r := str "'80'") ⟨SQUOTE, Or.inr rfl, by decide, rfl⟩ (by decide) (by decide)
      (.last (s := []) ⟨SQUOTE, Or.inr rfl, by decide, rfl⟩ (by decide))
  have hname : WritesWords [str "a;b"] (str "'a;b' ") :=
    .last (s := str " ") ⟨SQUOTE, Or.inr rfl, by decide, rfl⟩ (by decide)
  have hchild : WritesWords [str "c'"] (str "\"c'\"") :=
    .last (s := []) ⟨DQUOTE, Or.inl rfl, by decide, rfl⟩ (by decide)
  have hgap : Blank (str "\n# \x7b\n") :=
    .space (by decide) (.comment (c := str " \x7b") (g := []) (by decide) .nil)
  refine parse_writes ⟨⟨by decide, by decide, trivial⟩,
    ⟨by decide, by decide, ⟨by decide, by decide, trivial⟩, trivial⟩, trivial⟩ ?_ (by decide)
  exact ⟨_, [], .entire .nil hlisten (.block hgap hname (.entire .nil hchild (.nil .nil)) (.nil .nil)),
    Or.inl rfl, rfl⟩

/-! ## One of the texts -/

/-- A word in double quotes, or in single quotes when it contains a double one. -/
def quote (w : Bytes) : Bytes :=
  if DQUOTE ∈ w then SQUOTE :: (w ++ [SQUOTE]) else DQUOTE :: (w ++ [DQUOTE])

/-- Words with one space between them. -/
def writeWords : List Bytes → Bytes
  | [] => []
  | [w] => quote w
  | w :: ws => quote w ++ 32 :: writeWords ws

mutual

/-- A directive. -/
def ConfTree.write : ConfTree → Bytes
  | ⟨name, args, []⟩ => writeWords (name :: args) ++ [SEMICOLON]
  | ⟨name, args, d :: ds⟩ =>
      writeWords (name :: args) ++ LBRACE :: (d.write ++ writeAll ds ++ [RBRACE])

/-- Directives, one after the other. -/
def writeAll : List ConfTree → Bytes
  | [] => []
  | t :: ts => t.write ++ writeAll ts

end

theorem quoted_quote (h : IsWord w) : Quoted w (quote w) := by
  unfold quote
  by_cases hd : DQUOTE ∈ w
  · rw [if_pos hd]
    exact ⟨SQUOTE, Or.inr rfl, h.2.2.resolve_left (not_not.2 hd), rfl⟩
  · rw [if_neg hd]
    exact ⟨DQUOTE, Or.inl rfl, hd, rfl⟩

theorem writesWords_writeWords (hne : ws ≠ []) (h : ∀ w ∈ ws, IsWord w) :
    WritesWords ws (writeWords ws) := by
  induction ws with
  | nil => exact absurd rfl hne
  | cons w ws ih =>
    have hw := quoted_quote (h w List.mem_cons_self)
    cases ws with
    | nil =>
      have hlast := WritesWords.last hw (s := []) (by simp [Spaces])
      rwa [List.append_nil] at hlast
    | cons v ws =>
      exact .cons hw (s := [32]) (by simp [Spaces, isCommonSpace]) (by simp)
        (ih (by simp) fun u hu => h u (List.mem_cons_of_mem _ hu))

mutual

/-- A directive in front of others. -/
theorem writes_write : (t : ConfTree) → t.Writable → ∀ {ts r}, Writes ts r → Writes (t :: ts) (t.write ++ r)
  | ⟨name, args, []⟩, ⟨hwords, _, _⟩, ts, r, h => by
      have hwrite := Writes.entire .nil (writesWords_writeWords (by simp) hwords) h
      unfold ConfTree.write
      simpa using hwrite
  | ⟨name, args, d :: ds⟩, ⟨hwords, _, hds⟩, ts, r, h => by
      have hbody := writes_write d hds.1 (writes_writeAll ds hds.2)
      have hwrite := Writes.block .nil (writesWords_writeWords (by simp) hwords) hbody h
      unfold ConfTree.write
      simpa using hwrite

theorem writes_writeAll : (ts : List ConfTree) → AllWritable ts → Writes ts (writeAll ts)
  | [], _ => .nil .nil
  | t :: ts, ⟨ht, hts⟩ => writes_write t ht (writes_writeAll ts hts)

end

/-- Every tree that can be written is read back from what is written. -/
theorem parse_writeAll (hts : AllWritable ts) (hn : (writeAll ts).length < n) :
    ∃ ds, parse conf n (writeAll ts) = .done ds ∧ trees ds = ts := by
  have hconf : Conf .file (writeAll ts ++ []) ts [] := writes_conf (writes_writeAll ts hts) hts .eof
  rw [List.append_nil] at hconf
  exact parse_of_conf conf hconf hn

end HttpProxy
