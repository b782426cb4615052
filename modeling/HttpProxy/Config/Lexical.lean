import HttpProxy.Config.Token

/-!
# What a directive looks like

* `Spelled` — how a word is written: plain, or in quotes.
* `Reads` — the words of a directive and the byte that ends it, with spaces and comments in between.
* `readToken_returns`, `readToken_of_reads` — `read_token` returns what stands in the text in this sense,
  and nothing else.
-/

namespace HttpProxy

/-- A byte that ends a word. -/
def EndsWord (ch : Byte) : Prop := isCommonSpace ch = true ∨ ch = SEMICOLON ∨ ch = LBRACE

/-- A byte that starts a word without quotes. -/
def StartsWord (ch : Byte) : Prop :=
  isCommonSpace ch = false ∧ ch ∉ [SEMICOLON, LBRACE, RBRACE, SHARP, DQUOTE, SQUOTE]

instance (ch : Byte) : Decidable (EndsWord ch) := by
  unfold EndsWord
  infer_instance

instance (ch : Byte) : Decidable (StartsWord ch) := by
  unfold StartsWord
  infer_instance

/-- A word, and how it is written. -/
inductive Spelled : Bytes → Bytes → Prop
  | plain {ch : Byte} {w : Bytes} (hch : StartsWord ch) (hw : ∀ c ∈ w, ¬ EndsWord c) :
      Spelled (ch :: w) (ch :: w)
  | quoted {q : Byte} {w : Bytes} (hq : q = DQUOTE ∨ q = SQUOTE) (hw : q ∉ w) :
      Spelled w (q :: (w ++ [q]))

/-- With some words read, the text goes on with the other words of a directive and with what ends it.
A word ends at a NUL, and one that is empty does not count. -/
inductive Reads : List Bytes → Bytes → List Bytes → SrsDirectiveState → Bytes → Prop
  | space {args ch rest args' st out} (hch : isCommonSpace ch = true)
      (h : Reads args rest args' st out) : Reads args (ch :: rest) args' st out
  | comment {args body rest args' st out} (hbody : LF ∉ body) (h : Reads args rest args' st out) :
      Reads args (SHARP :: (body ++ LF :: rest)) args' st out
  | word {args w t ch rest args' st out} (hw : Spelled w t) (hch : isCommonSpace ch = true)
      (h : Reads (Scan.push args (cString w)) rest args' st out) : Reads args (t ++ ch :: rest) args' st out
  | lastWord {args w t out} (hw : Spelled w t) :
      Reads args (t ++ SEMICOLON :: out) (Scan.push args (cString w)) .entire out
  | lastWordBlock {args w t out} (hw : Spelled w t) :
      Reads args (t ++ LBRACE :: out) (Scan.push args (cString w)) .blockStart out
  | entire {args out} (hargs : args ≠ []) : Reads args (SEMICOLON :: out) args .entire out
  | blockStart {args out} (hargs : args ≠ []) : Reads args (LBRACE :: out) args .blockStart out
  | blockEnd {out} : Reads [] (RBRACE :: out) [] .blockEnd out
  | eof : Reads [] [] [] .eof []
  | eofComment {body} (hbody : LF ∉ body) : Reads [] (SHARP :: body) [] .eof []

variable {args args' : List Bytes} {ls line ls' line' : Nat} {q ch : Byte} {w w' t text rest out : Bytes}
  {st : SrsDirectiveState}

/-- A word that is known, its bytes tested one by one. -/
theorem Spelled.known (hch : StartsWord ch) (hw : w.all (¬ EndsWord ·) = true) : Spelled (ch :: w) (ch :: w) :=
  .plain hch (List.all_iff_forall_prop.1 hw)

/-! ## What is written so is read -/

/-- The scan gets from one mode and its words to another, over these bytes. -/
def Passes (m : Mode) (args : List Bytes) (text : Bytes) (m' : Mode) (args' : List Bytes) (rest : Bytes) :
    Prop :=
  ∀ ls line, ∃ ls' line', scan m args ls line text = scan m' args' ls' line' rest

theorem comment_passes (h : LF ∉ w) : Passes .comment args (w ++ LF :: rest) .space args rest := by
  induction w with
  | nil =>
    intro ls line
    exact ⟨ls, nextLine line LF, rfl⟩
  | cons ch w ih =>
    rw [List.mem_cons, not_or] at h
    intro ls line
    obtain ⟨ls', line', hscan⟩ := ih h.2 ls (nextLine line ch)
    refine ⟨ls', line', ?_⟩
    rw [List.cons_append, scan_comment, if_neg (Ne.symm h.1)]
    exact hscan

theorem quoted_passes (h : q ∉ w') : Passes (.quoted q w) args (w' ++ q :: rest) .afterQuote
    (Scan.push args (cString (w ++ w'))) rest := by
  induction w' generalizing w with
  | nil =>
    intro ls line
    refine ⟨Scan.firstLine ls (nextLine line q), nextLine line q, ?_⟩
    rw [List.nil_append, List.append_nil, scan_quoted, if_pos rfl]
  | cons ch w' ih =>
    rw [List.mem_cons, not_or] at h
    intro ls line
    obtain ⟨ls', line', hscan⟩ :=
      ih (w := w ++ [ch]) h.2 (Scan.firstLine ls (nextLine line ch)) (nextLine line ch)
    refine ⟨ls', line', ?_⟩
    rw [List.cons_append, scan_quoted, if_neg (Ne.symm h.1)]
    rwa [List.append_assoc] at hscan

theorem word_passes (h : ∀ c ∈ w', ¬ EndsWord c) :
    Passes (.word w) args (w' ++ rest) (.word (w ++ w')) args rest := by
  induction w' generalizing w with
  | nil =>
    intro ls line
    exact ⟨ls, line, by rw [List.nil_append, List.append_nil]⟩
  | cons ch w' ih =>
    intro ls line
    obtain ⟨ls', line', hscan⟩ := ih (w := w ++ [ch]) (fun c hc => h c (List.mem_cons_of_mem _ hc))
      (Scan.firstLine ls (nextLine line ch)) (nextLine line ch)
    refine ⟨ls', line', ?_⟩
    have hch := h ch List.mem_cons_self
    unfold EndsWord at hch
    rw [not_or, not_or] at hch
    rw [List.cons_append, scan_word, if_neg hch.1, if_neg hch.2.1, if_neg hch.2.2]
    rwa [List.append_assoc] at hscan

/-- At a byte that ends a word, a plain word and a quoted one are alike. -/
theorem word_ends (hch : EndsWord ch) :
    Passes (.word w) args (ch :: rest) .afterQuote (Scan.push args (cString w)) (ch :: rest) := by
  intro ls line
  refine ⟨Scan.firstLine ls (nextLine line ch), line, ?_⟩
  rw [scan_word, scan_afterQuote]
  by_cases hsp : isCommonSpace ch = true
  · rw [if_pos hsp, if_pos hsp]
  rw [if_neg hsp, if_neg hsp]
  by_cases hsemi : ch = SEMICOLON
  · rw [if_pos hsemi, if_pos hsemi]
  rw [if_neg hsemi, if_neg hsemi]
  have hopen : ch = LBRACE := (hch.resolve_left hsp).resolve_left hsemi
  rw [if_pos hopen, if_pos hopen]

theorem Passes.trans {m₁ m₂ m₃ : Mode} {args₁ args₂ args₃ : List Bytes} {text₁ text₂ text₃ : Bytes}
    (h : Passes m₁ args₁ text₁ m₂ args₂ text₂) (h' : Passes m₂ args₂ text₂ m₃ args₃ text₃) :
    Passes m₁ args₁ text₁ m₃ args₃ text₃ := by
  intro ls line
  obtain ⟨ls₁, line₁, h₁⟩ := h ls line
  obtain ⟨ls₂, line₂, h₂⟩ := h' ls₁ line₁
  exact ⟨ls₂, line₂, h₁.trans h₂⟩

/-- A quote starts a quoted word. -/
theorem quote_passes (hq : q = DQUOTE ∨ q = SQUOTE) :
    Passes .space args (q :: rest) (.quoted q []) args rest := by
  intro ls line
  refine ⟨ls, nextLine line q, ?_⟩
  rw [scan_space]
  rcases hq with rfl | rfl
  · rw [if_neg (by decide), if_neg (by decide), if_neg (by decide), if_neg (by decide),
      if_neg (by decide), if_pos rfl]
  · rw [if_neg (by decide), if_neg (by decide), if_neg (by decide), if_neg (by decide),
      if_neg (by decide), if_neg (by decide), if_pos rfl]

/-- Another byte starts a plain word. -/
theorem start_passes (hch : StartsWord ch) : Passes .space args (ch :: rest) (.word [ch]) args rest := by
  intro ls line
  refine ⟨ls, nextLine line ch, ?_⟩
  obtain ⟨hsp, hch⟩ := hch
  simp only [List.mem_cons, List.not_mem_nil, or_false, not_or] at hch
  obtain ⟨hsemi, hopen, hclose, hcom, hdq, hsq⟩ := hch
  rw [scan_space, if_neg (by simp [hsp]), if_neg hsemi, if_neg hopen, if_neg hclose, if_neg hcom,
    if_neg hdq, if_neg hsq]

theorem spelled_passes (hw : Spelled w t) (hch : EndsWord ch) :
    Passes .space args (t ++ ch :: rest) .afterQuote (Scan.push args (cString w)) (ch :: rest) := by
  cases hw with
  | plain hstart hw =>
    exact (start_passes hstart).trans ((word_passes hw).trans (word_ends hch))
  | quoted hq hw =>
    rw [List.cons_append, List.append_assoc]
    exact (quote_passes hq).trans (quoted_passes hw)

/-- The token that a scan ends with, whatever the lines. -/
def Ends (m : Mode) (args : List Bytes) (text : Bytes) (args' : List Bytes) (st : SrsDirectiveState)
    (out : Bytes) : Prop :=
  ∀ ls line, ∃ ls' line', scan m args ls line text = .done ⟨args', ls', st, out, line'⟩

theorem Passes.ends {m m' : Mode} {args₁ : List Bytes} (h : Passes m args text m' args₁ rest)
    (he : Ends m' args₁ rest args' st out) : Ends m args text args' st out := by
  intro ls line
  obtain ⟨ls₁, line₁, h₁⟩ := h ls line
  obtain ⟨ls', line', h'⟩ := he ls₁ line₁
  exact ⟨ls', line', h₁.trans h'⟩

theorem space_passes (hch : isCommonSpace ch = true) : Passes .space args (ch :: rest) .space args rest := by
  intro ls line
  refine ⟨ls, nextLine line ch, ?_⟩
  rw [scan_space, if_pos hch]

theorem afterQuote_passes (hch : isCommonSpace ch = true) :
    Passes .afterQuote args (ch :: rest) .space args rest := by
  intro ls line
  refine ⟨ls, nextLine line ch, ?_⟩
  rw [scan_afterQuote, if_pos hch]

theorem sharp_passes : Passes .space args (SHARP :: rest) .comment args rest := by
  intro ls line
  refine ⟨ls, nextLine line SHARP, ?_⟩
  rw [scan_space, if_neg (by decide), if_neg (by decide), if_neg (by decide), if_neg (by decide),
    if_pos rfl]

theorem comment_ends (h : LF ∉ w) : Ends .comment [] w [] .eof [] := by
  induction w with
  | nil => exact fun ls line => ⟨ls, line, rfl⟩
  | cons ch w ih =>
    rw [List.mem_cons, not_or] at h
    intro ls line
    obtain ⟨ls', line', hscan⟩ := ih h.2 ls (nextLine line ch)
    refine ⟨ls', line', ?_⟩
    rw [scan_comment, if_neg (Ne.symm h.1)]
    exact hscan

/-- What stands in the text is found. -/
theorem ends_of_reads (h : Reads args text args' st out) : Ends .space args text args' st out := by
  induction h with
  | space hch _ ih => exact (space_passes hch).ends ih
  | comment hbody _ ih => exact (sharp_passes.trans (comment_passes hbody)).ends ih
  | word hw hch _ ih =>
    exact ((spelled_passes hw (Or.inl hch)).trans (afterQuote_passes hch)).ends ih
  | lastWord hw =>
    refine (spelled_passes hw (Or.inr (Or.inl rfl))).ends fun ls line => ⟨ls, nextLine line SEMICOLON, ?_⟩
    rw [scan_afterQuote, if_neg (by decide), if_pos rfl]
  | lastWordBlock hw =>
    refine (spelled_passes hw (Or.inr (Or.inr rfl))).ends fun ls line => ⟨ls, nextLine line LBRACE, ?_⟩
    rw [scan_afterQuote, if_neg (by decide), if_neg (by decide), if_pos rfl]
  | entire hargs =>
    refine fun ls line => ⟨ls, nextLine line SEMICOLON, ?_⟩
    rw [scan_space, if_neg (by decide), if_pos rfl, if_neg hargs]
  | blockStart hargs =>
    refine fun ls line => ⟨ls, nextLine line LBRACE, ?_⟩
    rw [scan_space, if_neg (by decide), if_neg (by decide), if_pos rfl, if_neg hargs]
  | blockEnd =>
    refine fun ls line => ⟨ls, nextLine line RBRACE, ?_⟩
    rw [scan_space, if_neg (by decide), if_neg (by decide), if_neg (by decide), if_pos rfl,
      if_neg (by simp)]
  | eof => exact fun ls line => ⟨ls, line, rfl⟩
  | eofComment hbody => exact sharp_passes.ends (comment_ends hbody)

/-! ## What is read is written so -/

/-- With what the scan has consumed of a comment or a word, the text reads as a directive. -/
def Resumes (args : List Bytes) (text : Bytes) (args' : List Bytes) (st : SrsDirectiveState)
    (out : Bytes) : Mode → Prop
  | .space => Reads args text args' st out
  | .comment => ∀ body, LF ∉ body → Reads args (SHARP :: (body ++ text)) args' st out
  | .word w => ∀ ch v, w = ch :: v → StartsWord ch → (∀ c ∈ v, ¬ EndsWord c) →
      Reads args (w ++ text) args' st out
  | .quoted q w => (q = DQUOTE ∨ q = SQUOTE) → q ∉ w → Reads args (q :: (w ++ text)) args' st out
  | .afterQuote => ∀ args₀ w t, Spelled w t → args = Scan.push args₀ (cString w) →
      Reads args₀ (t ++ text) args' st out

/-- The end of the text. -/
theorem resumes_nil {m : Mode} (h : scan m args ls line [] = .done ⟨args', ls', st, out, line'⟩) :
    Resumes args [] args' st out m := by
  rw [scan_nil] at h
  by_cases hend : args ≠ [] ∨ m.atEnd = false
  · rw [if_pos hend] at h
    cases h
  rw [if_neg hend] at h
  rw [not_or, not_not] at hend
  obtain ⟨hargs, hend⟩ := hend
  cases h
  subst hargs
  cases m with
  | space => exact .eof
  | comment =>
    intro body hbody
    rw [List.append_nil]
    exact .eofComment hbody
  | word w => exact absurd rfl hend
  | quoted q w => exact absurd rfl hend
  | afterQuote => exact absurd rfl hend

/-- What the scan finds stands in the text. -/
theorem resumes_of_scan {m : Mode} (h : scan m args ls line text = .done ⟨args', ls', st, out, line'⟩) :
    Resumes args text args' st out m := by
  induction text generalizing m args ls line with
  | nil => exact resumes_nil h
  | cons ch text ih =>
    cases m with
    | space =>
      rw [scan_space] at h
      by_cases hsp : isCommonSpace ch = true
      · rw [if_pos hsp] at h
        exact .space hsp (ih h)
      rw [if_neg hsp] at h
      by_cases hsemi : ch = SEMICOLON
      · rw [if_pos hsemi] at h
        by_cases hnil : args = []
        · rw [if_pos hnil] at h
          cases h
        · rw [if_neg hnil] at h
          cases h
          exact hsemi ▸ .entire hnil
      rw [if_neg hsemi] at h
      by_cases hopen : ch = LBRACE
      · rw [if_pos hopen] at h
        by_cases hnil : args = []
        · rw [if_pos hnil] at h
          cases h
        · rw [if_neg hnil] at h
          cases h
          exact hopen ▸ .blockStart hnil
      rw [if_neg hopen] at h
      by_cases hclose : ch = RBRACE
      · rw [if_pos hclose] at h
        by_cases hnil : args ≠ []
        · rw [if_pos hnil] at h
          cases h
        · rw [if_neg hnil] at h
          cases h
          rw [not_not] at hnil
          subst hnil
          exact hclose ▸ .blockEnd
      rw [if_neg hclose] at h
      by_cases hcom : ch = SHARP
      · rw [if_pos hcom] at h
        exact hcom ▸ ih h [] (by simp)
      rw [if_neg hcom] at h
      by_cases hdq : ch = DQUOTE
      · rw [if_pos hdq] at h
        exact hdq ▸ ih h (Or.inl rfl) (by simp)
      rw [if_neg hdq] at h
      by_cases hsq : ch = SQUOTE
      · rw [if_pos hsq] at h
        exact hsq ▸ ih h (Or.inr rfl) (by simp)
      rw [if_neg hsq] at h
      exact ih h ch [] rfl ⟨by simpa using hsp, by simp [*]⟩ (by simp)
    | comment =>
      rw [scan_comment] at h
      intro body hbody
      by_cases hlf : ch = LF
      · rw [if_pos hlf] at h
        exact hlf ▸ .comment hbody (ih h)
      · rw [if_neg hlf] at h
        have hread := ih h (body ++ [ch]) (by simp [hbody, Ne.symm hlf])
        rwa [List.append_assoc, List.singleton_append] at hread
    | word w =>
      rw [scan_word] at h
      intro c v hcv hstart hv
      have hw : Spelled w w := hcv ▸ .plain hstart hv
      by_cases hsp : isCommonSpace ch = true
      · rw [if_pos hsp] at h
        exact .word hw hsp (ih h)
      rw [if_neg hsp] at h
      by_cases hsemi : ch = SEMICOLON
      · rw [if_pos hsemi] at h
        cases h
        exact hsemi ▸ .lastWord hw
      rw [if_neg hsemi] at h
      by_cases hopen : ch = LBRACE
      · rw [if_pos hopen] at h
        cases h
        exact hopen ▸ .lastWordBlock hw
      rw [if_neg hopen] at h
      have hread := ih h c (v ++ [ch]) (by rw [hcv, List.cons_append]) hstart ?_
      · rwa [List.append_assoc, List.singleton_append] at hread
      · intro b hb
        rcases List.mem_append.1 hb with hb | hb
        · exact hv b hb
        · rw [List.mem_singleton.1 hb]
          unfold EndsWord
          tauto
    | quoted q w =>
      rw [scan_quoted] at h
      intro hq hqw
      by_cases hch : ch = q
      · rw [if_pos hch] at h
        have hread := ih h args w (q :: (w ++ [q])) (.quoted hq hqw) rfl
        rw [hch]
        simpa using hread
      · rw [if_neg hch] at h
        have hread := ih h hq (by simp [hqw, Ne.symm hch])
        rwa [List.append_assoc, List.singleton_append] at hread
    | afterQuote =>
      rw [scan_afterQuote] at h
      intro args₀ w t hw hargs
      by_cases hsp : isCommonSpace ch = true
      · rw [if_pos hsp] at h
        exact .word hw hsp (hargs ▸ ih h)
      rw [if_neg hsp] at h
      by_cases hsemi : ch = SEMICOLON
      · rw [if_pos hsemi] at h
        cases h
        rw [hargs, hsemi]
        exact .lastWord hw
      rw [if_neg hsemi] at h
      by_cases hopen : ch = LBRACE
      · rw [if_pos hopen] at h
        cases h
        rw [hargs, hopen]
        exact .lastWordBlock hw
      rw [if_neg hopen] at h
      cases h

/-! ## `read_token` -/

variable {buffer : SrsConfigBuffer} {tok : Token}

/-- The position is not behind the end. -/
def SrsConfigBuffer.Inside (b : SrsConfigBuffer) : Prop := b.pos ≤ b.text.length

/-- Reading only shortens what is left. -/
theorem Reads.suffix (h : Reads args text args' st out) : out <:+ text := by
  induction h with
  | space _ _ ih => exact ih.trans (List.suffix_cons _ _)
  | @comment _ body rest _ _ _ _ _ ih => exact ih.trans ⟨SHARP :: (body ++ [LF]), by simp⟩
  | word _ _ _ ih => exact ih.trans ((List.suffix_cons _ _).trans (List.suffix_append _ _))
  | lastWord _ => exact (List.suffix_cons _ _).trans (List.suffix_append _ _)
  | lastWordBlock _ => exact (List.suffix_cons _ _).trans (List.suffix_append _ _)
  | entire _ => exact List.suffix_cons _ _
  | blockStart _ => exact List.suffix_cons _ _
  | blockEnd => exact List.suffix_cons _ _
  | eof => exact List.suffix_refl _
  | eofComment _ => exact List.nil_suffix

/-- A token that is not the end of the file takes a byte at least. -/
theorem Reads.shorter (h : Reads args text args' st out) (hst : st ≠ .eof) : out.length < text.length := by
  induction h with
  | space _ _ ih => exact (ih hst).trans (Nat.lt_succ_self _)
  | comment _ _ ih =>
    have := ih hst
    simp only [List.length_cons, List.length_append]
    omega
  | word _ _ _ ih =>
    have := ih hst
    simp only [List.length_cons, List.length_append]
    omega
  | lastWord _ => simp only [List.length_cons, List.length_append]; omega
  | lastWordBlock _ => simp only [List.length_cons, List.length_append]; omega
  | entire _ => exact Nat.lt_succ_self _
  | blockStart _ => exact Nat.lt_succ_self _
  | blockEnd => exact Nat.lt_succ_self _
  | eof => exact absurd rfl hst
  | eofComment _ => exact absurd rfl hst

/-- A scan returns. -/
theorem scan_returns (m : Mode) (args : List Bytes) (ls line : Nat) (text : Bytes) :
    (scan m args ls line text).Returns := by
  induction text generalizing m args ls line with
  | nil =>
    rw [scan_nil]
    split
    · trivial
    · trivial
  | cons ch text ih =>
    cases m with
    | space =>
      rw [scan_space]
      split_ifs <;> first | apply ih | trivial
    | comment =>
      rw [scan_comment]
      split_ifs <;> apply ih
    | word w =>
      rw [scan_word]
      split_ifs <;> first | apply ih | trivial
    | quoted q w =>
      rw [scan_quoted]
      split_ifs <;> apply ih
    | afterQuote =>
      rw [scan_afterQuote]
      split_ifs <;> first | apply ih | trivial

/-- A token is a directive, or it has no words. -/
theorem Reads.kind (h : Reads args text args' st out) :
    (st = .entire ∨ st = .blockStart) ∨ (st = .eof ∨ st = .blockEnd) ∧ args' = [] := by
  induction h with
  | space _ _ ih => exact ih
  | comment _ _ ih => exact ih
  | word _ _ _ ih => exact ih
  | lastWord _ => exact Or.inl (Or.inl rfl)
  | lastWordBlock _ => exact Or.inl (Or.inr rfl)
  | entire _ => exact Or.inl (Or.inl rfl)
  | blockStart _ => exact Or.inl (Or.inr rfl)
  | blockEnd => exact Or.inr ⟨Or.inr rfl, rfl⟩
  | eof => exact Or.inr ⟨Or.inl rfl, rfl⟩
  | eofComment _ => exact Or.inr ⟨Or.inl rfl, rfl⟩

/-- The file ends at its end. -/
theorem Reads.eof_nil (h : Reads args text args' st out) (hst : st = .eof) : out = [] := by
  induction h with
  | space _ _ ih => exact ih hst
  | comment _ _ ih => exact ih hst
  | word _ _ _ ih => exact ih hst
  | lastWord _ => cases hst
  | lastWordBlock _ => cases hst
  | entire _ => cases hst
  | blockStart _ => cases hst
  | blockEnd => cases hst
  | eof => rfl
  | eofComment _ => rfl

/-- A text reads in one way only. -/
theorem Reads.unique {args₁ : List Bytes} {st₁ : SrsDirectiveState} {out₁ : Bytes}
    (h : Reads args text args' st out) (h₁ : Reads args text args₁ st₁ out₁) :
    args' = args₁ ∧ st = st₁ ∧ out = out₁ := by
  obtain ⟨ls, line, hscan⟩ := ends_of_reads h 0 1
  obtain ⟨ls₁, line₁, hscan₁⟩ := ends_of_reads h₁ 0 1
  have heq := Outcome.done.inj (hscan.symm.trans hscan₁)
  exact ⟨congrArg Lexeme.args heq, congrArg Lexeme.state heq, congrArg Lexeme.rest heq⟩

/-- A suffix of what is left is what is left at the position that stands for it. -/
theorem rest_of_suffix (h : out <:+ buffer.rest) {line : Nat} :
    SrsConfigBuffer.rest ⟨buffer.text, buffer.text.length - out.length, line⟩ = out := by
  have hsuffix : out <:+ buffer.text := h.trans (List.drop_suffix _ _)
  exact (List.suffix_iff_eq_drop.1 hsuffix).symm

/-- What `read_token` does: it returns a token that stands in the text, or an error. -/
theorem readToken_returns (hb : buffer.Inside) :
    (∃ tok, readToken buffer = .done tok ∧
      Reads [] buffer.rest tok.args tok.state tok.buffer.rest ∧ tok.buffer.Inside) ∨
    ∃ e, readToken buffer = .failed e := by
  rw [readToken_eq hb]
  rcases (scan_returns .space [] 0 buffer.line buffer.rest).cases with ⟨l, hl⟩ | ⟨e, he⟩
  · left
    have hread : Reads [] buffer.rest l.args l.state l.rest := resumes_of_scan hl
    refine ⟨_, by rw [hl]; rfl, ?_, Nat.sub_le _ _⟩
    rw [rest_of_suffix hread.suffix]
    exact hread
  · right
    exact ⟨e, by rw [he]; rfl⟩

/-- A token that stands in the text is returned. -/
theorem readToken_of_reads (hb : buffer.Inside) (h : Reads [] buffer.rest args st out) :
    ∃ tok, readToken buffer = .done tok ∧ tok.args = args ∧ tok.state = st ∧ tok.buffer.rest = out ∧
      tok.buffer.Inside := by
  obtain ⟨ls', line', hscan⟩ := ends_of_reads h 0 buffer.line
  rw [readToken_eq hb, hscan]
  exact ⟨_, rfl, rfl, rfl, rest_of_suffix h.suffix, Nat.sub_le _ _⟩

end HttpProxy
