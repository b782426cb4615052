import HttpProxy.Json.Modes

/-!
# The first pass

The first pass of `json_parse_ex` against the values that a single pass builds: the nodes that it allocates
have the types, the counts and the numbers of these values.

* `Matches`, `Pair` — a node and the value, the nodes of a pass and the values.
* `pair_move` — a move keeps the two together, or fails for both.
* `loop_pair` — so the first pass accepts a text exactly if the single pass does.
-/

namespace HttpProxy

namespace JsonParser

variable {δ σ : Type} {D : Doubles δ}

/-! ## Nodes and values -/

/-- A node has what the first pass knows of a value. -/
def Matches (node : Node δ) : Open δ → Prop
  | .object members _ => node.type = .object ∧ node.length = members.length
  | .array values => node.type = .array ∧ node.length = values.length
  | .number x => node.type = numberType x.isDouble ∧ node.integer = x.integer ∧ node.dbl = x.dbl
  | .string _ => node.type = .string
  | .boolean v => node.type = .boolean ∧ node.boolean = v
  | .null => node.type = .null

theorem Matches.type {node : Node δ} {o : Open δ} (h : Matches node o) : node.type = o.type := by
  cases o <;> first | exact h.1 | exact h

theorem matches_new (type : JsonType) : Matches (Node.new D type) (.ofNode (.new D type)) := by
  cases type <;> simp [Matches, Node.new, Open.ofNode, numberType]

/-- The nodes on the stack are those of the values, and each is there once. -/
structure Pair (c : Counted δ) (m : Built δ) : Prop where
  stack : List.Forall₂ (fun i o => ∃ node, c.nodes[i]? = some node ∧ Matches node o) c.stack m.stack
  order : c.stack.Pairwise (· > ·)
  length : c.stringLength = m.buffer.length

variable {c c' : Counted δ} {m m' : Built δ} {mode mode' : Mode} {s : Scan} {acts : List (Act δ)}
  {i : Nat} {st : List Nat} {o : Open δ} {os : List (Open δ)}

theorem Pair.types (h : Pair c m) : c.types = m.types := by
  have hstack := h.stack
  unfold Counted.types Built.types
  generalize c.stack = st at hstack
  generalize m.stack = os at hstack
  induction hstack with
  | nil => rfl
  | cons hd _ ih =>
    obtain ⟨node, hnode, hmatch⟩ := hd
    rw [List.filterMap_cons, hnode, Option.map_some, List.map_cons, ih, hmatch.type]

theorem getElem?_modify_self {nodes : List (Node δ)} {i : Nat} {node : Node δ} (h : nodes[i]? = some node)
    (f : Node δ → Node δ) : (nodes.modify i f)[i]? = some (f node) := by
  simp [h]

theorem getElem?_modify_ne {nodes : List (Node δ)} {i k : Nat} (h : k ≠ i) (f : Node δ → Node δ) :
    (nodes.modify k f)[i]? = nodes[i]? := by
  simp [h]

/-- A change to a node that is not among these. -/
theorem forall₂_modify {β : Type} {bs : List β} {R : Nat → Node δ → β → Prop} {nodes : List (Node δ)} {k : Nat}
    {f : Node δ → Node δ} (hk : k ∉ st)
    (h : List.Forall₂ (fun i b => ∃ node, nodes[i]? = some node ∧ R i node b) st bs) :
    List.Forall₂ (fun i b => ∃ node, (nodes.modify k f)[i]? = some node ∧ R i node b) st bs := by
  induction h with
  | nil => exact .nil
  | @cons i b st bs hd _ ih =>
    obtain ⟨node, hnode, hR⟩ := hd
    rw [List.mem_cons, not_or] at hk
    exact .cons ⟨node, (getElem?_modify_ne hk.1 f).trans hnode, hR⟩ (ih hk.2)

theorem Pair.push (h : Pair c m) {node : Node δ} (hm : Matches node o) :
    Pair (c.push node) { m with stack := o :: m.stack } := by
  have hlt : ∀ i ∈ c.stack, i < c.nodes.length := by
    intro i hi
    obtain ⟨o, node, hnode, -⟩ := exists_of_forall₂ h.stack hi
    exact (List.getElem?_eq_some_iff.1 hnode).1
  refine ⟨.cons ⟨node, by simp [Counted.push], hm⟩ ?_, List.pairwise_cons.2 ⟨hlt, h.order⟩, h.length⟩
  refine h.stack.imp fun i o hio => ?_
  obtain ⟨node', hnode, hmatch⟩ := hio
  exact ⟨node', List.getElem?_append_left (List.getElem?_eq_some_iff.1 hnode).1 ▸ hnode, hmatch⟩

/-- A change to `top`. -/
theorem Pair.modifyTop (h : Pair c m) {f : Node δ → Node δ} {g : Open δ → Open δ} (hm : m.stack = o :: os)
    (hfg : ∀ node, Matches node o → Matches (f node) (g o)) :
    ∃ c', c.modifyTop f = .done c' ∧ m.modifyTop g = .done { m with stack := g o :: os } ∧
      Pair c' { m with stack := g o :: os } := by
  have hstack := h.stack
  rw [hm] at hstack
  cases hc : c.stack with
  | nil =>
    rw [hc] at hstack
    cases hstack
  | cons i st =>
    rw [hc] at hstack
    have horder := h.order
    rw [hc, List.pairwise_cons] at horder
    cases hstack with
    | cons hd htail =>
      obtain ⟨node, hnode, hmatch⟩ := hd
      refine ⟨{ c with nodes := c.nodes.modify i f }, ?_, ?_, ?_, ?_, h.length⟩
      · rw [Counted.modifyTop, hc]
      · rw [Built.modifyTop, hm]
      · rw [hc]
        exact .cons ⟨f node, getElem?_modify_self hnode f, hfg node hmatch⟩
          (forall₂_modify (fun hi => absurd (horder.1 i hi) (lt_irrefl i)) htail)
      · rw [hc]
        exact List.pairwise_cons.2 horder

/-! ## The acts -/

/-- The two fail, or go on together. -/
def Together (mode' : Mode) (r : Outcome Unit (Counted δ)) (q : Outcome Unit (Built δ)) : Prop :=
  (r = .failed () ∧ q = .failed ()) ∨
    ∃ c' m', r = .done c' ∧ q = .done m' ∧ Pair c' m' ∧ m'.types = mode'.types

theorem acts_append (P : Pass δ σ) (as bs : List (Act δ)) (a : σ) :
    P.acts (as ++ bs) a = (P.acts as a).bind (P.acts bs) := by
  induction as generalizing a with
  | nil => rfl
  | cons act as ih =>
    rw [List.cons_append, Pass.acts, Pass.acts]
    cases P.act a act with
    | done a => exact ih a
    | failed e => rfl
    | fault x => rfl

theorem acts_cons_done {P : Pass δ σ} {act : Act δ} {as : List (Act δ)} {a a' : σ}
    (h : P.act a act = .done a') : P.acts (act :: as) a = P.acts as a' := by
  rw [Pass.acts, h, Outcome.bind_done]

theorem acts_closing (P : Pass δ σ) (p : JsonType) (ps : List JsonType) (a : σ) :
    P.acts (closing (p :: ps)) a = P.act a .attach := by
  rw [closing, Pass.acts]
  cases P.act a .attach <;> rfl

theorem type_put (o : Open δ) (v : JsonValue δ) : (o.put v).type = o.type := by
  cases o <;> rfl

theorem types_after (type : JsonType) {ps : List JsonType} (hc : Containers ps) (hne : ps ≠ []) :
    (Mode.after type ps).types = ps := by
  cases ps with
  | nil => exact absurd rfl hne
  | cons p ps =>
    rcases hc p List.mem_cons_self with rfl | rfl
    · rfl
    · rfl

/-- One more member or element. -/
theorem Matches.put {node : Node δ} {parent : Open δ} (h : Matches node parent)
    (ht : parent.type = .object ∨ parent.type = .array) (v : JsonValue δ) :
    node.length = parent.size ∧ Matches { node with length := node.length + 1 } (parent.put v) := by
  cases parent with
  | object ms name => exact ⟨h.2, h.1, by simp [h.2]⟩
  | array vs => exact ⟨h.2, h.1, by simp [h.2]⟩
  | number x => cases hx : x.isDouble <;> simp [Open.type, hx] at ht
  | _ => simp [Open.type] at ht

/-- The value that is `top` is put into its parent. -/
theorem Pair.attach (h : Pair c m) {o parent : Open δ} (hm : m.stack = o :: parent :: os)
    (ht : parent.type = .object ∨ parent.type = .array) :
    ((countPass D).act c .attach = .failed () ∧ (buildPass D).act m .attach = .failed ()) ∨
      ∃ c', (countPass D).act c .attach = .done c' ∧
        (buildPass D).act m .attach = .done { m with stack := parent.put o.value :: os } ∧
        Pair c' { m with stack := parent.put o.value :: os } := by
  have hstack := h.stack
  have horder := h.order
  rw [hm] at hstack
  obtain ⟨i, st, -, hst, hcs⟩ := List.forall₂_cons_right_iff.1 hstack
  obtain ⟨j, st, ⟨node, hnode, hmatch⟩, htail, rfl⟩ := List.forall₂_cons_right_iff.1 hst
  rw [hcs, List.pairwise_cons, List.pairwise_cons] at horder
  have hj : j ∉ st := fun hj => absurd (horder.2.1 j hj) (lt_irrefl j)
  obtain ⟨hsize, hput⟩ := hmatch.put ht o.value
  have hmod := getElem?_modify_self hnode fun node => { node with length := node.length + 1 }
  have hcount : (countPass D).act c .attach =
      if uintMax < node.length + 1 then .failed ()
      else .done { c with nodes := c.nodes.modify j fun node => { node with length := node.length + 1 },
                          stack := j :: st } := by
    simp only [countPass, Counted.act, hcs, hmod]
    simp
  have hbuild : (buildPass D).act m .attach =
      if uintMax < parent.size + 1 then .failed ()
      else .done { m with stack := parent.put o.value :: os } := by
    simp only [buildPass, Built.act, hm]
  rw [hcount, hbuild, hsize]
  by_cases hmax : uintMax < parent.size + 1
  · exact .inl ⟨if_pos hmax, if_pos hmax⟩
  · refine .inr ⟨_, if_neg hmax, if_neg hmax, ?_, horder.2 |> List.pairwise_cons.2, h.length⟩
    exact .cons ⟨_, hmod, hput⟩ (forall₂_modify hj htail)

/-- A value ends. -/
theorem Pair.finish (h : Pair c m) {type : JsonType} {ps : List JsonType} (ht : m.types = type :: ps)
    (hc : Containers ps) :
    Together (.after type ps) ((countPass D).acts (closing ps) c) ((buildPass D).acts (closing ps) m) := by
  cases ps with
  | nil => exact .inr ⟨c, m, rfl, rfl, h, ht⟩
  | cons p ps =>
    obtain ⟨o, os, hm, -, hos⟩ := List.map_eq_cons_iff.1 ht
    obtain ⟨parent, os, rfl, hp, hos⟩ := List.map_eq_cons_iff.1 hos
    have hcont := hc p List.mem_cons_self
    rw [← hp] at hcont
    rcases h.attach (D := D) hm hcont with ⟨h1, h2⟩ | ⟨c', h1, h2, hpair⟩
    · exact .inl ⟨by rw [acts_closing, h1], by rw [acts_closing, h2]⟩
    · refine .inr ⟨c', _, by rw [acts_closing, h1], by rw [acts_closing, h2], hpair, ?_⟩
      rw [types_after type hc (List.cons_ne_nil _ _), Built.types, List.map_cons, type_put, hp, hos]

/-- A value ends behind an act that changes `top`. -/
theorem together_cons {act : Act δ} {as : List (Act δ)} {c₁ : Counted δ} {m₁ : Built δ}
    (hc : (countPass D).act c act = .done c₁) (hm : (buildPass D).act m act = .done m₁)
    (h : Together mode' ((countPass D).acts as c₁) ((buildPass D).acts as m₁)) :
    Together mode' ((countPass D).acts (act :: as) c) ((buildPass D).acts (act :: as) m) := by
  rwa [acts_cons_done hc, acts_cons_done hm]

theorem together_nil (h : Pair c m) (ht : m.types = mode'.types) :
    Together mode' ((countPass D).acts [] c) ((buildPass D).acts [] m) := .inr ⟨c, m, rfl, rfl, h, ht⟩

/-- A new value. -/
theorem Pair.newValue (h : Pair c m) (type : JsonType) {as : List (Act δ)}
    (hrest : ∀ c₁ m₁, Pair c₁ m₁ → m₁.types = type :: m.types →
      Together mode' ((countPass D).acts as c₁) ((buildPass D).acts as m₁)) :
    Together mode' ((countPass D).acts (.newValue type :: as) c)
      ((buildPass D).acts (.newValue type :: as) m) := by
  have hm := matches_new (D := D) type
  refine together_cons rfl rfl (hrest _ _ (h.push hm) ?_)
  rw [Built.types, List.map_cons, ← hm.type]
  rfl

/-- More bytes of a string. -/
theorem Pair.add (h : Pair c m) (bs : Bytes) (ht : m.types = mode'.types) :
    Together mode' ((countPass D).acts (bs.map .add) c) ((buildPass D).acts (bs.map .add) m) := by
  induction bs generalizing c m with
  | nil => exact together_nil h ht
  | cons b bs ih =>
    refine together_cons rfl rfl (ih ⟨h.stack, h.order, ?_⟩ ht)
    simp [h.length]

/-- A change to a number. -/
theorem Matches.number {node : Node δ} {x : Num δ} (h : Matches node (.number x)) (f : Num δ → Num δ) :
    Matches (node.number f) (.number (f x)) := by
  obtain ⟨htype, hint, hdbl⟩ := h
  have hdec : decide (node.type = .double) = x.isDouble := by
    rw [htype]
    cases x.isDouble <;> rfl
  have hnum : node.type = .integer ∨ node.type = .double := by
    rw [htype]
    cases x.isDouble <;> simp [numberType]
  simp only [Node.number, if_pos hnum, hdec, hint, hdbl]
  exact ⟨rfl, rfl, rfl⟩

/-- Changes to the number that is `top`. -/
theorem build_number (fs : List (Num δ → Num δ)) {x : Num δ} (hm : m.stack = .number x :: os) :
    (buildPass D).acts (fs.map .number) m = .done { m with stack := .number (changed fs x) :: os } := by
  induction fs generalizing m x with
  | nil =>
    rw [changed, List.foldl_nil, ← hm]
    rfl
  | cons f fs ih =>
    have hact : (buildPass D).act m (.number f) = .done { m with stack := .number (f x) :: os } := by
      simp only [buildPass, Built.act, Built.modifyTop, hm, Open.change]
    rw [List.map_cons, acts_cons_done hact, ih rfl]
    rfl

/-- Changes to a number. -/
theorem Pair.number {fs : List (Num δ → Num δ)} {x : Num δ} (h : Pair c m) (hm : m.stack = .number x :: os) :
    ∃ c', (countPass D).acts (fs.map .number) c = .done c' ∧
      Pair c' { m with stack := .number (changed fs x) :: os } := by
  induction fs generalizing c m x with
  | nil =>
    refine ⟨c, rfl, ?_⟩
    rwa [changed, List.foldl_nil, ← hm]
  | cons f fs ih =>
    obtain ⟨c₁, hc₁, -, hpair⟩ := h.modifyTop (f := Node.number f) (g := Open.change f) hm
      fun node hnode => hnode.number f
    obtain ⟨c', hc', hpair'⟩ := ih (x := f x) hpair rfl
    exact ⟨c', by rw [List.map_cons, acts_cons_done hc₁, hc'], hpair'⟩

/-- The types of `top` and of the values around. -/
theorem stack_of_types {t : JsonType} {ps : List JsonType} (h : m.types = t :: ps) :
    ∃ o os, m.stack = o :: os ∧ o.type = t ∧ os.map Open.type = ps := by
  obtain ⟨o, os, hm, ho, hos⟩ := List.map_eq_cons_iff.1 h
  exact ⟨o, os, hm, ho, hos⟩

theorem number_of_type {o : Open δ} {double : Bool} (h : o.type = numberType double) :
    ∃ x, o = .number x ∧ x.isDouble = double := by
  cases o with
  | number x =>
    refine ⟨x, rfl, ?_⟩
    cases hx : x.isDouble <;> cases double <;> simp [Open.type, numberType, hx] at h ⊢
  | _ => cases double <;> simp [Open.type, numberType] at h

/-- The types behind a change to a number. -/
theorem types_number {fs : List (Num δ → Num δ)} {double double' : Bool} {x : Num δ} {ps : List JsonType}
    (hfs : Changes fs double double') (hx : x.isDouble = double) (hos : os.map Open.type = ps) :
    ({ m with stack := .number (changed fs x) :: os } : Built δ).types = numberType double' :: ps := by
  rw [Built.types, List.map_cons, hos, Open.type, hfs x hx]
  rfl

theorem setText_matches {t : Bytes} {o : Open δ} (ho : o.type = .string) (n : Nat) (node : Node δ)
    (h : Matches node o) : Matches { node with length := n } (o.setText t) := by
  cases o with
  | string _ => exact h
  | number x => cases hx : x.isDouble <;> simp [Open.type, hx] at ho
  | _ => simp [Open.type] at ho

theorem setName_matches {t : Bytes} {o : Open δ} (ho : o.type = .object) (n : Nat) (node : Node δ)
    (h : Matches node o) : Matches { node with names := n } (o.setName t) := by
  cases o with
  | object _ _ => exact h
  | number x => cases hx : x.isDouble <;> simp [Open.type, hx] at ho
  | _ => simp [Open.type] at ho

theorem type_setText (o : Open δ) (t : Bytes) : (o.setText t).type = o.type := by
  cases o <;> rfl

theorem type_setName (o : Open δ) (t : Bytes) : (o.setName t).type = o.type := by
  cases o <;> rfl

/-- **A move** keeps the nodes and the values together. -/
theorem pair_move (h : Pair c m) (ht : m.types = mode.types) (hf : Fits mode s) (hm : Move mode acts mode') :
    Together mode' ((countPass D).acts acts c) ((buildPass D).acts acts m) := by
  cases hm with
  | quiet => exact together_nil h ht
  | closeArray ps =>
    cases hf with
    | seek hc => exact h.finish ht (containers_tail hc)
  | closeObject ps =>
    cases hf with
    | object hc => exact h.finish ht hc
  | openObject types =>
    exact h.newValue .object fun c₁ m₁ h₁ ht₁ => together_nil h₁ (ht₁.trans (congrArg _ ht))
  | openArray types =>
    exact h.newValue .array fun c₁ m₁ h₁ ht₁ => together_nil h₁ (ht₁.trans (congrArg _ ht))
  | openString types =>
    refine h.newValue .string fun c₁ m₁ h₁ ht₁ => together_cons rfl rfl ?_
    exact together_nil ⟨h₁.stack, h₁.order, rfl⟩ (ht₁.trans (congrArg _ ht))
  | openNumber types =>
    exact h.newValue .integer fun c₁ m₁ h₁ ht₁ => together_nil h₁ (ht₁.trans (congrArg _ ht))
  | boolean v types =>
    cases hf with
    | seek hc =>
      have hmatch : Matches { Node.new D .boolean with boolean := v } (.boolean v) := ⟨rfl, rfl⟩
      refine together_cons rfl rfl ((h.push hmatch).finish ?_ hc)
      rw [Built.types, List.map_cons]
      exact congrArg _ ht
  | null types =>
    cases hf with
    | seek hc => exact h.newValue .null fun c₁ m₁ h₁ ht₁ => h₁.finish (ht₁.trans (congrArg _ ht)) hc
  | beginName ps => exact together_cons rfl rfl (together_nil ⟨h.stack, h.order, rfl⟩ ht)
  | addText bs ps => exact h.add bs ht
  | addName bs ps => exact h.add bs ht
  | endText ps =>
    cases hf with
    | text hc =>
      obtain ⟨o, os, hstack, ho, hos⟩ := stack_of_types ht
      obtain ⟨c₁, hc₁, hm₁, h₁⟩ := h.modifyTop (f := fun node => { node with length := c.stringLength })
        (g := .setText m.buffer) hstack (setText_matches ho _)
      refine together_cons hc₁ hm₁ (h₁.finish ?_ hc)
      rw [Built.types, List.map_cons, type_setText, ho, hos]
  | endName ps =>
    obtain ⟨o, os, hstack, ho, hos⟩ := stack_of_types ht
    obtain ⟨c₁, hc₁, hm₁, h₁⟩ := h.modifyTop
      (f := fun node => { node with names := node.names + (c.stringLength + 1) }) (g := .setName m.buffer)
      hstack fun node hnode => setName_matches ho _ node hnode
    refine together_cons hc₁ hm₁ (together_nil h₁ ?_)
    rw [Built.types, List.map_cons, type_setName, ho, hos]
    rfl
  | @number fs d d' hfs ps =>
    obtain ⟨o, os, hstack, ho, hos⟩ := stack_of_types ht
    obtain ⟨x, rfl, hx⟩ := number_of_type ho
    obtain ⟨c', hc', h'⟩ := h.number hstack
    exact .inr ⟨c', _, hc', build_number fs hstack, h', types_number hfs hx hos⟩
  | @endNumber fs double hfs ps =>
    cases hf with
    | number hc =>
      obtain ⟨o, os, hstack, ho, hos⟩ := stack_of_types ht
      obtain ⟨x, rfl, hx⟩ := number_of_type ho
      obtain ⟨c', hc', h'⟩ := h.number hstack
      rw [acts_append, acts_append, hc', build_number fs hstack, Outcome.bind_done, Outcome.bind_done]
      exact h'.finish (types_number hfs hx hos) hc

/-! ## The whole pass -/

/-- **The first pass and the single pass** do the same, and end. -/
theorem loop_pair {fuel : Nat} {n : NumScan} (h : Pair c m) (ht : m.types = mode.types) (hf : Fits mode s)
    (hfuel : cost mode s < fuel) :
    (loop D (countPass D) true fuel s n c = .failed () ∧ loop D (buildPass D) true fuel s n m = .failed ()) ∨
      ∃ c' m' type, loop D (countPass D) true fuel s n c = .done c' ∧
        loop D (buildPass D) true fuel s n m = .done m' ∧ Pair c' m' ∧ m'.types = [type] := by
  induction fuel generalizing s n c m mode with
  | zero => omega
  | succ fuel ih =>
    have htc : (countPass D).types c = mode.types := h.types.trans ht
    have htm : (buildPass D).types m = mode.types := ht
    have hlen : (countPass D).stringLength c = (buildPass D).stringLength m := h.length
    rw [loop, loop, htc, htm, hlen]
    rcases control_cases (D := D) (n := n) ((buildPass D).stringLength m) hf with
      hctl | ⟨hctl, type, rfl⟩ | ⟨acts, s', n', hctl, mode', hmove, hf', hcost⟩
    · rw [hctl]
      exact .inl ⟨rfl, rfl⟩
    · rw [hctl]
      exact .inr ⟨c, m, type, rfl, rfl, h, ht⟩
    · rw [hctl]
      dsimp only
      rcases pair_move (D := D) h ht hf hmove with ⟨h1, h2⟩ | ⟨c', m', h1, h2, h', ht'⟩
      · exact .inl ⟨by rw [h1]; rfl, by rw [h2]; rfl⟩
      · rw [h1, h2]
        exact ih h' ht' hf' (by omega)

end JsonParser

end HttpProxy
