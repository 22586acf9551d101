import GraphQLEngine.Proofs.Graph.Links
import GraphQLEngine.Proofs.Waves.Operations

/-!
# Null stays null

The engine gives a content only to nodes that wait for one, and adds nodes only beneath those that
do not wait any more.  So while a value is completed, no other node that waits is made null, and
every node of a wave still waits when its turn comes, also where those above it are null by then.
Hence a null that was written is never overwritten.

    Graph.Goes n g g'        the engine went from `g` to `g'`, and decided about `n`
    Moment.Orderly m         the nodes of the wave at work wait, and those of its tasks do not
-/

namespace GraphQLEngine

variable {σ : Type}

namespace Graph

/-! ## Nodes that wait -/

def Waits (g : Graph) (n : Nat) : Prop := g.content? n = some .pending

/-- The node is there and does not wait. -/
def Decided (g : Graph) (n : Nat) : Prop := ∃ c, g.content? n = some c ∧ c ≠ .pending

/-- Nothing is beneath a node that waits. -/
def Bare (g : Graph) : Prop := ∀ {c x p}, g.node? c = some x → x.parent = some p → g.Decided p

theorem Waits.lt {g : Graph} {n : Nat} (h : g.Waits n) : n < g.size := by
  rw [Waits, content?_eq] at h
  obtain ⟨x, hx, -⟩ := Option.map_eq_some_iff.mp h
  exact lt_size hx

theorem Decided.lt {g : Graph} {n : Nat} (h : g.Decided n) : n < g.size := by
  obtain ⟨c, hc, -⟩ := h
  rw [content?_eq] at hc
  obtain ⟨x, hx, -⟩ := Option.map_eq_some_iff.mp hc
  exact lt_size hx

theorem Decided.not_waits {g : Graph} {n : Nat} (h : g.Decided n) : ¬g.Waits n := by
  obtain ⟨c, hc, decided⟩ := h
  intro waits
  exact decided (Option.some.inj (hc.symm.trans waits))

/-! ## One operation -/

theorem adopt_ne_pending {child : Nat} {c : NodeContent} {seg : PathSegment} (h : c ≠ .pending) :
    c.adopt child seg ≠ .pending := by
  cases c <;> cases seg <;> simp_all [NodeContent.adopt]

/-- Nodes stay what they are but for their content; what was decided stays decided, and null stays
null. -/
structure Keeps (g g' : Graph) : Prop where
  grows : g.Grows g'
  decided : ∀ {n}, g.Decided n → g'.Decided n

theorem Keeps.null {g g' : Graph} (h : g.Keeps g') {n : Nat} (isNull : g.content? n = some .null) :
    g'.content? n = some .null := by
  rw [content?_eq] at isNull ⊢
  obtain ⟨x, hx, eq⟩ := Option.map_eq_some_iff.mp isNull
  obtain ⟨c, hc, null⟩ := h.grows n x hx
  rw [hc, Option.map_some, null eq]

theorem Keeps.trans {a b c : Graph} (h : a.Keeps b) (h' : b.Keeps c) : a.Keeps c :=
  ⟨h.grows.trans h'.grows, fun decided => h'.decided (h.decided decided)⟩

theorem keeps_attach {g : Graph} {p : Nat} (seg : PathSegment) (b : Bool) :
    g.Keeps (g.attach p seg b) where
  grows := grows_attach seg b
  decided {n} h := by
    have lt := h.lt
    obtain ⟨c, hc, decided⟩ := h
    rw [content?_eq] at hc
    obtain ⟨x, hx, rfl⟩ := Option.map_eq_some_iff.mp hc
    by_cases parent : n = p
    · subst parent
      exact ⟨_, by rw [content?_eq, node?_attach_parent seg b hx]; rfl, adopt_ne_pending decided⟩
    · exact ⟨x.content, by rw [content?_eq, node?_attach_of_ne seg b parent (by omega), hx]; rfl,
        decided⟩

theorem keeps_setContent {g : Graph} {n : Nat} (waits : g.Waits n) (c : NodeContent) :
    g.Keeps (g.setContent n c) where
  grows := by
    have pending := waits
    rw [Waits, content?_eq] at pending
    obtain ⟨x, hx, pending⟩ := Option.map_eq_some_iff.mp pending
    exact grows_setContent c hx pending
  decided {m} h := by
    have other : m ≠ n := fun eq => h.not_waits (eq ▸ waits)
    obtain ⟨c', hc, decided⟩ := h
    exact ⟨c', by rw [content?_eq, node?_setContent, if_neg other, ← content?_eq, hc], decided⟩

theorem keeps_nullify (g : Graph) (n : Nat) : g.Keeps (g.nullify n) where
  grows := grows_nullify g n
  decided {m} h := by
    obtain ⟨c, hc, decided⟩ := h
    by_cases mem : m ∈ g.nullChain n
    · rw [content?_eq] at hc
      obtain ⟨x, hx, -⟩ := Option.map_eq_some_iff.mp hc
      exact ⟨.null, by rw [content?_eq, node?_nullify, if_pos mem, hx]; rfl, by simp⟩
    · exact ⟨c, by rw [content?_eq, node?_nullify, if_neg mem, ← content?_eq, hc], decided⟩

theorem Admits.keeps {g : Graph} {op : GraphOp} (h : g.Admits op) : g.Keeps (g.act op) := by
  rcases act_cases h.has with ⟨-, seg, b, eq⟩ | ⟨c, gives, -, -, eq⟩ | ⟨es, eq⟩ <;> rw [eq]
  · exact keeps_attach seg b
  · exact keeps_setContent (h.waits (by rw [gives]; rfl)) c
  · have := keeps_nullify g op.node
    exact ⟨this.grows, this.decided⟩

theorem Builds.keeps {g g' : Graph} (h : g.Builds g') : g.Keeps g' := by
  induction h with
  | refl => exact ⟨.refl g, id⟩
  | tail _ step ih =>
    obtain ⟨op, admits, rfl⟩ := step
    exact ih.trans admits.keeps

/-- An operation of the engine, which adds nodes only beneath those that are decided. -/
structure Performs (g : Graph) (op : GraphOp) : Prop extends g.Admits op where
  decided : op.adds = true → g.Decided op.node

/-- A new node waits beneath the one that it was added to. -/
theorem new_of_act {g : Graph} {op : GraphOp} (has : op.node < g.size) {n : Nat} {x : GraphNode}
    (hx : (g.act op).node? n = some x) (new : g.size ≤ n) :
    op.adds = true ∧ x.parent = some op.node := by
  have lt := lt_size hx
  rcases act_cases has with ⟨adds, seg, b, eq⟩ | ⟨c, -, -, -, eq⟩ | ⟨es, eq⟩ <;> rw [eq] at hx lt
  · obtain ⟨y, hy⟩ := exists_node has
    rcases node?_attach_cases hy hx with ⟨-, rfl⟩ | ⟨old, -, -⟩ | ⟨rfl, -⟩
    · exact ⟨adds, rfl⟩
    · omega
    · omega
  · rw [size_setContent] at lt
    omega
  · have same : (g.nullify op.node).size = g.size := size_nullify g op.node
    exact absurd (same ▸ lt : n < g.size) (by omega)

theorem Performs.bare {g : Graph} (bare : g.Bare) {op : GraphOp} (h : g.Performs op) :
    (g.act op).Bare := by
  intro c x p hx hp
  have keeps := h.toAdmits.keeps
  rcases Nat.lt_or_ge c g.size with old | new
  · obtain ⟨y, hy, parent, -⟩ := keeps.grows.node?_of hx old
    exact keeps.decided (bare hy (parent ▸ hp))
  · obtain ⟨adds, parent⟩ := new_of_act h.has hx new
    rw [hp, Option.some.injEq] at parent
    exact keeps.decided (parent ▸ h.decided adds)

/-- Null is passed on only to nodes that something is beneath, and these do not wait. -/
theorem waits_nullify {g : Graph} (bare : g.Bare) {n m : Nat} (other : m ≠ n) (waits : g.Waits m) :
    (g.nullify n).Waits m := by
  have outside : m ∉ g.nullChain n := by
    intro mem
    obtain ⟨c, x, -, hx, hp, -⟩ := exists_below_of_mem_nullChain mem other
    exact (bare hx hp).not_waits waits
  rwa [Waits, content?_eq, node?_nullify, if_neg outside, ← content?_eq]

theorem Performs.others {g : Graph} (bare : g.Bare) {op : GraphOp} (h : g.Performs op) {m : Nat}
    (other : m ≠ op.node) (waits : g.Waits m) : (g.act op).Waits m := by
  have lt := waits.lt
  rcases act_cases h.has with ⟨-, seg, b, eq⟩ | ⟨c, -, -, -, eq⟩ | ⟨es, eq⟩ <;> rw [eq]
  · rwa [Waits, content?_eq, node?_attach_of_ne seg b other (by omega), ← content?_eq]
  · rwa [Waits, content?_eq, node?_setContent, if_neg other, ← content?_eq]
  · exact waits_nullify bare other waits

/-! ## What the engine does -/

/-- The engine went from a graph to another and decided about one node; no other node that waited is
decided about. -/
structure Goes (n : Nat) (g g' : Graph) : Prop where
  builds : g.Builds g'
  bare : g'.Bare
  others : ∀ {m}, m ≠ n → g.Waits m → g'.Waits m

theorem Goes.refl {g : Graph} (bare : g.Bare) (n : Nat) : Goes n g g := ⟨.refl, bare, fun _ => id⟩

/-- The engine goes on at the same node or at a new one. -/
theorem Goes.trans {g g₁ g₂ : Graph} {n k : Nat} (h : Goes n g g₁) (h' : Goes k g₁ g₂)
    (next : k = n ∨ g.size ≤ k) : Goes n g g₂ where
  builds := h.builds.trans h'.builds
  bare := h'.bare
  others {m} other waits := by
    have := waits.lt
    exact h'.others (by omega) (h.others other waits)

theorem Performs.goes {g : Graph} (bare : g.Bare) {op : GraphOp} (h : g.Performs op) :
    Goes op.node g (g.act op) :=
  ⟨.single ⟨op, h.toAdmits, rfl⟩, h.bare bare, h.others bare⟩

variable {g : Graph} {n : Nat}

theorem goes_addField (bare : g.Bare) (decided : g.Decided n) (name : String) (b : Bool) :
    Goes n g (g.addField n name b) ∧ (g.addField n name b).Waits g.size := by
  have performs : g.Performs (.addField n name b) :=
    ⟨⟨decided.lt, by simp [GraphOp.content?]⟩, fun _ => decided⟩
  refine ⟨performs.goes bare, ?_⟩
  rw [addField_eq_attach name b decided.lt, Waits, content?_eq, node?_attach_self _ b decided.lt]
  rfl

theorem goes_addItem (bare : g.Bare) (decided : g.Decided n) (b : Bool) :
    Goes n g (g.addItem n b) ∧ (g.addItem n b).Waits g.size := by
  have performs : g.Performs (.addItem n b) :=
    ⟨⟨decided.lt, by simp [GraphOp.content?]⟩, fun _ => decided⟩
  refine ⟨performs.goes bare, ?_⟩
  rw [addItem_eq_attach 0 b decided.lt, Waits, content?_eq, node?_attach_self _ b decided.lt]
  rfl

/-- A node that waits is given a content, or is made null. -/
theorem goes_complete (bare : g.Bare) (waits : g.Waits n) (op : GraphOp) (on : op.node = n)
    (completes : op.adds = false) : Goes n g (g.act op) := by
  subst on
  exact Performs.goes bare ⟨⟨waits.lt, fun _ => waits⟩, by simp [completes]⟩

theorem decided_setContent {c : NodeContent} (waits : g.Waits n) (decided : c ≠ .pending) :
    (g.setContent n c).Decided n := by
  obtain ⟨x, hx⟩ := exists_node waits.lt
  exact ⟨c, by rw [content?_eq, node?_setContent, if_pos rfl, hx]; rfl, decided⟩

end Graph

/-! ## Completing values -/

section

variable {s : Schema} {field : RequestField}

/-- A value was completed at a node, and the tasks that are left are beneath nodes that do not
wait. -/
structure Fills (g : Graph) (n : Nat) (out : Graph × List Task) : Prop where
  goes : Graph.Goes n g out.1
  parents : ∀ t ∈ out.2, out.1.Decided t.parent

theorem fills_of_goes {g g' : Graph} {n : Nat} (goes : Graph.Goes n g g') : Fills g n (g', []) :=
  ⟨goes, fun _ h => absurd h List.not_mem_nil⟩

mutual

/-- Completing a value at a node that waits decides about it and about new nodes. -/
theorem completeValue_fills {g : Graph} {n : Nat} (bare : g.Bare) (waits : g.Waits n) (t : TypeRef)
    (v : Settled) (path : Path) : Fills g n (completeValue s field g n t v path) := by
  rw [completeValue_eq]
  have judged := judge_judged s field.name t v
  generalize judge s field.name t v = V at judged
  cases judged with
  | failed v fault =>
    exact fills_of_goes (Graph.goes_complete bare waits (.fail n fault path) rfl rfl)
  | null => exact fills_of_goes (Graph.goes_complete bare waits (.nullify n) rfl rfl)
  | @list v item items ht =>
    have goes := Graph.goes_complete bare waits (.setList n) rfl rfl
    have items := completeItems_fills goes.bare (Graph.decided_setContent waits (by simp)) item 0
      items path
    exact ⟨goes.trans items.goes (.inl rfl), items.parents⟩
  | @leaf v u => exact fills_of_goes (Graph.goes_complete bare waits (.setLeaf n u) rfl rfl)
  | object =>
    refine ⟨Graph.goes_complete bare waits (.setObject n) rfl rfl, fun task mem => ?_⟩
    obtain ⟨sub, -, rfl⟩ := List.mem_map.mp mem
    exact Graph.decided_setContent waits (by simp)
termination_by (sizeOf t, 1, 0)
decreasing_by exact .left _ _ (sizeOf_lt_of_nullable ht)

/-- Completing the items of a list adds their nodes one after the other. -/
theorem completeItems_fills {g : Graph} {n : Nat} (bare : g.Bare) (decided : g.Decided n)
    (item : TypeRef) (index : Nat) (items : List Settled) (path : Path) :
    Fills g n (completeItems s field g n item index items path) := by
  cases items with
  | nil =>
    rw [completeItems]
    exact fills_of_goes (.refl bare n)
  | cons v vs =>
    rw [completeItems]
    obtain ⟨added, new⟩ := Graph.goes_addItem bare decided item.isNonNull
    have first := completeValue_fills added.bare new item v (path ++ [.index index])
    have goes := added.trans first.goes (.inr (Nat.le_refl _))
    have rest := completeItems_fills first.goes.bare (goes.builds.keeps.decided decided) item
      (index + 1) vs path
    refine ⟨goes.trans rest.goes (.inl rfl), fun t mem => ?_⟩
    rcases List.mem_append.mp mem with mem | mem
    · exact rest.goes.builds.keeps.decided (first.parents t mem)
    · exact rest.parents t mem
termination_by (sizeOf item, 2, items.length)

end

end

/-! ## Waves -/

/-- The nodes of calls wait, each for its own value. -/
structure Graph.Awaits (g : Graph) (calls : List (Invocation σ)) : Prop where
  nodup : (calls.map Invocation.node).Nodup
  waits : ∀ i ∈ calls, g.Waits i.node

namespace Engine

variable {e : Engine σ} {caller : Caller} {rules : Rules σ} {base : Nat} {m m' : Moment σ}

theorem completeWave_builds {g : Graph} (bare : g.Bare) {calls : List (Invocation σ)}
    (awaits : g.Awaits calls) (values : List Settled) :
    g.Builds (e.completeWave g calls values).1 ∧ (e.completeWave g calls values).1.Bare ∧
      ∀ t ∈ (e.completeWave g calls values).2,
        (e.completeWave g calls values).1.Decided t.parent := by
  induction calls generalizing g values with
  | nil => exact ⟨.refl, bare, fun _ h => absurd h List.not_mem_nil⟩
  | cons i is ih =>
    cases values with
    | nil => exact ⟨.refl, bare, fun _ h => absurd h List.not_mem_nil⟩
    | cons v vs =>
      obtain ⟨nodup, waits⟩ := awaits
      rw [List.map_cons, List.nodup_cons] at nodup
      have first : Fills g i.node (completeValue e.schema i.field g i.node i.type v i.path) :=
        completeValue_fills bare (waits i List.mem_cons_self) i.type v i.path
      obtain ⟨builds, bare', parents⟩ := ih first.goes.bare
        ⟨nodup.2, fun j hj => first.goes.others (fun eq => nodup.1 (eq ▸ List.mem_map_of_mem hj))
          (waits j (List.mem_cons_of_mem _ hj))⟩ vs
      rw [completeWave]
      refine ⟨first.goes.builds.trans builds, bare', fun t mem => ?_⟩
      rcases List.mem_append.mp mem with mem | mem
      · exact builds.keeps.decided (first.parents t mem)
      · exact parents t mem

/-- Making the node of a task decides about no node but that one. -/
theorem prepareTask_goes {g : Graph} (bare : g.Bare) {t : Task} (decided : g.Decided t.parent) :
    Graph.Goes t.parent g (e.prepareTask caller g t).1 ∧
      ∀ i, (e.prepareTask caller g t).2 = some i →
        i.node = g.size ∧ (e.prepareTask caller g t).1.Waits g.size := by
  have added := Graph.goes_addField bare decided t.field.outputName
  have completed : ∀ {b} (op : GraphOp), op.node = g.size → op.adds = false →
      Graph.Goes t.parent g ((g.addField t.parent t.field.outputName b).act op) :=
    fun op on completes => (added _).1.trans
      (Graph.goes_complete (added _).1.bare (added _).2 op on completes) (.inr (Nat.le_refl _))
  unfold prepareTask
  simp only
  split
  · exact ⟨.refl bare _, fun _ h => by cases h⟩
  · split
    · exact ⟨completed (.setLeaf _ _) rfl rfl, fun _ h => by cases h⟩
    · split
      · exact ⟨completed (.fail _ _ _) rfl rfl, fun _ h => by cases h⟩
      · next d _ =>
        split
        · split
          · exact ⟨completed (.fail _ _ _) rfl rfl, fun _ h => by cases h⟩
          · refine ⟨(added _).1, fun i eq => ?_⟩
            cases eq
            exact ⟨rfl, (added _).2⟩
        · exact ⟨completed (.fail _ _ _) rfl rfl, fun _ h => by cases h⟩

/-- Making the nodes of a wave leaves the nodes of its calls, which are new, waiting. -/
theorem prepare_awaits {g : Graph} (bare : g.Bare) {tasks : List Task}
    (decided : ∀ t ∈ tasks, g.Decided t.parent) :
    g.Builds (e.prepare caller g tasks).1 ∧ (e.prepare caller g tasks).1.Bare ∧
      (∀ {m}, g.Waits m → (e.prepare caller g tasks).1.Waits m) ∧
      (e.prepare caller g tasks).1.Awaits (e.prepare caller g tasks).2 ∧
      ∀ i ∈ (e.prepare caller g tasks).2, g.size ≤ i.node := by
  induction tasks generalizing g with
  | nil =>
    exact ⟨.refl, bare, id, ⟨List.nodup_nil, fun _ h => absurd h List.not_mem_nil⟩,
      fun _ h => absurd h List.not_mem_nil⟩
  | cons t ts ih =>
    have parent := decided t List.mem_cons_self
    obtain ⟨goes, call⟩ : Graph.Goes t.parent g (e.prepareTask caller g t).1 ∧ _ :=
      prepareTask_goes bare parent
    obtain ⟨builds, bare', kept, awaits, new⟩ := ih goes.bare fun u hu =>
      goes.builds.keeps.decided (decided u (List.mem_cons_of_mem _ hu))
    have grown := goes.builds.keeps.grows.size_le
    rw [prepare]
    refine ⟨goes.builds.trans builds, bare', fun waits => kept (goes.others ?_ waits), ?_, ?_⟩
    · rintro rfl
      exact parent.not_waits waits
    · cases made : (e.prepareTask caller g t).2 with
      | none => exact awaits
      | some i =>
        obtain ⟨node, waits⟩ := call i made
        refine ⟨List.nodup_cons.mpr ⟨fun mem => ?_, awaits.nodup⟩, fun j hj => ?_⟩
        · obtain ⟨j, hj, same⟩ := List.mem_map.mp mem
          have := new j hj
          have := waits.lt
          omega
        · rcases List.mem_cons.mp hj with rfl | hj
          · exact node ▸ kept waits
          · exact awaits.waits j hj
    · intro j hj
      rcases List.mem_append.mp hj with hj | hj
      · exact Nat.le_of_eq (call j (Option.mem_toList.mp hj)).1.symm
      · exact grown.trans (new j hj)

end Engine

/-! ## Executions -/

/-- The nodes of the wave at work wait, and those of its tasks do not. -/
def Point.Orderly : Point σ → Prop
  | .tasks _ _ _ g ts => g.Bare ∧ ∀ t ∈ ts, g.Decided t.parent
  | .resolving _ _ g calls => g.Bare ∧ g.Awaits (calls.map Prod.fst)
  | .settling _ _ g calls _ | .passed _ _ g calls _ | .fetching _ _ g calls _ _ =>
    g.Bare ∧ g.Awaits calls
  | .stopped .. => True

structure Moment.Orderly (m : Moment σ) : Prop where
  point : m.point.Orderly
  remaining : ∀ ts ∈ m.remaining, ∀ t ∈ ts, m.point.graph.Decided t.parent

/-- The graph that an execution has come to. -/
def Polled.graph : Polled σ → Graph
  | .suspended x => x.graph
  | .completed g | .stopped g _ => g

theorem Moment.Stands.graph {m : Moment σ} {r : Polled σ × OperationState σ} (h : m.Stands r) :
    m.point.graph = r.1.graph := by
  cases h with
  | suspended comes => cases comes <;> rfl
  | completed comes => cases comes; rfl
  | stopped comes => cases comes; rfl

namespace Engine

variable {e : Engine σ} {caller : Caller} {rules : Rules σ} {base : Nat} {m m' : Moment σ}

theorem Step.orderly (h : e.Step caller rules base m m') (O : m.Orderly) :
    m.point.graph.Builds m'.point.graph ∧ m'.Orderly := by
  cases h with
  | @next past tasks ts remaining levels run depth g st ended =>
    exact ⟨.refl, ⟨O.point.1, O.remaining tasks List.mem_cons_self⟩,
      fun ts hts => O.remaining ts (List.mem_cons_of_mem _ hts)⟩
  | @prepare past tasks remaining levels run depth g st _ =>
    obtain ⟨builds, bare, -, awaits, -⟩ : g.Builds (e.prepare caller g tasks).1 ∧ _ :=
      prepare_awaits O.point.1 O.point.2
    refine ⟨builds, ⟨bare, ?_⟩, fun ts hts t ht => builds.keeps.decided (O.remaining ts hts t ht)⟩
    rw [List.map_map]
    simpa [Function.comp_def] using awaits
  | resolve =>
    refine ⟨.refl, ⟨O.point.1, ?_⟩, O.remaining⟩
    rw [Invocation.fst_pollAll]
    exact O.point.2
  | collect | pass | take | fetch | fetched => exact ⟨.refl, O.point, O.remaining⟩
  | @complete past remaining levels w g calls values st _ =>
    obtain ⟨builds, bare, parents⟩ :
        g.Builds (e.completeWave g calls (FieldValue.abandonItems values)).1 ∧ _ :=
      completeWave_builds O.point.1 O.point.2 (FieldValue.abandonItems values)
    exact ⟨builds, ⟨bare, parents⟩,
      fun ts hts t ht => builds.keeps.decided (O.remaining ts hts t ht)⟩
  | stop => exact ⟨.refl, trivial, O.remaining⟩

theorem Pause.orderly (h : Pause rules m m') (O : m.Orderly) :
    m.point.graph.Builds m'.point.graph ∧ m'.Orderly := by
  cases h with
  | resolving rescheduled =>
    exact ⟨.refl, ⟨O.point.1, rescheduled.map_fst ▸ O.point.2⟩, O.remaining⟩
  | fetching => exact ⟨.refl, O.point, O.remaining⟩

theorem Reaches.orderly (reached : e.Reaches caller rules base m m') (O : m.Orderly) :
    m.point.graph.Builds m'.point.graph ∧ m'.Orderly := by
  induction reached with
  | refl => exact ⟨.refl, O⟩
  | tail _ h ih =>
    obtain ⟨builds, O'⟩ := ih
    obtain ⟨builds', O''⟩ := h.elim (fun step => step.orderly O') fun pause => pause.orderly O'
    exact ⟨builds.trans builds', O''⟩

theorem bare_new : Graph.new.Bare := by
  intro c x p hx hp
  obtain rfl : c = 0 := Nat.lt_one_iff.mp (Graph.lt_size hx)
  cases hx
  cases hp

theorem decided_root : Graph.new.Decided Graph.root := ⟨.object [], rfl, by simp⟩

/-- What an operation begins with was built from the root. -/
theorem From.orderly {r : Request} {g : Graph} {runs : List (List Task)} {st : OperationState σ}
    (h : e.From r base g runs) : Graph.new.Builds g ∧ (Moment.initial g runs st).Orderly := by
  cases h with
  | @request rootType found =>
    have roots : ∀ t ∈ (Engine.runs r.kind rootType r.fields).flatten,
        Graph.new.Decided t.parent := by
      intro t ht
      rw [flatten_runs] at ht
      obtain ⟨f, -, rfl⟩ := List.mem_map.mp ht
      exact decided_root
    exact ⟨.refl, ⟨bare_new, fun _ h => absurd h List.not_mem_nil⟩,
      fun ts hts t ht => roots t (List.mem_flatten.mpr ⟨ts, hts, ht⟩)⟩
  | @event rootType field d v _ _ _ =>
    obtain ⟨added, waits⟩ :=
      Graph.goes_addField bare_new decided_root field.outputName d.type.isNonNull
    have filled : Fills _ Graph.new.size (completeValue e.schema field
        (Graph.new.addField Graph.root field.outputName d.type.isNonNull) Graph.new.size d.type v
        [.field field.outputName]) := completeValue_fills added.bare waits d.type v _
    refine ⟨added.builds.trans filled.goes.builds,
      ⟨filled.goes.bare, fun _ h => absurd h List.not_mem_nil⟩, fun ts hts t ht => ?_⟩
    rw [List.mem_singleton.mp hts] at ht
    exact filled.parents t ht

end Engine

/-- Nulling is exact.  In every graph that operations on nodes that there are lead to from the root,
parents come before their children, in both directions of the links, so that the walks up and down
end at nodes that there are; making a node null makes null exactly the nodes of the chain that begins
at it and ends at the first that may be null, or at the root; no error changes but that a failure
adds its own; and a node is nulled exactly if it or one above it is null.  Contents that are given
only to nodes that wait leave null as it is, and the graph of every operation, wherever it has come
to, was built in this way from the root and is built on in this way. -/
theorem nulling_exact :
    (∀ {g}, Graph.Becomes .new g → g.Rooted ∧ ∀ {n}, n < g.size →
      (∀ g', g.Nullifies n g' ↔ g' = g.nullify n) ∧
      (∀ b, g.Finds n b ↔ b = g.isNulled n) ∧
      (∀ v, g.Reads n v ↔ v = g.toJson n) ∧
      g.NullsChain n (g.nullify n) ∧ (g.nullify n).errors = g.errors ∧
      (∀ fault path, g.fail n fault path = (g.nullify n).recordError fault path) ∧
      (g.isNulled n = true ↔ ∃ m, g.Above n m ∧ g.content? m = some .null)) ∧
    (∀ {g g' : Graph}, g.Builds g' → ∀ {n}, g.content? n = some .null →
      g'.content? n = some .null) ∧
    ∀ {σ : Type} {e : Engine σ} {r caller base st₀ start}, e.Starts r caller base st₀ start →
      ∀ {log p}, e.Course caller .free st₀ start log p → Graph.new.Builds p.1.graph ∧
        ∀ {st₁ log' p'}, e.Course caller .free st₁ p log' p' →
          p.1.graph.Builds p'.1.graph := by
  refine ⟨fun becomes => ?_, fun builds => builds.keeps.null, ?_⟩
  · have R := Graph.rooted_new.becomes becomes
    refine ⟨R, fun lt => ⟨fun g' => ⟨fun h => h.eq R, ?_⟩, fun b => ⟨fun h => h.eq R, ?_⟩,
      fun v => ⟨fun h => h.eq R, ?_⟩, R.nullsChain lt, Graph.errors_nullify _ _,
      Graph.fail_eq _ _, R.isNulled_iff lt⟩⟩
    · rintro rfl
      exact R.nullifies lt
    · rintro rfl
      exact R.finds lt
    · rintro rfl
      exact R.reads lt
  · intro σ e r caller base st₀ start starts log p course
    obtain ⟨g, runs, from_, rfl⟩ := starts.from
    obtain ⟨m, reached, stands, -⟩ : ∃ m, e.Reaches caller .free base _ m ∧ _ := course.reaches
    obtain ⟨begun, O⟩ : Graph.new.Builds g ∧ (Moment.initial g runs st₀).Orderly := from_.orderly
    obtain ⟨builds, O'⟩ := reached.orderly O
    refine ⟨stands.graph ▸ begun.trans builds, fun later => ?_⟩
    obtain ⟨m', onward, stands', -⟩ : ∃ m', e.Reaches caller .free base m m' ∧ _ :=
      later.follows stands
    exact stands.graph ▸ stands'.graph ▸ (onward.orderly O').1

/-! ## A null while a field is still to come -/

namespace Posts

def schema : Schema :=
  ⟨⟨[("Int", ⟨"Int", .scalar .int⟩), ("String", ⟨"String", .scalar .string⟩),
      ("Query", ⟨"Query", .object [("tags", .of "tags" (.list (.nonNull (.named "String")))),
        ("post", .of "post" (.named "Post"))]⟩),
      ("Post", ⟨"Post", .object [("views", .of "views" (.named "Int"))]⟩)], by decide⟩,
    "Query", none, none⟩

/-- One of the tags is gone, and the views of the post take their time. -/
def engine : Engine Unit :=
  ⟨schema,
    ⟨[(⟨"Query", "tags"⟩, .field ⟨fun _ => 0, fun _ s =>
        (.ok (.list [.value (.str "new"), .error (.internal "gone")]), s)⟩),
      (⟨"Query", "post"⟩, .field ⟨fun _ => 0, fun _ s => (.ok (.value (.obj [])), s)⟩),
      (⟨"Post", "views"⟩, .field ⟨fun _ => 7, fun _ s => (.ok (.value (.int 3)), s)⟩)]⟩,
    [], .default⟩

/-- The request `{ tags post { views } }`. -/
def request : Request :=
  ⟨none, .query, [⟨none, "tags", [], []⟩, ⟨none, "post", [], [⟨none, "views", [], []⟩]⟩]⟩

abbrev begun : OperationState Unit := ⟨0, engine.coordinator, .start default ()⟩

/-- The state when the views are due. -/
def due (st : OperationState Unit) : OperationState Unit :=
  { st with world := { st.world with clock := 7 } }

/-- What is nulled while the views are awaited, how many nodes there are, and the data at last. -/
def answer? : Option (List Bool × Nat × Option Json) :=
  match engine.execute request Sample.caller begun with
  | .ok (.suspended ⟨g, .resolving levels calls, remaining⟩, st) =>
    match engine.poll Sample.caller ⟨g, .resolving levels calls, remaining⟩ (due st) with
    | (.completed g', _) => some ((List.range g.size).map g.isNulled, g.size, g'.data)
    | _ => none
  | _ => none

/-- The tags are null for want of one of them, and stay null while the rest is built. -/
theorem nulling_exact_posts :
    ∃ x st g st', engine.Starts request Sample.caller 0 begun (.suspended x, st) ∧
      engine.Course Sample.caller .free begun (.suspended x, st)
        (st.since begun ++ st'.since (due st)) (.completed g, st') ∧
      g.data = some (.obj [("tags", .null), ("post", .obj [("views", .int 3)])]) ∧
      (∃ m, x.graph.Above 4 m ∧ x.graph.content? m = some .null ∧ g.content? m = some .null) ∧
      x.graph.NullsChain 5 (x.graph.nullify 5) := by
  obtain ⟨becomes, keeps, courses⟩ := nulling_exact
  have ran : answer? = some ([false, true, false, true, true, false], 6,
      some (.obj [("tags", .null), ("post", .obj [("views", .int 3)])])) := by cbv
  unfold answer? at ran
  split at ran
  · next g levels calls remaining st started =>
    split at ran
    · next g' st' polled =>
      obtain ⟨nulled, size, data⟩ : (List.range g.size).map g.isNulled = _ ∧ g.size = 6 ∧
          g'.data = _ := by simpa only [Option.some.injEq, Prod.mk.injEq] using ran
      have starts : engine.Starts request Sample.caller 0 begun
          (.suspended ⟨g, .resolving levels calls, remaining⟩, st) := .request started
      have first : engine.Course Sample.caller .free begun
          (.suspended ⟨g, .resolving levels calls, remaining⟩, st) (st.since begun) _ := .start
      have between : Rules.free.between st (due st) := rfl
      have course := first.poll (.resolving levels (.refl calls)) trivial between
      rw [polled] at course
      obtain ⟨builds, onward⟩ : Graph.new.Builds g ∧ _ := courses starts first
      obtain ⟨-, nodes⟩ := becomes builds.becomes
      have isNulled : g.isNulled 4 = true := by
        have item := congrArg (·[4]?) nulled
        simpa [size] using item
      obtain ⟨-, -, -, -, -, -, isNulled_iff⟩ := nodes (by omega : 4 < g.size)
      obtain ⟨-, -, -, chain, -⟩ := nodes (by omega : 5 < g.size)
      obtain ⟨m, above, isNull⟩ := isNulled_iff.mp isNulled
      exact ⟨_, st, g', st', starts, course, data,
        ⟨m, above, isNull, keeps (onward course) isNull⟩, chain⟩
    · cases ran
  · cases ran

end Posts

end GraphQLEngine
