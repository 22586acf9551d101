import GraphQLEngine.Proofs.Graph.Ledger

/-!
# Completing a value keeps the ledger

Completing the value of a waiting node decides about the node, adds the nodes of the items of
lists, and leaves the fields of objects as tasks.  Nothing else in the ledger changes, and what
is still due beneath the nodes are the tasks:

    completeValue_completes    there are entries that account for the graph afterwards
    Completed.due              due' m = dueTo tasks m        for the nodes that were decided about
-/

namespace GraphQLEngine

/-! ## Tasks that are due -/

/-- The segment that a task adds beneath its object. -/
def Task.key (t : Task) : PathSegment := .field t.field.outputName

/-- The segments that tasks add beneath a node. -/
def dueTo (tasks : List Task) (p : Nat) : List PathSegment :=
  (tasks.filter fun t => t.parent = p).map Task.key

@[simp] theorem dueTo_nil (p : Nat) : dueTo [] p = [] := rfl

theorem dueTo_append (ts us : List Task) (p : Nat) :
    dueTo (ts ++ us) p = dueTo ts p ++ dueTo us p := by
  simp [dueTo]

theorem dueTo_cons_self (t : Task) (ts : List Task) :
    dueTo (t :: ts) t.parent = t.key :: dueTo ts t.parent := by
  simp [dueTo]

theorem dueTo_cons_of_ne {t : Task} {p : Nat} (h : t.parent ≠ p) (ts : List Task) :
    dueTo (t :: ts) p = dueTo ts p := by
  simp [dueTo, h]

theorem dueTo_eq_nil {tasks : List Task} {p : Nat} (h : ∀ t ∈ tasks, t.parent ≠ p) :
    dueTo tasks p = [] := by
  rw [dueTo, List.filter_eq_nil_iff.mpr fun t ht => by simpa using h t ht, List.map_nil]

/-- The tasks of an object are what is due beneath it. -/
theorem dueTo_subfieldTasks (n : Nat) (typeName : String) (v : Json) (f : RequestField)
    (path : Path) :
    dueTo (subfieldTasks n typeName v f path) n =
      f.subfields.map fun sub => .field sub.outputName := by
  have all : ((subfieldTasks n typeName v f path).filter fun t => t.parent = n) =
      subfieldTasks n typeName v f path := by
    rw [List.filter_eq_self]
    intro t ht
    obtain ⟨sub, -, rfl⟩ := List.mem_map.mp ht
    simp
  rw [dueTo, all, subfieldTasks, List.map_map]
  rfl

/-- A task is for a field selected on the object of a node. -/
structure Task.Fits (pos : Nat → Entry) (t : Task) : Prop where
  object : (pos t.parent).verdict = some (.object t.parentType t.parentValue)
  path : t.path = (pos t.parent).path
  selected : t.field ∈ (pos t.parent).field.subfields

theorem Task.Fits.of_eq {pos pos' : Nat → Entry} {t : Task} (h : t.Fits pos)
    (same : pos' t.parent = pos t.parent) : t.Fits pos' :=
  ⟨same ▸ h.object, same ▸ h.path, same ▸ h.selected⟩

/-! ## The outcome of completing -/

section

variable {σ : Type} (e : Engine σ) (caller : Caller) (gives : Gives)

/-- The ledger after nodes from the number `old` on were added and all of them decided about,
along with the tasks that this left; beneath `top` nodes may have been added. -/
structure Extended (old : Nat) (top : Nat) (pos : Nat → Entry) (due : Nat → List PathSegment)
    (out : Graph × List Task) (pos' : Nat → Entry) (due' : Nat → List PathSegment) :
    Prop where
  ledger : Ledger e caller gives out.1 pos' due'
  size : old ≤ out.1.size
  kept : ∀ {m}, m < old → m ≠ top → pos' m = pos m ∧ due' m = due m
  decided : ∀ {m}, old ≤ m → m < out.1.size → (pos' m).verdict ≠ none
  fits : ∀ {t}, t ∈ out.2 →
    t.Fits pos' ∧ t.parent < out.1.size ∧ t.field ∈ (pos top).field.subfields
  due : ∀ {m}, old ≤ m → m < out.1.size → due' m = dueTo out.2 m

/-- A value was completed at the node `n`. -/
structure Completed (g : Graph) (n : Nat) (V : Verdict) (pos : Nat → Entry)
    (due : Nat → List PathSegment) (out : Graph × List Task) (pos' : Nat → Entry)
    (due' : Nat → List PathSegment) : Prop extends
    Extended e caller gives g.size n pos due out pos' due' where
  grows : g.Grows out.1
  self : pos' n = { pos n with verdict := some V }
  due_self : due' n = dueTo out.2 n
  parents : ∀ {t}, t ∈ out.2 → t.parent = n ∨ g.size ≤ t.parent

/-- The items of the list at the node `n` were completed. -/
structure ItemsCompleted (g : Graph) (n : Nat) (pos : Nat → Entry)
    (due : Nat → List PathSegment) (out : Graph × List Task) (pos' : Nat → Entry)
    (due' : Nat → List PathSegment) : Prop extends
    Extended e caller gives g.size n pos due out pos' due' where
  grows : g.Grows out.1
  self : pos' n = pos n
  due_self : due' n = []
  parents : ∀ {t}, t ∈ out.2 → g.size ≤ t.parent

end

section

variable {σ : Type} {e : Engine σ} {caller : Caller} {gives : Gives} {g : Graph}
  {pos : Nat → Entry} {due : Nat → List PathSegment} {n : Nat} {V : Verdict}

/-- A verdict without nodes beneath it was written. -/
theorem completed_of_decide {g' : Graph} {tasks : List Task} {ks : List PathSegment}
    (lt : n < g.size)
    (L : Ledger e caller gives g' (Ledger.decide pos n V) (Function.update due n ks))
    (grows : g.Grows g') (size : g'.size = g.size) (keys : ks = dueTo tasks n)
    (fits : ∀ t ∈ tasks, t.Fits (Ledger.decide pos n V) ∧ t.parent = n ∧
      t.field ∈ (pos n).field.subfields) :
    Completed e caller gives g n V pos due (g', tasks) (Ledger.decide pos n V)
      (Function.update due n ks) where
  ledger := L
  grows := grows
  size := Nat.le_of_eq size.symm
  kept _ ne := ⟨Ledger.decide_of_ne ne, Function.update_of_ne ne _ _⟩
  decided old new := by rw [size] at new; omega
  fits ht := by
    obtain ⟨fit, parent, selected⟩ := fits _ ht
    exact ⟨fit, by rw [parent, size]; exact lt, selected⟩
  due old new := by rw [size] at new; omega
  self := Function.update_self n _ pos
  due_self := by rw [Function.update_self, keys]
  parents ht := .inl (fits _ ht).2.1

/-- The verdict of a list was written and then its items completed. -/
theorem completed_of_items {item : TypeRef} {items : List Settled} {out : Graph × List Task}
    {pos' : Nat → Entry} {due' : Nat → List PathSegment} (lt : n < g.size) {x : GraphNode}
    (hx : g.node? n = some x) (pending : x.content = .pending) {ks : List PathSegment}
    (h : ItemsCompleted e caller gives (g.setList n) n (Ledger.decide pos n (.list item items))
      (Function.update due n ks) out pos' due') :
    Completed e caller gives g n (.list item items) pos due out pos' due' := by
  have size : (g.setList n).size = g.size := Graph.size_setContent g n _
  exact {
    ledger := h.ledger
    grows := (Graph.grows_setContent _ hx pending).trans h.grows
    size := size ▸ h.size
    kept := by
      intro m old ne
      obtain ⟨hpos, hdue⟩ := h.kept (size.symm ▸ old) ne
      rw [hpos, hdue, Ledger.decide_of_ne ne, Function.update_of_ne ne]
      exact ⟨rfl, rfl⟩
    decided := fun old new => h.decided (size.symm ▸ old) new
    fits := by
      intro t ht
      obtain ⟨fit, parent, selected⟩ := h.fits ht
      rw [Ledger.field_decide] at selected
      exact ⟨fit, parent, selected⟩
    due := fun old new => h.due (size.symm ▸ old) new
    self := by rw [h.self]; exact Function.update_self n _ pos
    due_self := by
      rw [h.due_self, dueTo_eq_nil]
      intro t ht same
      have above := h.parents ht
      omega
    parents := fun ht => .inr (size ▸ h.parents ht) }

/-- An item was attached and completed, and then the items after it. -/
theorem itemsCompleted_cons {key : PathSegment} {rest : List PathSegment} {b : Bool}
    {f : RequestField} {W : Verdict}
    {first second : Graph × List Task} {pos₁ pos₂ : Nat → Entry}
    {due₁ due₂ : Nat → List PathSegment} (lt : n < g.size) (same : f = (pos n).field)
    (h : Completed e caller gives (g.attach n key b) g.size W
      (Function.update pos g.size ⟨(pos n).path ++ [key], f, none⟩) (Function.update due n rest)
      first pos₁ due₁)
    (h' : ItemsCompleted e caller gives first.1 n pos₁ due₁ second pos₂ due₂) :
    ItemsCompleted e caller gives g n pos due (second.1, first.2 ++ second.2) pos₂ due₂ := by
  have size₁ := h.size
  rw [Graph.size_attach] at size₁
  have old : ∀ {m}, m < g.size → pos₁ m = pos m ∧ due₁ m = Function.update due n rest m := by
    intro m hm
    obtain ⟨hpos, hdue⟩ := h.kept (m := m) (by rw [Graph.size_attach]; omega) (by omega)
    exact ⟨by rw [hpos, Function.update_of_ne (Nat.ne_of_lt hm)], hdue⟩
  have self : pos₂ n = pos n := by rw [h'.self, (old lt).1]
  have parents₁ : ∀ {t}, t ∈ first.2 → g.size ≤ t.parent ∧ t.parent < first.1.size := by
    intro t ht
    refine ⟨?_, (h.fits ht).2.1⟩
    rcases h.parents ht with eq | above
    · omega
    · rw [Graph.size_attach] at above
      omega
  have size₂ := h'.size
  constructor
  case toExtended =>
    constructor
    case ledger => exact h'.ledger
    case size => show g.size ≤ second.1.size; omega
    case kept =>
      intro m hm ne
      obtain ⟨hpos, hdue⟩ := h'.kept (m := m) (by omega) ne
      rw [hpos, hdue, (old hm).1, (old hm).2, Function.update_of_ne ne]
      exact ⟨rfl, rfl⟩
    case decided =>
      intro m hm new
      by_cases late : first.1.size ≤ m
      · exact h'.decided late new
      · rw [(h'.kept (by omega) (by omega)).1]
        by_cases eq : m = g.size
        · rw [eq, h.self]; simp
        · exact h.decided (by rw [Graph.size_attach]; omega) (by omega)
    case fits =>
      intro t ht
      rcases List.mem_append.mp ht with ht | ht
      · obtain ⟨fit, -, selected⟩ := h.fits ht
        have ⟨above, below⟩ := parents₁ ht
        refine ⟨fit.of_eq (h'.kept below (by omega)).1, by show _ < second.1.size; omega, ?_⟩
        rw [Function.update_self] at selected
        exact same ▸ selected
      · obtain ⟨fit, parent, selected⟩ := h'.fits ht
        exact ⟨fit, parent, (old lt).1 ▸ selected⟩
    case due =>
      intro m hm new
      rw [dueTo_append]
      by_cases late : first.1.size ≤ m
      · have none : dueTo first.2 m = [] := dueTo_eq_nil fun t ht eq => by
          have := (parents₁ ht).2
          omega
        rw [none, List.nil_append]
        exact h'.due late new
      · have none : dueTo second.2 m = [] := dueTo_eq_nil fun t ht eq => by
          have := h'.parents ht
          omega
        rw [none, List.append_nil, (h'.kept (by omega) (by omega)).2]
        by_cases eq : m = g.size
        · rw [eq]; exact h.due_self
        · exact h.due (by rw [Graph.size_attach]; omega) (by omega)
  case grows => exact (Graph.grows_attach key b).trans (h.grows.trans h'.grows)
  case self => exact self
  case due_self => exact h'.due_self
  case parents =>
    intro t ht
    rcases List.mem_append.mp ht with ht | ht
    · exact (parents₁ ht).1
    · exact Nat.le_trans (by omega) (h'.parents ht)

end

/-! ## The mutual recursion -/

/-- What the ledger has to say before a settled value of a type is completed at a node. -/
structure Awaiting {σ : Type} (e : Engine σ) (caller : Caller) (gives : Gives) (g : Graph)
    (pos : Nat → Entry) (due : Nat → List PathSegment) (n : Nat) (field : RequestField)
    (path : Path) (V : Verdict) : Prop where
  ledger : Ledger e caller gives g pos due
  lt : n < g.size
  waiting : (pos n).verdict = none
  field : (pos n).field = field
  path : (pos n).path = path
  allowed : ∀ {x p}, g.node? n = some x → x.parent = some p →
    Beneath e caller gives (pos p) (due p) { pos n with verdict := some V } x.nonNull

section

variable {σ : Type} {e : Engine σ} {caller : Caller} {gives : Gives}

mutual

/-- Completing a value decides about its node as `judge` does. -/
theorem completeValue_completes {g : Graph} {pos : Nat → Entry} {due : Nat → List PathSegment}
    {n : Nat} (field : RequestField) (path : Path) (t : TypeRef) (w : Settled)
    (A : Awaiting e caller gives g pos due n field path (judge e.schema field.name t w)) :
    ∃ pos' due', Completed e caller gives g n (judge e.schema field.name t w) pos due
      (completeValue e.schema field g n t w path) pos' due' := by
  obtain ⟨x, hx⟩ := Graph.exists_node A.lt
  have pending := Ledger.content_of_waiting A.ledger.toLinked hx A.waiting
  have allowed := @A.allowed
  rw [completeValue_eq]
  have judged := judge_judged e.schema field.name t w
  generalize judge e.schema field.name t w = V at A allowed judged ⊢
  cases judged with
  | failed w fault =>
    have L := A.ledger.fail A.lt A.waiting fault allowed
    rw [A.path] at L
    exact ⟨_, _, completed_of_decide A.lt L (Graph.grows_nullify (g.recordError fault path) n)
      (Graph.size_nullify _ n) rfl (fun _ h => absurd h List.not_mem_nil)⟩
  | null =>
    exact ⟨_, _, completed_of_decide A.lt (A.ledger.void A.lt A.waiting allowed)
      (Graph.grows_nullify g n) (Graph.size_nullify g n) rfl
      (fun _ h => absurd h List.not_mem_nil)⟩
  | @list w item items ht =>
    -- the items of the list are still to come
    have L := A.ledger.fill A.lt A.waiting allowed (.list [] item items)
      (fun h => nomatch h) rfl
    obtain ⟨pos', due', h⟩ := completeItems_completes item 0 items items L
      (Graph.size_setContent g n _ ▸ A.lt) Ledger.verdict_decide_self
      (by rw [Ledger.field_decide, A.field]) (by rw [Ledger.path_decide, A.path])
      (by rw [Function.update_self, Verdict.keys, List.range_eq_range'])
      (fun i => by rw [Nat.zero_add])
    exact ⟨pos', due', completed_of_items A.lt hx pending h⟩
  | @leaf v u =>
    have L := A.ledger.fill A.lt A.waiting allowed (.leaf u) (fun h => nomatch h) rfl
    exact ⟨_, _, completed_of_decide A.lt L (Graph.grows_setContent _ hx pending)
      (Graph.size_setContent g n _) rfl (fun _ h => absurd h List.not_mem_nil)⟩
  | @object v T =>
    -- the selected fields of the object are due
    have L := A.ledger.fill A.lt A.waiting allowed (.object [] T.name v) (fun h => nomatch h) rfl
    refine ⟨_, _, completed_of_decide A.lt L (Graph.grows_setContent _ hx pending)
      (Graph.size_setContent g n _) ?_ ?_⟩
    · rw [dueTo_subfieldTasks, A.field]; rfl
    · intro task ht
      obtain ⟨sub, mem, rfl⟩ := List.mem_map.mp ht
      refine ⟨⟨?_, ?_, ?_⟩, rfl, ?_⟩
      · rw [Ledger.verdict_decide_self]
      · rw [Ledger.path_decide, A.path]
      · rw [Ledger.field_decide, A.field]; exact mem
      · rw [A.field]; exact mem
termination_by (sizeOf t, 1, 0)
decreasing_by exact .left _ _ (sizeOf_lt_of_nullable ht)

/-- Completing items adds their nodes to the list one after the other. -/
theorem completeItems_completes {g : Graph} {pos : Nat → Entry}
    {due : Nat → List PathSegment} {n : Nat} {field : RequestField} {path : Path} (item : TypeRef)
    (index : Nat) (items all : List Settled) (L : Ledger e caller gives g pos due)
    (lt : n < g.size) (list : (pos n).verdict = some (.list item all))
    (hfield : (pos n).field = field) (hpath : (pos n).path = path)
    (next : due n = (List.range' index items.length).map .index)
    (part : ∀ i, items[i]? = all[index + i]?) :
    ∃ pos' due', ItemsCompleted e caller gives g n pos due
      (completeItems e.schema field g n item index items path) pos' due' := by
  cases items with
  | nil =>
    rw [completeItems]
    exact ⟨pos, due, {
      ledger := L
      grows := .refl g
      size := Nat.le_refl _
      kept := fun _ _ => ⟨rfl, rfl⟩
      decided := fun old new => absurd new (Nat.not_lt.mpr old)
      fits := fun h => nomatch h
      due := fun old new => absurd new (Nat.not_lt.mpr old)
      self := rfl
      due_self := next
      parents := fun h => absurd h List.not_mem_nil }⟩
  | cons w ws =>
    rw [completeItems]
    simp only [List.length_cons, List.range'_succ, List.map_cons] at next
    have slot : Slot e caller gives (pos n).field (.list item all) (.index index) (pos n).field
        item.isNonNull (· = judge e.schema (pos n).field.name item w) :=
      .item (by rw [← Nat.add_zero index, ← part 0]; rfl)
    have L₁ := L.attach lt list next slot
    rw [Graph.addItem_eq_attach index item.isNonNull lt]
    have self := Function.update_self g.size
      (⟨(pos n).path ++ [.index index], (pos n).field, none⟩ : Entry) pos
    have old : Function.update pos g.size
        ⟨(pos n).path ++ [.index index], (pos n).field, none⟩ n = pos n :=
      Function.update_of_ne (Nat.ne_of_lt lt) _ _
    obtain ⟨pos₁, due₁, first⟩ := completeValue_completes (n := g.size) field
      (path ++ [.index index]) item w {
        ledger := L₁
        lt := by rw [Graph.size_attach]; omega
        waiting := by rw [self]
        field := by rw [self]; exact hfield
        path := by rw [self, hpath]
        allowed := by
          intro x p hx hp
          rw [Graph.node?_attach_self _ _ lt, Option.some.injEq] at hx
          subst hx
          cases hp
          refine ⟨.list item all, .index index, (· = judge e.schema (pos n).field.name item w),
            by rw [old, list], by rw [self, old], ?_, ?_, ?_⟩
          · rw [Function.update_self]
            intro mem
            obtain ⟨j, hj, eq⟩ := List.mem_map.mp mem
            cases eq
            have := List.left_le_of_mem_range' hj
            omega
          · rw [old, self]; exact slot
          · rintro W ⟨⟩
            rw [hfield] }
    have lt₁ : n < (completeValue e.schema field
        (g.attach n (.index index) item.isNonNull) g.size item w
        (path ++ [.index index])).1.size := by
      have := first.size
      rw [Graph.size_attach] at this
      omega
    have kept : pos₁ n = pos n ∧
        due₁ n = (List.range' (index + 1) ws.length).map PathSegment.index := by
      obtain ⟨hpos, hdue⟩ := first.kept (m := n) (by rw [Graph.size_attach]; omega) (by omega)
      exact ⟨by rw [hpos, old], by rw [hdue, Function.update_self]⟩
    obtain ⟨pos₂, due₂, second⟩ := completeItems_completes item (index + 1) ws all first.ledger lt₁
      (by rw [kept.1, list]) (by rw [kept.1, hfield]) (by rw [kept.1, hpath]) kept.2
      (fun i => by rw [Nat.add_assoc, Nat.add_comm 1, ← part (i + 1)]; rfl)
    exact ⟨pos₂, due₂, itemsCompleted_cons lt rfl first second⟩
termination_by (sizeOf item, 2, items.length)

end

end

end GraphQLEngine
