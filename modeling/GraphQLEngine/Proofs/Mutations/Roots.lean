import GraphQLEngine.Proofs.Graph.Grafting
import GraphQLEngine.Proofs.Graph.Verdict
import GraphQLEngine.Proofs.Mutations.Store

/-!
# Runs on a graph that others began

The run of a root field does on the graph that earlier runs have left what it does on a graph of its
own, which is grafted on theirs; and it leaves the same store.

    e.evalRoot caller b T f s            the graph and the store of the root field on its own
    e.evalWaves .. g₀ [rootTask T f] s   the same store, and that graph grafted on `g₀`

If an earlier run has made the root null, the run does nothing.
-/

namespace GraphQLEngine

open GraphQLEngine.Graph (Tidy)

variable {σ : Type}

/-! ## Shifted tasks -/

/-- The task on a graph with `base` other nodes beneath the root. -/
def Task.shift (base : Nat) (t : Task) : Task := { t with parent := Graph.shift base t.parent }

/-- The call on a graph with `base` other nodes beneath the root. -/
def Invocation.shift (base : Nat) (i : Invocation σ) : Invocation σ :=
  { i with node := Graph.shift base i.node }

theorem subfieldTasks_shift (base node : Nat) (typeName : String) (v : Json) (field : RequestField)
    (path : Path) :
    subfieldTasks (Graph.shift base node) typeName v field path =
      (subfieldTasks node typeName v field path).map (Task.shift base) := by
  rw [subfieldTasks, subfieldTasks, List.map_map]
  rfl

/-- What is done beneath the root of a graph, and once the graph is grafted; the root keeps the
fields of these names. -/
structure Graph.Grafts (g₀ : Graph) (names : List String) (out out' : Graph × List Task) :
    Prop where
  tidy : Tidy names out.1
  below : ∀ t ∈ out.2, 0 < t.parent
  same : out' = (g₀.graft out.1, out.2.map (Task.shift (g₀.size - 1)))

namespace Graph.Grafts

variable {g₀ h : Graph} {names : List String}

theorem of_done {h' : Graph} (T : Tidy names h) (same : h' = g₀.graft h) :
    Grafts g₀ names (h, []) (h', []) :=
  ⟨T, (fun _ mem => absurd mem List.not_mem_nil), by rw [same]; rfl⟩

theorem append {out out' : Graph × List Task} {ts ts' : List Task} (G : Grafts g₀ names out out')
    (below : ∀ t ∈ ts, 0 < t.parent) (same : ts' = ts.map (Task.shift (g₀.size - 1))) :
    Grafts g₀ names (out.1, ts ++ out.2) (out'.1, ts' ++ out'.2) where
  tidy := G.tidy
  below t mem := (List.mem_append.mp mem).elim (below t) (G.below t)
  same := by rw [G.same, same, List.map_append]

end Graph.Grafts

/-! ## Completing -/

section

variable {s : Schema} {field : RequestField} {g₀ : Graph} {names : List String}

theorem Graph.setContent_graft_of_pos {h : Graph} (T : Tidy names h) {k : Nat} (posk : 0 < k)
    (c : NodeContent) :
    (g₀.graft h).setContent (Graph.shift (g₀.size - 1) k) (c.rename (Graph.shift (g₀.size - 1))) =
      g₀.graft (h.setContent k c) := by
  rw [← graftContent_of_pos posk]
  exact setContent_graft T.pos k c

mutual

theorem completeValue_grafts {h : Graph} (T : Tidy names h) {k : Nat} (posk : 0 < k) (t : TypeRef)
    (v : Settled) (path : Path) :
    Graph.Grafts g₀ names (completeValue s field h k t v path)
      (completeValue s field (g₀.graft h) (Graph.shift (g₀.size - 1) k) t v path) := by
  have written : ∀ c : NodeContent, (g₀.graft h).setContent _ _ = g₀.graft (h.setContent k c) :=
    Graph.setContent_graft_of_pos T posk
  rw [completeValue_eq, completeValue_eq]
  have judged := judge_judged s field.name t v
  generalize judge s field.name t v = V at judged
  cases judged with
  | failed v fault => exact .of_done (T.fail k fault path) (Graph.fail_graft T.pos k fault path)
  | null => exact .of_done (T.nullify k) (Graph.nullify_graft T.pos k)
  | @list v item items ht =>
    simp only [Verdict.write]
    have list : Tidy names (h.setList k) := T.setBelow posk fun _ mem => nomatch mem
    have same : (g₀.graft h).setList (Graph.shift (g₀.size - 1) k) = g₀.graft (h.setList k) :=
      written (.list [])
    rw [same]
    exact completeItems_grafts list posk item 0 items path
  | @leaf v u => exact .of_done (T.setBelow posk fun _ mem => nomatch mem) (written (.leaf u))
  | object =>
    refine ⟨T.setBelow posk (fun _ mem => nomatch mem), fun t mem => ?_, ?_⟩
    · obtain ⟨sub, -, rfl⟩ := List.mem_map.mp mem
      exact posk
    · simp only [Verdict.write]
      rw [subfieldTasks_shift]
      exact congrArg (·, _) (written (.object []))
termination_by (sizeOf t, 1, 0)
decreasing_by exact .left _ _ (sizeOf_lt_of_nullable ht)

theorem completeItems_grafts {h : Graph} (T : Tidy names h) {k : Nat} (posk : 0 < k)
    (item : TypeRef) (index : Nat) (items : List Settled) (path : Path) :
    Graph.Grafts g₀ names (completeItems s field h k item index items path)
      (completeItems s field (g₀.graft h) (Graph.shift (g₀.size - 1) k) item index items path) := by
  cases items with
  | nil =>
    rw [completeItems, completeItems]
    exact .of_done T rfl
  | cons v vs =>
    rw [completeItems, completeItems]
    have id : (g₀.graft h).size = Graph.shift (g₀.size - 1) h.size := by
      rw [Graph.size_graft T.pos, Graph.shift_of_pos T.pos]
    have first := completeValue_grafts (T.addItem item.isNonNull posk) T.pos item v
      (path ++ [.index index])
    have rest := completeItems_grafts first.tidy posk item (index + 1) vs path
    simp only [id, Graph.addItem_graft T.pos]
    rw [first.same]
    exact rest.append first.below rfl
termination_by (sizeOf item, 2, items.length)

end

theorem completeWave_grafts {e : Engine σ} {h : Graph} (T : Tidy names h)
    {calls : List (Invocation σ)} (below : ∀ i ∈ calls, 0 < i.node) (values : List Settled) :
    Graph.Grafts g₀ names (e.completeWave h calls values)
      (e.completeWave (g₀.graft h) (calls.map (Invocation.shift (g₀.size - 1))) values) := by
  induction calls generalizing h values with
  | nil => exact .of_done T rfl
  | cons i is ih =>
    cases values with
    | nil => exact .of_done T rfl
    | cons v vs =>
      rw [List.map_cons, Engine.completeWave, Engine.completeWave]
      have first : Graph.Grafts g₀ names (completeValue e.schema i.field h i.node i.type v i.path) _ :=
        completeValue_grafts T (below i List.mem_cons_self) i.type v i.path
      have rest := ih first.tidy (fun j mem => below j (List.mem_cons_of_mem _ mem)) vs
      simp only [Invocation.shift]
      rw [first.same]
      exact rest.append first.below rfl

end

/-! ## Preparing -/

section

variable {e : Engine σ} {caller : Caller} {g₀ h : Graph} {names names' : List String} {t : Task}

/-- A task whose parent is nulled is left out. -/
theorem prepareTask_of_nulled (nulled : h.isNulled t.parent = true) :
    e.prepareTask caller h t = (h, none) := by
  unfold Engine.prepareTask
  simp only [nulled, if_true]

/-- The node of a task is made beneath its parent, and written. -/
theorem prepareTask_tidy (T : Tidy names h) (free : h.isNulled t.parent = false)
    (added : ∀ b, Tidy names' (h.addField t.parent t.field.outputName b)) :
    Tidy names' (e.prepareTask caller h t).1 ∧
      ∀ i ∈ (e.prepareTask caller h t).2, 0 < i.node := by
  unfold Engine.prepareTask
  simp only [free, Bool.false_eq_true, if_false]
  split
  · exact ⟨(added true).setBelow T.pos fun _ mem => absurd mem List.not_mem_nil,
      fun i made => absurd made (Option.not_mem_none i)⟩
  · split
    · exact ⟨(added false).fail _ _ _, fun i made => absurd made (Option.not_mem_none i)⟩
    · split
      · split
        · exact ⟨(added _).fail _ _ _, fun i made => absurd made (Option.not_mem_none i)⟩
        · refine ⟨added _, fun i made => ?_⟩
          cases made
          exact T.pos
      · exact ⟨(added _).fail _ _ _, fun i made => absurd made (Option.not_mem_none i)⟩

theorem prepareTask_graft (T : Tidy names h)
    (fresh : t.parent = 0 → t.field.outputName ∉ g₀.entries.map Prod.fst) :
    e.prepareTask caller (g₀.graft h) (t.shift (g₀.size - 1)) =
      (g₀.graft (e.prepareTask caller h t).1,
        (e.prepareTask caller h t).2.map (Invocation.shift (g₀.size - 1))) := by
  have id : (g₀.graft h).size = Graph.shift (g₀.size - 1) h.size := by
    rw [Graph.size_graft T.pos, Graph.shift_of_pos T.pos]
  have added : ∀ b, (g₀.graft h).addField (Graph.shift (g₀.size - 1) t.parent)
      t.field.outputName b = g₀.graft (h.addField t.parent t.field.outputName b) :=
    fun b => Graph.addField_graft T.pos b fresh
  have grown : ∀ b, 0 < (h.addField t.parent t.field.outputName b).size := fun b =>
    Nat.lt_of_lt_of_le T.pos (Graph.grows_addField h t.parent t.field.outputName b).size_le
  have leaf : ∀ b v, (g₀.graft (h.addField t.parent t.field.outputName b)).setLeaf
      (Graph.shift (g₀.size - 1) h.size) v =
      g₀.graft ((h.addField t.parent t.field.outputName b).setLeaf h.size v) := by
    intro b v
    have := Graph.setContent_graft (t := g₀) (grown b) h.size (.leaf v)
    rwa [Graph.graftContent_of_pos T.pos] at this
  unfold Engine.prepareTask
  simp only [Task.shift, Task.fieldPath, Graph.isNulled_graft T.pos, id, added, leaf,
    Graph.fail_graft (grown _)]
  split
  · rfl
  · split
    · rfl
    · split
      · rfl
      · split
        · split <;> rfl
        · rfl

/-- The tasks are beneath the root. -/
theorem prepare_graft {ts : List Task} (T : Tidy names h) (below : ∀ t ∈ ts, 0 < t.parent) :
    Tidy names (e.prepare caller h ts).1 ∧ (∀ i ∈ (e.prepare caller h ts).2, 0 < i.node) ∧
    e.prepare caller (g₀.graft h) (ts.map (Task.shift (g₀.size - 1))) =
      (g₀.graft (e.prepare caller h ts).1,
        (e.prepare caller h ts).2.map (Invocation.shift (g₀.size - 1))) := by
  induction ts generalizing h with
  | nil => exact ⟨T, (fun _ mem => nomatch mem), rfl⟩
  | cons t ts ih =>
    have post := below t List.mem_cons_self
    obtain ⟨tidy, node⟩ : Tidy names (e.prepareTask caller h t).1 ∧
        ∀ i ∈ (e.prepareTask caller h t).2, 0 < i.node := by
      cases nulled : h.isNulled t.parent with
      | true => rw [prepareTask_of_nulled nulled]; exact ⟨T, nofun⟩
      | false => exact prepareTask_tidy T nulled fun b => T.addField b post
    obtain ⟨tidy', nodes, same⟩ := ih tidy fun t mem => below t (List.mem_cons_of_mem _ mem)
    rw [List.map_cons, Engine.prepare, Engine.prepare,
      prepareTask_graft T fun root => absurd root (by omega), same]
    refine ⟨tidy', fun i mem => ?_, ?_⟩
    · exact (List.mem_append.mp mem).elim (fun mem => node i (Option.mem_toList.mp mem)) (nodes i)
    · rw [List.map_append]
      cases (e.prepareTask caller h t).2 <;> rfl

/-- Nothing is prepared beneath what is nulled. -/
theorem prepare_of_nulled {g : Graph} {ts : List Task}
    (nulled : ∀ t ∈ ts, g.isNulled t.parent = true) : e.prepare caller g ts = (g, []) := by
  induction ts with
  | nil => rfl
  | cons t ts ih =>
    rw [Engine.prepare, prepareTask_of_nulled (nulled t List.mem_cons_self),
      ih fun t mem => nulled t (List.mem_cons_of_mem _ mem)]
    rfl

end

/-! ## Runs -/

namespace Behavior

/-- Where the values go does not matter to the calls. -/
theorem callAll_shift (b : Behavior σ) (base : Nat) (calls : List (Invocation σ)) (s : σ) :
    b.callAll (calls.map (Invocation.shift base)) s = b.callAll calls s := by
  induction calls generalizing s with
  | nil => rfl
  | cons i is ih =>
    rw [List.map_cons, callAll, callAll, ih]
    rfl

end Behavior

namespace Engine

variable {e : Engine σ} {caller : Caller} {b : Behavior σ} {g₀ : Graph} {names : List String}

/-- A wave: its calls are made, and the rest follows from what they come to. -/
theorem evalWaves_succ (levels : Nat) {g : Graph} {ts : List Task} (some : ts ≠ []) (s : σ) :
    e.evalWaves caller b (levels + 1) g ts s =
      e.evalRest caller b levels (e.prepare caller g ts).1 (e.prepare caller g ts).2
        (b.settled (b.callAll (e.prepare caller g ts).2 s).1
          (b.callAll (e.prepare caller g ts).2 s).2)
        (b.callAll (e.prepare caller g ts).2 s).2 := by
  rw [evalWaves, List.isEmpty_eq_false_iff.mpr some]
  rfl

/-- On a graph that is grafted the waves beneath the root come to the same, grafted. -/
def GraftsWaves (e : Engine σ) (caller : Caller) (b : Behavior σ) (g₀ : Graph) (levels : Nat) :
    Prop :=
  ∀ {names : List String} {h : Graph}, Tidy names h → ∀ {ts : List Task},
    (∀ t ∈ ts, 0 < t.parent) → ∀ s : σ,
      Tidy names (e.evalWaves caller b levels h ts s).1 ∧
      e.evalWaves caller b levels (g₀.graft h) (ts.map (Task.shift (g₀.size - 1))) s =
        (g₀.graft (e.evalWaves caller b levels h ts s).1,
          (e.evalWaves caller b levels h ts s).2)

theorem GraftsWaves.rest {levels : Nat} (G : e.GraftsWaves caller b g₀ levels) {h : Graph}
    (T : Tidy names h) {calls : List (Invocation σ)} (nodes : ∀ i ∈ calls, 0 < i.node)
    (values : List Settled) (s : σ) :
    Tidy names (e.evalRest caller b levels h calls values s).1 ∧
    e.evalRest caller b levels (g₀.graft h) (calls.map (Invocation.shift (g₀.size - 1))) values s =
      (g₀.graft (e.evalRest caller b levels h calls values s).1,
        (e.evalRest caller b levels h calls values s).2) := by
  have completed : Graph.Grafts g₀ names (e.completeWave h calls values) _ :=
    completeWave_grafts T nodes values
  rw [evalRest, evalRest, completed.same]
  exact G completed.tidy completed.below s

theorem graftsWaves (levels : Nat) : e.GraftsWaves caller b g₀ levels := by
  induction levels with
  | zero => exact fun T _ _ s => ⟨T, rfl⟩
  | succ levels ih =>
    intro names h T ts below s
    by_cases none : ts = []
    · subst none
      exact ⟨T, rfl⟩
    · obtain ⟨tidy, nodes, same⟩ := @prepare_graft σ e caller g₀ h names ts T below
      rw [evalWaves_succ levels none, evalWaves_succ levels (fun map => none (List.map_eq_nil_iff.mp map)),
        same, Behavior.callAll_shift]
      exact ih.rest tidy nodes _ _

/-- What the run of a root field comes to on its own. -/
def evalRoot (e : Engine σ) (caller : Caller) (b : Behavior σ) (rootType : String)
    (f : RequestField) (s : σ) : Graph × σ :=
  e.evalWaves caller b (Task.levels [rootTask rootType f]) .new [rootTask rootType f] s

/-- The node of a root field is made as the last beneath the root. -/
theorem prepare_root {rootType : String} {f : RequestField} (T₀ : Tidy names g₀)
    (object : g₀.content? 0 ≠ some .null) (fresh : f.outputName ∉ names) :
    Tidy [f.outputName] (e.prepare caller .new [rootTask rootType f]).1 ∧
    (∀ i ∈ (e.prepare caller .new [rootTask rootType f]).2, 0 < i.node) ∧
    e.prepare caller g₀ [rootTask rootType f] =
      (g₀.graft (e.prepare caller .new [rootTask rootType f]).1,
        (e.prepare caller .new [rootTask rootType f]).2.map (Invocation.shift (g₀.size - 1))) := by
  have free : Graph.new.isNulled (rootTask rootType f).parent = false := by
    rw [← Bool.not_eq_true]
    exact fun nulled => nomatch Tidy.new.isNulled_root.mp nulled
  obtain ⟨tidy, node⟩ := @prepareTask_tidy σ e caller .new [] [f.outputName] (rootTask rootType f)
    .new free fun b => Tidy.new.addRoot b List.not_mem_nil
  have same : e.prepareTask caller g₀ (rootTask rootType f) = _ := T₀.graft_new object ▸
    @prepareTask_graft σ e caller g₀ .new [] (rootTask rootType f) .new
      fun _ => T₀.entries_named object ▸ fresh
  rw [prepare, prepare, prepare, prepare, same]
  refine ⟨tidy, fun i mem => ?_, ?_⟩
  · rw [List.append_nil] at mem
    exact node i (Option.mem_toList.mp mem)
  · cases (e.prepareTask caller .new (rootTask rootType f)).2 <;> rfl

/-- After other runs a root field comes to the same, grafted on what they have left. -/
theorem evalRoot_graft {rootType : String} {f : RequestField} (T₀ : Tidy names g₀)
    (object : g₀.content? 0 ≠ some .null) (fresh : f.outputName ∉ names) (s : σ) :
    Tidy [f.outputName] (e.evalRoot caller b rootType f s).1 ∧
    e.evalWaves caller b (Task.levels [rootTask rootType f]) g₀ [rootTask rootType f] s =
      (g₀.graft (e.evalRoot caller b rootType f s).1, (e.evalRoot caller b rootType f s).2) := by
  obtain ⟨tidy, nodes, same⟩ :=
    @prepare_root σ e caller g₀ names rootType f T₀ object fresh
  have depth : Task.levels [rootTask rootType f] = RequestField.depths f.subfields + 1 := by
    rw [Task.levels, List.map_singleton, RequestField.depths, RequestField.depth_eq,
      RequestField.depths, Nat.max_zero, Nat.add_comm]
    rfl
  rw [evalRoot, depth, evalWaves_succ _ (List.cons_ne_nil _ _), evalWaves_succ _ (List.cons_ne_nil _ _),
    same, Behavior.callAll_shift]
  exact GraftsWaves.rest (graftsWaves _) tidy nodes _ _

/-- After a run that has made the root null it does nothing. -/
theorem evalWaves_of_nulled (levels : Nat) {g : Graph} {ts : List Task}
    (nulled : ∀ t ∈ ts, g.isNulled t.parent = true) (s : σ) :
    e.evalWaves caller b levels g ts s = (g, s) := by
  cases levels with
  | zero => rfl
  | succ levels =>
    rw [evalWaves, prepare_of_nulled nulled]
    split
    · rfl
    · cases levels <;> rfl

end Engine

end GraphQLEngine
