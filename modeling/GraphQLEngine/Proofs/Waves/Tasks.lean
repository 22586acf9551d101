import GraphQLEngine.Execution.Run
import GraphQLEngine.Proofs.Graph.Nodes
import GraphQLEngine.Proofs.Graph.Verdict
import GraphQLEngine.Proofs.Requests.Fields
import Mathlib

/-!
# Where the tasks of a wave come from

The tasks of a wave are for the fields selected on the objects in the values of the wave before.  The
path of such an object is the path of a field and the indices of the lists that the object is in, so
no two tasks of a wave have the same path, and all are one level further down.

    completeWave_beneath     tasks are beneath the calls whose values were completed
    prepare_calls            calls are for tasks whose object is not nulled
-/

namespace GraphQLEngine

variable {σ : Type}

/-! ## Paths -/

/-- The number of fields in a path. -/
def Path.depth (p : Path) : Nat := p.countP fun seg => match seg with
  | .field _ => true
  | .index _ => false

@[simp] theorem Path.depth_append (p q : Path) : Path.depth (p ++ q) = p.depth + Path.depth q :=
  List.countP_append

@[simp] theorem Path.depth_indices (indices : List Nat) :
    Path.depth (indices.map .index) = 0 := by
  simp [Path.depth, List.countP_map]

@[simp] theorem Task.depth_fieldPath (t : Task) : Path.depth t.fieldPath = Path.depth t.path + 1 := by
  simp [Task.fieldPath, Path.depth]

/-- A path that leads to a field. -/
def Path.IsField (p : Path) : Prop := ∃ q name, p = q ++ [.field name]

theorem Task.isField_fieldPath (t : Task) : Path.IsField t.fieldPath := ⟨_, _, rfl⟩

/-- Indices after the path of a field do not hide it. -/
theorem Path.IsField.of_append_indices {p q : Path} (hp : Path.IsField p) (hq : Path.IsField q)
    {is js : List Nat} (h : p ++ is.map .index = q ++ js.map .index) : p = q ∧ is = js := by
  obtain ⟨p, name, rfl⟩ := hp
  obtain ⟨q, name', rfl⟩ := hq
  induction is using List.reverseRecOn generalizing js with
  | nil =>
    rcases List.eq_nil_or_concat js with rfl | ⟨js, j, rfl⟩
    · simpa using h
    · rw [List.concat_eq_append, List.map_append, ← List.append_assoc] at h
      rw [List.map_nil, List.append_nil] at h
      cases (List.append_inj' h rfl).2
  | append_singleton is i ih =>
    rw [List.map_append, ← List.append_assoc] at h
    rcases List.eq_nil_or_concat js with rfl | ⟨js, j, rfl⟩
    · rw [List.map_nil, List.append_nil] at h
      cases (List.append_inj' h rfl).2
    · rw [List.concat_eq_append, List.map_append, ← List.append_assoc] at h
      obtain ⟨front, last⟩ := List.append_inj' h rfl
      obtain ⟨same, rest⟩ := ih front
      cases last
      exact ⟨same, by rw [rest, List.concat_eq_append]⟩

/-! ## Completing -/

/-- A task for a field selected on an object of a type, beneath a path and indices. -/
structure Task.Beneath (s : Schema) (field : RequestField) (typeName : String) (path : Path)
    (t : Task) : Prop where
  selected : t.field ∈ field.subfields
  type : ∃ T, s.type? typeName = some T ∧ t.parentType = T.name
  place : ∃ indices : List Nat, t.path = path ++ indices.map .index

/-- Tasks for places beneath a path, each for its own if the selected fields have distinct names. -/
structure Task.Laid (s : Schema) (field : RequestField) (typeName : String) (path : Path)
    (tasks : List Task) : Prop where
  beneath : ∀ t ∈ tasks, t.Beneath s field typeName path
  distinct : (field.subfields.map RequestField.outputName).Nodup → (tasks.map Task.fieldPath).Nodup

theorem Task.laid_nil (s : Schema) (field : RequestField) (typeName : String) (path : Path) :
    Task.Laid s field typeName path [] :=
  ⟨(fun _ h => absurd h List.not_mem_nil), fun _ => List.nodup_nil⟩

theorem Task.laid_object {s : Schema} {field : RequestField} {T : SchemaType} {typeName : String}
    (found : s.type? typeName = some T) (node : Nat) (v : Json) (path : Path) :
    Task.Laid s field typeName path (subfieldTasks node T.name v field path) where
  beneath t ht := by
    obtain ⟨sub, mem, rfl⟩ := List.mem_map.mp ht
    exact ⟨mem, ⟨T, found, rfl⟩, [], (List.append_nil path).symm⟩
  distinct distinct := by
    have : (subfieldTasks node T.name v field path).map Task.fieldPath =
        (field.subfields.map RequestField.outputName).map fun name => path ++ [.field name] := by
      simp [subfieldTasks, Task.fieldPath, Function.comp_def]
    rw [this]
    refine distinct.map fun a b h => ?_
    simpa using h

section

variable {s : Schema} {field : RequestField}

mutual

/-- Completing a value leaves tasks for its objects. -/
theorem completeValue_laid (g : Graph) (node : Nat) (t : TypeRef) (v : Settled) (path : Path) :
    Task.Laid s field t.innermost path (completeValue s field g node t v path).2 := by
  rw [completeValue_eq]
  have judged := judge_judged s field.name t v
  generalize judge s field.name t v = V at judged
  cases judged with
  | failed | null | leaf => exact Task.laid_nil _ _ _ _
  | @list v item items ht =>
    have laid := completeItems_laid (g.setList node) node item 0 items path
    rw [TypeRef.innermost_of_nullable ht] at laid
    exact laid.1
  | @object v T notList found => exact Task.laid_object found node v path
termination_by (sizeOf t, 1, 0)
decreasing_by exact .left _ _ (sizeOf_lt_of_nullable ht)

/-- The tasks for the objects in items are beneath the indices from `index` on. -/
theorem completeItems_laid (g : Graph) (node : Nat) (item : TypeRef) (index : Nat)
    (items : List Settled) (path : Path) :
    Task.Laid s field item.innermost path
      (completeItems s field g node item index items path).2 ∧
    ∀ t ∈ (completeItems s field g node item index items path).2, ∃ j rest,
      index ≤ j ∧ t.path = path ++ .index j :: List.map .index rest := by
  cases items with
  | nil =>
    rw [completeItems]
    exact ⟨Task.laid_nil _ _ _ _, fun _ h => nomatch h⟩
  | cons v vs =>
    rw [completeItems]
    have first := completeValue_laid (g.addItem node item.isNonNull) g.size item v
      (path ++ [.index index])
    obtain ⟨rest, later⟩ := completeItems_laid
      (completeValue s field (g.addItem node item.isNonNull) g.size item v
        (path ++ [.index index])).1 node item (index + 1) vs path
    have place : ∀ t ∈ (completeValue s field (g.addItem node item.isNonNull) g.size item v
        (path ++ [.index index])).2, ∃ rest, t.path = path ++ .index index :: List.map .index rest := by
      intro t ht
      obtain ⟨indices, eq⟩ := (first.beneath t ht).place
      exact ⟨indices, by rw [eq, List.append_assoc]; rfl⟩
    refine ⟨⟨fun t ht => ?_, fun names => ?_⟩, fun t ht => ?_⟩
    · rcases List.mem_append.mp ht with ht | ht
      · obtain ⟨indices, eq⟩ := place t ht
        exact { first.beneath t ht with place := ⟨index :: indices, eq⟩ }
      · exact rest.beneath t ht
    · rw [List.map_append, List.nodup_append]
      refine ⟨first.distinct names, rest.distinct names, ?_⟩
      intro x hx y hy same
      obtain ⟨t, ht, rfl⟩ := List.mem_map.mp hx
      obtain ⟨u, hu, rfl⟩ := List.mem_map.mp hy
      obtain ⟨is, eq⟩ := place t ht
      obtain ⟨j, js, lt, eq'⟩ := later u hu
      simp only [Task.fieldPath, eq, eq', List.append_assoc, List.cons_append,
        List.append_cancel_left_eq, List.cons.injEq, PathSegment.index.injEq] at same
      omega
    · rcases List.mem_append.mp ht with ht | ht
      · obtain ⟨indices, eq⟩ := place t ht
        exact ⟨index, indices, Nat.le_refl _, eq⟩
      · obtain ⟨j, js, lt, eq⟩ := later t ht
        exact ⟨j, js, Nat.le_of_succ_le lt, eq⟩
termination_by (sizeOf item, 2, items.length)

end

end

/-- The tasks of a wave are beneath its calls. -/
theorem completeWave_beneath {e : Engine σ} {calls : List (Invocation σ)} {g : Graph}
    {values : List Settled} {t : Task} (mem : t ∈ (e.completeWave g calls values).2) :
    ∃ i ∈ calls, t.Beneath e.schema i.field i.type.innermost i.path := by
  induction calls generalizing g values with
  | nil => cases mem
  | cons i is ih =>
    cases values with
    | nil => cases mem
    | cons v vs =>
      rw [Engine.completeWave] at mem
      rcases List.mem_append.mp mem with mem | mem
      · exact ⟨i, List.mem_cons_self, (completeValue_laid g i.node i.type v i.path).beneath t mem⟩
      · obtain ⟨j, hj, under⟩ := ih mem
        exact ⟨j, List.mem_cons_of_mem _ hj, under⟩

/-- The tasks of a wave are for distinct places. -/
theorem completeWave_distinct {e : Engine σ} {calls : List (Invocation σ)}
    (names : ∀ i ∈ calls, (i.field.subfields.map RequestField.outputName).Nodup)
    (fields : ∀ i ∈ calls, Path.IsField i.path) (paths : (calls.map Invocation.path).Nodup)
    (g : Graph) (values : List Settled) :
    ((e.completeWave g calls values).2.map Task.fieldPath).Nodup := by
  induction calls generalizing g values with
  | nil => exact List.nodup_nil
  | cons i is ih =>
    cases values with
    | nil => exact List.nodup_nil
    | cons v vs =>
      rw [Engine.completeWave, List.map_append, List.nodup_append]
      rw [List.map_cons, List.nodup_cons] at paths
      have first : Task.Laid e.schema i.field i.type.innermost i.path _ :=
        completeValue_laid g i.node i.type v i.path
      refine ⟨first.distinct (names i List.mem_cons_self),
        ih (fun j hj => names j (List.mem_cons_of_mem _ hj))
          (fun j hj => fields j (List.mem_cons_of_mem _ hj)) paths.2 _ _, ?_⟩
      intro x hx y hy same
      obtain ⟨t, ht, rfl⟩ := List.mem_map.mp hx
      obtain ⟨u, hu, rfl⟩ := List.mem_map.mp hy
      obtain ⟨j, hj, under⟩ := completeWave_beneath hu
      obtain ⟨is, eq⟩ := (first.beneath t ht).place
      obtain ⟨js, eq'⟩ := under.place
      simp only [Task.fieldPath, eq, eq'] at same
      have front := (List.append_inj' same rfl).1
      have := ((fields i List.mem_cons_self).of_append_indices
        (fields j (List.mem_cons_of_mem _ hj)) front).1
      exact paths.1 (this ▸ List.mem_map_of_mem hj)

/-! ## Preparing -/

/-- The call that is made for a task, and what had to hold for that. -/
structure Engine.CallsFor (e : Engine σ) (caller : Caller) (t : Task) (i : Invocation σ) : Prop where
  path : i.path = t.fieldPath
  field : i.field = t.field
  named : t.field.name ≠ typenameField
  defined : ∃ d, e.schema.field? t.parentType t.field.name = some d ∧ i.type = d.type ∧
    caller.identity.satisfies d.access = true ∧
    i.call = caller.call t.parentType t.parentValue t.field d
  dispatched : e.dispatch.resolverFor ⟨t.parentType, t.field.name⟩ = .ok i.resolver

variable {e : Engine σ} {caller : Caller}

theorem prepareTask_cases (g : Graph) (t : Task) :
    g.Grows (e.prepareTask caller g t).1 ∧
      ∀ i, (e.prepareTask caller g t).2 = some i →
        g.isNulled t.parent = false ∧ e.CallsFor caller t i := by
  have added := fun b => Graph.grows_addField g t.parent t.field.outputName b
  unfold Engine.prepareTask
  simp only
  split
  · exact ⟨.refl g, nofun⟩
  · next free =>
    split
    · exact ⟨(added true).setContent_new (Nat.le_refl _) _, nofun⟩
    · next named =>
      split
      · exact ⟨(added false).trans (Graph.grows_fail _ _ _ _), nofun⟩
      · next d found =>
        split
        · next access =>
          split
          · exact ⟨(added _).trans (Graph.grows_fail _ _ _ _), nofun⟩
          · next resolver dispatched =>
            refine ⟨added _, fun i eq => ?_⟩
            cases eq
            exact ⟨by simpa using free, rfl, rfl, named, ⟨d, found, rfl, access, rfl⟩, dispatched⟩
        · exact ⟨(added _).trans (Graph.grows_fail _ _ _ _), nofun⟩

/-- The calls of a wave are for tasks whose object was not nulled before the wave. -/
theorem prepare_calls (g : Graph) (tasks : List Task) :
    g.Grows (e.prepare caller g tasks).1 ∧
    (∀ i ∈ (e.prepare caller g tasks).2, ∃ t ∈ tasks,
      g.isNulled t.parent = false ∧ e.CallsFor caller t i) ∧
    ((e.prepare caller g tasks).2.map Invocation.path).Sublist (tasks.map Task.fieldPath) := by
  induction tasks generalizing g with
  | nil => exact ⟨.refl g, (fun _ h => nomatch h), .refl _⟩
  | cons t ts ih =>
    obtain ⟨first, call⟩ := @prepareTask_cases σ e caller g t
    obtain ⟨grows, calls, paths⟩ := ih (e.prepareTask caller g t).1
    rw [Engine.prepare]
    refine ⟨first.trans grows, fun i hi => ?_, ?_⟩
    · rcases List.mem_append.mp hi with hi | hi
      · exact ⟨t, List.mem_cons_self, call i (Option.mem_toList.mp hi)⟩
      · obtain ⟨u, hu, free, for_⟩ := calls i hi
        exact ⟨u, List.mem_cons_of_mem _ hu, first.free' free, for_⟩
    · cases made : (e.prepareTask caller g t).2 with
      | none => exact paths.cons _
      | some i =>
        rw [List.map_cons, ← (call i made).2.path]
        exact paths.cons_cons _

end GraphQLEngine
