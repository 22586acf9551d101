import GraphQLEngine.Schema.Builder

/-!
# Schemas that were built

A schema is put together from its declarations, and is built if it passes each check.  Then every type,
and every field of an object, is filed under its own name, and the type of every field is there.

    build spec = .ok s   ↔   s.BuiltFrom spec
-/

namespace GraphQLEngine

/-- A computation that succeeds has succeeded in its first step. -/
theorem bind_ok {ε α β : Type} {x : Except ε α} {f : α → Except ε β} {b : β}
    (h : x >>= f = .ok b) : ∃ a, x = .ok a ∧ f a = .ok b := by
  cases x with
  | error e => cases h
  | ok a => exact ⟨a, rfl, h⟩

theorem bind_of_ok {ε α β : Type} {x : Except ε α} {f : α → Except ε β} {a : α} (h : x = .ok a) :
    x >>= f = f a := by
  rw [h]
  rfl

/-- A computation succeeds for a list exactly if it succeeds for each of its items. -/
theorem forM_ok_iff {ε α : Type} {f : α → Except ε Unit} {as : List α} :
    as.forM f = .ok () ↔ ∀ a ∈ as, f a = .ok () := by
  induction as with
  | nil => simp [List.forM, pure, Except.pure]
  | cons a as ih =>
    rw [List.forall_mem_cons, ← ih]
    constructor
    · intro h
      obtain ⟨⟨⟩, first, rest⟩ := bind_ok h
      exact ⟨first, rest⟩
    · rintro ⟨first, rest⟩
      exact (bind_of_ok first).trans rest

/-- What a computation for a list gives was computed for its items. -/
theorem mapM_ok {ε α β : Type} {f : α → Except ε β} {as : List α} {bs : List β}
    (h : as.mapM f = .ok bs) : ∀ b ∈ bs, ∃ a ∈ as, f a = .ok b := by
  induction as generalizing bs with
  | nil =>
    cases h
    exact fun _ mem => nomatch mem
  | cons a as ih =>
    rw [List.mapM_cons] at h
    obtain ⟨b, first, h⟩ := bind_ok h
    obtain ⟨others, rest, h⟩ := bind_ok h
    cases h
    refine List.forall_mem_cons.mpr ⟨⟨a, List.mem_cons_self, first⟩, fun b' mem => ?_⟩
    obtain ⟨a', mem', eq⟩ := ih rest b' mem
    exact ⟨a', List.mem_cons_of_mem _ mem', eq⟩

/-- The types that are added: the built-in ones, and then those that are declared. -/
def SchemaSpec.types (spec : SchemaSpec) : List SchemaType :=
  Schema.builtInTypes ++ spec.declarations.map Declaration.toType

namespace Schema

/-! ## What the checks ask for -/

theorem contains_iff {types : Arena SchemaType} {name : String} :
    types.contains name = true ↔ ∃ t, types.get? name = some t := by
  rw [Arena.contains, List.contains_iff_mem]
  exact ⟨Arena.get?_of_mem_keys, fun ⟨_, found⟩ => Arena.mem_keys_of_get? found⟩

theorem checkArgument_ok_iff {types : Arena SchemaType} {field : String} {a : ArgumentDefinition} :
    checkArgument types field a = .ok () ↔
      ∃ t, types.get? a.type.innermost = some t ∧ t.isLeaf = true := by
  rw [checkArgument]
  cases found : types.get? a.type.innermost with
  | none => simp
  | some t => cases leaf : t.isLeaf <;> simp [leaf]

theorem checkField_ok_iff {types : Arena SchemaType} {owner : SchemaType} {f : FieldDefinition} :
    checkField types owner f = .ok () ↔ (∃ t, types.get? f.type.innermost = some t) ∧
      ∀ a ∈ OrderedMap.values f.arguments,
        ∃ t, types.get? a.type.innermost = some t ∧ t.isLeaf = true := by
  rw [checkField, ← contains_iff]
  split
  · next there => simp only [forM_ok_iff, checkArgument_ok_iff, there, true_and]
  · next missing => simp [missing]

theorem checkType_ok_iff {types : Arena SchemaType} {t : SchemaType} :
    checkType types t = .ok () ↔ ∀ fields, t.fields? = some fields →
      fields ≠ [] ∧ ∀ f ∈ OrderedMap.values fields, checkField types t f = .ok () := by
  unfold checkType
  cases object : t.fields? with
  | none => simp
  | some fields =>
    cases fields with
    | nil => simp
    | cons entry fields => simpa using forM_ok_iff

theorem checkRoot_ok_iff {types : Arena SchemaType} {name : String} :
    checkRoot types name = .ok () ↔ ∃ t, types.get? name = some t ∧ t.isLeaf = false := by
  rw [checkRoot]
  cases found : types.get? name with
  | none => simp
  | some t => cases leaf : t.isLeaf <;> simp [leaf]

/-! ## What is built -/

/-- Types are added in order.  As no key of an arena is used twice, they have different names. -/
theorem addTypes_ok_iff {types out : Arena SchemaType} {ts : List SchemaType} :
    addTypes types ts = .ok out ↔ out.entries = types.entries ++ ts.map fun t => (t.name, t) := by
  induction ts generalizing types with
  | nil =>
    obtain ⟨entries, distinct⟩ := types
    obtain ⟨entries', distinct'⟩ := out
    simp only [addTypes, List.map_nil, List.append_nil, Except.ok.injEq, Arena.mk.injEq]
    exact eq_comm
  | cons t rest ih =>
    by_cases used : t.name ∈ types.keys
    · have refused : addTypes types (t :: rest) = .error (.duplicateType t.name) := by
        simp only [addTypes, Arena.add, dif_pos used]
      rw [refused]
      constructor
      · intro h
        cases h
      · intro entries
        have once := out.distinct
        rw [entries, List.map_append, List.nodup_append] at once
        exact absurd rfl (once.2.2 t.name used t.name List.mem_cons_self)
    · have added : addTypes types (t :: rest) = addTypes (types.push t.name t used) rest := by
        simp only [addTypes, Arena.add, dif_neg used]
      rw [added, ih]
      simp only [Arena.push, List.append_assoc, List.map_cons, List.cons_append, List.nil_append]

/-- The schema that is put together from declarations. -/
structure AssembledFrom (s : Schema) (spec : SchemaSpec) : Prop where
  entries : s.types.entries = spec.types.map fun t => (t.name, t)
  queryRoot : s.queryRoot = spec.queryRoot.getD "Query"
  mutationRoot : s.mutationRoot = conventionalRoot s.types spec.mutationRoot "Mutation"
  subscriptionRoot :
    s.subscriptionRoot = conventionalRoot s.types spec.subscriptionRoot "Subscription"

/-- It is built if nothing is wrong with it. -/
structure BuiltFrom (s : Schema) (spec : SchemaSpec) : Prop extends AssembledFrom s spec where
  fieldsOnce : ∀ d ∈ spec.declarations, d.repeatedField = none
  checked : ∀ t ∈ s.types.values, checkType s.types t = .ok ()
  roots : ∀ name ∈ s.roots, checkRoot s.types name = .ok ()

theorem build_ok_iff {spec : SchemaSpec} {s : Schema} : build spec = .ok s ↔ s.BuiltFrom spec := by
  obtain ⟨builtIns, first⟩ : ∃ types, addTypes .empty builtInTypes = .ok types := ⟨_, rfl⟩
  have declared : ∀ types, addTypes builtIns (spec.declarations.map Declaration.toType) = .ok types ↔
      types.entries = spec.types.map fun t => (t.name, t) := by
    intro types
    rw [addTypes_ok_iff, addTypes_ok_iff.mp first, SchemaSpec.types, List.map_append]
    rfl
  constructor
  · intro built
    unfold build at built
    split at built
    · obtain ⟨_, refused, -⟩ := bind_ok built
      cases refused
    · next noError =>
      obtain ⟨builtIns', again, built⟩ := bind_ok built
      cases first.symm.trans again
      obtain ⟨types, added, built⟩ := bind_ok built
      obtain ⟨⟨⟩, checked, built⟩ := bind_ok built
      obtain ⟨⟨⟩, roots, built⟩ := bind_ok built
      cases built
      exact ⟨⟨(declared types).mp added, rfl, rfl, rfl⟩, List.findSome?_eq_none_iff.mp noError,
        forM_ok_iff.mp checked, forM_ok_iff.mp roots⟩
  · intro made
    obtain ⟨types, query, mutation, subscription⟩ := s
    obtain ⟨⟨entries, queryRoot, mutationRoot, subscriptionRoot⟩, fieldsOnce, checked, roots⟩ := made
    dsimp only at *
    subst queryRoot mutationRoot subscriptionRoot
    unfold build
    rw [List.findSome?_eq_none_iff.mpr fieldsOnce]
    refine (bind_of_ok first).trans ((bind_of_ok ((declared types).mpr entries)).trans ?_)
    exact (bind_of_ok (forM_ok_iff.mpr checked)).trans (bind_of_ok (forM_ok_iff.mpr roots))

/-- The types of a schema that was built are the built-in ones and those that were declared. -/
theorem types_of_build {P : String × SchemaType → Prop} {spec : SchemaSpec} {s : Schema}
    (built : build spec = .ok s) (builtIn : ∀ t ∈ builtInTypes, P (t.name, t))
    (declared : ∀ d : Declaration, P (d.toType.name, d.toType)) :
    ∀ entry ∈ s.types.entries, P entry := by
  rw [(build_ok_iff.mp built).entries]
  intro entry mem
  obtain ⟨t, added, rfl⟩ := List.mem_map.mp mem
  rcases List.mem_append.mp added with mem | mem
  · exact builtIn t mem
  · obtain ⟨d, -, rfl⟩ := List.mem_map.mp mem
    exact declared d

theorem entry_of_found {s : Schema} {name : String} {t : SchemaType}
    (found : s.type? name = some t) : (name, t) ∈ s.types.entries := by
  obtain ⟨l₁, l₂, split, -⟩ := List.lookup_eq_some_iff.mp found
  rw [split]
  simp

/-- The types of a schema that was built have the names that they are found by. -/
theorem name_of_build {spec : SchemaSpec} {s : Schema} (built : build spec = .ok s)
    {name : String} {t : SchemaType} (found : s.type? name = some t) : t.name = name :=
  types_of_build (P := fun entry => entry.2.name = entry.1) built (fun _ _ => rfl) (fun _ => rfl)
    _ (entry_of_found found)

/-- Every field of a map is filed under its name. -/
def FiledByName (fields : OrderedMap FieldDefinition) : Prop := ∀ entry ∈ fields, entry.2.name = entry.1

/-- A map of fields is made by adding fields under names that are not in use. -/
theorem fieldMap_induction {P : OrderedMap FieldDefinition → Prop} (empty : P [])
    (add : ∀ m (f : FieldDefinition), P m → m.has f.name = false → P (m ++ [(f.name, f)]))
    (fields : List FieldDefinition) : P (Declaration.fieldMap fields) := by
  have step : ∀ (fields : List FieldDefinition) (m : OrderedMap FieldDefinition), P m →
      P (fields.foldl (fun m f => if m.has f.name then m else m ++ [(f.name, f)]) m) := by
    intro fields
    induction fields with
    | nil => exact fun _ kept => kept
    | cons f rest ih =>
      intro m kept
      refine ih _ ?_
      show P (if m.has f.name then m else m ++ [(f.name, f)])
      split
      · exact kept
      · next fresh => exact add m f kept (Bool.not_eq_true _ ▸ fresh)
  exact step fields [] empty

theorem filed_fieldMap (fields : List FieldDefinition) :
    FiledByName (Declaration.fieldMap fields) := by
  refine fieldMap_induction (fun _ mem => absurd mem List.not_mem_nil)
    (fun m f filed _ entry mem => ?_) fields
  rcases List.mem_append.mp mem with mem | mem
  · exact filed entry mem
  · rw [List.mem_singleton.mp mem]

theorem nodup_fieldMap (fields : List FieldDefinition) :
    ((Declaration.fieldMap fields).map Prod.fst).Nodup := by
  refine fieldMap_induction (P := fun m => (m.map Prod.fst).Nodup) List.nodup_nil
    (fun m f once fresh => ?_) fields
  rw [List.map_append, List.nodup_append]
  refine ⟨once, by simp, ?_⟩
  rintro key used name new rfl
  have name : key = f.name := List.mem_singleton.mp new
  obtain ⟨entry, mem, rfl⟩ := List.mem_map.mp used
  rw [OrderedMap.has, Option.isSome_eq_false_iff, Option.isNone_iff_eq_none,
    List.lookup_eq_none_iff] at fresh
  simpa [name] using fresh entry mem

/-- Types and fields are filed under their own names, and no field of an object twice. -/
structure Filed (s : Schema) : Prop where
  types : ∀ {name t}, s.type? name = some t → t.name = name
  fields : ∀ {name fields}, s.object? name = some fields →
    FiledByName fields ∧ (fields.map Prod.fst).Nodup

theorem filed_of_build {spec : SchemaSpec} {s : Schema} (built : build spec = .ok s) : s.Filed where
  types := name_of_build built
  fields {name fields} object := by
    obtain ⟨t, type, isObject⟩ := Option.bind_eq_some_iff.mp object
    refine types_of_build (P := fun entry => ∀ fields, entry.2.fields? = some fields →
      FiledByName fields ∧ (fields.map Prod.fst).Nodup) built (fun t mem fields h => ?_)
      (fun d fields h => ?_) _ (entry_of_found type) fields isObject
    · obtain ⟨kind, -, eq⟩ := List.mem_filterMap.mp mem
      obtain ⟨name, -, rfl⟩ := Option.map_eq_some_iff.mp eq
      cases h
    · cases d <;> cases h
      exact ⟨filed_fieldMap _, nodup_fieldMap _⟩

theorem Filed.name_of_field {s : Schema} (filed : s.Filed) {typeName fieldName : String}
    {d : FieldDefinition} (found : s.field? typeName fieldName = some d) : d.name = fieldName := by
  obtain ⟨fields, object, lookup⟩ := Option.bind_eq_some_iff.mp found
  obtain ⟨l₁, l₂, rfl, -⟩ := List.lookup_eq_some_iff.mp lookup
  exact (filed.fields object).1 (fieldName, d) (by simp)

/-- Every field of a schema that was built passed its check. -/
theorem passed_of_build {spec : SchemaSpec} {s : Schema} (built : build spec = .ok s)
    {typeName fieldName : String} {d : FieldDefinition}
    (found : s.field? typeName fieldName = some d) : ∃ t, checkField s.types t d = .ok () := by
  obtain ⟨fields, object, lookup⟩ := Option.bind_eq_some_iff.mp found
  obtain ⟨t, type, isObject⟩ := Option.bind_eq_some_iff.mp object
  have checked := (build_ok_iff.mp built).checked t (List.mem_map_of_mem (entry_of_found type))
  obtain ⟨l₁, l₂, rfl, -⟩ := List.lookup_eq_some_iff.mp lookup
  exact ⟨t, (checkType_ok_iff.mp checked _ isObject).2 d (by simp [OrderedMap.values])⟩

/-- The type of every field of a schema that was built is there. -/
theorem fieldType_of_build {spec : SchemaSpec} {s : Schema} (built : build spec = .ok s)
    {typeName fieldName : String} {d : FieldDefinition}
    (found : s.field? typeName fieldName = some d) :
    ∃ t, s.type? d.type.innermost = some t := by
  obtain ⟨t, passed⟩ := passed_of_build built found
  exact (checkField_ok_iff.mp passed).1

/-- The type of every argument of a schema that was built is one of leaves. -/
theorem argumentType_of_build {spec : SchemaSpec} {s : Schema} (built : build spec = .ok s)
    {typeName fieldName : String} {d : FieldDefinition}
    (found : s.field? typeName fieldName = some d) {name : String} {a : ArgumentDefinition}
    (declared : (name, a) ∈ d.arguments) :
    ∃ t, s.type? a.type.innermost = some t ∧ t.isLeaf = true := by
  obtain ⟨t, passed⟩ := passed_of_build built found
  exact (checkField_ok_iff.mp passed).2 a (List.mem_map_of_mem declared)

/-- In a schema that was built `String` is the scalar of texts. -/
theorem stringType_of_build {spec : SchemaSpec} {s : Schema} (built : build spec = .ok s) :
    s.type? "String" = some ⟨"String", .scalar .string⟩ := by
  rw [type?, Arena.get?, (build_ok_iff.mp built).entries, SchemaSpec.types, List.map_append,
    List.lookup_append]
  rfl

end Schema

end GraphQLEngine
