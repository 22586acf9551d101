import GraphQLEngine.Proofs.Schemas.Traversal
import Mathlib

/-!
# Well-formed declarations

A schema is built exactly from well-formed declarations, and all names in it are found.  The order of
the declarations is the order of its types only: look-ups, roots and reachable fields do not depend on
it.

    build spec = .ok s   →   s.type? name = some t   ↔   t ∈ spec.types ∧ t.name = name
    ds ~ spec.declarations   →   build { spec with declarations := ds } = .ok s'   with s'.type? = s.type?
-/

namespace GraphQLEngine

namespace SchemaSpec

/-- A type of this name is declared or built in. -/
def Knows (spec : SchemaSpec) (name : String) : Prop :=
  (∃ kind : ScalarKind, kind.typeName? = some name) ∨ ∃ d ∈ spec.declarations, d.name = name

/-- A scalar or an enumeration of this name is declared or built in. -/
def KnowsLeaf (spec : SchemaSpec) (name : String) : Prop :=
  (∃ kind : ScalarKind, kind.typeName? = some name) ∨ .scalar name ∈ spec.declarations ∨
    ∃ values, .enumeration name values ∈ spec.declarations

/-- The root that was chosen; otherwise the conventional one, which mutations and subscriptions have
only if it is declared. -/
def root? (spec : SchemaSpec) : OperationKind → Option String
  | .query => some (spec.queryRoot.getD "Query")
  | .mutation => spec.mutationRoot.or (conventional "Mutation")
  | .subscription => spec.subscriptionRoot.or (conventional "Subscription")
where
  conventional (name : String) : Option String :=
    if name ∈ spec.declarations.map Declaration.name then some name else none

/-- What declarations must be like for a schema to be built from them. -/
structure WellFormed (spec : SchemaSpec) : Prop where
  /-- No object repeats a field. -/
  fieldsOnce : ∀ {owner fields}, .object owner fields ∈ spec.declarations →
    (fields.map FieldDefinition.name).Nodup
  /-- No type is declared twice. -/
  typesOnce : (spec.declarations.map Declaration.name).Nodup
  /-- No declared type takes the name of a built-in scalar. -/
  notBuiltIn : ∀ d ∈ spec.declarations, ∀ kind : ScalarKind, kind.typeName? ≠ some d.name
  hasFields : ∀ {owner fields}, .object owner fields ∈ spec.declarations → fields ≠ []
  fieldTypes : ∀ {owner fields}, .object owner fields ∈ spec.declarations →
    ∀ f ∈ fields, spec.Knows f.type.innermost
  argumentTypes : ∀ {owner fields}, .object owner fields ∈ spec.declarations →
    ∀ f ∈ fields, ∀ a ∈ OrderedMap.values f.arguments, spec.KnowsLeaf a.type.innermost
  roots : ∀ {kind name}, spec.root? kind = some name →
    ∃ fields, .object name fields ∈ spec.declarations

end SchemaSpec

/-! ## Fields of one object -/

namespace Declaration

theorem firstRepeated_eq_none {seen names : List String} :
    firstRepeated seen names = none ↔ names.Nodup ∧ ∀ name ∈ names, name ∉ seen := by
  induction names generalizing seen with
  | nil => simp [firstRepeated]
  | cons name names ih =>
    rw [firstRepeated, List.nodup_cons, List.forall_mem_cons]
    split
    · next again => simp [again]
    · next new =>
      rw [ih]
      simp only [List.mem_cons, not_or]
      constructor
      · rintro ⟨once, fresh⟩
        exact ⟨⟨fun mem => (fresh name mem).1 rfl, once⟩, new, fun other mem => (fresh other mem).2⟩
      · rintro ⟨⟨here, once⟩, -, fresh⟩
        exact ⟨once, fun other mem => ⟨fun eq => here (eq ▸ mem), fresh other mem⟩⟩

theorem repeatedField_eq_none {d : Declaration} :
    d.repeatedField = none ↔
      ∀ owner fields, d = .object owner fields → (fields.map FieldDefinition.name).Nodup := by
  cases d with
  | object owner fields =>
    rw [repeatedField, Option.map_eq_none_iff, firstRepeated_eq_none]
    constructor
    · rintro ⟨once, -⟩ _ _ ⟨⟩
      exact once
    · exact fun once => ⟨once owner fields rfl, fun _ _ => List.not_mem_nil⟩
  | enumeration | scalar => simp [repeatedField]

/-- Fields of different names all stay. -/
theorem fieldMap_of_nodup {fields : List FieldDefinition}
    (once : (fields.map FieldDefinition.name).Nodup) :
    fieldMap fields = fields.map fun f => (f.name, f) := by
  -- what was added before has other names as well
  have step : ∀ (fields before : List FieldDefinition),
      ((before ++ fields).map FieldDefinition.name).Nodup →
      fields.foldl (fun m f => if OrderedMap.has m f.name then m else m ++ [(f.name, f)])
        (before.map fun f => (f.name, f)) = (before ++ fields).map fun f => (f.name, f) := by
    intro fields
    induction fields with
    | nil => exact fun before _ => by rw [List.append_nil]; rfl
    | cons f rest ih =>
      intro before once
      have new : OrderedMap.has (before.map fun f => (f.name, f)) f.name = false := by
        rw [OrderedMap.has, Option.isSome_eq_false_iff, Option.isNone_iff_eq_none,
          List.lookup_eq_none_iff]
        intro entry mem
        obtain ⟨g, early, rfl⟩ := List.mem_map.mp mem
        rw [List.map_append, List.nodup_append] at once
        exact bne_iff_ne.mpr
          (once.2.2 g.name (List.mem_map_of_mem early) f.name List.mem_cons_self).symm
      have next := ih (before ++ [f]) (by rwa [List.append_assoc])
      rw [List.foldl_cons, if_neg (by rw [new]; decide)]
      rwa [List.map_append, List.append_assoc] at next
  exact step fields [] once

theorem name_toType (d : Declaration) : d.toType.name = d.name := by
  cases d <;> rfl

end Declaration

/-! ## Types by name -/

namespace Schema

variable {spec : SchemaSpec} {s : Schema}

theorem mem_builtInTypes {t : SchemaType} :
    t ∈ builtInTypes ↔ ∃ kind : ScalarKind, kind.typeName? = some t.name ∧ t.kind = .scalar kind := by
  rw [builtInTypes, List.mem_filterMap]
  constructor
  · rintro ⟨kind, -, eq⟩
    obtain ⟨name, named, rfl⟩ := Option.map_eq_some_iff.mp eq
    exact ⟨kind, named, rfl⟩
  · rintro ⟨kind, named, eq⟩
    refine ⟨kind, ?_, ?_⟩
    · cases kind with
      | custom => cases named
      | int | float | string | boolean | id => decide
    · rw [named, ← eq]
      rfl

theorem mem_types {t : SchemaType} :
    t ∈ spec.types ↔ t ∈ builtInTypes ∨ ∃ d ∈ spec.declarations, d.toType = t := by
  rw [SchemaSpec.types, List.mem_append, List.mem_map]

/-- A type is a built-in scalar or comes from a declaration. -/
theorem exists_types_iff {P : SchemaType → Prop} : (∃ t ∈ spec.types, P t) ↔
    (∃ (kind : ScalarKind) (name : String), kind.typeName? = some name ∧ P ⟨name, .scalar kind⟩) ∨
      ∃ d ∈ spec.declarations, P d.toType := by
  constructor
  · rintro ⟨⟨name, kind⟩, mem, holds⟩
    rcases mem_types.mp mem with builtIn | ⟨d, declared, eq⟩
    · obtain ⟨scalar, named, rfl⟩ := mem_builtInTypes.mp builtIn
      exact .inl ⟨scalar, name, named, holds⟩
    · exact .inr ⟨d, declared, eq ▸ holds⟩
  · rintro (⟨kind, name, named, holds⟩ | ⟨d, declared, holds⟩)
    · exact ⟨_, mem_types.mpr (.inl (mem_builtInTypes.mpr ⟨kind, named, rfl⟩)), holds⟩
    · exact ⟨_, mem_types.mpr (.inr ⟨d, declared, rfl⟩), holds⟩

theorem knows_iff {name : String} : spec.Knows name ↔ ∃ t ∈ spec.types, t.name = name := by
  simp only [exists_types_iff, SchemaSpec.Knows, Declaration.name_toType, exists_eq_right]

theorem knowsLeaf_iff {name : String} :
    spec.KnowsLeaf name ↔ ∃ t ∈ spec.types, t.name = name ∧ t.isLeaf = true := by
  have scalar : ∀ (kind : ScalarKind) (other : String),
      (other = name ∧ (SchemaType.mk other (.scalar kind)).isLeaf = true) ↔ other = name :=
    fun _ _ => and_iff_left rfl
  simp only [exists_types_iff, SchemaSpec.KnowsLeaf, scalar, exists_eq_right]
  refine or_congr_right ⟨?_, ?_⟩
  · rintro (declared | ⟨values, declared⟩)
    · exact ⟨_, declared, rfl, rfl⟩
    · exact ⟨_, declared, rfl, rfl⟩
  · rintro ⟨d, declared, rfl, leaf⟩
    cases d with
    | object => cases leaf
    | enumeration name values => exact .inr ⟨values, declared⟩
    | scalar name => exact .inl declared

theorem object_iff {name : String} :
    (∃ fields, .object name fields ∈ spec.declarations) ↔
      ∃ t ∈ spec.types, t.name = name ∧ t.isLeaf = false := by
  rw [exists_types_iff]
  constructor
  · rintro ⟨fields, declared⟩
    exact .inr ⟨_, declared, rfl, rfl⟩
  · rintro (⟨_, _, -, -, object⟩ | ⟨d, declared, rfl, object⟩)
    · cases object
    · cases d with
      | object name fields => exact ⟨fields, declared⟩
      | enumeration | scalar => cases object

theorem nodup_types : (spec.types.map SchemaType.name).Nodup ↔
    (spec.declarations.map Declaration.name).Nodup ∧
      ∀ d ∈ spec.declarations, ∀ kind : ScalarKind, kind.typeName? ≠ some d.name := by
  have names : (spec.declarations.map Declaration.toType).map SchemaType.name =
      spec.declarations.map Declaration.name := by
    rw [List.map_map]
    exact List.map_congr_left fun d _ => d.name_toType
  have builtIn : (builtInTypes.map SchemaType.name).Nodup := by decide
  rw [SchemaSpec.types, List.map_append, names, List.nodup_append]
  constructor
  · rintro ⟨-, once, apart⟩
    refine ⟨once, fun d declared kind named => ?_⟩
    have mem := mem_builtInTypes (t := ⟨d.name, .scalar kind⟩) |>.mpr ⟨kind, named, rfl⟩
    exact apart d.name (List.mem_map_of_mem mem) d.name (List.mem_map_of_mem declared) rfl
  · rintro ⟨once, apart⟩
    refine ⟨builtIn, once, ?_⟩
    rintro name first name' second rfl
    obtain ⟨t, mem, rfl⟩ := List.mem_map.mp first
    obtain ⟨d, declared, same⟩ := List.mem_map.mp second
    obtain ⟨kind, named, -⟩ := mem_builtInTypes.mp mem
    exact apart d declared kind (same ▸ named)

/-! ## The schema that is put together -/

theorem exists_assembled (once : (spec.types.map SchemaType.name).Nodup) :
    ∃ s : Schema, s.AssembledFrom spec := by
  have distinct : ((spec.types.map fun t => (t.name, t)).map Prod.fst).Nodup := by
    rwa [List.map_map]
  let types : Arena SchemaType := ⟨spec.types.map fun t => (t.name, t), distinct⟩
  exact ⟨⟨types, spec.queryRoot.getD "Query", conventionalRoot types spec.mutationRoot "Mutation",
    conventionalRoot types spec.subscriptionRoot "Subscription"⟩, rfl, rfl, rfl, rfl⟩

theorem mem_roots {name : String} : name ∈ s.roots ↔ ∃ kind, s.root? kind = some name := by
  rw [roots, List.mem_cons, List.mem_append, Option.mem_toList, Option.mem_toList]
  constructor
  · rintro (rfl | root | root)
    · exact ⟨.query, rfl⟩
    · exact ⟨.mutation, root⟩
    · exact ⟨.subscription, root⟩
  · rintro ⟨kind, root⟩
    cases kind with
    | query => exact .inl (Option.some.inj root).symm
    | mutation => exact .inr (.inl root)
    | subscription => exact .inr (.inr root)

namespace AssembledFrom

theorem nodup (made : s.AssembledFrom spec) : (spec.types.map SchemaType.name).Nodup := by
  have once := s.types.distinct
  rwa [made.entries, List.map_map] at once

/-- A type is found by its name, and no other type is. -/
theorem type_iff (made : s.AssembledFrom spec) {name : String} {t : SchemaType} :
    s.type? name = some t ↔ t ∈ spec.types ∧ t.name = name := by
  constructor
  · intro found
    have mem := entry_of_found found
    rw [made.entries] at mem
    obtain ⟨t, added, eq⟩ := List.mem_map.mp mem
    cases eq
    exact ⟨added, rfl⟩
  · rintro ⟨mem, rfl⟩
    refine lookup_of_mem s.types.distinct ?_
    rw [made.entries]
    exact List.mem_map_of_mem mem

theorem finds (made : s.AssembledFrom spec) {name : String} :
    (∃ t, s.types.get? name = some t) ↔ spec.Knows name := by
  rw [knows_iff]
  exact exists_congr fun _ => made.type_iff

theorem findsLeaf (made : s.AssembledFrom spec) {name : String} :
    (∃ t, s.types.get? name = some t ∧ t.isLeaf = true) ↔ spec.KnowsLeaf name := by
  rw [knowsLeaf_iff]
  exact exists_congr fun _ => (and_congr_left' made.type_iff).trans and_assoc

theorem findsObject (made : s.AssembledFrom spec) {name : String} :
    (∃ t, s.types.get? name = some t ∧ t.isLeaf = false) ↔
      ∃ fields, .object name fields ∈ spec.declarations := by
  rw [object_iff]
  exact exists_congr fun _ => (and_congr_left' made.type_iff).trans and_assoc

theorem conventionalRoot_eq (made : s.AssembledFrom spec) (chosen : Option String) {name : String}
    (notBuiltIn : ∀ kind : ScalarKind, kind.typeName? ≠ some name) :
    conventionalRoot s.types chosen name = chosen.or (SchemaSpec.root?.conventional spec name) := by
  have there : s.types.contains name = true ↔ name ∈ spec.declarations.map Declaration.name := by
    rw [contains_iff, made.finds, SchemaSpec.Knows, List.mem_map]
    exact or_iff_right fun ⟨kind, named⟩ => notBuiltIn kind named
  cases chosen with
  | some root => rfl
  | none => exact ite_congr (propext there) (fun _ => rfl) fun _ => rfl

theorem root_eq (made : s.AssembledFrom spec) (kind : OperationKind) :
    s.root? kind = spec.root? kind := by
  cases kind with
  | query => exact congrArg some made.queryRoot
  | mutation =>
    exact made.mutationRoot.trans (made.conventionalRoot_eq _ fun kind => by cases kind <;> decide)
  | subscription =>
    exact made.subscriptionRoot.trans (made.conventionalRoot_eq _ fun kind => by cases kind <;> decide)

/-- An object that repeats no field passes if it has fields and their types are fit. -/
theorem object_passes_iff (made : s.AssembledFrom spec) {owner : String}
    {fields : List FieldDefinition} (once : (fields.map FieldDefinition.name).Nodup) :
    checkType s.types (Declaration.object owner fields).toType = .ok () ↔
      fields ≠ [] ∧ (∀ f ∈ fields, spec.Knows f.type.innermost) ∧
        ∀ f ∈ fields, ∀ a ∈ OrderedMap.values f.arguments, spec.KnowsLeaf a.type.innermost := by
  have values : OrderedMap.values (fields.map fun f => (f.name, f)) = fields := by
    rw [OrderedMap.values, List.map_map]
    exact List.map_id fields
  have kept : (Declaration.object owner fields).toType.fields? =
      some (fields.map fun f => (f.name, f)) := by
    rw [← Declaration.fieldMap_of_nodup once]
    rfl
  rw [checkType_ok_iff, kept]
  simp only [Option.some.injEq, forall_eq', values, checkField_ok_iff, made.finds, made.findsLeaf,
    ne_eq, List.map_eq_nil_iff, forall_and]

/-- Nothing is wrong with it exactly if the declarations are well-formed. -/
theorem built_iff (made : s.AssembledFrom spec) : s.BuiltFrom spec ↔ spec.WellFormed := by
  have added : ∀ d ∈ spec.declarations, d.toType ∈ s.types.values := by
    intro d declared
    rw [Arena.values, made.entries, List.map_map]
    exact List.mem_map_of_mem (f := fun t => t) (mem_types.mpr (.inr ⟨d, declared, rfl⟩))
  constructor
  · intro built
    have once : ∀ {owner fields}, .object owner fields ∈ spec.declarations →
        (fields.map FieldDefinition.name).Nodup := fun declared =>
      Declaration.repeatedField_eq_none.mp (built.fieldsOnce _ declared) _ _ rfl
    have passed := fun {owner fields} (declared : .object owner fields ∈ spec.declarations) =>
      (made.object_passes_iff (once declared)).mp (built.checked _ (added _ declared))
    obtain ⟨typesOnce, notBuiltIn⟩ := nodup_types.mp made.nodup
    exact {
      fieldsOnce := once
      typesOnce := typesOnce
      notBuiltIn := notBuiltIn
      hasFields := fun declared => (passed declared).1
      fieldTypes := fun declared => (passed declared).2.1
      argumentTypes := fun declared => (passed declared).2.2
      roots := fun {kind name} root =>
        made.findsObject.mp (checkRoot_ok_iff.mp
          (built.roots name (mem_roots.mpr ⟨kind, (made.root_eq kind).trans root⟩))) }
  · intro ok
    -- no field twice, then what is asked of each type, then of each root
    refine ⟨made, fun d declared => ?_, fun t mem => ?_, fun name mem => ?_⟩
    · refine Declaration.repeatedField_eq_none.mpr fun owner fields eq => ?_
      exact ok.fieldsOnce (eq ▸ declared)
    · rw [Arena.values, made.entries, List.map_map] at mem
      obtain ⟨t, added, rfl⟩ := List.mem_map.mp mem
      rcases mem_types.mp added with builtIn | ⟨d, declared, rfl⟩
      · obtain ⟨kind, -, scalar⟩ := mem_builtInTypes.mp builtIn
        refine checkType_ok_iff.mpr fun fields object => ?_
        rw [Function.comp_apply, SchemaType.fields?, scalar] at object
        cases object
      · cases d with
        | object owner fields =>
          exact (made.object_passes_iff (ok.fieldsOnce declared)).mpr
            ⟨ok.hasFields declared, ok.fieldTypes declared, ok.argumentTypes declared⟩
        | enumeration | scalar => rfl
    · obtain ⟨kind, root⟩ := mem_roots.mp mem
      rw [made.root_eq] at root
      exact checkRoot_ok_iff.mpr (made.findsObject.mpr (ok.roots root))

end AssembledFrom

/-! ## Any order -/

/-- The search looks at the types of names only. -/
theorem searchFields_congr {s s' : Schema} (same : ∀ name, s.type? name = s'.type? name)
    (seen queue : List String) : s.searchFields seen queue = s'.searchFields seen queue := by
  have listing : ∀ name, s.listing name = s'.listing name := by
    intro name
    rw [Schema.listing, Schema.listing, same]
  have next : ∀ name, s.next name = s'.next name := by
    intro name
    rw [Schema.next, Schema.next, listing]
  induction seen, queue using search_induction s with
  | done seen => rw [searchFields, searchFields]
  | old seen name queue mem ih => rw [searchFields_cons, searchFields_cons, if_pos mem, if_pos mem, ih]
  | new seen name queue fresh ih =>
    rw [searchFields_cons, searchFields_cons, if_neg fresh, if_neg fresh, ih, listing, next]

end Schema

namespace SchemaSpec

variable {spec : SchemaSpec} {others : List Declaration}

theorem mem_types_perm (perm : others.Perm spec.declarations) {t : SchemaType} :
    t ∈ ({ spec with declarations := others } : SchemaSpec).types ↔ t ∈ spec.types := by
  rw [Schema.mem_types, Schema.mem_types]
  exact or_congr_right (exists_congr fun _ => and_congr_left' perm.mem_iff)

theorem root_perm (perm : others.Perm spec.declarations) (kind : OperationKind) :
    ({ spec with declarations := others } : SchemaSpec).root? kind = spec.root? kind := by
  have conventional : ∀ name, root?.conventional { spec with declarations := others } name =
      root?.conventional spec name := fun _ =>
    ite_congr (propext (perm.map Declaration.name).mem_iff) (fun _ => rfl) fun _ => rfl
  cases kind with
  | query => rfl
  | mutation => exact congrArg spec.mutationRoot.or (conventional _)
  | subscription => exact congrArg spec.subscriptionRoot.or (conventional _)

theorem WellFormed.perm (ok : spec.WellFormed) (perm : others.Perm spec.declarations) :
    ({ spec with declarations := others } : SchemaSpec).WellFormed where
  fieldsOnce declared := ok.fieldsOnce (perm.mem_iff.mp declared)
  typesOnce := (perm.map Declaration.name).nodup_iff.mpr ok.typesOnce
  notBuiltIn d declared := ok.notBuiltIn d (perm.mem_iff.mp declared)
  hasFields declared := ok.hasFields (perm.mem_iff.mp declared)
  fieldTypes declared f mem := by
    rw [Schema.knows_iff]
    simp only [mem_types_perm perm]
    exact Schema.knows_iff.mp (ok.fieldTypes (perm.mem_iff.mp declared) f mem)
  argumentTypes declared f mem a own := by
    rw [Schema.knowsLeaf_iff]
    simp only [mem_types_perm perm]
    exact Schema.knowsLeaf_iff.mp (ok.argumentTypes (perm.mem_iff.mp declared) f mem a own)
  roots root := by
    obtain ⟨fields, declared⟩ := ok.roots ((root_perm perm _).symm.trans root)
    exact ⟨fields, perm.mem_iff.mpr declared⟩

end SchemaSpec

namespace Schema

/-- A type that a root, a field or an argument names. -/
inductive Mentions (s : Schema) : String → Prop
  | root {kind : OperationKind} {name : String} : s.root? kind = some name → Mentions s name
  | field {typeName fieldName : String} {d : FieldDefinition} :
    s.field? typeName fieldName = some d → Mentions s d.type.innermost
  | argument {typeName fieldName : String} {d : FieldDefinition} {a : ArgumentDefinition} :
    s.field? typeName fieldName = some d → a ∈ OrderedMap.values d.arguments →
      Mentions s a.type.innermost

theorem found_of_mentions {spec : SchemaSpec} {s : Schema} (built : build spec = .ok s)
    {name : String} (mentioned : s.Mentions name) : ∃ t, s.type? name = some t := by
  cases mentioned with
  | root root =>
    obtain ⟨t, found, -⟩ := checkRoot_ok_iff.mp
      ((build_ok_iff.mp built).roots name (mem_roots.mpr ⟨_, root⟩))
    exact ⟨t, found⟩
  | field found => exact fieldType_of_build built found
  | argument found own =>
    obtain ⟨⟨_, a⟩, declared, rfl⟩ := List.mem_map.mp own
    obtain ⟨t, type, -⟩ := argumentType_of_build built found declared
    exact ⟨t, type⟩

/-- A schema is built exactly from well-formed declarations.  Each name finds the type that is
declared or built in under it, with all fields that an object was declared with, and every name that
is mentioned finds one.  Declarations in another order are built as well, to a schema that differs in
nothing that is looked up or reached. -/
theorem build_exact (spec : SchemaSpec) :
    ((∃ s, build spec = .ok s) ↔ spec.WellFormed) ∧
    (∀ s, build spec = .ok s →
      (∀ kind, s.root? kind = spec.root? kind) ∧
      (∀ name t, s.type? name = some t ↔ t ∈ spec.types ∧ t.name = name) ∧
      (∀ owner fields, .object owner fields ∈ spec.declarations →
        s.object? owner = some (fields.map fun f => (f.name, f))) ∧
      ∀ name, s.Mentions name → ∃ t ∈ spec.types, t.name = name ∧ s.type? name = some t) ∧
    ∀ others, others.Perm spec.declarations →
      ((∃ s, build { spec with declarations := others } = .ok s) ↔ ∃ s, build spec = .ok s) ∧
      ∀ s s', build spec = .ok s → build { spec with declarations := others } = .ok s' →
        (∀ name, s'.type? name = s.type? name) ∧
        (∀ typeName fieldName, s'.field? typeName fieldName = s.field? typeName fieldName) ∧
        (∀ kind, s'.root? kind = s.root? kind) ∧
        s'.reachableFields = s.reachableFields := by
  -- for all declarations, as those in another order are to be built as well
  have exact : ∀ spec : SchemaSpec, (∃ s, build spec = .ok s) ↔ spec.WellFormed := by
    intro spec
    constructor
    · rintro ⟨s, built⟩
      have built := build_ok_iff.mp built
      exact built.built_iff.mp built
    · intro ok
      obtain ⟨s, made⟩ := exists_assembled (nodup_types.mpr ⟨ok.typesOnce, ok.notBuiltIn⟩)
      exact ⟨s, build_ok_iff.mpr (made.built_iff.mpr ok)⟩
  refine ⟨exact spec, fun s built => ?_, fun others perm => ⟨?_, fun s s' built built' => ?_⟩⟩
  · have made := (build_ok_iff.mp built).toAssembledFrom
    refine ⟨made.root_eq, fun _ _ => made.type_iff, fun owner fields declared => ?_, ?_⟩
    · have once := ((exact spec).mp ⟨s, built⟩).fieldsOnce declared
      have found := made.type_iff.mpr ⟨mem_types.mpr (.inr ⟨_, declared, rfl⟩), rfl⟩
      rw [object?, ← Declaration.fieldMap_of_nodup once]
      exact Option.bind_eq_some_iff.mpr ⟨_, found, rfl⟩
    · intro name mentioned
      obtain ⟨t, found⟩ := found_of_mentions built mentioned
      obtain ⟨mem, named⟩ := made.type_iff.mp found
      exact ⟨t, mem, named, found⟩
  · rw [exact, exact]
    exact ⟨fun ok => ok.perm perm.symm, fun ok => ok.perm perm⟩
  · have made := (build_ok_iff.mp built).toAssembledFrom
    have made' := (build_ok_iff.mp built').toAssembledFrom
    have types : ∀ name, s'.type? name = s.type? name := by
      intro name
      ext t
      rw [made.type_iff, made'.type_iff, SchemaSpec.mem_types_perm perm]
    have roots : ∀ kind, s'.root? kind = s.root? kind := by
      intro kind
      rw [made.root_eq, made'.root_eq, SchemaSpec.root_perm perm]
    refine ⟨types, fun typeName fieldName => ?_, roots, ?_⟩
    · rw [field?, field?, object?, object?, types]
    · have query := Option.some.inj (roots .query)
      have mutation := roots .mutation
      have subscription := roots .subscription
      rw [reachableFields, reachableFields, searchFields_congr types, Schema.roots, Schema.roots, query]
      exact congrArg₂ (fun m n => s.searchFields [] (s.queryRoot :: (Option.toList m ++ Option.toList n)))
        mutation subscription

/-! ## A library in two orders -/

namespace Library

/-- Books of a genre, with a conventional root for mutations and a scalar of its own. -/
def spec : SchemaSpec where
  declarations := [
    .object "Query" [(FieldDefinition.of "books" (.list (.named "Book"))).withArgument
      ⟨"genre", .nonNull (.named "Genre"), none⟩],
    .object "Mutation" [(FieldDefinition.of "lend" (.named "Book")).withArgument
      ⟨"until", .named "Date", none⟩],
    .object "Book" [.of "title" (.nonNull (.named "String")), .of "genre" (.named "Genre")],
    .enumeration "Genre" ["NOVEL", "POEMS"],
    .scalar "Date"]
  queryRoot := none
  mutationRoot := none
  subscriptionRoot := none

/-- The last declaration first. -/
def reversed : SchemaSpec := { spec with declarations := spec.declarations.reverse }

/-- The types are in another order, and all else is the same. -/
theorem build_exact_library :
    spec.WellFormed ∧ ∃ s s', build spec = .ok s ∧ build reversed = .ok s' ∧
      s'.types.keys ≠ s.types.keys ∧ (∀ name, s'.type? name = s.type? name) ∧
      s'.reachableFields = s.reachableFields ∧ s.root? .mutation = some "Mutation" ∧
      s.root? .subscription = none ∧
      ∃ t ∈ spec.types, t.name = "Genre" ∧ s.type? "Genre" = some t := by
  obtain ⟨exact, each, orders⟩ := build_exact spec
  obtain ⟨both, same⟩ := orders spec.declarations.reverse (List.reverse_perm _)
  obtain ⟨s, built⟩ : ∃ s, build spec = .ok s := ⟨_, rfl⟩
  obtain ⟨s', built'⟩ : ∃ s', build reversed = .ok s' := both.mpr ⟨s, built⟩
  obtain ⟨roots, -, -, found⟩ := each s built
  obtain ⟨types, -, -, reached⟩ := same s s' built built'
  have field : s.field? "Query" "books" = some ((FieldDefinition.of "books"
      (.list (.named "Book"))).withArgument ⟨"genre", .nonNull (.named "Genre"), none⟩) := by
    have computed : (build spec).toOption.bind (·.field? "Query" "books") = some
        ((FieldDefinition.of "books" (.list (.named "Book"))).withArgument
          ⟨"genre", .nonNull (.named "Genre"), none⟩) := by rfl
    rwa [built] at computed
  have apart : s'.types.keys ≠ s.types.keys := by
    rw [Arena.keys, Arena.keys, (build_ok_iff.mp built).entries, (build_ok_iff.mp built').entries]
    decide
  exact ⟨exact.mp ⟨s, built⟩, s, s', built, built', apart, types, reached, roots .mutation,
    roots .subscription, found "Genre" (.argument field List.mem_cons_self)⟩

end Library

end Schema

end GraphQLEngine
