import GraphQLEngine.Proofs.Lists
import GraphQLEngine.Schema.Encoding
import Mathlib

/-!
# Schemas read back from their encoding

Reading what was written of a schema gives its types in their order, its roots, and every field and
argument with its type and its access rule.  One thing is lost: the encoding of an argument whose
default is null is that of an argument without a default, and is read as such.

    Schema.ofJson? s.toJson = some s.reread
    s.reread = s      exactly if no argument of s has null for its default
-/

namespace GraphQLEngine

/-! ## What is read -/

/-- The argument without a default of null. -/
def ArgumentDefinition.reread (a : ArgumentDefinition) : ArgumentDefinition :=
  { a with default := a.default.filter (!·.isNull) }

def FieldDefinition.reread (f : FieldDefinition) : FieldDefinition :=
  { f with arguments := f.arguments.map fun (name, a) => (name, a.reread) }

def TypeKind.reread : TypeKind → TypeKind
  | .scalar kind => .scalar kind
  | .enumeration values => .enumeration values
  | .object fields => .object (fields.map fun (name, f) => (name, f.reread))

def SchemaType.reread (t : SchemaType) : SchemaType := { t with kind := t.kind.reread }

/-- The schema without the defaults that are null. -/
def Schema.reread (s : Schema) : Schema :=
  { s with types :=
      ⟨s.types.entries.map fun (name, t) => (name, t.reread), by
        rw [List.map_map]
        exact s.types.distinct⟩ }

/-! ## Reading what was written -/

/-- Reading a list item by item, when each item is read as `f` of it. -/
theorem mapM_some {α β : Type} {read : α → Option β} {f : α → β}
    (reads : ∀ a, read a = some (f a)) (as : List α) : as.mapM read = some (as.map f) := by
  induction as with
  | nil => rfl
  | cons a rest ih =>
    rw [List.mapM_cons, reads, ih]
    rfl

theorem Arena.ofEntries_entries {α : Type} (a : Arena α) : ofEntries? a.entries = some a := by
  rw [ofEntries?, dif_pos a.distinct]

theorem nameOrNull_ofOption (name : Option String) :
    nameOrNull? (Json.ofOption .str name) = some name := by
  cases name <;> rfl

theorem ArgumentDefinition.ofJson_toJson (a : ArgumentDefinition) :
    ofJson? a.toJson = some a.reread := by
  have default : (if (a.default.getD .null).isNull then none else some (a.default.getD .null)) =
      a.default.filter (!·.isNull) := by
    cases a.default with
    | none => rfl
    | some v => cases h : v.isNull <;> simp [h, Option.filter]
  simp [ofJson?, toJson, Json.get?, List.lookup, Json.string?, TypeRef.ofJson_toJson, reread, default]

theorem FieldDefinition.ofJson_toJson (f : FieldDefinition) : ofJson? f.toJson = some f.reread := by
  simp only [ofJson?, toJson, Json.get?, List.lookup, Json.string?, Json.members?]
  simp only [String.reduceBEq, Option.bind_eq_bind, Option.bind_some, List.mapM_map]
  rw [mapM_some (f := fun (name, a) => (name, a.reread)) fun (_, a) => by
      simp [a.ofJson_toJson]]
  simp [TypeRef.ofJson_toJson, AccessRule.ofJson_toJson, reread]

theorem TypeKind.ofJson_toJson (k : TypeKind) : ofJson? k.toJson = some k.reread := by
  cases k with
  | scalar kind => rw [toJson, ofJson?, ScalarKind.ofLabel_label]; rfl
  | enumeration values =>
    have read : values.mapM (Json.string? ∘ Json.str) = some (values.map id) :=
      mapM_some (fun _ => rfl) values
    rw [toJson, Json.ofStrings, ofJson?, List.mapM_map, read, List.map_id]
    rfl
  | object fields =>
    simp only [toJson, fieldsToJson, ofJson?, List.mapM_map]
    rw [mapM_some (f := fun (name, f) => (name, f.reread)) fun (_, f) => by
        simp [f.ofJson_toJson]]
    rfl

theorem SchemaType.ofJson_toJson (t : SchemaType) : ofJson? t.toJson = some t.reread := by
  simp [ofJson?, toJson, Json.get?, List.lookup, Json.string?, TypeKind.ofJson_toJson, reread]

theorem Schema.ofJson_toJson (s : Schema) : ofJson? s.toJson = some s.reread := by
  simp only [ofJson?, toJson, Json.get?, List.lookup, Json.string?, Json.items?]
  simp only [String.reduceBEq, Option.bind_eq_bind, Option.bind_some, List.mapM_map]
  rw [mapM_some (f := fun (name, t) => (name, t.reread)) fun (_, t) => by
      simp [t.ofJson_toJson]]
  have types : Arena.ofEntries? (s.types.entries.map fun (name, t) => (name, t.reread)) =
      some s.reread.types := Arena.ofEntries_entries s.reread.types
  simp only [Option.bind_some, types]
  simp [nameOrNull_ofOption, reread]

/-! ## What is lost -/

theorem map_eq_self_iff {α : Type} {f : α → α} {as : List α} : as.map f = as ↔ ∀ a ∈ as, f a = a := by
  have := List.map_inj_left (l := as) (f := f) (g := id)
  rwa [List.map_id] at this

theorem ArgumentDefinition.reread_eq_iff (a : ArgumentDefinition) :
    a.reread = a ↔ a.default ≠ some .null := by
  obtain ⟨name, type, default⟩ := a
  simp only [reread, ArgumentDefinition.mk.injEq, true_and]
  cases default with
  | none => simp
  | some v => cases v <;> simp [Json.isNull, Option.filter]

theorem FieldDefinition.reread_eq_iff (f : FieldDefinition) :
    f.reread = f ↔ ∀ entry ∈ f.arguments, entry.2.default ≠ some .null := by
  obtain ⟨name, arguments, type, access⟩ := f
  simp only [reread, FieldDefinition.mk.injEq, true_and, and_true, map_eq_self_iff,
    ← ArgumentDefinition.reread_eq_iff, Prod.ext_iff]

/-- The arguments of the fields of a type, each by its name. -/
def SchemaType.arguments (t : SchemaType) : List (String × ArgumentDefinition) :=
  (t.fields?.getD []).flatMap fun (_, f) => f.arguments

theorem SchemaType.reread_eq_iff (t : SchemaType) :
    t.reread = t ↔ ∀ entry ∈ t.arguments, entry.2.default ≠ some .null := by
  obtain ⟨name, kind⟩ := t
  cases kind with
  | scalar | enumeration => simp [reread, TypeKind.reread, arguments, fields?]
  | object fields =>
    simp only [reread, TypeKind.reread, SchemaType.mk.injEq, TypeKind.object.injEq, true_and,
      map_eq_self_iff, Prod.ext_iff, FieldDefinition.reread_eq_iff, arguments, fields?,
      Option.getD_some, List.forall_mem_flatMap]

/-- All arguments of a schema, each by its name. -/
def Schema.arguments (s : Schema) : List (String × ArgumentDefinition) :=
  s.types.values.flatMap SchemaType.arguments

theorem Schema.reread_eq_iff (s : Schema) :
    s.reread = s ↔ ∀ entry ∈ s.arguments, entry.2.default ≠ some .null := by
  obtain ⟨⟨entries, distinct⟩, queryRoot, mutationRoot, subscriptionRoot⟩ := s
  simp only [reread, Schema.mk.injEq, Arena.mk.injEq, true_and, and_true, map_eq_self_iff,
    Prod.ext_iff, SchemaType.reread_eq_iff, arguments, Arena.values, List.forall_mem_flatMap,
    List.forall_mem_map]

/-! ## Looking up -/

theorem Schema.type?_reread (s : Schema) (name : String) : s.reread.type? name = (s.type? name).map SchemaType.reread :=
  lookup_map_snd (fun _ (t : SchemaType) => t.reread) s.types.entries name

theorem SchemaType.fields?_reread (t : SchemaType) :
    t.reread.fields? = t.fields?.map fun fields => fields.map fun (name, f) => (name, f.reread) := by
  obtain ⟨name, kind⟩ := t
  cases kind <;> rfl

theorem SchemaType.isLeaf_reread (t : SchemaType) : t.reread.isLeaf = t.isLeaf := by
  obtain ⟨name, kind⟩ := t
  cases kind <;> rfl

theorem SchemaType.field?_reread (t : SchemaType) (name : String) :
    (t.reread.fields?.bind fun fields => fields.lookup name) =
      (t.fields?.bind fun fields => fields.lookup name).map FieldDefinition.reread := by
  rw [fields?_reread]
  cases t.fields? with
  | none => rfl
  | some fields => exact lookup_map_snd (fun _ (f : FieldDefinition) => f.reread) fields name

theorem Schema.field?_reread (s : Schema) (typeName fieldName : String) :
    s.reread.field? typeName fieldName = (s.field? typeName fieldName).map FieldDefinition.reread := by
  unfold field? object?
  rw [type?_reread]
  cases s.type? typeName with
  | none => rfl
  | some t => exact t.field?_reread fieldName

theorem Schema.root?_reread (s : Schema) (kind : OperationKind) : s.reread.root? kind = s.root? kind := by
  cases kind <;> rfl

end GraphQLEngine
