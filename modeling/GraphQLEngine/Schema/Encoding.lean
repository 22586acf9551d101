import GraphQLEngine.Schema.Basic

/-!
# Schemas as JSON

Structures are objects with a member per part, alternatives are objects with one member named for
the alternative.  An argument without a default and one whose default is null have the same
encoding, and are read as having none.
-/

namespace GraphQLEngine

/-! ## Writing -/

def ArgumentDefinition.toJson (a : ArgumentDefinition) : Json :=
  .obj [
    ("name", .str a.name),
    ("typ", a.type.toJson),
    ("default_value", a.default.getD .null)]

def FieldDefinition.toJson (f : FieldDefinition) : Json :=
  .obj [
    ("name", .str f.name),
    ("arguments", .obj (f.arguments.map fun (name, a) => (name, a.toJson))),
    ("typ", f.type.toJson),
    ("access", f.access.toJson)]

def fieldsToJson (fields : OrderedMap FieldDefinition) : Json :=
  .obj (fields.map fun (name, f) => (name, f.toJson))

def TypeKind.toJson : TypeKind → Json
  | .scalar kind => .obj [("Scalar", .str kind.label)]
  | .enumeration values => .obj [("Enum", Json.ofStrings values)]
  | .object fields => .obj [("Object", .obj [("fields", fieldsToJson fields)])]

def SchemaType.toJson (t : SchemaType) : Json :=
  .obj [("name", .str t.name), ("kind", t.kind.toJson)]

def Schema.toJson (s : Schema) : Json :=
  .obj [
    ("types", .arr (s.types.entries.map fun (key, t) => .arr [.str key, t.toJson])),
    ("query_type", .str s.queryRoot),
    ("mutation_type", Json.ofOption .str s.mutationRoot),
    ("subscription_type", Json.ofOption .str s.subscriptionRoot)]

/-! ## Reading -/

def ArgumentDefinition.ofJson? (j : Json) : Option ArgumentDefinition := do
  let name ← (← j.get? "name").string?
  let type ← TypeRef.ofJson? (← j.get? "typ")
  let default ← j.get? "default_value"
  pure ⟨name, type, if default.isNull then none else some default⟩

def FieldDefinition.ofJson? (j : Json) : Option FieldDefinition := do
  let name ← (← j.get? "name").string?
  let arguments ← (← (← j.get? "arguments").members?).mapM fun (key, a) => do
    pure (key, ← ArgumentDefinition.ofJson? a)
  let type ← TypeRef.ofJson? (← j.get? "typ")
  let access ← AccessRule.ofJson? (← j.get? "access")
  pure ⟨name, arguments, type, access⟩

def TypeKind.ofJson? : Json → Option TypeKind
  | .obj [("Scalar", .str label)] => (ScalarKind.ofLabel? label).map .scalar
  | .obj [("Enum", .arr values)] => (values.mapM Json.string?).map .enumeration
  | .obj [("Object", .obj [("fields", .obj fields)])] => do
    let fields ← fields.mapM fun (key, f) => do pure (key, ← FieldDefinition.ofJson? f)
    pure (.object fields)
  | _ => none

def SchemaType.ofJson? (j : Json) : Option SchemaType := do
  let name ← (← j.get? "name").string?
  let kind ← TypeKind.ofJson? (← j.get? "kind")
  pure ⟨name, kind⟩

/-- An arena of the entries, if no key is used twice. -/
def Arena.ofEntries? {α : Type u} (entries : List (String × α)) : Option (Arena α) :=
  if h : (entries.map Prod.fst).Nodup then some ⟨entries, h⟩ else none

/-- A name, or null for none. -/
def nameOrNull? : Json → Option (Option String)
  | .null => some none
  | .str name => some (some name)
  | _ => none

def Schema.ofJson? (j : Json) : Option Schema := do
  let entries ← (← (← j.get? "types").items?).mapM fun entry =>
    match entry with
    | .arr [.str key, t] => do pure (key, ← SchemaType.ofJson? t)
    | _ => none
  let types ← Arena.ofEntries? entries
  let queryRoot ← (← j.get? "query_type").string?
  let mutationRoot ← nameOrNull? (← j.get? "mutation_type")
  let subscriptionRoot ← nameOrNull? (← j.get? "subscription_type")
  pure ⟨types, queryRoot, mutationRoot, subscriptionRoot⟩

end GraphQLEngine
