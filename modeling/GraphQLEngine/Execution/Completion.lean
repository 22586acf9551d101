import GraphQLEngine.Execution.FieldValue
import GraphQLEngine.Execution.Graph
import GraphQLEngine.Json.Printer
import GraphQLEngine.Request.Basic
import GraphQLEngine.Schema.Basic

/-!
# Completing values

A settled value is checked against the type of its field and written into the graph.  An object
leaves its selected fields as tasks for the next wave, each with the object as its parent value.
-/

namespace GraphQLEngine

/-- A field that waits to be resolved. -/
structure Task where
  /-- The node of the object that the field belongs to. -/
  parent : Nat
  parentType : String
  parentValue : Json
  field : RequestField
  /-- The path of the object. -/
  path : Path
deriving Inhabited

def Task.fieldPath (t : Task) : Path := t.path ++ [.field t.field.outputName]

/-! ## Leaves -/

/-- The value that a scalar gives out for a value; none if it is not one of the scalar's. -/
def completeScalar? (kind : ScalarKind) (v : Json) : Option Json :=
  match kind, v with
  | .int, .num n => if n.int32?.isSome then some v else none
  | .float, .num _ => some v
  | .string, .str _ => some v
  | .boolean, .bool _ => some v
  | .id, .str _ => some v
  | .id, .num (.int n) => some (.str (toString n))
  | .custom, v => some v
  | _, _ => none

def completeLeaf (t : SchemaType) (v : Json) : Except FieldError Json :=
  let completed :=
    match t.kind with
    | .scalar kind => completeScalar? kind v
    | .enumeration values => v.string?.bind fun s => if values.contains s then some v else none
    | .object _ => none
  match completed with
  | some v => .ok v
  | none =>
    .error (.invalidValue ("Expected a value of type " ++ t.name ++ ", found " ++ v.compress))

/-! ## Values -/

/-- The tasks of the selected fields of an object. -/
def subfieldTasks (node : Nat) (typeName : String) (v : Json) (field : RequestField) (path : Path) :
    List Task :=
  field.subfields.map fun subfield => ⟨node, typeName, v, subfield, path⟩

/-- Complete a value that is neither null nor a list, of a type that is not one of lists. -/
def completeSingle (s : Schema) (g : Graph) (node : Nat) (typeName : String) (field : RequestField)
    (v : Json) (path : Path) : Graph × List Task :=
  match s.type? typeName with
  | none => (g.fail node (.internal ("Type " ++ typeName ++ " is not part of the schema")) path, [])
  | some t =>
    if t.isLeaf then
      match completeLeaf t v with
      | .ok v => (g.setLeaf node v, [])
      | .error e => (g.fail node e path, [])
    else if v.isObject then
      (g.setObject node, subfieldTasks node t.name v field path)
    else
      (g.fail node (.invalidValue
        ("Expected an object of type " ++ typeName ++ ", found " ++ v.compress)) path, [])

theorem sizeOf_lt_of_nullable {t item : TypeRef} (h : t.nullable = .list item) :
    sizeOf item < sizeOf t := by
  cases t with
  | named => simp [TypeRef.nullable] at h
  | list => simp only [TypeRef.nullable, TypeRef.list.injEq] at h; subst h; simp
  | nonNull inner => simp only [TypeRef.nullable] at h; subst h; simp; omega

mutual

/-- Write a settled value of a type at a node; the tasks are those of the objects in it. -/
def completeValue (s : Schema) (field : RequestField) (g : Graph) (node : Nat) (t : TypeRef)
    (v : Settled) (path : Path) : Graph × List Task :=
  match v with
  | .error e => (g.fail node e path, [])
  | .value .null =>
    if t.isNonNull then (g.fail node (.nullForNonNull field.name) path, [])
    else (g.nullify node, [])
  | .list items => completeList s field g node t items path
  | .value v =>
    match v, t.nullable with
    | .arr items, .list _ => completeList s field g node t (items.map .value) path
    | v, .list _ =>
      (g.fail node (.invalidValue
        ("Expected a list of type " ++ t.render ++ ", found " ++ v.compress)) path, [])
    | v, _ => completeSingle s g node t.innermost field v path
termination_by (sizeOf t, 1, 0)

/-- Write a list of settled values at a node. -/
def completeList (s : Schema) (field : RequestField) (g : Graph) (node : Nat) (t : TypeRef)
    (items : List Settled) (path : Path) : Graph × List Task :=
  match _h : t.nullable with
  | .list item => completeItems s field (g.setList node) node item 0 items path
  | _ =>
    (g.fail node (.invalidValue
      ("Expected a value of type " ++ t.render ++ ", found a list")) path, [])
termination_by (sizeOf t, 0, 0)
decreasing_by exact .left _ _ (sizeOf_lt_of_nullable _h)

/-- Write the items of a list from `index` on. -/
def completeItems (s : Schema) (field : RequestField) (g : Graph) (node : Nat) (item : TypeRef)
    (index : Nat) (items : List Settled) (path : Path) : Graph × List Task :=
  match items with
  | [] => (g, [])
  | v :: vs =>
    let id := g.size
    let first := completeValue s field (g.addItem node item.isNonNull) id item v
      (path ++ [.index index])
    let rest := completeItems s field first.1 node item (index + 1) vs path
    (rest.1, first.2 ++ rest.2)
termination_by (sizeOf item, 2, items.length)

end

end GraphQLEngine
