import GraphQLEngine.Request.Error

/-!
# Arguments of a selected field

The supplied arguments are checked against the declared ones in the order of the declarations:
a value, once its variables are replaced, has to fit the declared type; an omitted argument has to
be nullable or to have a default.  What is left over is not declared.
-/

namespace GraphQLEngine

/-- The values of the variables of an operation. -/
abbrev Variables := OrderedMap Const

/-- Whether a value other than null fits a named type. -/
def Schema.acceptsNamed (schema : Schema) (typeName : String) (value : Const) : Bool :=
  match (schema.type? typeName).map SchemaType.kind with
  | some (.scalar .int) =>
    match value with
    | .number n => n.int32?.isSome
    | _ => false
  | some (.scalar .float) =>
    match value with
    | .number _ => true
    | _ => false
  | some (.scalar .string) =>
    match value with
    | .string _ => true
    | _ => false
  | some (.scalar .boolean) =>
    match value with
    | .boolean _ => true
    | _ => false
  | some (.scalar .id) =>
    match value with
    | .string _ | .number _ => true
    | _ => false
  | some (.scalar .custom) => true
  | some (.enumeration values) =>
    match value with
    | .enum name | .string name => values.contains name
    | _ => false
  | some (.object _) | none => false

namespace Request

/-- Check a value against a type.  Null is excluded by non-null only; a list is checked item by
item, and a value that is no list counts as a list of one. -/
def checkValue (schema : Schema) (argument : String) (position : Position) :
    TypeRef → Const → Except ValidationError Unit
  | .nonNull _, .null => .error (.missingArgument argument position)
  | _, .null => .ok ()
  | .list item, .list items | .nonNull (.list item), .list items =>
    items.forM (checkValue schema argument position item)
  | .list item, value | .nonNull (.list item), value =>
    checkValue schema argument position item value
  | type, value =>
    if schema.acceptsNamed type.innermost value then .ok ()
    else .error (.argumentType argument type.render value.form position)

/-- Replace the variables of an argument by their values. -/
def resolveVariables (bindings : Variables) (position : Position) (value : Value String) :
    Except ValidationError Const :=
  value.resolve fun name =>
    match bindings.lookup name with
    | some c => .ok c
    | none => .error (.variableNotFound name position)

/-- The supplied arguments by name; of a repeated name the last value counts. -/
def suppliedArguments (arguments : List Argument) : OrderedMap Argument :=
  OrderedMap.ofEntries (arguments.map fun a => (a.name, a))

/-- Check the declared arguments one by one.  Gives the arguments that were supplied, in the order
of the declarations, and those that are left over. -/
def checkDeclared (schema : Schema) (bindings : Variables) (position : Position) :
    OrderedMap ArgumentDefinition → OrderedMap Argument →
      Except ValidationError (OrderedMap Json × OrderedMap Argument)
  | [], supplied => .ok ([], supplied)
  | (name, definition) :: rest, supplied =>
    match supplied.lookup name with
    | some a => do
      let value ← resolveVariables bindings a.position a.value
      checkValue schema name a.position definition.type value
      let (checked, left) ← checkDeclared schema bindings position rest (supplied.erase name)
      pure ((name, Const.toJson value) :: checked, left)
    | none =>
      if definition.type.isNonNull && definition.default.isNone then
        .error (.missingArgument name position)
      else checkDeclared schema bindings position rest supplied

/-- The arguments of a field, checked against its definition. -/
def checkArguments (schema : Schema) (bindings : Variables) (head : FieldHead)
    (definitions : OrderedMap ArgumentDefinition) :
    Except ValidationError (OrderedMap Json) := do
  let (checked, left) ←
    checkDeclared schema bindings head.position definitions (suppliedArguments head.arguments)
  if left.isEmpty then pure checked
  else throw (.strayArguments (OrderedMap.keys left) head.name head.position)

end Request

end GraphQLEngine
