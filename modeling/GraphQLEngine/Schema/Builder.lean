import GraphQLEngine.Schema.Basic

/-!
# Building schemas

`Schema.build` turns declarations, in any order, into a schema.  It fails with the first of:

1. a field name used twice in one object,
2. a type name used twice, those of the built-in scalars included,
3. an object without fields, a reference to a type that is not declared, or an argument of an
   object type,
4. a root type that is not declared or no object.
-/

namespace GraphQLEngine

inductive SchemaError where
  | duplicateField (typeName fieldName : String)
  | duplicateType (name : String)
  | emptyObject (name : String)
  | unknownType (name referencedBy : String)
  | nonInputArgument (field argument typeName : String)
  | missingRoot (name : String)
  | rootNotObject (name : String)
deriving DecidableEq, Repr

def SchemaError.message : SchemaError → String
  | .duplicateField typeName fieldName =>
    "Field '" ++ fieldName ++ "' is defined more than once on type '" ++ typeName ++ "'"
  | .duplicateType name => "Type '" ++ name ++ "' is defined more than once"
  | .emptyObject name => "Object type '" ++ name ++ "' must define at least one field"
  | .unknownType name referencedBy =>
    "Type '" ++ name ++ "' referenced by '" ++ referencedBy ++ "' is not defined"
  | .nonInputArgument field argument typeName =>
    "Argument '" ++ argument ++ "' of '" ++ field ++
      "' must be a scalar or enum type, found '" ++ typeName ++ "'"
  | .missingRoot name => "Root type '" ++ name ++ "' is not defined"
  | .rootNotObject name => "Root type '" ++ name ++ "' must be an object type"

inductive Declaration where
  | object (name : String) (fields : List FieldDefinition)
  | enumeration (name : String) (values : List String)
  | scalar (name : String)
deriving Inhabited

namespace Declaration

def name : Declaration → String
  | .object name _ => name
  | .enumeration name _ => name
  | .scalar name => name

/-- The fields of an object by name; of a repeated name the first declaration. -/
def fieldMap (fields : List FieldDefinition) : OrderedMap FieldDefinition :=
  fields.foldl (fun m f => if m.has f.name then m else m ++ [(f.name, f)]) []

def toType : Declaration → SchemaType
  | .object name fields => ⟨name, .object (fieldMap fields)⟩
  | .enumeration name values => ⟨name, .enumeration values⟩
  | .scalar name => ⟨name, .scalar .custom⟩

/-- The first name that occurs a second time. -/
def firstRepeated (seen : List String) : List String → Option String
  | [] => none
  | name :: rest => if name ∈ seen then some name else firstRepeated (name :: seen) rest

/-- The first field that is declared twice. -/
def repeatedField : Declaration → Option SchemaError
  | .object name fields =>
    (firstRepeated [] (fields.map FieldDefinition.name)).map (.duplicateField name)
  | _ => none

end Declaration

/-- Declarations and the names of the roots; without a name the conventional one is used. -/
structure SchemaSpec where
  declarations : List Declaration
  queryRoot : Option String
  mutationRoot : Option String
  subscriptionRoot : Option String
deriving Inhabited

namespace Schema

/-! ## Steps of building -/

def builtInTypes : List SchemaType :=
  ScalarKind.builtIns.filterMap fun kind => kind.typeName?.map fun name => ⟨name, .scalar kind⟩

/-- Add types in order; a name in use is an error. -/
def addTypes (types : Arena SchemaType) : List SchemaType → Except SchemaError (Arena SchemaType)
  | [] => .ok types
  | t :: rest =>
    match types.add t.name t with
    | .ok (_, types) => addTypes types rest
    | .error _ => .error (.duplicateType t.name)

def checkArgument (types : Arena SchemaType) (field : String) (a : ArgumentDefinition) :
    Except SchemaError Unit :=
  let typeName := a.type.innermost
  match types.get? typeName with
  | none => .error (.unknownType typeName (field ++ "(" ++ a.name ++ ")"))
  | some t => if t.isLeaf then .ok () else .error (.nonInputArgument field a.name typeName)

def checkField (types : Arena SchemaType) (owner : SchemaType) (f : FieldDefinition) :
    Except SchemaError Unit :=
  let field := owner.name ++ "." ++ f.name
  let typeName := f.type.innermost
  if types.contains typeName then
    (OrderedMap.values f.arguments).forM (checkArgument types field)
  else .error (.unknownType typeName field)

def checkType (types : Arena SchemaType) (t : SchemaType) : Except SchemaError Unit :=
  match t.fields? with
  | none => .ok ()
  | some [] => .error (.emptyObject t.name)
  | some fields => (OrderedMap.values fields).forM (checkField types t)

def checkRoot (types : Arena SchemaType) (name : String) : Except SchemaError Unit :=
  match types.get? name with
  | none => .error (.missingRoot name)
  | some t => if t.isLeaf then .error (.rootNotObject name) else .ok ()

/-- A root that was not named is the type of the conventional name, if there is one. -/
def conventionalRoot (types : Arena SchemaType) (chosen : Option String) (name : String) :
    Option String :=
  match chosen with
  | some root => some root
  | none => if types.contains name then some name else none

/-- The schema of the declarations, or what is wrong with them. -/
def build (spec : SchemaSpec) : Except SchemaError Schema := do
  match spec.declarations.findSome? Declaration.repeatedField with
  | some error => throw error
  | none => pure ()
  let builtIns ← addTypes .empty builtInTypes
  let types ← addTypes builtIns (spec.declarations.map Declaration.toType)
  let schema : Schema := {
    types
    queryRoot := spec.queryRoot.getD "Query"
    mutationRoot := conventionalRoot types spec.mutationRoot "Mutation"
    subscriptionRoot := conventionalRoot types spec.subscriptionRoot "Subscription" }
  types.values.forM (checkType types)
  schema.roots.forM (checkRoot types)
  pure schema

end Schema

end GraphQLEngine
