import GraphQLEngine.Schema.Access
import GraphQLEngine.Schema.Arena
import GraphQLEngine.Schema.TypeRef

/-!
# Schemas

A schema is an arena of named types and the names of the root types of the three kinds of
operation.  Types refer to each other by name, so they may form cycles.
-/

namespace GraphQLEngine

/-- The scalars that every schema has, and those that a schema declares itself. -/
inductive ScalarKind where
  | int
  | float
  | string
  | boolean
  | id
  | custom
deriving DecidableEq, Repr, Inhabited

namespace ScalarKind

def builtIns : List ScalarKind := [.int, .float, .string, .boolean, .id]

/-- The type name of a built-in scalar. -/
def typeName? : ScalarKind → Option String
  | .int => some "Int"
  | .float => some "Float"
  | .string => some "String"
  | .boolean => some "Boolean"
  | .id => some "ID"
  | .custom => none

def label : ScalarKind → String
  | .int => "Int"
  | .float => "Float"
  | .string => "String"
  | .boolean => "Boolean"
  | .id => "Id"
  | .custom => "Custom"

def ofLabel? : String → Option ScalarKind
  | "Int" => some .int
  | "Float" => some .float
  | "String" => some .string
  | "Boolean" => some .boolean
  | "Id" => some .id
  | "Custom" => some .custom
  | _ => none

theorem ofLabel_label (k : ScalarKind) : ofLabel? k.label = some k := by cases k <;> rfl

end ScalarKind

structure ArgumentDefinition where
  name : String
  type : TypeRef
  default : Option Json
deriving Inhabited

structure FieldDefinition where
  name : String
  arguments : OrderedMap ArgumentDefinition
  type : TypeRef
  /-- Decided against the caller's identity before the field's resolver is called. -/
  access : AccessRule
deriving Inhabited

/-- A public field without arguments. -/
def FieldDefinition.of (name : String) (type : TypeRef) : FieldDefinition :=
  ⟨name, [], type, .literal true⟩

/-- Declare an argument; a repeated name keeps its place and takes the later definition. -/
def FieldDefinition.withArgument (f : FieldDefinition) (a : ArgumentDefinition) :
    FieldDefinition :=
  { f with arguments := OrderedMap.insert f.arguments a.name a }

def FieldDefinition.withAccess (f : FieldDefinition) (rule : AccessRule) : FieldDefinition :=
  { f with access := rule }

inductive TypeKind where
  | scalar (kind : ScalarKind)
  | enumeration (values : List String)
  | object (fields : OrderedMap FieldDefinition)
deriving Inhabited

structure SchemaType where
  name : String
  kind : TypeKind
deriving Inhabited

namespace SchemaType

def fields? (t : SchemaType) : Option (OrderedMap FieldDefinition) :=
  match t.kind with
  | .object fields => some fields
  | _ => none

/-- Values of a leaf type have no selections. -/
def isLeaf (t : SchemaType) : Bool :=
  match t.kind with
  | .object _ => false
  | _ => true

end SchemaType

inductive OperationKind where
  | query
  | mutation
  | subscription
deriving DecidableEq, Repr, Inhabited

def OperationKind.label : OperationKind → String
  | .query => "query"
  | .mutation => "mutation"
  | .subscription => "subscription"

structure Schema where
  types : Arena SchemaType
  queryRoot : String
  mutationRoot : Option String
  subscriptionRoot : Option String
deriving Inhabited

namespace Schema

def type? (s : Schema) (name : String) : Option SchemaType := s.types.get? name

def object? (s : Schema) (name : String) : Option (OrderedMap FieldDefinition) :=
  (s.type? name).bind SchemaType.fields?

def field? (s : Schema) (typeName fieldName : String) : Option FieldDefinition :=
  (s.object? typeName).bind fun fields => fields.lookup fieldName

def root? (s : Schema) : OperationKind → Option String
  | .query => some s.queryRoot
  | .mutation => s.mutationRoot
  | .subscription => s.subscriptionRoot

def isSubscriptionRoot (s : Schema) (typeName : String) : Bool :=
  s.subscriptionRoot == some typeName

/-- The names of the root types: query, mutation, subscription. -/
def roots (s : Schema) : List String :=
  s.queryRoot :: (s.mutationRoot.toList ++ s.subscriptionRoot.toList)

end Schema

/-- The field that every object type has without declaring it: the name of the type. -/
def typenameField : String := "__typename"

end GraphQLEngine
