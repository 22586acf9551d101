import GraphQLEngine.Document.Value
import GraphQLEngine.Schema.Basic

/-!
# Query documents

A document holds operations and the fragments that they spread.  Nodes that errors refer to carry
their position in the text.
-/

namespace GraphQLEngine

/-- A place in a text; lines and columns count from 1.  The place `0, 0` is nowhere. -/
structure Position where
  line : Nat
  column : Nat
deriving DecidableEq, Repr, Inhabited

def Position.nowhere : Position := ⟨0, 0⟩

structure Argument where
  name : String
  /-- Where the value is. -/
  position : Position
  value : Value String
deriving Inhabited

structure Directive where
  position : Position
  name : String
  arguments : List Argument
deriving Inhabited

/-- A selected field without its selections. -/
structure FieldHead where
  position : Position
  alias? : Option String
  name : String
  arguments : List Argument
  directives : List Directive
deriving Inhabited

/-- The name under which the field appears in the answer. -/
def FieldHead.outputName (f : FieldHead) : String := f.alias?.getD f.name

inductive Selection where
  | field (head : FieldHead) (selections : List Selection)
  | spread (position : Position) (name : String) (directives : List Directive)
  | inlineFragment (position : Position) (condition : Option String)
      (directives : List Directive) (selections : List Selection)
deriving Inhabited

structure VariableDefinition where
  name : String
  /-- Where the name is. -/
  position : Position
  type : TypeRef
  default : Option Const
deriving Inhabited

structure Operation where
  position : Position
  kind : OperationKind
  variableDefinitions : List VariableDefinition
  directives : List Directive
  selections : List Selection
deriving Inhabited

structure Fragment where
  position : Position
  name : String
  /-- The type that the fragment applies to. -/
  condition : String
  selections : List Selection
deriving Inhabited

/-- The operations of a document: one without a name stands alone. -/
inductive Operations where
  | anonymous (operation : Operation)
  | named (operations : OrderedMap Operation)
deriving Inhabited

structure Document where
  operations : Operations
  fragments : List Fragment
deriving Inhabited

def Document.fragment? (fragments : List Fragment) (name : String) : Option Fragment :=
  fragments.find? (·.name = name)

end GraphQLEngine
