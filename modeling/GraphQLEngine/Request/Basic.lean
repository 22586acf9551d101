import GraphQLEngine.Schema.Basic

/-!
# Requests

A request is an operation of a document in which fragments are spread, variables are replaced by
their values, excluded selections are gone, and fields with the same output name are merged.
-/

namespace GraphQLEngine

structure RequestField where
  alias? : Option String
  name : String
  /-- The supplied arguments; omitted ones are absent, whether or not they have a default. -/
  arguments : OrderedMap Json
  subfields : List RequestField
deriving Inhabited

namespace RequestField

/-- The name under which the field appears in the answer. -/
def outputName (f : RequestField) : String := f.alias?.getD f.name

mutual

/-- The number of levels of the field and its subfields. -/
def depth : RequestField → Nat
  | ⟨_, _, _, subfields⟩ => 1 + depths subfields

/-- The number of levels of the deepest of the fields; zero if there is none. -/
def depths : List RequestField → Nat
  | [] => 0
  | f :: fs => max (depth f) (depths fs)

end

end RequestField

structure Request where
  name : Option String
  kind : OperationKind
  /-- The root fields in the order of the document. -/
  fields : List RequestField
deriving Inhabited

/-- The number of levels of the deepest root field. -/
def Request.depth (r : Request) : Nat := RequestField.depths r.fields

end GraphQLEngine
