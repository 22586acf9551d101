import GraphQLEngine.Request.Selection

/-!
# From documents to requests

`Request.ofDocument` chooses an operation of a document, gives values to its variables and collects
its selections on the root type of its kind.
-/

namespace GraphQLEngine

namespace Request

/-- The operation to run and the name of the request.  The name may be left out when there is only
one operation; a document with an operation without a name ignores it. -/
def chooseOperation (operations : Operations) (name : Option String) :
    Except ValidationError (Option String × Operation) :=
  match operations, name with
  | .anonymous o, name => .ok (name, o)
  | .named [], none => .error .noOperation
  | .named [(name, o)], none => .ok (some name, o)
  | .named _, none => .error .operationNameRequired
  | .named os, some name =>
    match os.lookup name with
    | some o => .ok (some name, o)
    | none => .error (.unknownOperation name)

/-- The value of a declared variable: the supplied one, else its default, else null if its type
allows that. -/
def variableValue (supplied : OrderedMap Json) (d : VariableDefinition) :
    Except ValidationError Const :=
  match supplied.lookup d.name, d.default with
  | some j, _ => .ok (Const.ofJson j)
  | none, some c => .ok c
  | none, none =>
    if d.type.isNonNull then .error (.variableNotFound d.name d.position) else .ok .null

/-- The values of the declared variables; of a repeated name the last definition counts. -/
def variableValues (supplied : OrderedMap Json) (definitions : List VariableDefinition) :
    Except ValidationError Variables := do
  let values ← definitions.mapM fun d => do
    let value ← variableValue supplied d
    pure (d.name, value)
  pure (OrderedMap.ofEntries values)

/-- The request of one operation. -/
def ofOperation (schema : Schema) (fragments : List Fragment) (maxDepth : Option Nat)
    (supplied : OrderedMap Json) (name : Option String) (o : Operation) :
    Except ValidationError Request := do
  let some container := (schema.root? o.kind).bind schema.type?
    | throw (.rootNotDefined o.kind o.position)
  let bindings ← variableValues supplied o.variableDefinitions
  let scope : Scope := ⟨schema, bindings, fragments, maxDepth⟩
  let fields ← scope.collect container 1 [] [] o.selections
  if o.kind = .subscription ∧ fields.length ≠ 1 then
    throw (.subscriptionRootCount fields.length o.position)
  pure ⟨name, o.kind, fields⟩

/-- The request of a document. -/
def ofDocument (schema : Schema) (maxDepth : Option Nat) (document : Document)
    (name : Option String) (supplied : OrderedMap Json) : Except ValidationError Request := do
  let (name, o) ← chooseOperation document.operations name
  ofOperation schema document.fragments maxDepth supplied name o

/-- The request of a text. -/
def ofText (schema : Schema) (maxDepth : Option Nat) (text : String) (name : Option String)
    (supplied : OrderedMap Json) : Except ValidationError Request := do
  let document ← (Document.parse text).mapError .document
  ofDocument schema maxDepth document name supplied

end Request

end GraphQLEngine
