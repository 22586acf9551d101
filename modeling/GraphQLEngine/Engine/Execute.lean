import GraphQLEngine.Engine.Error
import GraphQLEngine.Execution.Run
import GraphQLEngine.Request.Validate

/-!
# Executing requests

A request is checked against the schema and the settings before any of it runs.  The root fields of
a query run together; those of a mutation one after the other.  An operation that is stopped has no
data:

    (stoppedResponse g reason).data = none
-/

namespace GraphQLEngine

namespace Engine

variable {σ : Type}

/-! ## Checks -/

/-- Validate the text of a document. -/
def validate (e : Engine σ) (query : String) (operationName : Option String)
    (supplied : OrderedMap Json) : Except ExecutionError Request :=
  match Request.ofText e.schema (some e.settings.maxQueryDepth) query operationName supplied with
  | .ok r => .ok r
  | .error fault => .error (.validation fault)

mutual

/-- Check that every selected field exists, on the type that it is selected on. -/
def checkField (s : Schema) (typeName : String) : RequestField → Except ExecutionError Unit
  | ⟨_, name, _, subfields⟩ =>
    if name = typenameField then .ok ()
    else
      match s.field? typeName name with
      | none => .error (.unresolvedField typeName name)
      | some d => checkFields s d.type.innermost subfields

def checkFields (s : Schema) (typeName : String) : List RequestField → Except ExecutionError Unit
  | [] => .ok ()
  | f :: fs =>
    match checkField s typeName f with
    | .error fault => .error fault
    | .ok _ => checkFields s typeName fs

end

/-- Check a request, whatever its source; the result is the root type. -/
def preflight (e : Engine σ) (r : Request) : Except ExecutionError String :=
  match e.schema.root? r.kind with
  | none => .error (.unsupportedOperation r.kind)
  | some rootType =>
    if e.settings.maxQueryDepth < r.depth then .error (.tooDeep e.settings.maxQueryDepth)
    else
      match checkFields e.schema rootType r.fields with
      | .error fault => .error fault
      | .ok _ => .ok rootType

/-! ## Queries and mutations -/

/-- The task of a root field. -/
def rootTask (rootType : String) (field : RequestField) : Task :=
  ⟨Graph.root, rootType, .null, field, []⟩

/-- The runs of a request: one for all root fields, or for each root field of a mutation. -/
def runs (kind : OperationKind) (rootType : String) (fields : List RequestField) :
    List (List Task) :=
  match kind with
  | .mutation => fields.map fun f => [rootTask rootType f]
  | _ => [fields.map (rootTask rootType)]

/-- The answer of an operation that was stopped: no data, and the reason after the errors so far. -/
def stoppedResponse (g : Graph) (reason : CancelReason) : Response :=
  ⟨none, g.errors ++ [(ExecutionError.ofReason reason).report]⟩

/-- Begin to execute a request; one that fails a check is answered at once. -/
def execute (e : Engine σ) (r : Request) (caller : Caller) (st : OperationState σ) :
    Except Response (Polled σ × OperationState σ) :=
  if r.kind = .subscription then .error ExecutionError.notExecutable.response
  else
    match e.preflight r with
    | .error fault => .error fault.response
    | .ok rootType => .ok (e.begin caller .new (runs r.kind rootType r.fields) st)

end Engine

/-- The answer of an execution that is over. -/
def Polled.response? : Polled σ → Option Response
  | .suspended _ => none
  | .completed g => some g.response
  | .stopped g reason => some (Engine.stoppedResponse g reason)

end GraphQLEngine
