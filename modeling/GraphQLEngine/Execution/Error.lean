import GraphQLEngine.Json.Basic

/-!
# Errors of fields and their report

A field that fails is null in the answer, and its error is listed beside the data with the path of
the field.  The details of an internal error are not shown.

    (FieldError.internal d).shown = "Internal error"     for every d
-/

namespace GraphQLEngine

/-- The category of an error in an answer. -/
inductive ErrorKind where
  | validation
  | unresolvedField
  | resolver
  | notFound
  | authorization
  | timeout
  | cancelled
  | internal
deriving DecidableEq, Repr, Inhabited

def ErrorKind.label : ErrorKind → String
  | .validation => "VALIDATION"
  | .unresolvedField => "UNRESOLVED_FIELD"
  | .resolver => "RESOLVER"
  | .notFound => "NOT_FOUND"
  | .authorization => "AUTHORIZATION"
  | .timeout => "TIMEOUT"
  | .cancelled => "CANCELLED"
  | .internal => "INTERNAL"

inductive FieldError where
  | resolver (message : String)
  /-- A loader has no value for a key, which is given as it is shown. -/
  | notFound (loader key : String)
  | authorization
  | nullForNonNull (field : String)
  | invalidValue (message : String)
  | internal (detail : String)
deriving DecidableEq, Repr, Inhabited

namespace FieldError

def kind : FieldError → ErrorKind
  | .resolver _ | .nullForNonNull _ | .invalidValue _ => .resolver
  | .notFound .. => .notFound
  | .authorization => .authorization
  | .internal _ => .internal

/-- The whole text, with the details of an internal error. -/
def message : FieldError → String
  | .resolver message => message
  | .notFound loader key =>
    "No value found for key " ++ key ++ " in loader '" ++ loader ++ "'"
  | .authorization => "Not authorized"
  | .nullForNonNull field => "Cannot return null for non-nullable field " ++ field
  | .invalidValue message => message
  | .internal detail => "Internal error: " ++ detail

/-- The text that callers see. -/
def shown : FieldError → String
  | .internal _ => "Internal error"
  | e => e.message

end FieldError

inductive PathSegment where
  | field (name : String)
  | index (i : Nat)
deriving DecidableEq, Repr, Inhabited

def PathSegment.toJson : PathSegment → Json
  | .field name => .str name
  | .index i => .nat i

abbrev Path := List PathSegment

/-- An entry of the errors of an answer. -/
structure ReportedError where
  message : String
  path : Path
  kind : ErrorKind
deriving DecidableEq, Repr, Inhabited

namespace ReportedError

def ofField (e : FieldError) (path : Path) : ReportedError := ⟨e.shown, path, e.kind⟩

def toJson (e : ReportedError) : Json :=
  .obj [
    ("message", .str e.message),
    ("path", .arr (e.path.map PathSegment.toJson)),
    ("kind", .str e.kind.label)]

end ReportedError

/-- The answer to an operation, or to one event of a subscription. -/
structure Response where
  data : Option Json
  errors : List ReportedError
deriving Inhabited

namespace Response

def isOk (r : Response) : Bool := r.errors.isEmpty

/-- The data, null if there is none, and the errors if there are any. -/
def toJson (r : Response) : Json :=
  let data := ("data", r.data.getD .null)
  if r.errors.isEmpty then .obj [data]
  else .obj [data, ("errors", .arr (r.errors.map ReportedError.toJson))]

end Response

end GraphQLEngine
