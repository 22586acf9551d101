import GraphQLEngine.Document.Parse
import GraphQLEngine.Text.Quoted

/-!
# Why a document is no valid request
-/

namespace GraphQLEngine

inductive ValidationError where
  | document (error : DocumentError)
  | variableNotFound (name : String) (position : Position)
  | fragmentNotFound (name : String) (position : Position)
  | fragmentCycle (name : String) (position : Position)
  | fragmentMismatch (condition container : String) (position : Position)
  | rootNotDefined (kind : OperationKind) (position : Position)
  | unknownField (field typeName : String) (position : Position)
  | unknownFieldType (typeName : String) (position : Position)
  | leafWithSelection (field : String) (position : Position)
  | missingSelection (field type : String) (position : Position)
  | conflictingFields (outputName : String) (position : Position)
  | missingArgument (name : String) (position : Position)
  | strayArguments (names : List String) (field : String) (position : Position)
  | argumentType (name expected actual : String) (position : Position)
  | tooDeep (position : Position)
  | subscriptionRootCount (count : Nat) (position : Position)
  | noOperation
  | operationNameRequired
  | unknownOperation (name : String)
deriving DecidableEq, Repr

namespace ValidationError

def message : ValidationError → String
  | .document error => error.message
  | .variableNotFound name _ => "Variable '" ++ name ++ "' not found"
  | .fragmentNotFound name _ => "Fragment definition '" ++ name ++ "' not found"
  | .fragmentCycle name _ => "Fragment '" ++ name ++ "' spreads itself"
  | .fragmentMismatch condition container _ =>
    "Fragment on '" ++ condition ++ "' cannot be spread within type '" ++ container ++ "'"
  | .rootNotDefined kind _ => "The schema does not define a " ++ kind.label ++ " root type"
  | .unknownField field typeName _ =>
    "Field '" ++ field ++ "' is not valid for type '" ++ typeName ++ "'"
  | .unknownFieldType typeName _ => "Field type '" ++ typeName ++ "' is not valid"
  | .leafWithSelection field _ =>
    "Field '" ++ field ++ "' is of a scalar type, which should not specify fields"
  | .missingSelection field type _ =>
    "Field '" ++ field ++ "' of type '" ++ type ++ "' must have a selection of subfields"
  | .conflictingFields outputName _ =>
    "Fields with the output name '" ++ outputName ++ "' select different fields or arguments"
  | .missingArgument name _ => "Required argument '" ++ name ++ "' not found"
  | .strayArguments names field _ =>
    "Argument(s) '" ++ Text.quotedList names ++ "' invalid for '" ++ field ++ "'"
  | .argumentType name expected actual _ =>
    "Argument '" ++ name ++ "' is not of a valid type. Expected '" ++ expected ++ "', got '" ++
      actual ++ "'"
  | .tooDeep _ => "Selection set too deep"
  | .subscriptionRootCount count _ =>
    "Subscription operations must select exactly one root field, found " ++ toString count
  | .noOperation => "No operation found"
  | .operationNameRequired =>
    "Must provide operation name if query contains multiple operations"
  | .unknownOperation name => "operationName '" ++ name ++ "' doesn't match any operation"

/-- Where the fault is; nowhere if it has no place. -/
def position : ValidationError → Position
  | .document error => error.position
  | .variableNotFound _ p | .fragmentNotFound _ p | .fragmentCycle _ p
  | .fragmentMismatch _ _ p | .rootNotDefined _ p | .unknownField _ _ p
  | .unknownFieldType _ p | .leafWithSelection _ p | .missingSelection _ _ p
  | .conflictingFields _ p | .missingArgument _ p | .strayArguments _ _ p
  | .argumentType _ _ _ p | .tooDeep p | .subscriptionRootCount _ p => p
  | .noOperation | .operationNameRequired | .unknownOperation _ => .nowhere

def secondPosition : ValidationError → Option Position
  | .document error => error.secondPosition
  | _ => none

end ValidationError

end GraphQLEngine
