import GraphQLEngine.Broker.InProcess
import GraphQLEngine.Cancellation.Signals
import GraphQLEngine.Dispatch.Table
import GraphQLEngine.Execution.Error
import GraphQLEngine.Request.Error

/-!
# Why an operation fails as a whole
-/

namespace GraphQLEngine

inductive ExecutionError where
  | validation (error : ValidationError)
  | unresolvedField (typeName fieldName : String)
  | dispatch (error : DispatchError)
  | tooDeep (limit : Nat)
  | unsupportedOperation (kind : OperationKind)
  | subscriptionRootCount (count : Nat)
  /-- A subscription was to be executed. -/
  | notExecutable
  | notASubscription
  /-- The resolver of a subscription failed. -/
  | subscriptionSetup (error : FieldError)
  /-- The broker refused a subscription. -/
  | subscription (error : BrokerError)
  | cancelled
  | timeout
deriving DecidableEq, Repr

namespace ExecutionError

def ofReason : CancelReason → ExecutionError
  | .cancelled => .cancelled
  | .timedOut => .timeout

def kind : ExecutionError → ErrorKind
  | .validation _ | .tooDeep _ | .unsupportedOperation _ | .subscriptionRootCount _
  | .notExecutable | .notASubscription => .validation
  | .unresolvedField .. | .dispatch _ => .unresolvedField
  | .subscriptionSetup error => error.kind
  | .subscription _ => .resolver
  | .cancelled => .cancelled
  | .timeout => .timeout

/-- The text that callers see. -/
def shown : ExecutionError → String
  | .validation error => error.message
  | .unresolvedField typeName fieldName =>
    "Cannot query field '" ++ fieldName ++ "' on type '" ++ typeName ++ "'"
  | .dispatch error => error.message
  | .tooDeep limit => "Selection set is too deep (maximum depth is " ++ toString limit ++ ")"
  | .unsupportedOperation kind => "The schema does not support " ++ kind.label ++ " operations"
  | .subscriptionRootCount count =>
    "Subscription operations must select exactly one root field, found " ++ toString count
  | .notExecutable => "Subscription operations must be started with subscribe"
  | .notASubscription => "Only subscription operations can be subscribed to"
  | .subscriptionSetup error => error.shown
  | .subscription error => "Subscription could not be registered: " ++ error.message
  | .cancelled => "Operation was cancelled"
  | .timeout => "Operation timed out"

/-- The error as it appears among the errors of an answer. -/
def report (e : ExecutionError) : ReportedError := ⟨e.shown, [], e.kind⟩

/-- The answer to an operation that fails with nothing done. -/
def response (e : ExecutionError) : Response := ⟨none, [e.report]⟩

end ExecutionError

end GraphQLEngine
