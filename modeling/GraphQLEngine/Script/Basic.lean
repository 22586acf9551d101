import GraphQLEngine.Execution.Argument

/-!
# Scripts

A script says what a resolver does as data: an expression gives a value, a behaviour what the
resolver returns.  An expression or behaviour of an unknown kind is undefined; to evaluate it is a
fault, which the store keeps.
-/

namespace GraphQLEngine.Script

/-- A part of a value. -/
inductive Part where
  | whole
  | member (key : String)
  | item (index : Nat)
deriving DecidableEq, Repr, Inhabited

/-- The part of a value; null if it has no such part. -/
def Part.of (p : Part) (v : Json) : Json :=
  match p with
  | .whole => v
  | .member key => v.member key
  | .item index => (v.item? index).getD .null

inductive Expression where
  | literal (v : Json)
  /-- An argument; null if it is absent. -/
  | argument (name : String)
  | arguments
  | required (name : String) (type : ArgumentType)
  | optional (name : String) (type : ArgumentType)
  /-- A part of the parent value. -/
  | parent (part : Part)
  /-- A part of the value that was loaded. -/
  | loaded (part : Part)
  /-- A variable of the request. -/
  | variableOf (name : String)
  | subject
  /-- The type and the field of the resolver. -/
  | here
  /-- Whether the operation is cancelled. -/
  | cancelled
  /-- Counts up from one each time it is evaluated. -/
  | counter (name : String)
  | object (members : List (String × Expression))
  | array (items : List Expression)
  /-- The texts of the items joined, those that are no texts as JSON. -/
  | concat (items : List Expression)
  | undefined
deriving Inhabited

inductive Behaviour where
  | give (e : Expression)
  | null
  /-- Fail with an error. -/
  | fail (e : FieldError)
  /-- Return an error as a value. -/
  | error (e : FieldError)
  | list (items : List Behaviour)
  | load (loader : Nat) (key : Expression)
  | loadMany (loader : Nat) (keys : Expression)
  | andThen (first next : Behaviour)
  | publish (topic payload : Expression) (next : Behaviour)
  | cancel (reason : CancelReason) (next : Behaviour)
  | undefined
deriving Inhabited

/-- A behaviour that begins after a delay in milliseconds. -/
structure ResolverScript where
  delay : Nat
  behaviour : Behaviour
deriving Inhabited

structure SubscriptionScript where
  delay : Nat
  failure : Option FieldError
  topic : Expression
  /-- The member of an event that must equal a value. -/
  filter : Option (String × Expression)
  /-- The member of an event that is the value of the root field. -/
  pick : Option String
  policy : Option DeliveryPolicy

structure LoaderScript where
  name : String
  delay : Nat
  /-- Why every fetch fails. -/
  failure : Option FieldError
  values : OrderedMap Json
  errors : OrderedMap FieldError

/-- What scripted resolvers share. -/
structure Store where
  counters : OrderedMap Nat
  /-- Whether something undefined was evaluated. -/
  fault : Bool
deriving Inhabited

def Store.empty : Store := ⟨[], false⟩

end GraphQLEngine.Script
