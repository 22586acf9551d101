import GraphQLEngine.Execution.Resolver
import GraphQLEngine.Schema.Builder

/-!
# Building engines

An engine is built from the declarations of its schema and the resolvers for it.  What is wrong
with either is found before any operation runs.
-/

namespace GraphQLEngine

inductive BuildError where
  | schema (e : SchemaError)
  | dispatch (e : DispatchError)
deriving DecidableEq, Repr

def BuildError.message : BuildError → String
  | .schema e => e.message
  | .dispatch e => e.message

/-- The engine of declarations; `dispatch` registers the resolvers for the schema. -/
def Engine.ofSpec {σ : Type} (spec : SchemaSpec)
    (dispatch : Schema →
      Except DispatchError (DispatchTable (Resolver σ) (SubscriptionResolver σ)))
    (loaders : List (Nat × Loader σ)) (settings : Settings) : Except BuildError (Engine σ) := do
  let schema ← (Schema.build spec).mapError .schema
  let table ← (dispatch schema).mapError .dispatch
  (Engine.build schema table loaders settings).mapError .dispatch

end GraphQLEngine
