import GraphQLEngine.Broker.Policy
import GraphQLEngine.Config.Environment

/-!
# Engine settings

The settings of an engine and the variables they are read from.

| variable | setting | unset or blank |
|---|---|---|
| `EXO_MAX_QUERY_DEPTH` | deepest selection | 32 |
| `EXO_LOADER_MAX_BATCH_SIZE` | keys per fetch, 0 for no limit | no limit |
| `EXO_SUBSCRIPTION_BUFFER_SIZE` | capacity of a subscription, not 0 | 128 |
| `EXO_SUBSCRIPTION_OVERFLOW` | its overflow mode | `buffer` |
-/

namespace GraphQLEngine

structure Settings where
  /-- The deepest selection that is accepted; root fields are at depth 1. -/
  maxQueryDepth : Nat
  /-- The most keys of one batch fetch; without a limit all queued keys go into one. -/
  maxBatchSize : Option Nat
  /-- The policy of subscriptions whose resolver does not choose one. -/
  delivery : DeliveryPolicy
deriving DecidableEq, Repr

namespace Settings

def defaultQueryDepth : Nat := 32

def defaultCapacity : Nat := 128

def default : Settings := ⟨defaultQueryDepth, none, ⟨.buffer, defaultCapacity⟩⟩

instance : Inhabited Settings := ⟨default⟩

def queryDepthKey : String := "EXO_MAX_QUERY_DEPTH"

def batchSizeKey : String := "EXO_LOADER_MAX_BATCH_SIZE"

def capacityKey : String := "EXO_SUBSCRIPTION_BUFFER_SIZE"

def overflowKey : String := "EXO_SUBSCRIPTION_OVERFLOW"

/-! ## Reading -/

def readQueryDepth (e : Environment) : Except EnvironmentError Nat := do
  let depth ← e.parsed Environment.readSize queryDepthKey
  pure (depth.getD defaultQueryDepth)

def readBatchSize (e : Environment) : Except EnvironmentError (Option Nat) := do
  let size ← e.parsed Environment.readSize batchSizeKey
  pure (size.filter (0 < ·))

def readCapacity (e : Environment) : Except EnvironmentError Nat := do
  match ← e.parsed Environment.readSize capacityKey with
  | none => pure defaultCapacity
  | some 0 => throw (.invalidChoice capacityKey "0" "Must be a positive number")
  | some size => pure size

def readOverflow (e : Environment) : Except EnvironmentError OverflowMode :=
  match (e.get? overflowKey).map Text.trim with
  | none | some "" => .ok .buffer
  | some label =>
    match OverflowMode.ofLabel? label with
    | some mode => .ok mode
    | none =>
      .error (.invalidChoice overflowKey label
        "Must be one of 'buffer', 'drop-oldest', or 'drop-newest'")

/-- The settings of an environment. -/
def ofEnvironment (e : Environment) : Except EnvironmentError Settings := do
  let capacity ← readCapacity e
  let mode ← readOverflow e
  let maxQueryDepth ← readQueryDepth e
  let maxBatchSize ← readBatchSize e
  pure ⟨maxQueryDepth, maxBatchSize, ⟨mode, capacity⟩⟩

end Settings

end GraphQLEngine
