import GraphQLEngine.Config.Settings
import GraphQLEngine.Dispatch.Table
import GraphQLEngine.Execution.Loader
import GraphQLEngine.Request.Basic

/-!
# Resolvers and engines

An engine puts together a schema, a resolver for each of its fields, the loaders that resolvers may
load from, and its settings.
-/

namespace GraphQLEngine

/-- What a resolver is given for one field. -/
structure FieldCall where
  /-- The value of the object that the field belongs to; null at the root. -/
  parent : Json
  /-- The arguments with the declared defaults of those that were omitted. -/
  arguments : OrderedMap Json
  /-- The values of variables that came with the request. -/
  supplied : OrderedMap Json
  identity : Identity
  typeName : String
  fieldName : String

structure Resolver (σ : Type) where
  /-- How long the resolver waits before it runs, in milliseconds. -/
  delay : FieldCall → Nat
  run : FieldCall → Scope σ → Except FieldError (FieldValue σ) × Scope σ

/-- Reads the member of the parent value that is named like the field. -/
def Resolver.property : Resolver σ :=
  ⟨fun _ => 0, fun call s => (.ok (.value (call.parent.member call.fieldName)), s)⟩

/-- Where a subscription listens. -/
structure SubscriptionSource where
  topic : String
  filter : EventFilter

/-- The resolver of a root field of subscriptions. -/
structure SubscriptionResolver (σ : Type) where
  delay : FieldCall → Nat
  subscribe : FieldCall → Scope σ → Except FieldError SubscriptionSource × Scope σ
  /-- The value of the root field for an event. -/
  resolveEvent : Json → Except FieldError Json
  /-- How events are queued; by default as the settings say. -/
  policy : Option DeliveryPolicy

structure Engine (σ : Type) where
  schema : Schema
  dispatch : DispatchTable (Resolver σ) (SubscriptionResolver σ)
  /-- The loaders by number. -/
  loaders : List (Nat × Loader σ)
  settings : Settings

namespace Engine

variable {σ : Type}

/-- An engine whose dispatch table fits its schema. -/
def build (schema : Schema) (dispatch : DispatchTable (Resolver σ) (SubscriptionResolver σ))
    (loaders : List (Nat × Loader σ)) (settings : Settings) : Except DispatchError (Engine σ) :=
  match dispatch.sealFor schema with
  | .error e => .error e
  | .ok dispatch => .ok ⟨schema, dispatch, loaders, settings⟩

/-- A coordinator for a new operation. -/
def coordinator (e : Engine σ) : Coordinator := .new e.settings.maxBatchSize e.loaders

end Engine

/-- The caller of an operation, and the values of variables that came with the request. -/
structure Caller where
  identity : Identity
  supplied : OrderedMap Json

/-- The call of a field's resolver. -/
def Caller.call (c : Caller) (typeName : String) (parent : Json) (field : RequestField)
    (d : FieldDefinition) : FieldCall where
  parent := parent
  arguments := d.arguments.foldl
    (fun arguments (name, a) =>
      match a.default with
      | some v => if OrderedMap.has arguments name then arguments else arguments.insert name v
      | none => arguments)
    field.arguments
  supplied := c.supplied
  identity := c.identity
  typeName := typeName
  fieldName := field.name

end GraphQLEngine
