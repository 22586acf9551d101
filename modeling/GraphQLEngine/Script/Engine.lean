import GraphQLEngine.Engine.Build
import GraphQLEngine.Script.Evaluate

/-!
# Engines of scripts

The resolvers, subscriptions and loaders of a scripted engine.  Fields without a script may be
given the resolver that reads a member of the parent value.
-/

namespace GraphQLEngine.Script

/-- The resolver of a script. -/
def ResolverScript.resolver (r : ResolverScript) : Resolver Store :=
  ⟨fun _ => r.delay, fun c s => r.behaviour.run c .null s⟩

namespace SubscriptionScript

/-- The value that an event must have under the filter's key. -/
def expected (x : SubscriptionScript) (c : FieldCall) (s : Scope Store) :
    Except FieldError (Option (String × Json)) × Scope Store :=
  match x.filter with
  | none => (.ok none, s)
  | some (key, e) =>
    let (r, s) := e.eval c .null s
    (r.map fun v => some (key, v), s)

def accepts (expected : Option (String × Json)) (event : Json) : Bool :=
  match expected with
  | none => true
  | some (key, v) => (event.member key).sameValue v

def subscribe (x : SubscriptionScript) (c : FieldCall) (s : Scope Store) :
    Except FieldError SubscriptionSource × Scope Store :=
  match x.failure with
  | some e => (.error e, s)
  | none =>
    match x.topic.eval c .null s with
    | (.error e, s) => (.error e, s)
    | (.ok topic, s) =>
      let (r, s) := x.expected c s
      (r.map fun expected => ⟨topic.string?.getD "", accepts expected⟩, s)

def resolveEvent (x : SubscriptionScript) (event : Json) : Except FieldError Json :=
  match x.pick with
  | none => .ok event
  | some key =>
    match event.get? key with
    | some v => .ok v
    | none => .error (.resolver ("Event without " ++ key))

def resolver (x : SubscriptionScript) : SubscriptionResolver Store :=
  ⟨fun _ => x.delay, x.subscribe, x.resolveEvent, x.policy⟩

end SubscriptionScript

namespace LoaderScript

/-- The name of a key among the values and errors. -/
def keyName : LoadKey → String
  | .text s => s
  | .integer n => toString n

def answer? (l : LoaderScript) (key : LoadKey) : Option Answer :=
  match l.values.lookup (keyName key) with
  | some v => some (.ok v)
  | none => (l.errors.lookup (keyName key)).map .error

def fetch (l : LoaderScript) (keys : List LoadKey) (s : Store) : Fetched × Store :=
  match l.failure with
  | some e => (.error e, s)
  | none => (.ok (keys.filterMap fun key => (l.answer? key).map fun a => (key, a)), s)

def loader (l : LoaderScript) : Loader Store := ⟨l.name, l.delay, l.fetch⟩

end LoaderScript

abbrev Table := DispatchTable (Resolver Store) (SubscriptionResolver Store)

/-- The resolvers of an engine; a field without a script reads a member of the parent value. -/
structure EngineScript where
  spec : SchemaSpec
  resolvers : List (FieldKey × Option ResolverScript)
  subscriptions : List (FieldKey × SubscriptionScript)
  loaders : List (Nat × LoaderScript)
  /-- Whether every other field reads a member of the parent value. -/
  auto : Bool
  settings : Settings

namespace EngineScript

/-- The fields of the object types. -/
def objectFields (s : Schema) : List FieldKey :=
  s.types.values.flatMap fun t =>
    match t.fields? with
    | none => []
    | some fields => fields.keys.map fun field => ⟨t.name, field⟩

/-- What is registered, in order. -/
def registrations (x : EngineScript) (s : Schema) :
    List (FieldKey × Handler (Resolver Store) (SubscriptionResolver Store)) :=
  let scripted :=
    (x.resolvers.map fun (key, script) =>
      (key, Handler.field (script.elim Resolver.property ResolverScript.resolver))) ++
    (x.subscriptions.map fun (key, script) => (key, Handler.subscription script.resolver))
  let others := (objectFields s).filter fun key => (scripted.lookup key).isNone
  if x.auto then scripted ++ others.map fun key => (key, .field .property) else scripted

def dispatch (x : EngineScript) (s : Schema) : Except DispatchError Table :=
  (x.registrations s).foldlM (fun table (key, handler) => table.register key handler) .empty

/-- The loaders; a later one of a number replaces the earlier. -/
def loaderTable (x : EngineScript) : List (Nat × Loader Store) :=
  x.loaders.foldl
    (fun table (number, l) =>
      if table.any (·.1 == number) then
        table.map fun (n, old) => (n, if n = number then l.loader else old)
      else table ++ [(number, l.loader)])
    []

def engine (x : EngineScript) : Except BuildError (Engine Store) :=
  Engine.ofSpec x.spec x.dispatch x.loaderTable x.settings

end EngineScript

end GraphQLEngine.Script
