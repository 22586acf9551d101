import GraphQLEngine.Engine.Execute

/-!
# Subscriptions

A subscription asks its root resolver once where to listen, and registers with the broker.  Each
event that the registration receives is executed like a query, with the event as the value of the
root field and with loads of its own.

A stream ends when its operation is cancelled, when its registration ends, or after the report that
it fell behind; ending it releases the registration.
-/

namespace GraphQLEngine

/-- A subscription that is about to be set up. -/
structure SubscriptionPlan (σ : Type) where
  caller : Caller
  rootType : String
  field : RequestField
  resolver : SubscriptionResolver σ
  call : FieldCall

/-- How far the set-up of a subscription has come. -/
inductive SetupPhase (α : Type) where
  /-- The resolver is not done before the deadline. -/
  | waiting (deadline : Nat)
  | failed (e : ExecutionError)
  | ready (a : α)

inductive StreamStage (σ : Type) where
  | listening
  /-- An event is being executed. -/
  | executing (x : Execution σ) (c : Coordinator)
  /-- The report that the stream fell behind was given. -/
  | behind
  | ended

structure SubscriptionStream (σ : Type) where
  registration : Nat
  /-- The signal of the subscription. -/
  operation : Nat
  caller : Caller
  rootType : String
  field : RequestField
  resolver : SubscriptionResolver σ
  stage : StreamStage σ

/-- What a stream gives when it is polled. -/
inductive StreamItem where
  | pending
  | response (r : Response)
  | ended
deriving Inhabited

/-- The last answer of a stream that fell behind. -/
def fellBehindResponse : Response :=
  ⟨none, [⟨"Subscription closed: subscriber fell behind", [], .internal⟩]⟩

namespace Engine

variable {σ : Type}

/-! ## Setting up -/

/-- Check a request for a subscription, and find its resolver. -/
def planSubscription (e : Engine σ) (r : Request) (caller : Caller) :
    Except ExecutionError (SubscriptionPlan σ) :=
  if r.kind ≠ .subscription then .error .notASubscription
  else
    match e.preflight r with
    | .error fault => .error fault
    | .ok rootType =>
      match r.fields with
      | [field] =>
        match e.schema.field? rootType field.name with
        | none => .error (.unresolvedField rootType field.name)
        | some d =>
          if caller.identity.satisfies d.access then
            match e.dispatch.subscriptionResolverFor ⟨rootType, field.name⟩ with
            | .error fault => .error (.dispatch fault)
            | .ok resolver =>
              .ok ⟨caller, rootType, field, resolver, caller.call rootType .null field d⟩
          else .error (.subscriptionSetup .authorization)
      | fields => .error (.subscriptionRootCount fields.length)

/-- Ask the resolver and register with the broker. -/
def register (e : Engine σ) (plan : SubscriptionPlan σ) (operation : Nat) (w : World σ) :
    Except ExecutionError (SubscriptionStream σ) × World σ :=
  let r := plan.resolver.subscribe plan.call (w.scope operation)
  let w := w.absorb r.2
  match r.1 with
  | .error fault => (.error (.subscriptionSetup fault), w)
  | .ok source =>
    let policy := plan.resolver.policy.getD e.settings.delivery
    match w.hub.subscribe World.node source.topic source.filter policy with
    | .error fault => (.error (.subscription fault), w)
    | .ok (hub, id) =>
      (.ok ⟨id, operation, plan.caller, plan.rootType, plan.field, plan.resolver, .listening⟩,
        { w with hub })

/-- Go on with the set-up of a subscription; `deadline` is when its resolver is done, and is not
known before it is started. -/
def pollSetup (e : Engine σ) (plan : SubscriptionPlan σ) (operation : Nat)
    (deadline : Option Nat) (w : World σ) : SetupPhase (SubscriptionStream σ) × World σ :=
  match w.signals.reason? operation with
  | some reason => (.failed (.ofReason reason), w)
  | none =>
    let deadline := deadline.getD (w.clock + plan.resolver.delay plan.call)
    if deadline ≤ w.clock then
      match e.register plan operation w with
      | (.error fault, w) => (.failed fault, w)
      | (.ok stream, w) => (.ready stream, w)
    else (.waiting deadline, w)

/-! ## Streams -/

/-- Begin to execute an event; without a definition of the root field it is answered at once. -/
def executeEvent (e : Engine σ) (s : SubscriptionStream σ) (event : Json) (w : World σ) :
    Except Response (Polled σ × OperationState σ) :=
  match e.schema.field? s.rootType s.field.name with
  | none => .error (ExecutionError.unresolvedField s.rootType s.field.name).response
  | some d =>
    let name := s.field.outputName
    let node := Graph.new.size
    let g := Graph.new.addField Graph.root name d.type.isNonNull
    let v :=
      match s.resolver.resolveEvent event with
      | .ok v => Settled.value v
      | .error fault => .error fault
    let completed := completeValue e.schema s.field g node d.type v [.field name]
    .ok (e.begin s.caller completed.1 [completed.2] ⟨s.operation, e.coordinator, w⟩)

end Engine

namespace SubscriptionStream

variable {σ : Type}

/-- End a stream and release its registration. -/
def release (s : SubscriptionStream σ) (w : World σ) : SubscriptionStream σ × World σ :=
  ({ s with stage := .ended }, { w with hub := w.hub.unsubscribe World.node s.registration })

def finish (s : SubscriptionStream σ) (w : World σ) :
    StreamItem × SubscriptionStream σ × World σ :=
  (.ended, s.release w)

/-- What a stream gives once the execution of an event has come to a point. -/
def afterEvent (s : SubscriptionStream σ) (r : Polled σ × OperationState σ) :
    StreamItem × SubscriptionStream σ × World σ :=
  match r.1 with
  | .suspended x => (.pending, { s with stage := .executing x r.2.coordinator }, r.2.world)
  | .completed g => (.response g.response, { s with stage := .listening }, r.2.world)
  | .stopped _ _ => s.finish r.2.world

/-- Take the next answer of a stream, if there is one. -/
def poll (s : SubscriptionStream σ) (e : Engine σ) (w : World σ) :
    StreamItem × SubscriptionStream σ × World σ :=
  match s.stage with
  | .ended => (.ended, s, w)
  | .behind => s.finish w
  | .executing x c => s.afterEvent (e.poll s.caller x ⟨s.operation, c, w⟩)
  | .listening =>
    if w.signals.isCancelled s.operation then s.finish w
    else
      let r := w.hub.receive World.node s.registration
      let w := { w with hub := r.1 }
      match r.2 with
      | .nothing => (.pending, s, w)
      | .ended => s.finish w
      | .overflow _ => (.response fellBehindResponse, { s with stage := .behind }, w)
      | .event event =>
        match e.executeEvent s event w with
        | .error response => (.response response, s, w)
        | .ok r => s.afterEvent r

/-- When what a stream waits for is due, if that is a resolver or a fetch. -/
def nextDeadline? (s : SubscriptionStream σ) : Option Nat :=
  match s.stage with
  | .executing x _ => x.nextDeadline?
  | _ => none

/-- Release the registration of a stream whose signal is set, though nobody polls it. -/
def watch (s : SubscriptionStream σ) (w : World σ) : World σ :=
  if w.signals.isCancelled s.operation then
    { w with hub := w.hub.unsubscribe World.node s.registration }
  else w

end SubscriptionStream

end GraphQLEngine
