import GraphQLEngine.Proofs.Brokers.Maps
import GraphQLEngine.Proofs.Waves.Dispatch
import GraphQLEngine.Proofs.Waves.Known
import Mathlib

/-!
# Starting subscriptions

A document that is accepted as a subscription asks for one root field.  If the schema has the field
and the caller may use it, then the subscription has a plan; what can still go wrong is for others
to say: the resolver may fail, the broker may refuse, or the operation is cancelled while the
resolver is waited for.

There is one exception: validation takes a root field named `__typename` for the name of the type,
and subscribing looks it up in the schema.

    planSubscription r caller = .ok plan  →  SetsUp plan … (pollSetup plan …).1
    planSubscription r caller = .error (.unresolvedField rootType "__typename")      the exception
-/

namespace GraphQLEngine

variable {σ : Type}

theorem Hub.subscribe_refused {h : Hub} {node : Nat} {topic : String} {policy : DeliveryPolicy}
    {fault : BrokerError} (refused : (h.broker node).refusal? topic policy = some fault)
    (filter : EventFilter) : h.subscribe node topic filter policy = .error fault := by
  unfold Hub.subscribe
  rw [InProcessBroker.subscribe_error_iff.mpr refused]

theorem Hub.subscribe_taken {h : Hub} {node : Nat} {topic : String} {policy : DeliveryPolicy}
    (taken : (h.broker node).refusal? topic policy = none) (filter : EventFilter) :
    ∃ h', h.subscribe node topic filter policy = .ok (h', (h.broker node).sinks.length) := by
  unfold Hub.subscribe
  cases made : (h.broker node).subscribe topic filter policy with
  | error fault =>
    rw [InProcessBroker.subscribe_error_iff, taken] at made
    cases made
  | ok done =>
    obtain ⟨b, id⟩ := done
    obtain ⟨-, -, rfl, -⟩ := InProcessBroker.subscribe_ok made
    exact ⟨h.setBroker node b, rfl⟩

/-- A field is not at fault for what is wrong with a request. -/
theorem FieldError.kind_ne (fault : FieldError) :
    fault.kind ≠ .validation ∧ fault.kind ≠ .unresolvedField := by
  cases fault <;> exact ⟨nofun, nofun⟩

/-! ## The set-up -/

/-- When the resolver of a planned subscription is done. -/
def SubscriptionPlan.due (plan : SubscriptionPlan σ) (deadline : Option Nat) (w : World σ) : Nat :=
  deadline.getD (w.clock + plan.resolver.delay plan.call)

/-- The resolver is done before the operation is cancelled, and says where to listen or what is
wrong. -/
structure SubscriptionPlan.Told (plan : SubscriptionPlan σ) (operation : Nat) (deadline : Option Nat)
    (w : World σ) (answer : Except FieldError SubscriptionSource) : Prop where
  running : w.signals.reason? operation = none
  done : plan.due deadline w ≤ w.clock
  answer : (plan.resolver.subscribe plan.call (w.scope operation)).1 = answer

/-- The broker as the resolver leaves it. -/
def SubscriptionPlan.broker (plan : SubscriptionPlan σ) (operation : Nat) (w : World σ) :
    InProcessBroker :=
  (w.absorb (plan.resolver.subscribe plan.call (w.scope operation)).2).hub.broker World.node

namespace Engine

variable {e : Engine σ} {plan : SubscriptionPlan σ} {operation : Nat} {deadline : Option Nat}
  {w : World σ} {r : Request} {caller : Caller}

/-- How the set-up of a planned subscription goes on in a world. -/
inductive SetsUp (e : Engine σ) (plan : SubscriptionPlan σ) (operation : Nat)
    (deadline : Option Nat) (w : World σ) : SetupPhase (SubscriptionStream σ) → Prop
  | cancelled {reason : CancelReason} : w.signals.reason? operation = some reason →
    SetsUp e plan operation deadline w (.failed (.ofReason reason))
  | waiting : w.signals.reason? operation = none → w.clock < plan.due deadline w →
    SetsUp e plan operation deadline w (.waiting (plan.due deadline w))
  | resolver {fault : FieldError} : plan.Told operation deadline w (.error fault) →
    SetsUp e plan operation deadline w (.failed (.subscriptionSetup fault))
  | broker {source : SubscriptionSource} {fault : BrokerError} :
    plan.Told operation deadline w (.ok source) →
    (plan.broker operation w).refusal? source.topic
      (plan.resolver.policy.getD e.settings.delivery) = some fault →
    SetsUp e plan operation deadline w (.failed (.subscription fault))
  | ready {source : SubscriptionSource} : plan.Told operation deadline w (.ok source) →
    (plan.broker operation w).refusal? source.topic
      (plan.resolver.policy.getD e.settings.delivery) = none →
    SetsUp e plan operation deadline w (.ready ⟨(plan.broker operation w).sinks.length, operation,
      plan.caller, plan.rootType, plan.field, plan.resolver, .listening⟩)

theorem pollSetup_done (running : w.signals.reason? operation = none)
    (done : plan.due deadline w ≤ w.clock) :
    (e.pollSetup plan operation deadline w).1 =
      match (e.register plan operation w).1 with
      | .error fault => .failed fault
      | .ok stream => .ready stream := by
  unfold pollSetup
  unfold SubscriptionPlan.due at done
  simp only [running, done, if_true]
  obtain ⟨result, w'⟩ := e.register plan operation w
  cases result <;> rfl

/-- The resolver is asked first, and then the broker, which the resolver may have used. -/
theorem setsUp_pollSetup (e : Engine σ) (plan : SubscriptionPlan σ) (operation : Nat)
    (deadline : Option Nat) (w : World σ) :
    e.SetsUp plan operation deadline w (e.pollSetup plan operation deadline w).1 := by
  cases running : w.signals.reason? operation with
  | some reason =>
    unfold pollSetup
    rw [running]
    exact .cancelled running
  | none =>
    by_cases done : plan.due deadline w ≤ w.clock
    · rw [pollSetup_done running done]
      unfold register
      cases answer : (plan.resolver.subscribe plan.call (w.scope operation)).1 with
      | error fault =>
        simp only [answer]
        exact .resolver ⟨running, done, answer⟩
      | ok source =>
        cases refused : (plan.broker operation w).refusal? source.topic
            (plan.resolver.policy.getD e.settings.delivery) with
        | some fault =>
          have error := Hub.subscribe_refused refused source.filter
          simp only [answer, error]
          exact .broker ⟨running, done, answer⟩ refused
        | none =>
          obtain ⟨hub, ok⟩ := Hub.subscribe_taken refused source.filter
          simp only [answer, ok]
          exact .ready ⟨running, done, answer⟩ refused
    · have later : (e.pollSetup plan operation deadline w).1 = .waiting (plan.due deadline w) := by
        unfold pollSetup
        unfold SubscriptionPlan.due at done
        simp only [running, done, if_false]
        rfl
      rw [later]
      exact .waiting running (by omega)

/-- What a set-up fails with is the fault of the operation's signal, of the resolver or of the
broker. -/
theorem SetsUp.kind_ne {fault : ExecutionError}
    (h : e.SetsUp plan operation deadline w (.failed fault)) :
    fault.kind ≠ .validation ∧ fault.kind ≠ .unresolvedField := by
  cases h with
  | @cancelled reason => cases reason <;> exact ⟨nofun, nofun⟩
  | @resolver fault _ => exact fault.kind_ne
  | broker _ _ => exact ⟨nofun, nofun⟩

/-! ## Plans -/

/-- A subscription that validation accepts has one root field, and a plan for it if the schema has
the field and the caller may use it. -/
theorem planSubscription_of_valid {spec : SchemaSpec}
    {table : DispatchTable (Resolver σ) (SubscriptionResolver σ)}
    (built : Schema.build spec = .ok e.schema) (fits : table.sealFor e.schema = .ok e.dispatch)
    (valid : r.Valid e.schema (some e.settings.maxQueryDepth)) (kind : r.kind = .subscription)
    (caller : Caller) :
    ∃ rootType field, e.schema.root? .subscription = some rootType ∧ r.fields = [field] ∧
      (field.name = typenameField ∧ e.schema.field? rootType field.name = none ∧
          e.planSubscription r caller = .error (.unresolvedField rootType field.name) ∨
        ∃ d resolver, e.schema.field? rootType field.name = some d ∧
          e.dispatch.subscriptionResolverFor ⟨rootType, field.name⟩ = .ok resolver ∧
          (caller.identity.satisfies d.access = true → e.planSubscription r caller =
            .ok ⟨caller, rootType, field, resolver, caller.call rootType .null field d⟩)) := by
  obtain ⟨rootType, root, checked⟩ := preflight_of_valid valid
  obtain ⟨field, fields⟩ := List.length_eq_one_iff.mp (valid.single kind)
  obtain ⟨-, -, known⟩ := preflight_ok checked
  rw [kind] at root
  refine ⟨rootType, field, root, fields, ?_⟩
  unfold planSubscription
  simp only [kind, checked, fields, ne_eq, not_true_eq_false, if_false]
  cases found : e.schema.field? rootType field.name with
  | none =>
    left
    refine ⟨?_, rfl, rfl⟩
    rcases (known field (fields ▸ List.mem_singleton_self field)).cases with name | ⟨d, found', -⟩
    · exact name
    · rw [found] at found'
      cases found'
  | some d =>
    right
    have subscribes : e.schema.subscriptionRoot = some rootType := root
    have sealed := DispatchTable.resolverFor_of_sealed built fits
      (.root (by simp [Schema.roots, subscribes])) found
    rw [if_pos (by simp [Schema.isSubscriptionRoot, subscribes])] at sealed
    obtain ⟨-, resolver, isFound⟩ := sealed
    refine ⟨d, resolver, rfl, isFound, fun allowed => ?_⟩
    simp only [allowed, if_true, isFound]

end Engine

/-- A subscription that validation accepts can be started by a caller who may use the fields of the
subscription root.  It has one root field; either that is the name of the type and is not declared,
and then subscribing refuses it, or it is planned with the resolver that the sealed table has for
it.  From there on, in whatever worlds its set-up is polled, it waits for its resolver, or it is
ready, or it fails because the operation was cancelled, because of its resolver or because of the
broker, and never with a fault of the request. -/
theorem validated_starts {spec : SchemaSpec} {e : Engine σ}
    {table : DispatchTable (Resolver σ) (SubscriptionResolver σ)}
    (built : Schema.build spec = .ok e.schema) (fits : table.sealFor e.schema = .ok e.dispatch)
    {document : Document} {name : Option String} {supplied : OrderedMap Json} {r : Request}
    (validated :
      Request.ofDocument e.schema (some e.settings.maxQueryDepth) document name supplied = .ok r)
    (kind : r.kind = .subscription) {caller : Caller}
    (allowed : ∀ rootType fieldName d, e.schema.root? .subscription = some rootType →
      e.schema.field? rootType fieldName = some d → caller.identity.satisfies d.access = true) :
    ∃ rootType field, e.schema.root? .subscription = some rootType ∧ r.fields = [field] ∧
      (field.name = typenameField ∧ e.schema.field? rootType field.name = none ∧
          e.planSubscription r caller = .error (.unresolvedField rootType field.name) ∨
        ∃ plan d, e.schema.field? rootType field.name = some d ∧
          e.dispatch.subscriptionResolverFor ⟨rootType, field.name⟩ = .ok plan.resolver ∧
          plan = ⟨caller, rootType, field, plan.resolver, caller.call rootType .null field d⟩ ∧
          e.planSubscription r caller = .ok plan ∧
          ∀ operation deadline w,
            e.SetsUp plan operation deadline w (e.pollSetup plan operation deadline w).1 ∧
            ∀ fault, (e.pollSetup plan operation deadline w).1 = .failed fault →
              fault.kind ≠ .validation ∧ fault.kind ≠ .unresolvedField) := by
  have valid := Request.ofDocument_valid validated
  obtain ⟨rootType, field, root, fields, refused | ⟨d, resolver, found, isFound, planned⟩⟩ :=
    Engine.planSubscription_of_valid built fits valid kind caller
  · exact ⟨rootType, field, root, fields, .inl refused⟩
  · refine ⟨rootType, field, root, fields, .inr ⟨_, d, found, isFound, rfl,
      planned (allowed rootType field.name d root found), fun operation deadline w => ?_⟩⟩
    have setsUp := e.setsUp_pollSetup
      ⟨caller, rootType, field, resolver, caller.call rootType .null field d⟩ operation deadline w
    refine ⟨setsUp, fun fault failed => ?_⟩
    rw [failed] at setsUp
    exact setsUp.kind_ne

/-! ## A subscription to a feed -/

namespace Feed

/-- The document that subscribes to a root field. -/
def subscription (name : String) : Document :=
  ⟨.anonymous ⟨.nowhere, .subscription, [], [], [.field ⟨.nowhere, none, name, [], []⟩ []]⟩, []⟩

def subscribed (name : String) : Request := ⟨none, .subscription, [⟨none, name, [], []⟩]⟩

/-- Validation accepts the document for the request. -/
abbrev Accepts (name : String) : Prop :=
  Request.ofDocument engine.schema (some engine.settings.maxQueryDepth) (subscription name) none
    [] = .ok (subscribed name)

theorem unguarded (rootType fieldName : String) (d : FieldDefinition)
    (root : schema.root? .subscription = some rootType)
    (found : schema.field? rootType fieldName = some d) :
    Sample.caller.identity.satisfies d.access = true := by
  cases root
  by_cases name : fieldName = "tick"
  · subst name
    cases found
    rfl
  · have missing : schema.field? "Subscription" fieldName = none := by
      show List.lookup fieldName [("tick", FieldDefinition.of "tick" (.named "Int"))] = none
      rw [List.lookup_cons, beq_eq_false_iff_ne.mpr name]
      rfl
    rw [missing] at found
    cases found

/-- The feed can be subscribed to; the name of its type cannot. -/
theorem validated_starts_feed :
    (Accepts "tick" ∧ ∃ plan s,
      engine.planSubscription (subscribed "tick") Sample.caller = .ok plan ∧
      (engine.pollSetup plan 0 none (.start default ())).1 = .ready s) ∧
    Accepts "__typename" ∧ engine.planSubscription (subscribed "__typename") Sample.caller =
      .error (.unresolvedField "Subscription" "__typename") := by
  have tick : Accepts "tick" := by cbv
  have typename : Accepts "__typename" := by cbv
  refine ⟨⟨tick, ?_⟩, typename, ?_⟩
  · obtain ⟨rootType, field, root, fields, ⟨-, missing, -⟩ | ⟨plan, d, -, isFound, -, planned,
      polled⟩⟩ := validated_starts built sealed tick rfl unguarded
    · cases root
      cases fields
      cases missing
    · cases root
      cases fields
      obtain ⟨setsUp, -⟩ := polled 0 none (.start default ())
      obtain ⟨caller, rootType, field, resolver, call⟩ := plan
      cases isFound
      generalize phase : (engine.pollSetup _ 0 none (.start default ())).1 = p at setsUp
      cases setsUp with
      | cancelled reason => cases reason
      | waiting _ later => exact absurd later (Nat.lt_irrefl 0)
      | resolver told => cases told.answer
      | broker told refused =>
        cases told.answer
        cases refused
      | ready => exact ⟨_, _, planned, phase⟩
  · obtain ⟨rootType, field, root, fields, ⟨-, -, refused⟩ | ⟨plan, d, found, -⟩⟩ :=
      validated_starts built sealed typename rfl unguarded
    · cases root
      cases fields
      exact refused
    · cases root
      cases fields
      cases found

end Feed

end GraphQLEngine
