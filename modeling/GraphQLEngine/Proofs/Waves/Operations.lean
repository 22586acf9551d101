import GraphQLEngine.Proofs.Responses.Streams
import GraphQLEngine.Proofs.Waves.Steps
import GraphQLEngine.Proofs.Waves.Tasks

/-!
# How operations begin

A query or mutation begins with the tasks of its root fields, a mutation in one run for each; an event
of a subscription begins with the tasks that the value of its root field leaves, one level further
down.

    Engine.Begins e r caller base st₀ start     with loads of its own
    Engine.Starts e r caller base st₀ start     in whatever state
-/

namespace GraphQLEngine

variable {σ : Type}

/-- A request begins to be executed, or an event of it; `base` is the depth of the fields above those
that are still to be resolved. -/
inductive Engine.Begins (e : Engine σ) (r : Request) (caller : Caller) :
    Nat → OperationState σ → Polled σ × OperationState σ → Prop
  | request {operation : Nat} {w : World σ} {start : Polled σ × OperationState σ} :
    e.execute r caller ⟨operation, e.coordinator, w⟩ = .ok start →
      Begins e r caller 0 ⟨operation, e.coordinator, w⟩ start
  | event {plan : SubscriptionPlan σ} {operation : Nat} {w w₀ w' : World σ}
    {s : SubscriptionStream σ} {event : Json} {start : Polled σ × OperationState σ} :
    e.planSubscription r caller = .ok plan → e.register plan operation w = (.ok s, w₀) →
      e.executeEvent s event w' = .ok start →
      Begins e r caller 1 ⟨s.operation, e.coordinator, w'⟩ start

/-- A stream of a subscription, at any time of its life. -/
inductive Engine.Streams (e : Engine σ) (r : Request) (caller : Caller) :
    SubscriptionStream σ → Prop
  | stream {plan : SubscriptionPlan σ} {operation : Nat} {w w₀ : World σ}
    {s₀ s : SubscriptionStream σ} :
    e.planSubscription r caller = .ok plan → e.register plan operation w = (.ok s₀, w₀) →
      s₀.Reaches e s → Streams e r caller s

/-- A request starts to be executed in whatever state, or an event of one of its streams does; `base`
is the depth of the fields above those that are still to be resolved. -/
inductive Engine.Starts (e : Engine σ) (r : Request) (caller : Caller) :
    Nat → OperationState σ → Polled σ × OperationState σ → Prop
  | request {st₀ : OperationState σ} {start : Polled σ × OperationState σ} :
    e.execute r caller st₀ = .ok start → Starts e r caller 0 st₀ start
  | event {s : SubscriptionStream σ} {event : Json} {w : World σ}
    {start : Polled σ × OperationState σ} :
    e.Streams r caller s → e.executeEvent s event w = .ok start →
      Starts e r caller 1 ⟨s.operation, e.coordinator, w⟩ start

/-- The graph and the runs that an operation begins with. -/
inductive Engine.From (e : Engine σ) (r : Request) : Nat → Graph → List (List Task) → Prop
  | request {rootType : String} : e.schema.root? r.kind = some rootType →
    From e r 0 .new (runs r.kind rootType r.fields)
  | event {rootType : String} {field : RequestField} {d : FieldDefinition} (v : Settled) :
    e.schema.root? r.kind = some rootType → r.fields = [field] →
    e.schema.field? rootType field.name = some d →
    From e r 1
      (completeValue e.schema field
        (Graph.new.addField Graph.root field.outputName d.type.isNonNull) Graph.new.size d.type v
        [.field field.outputName]).1
      [(completeValue e.schema field
        (Graph.new.addField Graph.root field.outputName d.type.isNonNull) Graph.new.size d.type v
        [.field field.outputName]).2]

namespace Engine

variable {e : Engine σ} {r : Request} {caller : Caller} {base : Nat} {st₀ : OperationState σ}
  {start : Polled σ × OperationState σ}

theorem Begins.coordinator (h : e.Begins r caller base st₀ start) :
    st₀.coordinator = e.coordinator := by
  cases h <;> rfl

/-- A stream stays that of the plan that it was registered for. -/
theorem Streams.planned {s : SubscriptionStream σ} (h : e.Streams r caller s) :
    ∃ plan, e.planSubscription r caller = .ok plan ∧ s.caller = caller ∧
      s.rootType = plan.rootType ∧ s.field = plan.field ∧ s.resolver = plan.resolver := by
  cases h with
  | stream planned registered reached =>
    obtain ⟨hcaller, -⟩ := planSubscription_ok planned
    obtain ⟨scaller, root, field, resolver, listening⟩ := register_ok registered
    rw [(reached.follows listening).same]
    exact ⟨_, planned, scaller.trans hcaller, root, field, resolver⟩

/-- What an operation begins with, in whatever state. -/
theorem Starts.from (h : e.Starts r caller base st₀ start) :
    ∃ g runs, e.From r base g runs ∧ start = e.begin caller g runs st₀ := by
  cases h with
  | request started =>
    unfold execute at started
    split at started
    · cases started
    · split at started
      · cases started
      · next rootType checked =>
        cases started
        exact ⟨_, _, .request (root?_of_preflight checked), rfl⟩
  | event streams started =>
    obtain ⟨plan, planned, same, root, field, -⟩ := streams.planned
    obtain ⟨-, -, checked, fields, -⟩ := planSubscription_ok planned
    unfold executeEvent at started
    split at started
    · cases started
    · next d found =>
      cases started
      rw [same]
      exact ⟨_, _, .event _ (root ▸ root?_of_preflight checked) (field ▸ fields) found, rfl⟩

theorem Begins.starts (h : e.Begins r caller base st₀ start) : e.Starts r caller base st₀ start := by
  cases h with
  | request started => exact .request started
  | event planned registered started => exact .event (.stream planned registered .start) started

/-- What an operation begins with. -/
theorem Begins.from (h : e.Begins r caller base st₀ start) :
    ∃ g runs, e.From r base g runs ∧ start = e.begin caller g runs st₀ :=
  h.starts.from

/-- Wherever an operation has come to, steps from its beginning have come to. -/
theorem Begins.reaches {rules : Rules σ} (h : e.Begins r caller base st₀ start)
    {log : List LogEntry} {p : Polled σ × OperationState σ}
    (course : e.Course caller rules st₀ start log p) :
    ∃ g runs m, e.From r base g runs ∧ start = e.begin caller g runs st₀ ∧
      e.Reaches caller rules base (.initial g runs st₀) m ∧ m.Stands p ∧ m.log = log := by
  obtain ⟨g, runs, from_, rfl⟩ := h.from
  obtain ⟨m, reached, stands, own⟩ : ∃ m, e.Reaches caller rules base _ m ∧ _ := course.reaches
  exact ⟨g, runs, m, from_, rfl, reached, stands, own⟩

end Engine

end GraphQLEngine
