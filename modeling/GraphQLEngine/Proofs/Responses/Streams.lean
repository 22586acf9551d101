import GraphQLEngine.Proofs.Graph.Runs
import GraphQLEngine.Proofs.Requests.Selection
import Mathlib

/-!
# The answers of requests

An answer of a query or mutation that was not cancelled comes from a run of the execution to its
end.  An answer of a subscription's stream comes from a run of the execution of an event, unless it
is the last one of a stream that fell behind; between the polls of a stream the world may change at
will.

    Engine.Returns        the answers of a query or mutation
    Engine.Emits          the answers of the streams of a subscription
-/

namespace GraphQLEngine

variable {σ : Type}

/-- What becomes of a stream that is polled in whatever worlds. -/
inductive SubscriptionStream.Reaches (e : Engine σ) (s₀ : SubscriptionStream σ) :
    SubscriptionStream σ → Prop
  | start : Reaches e s₀ s₀
  | poll {s : SubscriptionStream σ} (w : World σ) : Reaches e s₀ s → Reaches e s₀ (s.poll e w).2.1

/-- A stream executes events of the subscription that it was started for. -/
structure SubscriptionStream.Follows (e : Engine σ) (s₀ s : SubscriptionStream σ) : Prop where
  same : s = { s₀ with stage := s.stage }
  executing : ∀ {x c}, s.stage = .executing x c → ∃ event w start st,
    e.executeEvent s₀ event w = .ok start ∧ e.Run s₀.caller start (.suspended x, st) ∧
      st.coordinator = c

/-- Where an answer of a stream comes from. -/
def SubscriptionStream.Origin (e : Engine σ) (s₀ : SubscriptionStream σ) (response : Response) :
    Prop :=
  response = fellBehindResponse ∨
  (e.schema.field? s₀.rootType s₀.field.name = none ∧
    response = (ExecutionError.unresolvedField s₀.rootType s₀.field.name).response) ∨
  ∃ event w start g st, e.executeEvent s₀ event w = .ok start ∧
    e.Run s₀.caller start (.completed g, st) ∧ response = g.response

namespace SubscriptionStream

variable {e : Engine σ} {s₀ s : SubscriptionStream σ}

/-- What a stream does once the execution of an event has come to a point. -/
theorem afterEvent_follows {event : Json} {w : World σ} {start r : Polled σ × OperationState σ}
    (h : Follows e s₀ s) (started : e.executeEvent s₀ event w = .ok start)
    (run : e.Run s₀.caller start r) :
    Follows e s₀ (s.afterEvent r).2.1 ∧
      ∀ {response}, (s.afterEvent r).1 = .response response → Origin e s₀ response := by
  obtain ⟨polled, st⟩ := r
  have restage : ∀ stage, { s with stage := stage } = { s₀ with stage := stage } := by
    intro stage
    rw [h.same]
  cases polled with
  | suspended x =>
    refine ⟨⟨restage _, fun eq => ?_⟩, fun eq => nomatch eq⟩
    cases eq
    exact ⟨event, w, start, st, started, run, rfl⟩
  | completed g =>
    refine ⟨⟨restage _, fun eq => nomatch eq⟩, fun eq => ?_⟩
    cases eq
    exact .inr (.inr ⟨event, w, start, g, st, started, run, rfl⟩)
  | stopped g reason => exact ⟨⟨restage _, fun eq => nomatch eq⟩, fun eq => nomatch eq⟩

theorem poll_follows (h : Follows e s₀ s) (w : World σ) :
    Follows e s₀ (s.poll e w).2.1 ∧
      ∀ {response}, (s.poll e w).1 = .response response → Origin e s₀ response := by
  have restage : ∀ stage, { s with stage := stage } = { s₀ with stage := stage } := by
    intro stage
    rw [h.same]
  have released : ∀ w, Follows e s₀ (s.finish w).2.1 ∧
      ∀ {response}, (s.finish w).1 = .response response → Origin e s₀ response :=
    fun w => ⟨⟨restage _, fun eq => nomatch eq⟩, fun eq => nomatch eq⟩
  unfold SubscriptionStream.poll
  split
  · exact ⟨h, fun eq => nomatch eq⟩
  · exact released w
  · next x c stage =>
    obtain ⟨event, w', start, st, started, run, coordinator⟩ := h.executing stage
    have caller : s.caller = s₀.caller := by rw [h.same]
    rw [caller]
    exact afterEvent_follows h started (run.poll coordinator.symm)
  · next stage =>
    split
    · exact released w
    · simp only
      split
      · exact ⟨h, fun eq => nomatch eq⟩
      · exact released _
      · refine ⟨⟨restage _, fun eq => nomatch eq⟩, fun eq => ?_⟩
        cases eq
        exact .inl rfl
      · next event _ =>
        have same : ∀ w', e.executeEvent s event w' = e.executeEvent s₀ event w' := by
          intro w'
          rw [h.same]
          rfl
        rw [same]
        split
        · next response refused =>
          refine ⟨h, fun eq => ?_⟩
          cases eq
          unfold Engine.executeEvent at refused
          split at refused
          · next unknown =>
            cases refused
            exact .inr (.inl ⟨unknown, rfl⟩)
          · cases refused
        · next start started => exact afterEvent_follows h started .start

theorem Reaches.follows (reached : Reaches e s₀ s) (listening : s₀.stage = .listening) :
    Follows e s₀ s := by
  induction reached with
  | start =>
    refine ⟨rfl, fun eq => ?_⟩
    rw [listening] at eq
    cases eq
  | poll w _ ih => exact (poll_follows ih w).1

end SubscriptionStream

/-! ## Answers -/

/-- The graph of a query or mutation that was executed to its end. -/
inductive Engine.Executes (e : Engine σ) (r : Request) (caller : Caller) : Graph → Prop
  | run {operation : Nat} {w : World σ} {start : Polled σ × OperationState σ} {g : Graph}
    {st : OperationState σ} :
    e.execute r caller ⟨operation, e.coordinator, w⟩ = .ok start →
      e.Run caller start (.completed g, st) → Engine.Executes e r caller g

/-- The graph of an event of a subscription that was executed to its end. -/
inductive Engine.Handles (e : Engine σ) (r : Request) (caller : Caller) (plan : SubscriptionPlan σ)
    (event : Json) : Graph → Prop
  | run {operation : Nat} {w w₀ w' : World σ} {s : SubscriptionStream σ}
    {start : Polled σ × OperationState σ} {g : Graph} {st : OperationState σ} :
    e.planSubscription r caller = .ok plan → e.register plan operation w = (.ok s, w₀) →
      e.executeEvent s event w' = .ok start → e.Run caller start (.completed g, st) →
      Engine.Handles e r caller plan event g

/-- An answer of a query or mutation that was not cancelled: the refusal, or what a run of the
execution comes to. -/
inductive Engine.Returns (e : Engine σ) (r : Request) (caller : Caller) : Response → Prop
  | refused {operation : Nat} {w : World σ} {response : Response} :
    e.execute r caller ⟨operation, e.coordinator, w⟩ = .error response →
      Engine.Returns e r caller response
  | completed {g : Graph} : e.Executes r caller g → Engine.Returns e r caller g.response

/-- An answer of a stream of a subscription. -/
inductive Engine.Emits (e : Engine σ) (r : Request) (caller : Caller) : Response → Prop
  | answer {plan : SubscriptionPlan σ} {operation : Nat} {w w₀ w' : World σ}
    {s₀ s : SubscriptionStream σ} {response : Response} :
    e.planSubscription r caller = .ok plan → e.register plan operation w = (.ok s₀, w₀) →
      s₀.Reaches e s → (s.poll e w').1 = .response response → Engine.Emits e r caller response

namespace Engine

variable {e : Engine σ} {r : Request} {caller : Caller}

/-- A plan is for the only root field of its request. -/
theorem planSubscription_ok {plan : SubscriptionPlan σ}
    (h : e.planSubscription r caller = .ok plan) :
    plan.caller = caller ∧ r.kind = .subscription ∧ e.preflight r = .ok plan.rootType ∧
      r.fields = [plan.field] ∧
      ∃ d, e.schema.field? plan.rootType plan.field.name = some d ∧
        caller.identity.satisfies d.access = true := by
  unfold Engine.planSubscription at h
  split at h
  · cases h
  · next kind =>
    split at h
    · cases h
    · next rootType checked =>
      split at h
      · next field fields =>
        split at h
        · cases h
        · next d found =>
          split at h
          · next access =>
            split at h
            · cases h
            · cases h
              exact ⟨rfl, by simpa using kind, checked, fields, d, found, access⟩
          · cases h
      · cases h

theorem register_ok {plan : SubscriptionPlan σ} {operation : Nat} {w w₀ : World σ}
    {s₀ : SubscriptionStream σ} (h : e.register plan operation w = (.ok s₀, w₀)) :
    s₀.caller = plan.caller ∧ s₀.rootType = plan.rootType ∧ s₀.field = plan.field ∧
      s₀.resolver = plan.resolver ∧ s₀.stage = .listening := by
  unfold Engine.register at h
  simp only at h
  split at h
  · cases h
  · split at h
    · cases h
    · cases h
      exact ⟨rfl, rfl, rfl, rfl, rfl⟩

/-- Where an answer of a stream comes from: the stream fell behind, or an event was executed. -/
theorem Emits.cases {response : Response} (h : e.Emits r caller response) :
    response = fellBehindResponse ∨
    ∃ plan event g, e.Handles r caller plan event g ∧ response = g.response := by
  obtain ⟨planned, registered, reached, polled⟩ := h
  obtain ⟨hcaller, -, -, -, d, found, -⟩ := planSubscription_ok planned
  obtain ⟨scaller, root, field, -, listening⟩ := register_ok registered
  rcases (SubscriptionStream.poll_follows (reached.follows listening) _).2 polled with
    behind | ⟨unknown, -⟩ | ⟨event, w, start, g, st, started, run, eq⟩
  · exact .inl behind
  · rw [root, field, found] at unknown
    cases unknown
  · rw [scaller, hcaller] at run
    exact .inr ⟨_, event, g, .run planned registered started run, eq⟩

/-- A refusal has no data. -/
theorem data_of_refused {st : OperationState σ} {response : Response}
    (h : e.execute r caller st = .error response) : response.data = none := by
  unfold Engine.execute at h
  split at h
  · cases h
    rfl
  · split at h
    · cases h
      rfl
    · cases h

/-! ## Their accounts -/

section

variable {A : Answers} {g : Graph}

/-- The graph of an operation has an account. -/
theorem Executes.closed (h : e.Executes r caller g) (by_e : e.AnswersBy A)
    (distinct : (RequestField.whole r.fields).Distinct) :
    ∃ rootType pos due, e.schema.root? r.kind = some rootType ∧
      Closed e caller (e.gives caller A)
        ⟨[], .whole r.fields, some (.object rootType .null)⟩ g pos due := by
  obtain ⟨started, run⟩ := h
  exact execute_closed by_e distinct started run

/-- The graph of an event has an account. -/
theorem Handles.closed {plan : SubscriptionPlan σ} {event : Json}
    (h : e.Handles r caller plan event g) (by_e : e.AnswersBy A)
    (distinct : (RequestField.whole r.fields).Distinct) :
    ∃ d pos due, r.fields = [plan.field] ∧ e.schema.root? r.kind = some plan.rootType ∧
      e.schema.field? plan.rootType plan.field.name = some d ∧
      Closed e caller (e.gives caller A)
        ⟨[], .whole [plan.field], some (.given d.type (plan.resolver.value event))⟩ g pos due := by
  obtain ⟨planned, registered, started, run⟩ := h
  obtain ⟨hcaller, -, checked, fields, -⟩ := planSubscription_ok planned
  obtain ⟨scaller, root, field, resolver, -⟩ := register_ok registered
  have same := scaller.trans hcaller
  rw [fields, ← field] at distinct
  obtain ⟨d, pos, due, found, closed⟩ := executeEvent_closed by_e distinct started (same ▸ run)
  rw [root, field] at found
  rw [same, field, resolver] at closed
  exact ⟨d, pos, due, fields, root?_of_preflight checked, found, closed⟩

end

end Engine

/-! ## An engine with one field -/

namespace Sample

def spec : SchemaSpec := ⟨[.object "Query" [.of "size" (.named "Int")]], none, none, none⟩

def schema : Schema :=
  ⟨⟨[("Int", ⟨"Int", .scalar .int⟩), ("Float", ⟨"Float", .scalar .float⟩),
      ("String", ⟨"String", .scalar .string⟩), ("Boolean", ⟨"Boolean", .scalar .boolean⟩),
      ("ID", ⟨"ID", .scalar .id⟩),
      ("Query", ⟨"Query", .object [("size", .of "size" (.named "Int"))]⟩)], by decide⟩,
    "Query", none, none⟩

/-- The document `{ size }`. -/
def document : Document :=
  ⟨.anonymous ⟨.nowhere, .query, [], [], [.field ⟨.nowhere, none, "size", [], []⟩ []]⟩, []⟩

def request : Request := ⟨none, .query, [⟨none, "size", [], []⟩]⟩

/-- Has the same answer for every key. -/
def loader (answer : Answer) : Loader Unit :=
  ⟨"sizes", 0, fun keys s => (.ok (keys.map fun key => (key, answer)), s)⟩

/-- The field loads its value. -/
def engine (answer : Answer) : Engine Unit :=
  ⟨schema,
    ⟨[(⟨"Query", "size"⟩, .field ⟨fun _ => 0, fun _ s => (.ok (.load 0 (.integer 1)), s)⟩)]⟩,
    [(0, loader answer)], .default⟩

def caller : Caller := ⟨default, []⟩

theorem built (answer : Answer) : Schema.build spec = .ok (engine answer).schema := by rfl

theorem validated (answer : Answer) :
    Request.ofDocument (engine answer).schema (some (engine answer).settings.maxQueryDepth) document
      none [] = .ok request := by
  cbv

/-- What the engine answers at once. -/
def response? (answer : Answer) : Option Response :=
  match (engine answer).execute request caller
    ⟨0, (engine answer).coordinator, .start default ()⟩ with
  | .ok (.completed g, _) => some g.response
  | _ => none

theorem executes {answer : Answer} {r : Response} (h : response? answer = some r) :
    ∃ g, (engine answer).Executes request caller g ∧ g.response = r := by
  unfold response? at h
  split at h
  · next g st started => exact ⟨g, .run started .start, Option.some.inj h⟩
  · cases h

theorem executes_ok :
    ∃ g, (engine (.ok (.int 2))).Executes request caller g ∧
      g.response = ⟨some (.obj [("size", .int 2)]), []⟩ :=
  executes (by cbv)

end Sample

end GraphQLEngine
