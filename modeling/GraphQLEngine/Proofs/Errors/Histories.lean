import GraphQLEngine.Proofs.Errors.Executions
import GraphQLEngine.Proofs.Responses.Dealings
import Mathlib

/-!
# What callers see of internal errors

Callers execute requests and subscribe, and see answers, refusals, and what the streams give, while the
world changes at will.  All of it is the same for two engines that differ in the details of internal
errors: what is seen of an error is its kind and its shown text.

    e.Like e' → (e'.deal d acts).1 = (e.deal d acts).1
-/

namespace GraphQLEngine

variable {σ : Type}

/-! ## Setting up -/

/-- Why an operation fails, but for details. -/
inductive ExecutionError.Like : ExecutionError → ExecutionError → Prop
  | same (fault : ExecutionError) : Like fault fault
  | setup {e e' : FieldError} : e.Like e' → Like (.subscriptionSetup e) (.subscriptionSetup e')

theorem ExecutionError.Like.shown {fault fault' : ExecutionError} (h : fault.Like fault') :
    fault'.shown = fault.shown := by
  cases h with
  | same => rfl
  | setup like => exact like.shown

theorem ExecutionError.Like.kind {fault fault' : ExecutionError} (h : fault.Like fault') :
    fault'.kind = fault.kind := by
  cases h with
  | same => rfl
  | setup like => exact like.kind

theorem ExecutionError.Like.report {fault fault' : ExecutionError} (h : fault.Like fault') :
    fault'.report = fault.report := by
  rw [ExecutionError.report, ExecutionError.report, h.shown, h.kind]

theorem ExecutionError.Like.refusal {fault fault' : ExecutionError} (h : fault.Like fault') :
    fault'.refusal = fault.refusal := by
  rw [ExecutionError.refusal, ExecutionError.refusal, h.shown, h.report]

structure SubscriptionPlan.Like (p p' : SubscriptionPlan σ) : Prop where
  same : p' = { p with resolver := p'.resolver }
  resolver : p.resolver.Like p'.resolver

inductive StreamStage.Like : StreamStage σ → StreamStage σ → Prop
  | listening : Like .listening .listening
  | executing {x x' : Execution σ} {c c' : Coordinator} : x.Like x' → c.Like c' →
    Like (.executing x c) (.executing x' c')
  | behind : Like .behind .behind
  | ended : Like .ended .ended

structure SubscriptionStream.Like (s s' : SubscriptionStream σ) : Prop where
  same : s' = { s with resolver := s'.resolver, stage := s'.stage }
  resolver : s.resolver.Like s'.resolver
  stage : s.stage.Like s'.stage

inductive SetupPhase.Like : SetupPhase (SubscriptionStream σ) → SetupPhase (SubscriptionStream σ) → Prop
  | waiting (deadline : Nat) : Like (.waiting deadline) (.waiting deadline)
  | failed {fault fault' : ExecutionError} : fault.Like fault' → Like (.failed fault) (.failed fault')
  | ready {s s' : SubscriptionStream σ} : s.Like s' → Like (.ready s) (.ready s')

namespace Engine

variable {e e' : Engine σ} {caller : Caller}

theorem Like.validate (like : e.Like e') (query : String) (name : Option String)
    (supplied : OrderedMap Json) : e'.validate query name supplied = e.validate query name supplied := by
  unfold Engine.validate
  rw [like.schema, like.settings]

theorem Like.preflight (like : e.Like e') (r : Request) : e'.preflight r = e.preflight r := by
  simp only [Engine.preflight, like.schema, like.settings]

theorem Like.subscriptionResolverFor (like : e.Like e') (key : FieldKey) :
    (∃ fault, e.dispatch.subscriptionResolverFor key = .error fault ∧
      e'.dispatch.subscriptionResolverFor key = .error fault) ∨
    ∃ r r', e.dispatch.subscriptionResolverFor key = .ok r ∧
      e'.dispatch.subscriptionResolverFor key = .ok r' ∧ SubscriptionResolver.Like r r' := by
  unfold DispatchTable.subscriptionResolverFor
  rcases rel_cases (like.handlers key) with ⟨eq, eq'⟩ | ⟨_, _, eq, eq', alike | alike⟩
  all_goals rw [eq, eq']
  · exact .inl ⟨_, rfl, rfl⟩
  · exact .inl ⟨_, rfl, rfl⟩
  · exact .inr ⟨_, _, rfl, rfl, alike⟩

/-- A subscription is refused alike, or planned alike. -/
theorem Like.planSubscription (like : e.Like e') (r : Request) (caller : Caller) :
    (∃ fault, e.planSubscription r caller = .error fault ∧ e'.planSubscription r caller = .error fault) ∨
    ∃ p p', e.planSubscription r caller = .ok p ∧ e'.planSubscription r caller = .ok p' ∧
      SubscriptionPlan.Like p p' := by
  unfold Engine.planSubscription
  rw [like.preflight, like.schema]
  split
  · exact .inl ⟨_, rfl, rfl⟩
  · split
    · exact .inl ⟨_, rfl, rfl⟩
    · next rootType _ =>
      split
      · next field _ =>
        split
        · exact .inl ⟨_, rfl, rfl⟩
        · split
          · rcases like.subscriptionResolverFor ⟨rootType, field.name⟩ with
              ⟨fault, eq, eq'⟩ | ⟨r, r', eq, eq', alike⟩
            · rw [eq, eq']
              exact .inl ⟨_, rfl, rfl⟩
            · rw [eq, eq']
              exact .inr ⟨_, _, rfl, rfl, rfl, alike⟩
          · exact .inl ⟨_, rfl, rfl⟩
      · exact .inl ⟨_, rfl, rfl⟩

/-- A resolver is asked alike, and the world is the same afterwards. -/
theorem Like.pollSetup (like : e.Like e') {p p' : SubscriptionPlan σ} (alike : p.Like p')
    (operation : Nat) (deadline : Option Nat) (w : World σ) :
    (e.pollSetup p operation deadline w).1.Like (e'.pollSetup p' operation deadline w).1 ∧
      (e'.pollSetup p' operation deadline w).2 = (e.pollSetup p operation deadline w).2 := by
  obtain ⟨caller, rootType, field, resolver, call⟩ := p
  obtain ⟨caller', rootType', field', resolver', call'⟩ := p'
  obtain ⟨same, resolvers⟩ := alike
  cases same
  replace resolvers : resolver.Like resolver' := resolvers
  have outcome := resolvers.source call (w.scope operation)
  have scope := resolvers.scope call (w.scope operation)
  unfold Engine.pollSetup Engine.register
  simp only [resolvers.delay, scope, resolvers.policy, like.settings]
  revert outcome
  generalize (resolver.subscribe call (w.scope operation)).1 = source
  generalize (resolver'.subscribe call (w.scope operation)).1 = source'
  intro outcome
  split
  · exact ⟨.failed (.same _), rfl⟩
  · split
    · cases outcome with
      | error fault => exact ⟨.failed (.setup fault), rfl⟩
      | ok same =>
        cases same
        simp only
        cases (w.absorb (resolver.subscribe call (w.scope operation)).2).hub.subscribe World.node _ _ _ with
        | error fault => exact ⟨.failed (.same _), rfl⟩
        | ok found => exact ⟨.ready ⟨rfl, resolvers, .listening⟩, rfl⟩
    · exact ⟨.waiting _, rfl⟩

/-! ## Executing -/

/-- A request is refused alike, or begins alike. -/
theorem Like.execute (like : e.Like e') (r : Request) (caller : Caller)
    {st st' : OperationState σ} (h : st.Like st') :
    (∃ response, e.execute r caller st = .error response ∧ e'.execute r caller st' = .error response) ∨
    ∃ start start', e.execute r caller st = .ok start ∧ e'.execute r caller st' = .ok start' ∧
      Together Polled.Like start start' := by
  unfold Engine.execute
  rw [like.preflight]
  split
  · exact .inl ⟨_, rfl, rfl⟩
  · split
    · exact .inl ⟨_, rfl, rfl⟩
    · exact .inr ⟨_, _, rfl, rfl, like.begin .new _ h⟩

/-- An event is handled alike: the graph that its execution begins with is the same. -/
theorem Like.executeEvent (like : e.Like e') {s s' : SubscriptionStream σ} (alike : s.Like s')
    (event : Json) (w : World σ) :
    (∃ response, e.executeEvent s event w = .error response ∧
      e'.executeEvent s' event w = .error response) ∨
    ∃ start start', e.executeEvent s event w = .ok start ∧ e'.executeEvent s' event w = .ok start' ∧
      Together Polled.Like start start' := by
  obtain ⟨registration, operation, caller, rootType, field, resolver, stage⟩ := s
  obtain ⟨registration', operation', caller', rootType', field', resolver', stage'⟩ := s'
  obtain ⟨same, resolvers, -⟩ := alike
  cases same
  replace resolvers : resolver.Like resolver' := resolvers
  have outcome := resolvers.event event
  unfold Engine.executeEvent
  rw [like.schema]
  simp only
  cases e.schema.field? rootType field.name with
  | none => exact .inl ⟨_, rfl, rfl⟩
  | some d =>
    have state (c c' : Coordinator) (coordinators : c.Like c') :
        OperationState.Like (⟨operation, c, w⟩ : OperationState σ) ⟨operation, c', w⟩ :=
      ⟨rfl, coordinators, rfl⟩
    refine .inr ⟨_, _, rfl, rfl, ?_⟩
    revert outcome
    generalize resolver.resolveEvent event = value
    generalize resolver'.resolveEvent event = value'
    intro outcome
    cases outcome with
    | ok same =>
      cases same
      exact like.begin _ _ (state _ _ like.coordinator)
    | error fault =>
      simp only [(Settled.Like.error fault).completeValue]
      exact like.begin _ _ (state _ _ like.coordinator)

end Engine

namespace SubscriptionStream

variable {e e' : Engine σ}

/-- The same is given, the streams stay alike, and the worlds the same. -/
structure PollsAlike (r r' : StreamItem × SubscriptionStream σ × World σ) : Prop where
  item : r'.1 = r.1
  stream : r.2.1.Like r'.2.1
  world : r'.2.2 = r.2.2

theorem Like.restage {s s' : SubscriptionStream σ} (alike : s.Like s') {stage stage' : StreamStage σ}
    (stages : stage.Like stage') : Like { s with stage := stage } { s' with stage := stage' } := by
  refine ⟨?_, alike.resolver, stages⟩
  rw [alike.same]

theorem Like.finish {s s' : SubscriptionStream σ} (alike : s.Like s') (w : World σ) :
    PollsAlike (s.finish w) (s'.finish w) := by
  have registration : s'.registration = s.registration := by rw [alike.same]
  refine ⟨rfl, alike.restage .ended, ?_⟩
  simp only [SubscriptionStream.finish, SubscriptionStream.release, registration]

theorem Like.afterEvent {s s' : SubscriptionStream σ} (alike : s.Like s')
    {r r' : Polled σ × OperationState σ} (h : Together Polled.Like r r') :
    PollsAlike (s.afterEvent r) (s'.afterEvent r') := by
  obtain ⟨polled, st⟩ := r
  obtain ⟨polled', st'⟩ := r'
  obtain ⟨result, state⟩ := h
  cases result with
  | suspended x => exact ⟨rfl, alike.restage (.executing x state.coordinator), state.world⟩
  | completed g => exact ⟨rfl, alike.restage .listening, state.world⟩
  | stopped g reason =>
    show PollsAlike (s.finish st.world) (s'.finish st'.world)
    rw [show st'.world = st.world from state.world]
    exact alike.finish st.world

/-- A stream gives the same, does the same to the world, and stays alike. -/
theorem Like.poll (like : e.Like e') {s s' : SubscriptionStream σ} (alike : s.Like s')
    (w : World σ) : PollsAlike (s.poll e w) (s'.poll e' w) := by
  have registration : s'.registration = s.registration := by rw [alike.same]
  have operation : s'.operation = s.operation := by rw [alike.same]
  have caller : s'.caller = s.caller := by rw [alike.same]
  have stages := alike.stage
  unfold SubscriptionStream.poll
  revert stages
  generalize s.stage = stage
  generalize s'.stage = stage'
  intro stages
  cases stages with
  | ended => exact ⟨rfl, alike, rfl⟩
  | behind => exact alike.finish w
  | @executing x x' c c' executions coordinators =>
    simp only [caller, operation]
    exact alike.afterEvent (like.poll executions ⟨rfl, coordinators, rfl⟩)
  | listening =>
    simp only [operation, registration]
    split
    · exact alike.finish w
    · generalize w.hub.receive World.node s.registration = received
      obtain ⟨hub, item⟩ := received
      cases item with
      | nothing => exact ⟨rfl, alike, rfl⟩
      | ended => exact alike.finish _
      | overflow missed =>
        have behind := alike.restage .behind
        simp only [operation, registration] at behind
        exact ⟨rfl, behind, rfl⟩
      | event event =>
        simp only
        rcases like.executeEvent alike event { w with hub } with
          ⟨response, eq, eq'⟩ | ⟨start, start', eq, eq', together⟩
        · rw [eq, eq']
          exact ⟨rfl, alike, rfl⟩
        · rw [eq, eq']
          exact alike.afterEvent together

end SubscriptionStream

/-! ## Dealings -/

/-- At the same point, with the same to come but for details. -/
inductive Undertaking.Like : Undertaking σ → Undertaking σ → Prop
  | executing (caller : Caller) (operation : Nat) {x x' : Execution σ} {c c' : Coordinator} :
    x.Like x' → c.Like c' → Like (.executing caller operation x c) (.executing caller operation x' c')
  | executed {c c' : Coordinator} : c.Like c' → Like (.executed c) (.executed c')
  | settingUp (operation : Nat) (deadline : Option Nat) {p p' : SubscriptionPlan σ} : p.Like p' →
    Like (.settingUp p operation deadline) (.settingUp p' operation deadline)
  | streaming {s s' : SubscriptionStream σ} : s.Like s' → Like (.streaming s) (.streaming s')
  | gone : Like .gone .gone

/-- The same is shown, and the worlds are the same. -/
structure ShownAlike (r r' : Shown × Undertaking σ × World σ) : Prop where
  shown : r'.1 = r.1
  undertaking : r.2.1.Like r'.2.1
  world : r'.2.2 = r.2.2

structure Dealings.Like (d d' : Dealings σ) : Prop where
  undertakings : List.Forall₂ Undertaking.Like d.undertakings d'.undertakings
  world : d'.world = d.world

theorem Undertaking.Like.drop {u u' : Undertaking σ} (alike : u.Like u') (w : World σ) :
    u'.drop w = u.drop w := by
  cases alike with
  | streaming streams => exact (streams.finish w).world
  | executing | executed | settingUp | gone => rfl

theorem Undertaking.Like.watch {u u' : Undertaking σ} (alike : u.Like u') (w : World σ) :
    u'.watch w = u.watch w := by
  cases alike with
  | @streaming s s' streams =>
    show s'.watch w = s.watch w
    rw [streams.same]
    rfl
  | executing | executed | settingUp | gone => rfl

namespace Engine

variable {e e' : Engine σ}

theorem reviewExecution_like (caller : Caller) {r r' : Polled σ × OperationState σ}
    (h : Together Polled.Like r r') :
    ShownAlike (reviewExecution caller r) (reviewExecution caller r') := by
  obtain ⟨polled, st⟩ := r
  obtain ⟨polled', st'⟩ := r'
  obtain ⟨result, state⟩ := h
  cases result with
  | suspended x =>
    refine ⟨rfl, ?_, state.world⟩
    show Undertaking.Like (.executing caller st.operation _ _) (.executing caller st'.operation _ _)
    rw [show st'.operation = st.operation from state.operation]
    exact .executing _ _ x state.coordinator
  | completed g => exact ⟨rfl, .executed state.coordinator, state.world⟩
  | stopped g reason => exact ⟨rfl, .executed state.coordinator, state.world⟩

theorem Like.beginRequest (like : e.Like e') (r : Request) (caller : Caller)
    {st st' : OperationState σ} (h : st.Like st') :
    ShownAlike (e.beginRequest r caller st) (e'.beginRequest r caller st') := by
  unfold Engine.beginRequest
  rcases like.execute r caller h with
    ⟨response, eq, eq'⟩ | ⟨start, start', eq, eq', together⟩
  · rw [eq, eq']
    exact ⟨rfl, .executed h.coordinator, h.world⟩
  · rw [eq, eq']
    exact reviewExecution_like caller together

theorem Like.beginSubscription (like : e.Like e') (r : Request) (caller : Caller) (operation : Nat)
    (w : World σ) :
    ShownAlike (e.beginSubscription r caller operation w)
      (e'.beginSubscription r caller operation w) := by
  unfold Engine.beginSubscription
  rcases like.planSubscription r caller with
    ⟨fault, eq, eq'⟩ | ⟨p, p', eq, eq', alike⟩
  · rw [eq, eq']
    exact ⟨rfl, .gone, rfl⟩
  · rw [eq, eq']
    exact ⟨rfl, .settingUp operation none alike, rfl⟩

/-- A subscription that fails is refused alike. -/
theorem reviewSetup_like {p p' : SubscriptionPlan σ} (alike : p.Like p') (operation : Nat)
    {r r' : SetupPhase (SubscriptionStream σ) × World σ} (phase : r.1.Like r'.1)
    (world : r'.2 = r.2) :
    ShownAlike (reviewSetup p operation r) (reviewSetup p' operation r') := by
  obtain ⟨phase₁, w⟩ := r
  obtain ⟨phase₂, w'⟩ := r'
  cases phase with
  | waiting deadline => exact ⟨rfl, .settingUp operation _ alike, world⟩
  | failed fault => exact ⟨fault.refusal, .gone, world⟩
  | @ready s s' stream =>
    refine ⟨?_, .streaming stream, world⟩
    show Shown.subscribed s'.registration = Shown.subscribed s.registration
    rw [stream.same]

theorem Like.pollUndertaking (like : e.Like e') {u u' : Undertaking σ} (alike : u.Like u')
    (w : World σ) : ShownAlike (e.pollUndertaking u w) (e'.pollUndertaking u' w) := by
  cases alike with
  | executing caller operation executions coordinators =>
    exact reviewExecution_like caller (like.poll executions ⟨rfl, coordinators, rfl⟩)
  | executed coordinators => exact ⟨rfl, .executed coordinators, rfl⟩
  | settingUp operation deadline plans =>
    obtain ⟨phase, world⟩ := like.pollSetup plans operation deadline w
    exact reviewSetup_like plans operation phase world
  | streaming streams =>
    have polled := streams.poll like w
    exact ⟨congrArg StreamItem.show polled.item, .streaming polled.stream, polled.world⟩
  | gone => exact ⟨rfl, .gone, rfl⟩

end Engine

namespace Dealings

variable {e e' : Engine σ} {d d' : Dealings σ}

theorem Like.begun (h : d.Like d') {r r' : Shown × Undertaking σ × World σ}
    (same : ShownAlike r r') : (d'.begun r').1 = (d.begun r).1 ∧ (d.begun r).2.Like (d'.begun r').2 :=
  ⟨same.shown, List.rel_append h.undertakings (.cons same.undertaking .nil), same.world⟩

theorem Like.atPlace (h : d.Like d') (place : Nat)
    {f f' : Undertaking σ → Shown × Undertaking σ × World σ}
    (same : ∀ u u', u.Like u' → ShownAlike (f u) (f' u')) :
    (d'.atPlace place f').1 = (d.atPlace place f).1 ∧
      (d.atPlace place f).2.Like (d'.atPlace place f').2 := by
  unfold Dealings.atPlace
  rcases rel_cases (getElem?_of_forall₂ h.undertakings place) with
    ⟨eq, eq'⟩ | ⟨_, _, eq, eq', alike⟩
  · rw [eq, eq']
    exact ⟨rfl, h⟩
  · have done := same _ _ alike
    rw [eq, eq']
    exact ⟨done.shown, set_of_forall₂ h.undertakings place done.undertaking, done.world⟩

theorem Like.coordinator (like : e.Like e') (h : d.Like d') (kept : Option Nat) :
    (d.coordinator e kept).Like (d'.coordinator e' kept) := by
  unfold Dealings.coordinator
  cases kept with
  | none => exact like.coordinator
  | some place =>
    rw [Option.bind_some, Option.bind_some]
    rcases rel_cases (getElem?_of_forall₂ h.undertakings place) with
      ⟨eq, eq'⟩ | ⟨_, _, eq, eq', alike⟩
    · rw [eq, eq']
      exact like.coordinator
    · rw [eq, eq']
      cases alike with
      | executed coordinators => exact coordinators
      | executing | settingUp | streaming | gone => exact like.coordinator

end Dealings

namespace Engine

variable {e e' : Engine σ} {d d' : Dealings σ}

/-- One act shows the same, and leaves things alike. -/
theorem Like.act (like : e.Like e') (h : d.Like d') (a : Act σ) :
    (e'.act d' a).1 = (e.act d a).1 ∧ (e.act d a).2.Like (e'.act d' a).2 := by
  have world := h.world
  cases a with
  | execute r caller operation kept =>
    exact h.begun (like.beginRequest r caller ⟨rfl, h.coordinator like kept, world⟩)
  | subscribe r caller operation =>
    rw [Engine.act, Engine.act, world]
    exact h.begun (like.beginSubscription r caller operation d.world)
  | poll place =>
    rw [Engine.act, Engine.act, world]
    exact h.atPlace place fun u u' alike => like.pollUndertaking alike d.world
  | drop place =>
    rw [Engine.act, Engine.act, world]
    exact h.atPlace place fun u u' alike => ⟨rfl, .gone, alike.drop d.world⟩
  | watch place =>
    rw [Engine.act, Engine.act, world]
    exact h.atPlace place fun u u' alike => ⟨rfl, alike, alike.watch d.world⟩
  | others change =>
    refine ⟨rfl, h.undertakings, ?_⟩
    show change d'.world = change d.world
    rw [world]

/-- Whatever is done in whatever order, nothing that is shown tells engines apart that differ only in
the details of internal errors. -/
theorem Like.deal (like : e.Like e') (h : d.Like d') (acts : List (Act σ)) :
    (e'.deal d' acts).1 = (e.deal d acts).1 ∧ (e.deal d acts).2.Like (e'.deal d' acts).2 := by
  induction acts generalizing d d' with
  | nil => exact ⟨rfl, h⟩
  | cons a acts ih =>
    obtain ⟨shown, alike⟩ := like.act h a
    obtain ⟨others, last⟩ := ih alike
    exact ⟨congrArg₂ List.cons shown others, last⟩

end Engine

/-! ## The contract -/

/-- Let two engines differ only in the details of internal errors that their resolvers and their
continuations, their set-ups and mappings of events, and their loaders for a key or a whole batch
give.  Then requests are validated alike, and whatever is executed, subscribed to, polled, dropped and
changed in whatever order, all answers, all errors and messages of failed subscriptions, and all that
streams give are the same, and so is the world. -/
theorem internal_details_never_shown {e e' : Engine σ} (like : e.Like e') (w : World σ) :
    (∀ query name supplied, e'.validate query name supplied = e.validate query name supplied) ∧
    ∀ acts : List (Act σ),
      (e'.deal ⟨[], w⟩ acts).1 = (e.deal ⟨[], w⟩ acts).1 ∧
      (e'.deal ⟨[], w⟩ acts).2.world = (e.deal ⟨[], w⟩ acts).2.world := by
  refine ⟨like.validate, fun acts => ?_⟩
  obtain ⟨shown, alike⟩ := like.deal (d := ⟨[], w⟩) ⟨.nil, rfl⟩ acts
  exact ⟨shown, alike.world⟩

/-! ## An engine that fails in every place -/

namespace Cellar

def schema : Schema :=
  ⟨⟨[("String", ⟨"String", .scalar .string⟩),
      ("Query", ⟨"Query", .object [("bin", .of "bin" (.named "String")),
        ("rack", .of "rack" (.list (.named "String")))]⟩),
      ("Subscription", ⟨"Subscription", .object [("alarm", .of "alarm" (.named "String")),
        ("drip", .of "drip" (.named "String"))]⟩)], by decide⟩,
    "Query", none, some "Subscription"⟩

def resolver (r : Except FieldError (FieldValue Unit)) : Resolver Unit := ⟨fun _ => 0, fun _ s => (r, s)⟩

def source (r : Except FieldError SubscriptionSource) (event : Except FieldError Json) :
    SubscriptionResolver Unit :=
  ⟨fun _ => 0, fun _ s => (r, s), fun _ => event, none⟩

/-- Resolvers, a set-up, the mapping of events, a loader for each key and a loader for whole batches
fail with a detail. -/
def engine (detail : String) : Engine Unit :=
  ⟨schema,
    ⟨[(⟨"Query", "bin"⟩, .field (resolver (.error (.internal detail)))),
      (⟨"Query", "rack"⟩, .field (resolver (.ok (.list
        [.error (.internal detail), .load 0 (.integer 1), .load 1 (.integer 1)])))),
      (⟨"Subscription", "alarm"⟩,
        .subscription (source (.error (.internal detail)) (.ok .null))),
      (⟨"Subscription", "drip"⟩,
        .subscription (source (.ok ⟨"drips", fun _ => true⟩) (.error (.internal detail))))]⟩,
    [(0, ⟨"keys", 0, fun keys s => (.ok (keys.map fun key => (key, .error (.internal detail))), s)⟩),
      (1, ⟨"batches", 0, fun _ s => (.error (.internal detail), s)⟩)],
    .default⟩

def request (kind : OperationKind) (names : List String) : Request :=
  ⟨none, kind, names.map fun name => ⟨none, name, [], []⟩⟩

/-- A query, and a subscription with one event. -/
def acts : List (Act Unit) :=
  [.execute (request .query ["bin", "rack"]) ⟨.anonymous, []⟩ 0 none,
    .subscribe (request .subscription ["drip"]) ⟨.anonymous, []⟩ 0, .poll 1,
    .others fun w => { w with hub := w.hub.publish World.node "drips" .null }, .poll 1]

/-- A subscription that cannot be set up. -/
def failing : List (Act Unit) :=
  [.subscribe (request .subscription ["alarm"]) ⟨.anonymous, []⟩ 0, .poll 0]

/-- What is shown from the start. -/
def seen (detail : String) (acts : List (Act Unit)) : List Shown :=
  ((engine detail).deal ⟨[], .start default ()⟩ acts).1

theorem like (detail detail' : String) : (engine detail).Like (engine detail') where
  schema := rfl
  settings := rfl
  handlers := by
    have error {α : Type} {R : α → α → Prop} :
        OutcomeLike R (.error (.internal detail)) (.error (.internal detail')) :=
      .error (.internal detail detail')
    have resolvers {r r'} (like : OutcomeLike FieldValue.Like r r') :
        HandlerLike (.field (resolver r)) (.field (resolver r')) :=
      .field ⟨rfl, fun _ _ => like, fun _ _ => rfl⟩
    have sources {r r' event event'} (like : OutcomeLike Eq r r') (events : OutcomeLike Eq event event') :
        HandlerLike (.subscription (source r event)) (.subscription (source r' event')) :=
      .subscription ⟨rfl, fun _ _ => like, fun _ _ => rfl, fun _ => events, rfl⟩
    have load (loader : Nat) : FieldValue.Like (.load loader (.integer 1) : FieldValue Unit)
        (.load loader (.integer 1)) :=
      .deferred (fun v _ => .value v) fun _ _ => rfl
    refine fun key => lookup_keyed (R := HandlerLike) ?_ key
    refine .cons ⟨rfl, ?_⟩ (.cons ⟨rfl, ?_⟩ (.cons ⟨rfl, ?_⟩ (.cons ⟨rfl, ?_⟩ .nil)))
    · exact resolvers error
    · exact resolvers (.ok (.list
        (.cons (.error (.internal detail detail')) (.cons (load 0) (.cons (load 1) .nil)))))
    · exact sources error (.ok rfl)
    · exact sources (.ok rfl) error
  loaders := by
    refine .cons ⟨rfl, rfl, rfl, fun keys _ => .ok ?_, fun _ _ => rfl⟩
      (.cons ⟨rfl, rfl, rfl, fun _ _ => .error (.internal detail detail'), fun _ _ => rfl⟩ .nil)
    refine List.forall₂_map_left_iff.mpr (List.forall₂_map_right_iff.mpr ?_)
    exact List.forall₂_same.mpr fun key _ => ⟨rfl, .error (.internal detail detail')⟩

/-- An internal error as it is shown. -/
def shown (path : Path) : ReportedError := ⟨"Internal error", path, .internal⟩

/-- All errors are shown, and no detail is. -/
theorem internal_details_never_shown_cellar :
    seen "fire" acts =
      [.response ⟨some (.obj [("bin", .null), ("rack", .arr [.null, .null, .null])]),
          [shown [.field "bin"], shown [.field "rack", .index 0], shown [.field "rack", .index 1],
            shown [.field "rack", .index 2]]⟩,
        .pending, .subscribed 0, .pending,
        .response ⟨some (.obj [("drip", .null)]), [shown [.field "drip"]]⟩] ∧
    seen "fire" failing = [.pending, .refused "Internal error" (shown [])] ∧
    seen "flood" acts = seen "fire" acts ∧ seen "flood" failing = seen "fire" failing := by
  have same := (internal_details_never_shown (like "fire" "flood") (.start default ())).2
  exact ⟨by cbv, by rfl, (same acts).1, (same failing).1⟩

end Cellar

end GraphQLEngine
