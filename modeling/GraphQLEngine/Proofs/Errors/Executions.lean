import GraphQLEngine.Proofs.Errors.Likeness
import GraphQLEngine.Proofs.Graph.Verdict

/-!
# Executions that differ in internal details

Engines whose resolvers and loaders differ at most in the details of internal errors do the same to
the world: an error is only kept, handed on, and in the end recorded in the answer as it is shown.  So
two executions of them stay like each other, and their graphs are equal.

    e.Like e' → x.Like x' → st.Like st' → poll e caller x st is like poll e' caller x' st'
-/

namespace GraphQLEngine

variable {σ : Type}

/-! ## Engines -/

/-- For every call and in every scope the same effects, and the same result but for details. -/
structure Resolver.Like (r r' : Resolver σ) : Prop where
  delay : r'.delay = r.delay
  result : ∀ call s, OutcomeLike FieldValue.Like (r.run call s).1 (r'.run call s).1
  scope : ∀ call s, (r'.run call s).2 = (r.run call s).2

structure SubscriptionResolver.Like (r r' : SubscriptionResolver σ) : Prop where
  delay : r'.delay = r.delay
  source : ∀ call s, OutcomeLike Eq (r.subscribe call s).1 (r'.subscribe call s).1
  scope : ∀ call s, (r'.subscribe call s).2 = (r.subscribe call s).2
  event : ∀ event, OutcomeLike Eq (r.resolveEvent event) (r'.resolveEvent event)
  policy : r'.policy = r.policy

inductive HandlerLike :
    Handler (Resolver σ) (SubscriptionResolver σ) → Handler (Resolver σ) (SubscriptionResolver σ) → Prop
  | field {r r' : Resolver σ} : r.Like r' → HandlerLike (.field r) (.field r')
  | subscription {r r' : SubscriptionResolver σ} : r.Like r' →
    HandlerLike (.subscription r) (.subscription r')

structure Loader.Like (l l' : Loader σ) : Prop where
  name : l'.name = l.name
  delay : l'.delay = l.delay
  fetched : ∀ keys s, Fetched.Like (l.fetch keys s).1 (l'.fetch keys s).1
  store : ∀ keys s, (l'.fetch keys s).2 = (l.fetch keys s).2

/-- Engines that differ at most in the details of the internal errors of their resolvers and
loaders. -/
structure Engine.Like (e e' : Engine σ) : Prop where
  schema : e'.schema = e.schema
  settings : e'.settings = e.settings
  handlers : ∀ key, Option.Rel HandlerLike (e.dispatch.find? key) (e'.dispatch.find? key)
  loaders : List.Forall₂ (Keyed Loader.Like) e.loaders e'.loaders

theorem Engine.Like.coordinator {e e' : Engine σ} (h : e.Like e') :
    e.coordinator.Like e'.coordinator where
  batchSize := by rw [Engine.coordinator, Engine.coordinator, h.settings]; rfl
  loaders := by
    refine List.forall₂_map_left_iff.mpr (List.forall₂_map_right_iff.mpr (h.loaders.imp ?_))
    exact fun _ _ ⟨same, like⟩ => ⟨same, like.name, rfl, rfl, .nil, rfl⟩

/-! ## Operations at work -/

structure OperationState.Like (st st' : OperationState σ) : Prop where
  operation : st'.operation = st.operation
  coordinator : st.coordinator.Like st'.coordinator
  world : st'.world = st.world

/-- Results that are related, and states that are like each other. -/
structure Together {α : Type} (R : α → α → Prop) (r r' : α × OperationState σ) : Prop where
  result : R r.1 r'.1
  state : r.2.Like r'.2

namespace OperationState

variable {st st' : OperationState σ}

theorem Like.scope (h : st.Like st') : st'.scope = st.scope := by
  rw [OperationState.scope, OperationState.scope, h.world, h.operation]

theorem Like.reason? (h : st.Like st') :
    st'.world.signals.reason? st'.operation = st.world.signals.reason? st.operation := by
  rw [h.world, h.operation]

theorem Like.absorb (h : st.Like st') {v v' : FieldValue σ} (like : v.Like v') (s : Scope σ) :
    (st.absorb v s).Like (st'.absorb v' s) where
  operation := h.operation
  coordinator := by
    rw [OperationState.absorb, OperationState.absorb, like.loads]
    exact h.coordinator.loadAll _
  world := by rw [OperationState.absorb, OperationState.absorb, h.world]

theorem Like.record (h : st.Like st') (entry : LogEntry) :
    (st.record entry).Like (st'.record entry) where
  operation := h.operation
  coordinator := h.coordinator
  world := by rw [OperationState.record, OperationState.record, h.world]

end OperationState

/-! ## Settling -/

namespace FieldValue

mutual

theorem settle_like : ∀ (v : FieldValue σ) {v' : FieldValue σ}, v.Like v' →
    ∀ {st st' : OperationState σ}, st.Like st' → Together Like (settle v st) (settle v' st')
  | .value _, _, .value v, _, _, h => by
    rw [settle, settle]
    exact ⟨.value v, h⟩
  | .error _, _, .error like, _, _, h => by
    rw [settle, settle]
    exact ⟨.error like, h⟩
  | .list items, _, .list like, _, _, h => by
    have each := settleItems_like items like h
    rw [settle, settle]
    exact ⟨.list each.result, each.state⟩
  | .deferred loader key resume, _, .deferred values scopes, st, st', h => by
    rw [settle, settle]
    rcases rel_cases (h.coordinator.answer? loader key) with
      ⟨eq, eq'⟩ | ⟨_, _, eq, eq', like | like⟩
    · rw [eq, eq']
      exact ⟨.deferred values scopes, h⟩
    · subst like
      rw [eq, eq', h.scope]
      exact settleResult_like (resume _ st.scope) (values _ st.scope) (scopes _ st.scope) h
    · rw [eq, eq']
      exact ⟨.error like, h⟩

theorem settleResult_like : ∀ (r : FieldValue σ × Scope σ) {r' : FieldValue σ × Scope σ},
    r.1.Like r'.1 → r'.2 = r.2 → ∀ {st st' : OperationState σ}, st.Like st' →
      Together Like (settleResult r st) (settleResult r' st')
  | (v, s), (v', s'), like, same, st, st', h => by
    obtain rfl : s' = s := same
    rw [settleResult, settleResult]
    exact settle_like v like (h.absorb like s')

theorem settleItems_like : ∀ (vs : List (FieldValue σ)) {vs' : List (FieldValue σ)},
    LikeItems vs vs' → ∀ {st st' : OperationState σ}, st.Like st' →
      Together LikeItems (settleItems vs st) (settleItems vs' st')
  | [], _, .nil, _, _, h => by
    rw [settleItems, settleItems]
    exact ⟨.nil, h⟩
  | v :: vs, _, .cons first rest, st, st', h => by
    have head := settle_like v first h
    have tail := settleItems_like vs rest head.state
    rw [settleItems, settleItems]
    exact ⟨.cons head.result tail.result, tail.state⟩

end

end FieldValue

/-! ## Fetching -/

namespace Engine

variable {e e' : Engine σ} {st st' : OperationState σ}

theorem Like.runBatch (like : e.Like e') (b : Batch) (h : st.Like st') :
    (e.runBatch b st).Like (e'.runBatch b st') := by
  unfold Engine.runBatch
  rcases rel_cases (lookup_keyed like.loaders b.loader) with
    ⟨eq, eq'⟩ | ⟨loader, loader', eq, eq', alike⟩
  · rw [eq, eq']
    exact h
  · have fetched := alike.fetched b.keys st.world.store
    have store := alike.store b.keys st.world.store
    simp only [eq, eq', h.world]
    exact ⟨h.operation, h.coordinator.finish b fetched, by simp only [store]⟩

theorem Like.batchDelay (like : e.Like e') (b : Batch) : e'.batchDelay b = e.batchDelay b := by
  unfold Engine.batchDelay
  rcases rel_cases (lookup_keyed like.loaders b.loader) with ⟨eq, eq'⟩ | ⟨_, _, eq, eq', alike⟩
  · rw [eq, eq']
  · rw [eq, eq']
    exact alike.delay

theorem Like.pollBatch (like : e.Like e') (b : Batch) (p : Progress Unit) (h : st.Like st') :
    Together Eq (e.pollBatch b p st) (e'.pollBatch b p st') := by
  unfold Engine.pollBatch
  rw [like.batchDelay]
  split
  · exact ⟨rfl, h⟩
  · rw [h.world]
    split
    · exact ⟨rfl, like.runBatch b h⟩
    · exact ⟨rfl, h⟩
  · have started := h.record (.fetchStarted b.name b.keys)
    simp only
    split
    · exact ⟨rfl, like.runBatch b started⟩
    · exact ⟨by rw [started.world], started⟩

theorem Like.pollBatches (like : e.Like e') (bs : List (Batch × Progress Unit))
    {st st' : OperationState σ} (h : st.Like st') :
    Together Eq (e.pollBatches bs st) (e'.pollBatches bs st') := by
  induction bs generalizing st st' with
  | nil => exact ⟨rfl, h⟩
  | cons bp rest ih =>
    have first := like.pollBatch bp.1 bp.2 h
    have others := ih first.state
    rw [Engine.pollBatches, Engine.pollBatches]
    exact ⟨by rw [first.result, others.result], others.state⟩

/-- The batches that are taken and polled are the same. -/
theorem Like.flush (like : e.Like e') (h : st.Like st') :
    Together Eq
      (e.pollBatches (st.coordinator.takeBatches.1.map (·, .idle))
        { st with coordinator := st.coordinator.takeBatches.2 })
      (e'.pollBatches (st'.coordinator.takeBatches.1.map (·, .idle))
        { st' with coordinator := st'.coordinator.takeBatches.2 }) := by
  obtain ⟨same, taken⟩ := h.coordinator.takeBatches
  rw [same]
  exact like.pollBatches _ ⟨h.operation, taken, h.world⟩

/-- How settling stands, but for details. -/
inductive SettlingLike : Settling σ → Settling σ → Prop
  | settled {values values' : List Settled} : Settled.LikeItems values values' →
    SettlingLike (.settled values) (.settled values')
  | fetching {values values' : List (FieldValue σ)} (batches : List (Batch × Progress Unit)) :
    FieldValue.LikeItems values values' →
      SettlingLike (.fetching values batches) (.fetching values' batches)
  | stopped (reason : CancelReason) : SettlingLike (.stopped reason) (.stopped reason)

theorem Like.settleRounds (like : e.Like e') (values : List (FieldValue σ))
    {values' : List (FieldValue σ)} (alike : FieldValue.LikeItems values values')
    {st st' : OperationState σ} (h : st.Like st') :
    Together SettlingLike (e.settleRounds values st) (e'.settleRounds values' st') := by
  induction values, st using settleRounds.induct (e := e) generalizing values' st'
  all_goals
    have passed := FieldValue.settleItems_like _ alike h
    rw [settleRounds.eq_1 e' _ st', settleRounds.eq_1 e]
    obtain ⟨result, state⟩ := passed
  case case1 values st values₁ st₁ pass settled =>
    rw [pass] at result state ⊢
    simp only [result.itemsSettled, settled, if_true]
    exact ⟨.settled result.abandon, state⟩
  case case2 values st values₁ st₁ pass unsettled queued reason stop =>
    rw [pass] at result state ⊢
    have queued' := state.coordinator.hasQueued.trans queued
    have stop' := state.reason?.trans stop
    simp only [result.itemsSettled, unsettled, queued, queued', stop, stop', dif_pos]
    exact ⟨.stopped reason, state⟩
  case case3 values st values₁ st₁ pass unsettled queued go taken polled finished ih =>
    rw [pass] at result state ⊢
    have queued' := state.coordinator.hasQueued.trans queued
    have go' := state.reason?.trans go
    have fetched := like.flush state
    have next := ih result fetched.state
    simp only [result.itemsSettled, unsettled, queued, queued', go, go', dif_pos, if_false,
      Bool.false_eq_true, ← fetched.result]
    rw [if_pos finished, if_pos finished]
    exact next
  case case4 values st values₁ st₁ pass unsettled queued go taken polled unfinished =>
    rw [pass] at result state ⊢
    have queued' := state.coordinator.hasQueued.trans queued
    have go' := state.reason?.trans go
    have fetched := like.flush state
    simp only [result.itemsSettled, unsettled, queued, queued', go, go', dif_pos, if_false,
      Bool.false_eq_true, ← fetched.result]
    rw [if_neg unfinished, if_neg unfinished]
    exact ⟨.fetching _ result, fetched.state⟩
  case case5 values st values₁ st₁ pass unsettled idle =>
    rw [pass] at result state ⊢
    simp only [result.itemsSettled, unsettled, state.coordinator.hasQueued, dif_neg idle]
    exact ⟨.settled result.abandon, state⟩

end Engine

/-! ## Resolving -/

inductive Progress.Like {α : Type} (R : α → α → Prop) : Progress α → Progress α → Prop
  | idle : Progress.Like R .idle .idle
  | waiting (deadline : Nat) : Progress.Like R (.waiting deadline) (.waiting deadline)
  | finished {a a' : α} : R a a' → Progress.Like R (.finished a) (.finished a')

structure Invocation.Like (i i' : Invocation σ) : Prop where
  same : i' = { i with resolver := i'.resolver }
  resolver : i.resolver.Like i'.resolver

/-- Resolvers at work. -/
abbrev Calls (σ : Type) := List (Invocation σ × Progress (FieldValue σ))

abbrev Calls.Like (calls calls' : Calls σ) : Prop :=
  List.Forall₂ (fun c c' => c.1.Like c'.1 ∧ c.2.Like FieldValue.Like c'.2) calls calls'

namespace Invocation

variable {st st' : OperationState σ}

theorem Like.run {i i' : Invocation σ} (like : i.Like i') (h : st.Like st') :
    Together FieldValue.Like (i.run st) (i'.run st') := by
  have call : i'.call = i.call := by rw [like.same]
  have path : i'.path = i.path := by rw [like.same]
  have outcome := like.resolver.result i.call st.scope
  have scope := like.resolver.scope i.call st.scope
  unfold Invocation.run
  simp only [call, path, h.scope, scope]
  revert outcome
  generalize (i.resolver.run i.call st.scope).1 = result
  generalize (i'.resolver.run i.call st.scope).1 = result'
  intro outcome
  cases outcome with
  | ok like => exact ⟨like, (h.absorb like _).record _⟩
  | error like => exact ⟨.error like, (h.absorb (.error like) _).record _⟩

theorem Like.poll {i i' : Invocation σ} (like : i.Like i') {p p' : Progress (FieldValue σ)}
    (progress : p.Like FieldValue.Like p') (h : st.Like st') :
    Together (Progress.Like FieldValue.Like) (i.poll p st) (i'.poll p' st') := by
  have call : i'.call = i.call := by rw [like.same]
  have path : i'.path = i.path := by rw [like.same]
  cases progress with
  | finished value => exact ⟨.finished value, h⟩
  | waiting deadline =>
    unfold Invocation.poll
    simp only [h.world]
    split
    · exact ⟨.finished (like.run h).result, (like.run h).state⟩
    · exact ⟨.waiting deadline, h⟩
  | idle =>
    have started := h.record (.resolverStarted i.call.typeName i.call.fieldName i.path)
    unfold Invocation.poll
    simp only [call, path, like.resolver.delay]
    split
    · exact ⟨.finished (like.run started).result, (like.run started).state⟩
    · exact ⟨by rw [started.world]; exact .waiting _, started⟩

theorem pollAll_like {calls calls' : Calls σ} (like : calls.Like calls')
    {st st' : OperationState σ} (h : st.Like st') :
    Together Calls.Like (pollAll calls st) (pollAll calls' st') := by
  induction like generalizing st st' with
  | nil => exact ⟨.nil, h⟩
  | cons here _ ih =>
    have first := here.1.poll here.2 h
    have others := ih first.state
    rw [pollAll, pollAll]
    exact ⟨.cons ⟨here.1, first.result⟩ others.result, others.state⟩

theorem results_like {calls calls' : Calls σ} (like : calls.Like calls') :
    Option.Rel FieldValue.LikeItems (Progress.results? calls) (Progress.results? calls') := by
  induction like with
  | nil => exact .some .nil
  | @cons c c' _ _ here _ ih =>
    obtain ⟨i, p⟩ := c
    obtain ⟨i', p'⟩ := c'
    obtain ⟨-, progress⟩ := here
    cases progress with
    | idle | waiting => exact .none
    | finished value =>
      rw [Progress.results?, Progress.results?]
      rcases rel_cases ih with ⟨eq, eq'⟩ | ⟨_, _, eq, eq', others⟩
      · rw [eq, eq']
        exact .none
      · rw [eq, eq']
        exact .some (.cons value others)

end Invocation

/-! ## Completing -/

theorem FieldError.Like.fail {err err' : FieldError} (like : err.Like err') (g : Graph) (node : Nat)
    (path : Path) : g.fail node err' path = g.fail node err path := by
  rw [Graph.fail, Graph.fail, Graph.recordError, Graph.recordError, ReportedError.ofField,
    ReportedError.ofField, like.shown, like.kind]

mutual

theorem Settled.Like.completeValue (s : Schema) (field : RequestField) :
    ∀ {v v' : Settled}, v.Like v' → ∀ (g : Graph) (node : Nat) (t : TypeRef) (path : Path),
      GraphQLEngine.completeValue s field g node t v' path =
        GraphQLEngine.completeValue s field g node t v path
  | _, _, .value _, _, _, _, _ => rfl
  | _, _, .error like, g, node, t, path => by
    simp only [completeValue_eq, judge, Verdict.write, like.fail]
  | _, _, .list items, g, node, t, path => by
    simp only [completeValue_eq, judge, judgeList]
    cases t.nullable with
    | list item => exact Settled.LikeItems.completeItems s field items _ node item 0 path
    | named | nonNull => rfl

theorem Settled.LikeItems.completeItems (s : Schema) (field : RequestField) :
    ∀ {vs vs' : List Settled}, LikeItems vs vs' →
      ∀ (g : Graph) (node : Nat) (item : TypeRef) (index : Nat) (path : Path),
        GraphQLEngine.completeItems s field g node item index vs' path =
          GraphQLEngine.completeItems s field g node item index vs path
  | _, _, .nil, _, _, _, _, _ => rfl
  | _, _, .cons first rest, g, node, item, index, path => by
    rw [GraphQLEngine.completeItems, GraphQLEngine.completeItems,
      Settled.Like.completeValue s field first, Settled.LikeItems.completeItems s field rest]

end

namespace Engine

variable {e e' : Engine σ} {caller : Caller}

theorem Like.completeWave (like : e.Like e') {calls calls' : List (Invocation σ)}
    (alike : List.Forall₂ Invocation.Like calls calls') {values values' : List Settled}
    (settled : Settled.LikeItems values values') (g : Graph) :
    e'.completeWave g calls' values' = e.completeWave g calls values := by
  induction alike generalizing values values' g with
  | nil => cases settled <;> rfl
  | cons here _ ih =>
    cases settled with
    | nil => rfl
    | cons first rest =>
      rw [Engine.completeWave, Engine.completeWave, like.schema, here.same]
      simp only [first.completeValue e.schema, ih rest]

/-! ## Preparing -/

theorem Like.resolverFor (like : e.Like e') (key : FieldKey) :
    (∃ fault, e.dispatch.resolverFor key = .error fault ∧ e'.dispatch.resolverFor key = .error fault) ∨
    ∃ r r', e.dispatch.resolverFor key = .ok r ∧ e'.dispatch.resolverFor key = .ok r' ∧
      Resolver.Like r r' := by
  unfold DispatchTable.resolverFor
  rcases rel_cases (like.handlers key) with ⟨eq, eq'⟩ | ⟨_, _, eq, eq', alike | alike⟩
  all_goals rw [eq, eq']
  · exact .inl ⟨_, rfl, rfl⟩
  · exact .inr ⟨_, _, rfl, rfl, alike⟩
  · exact .inl ⟨_, rfl, rfl⟩

/-- The same nodes are made, and resolvers are called alike. -/
theorem Like.prepareTask (like : e.Like e') (caller : Caller) (g : Graph) (t : Task) :
    (e'.prepareTask caller g t).1 = (e.prepareTask caller g t).1 ∧
      Option.Rel Invocation.Like (e.prepareTask caller g t).2 (e'.prepareTask caller g t).2 := by
  unfold Engine.prepareTask
  rw [like.schema]
  split
  · exact ⟨rfl, .none⟩
  · split
    · exact ⟨rfl, .none⟩
    · split
      · exact ⟨rfl, .none⟩
      · simp only
        split
        · rcases like.resolverFor ⟨t.parentType, t.field.name⟩ with
            ⟨fault, eq, eq'⟩ | ⟨r, r', eq, eq', alike⟩
          · rw [eq, eq']
            exact ⟨rfl, .none⟩
          · rw [eq, eq']
            exact ⟨rfl, .some ⟨rfl, alike⟩⟩
        · exact ⟨rfl, .none⟩

theorem Like.prepare (like : e.Like e') (caller : Caller) (g : Graph) (tasks : List Task) :
    (e'.prepare caller g tasks).1 = (e.prepare caller g tasks).1 ∧
      List.Forall₂ Invocation.Like (e.prepare caller g tasks).2 (e'.prepare caller g tasks).2 := by
  induction tasks generalizing g with
  | nil => exact ⟨rfl, .nil⟩
  | cons t ts ih =>
    obtain ⟨same, first⟩ := like.prepareTask caller g t
    obtain ⟨graph, rest⟩ := ih (e.prepareTask caller g t).1
    rw [Engine.prepare, Engine.prepare, same]
    refine ⟨graph, List.rel_append ?_ rest⟩
    rcases rel_cases first with ⟨eq, eq'⟩ | ⟨_, _, eq, eq', alike⟩
    · rw [eq, eq']
      exact .nil
    · rw [eq, eq']
      exact .cons alike .nil

end Engine

/-! ## Phases -/

inductive Stage.Like : Stage σ → Stage σ → Prop
  | resolving (levels : Nat) {calls calls' : Calls σ} : calls.Like calls' →
    Stage.Like (.resolving levels calls) (.resolving levels calls')
  | fetching (levels : Nat) (batches : List (Batch × Progress Unit))
    {calls calls' : List (Invocation σ)} {values values' : List (FieldValue σ)} :
    List.Forall₂ Invocation.Like calls calls' → FieldValue.LikeItems values values' →
      Stage.Like (.fetching levels calls values batches) (.fetching levels calls' values' batches)

inductive RunPhase.Like : RunPhase σ → RunPhase σ → Prop
  | suspended (g : Graph) {stage stage' : Stage σ} : stage.Like stage' →
    RunPhase.Like (.suspended g stage) (.suspended g stage')
  | completed (g : Graph) : RunPhase.Like (.completed g) (.completed g)
  | stopped (g : Graph) (reason : CancelReason) : RunPhase.Like (.stopped g reason) (.stopped g reason)

structure Execution.Like (x x' : Execution σ) : Prop where
  graph : x'.graph = x.graph
  stage : x.stage.Like x'.stage
  remaining : x'.remaining = x.remaining

inductive Polled.Like : Polled σ → Polled σ → Prop
  | suspended {x x' : Execution σ} : x.Like x' → Polled.Like (.suspended x) (.suspended x')
  | completed (g : Graph) : Polled.Like (.completed g) (.completed g)
  | stopped (g : Graph) (reason : CancelReason) : Polled.Like (.stopped g reason) (.stopped g reason)

namespace Engine

variable {e e' : Engine σ} {caller : Caller}

/-- Waves that go on alike. -/
def GoAlike (next next' : Graph → List Task → OperationState σ → RunPhase σ × OperationState σ) :
    Prop :=
  ∀ g tasks {st st'}, st.Like st' → Together RunPhase.Like (next g tasks st) (next' g tasks st')

variable {next next' : Graph → List Task → OperationState σ → RunPhase σ × OperationState σ}

theorem Like.afterSettling (like : e.Like e') (alike : GoAlike next next') (levels : Nat) (g : Graph)
    {calls calls' : List (Invocation σ)} (invocations : List.Forall₂ Invocation.Like calls calls')
    {r r' : Settling σ × OperationState σ} (h : Together SettlingLike r r') :
    Together RunPhase.Like (e.afterSettling next levels g calls r)
      (e'.afterSettling next' levels g calls' r') := by
  obtain ⟨phase, st⟩ := r
  obtain ⟨phase', st'⟩ := r'
  obtain ⟨result, state⟩ := h
  cases result with
  | settled values =>
    simp only [Engine.afterSettling, like.completeWave invocations values]
    exact alike _ _ state
  | fetching batches values => exact ⟨.suspended g (.fetching levels batches invocations values), state⟩
  | stopped reason => exact ⟨.stopped g reason, state⟩

theorem Like.afterCalls (like : e.Like e') (alike : GoAlike next next') (levels : Nat) (g : Graph)
    {r r' : Calls σ × OperationState σ} (h : Together Calls.Like r r') :
    Together RunPhase.Like (e.afterCalls next levels g r) (e'.afterCalls next' levels g r') := by
  obtain ⟨calls, st⟩ := r
  obtain ⟨calls', st'⟩ := r'
  obtain ⟨polled, state⟩ := h
  unfold Engine.afterCalls
  rcases rel_cases (Invocation.results_like polled) with ⟨eq, eq'⟩ | ⟨_, _, eq, eq', values⟩
  · simp only [eq, eq']
    exact ⟨.suspended g (.resolving levels polled), state⟩
  · simp only [eq, eq']
    have invocations : List.Forall₂ Invocation.Like (calls.map Prod.fst) (calls'.map Prod.fst) :=
      List.forall₂_map_left_iff.mpr (List.forall₂_map_right_iff.mpr (polled.imp fun _ _ c => c.1))
    exact like.afterSettling alike levels g invocations (like.settleRounds _ values state)

theorem Like.runWaves (like : e.Like e') (levels : Nat) :
    GoAlike (e.runWaves caller levels) (e'.runWaves caller levels) := by
  induction levels with
  | zero => exact fun g _ _ _ h => ⟨.completed g, h⟩
  | succ levels ih =>
    intro g tasks st st' h
    unfold Engine.runWaves
    rw [h.reason?]
    split
    · exact ⟨.completed g, h⟩
    · split
      · next reason _ => exact ⟨.stopped g reason, h⟩
      · obtain ⟨graph, invocations⟩ := like.prepare caller g tasks
        have idle : Calls.Like ((e.prepare caller g tasks).2.map (·, .idle))
            ((e'.prepare caller g tasks).2.map (·, .idle)) :=
          List.forall₂_map_left_iff.mpr (List.forall₂_map_right_iff.mpr
            (invocations.imp fun _ _ c => ⟨c, .idle⟩))
        simp only [graph]
        exact like.afterCalls ih levels _ (Invocation.pollAll_like idle h)

/-- What comes after a run goes on alike if it does once the run is over. -/
theorem afterRun_like_of {remaining : List (List Task)}
    (after : ∀ g {st st' : OperationState σ}, st.Like st' → Together Polled.Like
      (e.afterRun caller remaining (.completed g, st))
      (e'.afterRun caller remaining (.completed g, st')))
    {r r' : RunPhase σ × OperationState σ} (h : Together RunPhase.Like r r') :
    Together Polled.Like (e.afterRun caller remaining r) (e'.afterRun caller remaining r') := by
  obtain ⟨phase, st⟩ := r
  obtain ⟨phase', st'⟩ := r'
  obtain ⟨result, state⟩ := h
  cases result with
  | suspended g stage =>
    rw [Engine.afterRun, Engine.afterRun]
    exact ⟨.suspended ⟨rfl, stage, rfl⟩, state⟩
  | completed g => exact after g state
  | stopped g reason =>
    rw [Engine.afterRun, Engine.afterRun]
    exact ⟨.stopped g reason, state⟩

theorem Like.afterRun (like : e.Like e') (remaining : List (List Task))
    {r r' : RunPhase σ × OperationState σ} (h : Together RunPhase.Like r r') :
    Together Polled.Like (e.afterRun caller remaining r) (e'.afterRun caller remaining r') := by
  induction remaining generalizing r r' with
  | nil =>
    refine afterRun_like_of (fun g st st' state => ?_) h
    rw [Engine.afterRun, Engine.afterRun]
    exact ⟨.completed g, state⟩
  | cons tasks remaining ih =>
    refine afterRun_like_of (fun g st st' state => ?_) h
    rw [Engine.afterRun, Engine.afterRun]
    exact ih (like.runWaves _ g tasks state)

/-- An execution begins alike. -/
theorem Like.begin (like : e.Like e') (g : Graph) (runs : List (List Task)) {st st' : OperationState σ}
    (h : st.Like st') : Together Polled.Like (e.begin caller g runs st) (e'.begin caller g runs st') :=
  like.afterRun runs ⟨.completed g, h⟩

/-- A suspended execution goes on alike. -/
theorem Like.poll (like : e.Like e') {x x' : Execution σ} (alike : x.Like x')
    {st st' : OperationState σ} (h : st.Like st') :
    Together Polled.Like (e.poll caller x st) (e'.poll caller x' st') := by
  obtain ⟨g, stage, remaining⟩ := x
  obtain ⟨g', stage', remaining'⟩ := x'
  obtain ⟨rfl, stages, rfl⟩ := alike
  unfold Engine.poll
  simp only [h.reason?]
  split
  · next reason _ => exact ⟨.stopped _ reason, h⟩
  · refine like.afterRun _ ?_
    cases stages with
    | resolving levels calls =>
      exact like.afterCalls (like.runWaves levels) levels _ (Invocation.pollAll_like calls h)
    | fetching levels batches invocations values =>
      have polled := like.pollBatches batches h
      simp only [← polled.result]
      split
      · exact like.afterSettling (like.runWaves levels) levels _ invocations
          (like.settleRounds _ values polled.state)
      · exact ⟨.suspended _ (.fetching levels _ invocations values), polled.state⟩

end Engine

end GraphQLEngine
