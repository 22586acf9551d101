import GraphQLEngine.Proofs.Access.Invocations

/-!
# Denied resolvers have no influence

Two engines that differ only in the resolvers of fields that an identity may not see do the same for
that identity: the nodes of a wave are made alike, as the resolver of a field is looked up only behind
its access rule, and all that follows depends on the schema, the loaders and the settings.  So every
operation begins alike and goes on alike, whatever happens while it is suspended, and a subscription
is set up alike and its streams give the same answers.

    Engine.AgreesFor i e e'
-/

namespace GraphQLEngine

variable {σ : Type}

/-- A field of the schema that an identity may not see. -/
def Engine.Denies (e : Engine σ) (i : Identity) (key : FieldKey) : Prop :=
  ∃ d, e.schema.field? key.typeName key.fieldName = some d ∧ i.satisfies d.access = false

/-- Engines that differ only in the resolvers, if there are any, of the fields that an identity may
not see. -/
structure Engine.AgreesFor (i : Identity) (e e' : Engine σ) : Prop where
  schema : e'.schema = e.schema
  loaders : e'.loaders = e.loaders
  settings : e'.settings = e.settings
  resolvers : ∀ key, ¬ e.Denies i key → e'.dispatch.find? key = e.dispatch.find? key

namespace Engine

variable {e e' : Engine σ} {i : Identity} {caller : Caller}

theorem Grants.not_denies {key : FieldKey} (h : e.Grants i key) : ¬ e.Denies i key := by
  obtain ⟨d, found, access⟩ := h
  rintro ⟨d', found', denied⟩
  rw [found] at found'
  cases found'
  rw [access] at denied
  cases denied

namespace AgreesFor

/-! ## One wave -/

theorem find (agrees : AgreesFor i e e') {key : FieldKey} (granted : e.Grants i key) :
    e'.dispatch.find? key = e.dispatch.find? key :=
  agrees.resolvers key granted.not_denies

theorem prepareTask (agrees : AgreesFor caller.identity e e') (g : Graph) (t : Task) :
    e'.prepareTask caller g t = e.prepareTask caller g t := by
  have resolver : ∀ d, e.schema.field? t.parentType t.field.name = some d →
      caller.identity.satisfies d.access = true →
      e'.dispatch.resolverFor ⟨t.parentType, t.field.name⟩ =
        e.dispatch.resolverFor ⟨t.parentType, t.field.name⟩ := by
    intro d found access
    rw [DispatchTable.resolverFor, agrees.find ⟨d, found, access⟩, ← DispatchTable.resolverFor]
  unfold Engine.prepareTask
  rw [agrees.schema]
  cases found : e.schema.field? t.parentType t.field.name with
  | none => rfl
  | some d =>
    by_cases access : caller.identity.satisfies d.access = true
    · simp only [resolver d found access]
    · simp only [if_neg access]

theorem prepare (agrees : AgreesFor caller.identity e e') (g : Graph) (tasks : List Task) :
    e'.prepare caller g tasks = e.prepare caller g tasks := by
  induction tasks generalizing g with
  | nil => rfl
  | cons t ts ih => rw [Engine.prepare, Engine.prepare, agrees.prepareTask, ih]

theorem completeWave (agrees : AgreesFor i e e') (g : Graph) (calls : List (Invocation σ))
    (values : List Settled) : e'.completeWave g calls values = e.completeWave g calls values := by
  induction calls generalizing g values with
  | nil => rfl
  | cons c cs ih =>
    cases values with
    | nil => rfl
    | cons v vs => rw [Engine.completeWave, Engine.completeWave, agrees.schema, ih]

theorem pollBatch (agrees : AgreesFor i e e') (b : Batch) (p : Progress Unit)
    (st : OperationState σ) : e'.pollBatch b p st = e.pollBatch b p st := by
  have run : e'.runBatch b = e.runBatch b := by
    funext st
    rw [Engine.runBatch, agrees.loaders, ← Engine.runBatch]
  have delay : e'.batchDelay b = e.batchDelay b := by
    rw [Engine.batchDelay, agrees.loaders, ← Engine.batchDelay]
  simp only [Engine.pollBatch, run, delay]

theorem pollBatches (agrees : AgreesFor i e e') (bs : List (Batch × Progress Unit))
    (st : OperationState σ) : e'.pollBatches bs st = e.pollBatches bs st := by
  induction bs generalizing st with
  | nil => rfl
  | cons bp rest ih => rw [Engine.pollBatches, Engine.pollBatches, agrees.pollBatch, ih]

theorem settleRounds (agrees : AgreesFor i e e') (values : List (FieldValue σ))
    (st : OperationState σ) : e'.settleRounds values st = e.settleRounds values st := by
  induction values, st using settleRounds.induct (e := e) with
  | case1 values st values' st' pass settled =>
    rw [settleRounds.eq_1 e', settleRounds.eq_1 e, pass]
    simp only [settled, if_true]
  | case2 values st values' st' pass unsettled queued reason stop =>
    rw [settleRounds.eq_1 e', settleRounds.eq_1 e, pass]
    simp only [stop]
  | case3 values st values' st' pass unsettled queued go taken polled finished ih =>
    rw [settleRounds.eq_1 e', settleRounds.eq_1 e, pass]
    simp only [go, agrees.pollBatches]
    rw [ih]
  | case4 values st values' st' pass unsettled queued go taken polled unfinished =>
    rw [settleRounds.eq_1 e', settleRounds.eq_1 e, pass]
    simp only [go, agrees.pollBatches]
    rw [if_neg unfinished, if_neg unfinished]
  | case5 values st values' st' pass unsettled idle =>
    rw [settleRounds.eq_1 e', settleRounds.eq_1 e, pass]
    simp only [dif_neg idle]

/-! ## Operations -/

theorem afterCalls (agrees : AgreesFor i e e')
    (next : Graph → List Task → OperationState σ → RunPhase σ × OperationState σ) (levels : Nat)
    (g : Graph) (r : List (Invocation σ × Progress (FieldValue σ)) × OperationState σ) :
    e'.afterCalls next levels g r = e.afterCalls next levels g r := by
  simp only [Engine.afterCalls, Engine.afterSettling, agrees.settleRounds, agrees.completeWave]

theorem runWaves (agrees : AgreesFor caller.identity e e') (levels : Nat) :
    e'.runWaves caller levels = e.runWaves caller levels := by
  induction levels with
  | zero => rfl
  | succ levels ih =>
    funext g tasks st
    simp only [Engine.runWaves, agrees.prepare, agrees.afterCalls, ih]

theorem afterRun (agrees : AgreesFor caller.identity e e') (remaining : List (List Task))
    (r : RunPhase σ × OperationState σ) :
    e'.afterRun caller remaining r = e.afterRun caller remaining r := by
  induction remaining generalizing r with
  | nil =>
    obtain ⟨phase, st⟩ := r
    cases phase <;> simp only [Engine.afterRun]
  | cons tasks remaining ih =>
    obtain ⟨phase, st⟩ := r
    cases phase <;> simp only [Engine.afterRun, agrees.runWaves, ih]

/-- A suspended execution goes on alike. -/
theorem poll (agrees : AgreesFor caller.identity e e') (x : Execution σ) (st : OperationState σ) :
    e'.poll caller x st = e.poll caller x st := by
  simp only [Engine.poll, agrees.afterRun, agrees.runWaves, agrees.afterCalls, agrees.pollBatches,
    Engine.afterSettling, agrees.settleRounds, agrees.completeWave]

theorem preflight (agrees : AgreesFor i e e') (r : Request) : e'.preflight r = e.preflight r := by
  simp only [Engine.preflight, agrees.schema, agrees.settings]

/-- A query or mutation begins alike. -/
theorem execute (agrees : AgreesFor caller.identity e e') (r : Request) (st : OperationState σ) :
    e'.execute r caller st = e.execute r caller st := by
  simp only [Engine.execute, agrees.preflight, Engine.begin, agrees.afterRun]

/-! ## Subscriptions -/

theorem planSubscription (agrees : AgreesFor caller.identity e e') (r : Request) :
    e'.planSubscription r caller = e.planSubscription r caller := by
  have resolver : ∀ T name d, e.schema.field? T name = some d →
      caller.identity.satisfies d.access = true →
      e'.dispatch.subscriptionResolverFor ⟨T, name⟩ =
        e.dispatch.subscriptionResolverFor ⟨T, name⟩ := by
    intro T name d found access
    rw [DispatchTable.subscriptionResolverFor, agrees.find ⟨d, found, access⟩,
      ← DispatchTable.subscriptionResolverFor]
  simp only [Engine.planSubscription, agrees.preflight, agrees.schema]
  split
  · rfl
  · split
    · rfl
    · next rootType _ =>
      split
      · next field _ =>
        cases found : e.schema.field? rootType field.name with
        | none => rfl
        | some d =>
          by_cases access : caller.identity.satisfies d.access = true
          · simp only [resolver rootType field.name d found access]
          · simp only [if_neg access]
      · rfl

theorem register (agrees : AgreesFor i e e') (plan : SubscriptionPlan σ) (operation : Nat)
    (w : World σ) : e'.register plan operation w = e.register plan operation w := by
  simp only [Engine.register, agrees.settings]

theorem pollSetup (agrees : AgreesFor i e e') (plan : SubscriptionPlan σ) (operation : Nat)
    (deadline : Option Nat) (w : World σ) :
    e'.pollSetup plan operation deadline w = e.pollSetup plan operation deadline w := by
  simp only [Engine.pollSetup, agrees.register]

theorem coordinator (agrees : AgreesFor i e e') : e'.coordinator = e.coordinator := by
  rw [Engine.coordinator, agrees.settings, agrees.loaders, ← Engine.coordinator]

theorem executeEvent {s : SubscriptionStream σ} (agrees : AgreesFor s.caller.identity e e')
    (event : Json) (w : World σ) : e'.executeEvent s event w = e.executeEvent s event w := by
  simp only [Engine.executeEvent, agrees.schema, agrees.coordinator, Engine.begin, agrees.afterRun]

/-- A stream goes on alike. -/
theorem pollStream {s : SubscriptionStream σ} (agrees : AgreesFor s.caller.identity e e')
    (w : World σ) : s.poll e' w = s.poll e w := by
  simp only [SubscriptionStream.poll, agrees.poll, agrees.executeEvent]

/-! ## Answers -/

theorem symm (agrees : AgreesFor i e e') : AgreesFor i e' e where
  schema := agrees.schema.symm
  loaders := agrees.loaders.symm
  settings := agrees.settings.symm
  resolvers key free := by
    rw [Denies, agrees.schema] at free
    exact (agrees.resolvers key free).symm

theorem run (agrees : AgreesFor caller.identity e e') {start r : Polled σ × OperationState σ}
    (h : e.Run caller start r) : e'.Run caller start r := by
  induction h with
  | start => exact .start
  | poll _ same ih =>
    rw [← agrees.poll]
    exact ih.poll same

theorem returns (agrees : AgreesFor caller.identity e e') {r : Request} {response : Response}
    (h : e.Returns r caller response) : e'.Returns r caller response := by
  cases h with
  | refused refused =>
    rw [← agrees.coordinator, ← agrees.execute] at refused
    exact .refused refused
  | completed executes =>
    obtain ⟨started, run⟩ := executes
    rw [← agrees.coordinator, ← agrees.execute] at started
    exact .completed (.run started (agrees.run run))

theorem reaches {s₀ s : SubscriptionStream σ} (h : s₀.Reaches e s)
    (agrees : ∀ {s : SubscriptionStream σ}, s₀.Reaches e s → AgreesFor s.caller.identity e e') :
    s₀.Reaches e' s := by
  induction h with
  | start => exact .start
  | poll w reached ih =>
    rw [← (agrees reached).pollStream]
    exact ih.poll w

theorem emits (agrees : AgreesFor caller.identity e e') {r : Request} {response : Response}
    (h : e.Emits r caller response) : e'.Emits r caller response := by
  cases h with | @answer plan operation w w₀ w' s₀ s _ planned registered reached polled =>
  have same : ∀ {s}, s₀.Reaches e s → AgreesFor s.caller.identity e e' := by
    intro s reached
    obtain ⟨-, -, same, -⟩ := (Streams.stream planned registered reached).planned
    rwa [same]
  rw [← agrees.planSubscription] at planned
  rw [← agrees.register] at registered
  rw [← (same reached).pollStream] at polled
  exact .answer planned registered (AgreesFor.reaches reached same) polled

end AgreesFor

end Engine

/-- Access rules guard every resolver.  Only resolvers of fields whose rule the identity satisfies are
invoked for a request, by queries, mutations, the set-up of subscriptions and their events; and
engines that differ only in the other resolvers do the same for that identity: a request is executed
and goes on alike after whatever happened, a subscription is planned and set up alike, and each poll
of a stream gives the same.  So they have the same answers. -/
theorem resolvers_guarded (e : Engine σ) (r : Request) (caller : Caller) :
    (∀ key, e.Invokes r caller key → e.Grants caller.identity key) ∧
    ∀ e' : Engine σ, e.AgreesFor caller.identity e' →
      (∀ st, e'.execute r caller st = e.execute r caller st) ∧
      (∀ x st, e'.poll caller x st = e.poll caller x st) ∧
      e'.planSubscription r caller = e.planSubscription r caller ∧
      (∀ plan operation deadline w,
        e'.pollSetup plan operation deadline w = e.pollSetup plan operation deadline w) ∧
      (∀ s : SubscriptionStream σ, s.caller.identity = caller.identity →
        ∀ w, s.poll e' w = s.poll e w) ∧
      (∀ response, e'.Returns r caller response ↔ e.Returns r caller response) ∧
      ∀ response, e'.Emits r caller response ↔ e.Emits r caller response := by
  refine ⟨fun key invoked => invoked.granted, fun e' agrees => ?_⟩
  have back : e'.AgreesFor caller.identity e := agrees.symm
  have streams : ∀ s : SubscriptionStream σ, s.caller.identity = caller.identity →
      ∀ w, s.poll e' w = s.poll e w := fun s same w =>
    Engine.AgreesFor.pollStream (same.symm ▸ agrees) w
  exact ⟨agrees.execute r, agrees.poll, agrees.planSubscription r, agrees.pollSetup, streams,
    fun response => ⟨back.returns, agrees.returns⟩, fun response => ⟨back.emits, agrees.emits⟩⟩

/-! ## A field for the owner -/

namespace Vault

def schema : Schema :=
  ⟨⟨[("Int", ⟨"Int", .scalar .int⟩), ("Float", ⟨"Float", .scalar .float⟩),
      ("String", ⟨"String", .scalar .string⟩), ("Boolean", ⟨"Boolean", .scalar .boolean⟩),
      ("ID", ⟨"ID", .scalar .id⟩),
      ("Query", ⟨"Query", .object [("hint", .of "hint" (.named "Int")),
        ("code", (FieldDefinition.of "code" (.named "Int")).withAccess (.role "owner"))]⟩)],
      by decide⟩,
    "Query", none, none⟩

/-- The hint is public, the code is not. -/
def engine (code : Int) : Engine Unit :=
  ⟨schema,
    ⟨[(⟨"Query", "hint"⟩, .field ⟨fun _ => 0, fun _ s => (.ok (.value (.int 7)), s)⟩),
      (⟨"Query", "code"⟩, .field ⟨fun _ => 0, fun _ s => (.ok (.value (.int code)), s)⟩)]⟩,
    [], .default⟩

/-- The request `{ hint code }`. -/
def request : Request := ⟨none, .query, [⟨none, "hint", [], []⟩, ⟨none, "code", [], []⟩]⟩

/-- The answer, if it comes at once. -/
def atOnce? : Except Response (Polled Unit × OperationState Unit) → Option Response
  | .ok (polled, _) => polled.response?
  | .error response => some response

/-- The answer to a caller with roles. -/
def answer? (code : Int) (roles : List String) : Option Response :=
  atOnce? ((engine code).execute request ⟨⟨none, roles, []⟩, []⟩
    ⟨0, (engine code).coordinator, .start default ()⟩)

theorem agrees (code code' : Int) :
    (engine code).AgreesFor Sample.caller.identity (engine code') where
  schema := rfl
  loaders := rfl
  settings := rfl
  resolvers key free := by
    have other : key ≠ ⟨"Query", "code"⟩ := by
      rintro rfl
      exact free ⟨_, rfl, rfl⟩
    have : (key == ⟨"Query", "code"⟩) = false := by simpa using other
    simp only [engine, DispatchTable.find?, List.lookup_cons, this]

/-- The owner gets the code; nobody else can tell one from another. -/
theorem resolvers_guarded_vault :
    answer? 1 ["owner"] = some ⟨some (.obj [("hint", .int 7), ("code", .int 1)]), []⟩ ∧
    answer? 2 ["owner"] = some ⟨some (.obj [("hint", .int 7), ("code", .int 2)]), []⟩ ∧
    answer? 2 [] = answer? 1 [] ∧
    ∀ response, (engine 2).Returns request Sample.caller response ↔
      (engine 1).Returns request Sample.caller response := by
  obtain ⟨execute, -, -, -, -, returns, -⟩ :=
    (resolvers_guarded (engine 1) request Sample.caller).2 (engine 2) (agrees 1 2)
  have same := execute ⟨0, (engine 1).coordinator, .start default ()⟩
  exact ⟨by cbv, by cbv, congrArg atOnce? same, returns⟩

end Vault

end GraphQLEngine
