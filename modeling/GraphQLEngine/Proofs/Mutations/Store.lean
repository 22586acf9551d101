import GraphQLEngine.Proofs.Loads.Chains
import GraphQLEngine.Proofs.Loads.Plans
import GraphQLEngine.Proofs.Waves.Loads
import GraphQLEngine.Proofs.Waves.Tasks

/-!
# Resolvers that share a store

Resolvers may read and write the store; what their values come to when they have been loaded may
depend on the store as well, but leaves it as it is.  When the resolvers of a wave return in the
order of its fields, an execution is a function of the store:

    e.evalWaves caller b levels g tasks s      the graph and the store that a run comes to
    e.evalRuns caller b g runs s               those that runs one after the other come to

The loads of a wave, and when they are fetched, make no difference to it (`Engine.Reaches.inTurn`).
-/

namespace GraphQLEngine

open FieldValue (itemsSettled)

variable {σ : Type}

/-! ## Order -/

/-- The thing has returned. -/
def Progress.Done {β : Type} : Progress β → Prop
  | .finished _ => True
  | _ => False

/-- What has returned comes before what has not. -/
def Progress.InOrder {α β : Type} (ps : List (α × Progress β)) : Prop :=
  ps.Pairwise fun p q => q.2.Done → p.2.Done

/-- The resolvers of a wave return in the order of its fields, and between polls the store is left
as it is. -/
def Rules.serial : Rules σ where
  between st st' := st'.coordinator = st.coordinator ∧ st'.world.store = st.world.store
  polled := Progress.InOrder
  loads h := h.1
  idle _ := List.pairwise_map.mpr (List.pairwise_of_forall fun _ _ done => done)

/-! ## Values on a store -/

mutual

/-- On the store `s` a value does what a plan says, and its continuations leave the store. -/
inductive RealizesOn (s : σ) : FieldValue σ → Plan → Prop
  | value (v : Json) : RealizesOn s (.value v) (.value v)
  | error (e : FieldError) : RealizesOn s (.error e) (.error e)
  | list {items : List (FieldValue σ)} {plans : List Plan} :
    RealizesAllOn s items plans → RealizesOn s (.list items) (.list plans)
  | load {loader : Nat} {key : LoadKey} {resume : Continuation σ} {next : Json → Plan} :
    (∀ v c, c.store = s → RealizesOn s (resume v c).1 (next v)) →
      (∀ v c, c.store = s → (resume v c).2.store = s) →
      RealizesOn s (.deferred loader key resume) (.load loader key next)

inductive RealizesAllOn (s : σ) : List (FieldValue σ) → List Plan → Prop
  | nil : RealizesAllOn s [] []
  | cons {v : FieldValue σ} {vs : List (FieldValue σ)} {p : Plan} {ps : List Plan} :
    RealizesOn s v p → RealizesAllOn s vs ps → RealizesAllOn s (v :: vs) (p :: ps)

end

theorem OperationState.store_absorb (st : OperationState σ) (v : FieldValue σ) (c : Scope σ) :
    (st.absorb v c).world.store = c.store :=
  st.world.absorb_induction (P := fun w => w.store = c.store) c rfl
    fun effect kept => by cases effect <;> exact kept

namespace FieldValue

variable {answers : Nat → LoadKey → Answer}

mutual

/-- A pass leaves the store, and what a value comes to. -/
theorem settle_realizes : ∀ (v : FieldValue σ) (p : Plan) (st : OperationState σ),
    RealizesOn st.world.store v p →
    (∀ {n key a}, st.coordinator.answer? n key = some a → a = answers n key) →
    (settle v st).2.world.store = st.world.store ∧
      ∃ p', RealizesOn st.world.store (settle v st).1 p' ∧ p'.run answers = p.run answers
  | .value _, p, st, real, _ => by rw [settle]; exact ⟨rfl, p, real, rfl⟩
  | .error _, p, st, real, _ => by rw [settle]; exact ⟨rfl, p, real, rfl⟩
  | .list items, .list plans, st, .list each, fixed => by
    obtain ⟨same, plans', each', run⟩ := settleItems_realizes items plans st each fixed
    rw [settle]
    exact ⟨same, .list plans', .list each', by rw [Plan.run, Plan.run, run]⟩
  | .deferred loader key resume, .load _ _ next, st, .load each leaves, fixed => by
    rw [settle]
    split
    · exact ⟨rfl, _, .load each leaves, rfl⟩
    · next fault answered =>
      refine ⟨rfl, _, .error fault, ?_⟩
      rw [Plan.run, Plan.run, ← fixed answered]
    · next v answered =>
      obtain ⟨same, p', real', run⟩ := settleResult_realizes (resume v st.scope) (next v) st
        (each v st.scope rfl) (leaves v st.scope rfl) fixed
      refine ⟨same, p', real', run.trans ?_⟩
      rw [Plan.run, ← fixed answered]

theorem settleResult_realizes : ∀ (r : FieldValue σ × Scope σ) (p : Plan) (st : OperationState σ),
    RealizesOn st.world.store r.1 p → r.2.store = st.world.store →
    (∀ {n key a}, st.coordinator.answer? n key = some a → a = answers n key) →
    (settleResult r st).2.world.store = st.world.store ∧
      ∃ p', RealizesOn st.world.store (settleResult r st).1 p' ∧ p'.run answers = p.run answers
  | (v, c), p, st, real, left, fixed => by
    have same : (st.absorb v c).world.store = st.world.store :=
      (OperationState.store_absorb st v c).trans left
    rw [settleResult, ← same]
    exact settle_realizes v p (st.absorb v c) (same ▸ real) fun answered =>
      fixed ((Coordinator.answer?_loadAll _ _ _ _).symm.trans answered)

theorem settleItems_realizes : ∀ (vs : List (FieldValue σ)) (ps : List Plan)
    (st : OperationState σ), RealizesAllOn st.world.store vs ps →
    (∀ {n key a}, st.coordinator.answer? n key = some a → a = answers n key) →
    (settleItems vs st).2.world.store = st.world.store ∧
      ∃ ps', RealizesAllOn st.world.store (settleItems vs st).1 ps' ∧
        Plan.runAll answers ps' = Plan.runAll answers ps
  | [], ps, st, each, _ => by rw [settleItems]; exact ⟨rfl, ps, each, rfl⟩
  | v :: vs, p :: ps, st, .cons real each, fixed => by
    obtain ⟨same, p', real', run⟩ := settle_realizes v p st real fixed
    obtain ⟨rs, loads⟩ := OperationState.loads_resolves.settle v st
    obtain ⟨same', ps', each', runAll⟩ := settleItems_realizes vs ps (settle v st).2
      (same ▸ each) fun answered => by
        rw [loads, Coordinator.answer?_loadAll] at answered
        exact fixed answered
    rw [same] at each' same'
    rw [settleItems]
    exact ⟨same', _, .cons real' each', by rw [Plan.runAll, Plan.runAll, run, runAll]⟩

end

mutual

/-- What a settled value comes to is itself. -/
theorem abandon_realizes {s : σ} : ∀ (v : FieldValue σ) (p : Plan), RealizesOn s v p →
    v.isSettled = true → v.abandon = p.run answers
  | .value _, _, .value _, _ => by rw [abandon, Plan.run]
  | .error _, _, .error _, _ => by rw [abandon, Plan.run]
  | .list items, .list plans, .list each, settled => by
    rw [abandon, Plan.run, abandonItems_realizes items plans each settled]
  | .deferred .., _, _, settled => nomatch settled

theorem abandonItems_realizes {s : σ} : ∀ (vs : List (FieldValue σ)) (ps : List Plan),
    RealizesAllOn s vs ps → itemsSettled vs = true → abandonItems vs = Plan.runAll answers ps
  | [], _, .nil, _ => by rw [abandonItems, Plan.runAll]
  | v :: vs, p :: ps, .cons real each, settled => by
    rw [itemsSettled, Bool.and_eq_true] at settled
    rw [abandonItems, Plan.runAll, abandon_realizes v p real settled.1,
      abandonItems_realizes vs ps each settled.2]

end

end FieldValue

/-! ## Behaviours -/

/-- What the resolvers and the loaders of an engine do. -/
structure Behavior (σ : Type) where
  /-- What a resolver makes of the store: a plan, which may depend on the store that its loads are
  answered on, and the store that it leaves. -/
  resolve : FieldKey → FieldCall → σ → (σ → Plan) × σ
  answer : Nat → LoadKey → Answer

/-- The engine behaves so; loaders answer each key alike in every batch, and leave the store. -/
structure Engine.Behaves (e : Engine σ) (b : Behavior σ) : Prop where
  resolvers : ∀ {key : FieldKey} {resolver : Resolver σ} (call : FieldCall) (c : Scope σ),
    e.dispatch.resolverFor key = .ok resolver →
      (resolver.run call c).2.store = (b.resolve key call c.store).2 ∧
      ∀ s, RealizesOn s (resolver.value call c) ((b.resolve key call c.store).1 s)
  loaders : ∀ {n : Nat} {loader : Loader σ} {keys : List LoadKey} {key : LoadKey} (s : σ),
    e.loaders.lookup n = some loader → key ∈ keys →
      LoaderState.answerOf loader.name key (loader.fetch keys s).1 = b.answer n key
  missing : ∀ {n : Nat} (key : LoadKey), e.loaders.lookup n = none →
    b.answer n key = .error (.internal ("Loader " ++ toString n ++ " is not registered"))
  stores : ∀ {n : Nat} {loader : Loader σ} (keys : List LoadKey) (s : σ),
    e.loaders.lookup n = some loader → (loader.fetch keys s).2 = s

theorem Engine.Behaves.answersBy {e : Engine σ} {b : Behavior σ} (acts : e.Behaves b) :
    e.AnswersBy fun n key a => a = b.answer n key :=
  ⟨fun store found mem => acts.loaders store found mem, fun key none => (acts.missing key none).symm⟩

/-- The resolver of a call is the one that is dispatched. -/
def Engine.Dispatches (e : Engine σ) (i : Invocation σ) : Prop :=
  e.dispatch.resolverFor ⟨i.call.typeName, i.call.fieldName⟩ = .ok i.resolver

namespace Behavior

variable (b : Behavior σ)

def call (i : Invocation σ) : σ → (σ → Plan) × σ :=
  b.resolve ⟨i.call.typeName, i.call.fieldName⟩ i.call

/-- What calls make of the store one after the other. -/
def callAll : List (Invocation σ) → σ → List (σ → Plan) × σ
  | [], s => ([], s)
  | i :: is, s => ((b.call i s).1 :: (callAll is (b.call i s).2).1, (callAll is (b.call i s).2).2)

/-- What the values of calls come to on a store. -/
def settled (plans : List (σ → Plan)) (s : σ) : List Settled :=
  Plan.runAll b.answer (plans.map fun plan => plan s)

/-- What remains to be called from a store on comes to plans and a store. -/
inductive Resolves : List (Invocation σ × Progress (FieldValue σ)) → σ → List (σ → Plan) → σ → Prop
  | nil (s : σ) : Resolves [] s [] s
  | returned {i : Invocation σ} {v : FieldValue σ} {plan : σ → Plan}
    {rest : List (Invocation σ × Progress (FieldValue σ))} {s s' : σ} {plans : List (σ → Plan)} :
    (∀ t, RealizesOn t v (plan t)) → Resolves rest s plans s' →
      Resolves ((i, .finished v) :: rest) s (plan :: plans) s'
  | pending {i : Invocation σ} {p : Progress (FieldValue σ)}
    {rest : List (Invocation σ × Progress (FieldValue σ))} {s s' : σ} {plans : List (σ → Plan)} :
    ¬ p.Done → Resolves rest (b.call i s).2 plans s' →
      Resolves ((i, p) :: rest) s ((b.call i s).1 :: plans) s'

end Behavior

namespace Engine

variable (e : Engine σ) (caller : Caller) (b : Behavior σ)

/-- Run waves on a store. -/
def evalWaves : Nat → Graph → List Task → σ → Graph × σ
  | 0, g, _, s => (g, s)
  | levels + 1, g, tasks, s =>
    if tasks.isEmpty then (g, s)
    else
      let prepared := e.prepare caller g tasks
      let called := b.callAll prepared.2 s
      let completed := e.completeWave prepared.1 prepared.2 (b.settled called.1 called.2)
      evalWaves levels completed.1 completed.2 called.2

/-- Run lists of root tasks one after the other on a store. -/
def evalRuns : List (List Task) → Graph → σ → Graph × σ
  | [], g, s => (g, s)
  | tasks :: runs, g, s =>
    let r := e.evalWaves caller b (Task.levels tasks) g tasks s
    evalRuns runs r.1 r.2

theorem evalWaves_done {levels : Nat} {tasks : List Task} (done : levels = 0 ∨ tasks = [])
    (g : Graph) (s : σ) : e.evalWaves caller b levels g tasks s = (g, s) := by
  rcases done with rfl | rfl
  · rfl
  · cases levels <;> rfl

theorem evalRuns_append (runs : List (List Task)) (tasks : List Task) (g : Graph) (s : σ) :
    e.evalRuns caller b (runs ++ [tasks]) g s =
      e.evalWaves caller b (Task.levels tasks) (e.evalRuns caller b runs g s).1 tasks
        (e.evalRuns caller b runs g s).2 := by
  induction runs generalizing g s with
  | nil => rfl
  | cons ts runs ih => exact ih _ _

end Engine

/-! ## Polls -/

/-- A poll leaves what has returned, runs the resolver, or leaves it pending. -/
theorem Invocation.poll_store (i : Invocation σ) (p : Progress (FieldValue σ))
    (st : OperationState σ) :
    (∃ v, p = .finished v ∧ i.poll p st = (.finished v, st)) ∨
    (¬ p.Done ∧ ∃ st', st'.world.store = st.world.store ∧
      i.poll p st = (.finished (i.run st').1, (i.run st').2)) ∨
    (¬ p.Done ∧ ¬ (i.poll p st).1.Done ∧ (i.poll p st).2.world.store = st.world.store) := by
  cases p with
  | finished v => exact .inl ⟨v, rfl, rfl⟩
  | waiting deadline =>
    by_cases due : deadline ≤ st.world.clock
    · exact .inr (.inl ⟨id, st, rfl, by rw [poll, if_pos due]⟩)
    · exact .inr (.inr ⟨id, by rw [poll, if_neg due]; exact id, by rw [poll, if_neg due]⟩)
  | idle =>
    cases delay : i.resolver.delay i.call with
    | zero =>
      exact .inr (.inl ⟨id, st.record (.resolverStarted i.call.typeName i.call.fieldName i.path),
        rfl, by rw [poll]; simp only [delay]⟩)
    | succ d =>
      refine .inr (.inr ⟨id, ?_, ?_⟩) <;> rw [poll] <;> simp only [delay]
      · exact id
      · rfl

/-- While nothing returns the store is left. -/
theorem Invocation.pollAll_pending {calls : List (Invocation σ × Progress (FieldValue σ))}
    {st : OperationState σ} (pending : ∀ q ∈ (Invocation.pollAll calls st).1, ¬ q.2.Done) :
    (Invocation.pollAll calls st).2.world.store = st.world.store ∧ ∀ q ∈ calls, ¬ q.2.Done := by
  induction calls generalizing st with
  | nil => exact ⟨rfl, fun _ h => nomatch h⟩
  | cons c rest ih =>
    obtain ⟨i, p⟩ := c
    rw [Invocation.pollAll] at pending ⊢
    obtain ⟨same, later⟩ := ih fun q mem => pending q (List.mem_cons_of_mem _ mem)
    have first := pending _ List.mem_cons_self
    rcases i.poll_store p st with ⟨v, -, poll⟩ | ⟨-, st', -, poll⟩ | ⟨waits, -, left⟩
    · rw [poll] at first
      exact absurd trivial first
    · rw [poll] at first
      exact absurd trivial first
    · refine ⟨same.trans left, fun q mem => ?_⟩
      rcases List.mem_cons.mp mem with rfl | mem
      · exact waits
      · exact later q mem

namespace Behavior

variable {b : Behavior σ} {e : Engine σ}

/-- Of what is pending only the calls matter. -/
theorem Resolves.of_pending {calls calls' : List (Invocation σ × Progress (FieldValue σ))}
    {s s' : σ} {plans : List (σ → Plan)} (h : b.Resolves calls s plans s')
    (same : calls'.map Prod.fst = calls.map Prod.fst) (pending : ∀ q ∈ calls, ¬ q.2.Done)
    (pending' : ∀ q ∈ calls', ¬ q.2.Done) : b.Resolves calls' s plans s' := by
  induction h generalizing calls' with
  | nil s =>
    rw [List.map_eq_nil_iff.mp same]
    exact .nil s
  | returned => exact absurd trivial (pending _ List.mem_cons_self)
  | @pending i p rest s s' plans _ _ ih =>
    cases calls' with
    | nil => cases same
    | cons q rest' =>
      obtain ⟨j, q⟩ := q
      obtain ⟨rfl, others⟩ := List.cons.inj same
      exact .pending (pending' _ List.mem_cons_self)
        (ih others (fun q mem => pending q (List.mem_cons_of_mem _ mem)) fun q mem =>
          pending' q (List.mem_cons_of_mem _ mem))

/-- A poll leaves what the calls come to, as long as they return in order. -/
theorem Resolves.poll (acts : e.Behaves b) {calls : List (Invocation σ × Progress (FieldValue σ))}
    {st : OperationState σ} {s' : σ} {plans : List (σ → Plan)}
    (dispatched : ∀ i ∈ calls.map Prod.fst, e.Dispatches i)
    (h : b.Resolves calls st.world.store plans s')
    (order : Progress.InOrder (Invocation.pollAll calls st).1) :
    b.Resolves (Invocation.pollAll calls st).1 (Invocation.pollAll calls st).2.world.store plans s' := by
  induction calls generalizing st plans with
  | nil => exact h
  | cons c rest ih =>
    obtain ⟨i, p⟩ := c
    have later := fun j mem => dispatched j (List.mem_cons_of_mem _ mem)
    rw [Invocation.pollAll] at order ⊢
    obtain ⟨before, order⟩ := List.pairwise_cons.mp order
    simp only at before
    have ran : ∀ st' : OperationState σ, st'.world.store = st.world.store →
        (i.run st').2.world.store = (b.call i st.world.store).2 ∧
          ∀ t, RealizesOn t (i.run st').1 ((b.call i st.world.store).1 t) := by
      intro st' same
      obtain ⟨left, real⟩ := acts.resolvers i.call st'.scope (dispatched i List.mem_cons_self)
      have scope : st'.scope.store = st.world.store := same
      rw [scope] at left real
      exact ⟨(OperationState.store_absorb st' _ _).trans left, real⟩
    rcases i.poll_store p st with ⟨v, rfl, poll⟩ | ⟨waits, st', same, poll⟩ | ⟨waits, still, same⟩
    · cases h with
      | returned real rest =>
        simp only [poll] at order ⊢
        exact .returned real (ih later rest order)
      | pending waits => exact absurd trivial waits
    · obtain ⟨left, real⟩ := ran st' same
      cases h with
      | returned => exact absurd trivial waits
      | pending _ rest =>
        simp only [poll] at order ⊢
        exact .returned real (ih later (left ▸ rest) order)
    · have none : ∀ q ∈ (Invocation.pollAll rest (i.poll p st).2).1, ¬ q.2.Done :=
        fun q mem done => still (before q mem done)
      obtain ⟨left, waiting⟩ := Invocation.pollAll_pending none
      simp only
      rw [left, same]
      cases h with
      | returned => exact absurd trivial waits
      | pending _ resolves =>
        exact .pending still (resolves.of_pending (Invocation.fst_pollAll _ _) waiting none)

theorem Resolves.rescheduled {calls calls' : List (Invocation σ × Progress (FieldValue σ))}
    {s s' : σ} {plans : List (σ → Plan)} (h : Progress.Rescheduled calls calls')
    (resolves : b.Resolves calls s plans s') : b.Resolves calls' s plans s' := by
  induction h generalizing s plans with
  | nil => exact resolves
  | @cons c c' rest rest' h _ ih =>
    obtain ⟨i, p⟩ := c
    obtain ⟨i', p'⟩ := c'
    obtain ⟨rfl, delayed⟩ := h
    cases resolves with
    | returned real later =>
      cases delayed
      exact .returned real (ih later)
    | pending waits later =>
      refine .pending ?_ (ih later)
      cases delayed with
      | same => exact waits
      | waiting => exact id

/-- Once all have returned, the values do what was planned. -/
theorem Resolves.results {calls : List (Invocation σ × Progress (FieldValue σ))} {s s' : σ}
    {plans : List (σ → Plan)} {values : List (FieldValue σ)} (h : b.Resolves calls s plans s')
    (results : Progress.results? calls = some values) :
    s' = s ∧ RealizesAllOn s values (plans.map fun plan => plan s) := by
  induction h generalizing values with
  | nil s =>
    cases results
    exact ⟨rfl, .nil⟩
  | returned real _ ih =>
    obtain ⟨vs, later, rfl⟩ := Option.map_eq_some_iff.mp results
    obtain ⟨same, each⟩ := ih later
    exact ⟨same, .cons (real _) each⟩
  | @pending i p _ _ _ _ waits _ _ =>
    cases p with
    | finished v => exact absurd trivial waits
    | _ => cases results

/-- Before any poll the calls come to what they make of the store one after the other. -/
theorem resolves_idle (calls : List (Invocation σ)) (s : σ) :
    b.Resolves (calls.map (·, .idle)) s (b.callAll calls s).1 (b.callAll calls s).2 := by
  induction calls generalizing s with
  | nil => exact .nil s
  | cons i is ih => exact .pending id (ih _)

end Behavior

theorem Progress.inOrder_of_results {α β : Type} {ps : List (α × Progress β)} {values : List β}
    (results : Progress.results? ps = some values) : Progress.InOrder ps := by
  have all : ∀ q ∈ ps, q.2.Done := by
    induction ps generalizing values with
    | nil => exact fun _ h => nomatch h
    | cons p rest ih =>
      obtain ⟨a, p⟩ := p
      cases p with
      | finished v =>
        obtain ⟨vs, results, -⟩ := Option.map_eq_some_iff.mp results
        exact List.forall_mem_cons.mpr ⟨trivial, ih results⟩
      | _ => cases results
  exact List.Pairwise.imp_of_mem (R := fun _ _ => True) (fun hp _ _ _ => all _ hp)
    (List.pairwise_of_forall fun _ _ => trivial)

theorem Progress.inOrder_rescheduled {α β : Type} {ps ps' : List (α × Progress β)}
    (h : Progress.Rescheduled ps ps') (order : Progress.InOrder ps') : Progress.InOrder ps := by
  have same : ps'.map (fun q => q.2.Done) = ps.map fun q => q.2.Done := by
    induction h with
    | nil => rfl
    | @cons p p' _ _ h _ ih =>
      rw [List.map_cons, List.map_cons, ih (List.pairwise_cons.mp order).2]
      obtain ⟨a, p⟩ := p
      obtain ⟨a', p'⟩ := p'
      obtain ⟨-, delayed⟩ := h
      cases delayed <;> rfl
  have pairs : (ps'.map fun q => q.2.Done).Pairwise fun p q => q → p := List.pairwise_map.mpr order
  rw [same] at pairs
  exact List.pairwise_map.mp pairs

/-! ## Steps -/

section

variable (e : Engine σ) (caller : Caller) (b : Behavior σ)

/-- The run that is at work. -/
def Point.run? : Point σ → Option Nat
  | .tasks _ run _ _ _ => some run
  | .resolving _ w _ _ | .settling _ w _ _ _ | .passed _ w _ _ _ | .fetching _ w _ _ _ _ =>
    some w.run
  | .stopped .. => none

/-- What a run comes to once the values of a wave have settled. -/
def Engine.evalRest (levels : Nat) (g : Graph) (calls : List (Invocation σ)) (values : List Settled)
    (s : σ) : Graph × σ :=
  e.evalWaves caller b levels (e.completeWave g calls values).1 (e.completeWave g calls values).2 s

/-- From a point, on the store `s`, a run comes to a graph and a store. -/
def Point.ComesTo (out : Graph × σ) (s : σ) : Point σ → Prop
  | .tasks levels _ _ g ts => e.evalWaves caller b levels g ts s = out
  | .resolving levels _ g calls =>
    (∀ i ∈ calls.map Prod.fst, e.Dispatches i) ∧
      (Progress.InOrder calls → ∃ plans s', b.Resolves calls s plans s' ∧
        e.evalRest caller b levels g (calls.map Prod.fst) (b.settled plans s') s' = out)
  | .settling levels _ g calls values | .passed levels _ g calls values
  | .fetching levels _ g calls values _ =>
    ∃ plans, RealizesAllOn s values plans ∧
      e.evalRest caller b levels g calls (Plan.runAll b.answer plans) s = out
  | .stopped .. => True

/-- Wherever an execution stands, the run at work comes to what it would from its beginning, after
the runs before it. -/
def Moment.InTurn (g₀ : Graph) (s₀ : σ) (runs : List (List Task)) (m : Moment σ) : Prop :=
  ∀ run, m.point.run? = some run → m.remaining = runs.drop run ∧
    m.point.ComesTo e caller b (e.evalRuns caller b (runs.take run) g₀ s₀) m.state.world.store

end

namespace Engine

variable {e : Engine σ} {caller : Caller} {b : Behavior σ} {base : Nat} {m m' : Moment σ}
  {g₀ : Graph} {s₀ : σ} {runs : List (List Task)}

/-- The calls of a wave are dispatched. -/
theorem prepare_dispatches {g : Graph} {tasks : List Task} :
    ∀ i ∈ (e.prepare caller g tasks).2, e.Dispatches i := by
  intro i hi
  obtain ⟨t, -, -, made⟩ := (prepare_calls g tasks).2.1 i hi
  obtain ⟨d, -, -, -, call⟩ := made.defined
  have dispatched := made.dispatched
  rw [Dispatches, call]
  exact dispatched

/-- The fetches of a behavior leave the store alone. -/
theorem store_fetches (acts : e.Behaves b) :
    OperationState.Fetches e fun st st' => st'.world.store = st.world.store where
  refl _ := rfl
  trans h h' := h'.trans h
  start _ _ := rfl
  fetch st batch := by
    unfold runBatch
    split
    · rfl
    · next loader found => exact acts.stores batch.keys st.world.store found

theorem Step.inTurn (acts : e.Behaves b) (h : e.Step caller .serial base m m')
    (waits : m.point.Awaits e (fun n key a => a = b.answer n key) m.state)
    (I : m.InTurn e caller b g₀ s₀ runs) : m'.InTurn e caller b g₀ s₀ runs := by
  cases h with
  | @next _ tasks ts remaining levels run depth g st done =>
    intro run' eq
    cases eq
    obtain ⟨rest, comes⟩ := I run rfl
    have tasks_eq : runs[run]? = some tasks := by rw [← List.head?_drop, ← rest]; rfl
    refine ⟨by rw [← List.tail_drop, ← rest]; rfl, ?_⟩
    have before : e.evalRuns caller b (runs.take run) g₀ s₀ = (g, st.world.store) :=
      comes.symm.trans (evalWaves_done e caller b done g _)
    rw [Point.ComesTo, List.take_add_one, tasks_eq, Option.toList_some, evalRuns_append, before]
  | prepare some =>
    intro run eq
    obtain ⟨rest, comes⟩ := I run eq
    refine ⟨rest, ?_⟩
    have none := List.isEmpty_eq_false_iff.mpr some
    have all : ∀ calls : List (Invocation σ), (calls.map fun i =>
        (i, (Progress.idle : Progress (FieldValue σ)))).map Prod.fst = calls := by
      intro calls
      rw [List.map_map]
      exact List.map_id _
    rw [Point.ComesTo, evalWaves, none] at comes
    refine ⟨by rw [all]; exact prepare_dispatches, fun _ => ⟨_, _, Behavior.resolves_idle _ _, ?_⟩⟩
    rw [all]
    exact comes
  | resolve order =>
    intro run eq
    obtain ⟨rest, dispatched, comes⟩ := I run eq
    obtain ⟨plans, s', resolves, out⟩ := comes order
    refine ⟨rest, by rw [Invocation.fst_pollAll]; exact dispatched, fun order' =>
      ⟨plans, s', resolves.poll acts dispatched order', ?_⟩⟩
    rw [Invocation.fst_pollAll]
    exact out
  | collect results =>
    intro run eq
    obtain ⟨rest, -, comes⟩ := I run eq
    obtain ⟨plans, s', resolves, out⟩ := comes (Progress.inOrder_of_results results)
    obtain ⟨rfl, each⟩ := resolves.results results
    exact ⟨rest, _, each, out⟩
  | pass =>
    intro run eq
    obtain ⟨rest, plans, each, out⟩ := I run eq
    obtain ⟨same, plans', each', settled⟩ := FieldValue.settleItems_realizes _ plans _ each
      fun answered => (Awaited.tracked waits).answer acts.answersBy answered
    refine ⟨rest, plans', ?_, ?_⟩
    · rw [same]
      exact each'
    · rw [same, settled]
      exact out
  | take => exact I
  | fetch =>
    intro run eq
    have := I run eq
    rwa [← (store_fetches acts).pollBatches] at this
  | fetched => exact I
  | complete done =>
    intro run eq
    obtain ⟨rest, plans, each, out⟩ := I run eq
    refine ⟨rest, ?_⟩
    rw [Point.ComesTo, FieldValue.abandonItems_realizes _ plans each (settled_of_complete waits done)]
    exact out
  | stop => exact fun _ eq => nomatch eq

theorem Pause.inTurn (h : Pause .serial m m') (I : m.InTurn e caller b g₀ s₀ runs) :
    m'.InTurn e caller b g₀ s₀ runs := by
  cases h with
  | resolving rescheduled between =>
    intro run eq
    obtain ⟨rest, dispatched, comes⟩ := I run eq
    refine ⟨rest, by rw [rescheduled.map_fst]; exact dispatched, fun order => ?_⟩
    obtain ⟨plans, s', resolves, out⟩ := comes (Progress.inOrder_rescheduled rescheduled order)
    rw [rescheduled.map_fst, between.2]
    exact ⟨plans, s', resolves.rescheduled rescheduled, out⟩
  | fetching rescheduled between =>
    intro run eq
    obtain ⟨rest, plans, each, out⟩ := I run eq
    exact ⟨rest, plans, between.2 ▸ each, between.2 ▸ out⟩

theorem Reaches.inTurn (acts : e.Behaves b) (reached : e.Reaches caller .serial base m m')
    (waits : m.point.Awaits e (fun n key a => a = b.answer n key) m.state)
    (I : m.InTurn e caller b g₀ s₀ runs) : m'.InTurn e caller b g₀ s₀ runs := by
  induction reached with
  | refl => exact I
  | tail before h ih =>
    have awaits := Reaches.awaits acts.answersBy before waits
    exact h.elim (fun step => step.inTurn acts awaits ih) fun pause => pause.inTurn ih

/-- An execution that is completed has come to what its runs come to one after the other. -/
theorem Reaches.completed (acts : e.Behaves b) {st₀ st : OperationState σ} {g : Graph}
    (tracked : Tracked e (fun n key a => a = b.answer n key) [] st₀.coordinator)
    (reached : e.Reaches caller .serial base (.initial g₀ runs st₀) m)
    (stands : m.Stands (.completed g, st)) :
    (g, st.world.store) = e.evalRuns caller b runs g₀ st₀.world.store := by
  have I : m.InTurn e caller b g₀ st₀.world.store runs :=
    reached.inTurn acts tracked fun run eq => by cases eq; exact ⟨rfl, rfl⟩
  cases stands with
  | completed comes none =>
    cases comes with
    | @completed past ts remaining levels run depth g st done =>
      obtain ⟨rest, comes⟩ := I run rfl
      have all : runs.take run = runs :=
        List.take_of_length_le (List.drop_eq_nil_iff.mp (rest.symm.trans none))
      rw [all] at comes
      rw [← comes, evalWaves_done e caller b done]

end Engine

end GraphQLEngine
