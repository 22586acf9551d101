import GraphQLEngine.Proofs.Subscriptions.Twins
import GraphQLEngine.Proofs.Waves.Promptness
import GraphQLEngine.Proofs.Waves.Strides

/-!
# The size of batches

How many keys may be fetched together does not show.  Where resolvers depend on their calls alone, and
loaders answer a key alike in every batch, two executions of a request that differ in that size go
through the same landmarks: they ask for the same keys, which are flushed together, and find the same
answers.

    Engine.capped e size                         the engine with another size
    Engine.Parallel e size size' m m'            two executions at the same landmark
-/

namespace GraphQLEngine

open FieldValue (itemsSettled abandonItems settleItems)
open Invocation (InOrder)

variable {σ : Type}

/-! ## Resolvers that are functions -/

namespace Invocation

variable {i : Invocation σ}

theorem Yields.unique (functional : i.resolver.Functional) {v v' : FieldValue σ} (h : i.Yields v)
    (h' : i.Yields v') : v' = v := by
  obtain ⟨s, fresh, rfl⟩ := h
  obtain ⟨s', fresh', rfl⟩ := h'
  rw [Resolver.value, Resolver.value, (functional.alike i.call s s' fresh fresh').1]

theorem Yields.steady (functional : i.resolver.Functional) {v : FieldValue σ} (h : i.Yields v) :
    Steady v := by
  obtain ⟨s, -, rfl⟩ := h
  unfold Resolver.value
  split
  · next v returned => exact functional.steady returned
  · exact .error _

theorem Asks.unique (functional : i.resolver.Functional) {rs rs' : List (Nat × LoadKey)}
    (h : i.Asks rs) (h' : i.Asks rs') : rs' = rs := by
  obtain ⟨s, fresh, rfl⟩ := h
  obtain ⟨s', fresh', rfl⟩ := h'
  obtain ⟨value, requests⟩ := functional.alike i.call s s' fresh fresh'
  rw [Resolver.value, Resolver.value, value, requests]

section

variable {calls : List (Invocation σ)} (functional : ∀ i ∈ calls, i.resolver.Functional)
  {order order' : List (Invocation σ × List (Nat × LoadKey))} {c c' d d' : Coordinator}
  {log log' : List LogEntry}

include functional

theorem yields_unique {values values' : List (FieldValue σ)}
    (h : List.Forall₂ Yields calls values) (h' : List.Forall₂ Yields calls values') :
    values' = values ∧ SteadyAll values := by
  induction h generalizing values' with
  | nil =>
    cases h'
    exact ⟨rfl, .nil⟩
  | cons first rest ih =>
    cases h' with
    | cons first' rest' =>
      have here := functional _ List.mem_cons_self
      obtain ⟨same, steady⟩ := ih (fun i mem => functional i (List.mem_cons_of_mem _ mem)) rest'
      exact ⟨by rw [same, first.unique here first'], .cons (first.steady here) steady⟩

/-- What is asked for does not depend on the order in which resolvers return. -/
theorem InOrder.asks_of (h : InOrder order c d log) (h' : InOrder order' c' d' log')
    (all : (order.map Prod.fst).Perm calls) (all' : (order'.map Prod.fst).Perm calls)
    {r : Nat × LoadKey} (mem : r ∈ order.flatMap Prod.snd) : r ∈ order'.flatMap Prod.snd := by
  obtain ⟨p, among, mem⟩ := List.mem_flatMap.mp mem
  have called : p.1 ∈ calls := all.subset (List.mem_map_of_mem among)
  obtain ⟨p', among', same⟩ := List.mem_map.mp (all'.symm.subset called)
  have asks := h'.asks p' among'
  rw [same] at asks
  refine List.mem_flatMap.mpr ⟨p', among', ?_⟩
  rwa [(h.asks p among).unique (functional _ called) asks]

/-- The order in which resolvers return is seen by their paths. -/
theorem InOrder.unique (nodup : (calls.map path).Nodup) (h : InOrder order c d log)
    (h' : InOrder order' c' d' log') (all : (order.map Prod.fst).Perm calls)
    (all' : (order'.map Prod.fst).Perm calls)
    (same : log'.filterMap LogEntry.return? = log.filterMap LogEntry.return?) :
    order' = order := by
  rw [h.returns, h'.returns] at same
  have injective : ∀ p' ∈ order', ∀ p ∈ order, p'.1.path = p.1.path → p' = p := by
    intro p' among' p among eq
    have called : p.1 ∈ calls := all.subset (List.mem_map_of_mem among)
    have called' : p'.1 ∈ calls := all'.subset (List.mem_map_of_mem among')
    have first : p'.1 = p.1 := List.inj_on_of_nodup_map nodup called' called eq
    have asks := h'.asks p' among'
    rw [first] at asks
    exact Prod.ext first ((h.asks p among).unique (functional _ called) asks)
  exact eq_of_map_eq injective same

end

end Invocation

/-! ## Waves that differ in their batches -/

namespace Wave

/-- Resolvers returned in the same order. -/
def InStep (ws ws' : List (Wave σ)) : Prop := ws'.map returns = ws.map returns

/-- Two waves of which the flushes are cut differently. -/
structure Alike (ordered : Prop) (size size' : Option Nat) (w w' : Wave σ) : Prop where
  run : w'.run = w.run
  depth : w'.depth = w.depth
  graph : w'.graph = w.graph
  tasks : w'.tasks = w.tasks
  /-- The resolvers returned the same. -/
  returned : w'.returned.map Prod.fst = w.returned.map Prod.fst
  flushes : List.Forall₂ (Batch.Recut ordered size size') w.flushes w'.flushes

/-- Waves that differ in their batches alone.  The keys of a flush are in the same order if the
resolvers up to then returned in the same order. -/
inductive AllAlike (size size' : Option Nat) : List (Wave σ) → List (Wave σ) → Prop
  | nil : AllAlike size size' [] []
  | snoc {ws ws' : List (Wave σ)} {w w' : Wave σ} : AllAlike size size' ws ws' →
    Alike (InStep (ws ++ [w]) (ws' ++ [w'])) size size' w w' →
      AllAlike size size' (ws ++ [w]) (ws' ++ [w'])

variable {size size' : Option Nat} {ws ws' : List (Wave σ)} {w w' : Wave σ}

theorem AllAlike.length (h : AllAlike size size' ws ws') : ws'.length = ws.length := by
  induction h with
  | nil => rfl
  | snoc _ _ ih => rw [List.length_append, List.length_append, ih]; rfl

theorem AllAlike.inStep_append (h : AllAlike size size' ws ws') :
    InStep (ws ++ [w]) (ws' ++ [w']) ↔ InStep ws ws' ∧ w'.returns = w.returns := by
  rw [InStep, InStep, List.map_append, List.map_append]
  refine ⟨fun same => ?_, fun ⟨before, last⟩ => ?_⟩
  · obtain ⟨before, last⟩ := List.append_inj same (by rw [List.length_map, List.length_map, h.length])
    exact ⟨before, List.head_eq_of_cons_eq last⟩
  · rw [before, List.map_singleton, List.map_singleton, last]

theorem AllAlike.inStep_of {v v' : Wave σ} (h : AllAlike size size' ws ws')
    (step : InStep (ws ++ [v]) (ws' ++ [v'])) (same : v.returns = w.returns)
    (same' : v'.returns = w'.returns) : InStep (ws ++ [w]) (ws' ++ [w']) := by
  rw [h.inStep_append] at step ⊢
  rwa [same, same'] at step

/-- Resolvers that return in the order of the fields do so in both. -/
theorem AllAlike.inStep_of_punctual {e e' : Engine σ} {caller : Caller}
    (same : ∀ g tasks, e'.prepare caller g tasks = e.prepare caller g tasks)
    (h : AllAlike size size' ws ws') (punctual : ∀ w ∈ ws, w.Punctual e caller)
    (punctual' : ∀ w' ∈ ws', w'.Punctual e' caller) : InStep ws ws' := by
  induction h with
  | nil => rfl
  | @snoc _ _ w w' before wave ih =>
    obtain ⟨earlier, last⟩ := List.forall_mem_append.mp punctual
    obtain ⟨earlier', last'⟩ := List.forall_mem_append.mp punctual'
    refine before.inStep_append.mpr ⟨ih earlier earlier', ?_⟩
    have here := last w (List.mem_singleton.mpr rfl)
    have here' := last' w' (List.mem_singleton.mpr rfl)
    rw [Punctual] at here here'
    rw [here, here', wave.graph, wave.tasks, same]

theorem Alike.imp {ordered ordered' : Prop} (h : w.Alike ordered size size' w')
    (weaker : ordered' → ordered) : w.Alike ordered' size size' w' :=
  { h with flushes := h.flushes.imp fun _ _ recut => { recut with order := fun o => recut.order (weaker o) } }

theorem Alike.flush {ordered : Prop} (h : w.Alike ordered size size' w') {flush flush' : List Batch}
    (recut : Batch.Recut ordered size size' flush flush') (log log' : List LogEntry) :
    Alike ordered size size' { w with flushes := w.flushes ++ [flush], log := log }
      { w' with flushes := w'.flushes ++ [flush'], log := log' } :=
  { h with flushes := List.rel_append h.flushes (.cons recut .nil) }

end Wave

/-! ## Parallel executions -/

namespace Engine

/-- Two executions of an engine, with batches of at most `size` and `size'` keys, stand at the same
landmark. -/
inductive Parallel (e : Engine σ) (size size' : Option Nat) : Moment σ → Moment σ → Prop
  | tasks {past past' : List (Wave σ)} {remaining : List (List Task)} {levels run depth : Nat}
    {g : Graph} {ts : List Task} {st st' : OperationState σ} :
    Wave.AllAlike size size' past past' →
    e.Match size size' (Wave.InStep past past') st.coordinator st'.coordinator →
    Parallel e size size' ⟨past, remaining, .tasks levels run depth g ts, st⟩
      ⟨past', remaining, .tasks levels run depth g ts, st'⟩
  | settling {past past' : List (Wave σ)} {remaining : List (List Task)} {levels : Nat}
    {w w' : Wave σ} {g : Graph} {calls : List (Invocation σ)} {values : List (FieldValue σ)}
    {st st' : OperationState σ} : SteadyAll values →
    Wave.AllAlike size size' past past' →
    w.Alike (Wave.InStep (past ++ [w]) (past' ++ [w'])) size size' w' →
    e.Match size size' (Wave.InStep (past ++ [w]) (past' ++ [w'])) st.coordinator st'.coordinator →
    Parallel e size size' ⟨past, remaining, .settling levels w g calls values, st⟩
      ⟨past', remaining, .settling levels w' g calls values, st'⟩

variable {e : Engine σ} {caller : Caller} {base : Nat} {size size' : Option Nat}
  {a a' b b' : Moment σ}

/-- Both stride on to the same landmark. -/
theorem Parallel.stride (functional : e.Functional) (parallel : e.Parallel size size' a a')
    (h : e.Stride caller base a b) (h' : e.Stride caller base a' b')
    (rests : e.Rests size b.state.coordinator) (rests' : e.Rests size' b'.state.coordinator) :
    e.Parallel size size' b b' := by
  cases parallel with
  | @tasks _ _ _ _ _ _ g tasks _ _ alike loads =>
    cases h with
    | next done =>
      cases h' with
      | next => exact .tasks alike loads
      | resolve some => exact (done.elim (Nat.succ_ne_zero _) some).elim
    | resolve some nodup yields inOrder all =>
      cases h' with
      | next done => exact (done.elim (Nat.succ_ne_zero _) some).elim
      | resolve _ _ yields' inOrder' all' =>
        have resolvers : ∀ i ∈ (e.prepare caller g tasks).2, i.resolver.Functional := fun i mem =>
          (regular_prepare functional g tasks (i, .idle) (List.mem_map_of_mem mem)).resolver
        obtain ⟨rfl, steady⟩ := Invocation.yields_unique resolvers yields yields'
        refine .settling steady alike ⟨rfl, rfl, rfl, rfl, rfl, .nil⟩ ?_
        rw [inOrder.loads, inOrder'.loads]
        refine (loads.imp fun step => (alike.inStep_append.mp step).1).loadAll (fun r => ?_) ?_
        · exact ⟨inOrder'.asks_of resolvers inOrder all' all, inOrder.asks_of resolvers inOrder' all all'⟩
        · intro step
          rw [inOrder.unique resolvers nodup inOrder' all all' (alike.inStep_append.mp step).2]
  | @settling past past' _ _ w w' _ _ values st st' steady alike wave loads =>
    have passed := FieldValue.settleItems_concur (Match.couples functional size size' _) values steady
      loads
    cases h with
    | flush unsettled queued known idle returns =>
      cases h' with
      | flush _ _ known' idle' returns' =>
        rw [passed.same]
        refine .settling passed.good alike (.imp (wave.flush passed.coupled.recut _ _) ?_)
          (.imp (passed.coupled.flushed rests rests' known known' idle idle') ?_)
        all_goals exact fun step => alike.inStep_of step returns returns'
      | complete settled =>
        rw [passed.same, unsettled] at settled
        cases settled
    | complete settled =>
      cases h' with
      | flush unsettled =>
        rw [passed.same, settled] at unsettled
        cases unsettled
      | complete =>
        rw [passed.same, wave.run, wave.depth]
        exact .tasks (.snoc alike wave) passed.coupled

/-- From where an execution is complete there is nowhere to stride. -/
theorem Stride.not_completed {g : Graph} {st : OperationState σ} (h : e.Stride caller base a b)
    (stands : a.Stands (.completed g, st)) : False := by
  cases stands with
  | completed comes rest =>
    cases comes with
    | completed done =>
      cases h with
      | next => cases rest
      | resolve some => exact done.elim (Nat.succ_ne_zero _) some

theorem Parallel.completed {g : Graph} (parallel : e.Parallel size size' a a') :
    a.Stands (.completed g, a.state) ↔ a'.Stands (.completed g, a'.state) := by
  cases parallel with
  | tasks =>
    constructor
    all_goals
      intro stands
      cases stands with
      | completed comes rest =>
        cases comes with
        | completed done => exact .completed (.completed done) rest
  | settling =>
    constructor
    all_goals
      intro stands
      cases stands with
      | completed comes => cases comes

/-- Both come to the same end. -/
theorem Parallel.strides (functional : e.Functional) (parallel : e.Parallel size size' a a')
    (h : e.Strides caller base e.MayAnswer size a b)
    (h' : e.Strides caller base e.MayAnswer size' a' b') {g g' : Graph}
    (stands : b.Stands (.completed g, b.state)) (stands' : b'.Stands (.completed g', b'.state)) :
    e.Parallel size size' b b' := by
  induction h using Relation.ReflTransGen.head_induction_on generalizing a' with
  | refl =>
    rcases Relation.ReflTransGen.cases_head h' with same | ⟨c', next, -⟩
    · exact same ▸ parallel
    · exact (next.1.not_completed (parallel.completed.mp stands)).elim
  | head next _ ih =>
    rcases Relation.ReflTransGen.cases_head h' with same | ⟨c', next', rest⟩
    · subst same
      exact (next.1.not_completed (parallel.completed.mpr stands')).elim
    · exact ih (parallel.stride functional next.1 next'.1 ⟨next.2.1, next.2.2⟩
        ⟨next'.2.1, next'.2.2⟩) rest

/-! ## Another size -/

/-- The engine with another limit for the keys that are fetched together. -/
def capped (e : Engine σ) (size : Option Nat) : Engine σ :=
  { e with settings := { e.settings with maxBatchSize := size } }

theorem prepare_capped (g : Graph) (tasks : List Task) :
    (e.capped size).prepare caller g tasks = e.prepare caller g tasks := by
  induction tasks generalizing g with
  | nil => rfl
  | cons t ts ih => rw [prepare, prepare, ih]; rfl

theorem completeWave_capped (g : Graph) (calls : List (Invocation σ)) (values : List Settled) :
    (e.capped size).completeWave g calls values = e.completeWave g calls values := by
  induction calls generalizing g values with
  | nil => rfl
  | cons i is ih =>
    cases values with
    | nil => rfl
    | cons v vs => rw [completeWave, completeWave, ih]; rfl

theorem Stride.of_capped (h : (e.capped size).Stride caller base a b) : e.Stride caller base a b := by
  cases h with
  | next done => exact .next done
  | resolve some nodup yields inOrder all =>
    rw [prepare_capped] at nodup yields all ⊢
    exact .resolve some nodup yields inOrder all
  | flush unsettled queued known idle returns => exact .flush unsettled queued known idle returns
  | complete settled =>
    rw [completeWave_capped]
    exact .complete settled

theorem answersBy_capped (e : Engine σ) (size : Option Nat) :
    (e.capped size).AnswersBy e.MayAnswer :=
  ⟨fun store found mem => .fetched store found mem, fun key none => .missing key none⟩

theorem Strides.of_capped {A : Answers} (h : (e.capped size).Strides caller base A size a b) :
    e.Strides caller base A size a b :=
  Relation.ReflTransGen.mono (fun _ _ ⟨stride, tracked, neat⟩ =>
    ⟨stride.of_capped, ⟨tracked.names, tracked.answers, tracked.known, tracked.registered⟩, neat⟩) _ _ h

/-- A new coordinator, whatever its size. -/
theorem rests_capped (registered : (e.loaders.map Prod.fst).Nodup) (size : Option Nat) :
    e.Rests size (e.capped size).coordinator where
  tracked :=
    have tracked := Tracked.coordinator (e.capped size) e.MayAnswer
    ⟨tracked.names, tracked.answers, tracked.known, tracked.registered⟩
  neat := .coordinator (e := e.capped size) registered

/-- Two new coordinators. -/
theorem match_capped (registered : (e.loaders.map Prod.fst).Nodup) (size size' : Option Nat)
    (ordered : Prop) :
    e.Match size size' ordered (e.capped size).coordinator (e.capped size').coordinator := by
  have empty (size : Option Nat) := Coordinator.coordinator_empty (e.capped size)
  refine ⟨rests_capped registered size, rests_capped registered size', fun n key => ?_,
    fun n key => ?_, fun _ n => ?_⟩
  · rw [(empty size n).1, (empty size' n).1]
  · rw [(empty size n).2.1, (empty size' n).2.1]
  · rw [(empty size n).1, (empty size' n).1, (empty size n).2.1, (empty size' n).2.1]
    exact ⟨rfl, rfl⟩

/-- A request was executed to its end: steps lead from its root fields to the moment `m`, whose waves
did what the log says. -/
structure Traces (e : Engine σ) (r : Request) (caller : Caller) (st₀ : OperationState σ)
    (log : List LogEntry) (g : Graph) (m : Moment σ) : Prop where
  reached : ∃ rootType, e.schema.root? r.kind = some rootType ∧
    e.Reaches caller .free 0 (.initial .new (runs r.kind rootType r.fields) st₀) m
  stands : m.Stands (.completed g, m.state)
  log : m.log = log
  disciplined : m.Disciplined

/-- Where no resolver has a delay, the resolvers of all waves have returned in turn. -/
theorem Traces.punctual {r : Request} {st₀ : OperationState σ} {log : List LogEntry} {g : Graph}
    (traces : e.Traces r caller st₀ log g a) (prompt : e.Prompt) :
    ∀ w ∈ a.waves, w.Punctual e caller := by
  obtain ⟨_, -, reached⟩ := traces.reached
  have punctual : a.Punctual e caller :=
    reached.punctual prompt ⟨(fun _ mem => absurd mem List.not_mem_nil), trivial⟩
  have ended := traces.stands
  cases ended with
  | completed comes =>
    cases comes
    intro w mem
    rw [Moment.waves, Point.wave?, Option.toList_none, List.append_nil] at mem
    exact punctual.past w mem

/-- The strides to the end of an execution. -/
theorem traces_capped (registered : (e.loaders.map Prod.fst).Nodup) {r : Request}
    (distinct : (RequestField.whole r.fields).Distinct) {st₀ : OperationState σ}
    {start : Polled σ × OperationState σ} (begins : (e.capped size).Begins r caller 0 st₀ start)
    {log : List LogEntry} {g : Graph} {st : OperationState σ}
    (course : (e.capped size).Course caller .free st₀ start log (.completed g, st)) :
    ∃ rootType m, e.schema.root? r.kind = some rootType ∧
      st₀.coordinator = (e.capped size).coordinator ∧
      (e.capped size).Traces r caller st₀ log g m ∧
      e.Strides caller 0 e.MayAnswer size (.initial .new (runs r.kind rootType r.fields) st₀) m := by
  obtain ⟨g₀, runs₀, m, from_, -, reached, stands, own⟩ := begins.reaches course
  have new := begins.coordinator
  have tracked : ∀ A, (e.capped size).AnswersBy A → Tracked (e.capped size) A [] st₀.coordinator :=
    fun A _ => new ▸ .coordinator (e.capped size) A
  have neat : st₀.coordinator.Neat size [] := new ▸ (rests_capped registered size).neat
  have K := from_.keeps distinct (new ▸ neat.orderly : st₀.coordinator.Orderly)
  have disciplined := (reached.keeps K (tracked _ (answersBy_mayAnswer _))).disciplined
  have ended : m.state = st := stands.state
  subst ended
  obtain ⟨-, stopped | ⟨m₁, strides, onWay⟩⟩ :=
    reached.strides (answersBy_capped e size) K tracked neat
  · cases stands with
    | completed comes => cases comes; exact stopped.elim
  · cases from_ with
    | request root =>
      refine ⟨_, m, root, new, ⟨⟨_, root, reached⟩, stands, own, disciplined⟩, ?_⟩
      have landmark : m₁ = m := by
        cases stands with
        | completed comes => cases comes; cases onWay; rfl
      exact landmark ▸ strides.of_capped

end Engine

/-! ## The contract -/

/-- How many keys may be fetched together does not show in the answers.  Where resolvers depend on their
calls alone, and loaders answer a key alike in every batch, every validated query or mutation is
executed to its end with any two sizes.  If neither execution is cancelled, the answers are equal, the
waves ask for the same keys, and each flush takes the same, in the same order as long as the resolvers
return in the same order, as they do if they have no delays; the number of calls is the one for the
size. -/
theorem batchSize_invisible {e : Engine σ} (functional : e.Functional)
    (registered : (e.loaders.map Prod.fst).Nodup) {document : Document} {name : Option String}
    {supplied : OrderedMap Json} {r : Request}
    (validated : Request.ofDocument e.schema (some e.settings.maxQueryDepth) document name supplied =
      .ok r) (kind : r.kind ≠ .subscription) (caller : Caller) (size size' : Option Nat) :
    (∀ size operation w, ∃ start,
      (e.capped size).Begins r caller 0 ⟨operation, (e.capped size).coordinator, w⟩ start ∧
        (e.capped size).Ends caller start) ∧
    ∀ {st₀ st₀' : OperationState σ} {start start' : Polled σ × OperationState σ}
      {log log' : List LogEntry} {g g' : Graph} {st st' : OperationState σ},
      (e.capped size).Begins r caller 0 st₀ start →
      (e.capped size).Course caller .free st₀ start log (.completed g, st) →
      (e.capped size').Begins r caller 0 st₀' start' →
      (e.capped size').Course caller .free st₀' start' log' (.completed g', st') →
      g'.response = g.response ∧ ∃ m m', (e.capped size).Traces r caller st₀ log g m ∧
        (e.capped size').Traces r caller st₀' log' g' m' ∧
        Wave.AllAlike size size' m.waves m'.waves ∧
        (e.Prompt → Wave.InStep m.waves m'.waves) := by
  have valid := Request.ofDocument_valid validated
  obtain ⟨rootType, root, sound⟩ := valid.root
  constructor
  · intro size operation w
    obtain ⟨rootType', -, checked⟩ := Engine.preflight_of_valid valid
    have begun : (e.capped size).execute r caller ⟨operation, (e.capped size).coordinator, w⟩ =
        .ok ((e.capped size).begin caller .new (Engine.runs r.kind rootType' r.fields)
          ⟨operation, (e.capped size).coordinator, w⟩) := by
      have checked' : (e.capped size).preflight r = .ok rootType' := checked
      rw [Engine.execute, if_neg kind, checked']
    exact ⟨_, .request begun, Engine.begin_ends _ _ _⟩
  · intro st₀ st₀' start start' log log' g g' st st' begins course begins' course'
    obtain ⟨_, m, found, new, traces, strides⟩ :=
      Engine.traces_capped registered sound.distinct begins course
    obtain ⟨_, m', found', new', traces', strides'⟩ :=
      Engine.traces_capped registered sound.distinct begins' course'
    cases found.symm.trans found'
    have parallel : e.Parallel size size' m m' := by
      refine Engine.Parallel.strides functional (.tasks .nil ?_) strides strides' traces.stands
        traces'.stands
      rw [new, new']
      exact Engine.match_capped registered size size' _
    have ended := traces.stands
    have ended' := traces'.stands
    cases parallel with
    | @tasks past past' _ _ _ _ _ _ _ _ alike =>
      cases ended with
      | completed comes =>
        cases comes
        cases ended' with
        | completed comes' =>
          cases comes'
          have waves : Wave.AllAlike size size' _ _ := alike
          rw [← List.append_nil past, ← List.append_nil past'] at waves
          refine ⟨rfl, _, _, traces, traces', waves, fun prompt => ?_⟩
          have same : ∀ g tasks,
              (e.capped size').prepare caller g tasks = (e.capped size).prepare caller g tasks :=
            fun g tasks => by rw [Engine.prepare_capped, Engine.prepare_capped]
          exact waves.inStep_of_punctual same (traces.punctual prompt) (traces'.punctual prompt)
    | settling =>
      cases ended with
      | completed comes => cases comes

/-! ## One key at a time -/

namespace Tens

/-- Every number has its tenfold. -/
def answer : LoadKey → Answer
  | .integer n => .ok (.int (10 * n))
  | .text _ => .ok .null

def loader : Loader Unit :=
  ⟨"tens", 0, fun keys s => (.ok (keys.map fun key => (key, answer key)), s)⟩

/-- Loads 3 and then 5. -/
def left : Resolver Unit :=
  ⟨fun _ => 0, fun _ s => (.ok (.deferred 0 (.integer 3) fun _ s => (.load 0 (.integer 5), s)), s)⟩

/-- Loads 4. -/
def right : Resolver Unit := ⟨fun _ => 0, fun _ s => (.ok (.load 0 (.integer 4)), s)⟩

def engine : Engine Unit :=
  ⟨Siblings.schema, ⟨[(⟨"Query", "left"⟩, .field left), (⟨"Query", "right"⟩, .field right)]⟩,
    [(0, loader)], .default⟩

theorem answerOf_loader (name : String) {keys : List LoadKey} {key : LoadKey} (mem : key ∈ keys)
    (s : Unit) : LoaderState.answerOf name key (loader.fetch keys s).1 = answer key := by
  show LoaderState.answerOf name key (.ok (keys.map fun key => (key, answer key))) = _
  rw [LoaderState.answerOf, List.lookup_graph answer mem]
  rfl

theorem resolver_cases {key : FieldKey} {resolver : Resolver Unit}
    (dispatched : engine.dispatch.resolverFor key = .ok resolver) :
    resolver = left ∨ resolver = right := by
  by_cases first : key = ⟨"Query", "left"⟩
  · subst first
    cases dispatched
    exact .inl rfl
  · by_cases second : key = ⟨"Query", "right"⟩
    · subst second
      cases dispatched
      exact .inr rfl
    · have missing : engine.dispatch.find? key = none := by
        simp [engine, DispatchTable.find?, List.lookup_cons, beq_eq_false_iff_ne.mpr first,
          beq_eq_false_iff_ne.mpr second]
      rw [DispatchTable.resolverFor, missing] at dispatched
      cases dispatched

theorem prompt : engine.Prompt := by
  intro key resolver dispatched call
  rcases resolver_cases dispatched with rfl | rfl <;> rfl

theorem functional : engine.Functional where
  resolvers {key found} dispatched := by
    have alike {α : Type} (a : α) : Alike fun s : Scope Unit => (a, s) :=
      fun s s' new new' => ⟨rfl, by simp [Scope.requests, new, new']⟩
    have load : ∀ n, Steady (.load 0 n : FieldValue Unit) := fun n =>
      .deferred (fun v => alike _) fun v s => .value v
    rcases resolver_cases dispatched with rfl | rfl
    · refine ⟨fun call => alike _, ?_⟩
      rintro call s _ ⟨⟩
      exact .deferred (fun v => alike _) fun v s => load _
    · refine ⟨fun call => alike _, ?_⟩
      rintro call s _ ⟨⟩
      exact load _
  loaders {n found} known {keys keys' key} name store store' mem mem' := by
    obtain rfl : found = loader := by
      cases n with
      | zero =>
        cases known
        rfl
      | succ n => cases known
    rw [answerOf_loader name mem, answerOf_loader name mem']

abbrev begun (size : Option Nat) : OperationState Unit :=
  ⟨0, (engine.capped size).coordinator, .start default ()⟩

/-- The log and the data of an execution. -/
def answer? (size : Option Nat) : Option (List LogEntry × Option Json) :=
  match (engine.capped size).execute Siblings.request Sample.caller (begun size) with
  | .ok (.completed g, st) => some (st.since (begun size), g.data)
  | _ => none

theorem course {size : Option Nat} {log : List LogEntry} {data : Option Json}
    (h : answer? size = some (log, data)) :
    ∃ start g st, (engine.capped size).Begins Siblings.request Sample.caller 0 (begun size) start ∧
      (engine.capped size).Course Sample.caller .free (begun size) start log (.completed g, st) ∧
      g.data = data := by
  unfold answer? at h
  split at h
  · next g st started =>
    obtain ⟨rfl, rfl⟩ := Prod.mk.inj (Option.some.inj h)
    exact ⟨_, g, st, .request started, .start, rfl⟩
  · cases h

/-- The resolvers return at once; then keys are fetched. -/
def logged (batches : List (List LoadKey)) : List LogEntry :=
  [.resolverStarted "Query" "left" [.field "left"], .resolverReturned "Query" "left" [.field "left"],
    .resolverStarted "Query" "right" [.field "right"],
    .resolverReturned "Query" "right" [.field "right"]] ++
  batches.flatMap fun keys => [.fetchStarted "tens" keys, .fetchReturned "tens" keys]

def data : Json := .obj [("left", .int 50), ("right", .int 40)]

/-- Three keys in two flushes take two calls, or three. -/
theorem batchSize_invisible_tens : ∃ g g' m m',
    (engine.capped none).Traces Siblings.request Sample.caller (begun none)
      (logged [[.integer 3, .integer 4], [.integer 5]]) g m ∧
    (engine.capped (some 1)).Traces Siblings.request Sample.caller (begun (some 1))
      (logged [[.integer 3], [.integer 4], [.integer 5]]) g' m' ∧
    Wave.AllAlike none (some 1) m.waves m'.waves ∧ Wave.InStep m.waves m'.waves ∧
    g'.response = g.response ∧ g.data = some data := by
  have whole : answer? none = some (logged [[.integer 3, .integer 4], [.integer 5]], some data) := by
    cbv
  have pieces : answer? (some 1) =
      some (logged [[.integer 3], [.integer 4], [.integer 5]], some data) := by cbv
  obtain ⟨start, g, st, begins, run, same⟩ := course whole
  obtain ⟨start', g', st', begins', run', -⟩ := course pieces
  obtain ⟨-, invisible⟩ := batchSize_invisible functional (by decide) Siblings.validated (by decide)
    Sample.caller none (some 1)
  obtain ⟨equal, m, m', traces, traces', alike, inStep⟩ := invisible begins run begins' run'
  exact ⟨g, g', m, m', traces, traces', alike, inStep prompt, equal, same⟩

end Tens

end GraphQLEngine
