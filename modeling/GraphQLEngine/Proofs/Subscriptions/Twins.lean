import GraphQLEngine.Engine.Subscribe
import GraphQLEngine.Proofs.Graph.Endings
import GraphQLEngine.Proofs.Loads.Functional
import GraphQLEngine.Proofs.Waves.Steps
import GraphQLEngine.Proofs.Waves.Tasks

/-!
# Executions in other worlds

Where resolvers depend on their calls alone, and loaders answer a key alike in every batch, an
execution does not see the world around it.  Let it be polled in one world, where others are at
work, and at the same points of the clock in another one: as long as it is not cancelled it comes to
the same, asks for the same loads and logs the same.

    Twin o o' st st'  →  (poll caller x st).1 = stopped _ _  ∨
      (poll caller x st').1 = (poll caller x st).1 ∧
        Twin o o' (poll caller x st).2 (poll caller x st').2
-/

namespace GraphQLEngine

variable {σ : Type}

/-! ## Two worlds -/

namespace OperationState

/-- Nothing cancels the operation. -/
structure Undisturbed (st : OperationState σ) : Prop where
  unset : st.world.signals.reason? st.operation = none
  notLatest : st.world.latest ≠ st.operation

/-- An operation at work on the same in two worlds, in the second of which nothing cancels it, since
two earlier states. -/
structure Twin (o o' st st' : OperationState σ) : Prop where
  coordinator : st'.coordinator = st.coordinator
  clock : st'.world.clock = st.world.clock
  goes : o.Goes st
  log : st'.world.log = o'.world.log ++ st.since o
  operation : st'.operation = o'.operation
  undisturbed : st'.Undisturbed

variable {o o' st st' : OperationState σ}

/-- Operations that begin at one point of the clock. -/
theorem Twin.start (coordinator : o'.coordinator = o.coordinator)
    (clock : o'.world.clock = o.world.clock) (undisturbed : o'.Undisturbed) : Twin o o' o o' where
  coordinator := coordinator
  clock := clock
  goes := List.prefix_refl _
  log := by rw [since, List.drop_length, List.append_nil]
  operation := rfl
  undisturbed := undisturbed

theorem Undisturbed.absorb (h : st.Undisturbed) (v : FieldValue σ) (s : Scope σ) :
    (st.absorb v s).Undisturbed := by
  obtain ⟨unset, notLatest⟩ := st.world.absorb_induction
    (P := fun w => w.signals.reason? st.operation = none ∧ w.latest ≠ st.operation) s
    ⟨h.unset, h.notLatest⟩ fun {w} effect kept => by
      cases effect with
      | cancelLatest reason =>
        exact ⟨(Signals.reason_cancel_of_ne _ reason (Ne.symm kept.2)).trans kept.1, kept.2⟩
      | publish | load => exact kept
  exact ⟨unset, notLatest⟩

/-- Twins go on as twins by what leaves the logs and the clocks alone. -/
theorem Twin.quietly (t : Twin o o' st st') {next next' : OperationState σ}
    (coordinator : next'.coordinator = next.coordinator)
    (clock : next.world.clock = st.world.clock) (clock' : next'.world.clock = st'.world.clock)
    (log : next.world.log = st.world.log) (log' : next'.world.log = st'.world.log)
    (operation : next'.operation = st'.operation) (undisturbed : next'.Undisturbed) :
    Twin o o' next next' where
  coordinator := coordinator
  clock := clock'.trans (t.clock.trans clock.symm)
  goes := by rw [Goes, log]; exact t.goes
  log := by rw [log', t.log, since, since, log]
  operation := operation.trans t.operation
  undisturbed := undisturbed

theorem Twin.absorb (t : Twin o o' st st') (v : FieldValue σ) {s s' : Scope σ}
    (same : s'.requests = s.requests) : Twin o o' (st.absorb v s) (st'.absorb v s') := by
  refine t.quietly ?_ (World.clock_absorb _ _) (World.clock_absorb _ _) (log_absorb _ _ _)
    (log_absorb _ _ _) rfl (t.undisturbed.absorb v s')
  show st'.coordinator.loadAll _ = st.coordinator.loadAll _
  rw [t.coordinator, same]

theorem since_record {st : OperationState σ} (goes : o.Goes st) (entry : LogEntry) :
    (st.record entry).since o = st.since o ++ [entry] :=
  List.drop_append_of_le_length (goes.length_le)

theorem Twin.record (t : Twin o o' st st') (entry : LogEntry) :
    Twin o o' (st.record entry) (st'.record entry) where
  coordinator := t.coordinator
  clock := t.clock
  goes := t.goes.trans (goes_record st entry)
  log := by
    rw [since_record t.goes, ← List.append_assoc, ← t.log]
    rfl
  operation := t.operation
  undisturbed := ⟨t.undisturbed.unset, t.undisturbed.notLatest⟩

/-- Twins find the same answers. -/
theorem twins_couple (o o' : OperationState σ) : Couples (Twin o o') where
  answer t n key := by rw [t.coordinator]
  absorb t v _ _ same := t.absorb v same

/-- Two results that are the same, with twins for the states. -/
abbrev Agree {α : Type} (o o' : OperationState σ) (good : α → Prop)
    (r r' : α × OperationState σ) : Prop :=
  Concur (Twin o o') good r r'

end OperationState

open OperationState (Twin Agree twins_couple)

section

variable {o o' st st' : OperationState σ}

/-! ## Fetching -/

namespace Engine

variable {e : Engine σ}

theorem finish_congr (c : Coordinator) (b : Batch) {r r' : Fetched}
    (same : ∀ name, ∀ key ∈ b.keys,
      LoaderState.answerOf name key r' = LoaderState.answerOf name key r) :
    c.finish b r' = c.finish b r := by
  have each : (fun l : LoaderState => l.finish b.keys r') = (·.finish b.keys r) := by
    funext l
    have answers : (b.keys.map fun key => (key, LoaderState.answerOf l.name key r')) =
        b.keys.map fun key => (key, LoaderState.answerOf l.name key r) :=
      List.map_congr_left fun key mem => congrArg (key, ·) (same l.name key mem)
    simp only [LoaderState.finish, answers]
  rw [Coordinator.finish, Coordinator.finish, each]

/-- A batch brings the same answers to both. -/
theorem twin_runBatch (functional : e.Functional) (b : Batch) (t : Twin o o' st st') :
    Twin o o' (e.runBatch b st) (e.runBatch b st') := by
  unfold runBatch
  split
  · exact t
  · next loader found =>
    have answers : st'.coordinator.finish b (loader.fetch b.keys st'.world.store).1 =
        st.coordinator.finish b (loader.fetch b.keys st.world.store).1 := by
      rw [t.coordinator]
      exact finish_congr _ b fun name key mem =>
        functional.loaders found name st.world.store st'.world.store mem mem
    have fetched : Twin o o'
        { st with
          coordinator := st.coordinator.finish b (loader.fetch b.keys st.world.store).1
          world := { st.world with store := (loader.fetch b.keys st.world.store).2 } }
        { st' with
          coordinator := st'.coordinator.finish b (loader.fetch b.keys st'.world.store).1
          world := { st'.world with store := (loader.fetch b.keys st'.world.store).2 } } :=
      t.quietly answers rfl rfl rfl rfl rfl ⟨t.undisturbed.unset, t.undisturbed.notLatest⟩
    exact fetched.record (.fetchReturned b.name b.keys)

theorem pollBatch_agree (functional : e.Functional) (b : Batch) (p : Progress Unit)
    (t : Twin o o' st st') :
    Agree o o' (fun _ => True) (e.pollBatch b p st) (e.pollBatch b p st') := by
  unfold pollBatch
  split
  · exact ⟨rfl, trivial, t⟩
  · rw [t.clock]
    split
    · exact ⟨rfl, trivial, twin_runBatch functional b t⟩
    · exact ⟨rfl, trivial, t⟩
  · have started := t.record (.fetchStarted b.name b.keys)
    simp only
    split
    · exact ⟨rfl, trivial, twin_runBatch functional b started⟩
    · exact ⟨congrArg (fun clock => Progress.waiting (clock + e.batchDelay b)) t.clock, trivial,
        started⟩

theorem pollBatches_agree (functional : e.Functional) (bs : List (Batch × Progress Unit))
    {st st' : OperationState σ} (t : Twin o o' st st') :
    Agree o o' (fun _ => True) (e.pollBatches bs st) (e.pollBatches bs st') := by
  induction bs generalizing st st' with
  | nil => exact ⟨rfl, trivial, t⟩
  | cons bp rest ih =>
    have first := pollBatch_agree functional bp.1 bp.2 t
    have others := ih first.coupled
    refine ⟨?_, trivial, others.coupled⟩
    exact congrArg₂ (fun p ps => (bp.1, p) :: ps) first.same others.same

/-- The batches that are taken and polled are the same. -/
theorem flush_agree (functional : e.Functional) (t : Twin o o' st st') :
    Agree o o' (fun _ => True)
      (e.pollBatches (st.coordinator.takeBatches.1.map (·, .idle))
        { st with coordinator := st.coordinator.takeBatches.2 })
      (e.pollBatches (st'.coordinator.takeBatches.1.map (·, .idle))
        { st' with coordinator := st'.coordinator.takeBatches.2 }) := by
  rw [t.coordinator]
  refine pollBatches_agree functional _ (t.quietly rfl rfl rfl rfl rfl rfl
    ⟨t.undisturbed.unset, t.undisturbed.notLatest⟩)

end Engine

/-! ## Resolving -/

namespace Invocation

/-- A resolver at work that depends on its call alone, and so does what it has returned. -/
structure Regular (c : Invocation σ × Progress (FieldValue σ)) : Prop where
  resolver : c.1.resolver.Functional
  result : ∀ v, c.2 = .finished v → Steady v

theorem run_agree {i : Invocation σ} (functional : i.resolver.Functional)
    (t : Twin o o' st st') : Agree o o' Steady (i.run st) (i.run st') := by
  obtain ⟨value, requests⟩ := functional.alike i.call st.scope st'.scope rfl rfl
  have same : (i.run st').1 = (i.run st).1 := by
    simp only [run, value]
  refine ⟨same, ?_, ?_⟩
  · unfold run
    simp only
    split
    · next v returned => exact functional.steady returned
    · exact .error _
  · have returned := (t.absorb (i.run st).1 requests).record
      (.resolverReturned i.call.typeName i.call.fieldName i.path)
    have second : (i.run st').2 =
        (st'.absorb (i.run st).1 (i.resolver.run i.call st'.scope).2).record
          (.resolverReturned i.call.typeName i.call.fieldName i.path) := by
      rw [← same]
      rfl
    rw [second]
    exact returned

theorem poll_agree {i : Invocation σ} {p : Progress (FieldValue σ)} (regular : Regular (i, p))
    (t : Twin o o' st st') :
    Agree o o' (fun p => Regular (i, p)) (i.poll p st) (i.poll p st') := by
  have finished : ∀ {st st' : OperationState σ}, Twin o o' st st' →
      Agree o o' (fun p => Regular (i, p)) (.finished (i.run st).1, (i.run st).2)
        (.finished (i.run st').1, (i.run st').2) := by
    intro st st' t
    have ran := run_agree regular.resolver t
    refine ⟨congrArg Progress.finished ran.same, ⟨regular.resolver, fun v eq => ?_⟩, ran.coupled⟩
    cases eq
    exact ran.good
  unfold poll
  split
  · exact ⟨rfl, regular, t⟩
  · rw [t.clock]
    split
    · exact finished t
    · exact ⟨rfl, regular, t⟩
  · have started := t.record (.resolverStarted i.call.typeName i.call.fieldName i.path)
    simp only
    split
    · exact finished started
    · refine ⟨?_, ⟨regular.resolver, nofun⟩, started⟩
      exact congrArg (Progress.waiting <| · + _) t.clock

theorem pollAll_agree (calls : List (Invocation σ × Progress (FieldValue σ)))
    (regular : ∀ c ∈ calls, Regular c) {st st' : OperationState σ} (t : Twin o o' st st') :
    Agree o o' (fun calls => ∀ c ∈ calls, Regular c) (pollAll calls st)
      (pollAll calls st') := by
  induction calls generalizing st st' with
  | nil => exact ⟨rfl, regular, t⟩
  | cons c rest ih =>
    have first := poll_agree (regular c List.mem_cons_self) t
    have others := ih (fun c mem => regular c (List.mem_cons_of_mem _ mem)) first.coupled
    refine ⟨?_, ?_, others.coupled⟩
    · exact congrArg₂ (fun p ps => (c.1, p) :: ps) first.same others.same
    · intro c' mem
      rcases List.mem_cons.mp mem with rfl | mem
      · exact first.good
      · exact others.good c' mem

theorem steady_results {calls : List (Invocation σ × Progress (FieldValue σ))}
    (regular : ∀ c ∈ calls, Regular c) {values : List (FieldValue σ)}
    (results : Progress.results? calls = some values) : SteadyAll values := by
  induction calls generalizing values with
  | nil =>
    cases results
    exact .nil
  | cons c rest ih =>
    obtain ⟨i, p⟩ := c
    cases p with
    | finished v =>
      rw [Progress.results?, Option.map_eq_some_iff] at results
      obtain ⟨vs, results, rfl⟩ := results
      have others := ih (fun c mem => regular c (List.mem_cons_of_mem _ mem)) results
      exact .cons ((regular _ List.mem_cons_self).result v rfl) others
    | idle => cases results
    | waiting d => cases results

end Invocation

/-! ## Phases -/

/-- The first of two results has stopped, since the operation is cancelled there, or they agree. -/
def Abreast {α : Type} (o o' : OperationState σ) (stopped good : α → Prop)
    (r r' : α × OperationState σ) : Prop :=
  (stopped r.1 ∧ r.2.isCancelled = true) ∨ Agree o o' good r r'

/-- Settling was not stopped, and the values that wait for fetches depend on these alone. -/
def Engine.Settling.Steady : Engine.Settling σ → Prop
  | .settled _ => True
  | .fetching values _ => SteadyAll values
  | .stopped _ => False

def Engine.Settling.IsStopped : Engine.Settling σ → Prop
  | .stopped _ => True
  | _ => False

def Stage.Steady : Stage σ → Prop
  | .resolving _ calls => ∀ c ∈ calls, Invocation.Regular c
  | .fetching _ _ values _ => SteadyAll values

def RunPhase.Steady : RunPhase σ → Prop
  | .suspended _ stage => stage.Steady
  | .completed _ => True
  | .stopped _ _ => False

def RunPhase.IsStopped : RunPhase σ → Prop
  | .stopped _ _ => True
  | _ => False

def Polled.Steady : Polled σ → Prop
  | .suspended x => x.stage.Steady
  | .completed _ => True
  | .stopped _ _ => False

def Polled.IsStopped : Polled σ → Prop
  | .stopped _ _ => True
  | _ => False

namespace Engine

variable {e : Engine σ} {caller : Caller}

theorem settleRounds_abreast (functional : e.Functional) (values : List (FieldValue σ))
    (steady : SteadyAll values) {st st' : OperationState σ} (t : Twin o o' st st') :
    Abreast o o' Settling.IsStopped Settling.Steady (e.settleRounds values st)
      (e.settleRounds values st') := by
  induction values, st using settleRounds.induct (e := e) generalizing st'
  all_goals
    have passed := FieldValue.settleItems_concur (twins_couple o o') _ steady t
    rw [settleRounds.eq_1 e _ st', settleRounds.eq_1 e]
  case case1 values st values₁ st₁ pass settled =>
    rw [pass] at passed ⊢
    right
    simp only [passed.same, settled, if_true]
    exact ⟨rfl, trivial, passed.coupled⟩
  case case2 values st values₁ st₁ pass unsettled queued reason stop =>
    rw [pass] at passed ⊢
    left
    simp only [unsettled, queued, stop, dif_pos]
    refine ⟨trivial, ?_⟩
    show (st₁.world.signals.reason? st₁.operation).isSome = true
    rw [stop]
    rfl
  case case3 values st values₁ st₁ pass unsettled queued go taken polled finished ih =>
    rw [pass] at passed ⊢
    have fetched := flush_agree functional passed.coupled
    have next := ih passed.good fetched.coupled
    have queued' : (FieldValue.settleItems values st').2.coordinator.hasQueued = true := by
      rw [passed.coupled.coordinator]
      exact queued
    simp only [passed.same, unsettled, queued, queued', go, passed.coupled.undisturbed.unset, dif_pos,
      if_false, Bool.false_eq_true, fetched.same]
    rw [if_pos finished, if_pos finished]
    exact next
  case case4 values st values₁ st₁ pass unsettled queued go taken polled unfinished =>
    rw [pass] at passed ⊢
    have fetched := flush_agree functional passed.coupled
    have queued' : (FieldValue.settleItems values st').2.coordinator.hasQueued = true := by
      rw [passed.coupled.coordinator]
      exact queued
    right
    simp only [passed.same, unsettled, queued, queued', go, passed.coupled.undisturbed.unset, dif_pos,
      if_false, Bool.false_eq_true, fetched.same]
    rw [if_neg unfinished, if_neg unfinished]
    exact ⟨rfl, passed.good, fetched.coupled⟩
  case case5 values st values₁ st₁ pass unsettled idle =>
    rw [pass] at passed ⊢
    right
    simp only [passed.same, unsettled, passed.coupled.coordinator, dif_neg idle]
    exact ⟨rfl, trivial, passed.coupled⟩

/-- Waves that go on alike from twins. -/
def KeepsTwins (o o' : OperationState σ)
    (next : Graph → List Task → OperationState σ → RunPhase σ × OperationState σ) : Prop :=
  ∀ g tasks {st st'}, Twin o o' st st' →
    Abreast o o' RunPhase.IsStopped RunPhase.Steady (next g tasks st) (next g tasks st')

variable {next : Graph → List Task → OperationState σ → RunPhase σ × OperationState σ}

theorem afterSettling_abreast (keeps : KeepsTwins o o' next) (levels : Nat) (g : Graph)
    (calls : List (Invocation σ)) {r r' : Settling σ × OperationState σ}
    (h : Abreast o o' Settling.IsStopped Settling.Steady r r') :
    Abreast o o' RunPhase.IsStopped RunPhase.Steady (e.afterSettling next levels g calls r)
      (e.afterSettling next levels g calls r') := by
  obtain ⟨phase, st⟩ := r
  obtain ⟨phase', st'⟩ := r'
  rcases h with ⟨stopped, cancelled⟩ | ⟨same, good, twin⟩
  · cases phase with
    | stopped => exact .inl ⟨trivial, cancelled⟩
    | settled | fetching => exact stopped.elim
  · cases same
    cases phase with
    | settled values => exact keeps _ _ twin
    | fetching values batches => exact .inr ⟨rfl, good, twin⟩
    | stopped => exact good.elim

theorem afterCalls_abreast (functional : e.Functional) (keeps : KeepsTwins o o' next) (levels : Nat)
    (g : Graph) {r r' : List (Invocation σ × Progress (FieldValue σ)) × OperationState σ}
    (h : Agree o o' (fun calls => ∀ c ∈ calls, Invocation.Regular c) r r') :
    Abreast o o' RunPhase.IsStopped RunPhase.Steady (e.afterCalls next levels g r)
      (e.afterCalls next levels g r') := by
  obtain ⟨calls, st⟩ := r
  obtain ⟨calls', st'⟩ := r'
  obtain ⟨rfl, regular, twin⟩ := h
  unfold afterCalls
  simp only
  split
  · exact .inr ⟨rfl, regular, twin⟩
  · next values results =>
    have steady := Invocation.steady_results regular results
    exact afterSettling_abreast keeps levels g _
      (settleRounds_abreast functional values steady twin)

theorem regular_prepare (functional : e.Functional) (g : Graph) (tasks : List Task) :
    ∀ c ∈ (e.prepare caller g tasks).2.map (·, Progress.idle), Invocation.Regular c := by
  intro c mem
  obtain ⟨i, called, rfl⟩ := List.mem_map.mp mem
  obtain ⟨-, calls, -⟩ := @prepare_calls σ e caller g tasks
  obtain ⟨t, -, -, callsFor⟩ := calls i called
  exact ⟨functional.resolvers callsFor.dispatched, nofun⟩

theorem runWaves_abreast (functional : e.Functional) (levels : Nat) :
    KeepsTwins o o' (e.runWaves caller levels) := by
  induction levels with
  | zero => exact fun g tasks st st' t => .inr ⟨rfl, trivial, t⟩
  | succ levels ih =>
    intro g tasks st st' t
    unfold runWaves
    split
    · exact .inr ⟨rfl, trivial, t⟩
    · rw [t.undisturbed.unset]
      cases go : st.world.signals.reason? st.operation with
      | some reason =>
        refine .inl ⟨trivial, ?_⟩
        exact congrArg Option.isSome go
      | none =>
        exact afterCalls_abreast functional ih levels _ <|
          Invocation.pollAll_agree _ (regular_prepare functional g tasks) t

/-- An execution goes on alike if its run does, and so does what comes after. -/
theorem afterRun_abreast_of {remaining : List (List Task)}
    (after : ∀ g {st st'}, Twin o o' st st' → Abreast o o' Polled.IsStopped Polled.Steady
      (e.afterRun caller remaining (.completed g, st))
      (e.afterRun caller remaining (.completed g, st')))
    {r r' : RunPhase σ × OperationState σ}
    (h : Abreast o o' RunPhase.IsStopped RunPhase.Steady r r') :
    Abreast o o' Polled.IsStopped Polled.Steady (e.afterRun caller remaining r)
      (e.afterRun caller remaining r') := by
  obtain ⟨phase, st⟩ := r
  obtain ⟨phase', st'⟩ := r'
  rcases h with ⟨stopped, cancelled⟩ | ⟨same, good, twin⟩
  · cases phase with
    | stopped =>
      rw [afterRun]
      exact .inl ⟨trivial, cancelled⟩
    | suspended | completed => exact stopped.elim
  · cases same
    cases phase with
    | completed g => exact after g twin
    | suspended g stage =>
      rw [afterRun, afterRun]
      exact .inr ⟨rfl, good, twin⟩
    | stopped => exact good.elim

theorem afterRun_abreast (functional : e.Functional) (remaining : List (List Task))
    {r r' : RunPhase σ × OperationState σ}
    (h : Abreast o o' RunPhase.IsStopped RunPhase.Steady r r') :
    Abreast o o' Polled.IsStopped Polled.Steady (e.afterRun caller remaining r)
      (e.afterRun caller remaining r') := by
  induction remaining generalizing r r' with
  | nil =>
    refine afterRun_abreast_of (fun g st st' t => ?_) h
    rw [afterRun, afterRun]
    exact .inr ⟨rfl, trivial, t⟩
  | cons tasks remaining ih =>
    refine afterRun_abreast_of (fun g st st' t => ?_) h
    rw [afterRun, afterRun]
    exact ih (runWaves_abreast functional _ g tasks t)

/-- A suspended execution goes on alike. -/
theorem poll_abreast (functional : e.Functional) (x : Execution σ) (steady : x.stage.Steady)
    (t : Twin o o' st st') :
    Abreast o o' Polled.IsStopped Polled.Steady (e.poll caller x st) (e.poll caller x st') := by
  rw [poll_eq, poll_eq, t.undisturbed.unset]
  cases go : st.world.signals.reason? st.operation with
  | some reason => exact .inl ⟨trivial, congrArg Option.isSome go⟩
  | none =>
    refine afterRun_abreast functional _ ?_
    have keeps := @runWaves_abreast σ o o' e caller functional
    obtain ⟨g, stage, remaining⟩ := x
    cases stage with
    | resolving levels calls =>
      exact afterCalls_abreast functional (keeps levels) levels g
        (Invocation.pollAll_agree calls steady t)
    | fetching levels calls values batches =>
      have fetched := pollBatches_agree functional batches t
      unfold resume
      simp only [fetched.same]
      split
      · exact afterSettling_abreast (keeps levels) levels g calls
          (settleRounds_abreast functional values steady fetched.coupled)
      · exact .inr ⟨rfl, steady, fetched.coupled⟩

/-- An execution begins alike. -/
theorem begin_abreast (functional : e.Functional) (g : Graph) (runs : List (List Task))
    (t : Twin o o' st st') :
    Abreast o o' Polled.IsStopped Polled.Steady (e.begin caller g runs st)
      (e.begin caller g runs st') :=
  afterRun_abreast functional runs (.inr ⟨rfl, trivial, t⟩)

end Engine

end

end GraphQLEngine
