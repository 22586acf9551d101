import GraphQLEngine.Proofs.Loads.Resting
import GraphQLEngine.Proofs.Waves.Discipline

/-!
# Executions stride by stride

Resolvers and fetches may be polled in many ways.  What is left of them at the landmarks of an
execution, before a wave or a run and before a pass over the values of a wave, is the order in which
the resolvers returned.  A stride leads from one landmark to the next; every moment is at a landmark
or on the way from one.

    Engine.Stride e caller base m m'     from a landmark to the next
    Engine.OnWay e caller m₁ m        `m` is on the way from the landmark `m₁`
-/

namespace GraphQLEngine

open FieldValue (itemsSettled abandonItems settleItems)

variable {σ : Type}

/-! ## What resolvers return -/

namespace Invocation

/-- What the resolver may return in a new scope. -/
def Yields (i : Invocation σ) (v : FieldValue σ) : Prop :=
  ∃ s : Scope σ, s.effects = [] ∧ v = i.resolver.value i.call s

/-- The loads that may be asked for when the resolver returns. -/
def Asks (i : Invocation σ) (rs : List (Nat × LoadKey)) : Prop :=
  ∃ s : Scope σ, s.effects = [] ∧
    rs = (i.resolver.run i.call s).2.requests ++ (i.resolver.value i.call s).loads

/-- Resolvers have returned in an order, with the loads that were asked for then. -/
structure InOrder (order : List (Invocation σ × List (Nat × LoadKey))) (c c' : Coordinator)
    (log : List LogEntry) : Prop where
  asks : ∀ p ∈ order, p.1.Asks p.2
  loads : c' = c.loadAll (order.flatMap Prod.snd)
  returns : log.filterMap LogEntry.return? = order.map fun p => p.1.path

theorem InOrder.nil (c : Coordinator) : InOrder (σ := σ) [] c c [] :=
  ⟨fun _ mem => absurd mem List.not_mem_nil, rfl, rfl⟩

theorem InOrder.append {order order' : List (Invocation σ × List (Nat × LoadKey))}
    {c c' c'' : Coordinator} {log log' : List LogEntry} (h : InOrder order c c' log)
    (h' : InOrder order' c' c'' log') : InOrder (order ++ order') c c'' (log ++ log') where
  asks p mem := (List.mem_append.mp mem).elim (h.asks p) (h'.asks p)
  loads := by
    rw [h'.loads, h.loads, List.flatMap_append]
    exact List.foldl_append.symm
  returns := by rw [List.filterMap_append, h.returns, h'.returns, List.map_append]

/-- A poll of a resolver: what it logs, and what it has asked for if it has returned. -/
theorem poll_inOrder (i : Invocation σ) (p : Progress (FieldValue σ)) (st : OperationState σ) :
    ∃ order log, (i.poll p st).2.world.log = st.world.log ++ log ∧
      InOrder order st.coordinator (i.poll p st).2.coordinator log ∧
      order.map Prod.fst ++ Progress.unfinished [(i, (i.poll p st).1)] =
        Progress.unfinished [(i, p)] ∧
      ∀ v, (i.poll p st).1 = .finished v → p = .finished v ∨ i.Yields v := by
  have ran (st₀ : OperationState σ) : ∃ rs,
      (i.run st₀).2.world.log = st₀.world.log ++ [i.returned] ∧
        InOrder [(i, rs)] st₀.coordinator (i.run st₀).2.coordinator [i.returned] ∧
        i.Yields (i.run st₀).1 := by
    refine ⟨(i.resolver.run i.call st₀.scope).2.requests ++ (i.run st₀).1.loads, ?_,
      ⟨fun p mem => ?_, ?_, rfl⟩, st₀.scope, rfl, rfl⟩
    · have := OperationState.log_absorb st₀ (i.run st₀).1 (i.resolver.run i.call st₀.scope).2
      rw [← this]
      rfl
    · rw [List.mem_singleton.mp mem]
      exact ⟨st₀.scope, rfl, rfl⟩
    · rw [List.flatMap_singleton]
      rfl
  cases p with
  | finished v => exact ⟨[], [], (List.append_nil _).symm, .nil _, rfl, fun _ eq => .inl eq⟩
  | waiting deadline =>
    rw [poll]
    split
    · obtain ⟨rs, log, inOrder, yields⟩ := ran st
      refine ⟨_, _, log, inOrder, rfl, fun v eq => ?_⟩
      cases eq
      exact .inr yields
    · refine ⟨[], [], (List.append_nil _).symm, .nil _, rfl, fun _ eq => ?_⟩
      cases eq
  | idle =>
    rw [poll]
    split
    · obtain ⟨rs, log, inOrder, yields⟩ := ran (st.record i.started)
      refine ⟨_, _, log.trans (List.append_assoc _ [i.started] _), ⟨inOrder.asks, inOrder.loads, ?_⟩,
        rfl, fun v eq => ?_⟩
      · exact inOrder.returns
      · cases eq
        exact .inr yields
    · refine ⟨[], [i.started], rfl, ⟨(fun _ mem => absurd mem List.not_mem_nil), rfl, rfl⟩, rfl,
        fun _ eq => ?_⟩
      cases eq

theorem pollAll_inOrder (calls : List (Invocation σ × Progress (FieldValue σ)))
    (st : OperationState σ) :
    ∃ order, InOrder order st.coordinator (pollAll calls st).2.coordinator
        ((pollAll calls st).2.since st) ∧
      (order.map Prod.fst ++ Progress.unfinished (pollAll calls st).1).Perm
        (Progress.unfinished calls) ∧
      ∀ i v, (i, .finished v) ∈ (pollAll calls st).1 → (i, .finished v) ∈ calls ∨ i.Yields v := by
  suffices h : ∃ order log, (pollAll calls st).2.world.log = st.world.log ++ log ∧
      InOrder order st.coordinator (pollAll calls st).2.coordinator log ∧
      (order.map Prod.fst ++ Progress.unfinished (pollAll calls st).1).Perm
        (Progress.unfinished calls) ∧
      ∀ i v, (i, .finished v) ∈ (pollAll calls st).1 →
        (i, .finished v) ∈ calls ∨ i.Yields v by
    obtain ⟨order, log, eq, inOrder, left, yields⟩ := h
    rw [OperationState.since, eq, List.drop_left]
    exact ⟨order, inOrder, left, yields⟩
  induction calls generalizing st with
  | nil =>
    exact ⟨[], [], (List.append_nil _).symm, .nil _, .refl _,
      fun _ _ mem => absurd mem List.not_mem_nil⟩
  | cons c rest ih =>
    obtain ⟨i, p⟩ := c
    obtain ⟨order, log, eq, inOrder, left, yields⟩ := i.poll_inOrder p st
    obtain ⟨order', log', eq', inOrder', left', yields'⟩ := ih (i.poll p st).2
    have split (p : Progress (FieldValue σ)) (rest : List (Invocation σ × Progress (FieldValue σ))) :
        Progress.unfinished ((i, p) :: rest) =
          Progress.unfinished [(i, p)] ++ Progress.unfinished rest := by
      cases p <;> rfl
    refine ⟨order ++ order', log ++ log', ?_, inOrder.append inOrder', ?_, fun j v mem => ?_⟩
    · rw [pollAll, eq', eq, List.append_assoc]
    · rw [pollAll, split, split p, ← left, List.map_append, List.append_assoc, List.append_assoc]
      refine .append_left _ ?_
      rw [← List.append_assoc]
      refine (List.perm_append_comm.append_right _).trans ?_
      rw [List.append_assoc]
      exact left'.append_left _
    · rcases List.mem_cons.mp mem with eq | mem
      · obtain ⟨rfl, finished⟩ := Prod.mk.inj eq
        rcases yields v finished.symm with same | yields
        · exact .inl (same ▸ List.mem_cons_self)
        · exact .inr yields
      · exact (yields' j v mem).imp_left (List.mem_cons_of_mem _)

/-- What all resolvers have returned. -/
theorem yields_results {calls : List (Invocation σ × Progress (FieldValue σ))}
    (yields : ∀ i v, (i, .finished v) ∈ calls → i.Yields v) {values : List (FieldValue σ)}
    (results : Progress.results? calls = some values) :
    List.Forall₂ Yields (calls.map Prod.fst) values := by
  induction calls generalizing values with
  | nil =>
    cases results
    exact .nil
  | cons c rest ih =>
    obtain ⟨i, p⟩ := c
    cases p with
    | finished v =>
      rw [Progress.results?, Option.map_eq_some_iff] at results
      obtain ⟨vs, results, rfl⟩ := results
      exact .cons (yields i v List.mem_cons_self)
        (ih (fun j w mem => yields j w (List.mem_cons_of_mem _ mem)) results)
    | idle | waiting => cases results

end Invocation

open Invocation (Yields InOrder)

/-! ## Landmarks -/

/-- From a landmark of an execution to the next; `base` is the depth beneath which runs begin. -/
inductive Engine.Stride (e : Engine σ) (caller : Caller) (base : Nat) :
    Moment σ → Moment σ → Prop
  /-- The next run begins. -/
  | next {past : List (Wave σ)} {tasks ts : List Task} {remaining : List (List Task)}
    {levels run depth : Nat} {g : Graph} {st : OperationState σ} : levels = 0 ∨ ts = [] →
    Stride e caller base
      ⟨past, tasks :: remaining, .tasks levels run depth g ts, st⟩
      ⟨past, remaining, .tasks (Task.levels tasks) (run + 1) base g tasks, st⟩
  /-- All resolvers of a wave return. -/
  | resolve {past : List (Wave σ)} {remaining : List (List Task)} {tasks : List Task}
    {levels run depth : Nat} {g : Graph} {values : List (FieldValue σ)}
    {order : List (Invocation σ × List (Nat × LoadKey))} {log : List LogEntry}
    {st st' : OperationState σ} : tasks ≠ [] →
    ((e.prepare caller g tasks).2.map Invocation.path).Nodup →
    List.Forall₂ Yields (e.prepare caller g tasks).2 values →
    InOrder order st.coordinator st'.coordinator log →
    (order.map Prod.fst).Perm (e.prepare caller g tasks).2 →
    Stride e caller base
      ⟨past, remaining, .tasks (levels + 1) run depth g tasks, st⟩
      ⟨past, remaining,
        .settling levels
          ⟨run, depth + 1, g, tasks, st.coordinator, some (values, st'.coordinator), [], log⟩
          (e.prepare caller g tasks).1 (e.prepare caller g tasks).2 values, st'⟩
  /-- A pass is made over the values, and all that is queued is fetched. -/
  | flush {past : List (Wave σ)} {remaining : List (List Task)} {levels : Nat} {w : Wave σ}
    {g : Graph} {calls : List (Invocation σ)} {values : List (FieldValue σ)}
    {log : List LogEntry} {st st' : OperationState σ} :
    itemsSettled (settleItems values st).1 = false →
    (settleItems values st).2.coordinator.hasQueued = true →
    (∀ n, st'.coordinator.known n = (settleItems values st).2.coordinator.known n) →
    (∀ n, st'.coordinator.queued n = []) →
    log.filterMap LogEntry.return? = w.returns →
    Stride e caller base
      ⟨past, remaining, .settling levels w g calls values, st⟩
      ⟨past, remaining,
        .settling levels
          { w with
            flushes := w.flushes ++ [(settleItems values st).2.coordinator.takeBatches.1]
            log := log }
          g calls (settleItems values st).1, st'⟩
  /-- A pass is made over the values, which settles them. -/
  | complete {past : List (Wave σ)} {remaining : List (List Task)} {levels : Nat} {w : Wave σ}
    {g : Graph} {calls : List (Invocation σ)} {values : List (FieldValue σ)}
    {st : OperationState σ} : itemsSettled (settleItems values st).1 = true →
    Stride e caller base
      ⟨past, remaining, .settling levels w g calls values, st⟩
      ⟨past ++ [w], remaining,
        .tasks levels w.run w.depth
          (e.completeWave g calls (abandonItems (settleItems values st).1)).1
          (e.completeWave g calls (abandonItems (settleItems values st).1)).2,
        (settleItems values st).2⟩

/-- On the way from a landmark. -/
inductive Engine.OnWay (e : Engine σ) (caller : Caller) : Moment σ → Moment σ → Prop
  | tasks {past : List (Wave σ)} {remaining : List (List Task)} {levels run depth : Nat}
    {g : Graph} {ts : List Task} {st : OperationState σ} :
    OnWay e caller ⟨past, remaining, .tasks levels run depth g ts, st⟩
      ⟨past, remaining, .tasks levels run depth g ts, st⟩
  | resolving {past : List (Wave σ)} {remaining : List (List Task)} {tasks : List Task}
    {levels run depth : Nat} {g : Graph} {calls : List (Invocation σ × Progress (FieldValue σ))}
    {order : List (Invocation σ × List (Nat × LoadKey))} {log : List LogEntry}
    {st st' : OperationState σ} : tasks ≠ [] →
    calls.map Prod.fst = (e.prepare caller g tasks).2 →
    (∀ i v, (i, .finished v) ∈ calls → i.Yields v) →
    InOrder order st.coordinator st'.coordinator log →
    (order.map Prod.fst ++ Progress.unfinished calls).Perm (calls.map Prod.fst) →
    OnWay e caller ⟨past, remaining, .tasks (levels + 1) run depth g tasks, st⟩
      ⟨past, remaining,
        .resolving levels ⟨run, depth + 1, g, tasks, st.coordinator, none, [], log⟩
          (e.prepare caller g tasks).1 calls, st'⟩
  | settling {past : List (Wave σ)} {remaining : List (List Task)} {levels : Nat} {w : Wave σ}
    {g : Graph} {calls : List (Invocation σ)} {values : List (FieldValue σ)}
    {st : OperationState σ} :
    OnWay e caller ⟨past, remaining, .settling levels w g calls values, st⟩
      ⟨past, remaining, .settling levels w g calls values, st⟩
  | passed {past : List (Wave σ)} {remaining : List (List Task)} {levels : Nat} {w : Wave σ}
    {g : Graph} {calls : List (Invocation σ)} {values : List (FieldValue σ)}
    {st : OperationState σ} :
    OnWay e caller ⟨past, remaining, .settling levels w g calls values, st⟩
      ⟨past, remaining, .passed levels w g calls (settleItems values st).1,
        (settleItems values st).2⟩
  | fetching {past : List (Wave σ)} {remaining : List (List Task)} {levels : Nat} {w : Wave σ}
    {g : Graph} {calls : List (Invocation σ)} {values : List (FieldValue σ)}
    {batches : List (Batch × Progress Unit)} {log : List LogEntry} {st st' : OperationState σ} :
    itemsSettled (settleItems values st).1 = false →
    (settleItems values st).2.coordinator.hasQueued = true →
    (∀ n, st'.coordinator.known n = (settleItems values st).2.coordinator.known n) →
    (∀ n, st'.coordinator.queued n = []) →
    log.filterMap LogEntry.return? = w.returns →
    OnWay e caller ⟨past, remaining, .settling levels w g calls values, st⟩
      ⟨past, remaining,
        .fetching levels
          { w with
            flushes := w.flushes ++ [(settleItems values st).2.coordinator.takeBatches.1]
            log := log }
          g calls (settleItems values st).1 batches, st'⟩

/-- The operation was cancelled. -/
def Point.IsStopped : Point σ → Prop
  | .stopped .. => True
  | _ => False

/-- The batches that are being fetched. -/
def Point.flying : Point σ → List Batch
  | .fetching _ _ _ _ _ batches => inFlight batches
  | _ => []

namespace Engine

variable {e : Engine σ} {caller : Caller} {rules : Rules σ} {base : Nat} {size : Option Nat}
  {A : Answers} {m₀ m₁ m m' : Moment σ}

/-! ## Neatness -/

theorem Step.neat (h : e.Step caller rules base m m')
    (neat : m.state.coordinator.Neat size m.point.flying) :
    m'.state.coordinator.Neat size m'.point.flying := by
  cases h with
  | next => exact neat
  | prepare => exact neat
  | @resolve _ _ _ _ _ calls st =>
    obtain ⟨rs, eq⟩ := OperationState.loads_resolves.pollAll calls st
    show (Invocation.pollAll calls st).2.coordinator.Neat size []
    rw [eq]
    exact Coordinator.Neat.loadAll neat rs
  | collect => exact neat
  | @pass _ _ _ _ _ _ values st =>
    obtain ⟨rs, eq⟩ := OperationState.loads_resolves.settleItems values st
    show (settleItems values st).2.coordinator.Neat size []
    rw [eq]
    exact Coordinator.Neat.loadAll neat rs
  | take =>
    rw [Point.flying, inFlight_idle]
    exact Coordinator.Neat.takeBatches neat
  | @fetch _ _ _ _ _ _ _ batches st =>
    obtain ⟨calls, eq, flew⟩ := finishes_pollBatches (e := e) batches st
    show (e.pollBatches batches st).2.coordinator.Neat size (inFlight (e.pollBatches batches st).1)
    rw [eq]
    exact (Coordinator.Neat.finishAll neat flew).fewer (inFlight_pollBatches batches st)
  | fetched finished =>
    rw [Point.flying, inFlight_of_results finished] at neat
    exact neat
  | complete => exact neat
  | stop => exact neat.fewer fun _ mem => absurd mem List.not_mem_nil

theorem Pause.neat (h : Pause rules m m') (neat : m.state.coordinator.Neat size m.point.flying) :
    m'.state.coordinator.Neat size m'.point.flying := by
  cases h with
  | resolving _ between => exact rules.loads between ▸ neat
  | fetching rescheduled between =>
    rw [Point.flying, inFlight_eq, rescheduled.unfinished, ← inFlight_eq, rules.loads between]
    exact neat

/-! ## Steps -/

theorem OnWay.step (under : e.OnWay caller m₁ m) (h : e.Step caller rules base m m')
    (K : m.Keeps base) (waits : m.point.Awaits e A m.state) :
    m'.point.IsStopped ∨ e.OnWay caller m₁ m' ∨
      e.Stride caller base m₁ m' ∧ e.OnWay caller m' m' := by
  cases h with
  | next done =>
    cases under
    exact .inr (.inr ⟨.next done, .tasks⟩)
  | prepare some =>
    cases under
    refine .inr (.inl (.resolving some ?_ (fun i v mem => ?_) (.nil _) ?_))
    · rw [List.map_map]
      exact List.map_id _
    · obtain ⟨j, -, eq⟩ := List.mem_map.mp mem
      cases eq
    · rw [Progress.unfinished_map_idle, List.map_map]
      exact .of_eq (List.map_id _).symm
  | @resolve _ _ _ _ _ calls st =>
    cases under with
    | resolving some same yields inOrder left =>
      obtain ⟨order', inOrder', left', yields'⟩ := Invocation.pollAll_inOrder calls st
      refine .inr (.inl (.resolving some ?_ (fun i v mem => ?_) (inOrder.append inOrder') ?_))
      · rw [Invocation.fst_pollAll, same]
      · exact (yields' i v mem).elim (yields i v) id
      · rw [Invocation.fst_pollAll, List.map_append, List.append_assoc]
        exact (left'.append_left _).trans left
  | @collect _ _ _ _ _ calls _ _ results =>
    cases under with
    | resolving some same yields inOrder left =>
      have finished : (Progress.results? calls).isSome := by rw [results]; rfl
      rw [Progress.unfinished_of_results finished, List.append_nil] at left
      have nodup := K.point.1.prepared.nodup
      have all := Invocation.yields_results yields results
      rw [same] at left nodup all ⊢
      exact .inr (.inr ⟨.resolve some nodup all inOrder left, .settling⟩)
  | pass =>
    cases under
    exact .inr (.inl .passed)
  | take unsettled queued =>
    cases under
    refine .inr (.inl (.fetching unsettled queued (fun n => ?_) (fun n => ?_) rfl))
    · exact Coordinator.known_takeBatches _ n
    · exact Coordinator.queued_takeBatches _ n
  | @fetch _ _ _ _ _ _ _ batches st =>
    cases under with
    | fetching unsettled queued known idle returns =>
      obtain ⟨calls, eq, -⟩ := finishes_pollBatches (e := e) batches st
      refine .inr (.inl (.fetching unsettled queued (fun n => ?_) (fun n => ?_) ?_))
      · rw [eq, Coordinator.known_finishAll, known]
      · rw [eq, Coordinator.queued_finishAll, idle]
      · rw [List.filterMap_append, returns,
          (LogEntry.calls_of_isFetch (since_pollBatches batches st)).2, List.append_nil]
  | fetched =>
    cases under with
    | fetching unsettled queued known idle returns =>
      exact .inr (.inr ⟨.flush unsettled queued known idle returns, .settling⟩)
  | complete done =>
    have settled := settled_of_complete waits done
    cases under
    exact .inr (.inr ⟨.complete settled, .tasks⟩)
  | stop => exact .inl trivial

theorem OnWay.pause (under : e.OnWay caller m₁ m) (h : Pause rules m m') :
    e.OnWay caller m₁ m' := by
  cases h with
  | resolving rescheduled between =>
    have loads := rules.loads between
    cases under with
    | resolving some same yields inOrder left =>
      rw [← loads] at inOrder
      refine .resolving some ?_ (fun i v mem => yields i v (rescheduled.finished mem)) inOrder ?_
      · rw [rescheduled.map_fst, same]
      · rw [rescheduled.unfinished, rescheduled.map_fst]
        exact left
  | fetching rescheduled between =>
    have loads := rules.loads between
    cases under with
    | fetching unsettled queued known idle returns =>
      exact .fetching unsettled queued (fun n => loads ▸ known n) (fun n => loads ▸ idle n) returns

/-- Strides between landmarks at which the coordinator keeps to what it knows. -/
def Strides (e : Engine σ) (caller : Caller) (base : Nat) (A : Answers) (size : Option Nat) :
    Moment σ → Moment σ → Prop :=
  Relation.ReflTransGen fun m m' => e.Stride caller base m m' ∧
    Tracked e A [] m'.state.coordinator ∧ m'.state.coordinator.Neat size []

/-- Wherever an execution has come to, strides from its beginning lead to the last landmark. -/
theorem Reaches.strides (by_e : e.AnswersBy A) {g : Graph} {runs : List (List Task)}
    {st₀ : OperationState σ}
    (reached : e.Reaches caller rules base (.initial g runs st₀) m)
    (K : (Moment.initial g runs st₀).Keeps base)
    (tracked : ∀ A, e.AnswersBy A → Tracked e A [] st₀.coordinator)
    (neat : st₀.coordinator.Neat size []) :
    m.state.coordinator.Neat size m.point.flying ∧ (m.point.IsStopped ∨
      ∃ m₁, e.Strides caller base A size (.initial g runs st₀) m₁ ∧ e.OnWay caller m₁ m) := by
  induction reached with
  | refl => exact ⟨neat, .inr ⟨_, .refl, .tasks⟩⟩
  | @tail m m' before h ih =>
    obtain ⟨neat, stopped | ⟨m₁, strides, under⟩⟩ := ih
    · rcases h with step | pause
      · refine ⟨step.neat neat, .inl ?_⟩
        cases step with
        | stop => exact trivial
        | _ => exact stopped.elim
      · refine ⟨pause.neat neat, .inl ?_⟩
        cases pause <;> exact stopped.elim
    · rcases h with step | pause
      · have neat' := step.neat neat
        have waits := Reaches.awaits by_e before (tracked A by_e)
        have kept := Reaches.keeps before K (tracked _ e.answersBy_mayAnswer)
        refine ⟨neat', ?_⟩
        rcases under.step step kept waits with stopped | under' | ⟨stride, landmark⟩
        · exact .inl stopped
        · exact .inr ⟨m₁, strides, under'⟩
        · have waits' := step.awaits by_e waits
          refine .inr ⟨m', strides.tail ⟨stride, ?_⟩, landmark⟩
          cases landmark with
          | tasks => exact ⟨waits', neat'⟩
          | settling => exact ⟨waits'.tracked, neat'⟩
      · exact ⟨pause.neat neat, .inr ⟨m₁, strides, under.pause pause⟩⟩

end Engine

end GraphQLEngine
