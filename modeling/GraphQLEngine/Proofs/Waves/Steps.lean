import GraphQLEngine.Proofs.Graph.Endings
import GraphQLEngine.Proofs.Waves.Endurance
import Mathlib

/-!
# Executions step by step

An execution goes through moments.  A moment holds what the waves so far did, the runs that have not
begun, where the wave at work stands, and the state of the operation.  Every step is one of the parts
that the engine is made of: the nodes of a wave are made, its resolvers are polled, a pass is made
over its values, its batches are taken and polled, and its values are completed.

    Engine.Course e caller rules st₀ start log r     polls from `start` on come to `r`
    Engine.Reaches e caller rules base m m'          steps from `m` come to `m'`

Every course is a way through such moments, whose waves did what the log says
(`Engine.Course.reaches`); so what each step keeps holds wherever an operation has come to.
-/

namespace GraphQLEngine

variable {σ : Type}

/-! ## Courses -/

/-- The entries of the log since an earlier state. -/
def OperationState.since (st' st : OperationState σ) : List LogEntry :=
  st'.world.log.drop st.world.log.length

/-- A delay may turn out longer or shorter than it was said to be. -/
inductive Progress.Delayed {β : Type} : Progress β → Progress β → Prop
  | same (p : Progress β) : Delayed p p
  | waiting (deadline deadline' : Nat) : Delayed (.waiting deadline) (.waiting deadline')

/-- The same is at work, with other delays. -/
def Progress.Rescheduled {α β : Type} : List (α × Progress β) → List (α × Progress β) → Prop :=
  List.Forall₂ fun p p' => p'.1 = p.1 ∧ p.2.Delayed p'.2

theorem Progress.Rescheduled.refl {α β : Type} (ps : List (α × Progress β)) :
    Progress.Rescheduled ps ps :=
  List.forall₂_same.mpr fun p _ => ⟨rfl, .same p.2⟩

theorem Progress.Rescheduled.map_fst {α β : Type} {ps ps' : List (α × Progress β)}
    (h : Progress.Rescheduled ps ps') : ps'.map Prod.fst = ps.map Prod.fst := by
  induction h with
  | nil => rfl
  | cons h _ ih => rw [List.map_cons, List.map_cons, h.1, ih]

inductive Stage.Rescheduled : Stage σ → Stage σ → Prop
  | resolving (levels : Nat) {calls calls' : List (Invocation σ × Progress (FieldValue σ))} :
    Progress.Rescheduled calls calls' →
      Rescheduled (.resolving levels calls) (.resolving levels calls')
  | fetching (levels : Nat) (calls : List (Invocation σ)) (values : List (FieldValue σ))
    {batches batches' : List (Batch × Progress Unit)} : Progress.Rescheduled batches batches' →
      Rescheduled (.fetching levels calls values batches) (.fetching levels calls values batches')

theorem Stage.Rescheduled.refl (stage : Stage σ) : stage.Rescheduled stage := by
  cases stage with
  | resolving levels calls => exact .resolving levels (.refl calls)
  | fetching levels calls values batches => exact .fetching levels calls values (.refl batches)

/-- What may happen while an execution is suspended, and how far its resolvers may have come when
they are polled.  The loads of an operation are its own. -/
structure Rules (σ : Type) where
  between : OperationState σ → OperationState σ → Prop
  polled : List (Invocation σ × Progress (FieldValue σ)) → Prop
  loads : ∀ {st st'}, between st st' → st'.coordinator = st.coordinator
  idle : ∀ calls : List (Invocation σ), polled (calls.map (·, .idle))

/-- All but the loads of the operation may change, and its resolvers may return in any order. -/
def Rules.free : Rules σ where
  between st st' := st'.coordinator = st.coordinator
  polled _ := True
  loads h := h
  idle _ := trivial

/-- The resolvers at work may be polled. -/
def Stage.Polls (rules : Rules σ) : Stage σ → Prop
  | .resolving _ calls => rules.polled calls
  | .fetching .. => True

/-- What becomes of an operation, with the entries of the log that are its own. -/
inductive Engine.Course (e : Engine σ) (caller : Caller) (rules : Rules σ) (st₀ : OperationState σ)
    (start : Polled σ × OperationState σ) : List LogEntry → Polled σ × OperationState σ → Prop
  | start : Engine.Course e caller rules st₀ start (start.2.since st₀) start
  | poll {g : Graph} {stage stage' : Stage σ} {remaining : List (List Task)}
    {st st' : OperationState σ} {log : List LogEntry} :
    Engine.Course e caller rules st₀ start log (.suspended ⟨g, stage, remaining⟩, st) →
      stage.Rescheduled stage' → stage'.Polls rules → rules.between st st' →
      Engine.Course e caller rules st₀ start
        (log ++ (e.poll caller ⟨g, stage', remaining⟩ st').2.since st')
        (e.poll caller ⟨g, stage', remaining⟩ st')

/-! ## Moments -/

/-- What a wave did. -/
structure Wave (σ : Type) where
  /-- The number of its run. -/
  run : Nat
  /-- The depth of its fields; the root fields are at depth 1. -/
  depth : Nat
  /-- The graph before the nodes of the wave were made. -/
  graph : Graph
  tasks : List Task
  /-- The loads before the resolvers were started. -/
  before : Coordinator
  /-- What the resolvers returned, and the loads then, once all have. -/
  returned : Option (List (FieldValue σ) × Coordinator)
  /-- The batches of each flush. -/
  flushes : List (List Batch)
  /-- What the resolvers and the fetches did. -/
  log : List LogEntry

/-- A wave that has done nothing. -/
def Wave.new (run depth : Nat) (g : Graph) (tasks : List Task) (before : Coordinator) : Wave σ :=
  ⟨run, depth, g, tasks, before, none, [], []⟩

/-- Where an execution stands, with the number of levels of selections beneath. -/
inductive Point (σ : Type) where
  /-- Before a wave, or after the last one of a run; `depth` is that of the wave before. -/
  | tasks (levels run depth : Nat) (g : Graph) (tasks : List Task)
  | resolving (levels : Nat) (w : Wave σ) (g : Graph)
    (calls : List (Invocation σ × Progress (FieldValue σ)))
  /-- Before a pass over the values. -/
  | settling (levels : Nat) (w : Wave σ) (g : Graph) (calls : List (Invocation σ))
    (values : List (FieldValue σ))
  /-- After a pass over the values. -/
  | passed (levels : Nat) (w : Wave σ) (g : Graph) (calls : List (Invocation σ))
    (values : List (FieldValue σ))
  | fetching (levels : Nat) (w : Wave σ) (g : Graph) (calls : List (Invocation σ))
    (values : List (FieldValue σ)) (batches : List (Batch × Progress Unit))
  | stopped (w : Option (Wave σ)) (g : Graph) (reason : CancelReason)

namespace Point

/-- The wave at work. -/
def wave? : Point σ → Option (Wave σ)
  | .tasks .. => none
  | .resolving _ w .. | .settling _ w .. | .passed _ w .. | .fetching _ w .. => some w
  | .stopped w _ _ => w

def graph : Point σ → Graph
  | .tasks _ _ _ g _ | .resolving _ _ g _ | .settling _ _ g _ _ | .passed _ _ g _ _
  | .fetching _ _ g _ _ _ | .stopped _ g _ => g

end Point

structure Moment (σ : Type) where
  /-- The waves that are over. -/
  past : List (Wave σ)
  remaining : List (List Task)
  point : Point σ
  state : OperationState σ

namespace Moment

def waves (m : Moment σ) : List (Wave σ) := m.past ++ m.point.wave?.toList

/-- What the waves did. -/
def log (m : Moment σ) : List LogEntry := m.waves.flatMap Wave.log

/-- Before the first run. -/
def initial (g : Graph) (runs : List (List Task)) (st : OperationState σ) : Moment σ :=
  ⟨[], runs, .tasks 0 0 0 g [], st⟩

end Moment

/-- A step of an execution, the runs of which begin beneath the depth `base`. -/
inductive Engine.Step (e : Engine σ) (caller : Caller) (rules : Rules σ) (base : Nat) :
    Moment σ → Moment σ → Prop
  /-- The next run begins. -/
  | next {past : List (Wave σ)} {tasks ts : List Task} {remaining : List (List Task)}
    {levels run depth : Nat} {g : Graph} {st : OperationState σ} : levels = 0 ∨ ts = [] →
    Step e caller rules base
      ⟨past, tasks :: remaining, .tasks levels run depth g ts, st⟩
      ⟨past, remaining, .tasks (Task.levels tasks) (run + 1) base g tasks, st⟩
  /-- The nodes of a wave are made. -/
  | prepare {past : List (Wave σ)} {tasks : List Task} {remaining : List (List Task)}
    {levels run depth : Nat} {g : Graph} {st : OperationState σ} : tasks ≠ [] →
    Step e caller rules base
      ⟨past, remaining, .tasks (levels + 1) run depth g tasks, st⟩
      ⟨past, remaining, .resolving levels (.new run (depth + 1) g tasks st.coordinator)
        (e.prepare caller g tasks).1 ((e.prepare caller g tasks).2.map (·, .idle)), st⟩
  | resolve {past : List (Wave σ)} {remaining : List (List Task)} {levels : Nat} {w : Wave σ}
    {g : Graph} {calls : List (Invocation σ × Progress (FieldValue σ))} {st : OperationState σ} :
    rules.polled calls →
    Step e caller rules base
      ⟨past, remaining, .resolving levels w g calls, st⟩
      ⟨past, remaining,
        .resolving levels
          { w with log := w.log ++ (Invocation.pollAll calls st).2.since st }
          g (Invocation.pollAll calls st).1, (Invocation.pollAll calls st).2⟩
  | collect {past : List (Wave σ)} {remaining : List (List Task)} {levels : Nat} {w : Wave σ}
    {g : Graph} {calls : List (Invocation σ × Progress (FieldValue σ))}
    {values : List (FieldValue σ)} {st : OperationState σ} :
    Progress.results? calls = some values →
    Step e caller rules base
      ⟨past, remaining, .resolving levels w g calls, st⟩
      ⟨past, remaining, .settling levels { w with returned := some (values, st.coordinator) } g
        (calls.map Prod.fst) values, st⟩
  | pass {past : List (Wave σ)} {remaining : List (List Task)} {levels : Nat} {w : Wave σ}
    {g : Graph} {calls : List (Invocation σ)} {values : List (FieldValue σ)}
    {st : OperationState σ} :
    Step e caller rules base
      ⟨past, remaining, .settling levels w g calls values, st⟩
      ⟨past, remaining, .passed levels w g calls (FieldValue.settleItems values st).1,
        (FieldValue.settleItems values st).2⟩
  /-- The batches of a flush are taken. -/
  | take {past : List (Wave σ)} {remaining : List (List Task)} {levels : Nat} {w : Wave σ}
    {g : Graph} {calls : List (Invocation σ)} {values : List (FieldValue σ)}
    {st : OperationState σ} :
    FieldValue.itemsSettled values = false → st.coordinator.hasQueued = true →
    Step e caller rules base
      ⟨past, remaining, .passed levels w g calls values, st⟩
      ⟨past, remaining,
        .fetching levels { w with flushes := w.flushes ++ [st.coordinator.takeBatches.1] } g calls
          values (st.coordinator.takeBatches.1.map (·, .idle)),
        { st with coordinator := st.coordinator.takeBatches.2 }⟩
  | fetch {past : List (Wave σ)} {remaining : List (List Task)} {levels : Nat} {w : Wave σ}
    {g : Graph} {calls : List (Invocation σ)} {values : List (FieldValue σ)}
    {batches : List (Batch × Progress Unit)} {st : OperationState σ} :
    Step e caller rules base
      ⟨past, remaining, .fetching levels w g calls values batches, st⟩
      ⟨past, remaining,
        .fetching levels
          { w with log := w.log ++ (e.pollBatches batches st).2.since st }
          g calls values (e.pollBatches batches st).1, (e.pollBatches batches st).2⟩
  | fetched {past : List (Wave σ)} {remaining : List (List Task)} {levels : Nat} {w : Wave σ}
    {g : Graph} {calls : List (Invocation σ)} {values : List (FieldValue σ)}
    {batches : List (Batch × Progress Unit)} {st : OperationState σ} :
    (Progress.results? batches).isSome →
    Step e caller rules base
      ⟨past, remaining, .fetching levels w g calls values batches, st⟩
      ⟨past, remaining, .settling levels w g calls values, st⟩
  | complete {past : List (Wave σ)} {remaining : List (List Task)} {levels : Nat} {w : Wave σ}
    {g : Graph} {calls : List (Invocation σ)} {values : List (FieldValue σ)}
    {st : OperationState σ} :
    FieldValue.itemsSettled values = true ∨ st.coordinator.hasQueued = false →
    Step e caller rules base
      ⟨past, remaining, .passed levels w g calls values, st⟩
      ⟨past ++ [w], remaining,
        .tasks levels w.run w.depth (e.completeWave g calls (FieldValue.abandonItems values)).1
          (e.completeWave g calls (FieldValue.abandonItems values)).2, st⟩
  /-- The operation is cancelled. -/
  | stop {past : List (Wave σ)} {remaining : List (List Task)} {point : Point σ}
    {st : OperationState σ} {reason : CancelReason} :
    Step e caller rules base ⟨past, remaining, point, st⟩
      ⟨past, remaining, .stopped point.wave? point.graph reason, st⟩

/-- Something happens while an execution is suspended. -/
inductive Engine.Pause (rules : Rules σ) : Moment σ → Moment σ → Prop
  | resolving {past : List (Wave σ)} {remaining : List (List Task)} {levels : Nat} {w : Wave σ}
    {g : Graph} {calls calls' : List (Invocation σ × Progress (FieldValue σ))}
    {st st' : OperationState σ} : Progress.Rescheduled calls calls' → rules.between st st' →
    Pause rules ⟨past, remaining, .resolving levels w g calls, st⟩
      ⟨past, remaining, .resolving levels w g calls', st'⟩
  | fetching {past : List (Wave σ)} {remaining : List (List Task)} {levels : Nat} {w : Wave σ}
    {g : Graph} {calls : List (Invocation σ)} {values : List (FieldValue σ)}
    {batches batches' : List (Batch × Progress Unit)} {st st' : OperationState σ} :
    Progress.Rescheduled batches batches' → rules.between st st' →
    Pause rules ⟨past, remaining, .fetching levels w g calls values batches, st⟩
      ⟨past, remaining, .fetching levels w g calls values batches', st'⟩

/-- The steps of one poll. -/
def Engine.Steps (e : Engine σ) (caller : Caller) (rules : Rules σ) (base : Nat) :
    Moment σ → Moment σ → Prop :=
  Relation.ReflTransGen (e.Step caller rules base)

/-- The steps of polls and what happens between them. -/
def Engine.Reaches (e : Engine σ) (caller : Caller) (rules : Rules σ) (base : Nat) :
    Moment σ → Moment σ → Prop :=
  Relation.ReflTransGen fun m m' => e.Step caller rules base m m' ∨ Engine.Pause rules m m'

namespace Engine

variable {R : OperationState σ → OperationState σ → Prop} {e : Engine σ} {caller : Caller}
  {rules : Rules σ} {base : Nat} {m m' : Moment σ}

/-- What endures is kept by each step. -/
theorem Step.endures (h : OperationState.Endures e R) (step : e.Step caller rules base m m') :
    R m.state m'.state := by
  cases step with
  | resolve => exact h.pollAll _ _
  | pass => exact h.settleItems _ _
  | take => exact h.take _
  | fetch => exact h.pollBatches _ _
  | next | prepare | collect | fetched | complete | stop => exact h.refl _

theorem Steps.endures (h : OperationState.Endures e R) (steps : e.Steps caller rules base m m') :
    R m.state m'.state := by
  induction steps with
  | refl => exact h.refl _
  | tail _ step ih => exact h.trans ih (step.endures h)

end Engine

/-! ## Logs -/

namespace OperationState

/-- The log goes on. -/
def Goes (st st' : OperationState σ) : Prop := st.world.log <+: st'.world.log

theorem log_since {st st' : OperationState σ} (h : st.Goes st') :
    st'.world.log = st.world.log ++ st'.since st :=
  (List.prefix_iff_eq_append.mp h).symm

theorem Goes.trans {a b c : OperationState σ} (h : a.Goes b) (h' : b.Goes c) : a.Goes c :=
  List.IsPrefix.trans h h'

theorem goes_record (st : OperationState σ) (entry : LogEntry) : st.Goes (st.record entry) :=
  List.prefix_append _ _

theorem log_absorb (st : OperationState σ) (v : FieldValue σ) (s : Scope σ) :
    (st.absorb v s).world.log = st.world.log :=
  World.absorb_induction (P := fun w => w.log = st.world.log) st.world s rfl
    fun effect kept => by cases effect <;> exact kept

/-- A pass leaves the log as it is. -/
theorem log_settles : Settles fun st st' : OperationState σ => st'.world.log = st.world.log where
  refl _ := rfl
  trans h h' := h'.trans h
  absorb := log_absorb

theorem goes_resolves : Resolves fun st st' : OperationState σ => st.Goes st' where
  refl _ := List.prefix_refl _
  trans := Goes.trans
  absorb st v s := by rw [Goes, log_absorb]
  record := goes_record

theorem goes_endures {e : Engine σ} : Endures e Goes :=
  goes_resolves.endures fun _ _ _ => List.prefix_refl _

end OperationState

open OperationState

namespace Engine

variable {e : Engine σ} {caller : Caller} {rules : Rules σ} {base : Nat} {m m' : Moment σ}

/-- What a step adds to the log is what its waves did. -/
theorem Step.log (h : e.Step caller rules base m m') :
    ∃ new, m'.log = m.log ++ new ∧ m'.state.world.log = m.state.world.log ++ new := by
  have nothing : ∀ {waves : List (Wave σ)} {log : List LogEntry},
      log = m.state.world.log → waves.flatMap Wave.log = m.log →
      ∃ new, waves.flatMap Wave.log = m.log ++ new ∧ log = m.state.world.log ++ new :=
    fun same waves => ⟨[], by rw [waves, List.append_nil], by rw [same, List.append_nil]⟩
  have added : ∀ {past : List (Wave σ)} {w : Wave σ} {new : List LogEntry},
      (past ++ [{ w with log := w.log ++ new }]).flatMap Wave.log =
        (past ++ [w]).flatMap Wave.log ++ new := by simp
  cases h with
  | next => exact nothing rfl rfl
  | prepare => exact nothing rfl (by simp [Moment.log, Moment.waves, Point.wave?, Wave.new])
  | resolve => exact ⟨_, added, log_since (goes_resolves.pollAll _ _)⟩
  | collect => exact nothing rfl (by simp [Moment.log, Moment.waves, Point.wave?])
  | pass => exact nothing (log_settles.settleItems _ _) rfl
  | take => exact nothing rfl (by simp [Moment.log, Moment.waves, Point.wave?])
  | fetch => exact ⟨_, added, log_since (goes_endures.pollBatches _ _)⟩
  | fetched => exact nothing rfl rfl
  | complete => exact nothing rfl (by simp [Moment.log, Moment.waves, Point.wave?])
  | stop => exact nothing rfl rfl

theorem Steps.log (h : e.Steps caller rules base m m') :
    m'.log = m.log ++ m'.state.since m.state := by
  obtain ⟨new, own, all⟩ : ∃ new, m'.log = m.log ++ new ∧
      m'.state.world.log = m.state.world.log ++ new := by
    induction h with
    | refl => exact ⟨[], (List.append_nil _).symm, (List.append_nil _).symm⟩
    | tail _ step ih =>
      obtain ⟨new, own, all⟩ := ih
      obtain ⟨new', own', all'⟩ := step.log
      exact ⟨new ++ new', by rw [own', own, List.append_assoc], by
        rw [all', all, List.append_assoc]⟩
  rw [own, since, all, List.drop_left]

end Engine

/-! ## Polls are made of steps -/

/-- At a moment a run of waves has come to a point. -/
inductive Moment.Comes : Moment σ → RunPhase σ × OperationState σ → Prop
  | completed {past : List (Wave σ)} {ts : List Task} {remaining : List (List Task)}
    {levels run depth : Nat} {g : Graph} {st : OperationState σ} : levels = 0 ∨ ts = [] →
    Comes ⟨past, remaining, .tasks levels run depth g ts, st⟩ (.completed g, st)
  | resolving {past : List (Wave σ)} {remaining : List (List Task)} {levels : Nat} {w : Wave σ}
    {g : Graph} {calls : List (Invocation σ × Progress (FieldValue σ))} {st : OperationState σ} :
    Comes ⟨past, remaining, .resolving levels w g calls, st⟩
      (.suspended g (.resolving levels calls), st)
  | fetching {past : List (Wave σ)} {remaining : List (List Task)} {levels : Nat} {w : Wave σ}
    {g : Graph} {calls : List (Invocation σ)} {values : List (FieldValue σ)}
    {batches : List (Batch × Progress Unit)} {st : OperationState σ} :
    Comes ⟨past, remaining, .fetching levels w g calls values batches, st⟩
      (.suspended g (.fetching levels calls values batches), st)
  | stopped {past : List (Wave σ)} {remaining : List (List Task)} {w : Option (Wave σ)} {g : Graph}
    {reason : CancelReason} {st : OperationState σ} :
    Comes ⟨past, remaining, .stopped w g reason, st⟩ (.stopped g reason, st)

/-- At a moment an execution has come to a point. -/
inductive Moment.Stands : Moment σ → Polled σ × OperationState σ → Prop
  | suspended {m : Moment σ} {g : Graph} {stage : Stage σ} {st : OperationState σ} :
    m.Comes (.suspended g stage, st) → Stands m (.suspended ⟨g, stage, m.remaining⟩, st)
  | completed {m : Moment σ} {g : Graph} {st : OperationState σ} :
    m.Comes (.completed g, st) → m.remaining = [] → Stands m (.completed g, st)
  | stopped {m : Moment σ} {g : Graph} {reason : CancelReason} {st : OperationState σ} :
    m.Comes (.stopped g reason, st) → Stands m (.stopped g reason, st)

theorem Moment.Comes.state {m : Moment σ} {r : RunPhase σ × OperationState σ} (h : m.Comes r) :
    m.state = r.2 := by
  cases h <;> rfl

theorem Moment.Stands.state {m : Moment σ} {r : Polled σ × OperationState σ} (h : m.Stands r) :
    m.state = r.2 := by
  cases h <;> exact Moment.Comes.state ‹_›

namespace Engine

/-- Steps lead to where a run of waves comes to. -/
def Leads (e : Engine σ) (caller : Caller) (rules : Rules σ) (base : Nat) (m : Moment σ)
    (r : RunPhase σ × OperationState σ) : Prop :=
  ∃ m', e.Steps caller rules base m m' ∧ m'.remaining = m.remaining ∧ m'.Comes r

variable {e : Engine σ} {caller : Caller} {rules : Rules σ} {base : Nat} {m m' : Moment σ}

theorem Leads.of_step {r : RunPhase σ × OperationState σ} (h : e.Leads caller rules base m' r)
    (step : e.Step caller rules base m m') (same : m'.remaining = m.remaining) :
    e.Leads caller rules base m r := by
  obtain ⟨m'', steps, remaining, comes⟩ := h
  exact ⟨m'', .head step steps, remaining.trans same, comes⟩

theorem Step.of_pass {past : List (Wave σ)} {remaining : List (List Task)} {levels : Nat}
    {w : Wave σ} {g : Graph} {calls : List (Invocation σ)} {values values' : List (FieldValue σ)}
    {st st' : OperationState σ} (pass : FieldValue.settleItems values st = (values', st')) :
    e.Step caller rules base ⟨past, remaining, .settling levels w g calls values, st⟩
      ⟨past, remaining, .passed levels w g calls values', st'⟩ := by
  have step : e.Step caller rules base ⟨past, remaining, .settling levels w g calls values, st⟩ _ :=
    .pass
  rwa [pass] at step

section

variable {levels : Nat} {past : List (Wave σ)} {remaining : List (List Task)}
  (next_leads : ∀ {past run depth g tasks st}, e.Leads caller rules base
    ⟨past, remaining, .tasks levels run depth g tasks, st⟩ (e.runWaves caller levels g tasks st))

include next_leads in
theorem settling_leads {g : Graph} {calls : List (Invocation σ)} (values : List (FieldValue σ))
    (st : OperationState σ) : ∀ {w : Wave σ},
    e.Leads caller rules base ⟨past, remaining, .settling levels w g calls values, st⟩
      (e.afterSettling (e.runWaves caller levels) levels g calls (e.settleRounds values st)) := by
  induction values, st using settleRounds.induct (e := e) with
  | case1 values st values' st' pass settled =>
    have round : e.settleRounds values st = (.settled (FieldValue.abandonItems values'), st') := by
      rw [settleRounds, pass]
      simp [settled]
    intro w
    rw [round]
    exact .of_step (.of_step next_leads (.complete (.inl settled)) rfl) (.of_pass pass) rfl
  | case2 values st values' st' pass unsettled queued reason stop =>
    have round : e.settleRounds values st = (.stopped reason, st') := by
      rw [settleRounds, pass]
      simp [unsettled, queued, stop]
    intro w
    rw [round]
    have stopped : e.Leads caller rules base
        ⟨past, remaining, .stopped (some w) g reason, st'⟩ (.stopped g reason, st') :=
      ⟨_, .refl, rfl, .stopped⟩
    have passed : e.Leads caller rules base
        ⟨past, remaining, .passed levels w g calls values', st'⟩ (.stopped g reason, st') :=
      stopped.of_step .stop rfl
    exact .of_step passed (.of_pass pass) rfl
  | case3 values st values' st' pass unsettled queued go taken polled finished =>
    rename_i ih
    have round : e.settleRounds values st = e.settleRounds values' polled.2 := by
      rw [settleRounds, pass]
      simp [unsettled, queued, go, polled, taken, finished]
    intro w
    rw [round]
    refine .of_step (.of_step ?_ (.take (by simpa using unsettled) queued) rfl) (.of_pass pass) rfl
    exact .of_step (.of_step ih (.fetched finished) rfl) .fetch rfl
  | case4 values st values' st' pass unsettled queued go taken polled =>
    rename_i unfinished
    have round : e.settleRounds values st = (.fetching values' polled.1, polled.2) := by
      rw [settleRounds, pass]
      simp [unsettled, queued, go, polled, taken, unfinished]
    intro w
    rw [round]
    refine .of_step (.of_step ?_ (.take (by simpa using unsettled) queued) rfl) (.of_pass pass) rfl
    exact .of_step ⟨_, .refl, rfl, .fetching⟩ .fetch rfl
  | case5 values st values' st' pass unsettled idle =>
    have round : e.settleRounds values st = (.settled (FieldValue.abandonItems values'), st') := by
      rw [settleRounds, pass]
      simp [unsettled, idle]
    intro w
    rw [round]
    exact .of_step (.of_step next_leads (.complete (.inr (by simpa using idle))) rfl) (.of_pass pass)
      rfl

include next_leads in
theorem calls_lead {w : Wave σ} {g : Graph}
    {calls : List (Invocation σ × Progress (FieldValue σ))} {st : OperationState σ}
    (polled : rules.polled calls) :
    e.Leads caller rules base ⟨past, remaining, .resolving levels w g calls, st⟩
      (e.afterCalls (e.runWaves caller levels) levels g (Invocation.pollAll calls st)) := by
  refine .of_step ?_ (.resolve polled) rfl
  unfold afterCalls
  split
  · exact ⟨_, .refl, rfl, .resolving⟩
  · next results => exact .of_step (settling_leads next_leads _ _) (.collect results) rfl

end

theorem runWaves_leads (levels : Nat) {past : List (Wave σ)} {remaining : List (List Task)}
    {run depth : Nat} {g : Graph} {tasks : List Task} {st : OperationState σ} :
    e.Leads caller rules base ⟨past, remaining, .tasks levels run depth g tasks, st⟩
      (e.runWaves caller levels g tasks st) := by
  induction levels generalizing past run depth g tasks st with
  | zero => exact ⟨_, .refl, rfl, .completed (.inl rfl)⟩
  | succ levels ih =>
    rw [runWaves]
    split
    · next empty => exact ⟨_, .refl, rfl, .completed (.inr (List.isEmpty_iff.mp empty))⟩
    · next some =>
      split
      · exact .of_step ⟨_, .refl, rfl, .stopped⟩ .stop rfl
      · refine .of_step (calls_lead ih (rules.idle _)) (.prepare ?_) rfl
        simpa using some

theorem resume_leads {past : List (Wave σ)} {remaining : List (List Task)} {point : Point σ}
    {g : Graph} {stage : Stage σ} {st : OperationState σ}
    (comes : Moment.Comes ⟨past, remaining, point, st⟩ (.suspended g stage, st))
    (polls : stage.Polls rules) :
    e.Leads caller rules base ⟨past, remaining, point, st⟩ (e.resume caller g stage st) := by
  cases comes with
  | resolving => exact calls_lead (runWaves_leads _) polls
  | fetching =>
    rw [resume.eq_2]
    split
    · next finished =>
      exact .of_step (.of_step (settling_leads (runWaves_leads _) _ _) (.fetched finished) rfl)
        .fetch rfl
    · exact .of_step ⟨_, .refl, rfl, .fetching⟩ .fetch rfl

/-- Once a run has come to a point, the steps of the runs that remain follow. -/
theorem afterRun_steps (remaining : List (List Task)) {m : Moment σ}
    {r : RunPhase σ × OperationState σ} (same : m.remaining = remaining)
    (h : e.Leads caller rules base m r) :
    ∃ m', e.Steps caller rules base m m' ∧ m'.Stands (e.afterRun caller remaining r) := by
  induction remaining generalizing m r with
  | nil =>
    obtain ⟨m', steps, rest, comes⟩ := h
    rw [same] at rest
    refine ⟨m', steps, ?_⟩
    obtain ⟨phase, st⟩ := r
    cases phase with
    | suspended g stage =>
      rw [afterRun, ← rest]
      exact .suspended comes
    | completed g => exact .completed comes rest
    | stopped g reason => rw [afterRun]; exact .stopped comes
  | cons tasks remaining ih =>
    obtain ⟨m', steps, rest, comes⟩ := h
    rw [same] at rest
    obtain ⟨phase, st⟩ := r
    cases phase with
    | suspended g stage =>
      refine ⟨m', steps, ?_⟩
      rw [afterRun, ← rest]
      exact .suspended comes
    | stopped g reason =>
      refine ⟨m', steps, ?_⟩
      rw [afterRun]
      exact .stopped comes
    | completed g =>
      cases comes with
      | completed done =>
        cases rest
        obtain ⟨m'', later, stands⟩ := ih rfl (runWaves_leads (Task.levels tasks))
        exact ⟨m'', steps.trans (.head (.next done) later), stands⟩

theorem begin_steps (g : Graph) (runs : List (List Task)) (st : OperationState σ) :
    ∃ m, e.Steps caller rules base (.initial g runs st) m ∧
      m.Stands (e.begin caller g runs st) :=
  afterRun_steps runs rfl ⟨_, .refl, rfl, .completed (.inl rfl)⟩

theorem poll_steps {m : Moment σ} {g : Graph} {stage : Stage σ} {st : OperationState σ}
    (comes : m.Comes (.suspended g stage, st)) (polls : stage.Polls rules) :
    ∃ m', e.Steps caller rules base m m' ∧
      m'.Stands (e.poll caller ⟨g, stage, m.remaining⟩ st) := by
  obtain ⟨past, remaining, point, st'⟩ := m
  cases comes.state
  rw [poll_eq]
  split
  · next reason _ =>
    refine ⟨⟨past, remaining, .stopped point.wave? point.graph reason, st⟩, .single .stop,
      .stopped ?_⟩
    cases comes <;> exact .stopped
  · exact afterRun_steps remaining rfl (resume_leads comes polls)

theorem Steps.reaches (h : e.Steps caller rules base m m') : e.Reaches caller rules base m m' :=
  Relation.ReflTransGen.mono (fun _ _ => .inl) _ _ h

/-- A course is followed by steps from a moment at which it starts, and what their waves did is in its
log. -/
theorem Course.follows {m : Moment σ} {st₀ : OperationState σ} {start : Polled σ × OperationState σ}
    {log : List LogEntry} {r : Polled σ × OperationState σ}
    (course : e.Course caller rules st₀ start log r) (stands : m.Stands start) :
    ∃ m', e.Reaches caller rules base m m' ∧ m'.Stands r ∧
      (m.log = start.2.since st₀ → m'.log = log) := by
  induction course with
  | start => exact ⟨m, .refl, stands, id⟩
  | @poll g stage stage' remaining st st' log _ rescheduled polls between ih =>
    obtain ⟨m', reached, stands', own⟩ := ih
    have paused : ∃ m'', Pause rules m' m'' ∧ m''.Comes (.suspended g stage', st') ∧
        m''.remaining = remaining ∧ m''.log = m'.log ∧ m''.state = st' := by
      cases stands' with
      | suspended comes =>
        cases comes with
        | resolving =>
          cases rescheduled with
          | resolving _ rescheduled =>
            exact ⟨_, .resolving rescheduled between, .resolving, rfl, rfl, rfl⟩
        | fetching =>
          cases rescheduled with
          | fetching _ _ _ rescheduled =>
            exact ⟨_, .fetching rescheduled between, .fetching, rfl, rfl, rfl⟩
    obtain ⟨m'', pause, comes, rest, same, state⟩ := paused
    obtain ⟨m₃, steps, stands₃⟩ : ∃ m₃, e.Steps caller rules base m'' m₃ ∧ _ :=
      poll_steps comes polls
    rw [rest] at stands₃
    refine ⟨m₃, (reached.tail (.inr pause)).trans steps.reaches, stands₃, fun began => ?_⟩
    rw [steps.log, same, own began, stands₃.state, state]

/-- Wherever a course has come to, steps from its beginning have come to, and what their waves did
is in its log. -/
theorem Course.reaches {g : Graph} {runs : List (List Task)} {st₀ : OperationState σ}
    {log : List LogEntry} {r : Polled σ × OperationState σ}
    (course : e.Course caller rules st₀ (e.begin caller g runs st₀) log r) :
    ∃ m, e.Reaches caller rules base (.initial g runs st₀) m ∧ m.Stands r ∧ m.log = log := by
  obtain ⟨m₀, steps, stands⟩ := @begin_steps σ e caller rules base g runs st₀
  obtain ⟨m, reached, stands', own⟩ : ∃ m, e.Reaches caller rules base m₀ m ∧ _ :=
    course.follows stands
  refine ⟨m, steps.reaches.trans reached, stands', own ?_⟩
  rw [steps.log, stands.state]
  rfl

end Engine

end GraphQLEngine
