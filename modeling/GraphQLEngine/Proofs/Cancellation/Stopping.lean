import GraphQLEngine.Proofs.Waves.Operations

/-!
# Cancelled operations stop

A signal keeps the first reason that it was given, whoever gives it: a task that sets it, or a timer
that fires.  The signal of an operation stays that of the operation while it is polled.  So an
operation whose signal is set, before it is executed or while it is suspended, does nothing more: it
is stopped at the next poll, whatever has become ready by then, with the graph that it was suspended
with.

    Signals.reason_acts
    OperationState.Meanwhile acts st st'
-/

namespace GraphQLEngine

variable {σ : Type}

/-! ## Signals -/

/-- What tasks do with signals. -/
inductive SignalAct where
  | create
  | cancel (signal : Nat) (reason : CancelReason)
  | schedule (t : Timer)
  /-- The timers fire that are due. -/
  | fire (now : Nat)

namespace Signals

def act (s : Signals) : SignalAct → Signals
  | .create => s.create
  | .cancel n reason => s.cancel n reason
  | .schedule t => s.schedule t
  | .fire now => s.fireDue now

def acts (s : Signals) (as : List SignalAct) : Signals := as.foldl act s

/-- The timers that are due, in the order in which they fire. -/
def due (s : Signals) (now : Nat) : List Timer :=
  (s.timers.filter (·.deadline ≤ now)).mergeSort fun a b => a.deadline ≤ b.deadline

/-- The reasons that timers give to a signal. -/
def ofTimers (n : Nat) (ts : List Timer) : List CancelReason :=
  (ts.filter (·.signal = n)).map (·.reason)

/-- The reasons that an act gives to a signal, oldest first. -/
def given (s : Signals) (n : Nat) : SignalAct → List CancelReason
  | .create | .schedule _ => []
  | .cancel m reason => if m = n then [reason] else []
  | .fire now => ofTimers n (s.due now)

/-- The reasons that acts give to a signal, oldest first. -/
def givenBy (s : Signals) (n : Nat) : List SignalAct → List CancelReason
  | [] => []
  | a :: as => s.given n a ++ (s.act a).givenBy n as

/-- The reasons that a signal had been given and is given by acts, oldest first. -/
def everGiven (s : Signals) (n : Nat) (as : List SignalAct) : List CancelReason :=
  (s.reason? n).toList ++ s.givenBy n as

@[simp] theorem next_cancel (s : Signals) (n : Nat) (reason : CancelReason) :
    (s.cancel n reason).next = s.next := by
  simp [next, cancel]

theorem reason_cancel (s : Signals) {n : Nat} (made : n < s.next) (m : Nat)
    (reason : CancelReason) :
    (s.cancel m reason).reason? n =
      ((s.reason? n).toList ++ if m = n then [reason] else []).head? := by
  by_cases same : m = n
  · subst same
    rw [reason_cancel_self s reason made, if_pos rfl]
    cases s.reason? m <;> rfl
  · rw [reason_cancel_of_ne s reason (Ne.symm same), if_neg same]
    cases s.reason? n <;> rfl

theorem reason_timers (ts : List Timer) (s : Signals) {n : Nat} (made : n < s.next) :
    (ts.foldl (fun s t => s.cancel t.signal t.reason) s).next = s.next ∧
    (ts.foldl (fun s t => s.cancel t.signal t.reason) s).reason? n =
      ((s.reason? n).toList ++ ofTimers n ts).head? := by
  induction ts generalizing s with
  | nil =>
    refine ⟨rfl, ?_⟩
    cases eq : s.reason? n <;> simp [ofTimers, eq]
  | cons t ts ih =>
    obtain ⟨next, reason⟩ := ih (s.cancel t.signal t.reason) (by simpa using made)
    rw [List.foldl_cons]
    refine ⟨next.trans (next_cancel _ _ _), reason.trans ?_⟩
    rw [reason_cancel s made]
    by_cases same : t.signal = n
    · cases s.reason? n <;> simp [ofTimers, same]
    · cases s.reason? n <;> simp [ofTimers, same]

theorem reason_act (s : Signals) {n : Nat} (made : n < s.next) (a : SignalAct) :
    s.next ≤ (s.act a).next ∧
    (s.act a).reason? n = ((s.reason? n).toList ++ s.given n a).head? := by
  cases a with
  | create =>
    have made : n < s.reasons.length := made
    refine ⟨by simp [act, create, next], ?_⟩
    simp [act, create, reason?, given, List.getElem?_append_left made, Option.head?_toList]
  | cancel m reason => exact ⟨(next_cancel _ _ _).ge, reason_cancel s made m reason⟩
  | schedule t => exact ⟨Nat.le_refl _, by simp [act, schedule, reason?, given]⟩
  | fire now =>
    obtain ⟨next, reason⟩ := reason_timers (s.due now)
      { s with timers := s.timers.filter (now < ·.deadline) } made
    exact ⟨next.ge, reason⟩

/-- A signal keeps the first reason that it was given. -/
theorem reason_acts (as : List SignalAct) (s : Signals) {n : Nat} (made : n < s.next) :
    s.next ≤ (s.acts as).next ∧ (s.acts as).reason? n = (s.everGiven n as).head? := by
  induction as generalizing s with
  | nil => exact ⟨Nat.le_refl _, by simp [acts, everGiven, givenBy]⟩
  | cons a as ih =>
    obtain ⟨next, first⟩ := s.reason_act made a
    obtain ⟨nexts, reason⟩ := ih (s.act a) (Nat.lt_of_lt_of_le made next)
    refine ⟨next.trans nexts, reason.trans ?_⟩
    rw [everGiven, everGiven, first, givenBy]
    cases s.reason? n with
    | none => cases s.given n a <;> rfl
    | some => rfl

end Signals

/-! ## The signal of an operation -/

namespace OperationState

/-- While an operation is suspended others may change the world, and act on signals; the loads of the
operation are its own. -/
structure Meanwhile (acts : List SignalAct) (st st' : OperationState σ) : Prop where
  operation : st'.operation = st.operation
  coordinator : st'.coordinator = st.coordinator
  signals : st'.world.signals = st.world.signals.acts acts

/-- The signal of the operation has been made. -/
def HasSignal (st : OperationState σ) : Prop := st.operation < st.world.signals.next

/-- The signal of the operation is the same, among as many. -/
structure SameSignal (st st' : OperationState σ) : Prop where
  operation : st'.operation = st.operation
  next : st'.world.signals.next = st.world.signals.next

theorem SameSignal.hasSignal {st st' : OperationState σ} (h : st.SameSignal st')
    (has : st.HasSignal) : st'.HasSignal := by
  rw [HasSignal, h.operation, h.next]
  exact has

theorem Meanwhile.hasSignal {acts : List SignalAct} {st st' : OperationState σ}
    (h : st.Meanwhile acts st') (has : st.HasSignal) : st'.HasSignal := by
  rw [HasSignal, h.operation, h.signals]
  exact Nat.lt_of_lt_of_le has (Signals.reason_acts acts _ has).1

/-- Who cancels first gives the reason. -/
theorem Meanwhile.reason {acts : List SignalAct} {st st' : OperationState σ}
    (h : st.Meanwhile acts st') (has : st.HasSignal) :
    st'.world.signals.reason? st'.operation =
      (st.world.signals.everGiven st.operation acts).head? := by
  rw [h.operation, h.signals]
  exact (Signals.reason_acts acts _ has).2

theorem sameSignal_absorb (st : OperationState σ) (v : FieldValue σ) (s : Scope σ) :
    st.SameSignal (st.absorb v s) := by
  refine ⟨rfl, st.world.absorb_induction (P := fun w => w.signals.next = st.world.signals.next) s rfl
    fun {w} effect kept => ?_⟩
  cases effect with
  | cancelLatest reason => exact (Signals.next_cancel w.signals _ _).trans kept
  | publish | load => exact kept

theorem sameSignal_resolves : Resolves fun st st' : OperationState σ => st.SameSignal st' where
  refl _ := ⟨rfl, rfl⟩
  trans h h' := ⟨h'.operation.trans h.operation, h'.next.trans h.next⟩
  absorb := sameSignal_absorb
  record _ _ := ⟨rfl, rfl⟩

/-- An operation keeps its signal, whatever its waves do. -/
theorem sameSignal_endures {e : Engine σ} : Endures e fun st st' => st.SameSignal st' :=
  sameSignal_resolves.endures fun _ _ _ => ⟨rfl, rfl⟩

end OperationState

open OperationState

/-- Others act on signals while an operation is suspended, and its resolvers may return in any
order. -/
def Rules.signalled : Rules σ where
  between st st' := ∃ acts, st.Meanwhile acts st'
  polled _ := True
  loads h := h.elim fun _ h => h.coordinator
  idle _ := trivial

namespace Engine

variable {e : Engine σ} {caller : Caller} {base : Nat} {m m' : Moment σ}

theorem Pause.hasSignal (h : Pause .signalled m m') (has : m.state.HasSignal) :
    m'.state.HasSignal := by
  cases h with
  | resolving _ between => exact between.elim fun _ meanwhile => meanwhile.hasSignal has
  | fetching _ between => exact between.elim fun _ meanwhile => meanwhile.hasSignal has

/-- The signal of an operation is never lost. -/
theorem Reaches.hasSignal (reached : e.Reaches caller .signalled base m m')
    (has : m.state.HasSignal) : m'.state.HasSignal := by
  induction reached with
  | refl => exact has
  | tail _ h ih =>
    rcases h with step | pause
    · exact (step.endures sameSignal_endures).hasSignal ih
    · exact pause.hasSignal ih

theorem Course.hasSignal {g : Graph} {runs : List (List Task)} {st₀ : OperationState σ}
    {log : List LogEntry} {p : Polled σ × OperationState σ}
    (course : e.Course caller .signalled st₀ (e.begin caller g runs st₀) log p)
    (has : st₀.HasSignal) : p.2.HasSignal := by
  obtain ⟨m, reached, stands, -⟩ :
      ∃ m, e.Reaches caller .signalled 0 (.initial g runs st₀) m ∧ _ := course.reaches
  exact stands.state ▸ reached.hasSignal has

end Engine

/-! ## Stopping -/

namespace Engine

variable {e : Engine σ} {caller : Caller} {st : OperationState σ} {reason : CancelReason}

theorem runWaves_stops (stop : st.world.signals.reason? st.operation = some reason)
    {tasks : List Task} (some : tasks ≠ []) (g : Graph) :
    e.runWaves caller (Task.levels tasks) g tasks st = (.stopped g reason, st) := by
  cases levels : Task.levels tasks with
  | zero => exact absurd (Task.eq_nil_of_levels levels) some
  | succ levels => simp only [runWaves, stop, List.isEmpty_iff, some, if_false]

/-- An operation whose signal is set before it begins does nothing. -/
theorem begin_stops (stop : st.world.signals.reason? st.operation = some reason)
    {fields : List RequestField} (selects : fields ≠ []) (kind : OperationKind)
    (rootType : String) :
    e.begin caller .new (runs kind rootType fields) st = (.stopped .new reason, st) := by
  obtain ⟨tasks, rest, runs_eq, some⟩ : ∃ tasks rest,
      runs kind rootType fields = tasks :: rest ∧ tasks ≠ [] := by
    obtain ⟨f, fs, rfl⟩ := List.exists_cons_of_ne_nil selects
    cases kind with
    | mutation => exact ⟨_, _, rfl, List.cons_ne_nil _ _⟩
    | query | subscription => exact ⟨_, _, rfl, List.cons_ne_nil _ _⟩
  rw [runs_eq, begin, afterRun, runWaves_stops stop some]
  cases rest <;> rw [afterRun]

/-- A suspended operation whose signal is set does nothing more. -/
theorem poll_stops (stop : st.world.signals.reason? st.operation = some reason)
    (x : Execution σ) : e.poll caller x st = (.stopped x.graph reason, st) := by
  rw [poll, stop]

/-- The last error of an operation that was stopped. -/
def stopError : CancelReason → ReportedError
  | .cancelled => ⟨"Operation was cancelled", [], .cancelled⟩
  | .timedOut => ⟨"Operation timed out", [], .timeout⟩

theorem response_stopped (g : Graph) (reason : CancelReason) :
    (Polled.stopped g reason : Polled σ).response? = some ⟨none, g.errors ++ [stopError reason]⟩ := by
  cases reason <;> rfl

/-- A suspended operation does nothing more, whatever happens: the next poll leaves the state as it is
and gives the answer, and the operation has no entry in the log any more. -/
structure Stops (e : Engine σ) (caller : Caller) (x : Execution σ) (st : OperationState σ)
    (answer : Response) : Prop where
  poll : ∀ stage acts st', x.stage.Rescheduled stage → st.Meanwhile acts st' →
    ∃ p, e.poll caller { x with stage } st' = (p, st') ∧ p.response? = some answer
  course : ∀ log p, e.Course caller .signalled st (.suspended x, st) log p →
    log = [] ∧ (p = (.suspended x, st) ∨ p.1.response? = some answer)

theorem stops_of_reason (has : st.HasSignal)
    (stop : st.world.signals.reason? st.operation = some reason) (x : Execution σ) :
    e.Stops caller x st ⟨none, x.graph.errors ++ [stopError reason]⟩ := by
  have polled : ∀ stage acts st', x.stage.Rescheduled stage → st.Meanwhile acts st' →
      e.poll caller { x with stage } st' = (.stopped x.graph reason, st') := by
    intro stage acts st' _ meanwhile
    apply poll_stops
    rw [meanwhile.reason has, Signals.everGiven, stop]
    rfl
  refine ⟨fun stage acts st' delayed meanwhile =>
    ⟨_, polled stage acts st' delayed meanwhile, response_stopped _ _⟩, fun log p course => ?_⟩
  have since : ∀ st' : OperationState σ, st'.since st' = [] := fun _ => List.drop_length
  induction course with
  | start => exact ⟨since st, .inl rfl⟩
  | poll _ delayed _ between ih =>
    obtain ⟨rfl, same | answered⟩ := ih
    · cases same
      obtain ⟨acts, meanwhile⟩ := between
      rw [polled _ acts _ delayed meanwhile]
      exact ⟨since _, .inr (response_stopped _ _)⟩
    · cases answered

end Engine

/-- Cancellation stops an operation at once.  The signal of a query or mutation with root fields may
be set before it is executed, or while it is suspended, by whatever acts of others: let `reason` be
the first that the signal was given.  Then the operation does nothing more, whatever is ready by the
next poll, and its answer has no data, the errors that were recorded before the signal was set, and
one last error for the reason. -/
theorem cancellation_stops {e : Engine σ} {r : Request} {rootType : String}
    (executable : r.kind ≠ .subscription) (selects : r.fields ≠ [])
    (checked : e.preflight r = .ok rootType) (caller : Caller) {st₀ : OperationState σ}
    (has : st₀.HasSignal) :
    (∀ acts reason rest, st₀.world.signals.everGiven st₀.operation acts = reason :: rest →
      ∀ st, st₀.Meanwhile acts st → ∃ p, e.execute r caller st = .ok (p, st) ∧
        p.response? = some ⟨none, [Engine.stopError reason]⟩) ∧
    ∃ start, e.execute r caller st₀ = .ok start ∧
      ∀ log x st, e.Course caller .signalled st₀ start log (.suspended x, st) →
      ∀ acts reason rest, st.world.signals.everGiven st.operation acts = reason :: rest →
      ∀ st', st.Meanwhile acts st' →
        e.Stops caller x st' ⟨none, x.graph.errors ++ [Engine.stopError reason]⟩ := by
  have executes : ∀ st, e.execute r caller st =
      .ok (e.begin caller .new (Engine.runs r.kind rootType r.fields) st) := by
    intro st
    rw [Engine.execute, if_neg executable, checked]
  have first : ∀ {st st' : OperationState σ} {acts reason rest}, st.HasSignal →
      st.Meanwhile acts st' → st.world.signals.everGiven st.operation acts = reason :: rest →
      st'.world.signals.reason? st'.operation = some reason := by
    intro st st' acts reason rest has meanwhile given
    rw [meanwhile.reason has, given, List.head?_cons]
  refine ⟨fun acts reason rest given st meanwhile => ?_, _, executes st₀,
    fun log x st course acts reason rest given st' meanwhile => ?_⟩
  · have stop := first has meanwhile given
    exact ⟨_, by rw [executes, Engine.begin_stops stop selects], Engine.response_stopped _ _⟩
  · have has := course.hasSignal has
    exact Engine.stops_of_reason (meanwhile.hasSignal has) (first has meanwhile given) x

/-! ## A field that takes its time -/

namespace Slow

/-- The field returns after 10 milliseconds. -/
def engine : Engine Unit :=
  ⟨Sample.schema,
    ⟨[(⟨"Query", "size"⟩, .field ⟨fun _ => 10, fun _ s => (.ok (.value (.int 2)), s)⟩)]⟩,
    [], .default⟩

abbrev begun : OperationState Unit :=
  ⟨0, engine.coordinator, { World.start default () with signals := Signals.empty.create }⟩

/-- A timer fires, and then the operation is cancelled. -/
def acts : List SignalAct := [.schedule ⟨5, 0, .timedOut⟩, .fire 5, .cancel 0 .cancelled]

/-- Others act until the field is due. -/
def later (st : OperationState Unit) : OperationState Unit :=
  { st with world := { st.world with clock := 10, signals := st.world.signals.acts acts } }

/-- What the operation waits for, the errors so far, and its signals. -/
def waits? : Option (Option Nat × List ReportedError × Signals × Nat) :=
  match engine.execute Sample.request Sample.caller begun with
  | .ok (.suspended x, st) =>
    some (x.nextDeadline?, x.graph.errors, st.world.signals, st.operation)
  | _ => none

theorem waits : waits? = some (some 10, [], ⟨[none], []⟩, 0) := by cbv

/-- The timer was the first to set the signal, and what was waited for comes too late. -/
theorem cancellation_stops_slow :
    ∃ x st p, engine.execute Sample.request Sample.caller begun = .ok (.suspended x, st) ∧
      x.nextDeadline? = some 10 ∧ engine.poll Sample.caller x (later st) = (p, later st) ∧
      p.response? = some ⟨none, [⟨"Operation timed out", [], .timeout⟩]⟩ := by
  have checked : engine.preflight Sample.request = .ok "Query" := by cbv
  have has : begun.HasSignal := Nat.one_pos
  obtain ⟨⟨polled, st⟩, started, stops⟩ :=
    (cancellation_stops (by decide) (by decide) checked Sample.caller has).2
  have waits := waits
  rw [waits?, started] at waits
  cases polled with
  | completed | stopped => cases waits
  | suspended x =>
    obtain ⟨due, errors, signals, operation⟩ : x.nextDeadline? = some 10 ∧ x.graph.errors = [] ∧
        st.world.signals = ⟨[none], []⟩ ∧ st.operation = 0 := by simpa using waits
    have given : st.world.signals.everGiven st.operation acts = [.timedOut, .cancelled] := by
      rw [signals, operation]
      cbv
    have stops := stops _ x st .start acts _ _ given (later st) ⟨rfl, rfl, rfl⟩
    obtain ⟨p, polled, answer⟩ := stops.poll x.stage [] _ (.refl _) ⟨rfl, rfl, rfl⟩
    rw [errors] at answer
    exact ⟨x, st, p, started, due, polled, answer⟩

end Slow

end GraphQLEngine
