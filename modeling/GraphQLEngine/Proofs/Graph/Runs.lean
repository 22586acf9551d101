import GraphQLEngine.Engine.Subscribe
import GraphQLEngine.Proofs.Graph.Waves

/-!
# Runs keep the ledger

Between the polls of a suspended execution the world may change at will.  Wherever a run of an
operation has come to, its graph has a ledger, and the queued tasks, the calls of the wave at work
and the loads that these wait for are all accounted for.  So nothing waits and nothing is due once
it is complete:

    Engine.Run e caller start (.completed g, st)  →  Standing … g [] []
-/

namespace GraphQLEngine

open FieldValue (Outcome Outcomes)

variable {σ : Type}

/-- What becomes of an operation: while it is suspended all but its loads may change, and polling
goes on from there. -/
inductive Engine.Run (e : Engine σ) (caller : Caller) (start : Polled σ × OperationState σ) :
    Polled σ × OperationState σ → Prop
  | start : Engine.Run e caller start start
  | poll {x : Execution σ} {st st' : OperationState σ} :
    Engine.Run e caller start (.suspended x, st) → st'.coordinator = st.coordinator →
      Engine.Run e caller start (e.poll caller x st')

/-! ## Levels -/

theorem Task.depth_le_levels {t : Task} {tasks : List Task} (mem : t ∈ tasks) :
    t.field.depth ≤ Task.levels tasks :=
  RequestField.depth_le_depths (List.mem_map_of_mem mem)

theorem Task.levels_le {tasks : List Task} {n : Nat} (h : ∀ t ∈ tasks, t.field.depth ≤ n) :
    Task.levels tasks ≤ n := by
  apply RequestField.depths_le
  intro f hf
  obtain ⟨t, ht, rfl⟩ := List.mem_map.mp hf
  exact h t ht

/-- Without a level there are no tasks. -/
theorem Task.eq_nil_of_levels {tasks : List Task} (h : Task.levels tasks = 0) : tasks = [] := by
  cases tasks with
  | nil => rfl
  | cons t ts =>
    have := Task.depth_le_levels (List.mem_cons_self (a := t) (l := ts))
    rw [t.field.depth_eq] at this
    omega

/-! ## Resolving -/

/-- The resolvers of a wave are at work: what is finished has known loads and settles to what the
resolver gives. -/
structure Answering (e : Engine σ) (A : Answers)
    (calls : List (Invocation σ × Progress (FieldValue σ))) (c : Coordinator) : Prop where
  tracked : Tracked e A [] c
  finished : ∀ {i v}, (i, Progress.finished v) ∈ calls →
    (∀ w, Outcome A v w → i.Gives A w) ∧ ∀ r ∈ v.loads, c.Knows r

section

variable {e : Engine σ} {A : Answers}

/-- A poll of a resolver keeps track of the loads, and its value settles to what it gives. -/
theorem Invocation.poll_answering (i : Invocation σ) (p : Progress (FieldValue σ))
    {st : OperationState σ} (h : Answering e A [(i, p)] st.coordinator) :
    Answering e A [(i, (i.poll p st).1)] (i.poll p st).2.coordinator := by
  have ran : ∀ st' : OperationState σ, st'.coordinator = st.coordinator →
      Answering e A [(i, .finished (i.run st').1)] (i.run st').2.coordinator := by
    intro st' same
    have value : (i.run st').1 = i.resolver.value i.call st'.scope := rfl
    have loads : (i.run st').2.coordinator = st'.coordinator.loadAll
        ((i.resolver.run i.call st'.scope).2.requests ++ (i.run st').1.loads) := rfl
    rw [loads, same]
    refine ⟨h.tracked.loadAll _, ?_⟩
    intro j v mem
    cases List.mem_singleton.mp mem
    exact ⟨fun w out => ⟨st'.scope, value ▸ out⟩,
      fun r hr => Coordinator.knows_loadAll (List.mem_append_right _ hr) _⟩
  unfold Invocation.poll
  split
  · exact h
  · split
    · exact ran st rfl
    · exact ⟨h.tracked, fun mem => by cases List.mem_singleton.mp mem⟩
  · simp only
    split
    · exact ran _ rfl
    · exact ⟨h.tracked, fun mem => by cases List.mem_singleton.mp mem⟩

theorem Invocation.pollAll_answering (calls : List (Invocation σ × Progress (FieldValue σ)))
    {st : OperationState σ} (h : Answering e A calls st.coordinator) :
    Answering e A (Invocation.pollAll calls st).1 (Invocation.pollAll calls st).2.coordinator := by
  induction calls generalizing st with
  | nil => exact h
  | cons c rest ih =>
    obtain ⟨i, p⟩ := c
    rw [Invocation.pollAll]
    have keep {r} := (Engine.knows_endures (e := e) r).poll i p st
    have keep' {r} := (Engine.knows_endures (e := e) r).pollAll rest (i.poll p st).2
    have head := Invocation.poll_answering i p
      ⟨h.tracked, fun mem => h.finished (List.mem_cons.mpr (.inl (List.mem_singleton.mp mem)))⟩
    have tail := ih ⟨head.tracked, fun mem => by
      obtain ⟨out, known⟩ := h.finished (List.mem_cons_of_mem _ mem)
      exact ⟨out, fun r hr => keep (known r hr)⟩⟩
    refine ⟨tail.tracked, fun mem => ?_⟩
    rcases List.mem_cons.mp mem with eq | mem
    · obtain ⟨out, known⟩ := head.finished (List.mem_singleton.mpr eq)
      exact ⟨out, fun r hr => keep' (known r hr)⟩
    · exact tail.finished mem

theorem Invocation.fst_pollAll (calls : List (Invocation σ × Progress (FieldValue σ)))
    (st : OperationState σ) :
    (Invocation.pollAll calls st).1.map Prod.fst = calls.map Prod.fst := by
  induction calls generalizing st with
  | nil => rfl
  | cons c rest ih =>
    rw [Invocation.pollAll, List.map_cons, List.map_cons, ih]

/-- Once all resolvers are finished, their values wait for known loads and settle to what is
given. -/
theorem Answering.results {calls : List (Invocation σ × Progress (FieldValue σ))}
    {c : Coordinator} (h : Answering e A calls c) {values : List (FieldValue σ)}
    (results : Progress.results? calls = some values) :
    (∀ ws, Outcomes A values ws → AllGive A (calls.map Prod.fst) ws) ∧
      Engine.Awaited e A values [] c := by
  induction calls generalizing values with
  | nil =>
    cases results
    refine ⟨fun ws out => ?_, ⟨h.tracked, fun _ hr => absurd hr List.not_mem_nil⟩⟩
    cases out
    exact .nil
  | cons cp rest ih =>
    obtain ⟨i, p⟩ := cp
    cases p with
    | finished v =>
      rw [Progress.results?, Option.map_eq_some_iff] at results
      obtain ⟨vs, results, rfl⟩ := results
      obtain ⟨gives, known⟩ := h.finished (i := i) (v := v) List.mem_cons_self
      obtain ⟨outs, awaited⟩ := ih
        ⟨h.tracked, fun mem => h.finished (List.mem_cons_of_mem _ mem)⟩ results
      refine ⟨fun ws out => ?_, ⟨h.tracked, fun r hr => ?_⟩⟩
      · cases out with
        | cons out rest => exact .cons (gives _ out) (outs _ rest)
      · rcases List.mem_append.mp hr with hr | hr
        · exact known r hr
        · exact awaited.known r hr
    | _ => cases results

end

/-! ## Stages -/

section

variable (e : Engine σ) (caller : Caller) (A : Answers) (top : Entry)

/-- A suspended execution, with the tasks of the runs that have not begun. -/
def StageHolds (g : Graph) (stage : Stage σ) (later : List Task) (c : Coordinator) : Prop :=
  match stage with
  | .resolving levels calls =>
    Standing e caller (e.gives caller A) top g (calls.map Prod.fst) later ∧
      (∀ i ∈ calls.map Prod.fst, i.field.depth ≤ levels + 1) ∧ Answering e A calls c
  | .fetching levels calls values batches =>
    Standing e caller (e.gives caller A) top g calls later ∧
      (∀ i ∈ calls, i.field.depth ≤ levels + 1) ∧
      (∀ ws, Outcomes A values ws → AllGive A calls ws) ∧
      Engine.Awaited e A values (inFlight batches) c

def PhaseHolds (later : List Task) (r : RunPhase σ × OperationState σ) : Prop :=
  match r.1 with
  | .suspended g stage => StageHolds e caller A top g stage later r.2.coordinator
  | .completed g =>
    Standing e caller (e.gives caller A) top g [] later ∧ Tracked e A [] r.2.coordinator
  | .stopped _ _ => True

def PolledHolds (r : Polled σ × OperationState σ) : Prop :=
  match r.1 with
  | .suspended x =>
    StageHolds e caller A top x.graph x.stage x.remaining.flatten r.2.coordinator
  | .completed g => Standing e caller (e.gives caller A) top g [] []
  | .stopped _ _ => True

end

section

variable {e : Engine σ} {caller : Caller} {A : Answers} {top : Entry} (by_e : e.AnswersBy A)
  {next : Graph → List Task → OperationState σ → RunPhase σ × OperationState σ} {levels : Nat}
  {later : List Task}
  (next_holds : ∀ {g tasks st}, Standing e caller (e.gives caller A) top g [] (tasks ++ later) →
    Task.levels tasks ≤ levels → Tracked e A [] st.coordinator →
    PhaseHolds e caller A top later (next g tasks st))

include next_holds in
theorem afterSettling_holds {g : Graph} {calls : List (Invocation σ)}
    {values : List (FieldValue σ)} {r : Engine.Settling σ × OperationState σ}
    (S : Standing e caller (e.gives caller A) top g calls later)
    (depth : ∀ i ∈ calls, i.field.depth ≤ levels + 1)
    (outs : ∀ ws, Outcomes A values ws → AllGive A calls ws)
    (rounds : Engine.Rounds e A values r) :
    PhaseHolds e caller A top later (e.afterSettling next levels g calls r) := by
  obtain ⟨settling, st⟩ := r
  cases settling with
  | settled ws =>
    obtain ⟨out, tracked⟩ := rounds
    obtain ⟨S', sub⟩ := completeWave_standing [] later S (outs ws out)
    refine next_holds S' (Task.levels_le fun t ht => ?_) tracked
    obtain ⟨i, hi, mem⟩ := sub t ht
    have := depth i hi
    have := RequestField.depth_lt mem
    omega
  | fetching values' batches =>
    obtain ⟨narrow, awaited⟩ := rounds
    exact ⟨S, depth, fun ws out => outs ws (narrow ws out), awaited⟩
  | stopped reason => trivial

include by_e next_holds in
theorem afterCalls_holds {g : Graph} {calls : List (Invocation σ × Progress (FieldValue σ))}
    {st : OperationState σ}
    (S : Standing e caller (e.gives caller A) top g (calls.map Prod.fst) later)
    (depth : ∀ i ∈ calls.map Prod.fst, i.field.depth ≤ levels + 1)
    (answering : Answering e A calls st.coordinator) :
    PhaseHolds e caller A top later
      (e.afterCalls next levels g (Invocation.pollAll calls st)) := by
  have polled := Invocation.pollAll_answering calls answering
  rw [← Invocation.fst_pollAll calls st] at S depth
  unfold Engine.afterCalls
  split
  · exact ⟨S, depth, polled⟩
  · next values results =>
    obtain ⟨outs, awaited⟩ := polled.results results
    exact afterSettling_holds next_holds S depth outs
      (Engine.settleRounds_rounds by_e values _ awaited)

end

section

variable {e : Engine σ} {caller : Caller} {A : Answers} {top : Entry} (by_e : e.AnswersBy A)
  {later : List Task}

include by_e

/-- The waves of tasks keep the ledger, and leave none of the tasks. -/
theorem runWaves_holds (levels : Nat) {g : Graph} {tasks : List Task} {st : OperationState σ}
    (S : Standing e caller (e.gives caller A) top g [] (tasks ++ later))
    (fuel : Task.levels tasks ≤ levels) (tracked : Tracked e A [] st.coordinator) :
    PhaseHolds e caller A top later (e.runWaves caller levels g tasks st) := by
  induction levels generalizing g tasks st with
  | zero =>
    rw [Task.eq_nil_of_levels (Nat.le_zero.mp fuel)] at S
    exact ⟨S, tracked⟩
  | succ levels ih =>
    rw [Engine.runWaves]
    split
    · next empty =>
      rw [List.isEmpty_iff.mp empty] at S
      exact ⟨S, tracked⟩
    · split
      · trivial
      · obtain ⟨S', fields⟩ := prepare_standing S
        have idle : ((e.prepare caller g tasks).2.map
            fun i => (i, (Progress.idle : Progress (FieldValue σ)))).map Prod.fst =
              (e.prepare caller g tasks).2 := by
          rw [List.map_map]
          exact List.map_id _
        apply afterCalls_holds by_e ih
        · rw [idle]; exact S'
        · rw [idle]
          intro i hi
          obtain ⟨t, ht, field⟩ := fields i hi
          rw [field]
          exact Nat.le_trans (Task.depth_le_levels ht) fuel
        · refine ⟨tracked, fun mem => ?_⟩
          obtain ⟨i, -, eq⟩ := List.mem_map.mp mem
          cases eq

theorem afterRun_holds (remaining : List (List Task)) {r : RunPhase σ × OperationState σ}
    (h : PhaseHolds e caller A top remaining.flatten r) :
    PolledHolds e caller A top (e.afterRun caller remaining r) := by
  induction remaining generalizing r with
  | nil =>
    obtain ⟨phase, st⟩ := r
    cases phase with
    | suspended g stage => exact h
    | completed g => exact h.1
    | stopped g reason => trivial
  | cons tasks remaining ih =>
    obtain ⟨phase, st⟩ := r
    cases phase with
    | suspended g stage => exact h
    | completed g => exact ih (runWaves_holds by_e _ h.1 (Nat.le_refl _) h.2)
    | stopped g reason => trivial

theorem begin_holds {g : Graph} {runs : List (List Task)} {st : OperationState σ}
    (S : Standing e caller (e.gives caller A) top g [] runs.flatten)
    (tracked : Tracked e A [] st.coordinator) :
    PolledHolds e caller A top (e.begin caller g runs st) :=
  afterRun_holds by_e runs ⟨S, tracked⟩

theorem poll_holds {x : Execution σ} {st : OperationState σ}
    (h : StageHolds e caller A top x.graph x.stage x.remaining.flatten st.coordinator) :
    PolledHolds e caller A top (e.poll caller x st) := by
  obtain ⟨g, stage, remaining⟩ := x
  unfold Engine.poll
  split
  · trivial
  · apply afterRun_holds by_e
    cases stage with
    | resolving levels calls =>
      obtain ⟨S, depth, answering⟩ := h
      exact afterCalls_holds by_e (fun S => runWaves_holds by_e levels S) S depth answering
    | fetching levels calls values batches =>
      obtain ⟨S, depth, outs, awaited⟩ := h
      have polled := awaited.pollBatches by_e
      simp only
      split
      · next finished =>
        rw [Engine.inFlight_of_results finished] at polled
        exact afterSettling_holds (fun S => runWaves_holds by_e levels S) S depth outs
          (Engine.settleRounds_rounds by_e values _ polled)
      · exact ⟨S, depth, outs, polled⟩

/-- Wherever a run has come to, its graph has a ledger. -/
theorem Engine.Run.holds {start r : Polled σ × OperationState σ} (run : e.Run caller start r)
    (h : PolledHolds e caller A top start) : PolledHolds e caller A top r := by
  induction run with
  | start => exact h
  | poll _ same ih => exact poll_holds by_e (same ▸ ih)

end

/-! ## Beginnings -/

section

variable {e : Engine σ} {caller : Caller} {gives : Gives}

/-- The ledger of a graph of the root alone. -/
theorem Ledger.new {f : RequestField} (distinct : f.Distinct) {V : Verdict}
    (shows : Shows (.object []) (some V)) :
    Ledger e caller gives .new (fun _ => ⟨[], f, some V⟩) (fun _ => V.keys f) := by
  have only : ∀ {n x}, Graph.new.node? n = some x →
      n = 0 ∧ x = ⟨none, false, .object []⟩ := by
    intro n x h
    cases n with
    | zero => exact ⟨rfl, (Option.some.inj h).symm⟩
    | succ n => cases h
  have sole : ∀ {V'}, Shows (.object []) V' → ∀ e, V' ≠ some (.failed e) := by
    rintro _ shows e rfl
    cases shows
  constructor
  case toPlaced =>
    constructor
    case root => exact ⟨_, rfl, rfl, rfl⟩
    case top => rfl
    case child =>
      intro c x hx above
      rw [(only hx).1] at above
      cases above
    case rest =>
      intro p W _ hW
      cases hW
      exact List.suffix_refl _
    case distinct => exact fun _ => distinct
    case unique =>
      intro m n hm hn _
      have sized : Graph.new.size = 1 := rfl
      omega
  case toLinked =>
    constructor
    case shows =>
      intro n x hx
      rw [(only hx).2]
      exact shows
    case up =>
      intro c x p y hx hp
      rw [(only hx).2] at hp
      cases hp
    case down =>
      intro p y seg c hy mem
      rw [(only hy).2] at mem
      cases mem
    case keys =>
      intro p y W hy _ hW
      cases hW
      rw [(only hy).2]
      rfl
  case toNulls =>
    constructor
    case closed =>
      intro c x p y hx hp
      rw [(only hx).2] at hp
      cases hp
    case cause =>
      intro n x hx isNull
      rw [(only hx).2] at isNull
      cases isNull
  case toReported =>
    constructor
    case reported => exact fun _ hV => absurd hV (sole shows _)
    case errors => exact fun h => nomatch h
    case once => exact List.nodup_nil

theorem flatten_runs (kind : OperationKind) (rootType : String) (fields : List RequestField) :
    (Engine.runs kind rootType fields).flatten = fields.map (Engine.rootTask rootType) := by
  cases kind with
  | mutation => induction fields with
    | nil => rfl
    | cons f fs ih => exact congrArg (Engine.rootTask rootType f :: ·) ih
  | _ => exact List.append_nil _

/-- Before a request is executed its root fields are due. -/
theorem standing_new {fields : List RequestField} (distinct : (RequestField.whole fields).Distinct)
    (kind : OperationKind) (rootType : String) :
    Standing e caller gives ⟨[], .whole fields, some (.object rootType .null)⟩ .new []
      (Engine.runs kind rootType fields).flatten := by
  refine ⟨_, _, Ledger.new distinct (.object [] rootType .null), rfl, by simp, ?_, ?_, by simp⟩
  · rw [flatten_runs]
    constructor
    · intro t ht
      obtain ⟨f, hf, rfl⟩ := List.mem_map.mp ht
      exact ⟨Nat.one_pos, rfl, rfl, hf⟩
    · intro p hp _ _
      have : p = 0 := by
        have sized : Graph.new.size = 1 := rfl
        omega
      subst this
      exact (dueTo_subfieldTasks 0 rootType .null (.whole fields) []).symm
  · exact ⟨List.nodup_nil, (fun h => nomatch h), fun _ hV => nomatch hV⟩

/-- Once the value of an event is completed, the fields selected on it are due. -/
theorem standing_event {field : RequestField} (distinct : (RequestField.whole [field]).Distinct)
    (t : TypeRef) (w : Settled) :
    let out := completeValue e.schema field
      (Graph.new.addField Graph.root field.outputName t.isNonNull) Graph.new.size t w
      [.field field.outputName]
    Standing e caller gives ⟨[], .whole [field], some (.given t w)⟩ out.1 [] [out.2].flatten := by
  intro out
  rw [List.flatten_singleton]
  have root : 0 < Graph.new.size := Nat.one_pos
  have slot : Slot e caller gives (RequestField.whole [field]) (.given t w)
      (.field field.outputName) field t.isNonNull (· = judge e.schema field.name t w) := .given rfl
  have grown := Graph.addField_eq_attach (g := .new) field.outputName t.isNonNull root
  obtain ⟨pos, due, L, top, new, done⟩ : ∃ pos due, Ledger e caller gives
      (Graph.new.addField Graph.root field.outputName t.isNonNull) pos due ∧
      pos 0 = ⟨[], .whole [field], some (.given t w)⟩ ∧
      pos 1 = ⟨[.field field.outputName], field, none⟩ ∧ due 0 = [] := by
    rw [Graph.root, grown]
    exact ⟨_, _, (Ledger.new distinct (.given [] t w)).attach root rfl rfl slot, rfl, rfl, rfl⟩
  have lt : 1 < (Graph.new.addField Graph.root field.outputName t.isNonNull).size := by
    rw [Graph.root, grown, Graph.size_attach]
    exact Nat.lt_succ_self 1
  have nodes : ∀ {m}, m < (Graph.new.addField Graph.root field.outputName t.isNonNull).size →
      m = 0 ∨ m = 1 := by
    intro m hm
    rw [Graph.root, grown, Graph.size_attach] at hm
    have sized : Graph.new.size = 1 := rfl
    omega
  have waiting : (pos 1).verdict = none := by rw [new]
  -- the event's node is the only one that waits, and the root has nothing else beneath it
  have Q : Queued (Graph.new.addField Graph.root field.outputName t.isNonNull) pos due [] := by
    refine ⟨(fun h => absurd h List.not_mem_nil), fun hp hV _ => ?_⟩
    rcases nodes hp with rfl | rfl
    · exact done
    · exact absurd waiting hV
  have W : Waiting (Graph.new.addField Graph.root field.outputName t.isNonNull) pos [1] := by
    refine ⟨List.nodup_cons.mpr ⟨List.not_mem_nil, List.nodup_nil⟩, fun hn => ?_, fun hn hV => ?_⟩
    · rw [List.mem_singleton.mp hn]
      exact ⟨lt, waiting⟩
    · rcases nodes hn with rfl | rfl
      · rw [top] at hV
        cases hV
      · exact List.mem_singleton.mpr rfl
  have at_one : (Graph.new.attach Graph.root (.field field.outputName) t.isNonNull).node? 1 =
      some ⟨some 0, t.isNonNull, .pending⟩ := Graph.node?_attach_self _ _ root
  obtain ⟨pos', due', C⟩ := completeValue_completes field [.field field.outputName] t w {
    ledger := L
    lt := lt
    waiting := waiting
    field := by rw [new]
    path := by rw [new]
    allowed := by
      intro x p hx hp
      rw [Graph.root, grown] at hx
      cases at_one.symm.trans hx
      cases hp
      refine ⟨.given t w, .field field.outputName, _, by rw [top], by rw [new, top]; rfl, ?_,
        by rw [new, top]; exact slot, by rintro _ ⟨⟩; rfl⟩
      rw [done]
      exact List.not_mem_nil }
  have queued := Queued.complete [] [] Q C lt waiting
  rw [List.nil_append, List.append_nil] at queued
  refine ⟨pos', due', C.ledger, ?_, by simp, queued, Waiting.complete [] [] W C, by simp⟩
  rw [(C.kept (Nat.lt_trans Nat.zero_lt_one lt) Nat.zero_ne_one).1, top]

end

/-! ## Operations and events -/

/-- The account of an operation that is complete: every node is decided about, and nothing is due
beneath a node that is not nulled. -/
structure Closed (e : Engine σ) (caller : Caller) (gives : Gives) (whole : Entry) (g : Graph)
    (pos : Nat → Entry) (due : Nat → List PathSegment) : Prop extends
    Ledger e caller gives g pos due where
  entry : pos 0 = whole
  decided : ∀ {n}, n < g.size → (pos n).verdict ≠ none
  done : ∀ {n}, n < g.size → g.isNulled n = false → due n = []

theorem Standing.closed {e : Engine σ} {caller : Caller} {gives : Gives} {top : Entry} {g : Graph}
    (S : Standing e caller gives top g [] []) :
    ∃ pos due, Closed e caller gives top g pos due := by
  obtain ⟨pos, due, L, entry, -, Q, W, -⟩ := S
  have decided : ∀ {n}, n < g.size → (pos n).verdict ≠ none :=
    fun hn waiting => nomatch W.all hn waiting
  exact ⟨pos, due, L, entry, decided, fun hn free => Q.due hn (decided hn) free⟩

/-- The value of the root field for an event. -/
def SubscriptionResolver.value (r : SubscriptionResolver σ) (event : Json) : Settled :=
  match r.resolveEvent event with
  | .ok v => .value v
  | .error fault => .error fault

section

variable {e : Engine σ} {A : Answers} {g : Graph} {start : Polled σ × OperationState σ}
  {st : OperationState σ}

theorem Engine.root?_of_preflight {r : Request} {rootType : String}
    (checked : e.preflight r = .ok rootType) : e.schema.root? r.kind = some rootType := by
  unfold Engine.preflight at checked
  split at checked
  · cases checked
  · next found =>
    split at checked
    · cases checked
    · split at checked <;> cases checked
      exact found

/-- A request that was executed to its end has an account. -/
theorem Engine.execute_closed {caller : Caller} {r : Request} {operation : Nat} {w : World σ}
    (by_e : e.AnswersBy A) (distinct : (RequestField.whole r.fields).Distinct)
    (started : e.execute r caller ⟨operation, e.coordinator, w⟩ = .ok start)
    (run : e.Run caller start (.completed g, st)) :
    ∃ rootType pos due, e.schema.root? r.kind = some rootType ∧
      Closed e caller (e.gives caller A)
        ⟨[], .whole r.fields, some (.object rootType .null)⟩ g pos due := by
  unfold Engine.execute at started
  split at started
  · cases started
  · split at started
    · cases started
    · next rootType checked =>
      cases started
      have ends := run.holds by_e
        (begin_holds by_e (standing_new distinct r.kind rootType) (.coordinator e A))
      obtain ⟨pos, due, closed⟩ := Standing.closed ends
      exact ⟨rootType, pos, due, Engine.root?_of_preflight checked, closed⟩

/-- An event that was executed to its end has an account. -/
theorem Engine.executeEvent_closed {s : SubscriptionStream σ} {event : Json} {w : World σ}
    (by_e : e.AnswersBy A) (distinct : (RequestField.whole [s.field]).Distinct)
    (started : e.executeEvent s event w = .ok start)
    (run : e.Run s.caller start (.completed g, st)) :
    ∃ d pos due, e.schema.field? s.rootType s.field.name = some d ∧
      Closed e s.caller (e.gives s.caller A)
        ⟨[], .whole [s.field], some (.given d.type (s.resolver.value event))⟩ g pos due := by
  unfold Engine.executeEvent at started
  split at started
  · cases started
  · next d found =>
    cases started
    have S : Standing e s.caller (e.gives s.caller A) _ _ _ _ :=
      standing_event distinct d.type (s.resolver.value event)
    have ends := run.holds by_e (begin_holds by_e S (.coordinator e A))
    obtain ⟨pos, due, closed⟩ := Standing.closed ends
    exact ⟨d, pos, due, found, closed⟩

end

end GraphQLEngine
