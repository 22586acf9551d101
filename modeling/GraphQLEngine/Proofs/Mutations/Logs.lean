import GraphQLEngine.Proofs.Mutations.Roots
import GraphQLEngine.Proofs.Waves.Discipline

/-!
# The runs of root fields

Each run of a mutation resolves what is beneath its own root field, and is over before the next one
begins; so what was logged is what the run of the first root field logged, then that of the second,
and so on.  A run that begins when the root is null logs nothing.

    Moment.logOf m k          what the run of the root field `k` logged
    Moment.RootByRoot m       what is kept at every moment
-/

namespace GraphQLEngine

variable {σ : Type}

/-! ## Tasks -/

/-- Tasks of a run, all beneath its root field. -/
def Task.OfRun (fields : List RequestField) (run : Nat) (ts : List Task) : Prop :=
  ∃ k f, run = k + 1 ∧ fields[k]? = some f ∧
    ∀ t ∈ ts, t.fieldPath.head? = some (.field f.outputName)

theorem Path.IsField.head?_append {p : Path} (h : Path.IsField p) (q : Path) :
    (p ++ q).head? = p.head? := by
  obtain ⟨p, name, rfl⟩ := h
  cases p <;> rfl

/-- What the calls of a wave leave is beneath the same root field. -/
theorem Wave.Prepared.ofRun {e : Engine σ} {fields : List RequestField} {w : Wave σ}
    {calls : List (Invocation σ)} (prepared : w.Prepared calls)
    (own : Task.OfRun fields w.run w.tasks) (g : Graph) (values : List Settled) :
    Task.OfRun fields w.run (e.completeWave g calls values).2 := by
  obtain ⟨k, f, run, found, under⟩ := own
  refine ⟨k, f, run, found, fun t ht => ?_⟩
  obtain ⟨i, hi, beneath⟩ := completeWave_beneath ht
  obtain ⟨indices, place⟩ := beneath.place
  obtain ⟨t', mem, path, -⟩ := prepared.task i hi
  have isField := (prepared.field i hi).1
  rw [Task.fieldPath, place, List.append_assoc, isField.head?_append, ← path]
  exact under t' mem

/-! ## Moments -/

section

variable (e : Engine σ) (caller : Caller) (b : Behavior σ) (g₀ : Graph) (s₀ : σ)
  (runs : List (List Task)) (fields : List RequestField)

/-- The root is null when the run begins. -/
def Engine.RunsOnNull (run : Nat) : Prop :=
  (e.evalRuns caller b (runs.take (run - 1)) g₀ s₀).1.isNulled Graph.root = true

/-- The wave is beneath the root field of its run, and does nothing if that runs on null. -/
def Wave.OfRoot (w : Wave σ) : Prop :=
  Task.OfRun fields w.run w.tasks ∧ (e.RunsOnNull caller b g₀ s₀ runs w.run → w.log = [])

/-- The point is beneath the root field of its run, and nothing is called if that runs on null. -/
def Point.OfRoot : Point σ → Prop
  | .tasks _ run _ g ts =>
    (ts ≠ [] → Task.OfRun fields run ts) ∧
      (e.RunsOnNull caller b g₀ s₀ runs run → ∀ t ∈ ts, g.isNulled t.parent = true)
  | .resolving _ w _ calls =>
    w.OfRoot e caller b g₀ s₀ runs fields ∧ (e.RunsOnNull caller b g₀ s₀ runs w.run → calls = [])
  | .settling _ w _ calls values | .passed _ w _ calls values =>
    w.OfRoot e caller b g₀ s₀ runs fields ∧
      (e.RunsOnNull caller b g₀ s₀ runs w.run → calls = [] ∧ values = [])
  | .fetching _ w _ _ _ _ =>
    w.OfRoot e caller b g₀ s₀ runs fields ∧ ¬ e.RunsOnNull caller b g₀ s₀ runs w.run
  | .stopped .. => True

structure Moment.RootByRoot (m : Moment σ) : Prop where
  past : ∀ w ∈ m.past, w.OfRoot e caller b g₀ s₀ runs fields
  point : m.point.OfRoot e caller b g₀ s₀ runs fields

end

namespace Engine

variable {e : Engine σ} {caller : Caller} {b : Behavior σ} {g₀ : Graph} {s₀ : σ} {base : Nat}
  {rootType : String} {fields : List RequestField} {m m' : Moment σ}

theorem Step.rootByRoot (h : e.Step caller .serial base m m') (K : m.Keeps base)
    (I : m.InTurn e caller b g₀ s₀ (runs .mutation rootType fields))
    (R : m.RootByRoot e caller b g₀ s₀ (runs .mutation rootType fields) fields) :
    m'.RootByRoot e caller b g₀ s₀ (runs .mutation rootType fields) fields := by
  obtain ⟨past, point⟩ := R
  cases h with
  | @next _ tasks ts remaining levels run depth g st done =>
    obtain ⟨rest, comes⟩ := I run rfl
    have began : (runs .mutation rootType fields)[run]? = some tasks := by
      rw [← List.head?_drop, ← rest]
      rfl
    obtain ⟨f, found, rfl⟩ : ∃ f, fields[run]? = some f ∧ [rootTask rootType f] = tasks := by
      rwa [runs, List.getElem?_map, Option.map_eq_some_iff] at began
    refine ⟨past, fun _ => ⟨run, f, rfl, found, fun t mem => ?_⟩, fun null t mem => ?_⟩
    · rw [List.mem_singleton.mp mem]
      rfl
    · rw [List.mem_singleton.mp mem]
      rw [RunsOnNull, Nat.add_sub_cancel, ← comes, evalWaves_done e caller b done] at null
      exact null
  | prepare some =>
    refine ⟨past, ⟨point.1 some, fun _ => rfl⟩, fun null => ?_⟩
    rw [prepare_of_nulled (point.2 null)]
    rfl
  | resolve =>
    refine ⟨past, ⟨point.1.1, fun null => ?_⟩, fun null => ?_⟩
    · rw [point.2 null, Invocation.pollAll, point.1.2 null]
      simp [OperationState.since]
    · rw [point.2 null, Invocation.pollAll]
  | collect results =>
    refine ⟨past, point.1, fun null => ?_⟩
    rw [point.2 null] at results ⊢
    cases results
    exact ⟨rfl, rfl⟩
  | pass =>
    refine ⟨past, point.1, fun null => ?_⟩
    obtain ⟨calls, values⟩ := point.2 null
    rw [values, FieldValue.settleItems]
    exact ⟨calls, rfl⟩
  | take unsettled =>
    refine ⟨past, point.1, fun null => ?_⟩
    rw [(point.2 null).2] at unsettled
    cases unsettled
  | fetch => exact ⟨past, ⟨point.1.1, fun null => absurd null point.2⟩, point.2⟩
  | fetched => exact ⟨past, point.1, fun null => absurd null point.2⟩
  | complete =>
    refine ⟨fun w hw => ?_, fun _ => K.point.1.prepared.ofRun point.1.1 _ _, fun null => ?_⟩
    · rcases List.mem_append.mp hw with hw | hw
      · exact past w hw
      · exact List.mem_singleton.mp hw ▸ point.1
    · rw [(point.2 null).1]
      exact fun _ mem => absurd mem List.not_mem_nil
  | stop => exact ⟨past, trivial⟩

theorem Pause.rootByRoot {runs : List (List Task)} (h : Pause .serial m m')
    (R : m.RootByRoot e caller b g₀ s₀ runs fields) :
    m'.RootByRoot e caller b g₀ s₀ runs fields := by
  obtain ⟨past, point⟩ := R
  cases h with
  | resolving rescheduled =>
    refine ⟨past, point.1, fun null => ?_⟩
    rw [point.2 null] at rescheduled
    cases rescheduled
    rfl
  | fetching => exact ⟨past, point⟩

theorem Reaches.rootByRoot (acts : e.Behaves b) (reached : e.Reaches caller .serial base m m')
    (K : m.Keeps base) (waits : m.point.Awaits e e.MayAnswer m.state)
    (answers : m.point.Awaits e (fun n key a => a = b.answer n key) m.state)
    (I : m.InTurn e caller b g₀ s₀ (runs .mutation rootType fields))
    (R : m.RootByRoot e caller b g₀ s₀ (runs .mutation rootType fields) fields) :
    m'.RootByRoot e caller b g₀ s₀ (runs .mutation rootType fields) fields := by
  induction reached with
  | refl => exact R
  | tail before h ih =>
    have keeps := Reaches.keeps before K waits
    have inTurn := Reaches.inTurn acts before answers I
    exact h.elim (fun step => step.rootByRoot keeps inTurn ih) fun pause => pause.rootByRoot ih

end Engine

/-! ## Logs -/

/-- What the run of a root field logged. -/
def Moment.logOf (m : Moment σ) (k : Nat) : List LogEntry :=
  (m.waves.filter (·.run = k + 1)).flatMap Wave.log

theorem Wave.split_run {ws : List (Wave σ)} (order : ws.Pairwise fun w w' => w.run ≤ w'.run)
    {n : Nat} (within : ∀ w ∈ ws, w.run ≤ n + 1) :
    ws.filter (·.run ≤ n) ++ ws.filter (·.run = n + 1) = ws := by
  induction ws with
  | nil => rfl
  | cons w ws ih =>
    obtain ⟨first, rest⟩ := List.pairwise_cons.mp order
    have le := within w List.mem_cons_self
    have later : ∀ w' ∈ ws, w'.run ≤ n + 1 := fun w' hw' => within w' (List.mem_cons_of_mem _ hw')
    by_cases below : w.run ≤ n
    · have ne : w.run ≠ n + 1 := by omega
      simpa [List.filter_cons, below, ne] using ih rest later
    · have last : w.run = n + 1 := by omega
      have none : ws.filter (·.run ≤ n) = [] := by
        refine List.filter_eq_nil_iff.mpr fun w' hw' => ?_
        have := first w' hw'
        simp only [decide_eq_true_eq]
        omega
      have all : ws.filter (·.run = n + 1) = ws := by
        refine List.filter_eq_self.mpr fun w' hw' => ?_
        have := first w' hw'
        have := later w' hw'
        simp only [decide_eq_true_eq]
        omega
      simp [last, none, all]

/-- Waves that come run by run logged what the first run logged, then the second, and so on. -/
theorem Wave.log_runs (n : Nat) {ws : List (Wave σ)}
    (order : ws.Pairwise fun w w' => w.run ≤ w'.run)
    (within : ∀ w ∈ ws, 0 < w.run ∧ w.run ≤ n) :
    ws.flatMap Wave.log =
      (List.range n).flatMap fun k => (ws.filter (·.run = k + 1)).flatMap Wave.log := by
  induction n generalizing ws with
  | zero =>
    have none : ws = [] := by
      rw [List.eq_nil_iff_forall_not_mem]
      intro w hw
      have := within w hw
      omega
    subst none
    rfl
  | succ n ih =>
    have front : ∀ w ∈ ws.filter (·.run ≤ n), 0 < w.run ∧ w.run ≤ n := fun w hw =>
      ⟨(within w (List.mem_filter.mp hw).1).1, of_decide_eq_true (List.mem_filter.mp hw).2⟩
    have same : ∀ k ∈ List.range n, (ws.filter (·.run ≤ n)).filter (·.run = k + 1) =
        ws.filter (·.run = k + 1) := by
      intro k hk
      have := List.mem_range.mp hk
      rw [List.filter_filter]
      refine List.filter_congr fun w _ => ?_
      rw [Bool.eq_iff_iff, Bool.and_eq_true, decide_eq_true_eq, decide_eq_true_eq]
      omega
    calc ws.flatMap Wave.log
        = (ws.filter (·.run ≤ n)).flatMap Wave.log ++
            (ws.filter (·.run = n + 1)).flatMap Wave.log := by
          rw [← List.flatMap_append, Wave.split_run order fun w hw => (within w hw).2]
      _ = _ := by
          rw [ih (order.filter _) front, List.range_succ, List.flatMap_append,
            List.flatMap_congr fun k hk => by rw [same k hk]]
          simp

/-- What was logged, root by root. -/
structure Moment.LogsInTurn (fields : List RequestField) (m : Moment σ) : Prop where
  log : m.log = (List.range fields.length).flatMap m.logOf
  /-- The run of a root field calls only resolvers beneath it. -/
  own : ∀ {k f}, fields[k]? = some f → ∀ x ∈ m.logOf k, ∀ p, x.start? = some p ∨ x.return? = some p →
    p.head? = some (.field f.outputName)

/-- Once all is over, it was logged root by root, and runs on null logged nothing. -/
theorem Moment.RootByRoot.logs {e : Engine σ} {caller : Caller} {b : Behavior σ} {g₀ : Graph}
    {s₀ : σ} {base : Nat} {runs : List (List Task)} {fields : List RequestField} {m : Moment σ}
    (R : m.RootByRoot e caller b g₀ s₀ runs fields) (K : m.Keeps base) (done : m.waves = m.past) :
    m.LogsInTurn fields ∧
      ∀ k, e.RunsOnNull caller b g₀ s₀ runs (k + 1) → m.logOf k = [] := by
  have order : m.waves.Pairwise fun w w' => w.run ≤ w'.run := by
    rw [done]
    exact K.order.imp fun before => by
      unfold Wave.Before at before
      omega
  have within : ∀ w ∈ m.waves, 0 < w.run ∧ w.run ≤ fields.length := by
    intro w hw
    obtain ⟨⟨k, f, run, found, -⟩, -⟩ := R.past w (done ▸ hw)
    have := (List.getElem?_eq_some_iff.mp found).1
    omega
  refine ⟨⟨Wave.log_runs _ order within, fun {k f} found x hx p entry => ?_⟩, fun k null => ?_⟩
  · obtain ⟨w, hw, logged⟩ := List.mem_flatMap.mp hx
    obtain ⟨inside, run⟩ := List.mem_filter.mp hw
    rw [done] at inside
    obtain ⟨⟨k', f', run', found', under⟩, -⟩ := R.past w inside
    obtain ⟨disciplined, finished⟩ := K.past w inside
    have started : p ∈ w.starts := by
      rcases entry with entry | entry
      · exact List.mem_filterMap.mpr ⟨x, logged, entry⟩
      · exact finished.returns.subset (List.mem_filterMap.mpr ⟨x, logged, entry⟩)
    obtain ⟨-, t, mem, path, -⟩ := disciplined.started p started
    have same : k' = k := by
      have := of_decide_eq_true run
      omega
    rw [same, found] at found'
    cases found'
    rw [← path]
    exact under t mem
  · rw [Moment.logOf, List.flatMap_eq_nil_iff]
    intro w hw
    obtain ⟨inside, run⟩ := List.mem_filter.mp hw
    have := of_decide_eq_true run
    exact (R.past w (done ▸ inside)).2 (this ▸ null)

end GraphQLEngine
