import GraphQLEngine.Proofs.Loads.Chains
import GraphQLEngine.Proofs.Waves.Loads
import GraphQLEngine.Proofs.Waves.Operations

/-!
# The discipline of waves

The waves of a run come one after the other, from the root fields down.  In each of them all
resolvers are started, once and in the order of the fields, and no fetch is started before the last
of them has returned; all that was fetched has returned before the next wave begins.  This is what
turns the loads of a depth into one batch.

    Wave.Resolving w calls c                  the resolvers of `w` are at work
    Wave.Settling w calls values batches c    they have returned, and what they wait for is fetched
    Wave.Disciplined w                        what is kept at every moment
    Wave.Over w                               what holds once the wave is over
-/

namespace GraphQLEngine

open FieldValue (loadsOfItems itemsSettled ItemsUnchained)

variable {σ : Type}

/-! ## Waves -/

namespace Wave

/-- The paths of the resolvers that were started. -/
def starts (w : Wave σ) : List Path := w.log.filterMap LogEntry.start?

/-- The paths of the resolvers that have returned. -/
def returns (w : Wave σ) : List Path := w.log.filterMap LogEntry.return?

/-- The fetches that were started. -/
def fetches (w : Wave σ) : List (String × List LoadKey) := w.log.filterMap LogEntry.fetch?

/-- The fetches that have returned. -/
def fetched (w : Wave σ) : List (String × List LoadKey) := w.log.filterMap LogEntry.fetched?

/-- The batches of the flushes, as the log shows them. -/
def batches (w : Wave σ) : List (String × List LoadKey) := w.flushes.flatten.map Batch.shown

/-- The wave is in an earlier run, or less deep in the same. -/
def Before (w w' : Wave σ) : Prop := w.run < w'.run ∨ w.run = w'.run ∧ w.depth < w'.depth

/-- What waves keep to, at work or not. -/
structure Disciplined (w : Wave σ) : Prop where
  /-- No path has its resolver started twice. -/
  once : w.starts.Nodup
  /-- The resolvers are those of fields at the depth of the wave, on objects that were not nulled
  when the wave began. -/
  started : ∀ p ∈ w.starts, p.depth = w.depth ∧
    ∃ t ∈ w.tasks, t.fieldPath = p ∧ w.graph.isNulled t.parent = false
  /-- The resolvers are done with before any fetch starts. -/
  joined : ∃ calls fetching, w.log = calls ++ fetching ∧ (∀ x ∈ calls, x.isFetch = false) ∧
    (∀ x ∈ fetching, x.isFetch = true) ∧ (fetching ≠ [] → w.returns.Perm w.starts)
  /-- What is fetched is what was flushed. -/
  fetches : w.fetches <+: w.batches
  /-- If no resolver chains loads, there is one flush at most, which takes what was queued when the
  resolvers had returned. -/
  flushed : ∀ values c, w.returned = some (values, c) → ItemsUnchained values →
    w.flushes = [] ∨ w.flushes = [c.takeBatches.1]
  /-- That is what was left from before and each of the keys newly asked for, once. -/
  carried : ∀ values c, w.returned = some (values, c) → ∀ n, (c.known n).Nodup ∧
    ∃ new, c.known n = w.before.known n ++ new ∧
      (c.takeBatches.1.filter (·.loader = n)).flatMap Batch.keys = w.before.queued n ++ new
  /-- The loads that a returned value waits for are among the keys asked for. -/
  asked : ∀ values c, w.returned = some (values, c) → ∀ r ∈ loadsOfItems values, c.Knows r

/-- What holds of waves that are over. -/
structure Over (w : Wave σ) : Prop where
  returns : w.returns.Perm w.starts
  fetches : w.fetches = w.batches
  fetched : w.fetched.Perm w.fetches
  /-- If a value waited for a load that was not answered before, there was a flush. -/
  awaited : ∃ values c, w.returned = some (values, c) ∧
    ∀ r ∈ loadsOfItems values, c.answer? r.1 r.2 = none → w.flushes ≠ []

/-- The calls of a wave. -/
structure Prepared (w : Wave σ) (calls : List (Invocation σ)) : Prop where
  nodup : (calls.map Invocation.path).Nodup
  depth : ∀ i ∈ calls, i.path.depth = w.depth
  field : ∀ i ∈ calls, Path.IsField i.path ∧ i.field.Distinct
  task : ∀ i ∈ calls, ∃ t ∈ w.tasks, t.fieldPath = i.path ∧ w.graph.isNulled t.parent = false

/-- A wave whose resolvers are at work. -/
structure Resolving (w : Wave σ) (calls : List (Invocation σ × Progress (FieldValue σ)))
    (c : Coordinator) : Prop where
  prepared : w.Prepared (calls.map Prod.fst)
  returned : w.returned = none
  flushes : w.flushes = []
  log : ∀ x ∈ w.log, x.isFetch = false
  starts : w.starts ++ (Progress.idles calls).map Invocation.path =
    (calls.map Prod.fst).map Invocation.path
  returns : (w.returns ++ (Progress.unfinished calls).map Invocation.path).Perm
    ((calls.map Prod.fst).map Invocation.path)
  asked : w.before.Asked c

/-- How the loads stand since the resolvers have returned `values₀` and left `c₀`. -/
structure Loading (w : Wave σ) (values₀ values : List (FieldValue σ)) (c₀ c : Coordinator) :
    Prop where
  asked : w.before.Asked c₀
  orderly : c₀.Orderly
  known : ∀ r ∈ loadsOfItems values₀, c₀.Knows r
  /-- Without chains nothing is queued once there was a flush. -/
  unchained : ItemsUnchained values₀ → ItemsUnchained values ∧
    (w.flushes = [] ∧ c = c₀ ∨ w.flushes = [c₀.takeBatches.1] ∧ c.hasQueued = false)
  /-- What was not answered still waits for a flush. -/
  waits : w.flushes = [] → ∀ r ∈ loadsOfItems values₀, c₀.answer? r.1 r.2 = none →
    r ∈ loadsOfItems values ∧ c.answer? r.1 r.2 = none

/-- A wave whose resolvers have returned. -/
structure Settling (w : Wave σ) (calls : List (Invocation σ)) (values : List (FieldValue σ))
    (batches : List (Batch × Progress Unit)) (c : Coordinator) : Prop where
  prepared : w.Prepared calls
  joined : ∃ called fetching, w.log = called ++ fetching ∧ (∀ x ∈ called, x.isFetch = false) ∧
    ∀ x ∈ fetching, x.isFetch = true
  starts : w.starts = calls.map Invocation.path
  returns : w.returns.Perm (calls.map Invocation.path)
  fetches : w.fetches ++ (Progress.idles batches).map Batch.shown = w.batches
  fetched : (w.fetched ++ (Progress.unfinished batches).map Batch.shown).Perm w.batches
  loading : ∃ values₀ c₀, w.returned = some (values₀, c₀) ∧ w.Loading values₀ values c₀ c

end Wave

/-! ## Calls -/

/-- Tasks for fields at a depth, each for its own place. -/
structure Task.Due (depth : Nat) (tasks : List Task) : Prop where
  nodup : (tasks.map Task.fieldPath).Nodup
  depth : ∀ t ∈ tasks, Path.depth t.fieldPath = depth
  field : ∀ t ∈ tasks, t.field.Distinct

theorem Task.due_nil (depth : Nat) : Task.Due depth [] :=
  ⟨List.nodup_nil, (fun _ h => absurd h List.not_mem_nil), fun _ h => absurd h List.not_mem_nil⟩

section

variable {e : Engine σ} {caller : Caller} {w : Wave σ}

/-- The calls that are prepared for the tasks of a wave. -/
theorem Wave.prepared (due : Task.Due w.depth w.tasks) :
    w.Prepared (e.prepare caller w.graph w.tasks).2 := by
  obtain ⟨-, calls, paths⟩ := @prepare_calls σ e caller w.graph w.tasks
  refine ⟨due.nodup.sublist paths, fun i hi => ?_, fun i hi => ?_, fun i hi => ?_⟩
  all_goals obtain ⟨t, ht, free, made⟩ := calls i hi
  · rw [made.path]; exact due.depth t ht
  · rw [made.path, made.field]; exact ⟨t.isField_fieldPath, due.field t ht⟩
  · exact ⟨t, ht, made.path.symm, free⟩

/-- The tasks that the calls of a wave leave are one level further down. -/
theorem Wave.Prepared.due {calls : List (Invocation σ)} (prepared : w.Prepared calls) (g : Graph)
    (values : List Settled) : Task.Due (w.depth + 1) (e.completeWave g calls values).2 where
  nodup := completeWave_distinct (fun i hi => (prepared.field i hi).2.nodup)
    (fun i hi => (prepared.field i hi).1) prepared.nodup g values
  depth t ht := by
    obtain ⟨i, hi, beneath⟩ := completeWave_beneath ht
    obtain ⟨indices, path⟩ := beneath.place
    rw [Task.depth_fieldPath, path, Path.depth_append, Path.depth_indices, prepared.depth i hi]
  field t ht := by
    obtain ⟨i, hi, beneath⟩ := completeWave_beneath ht
    exact (prepared.field i hi).2.sub beneath.selected

end

/-! ## Entries -/

namespace LogEntry

variable {log : List LogEntry}

/-- What fetches log says nothing of resolvers. -/
theorem calls_of_isFetch (h : ∀ x ∈ log, x.isFetch = true) :
    log.filterMap start? = [] ∧ log.filterMap return? = [] := by
  constructor <;> refine List.filterMap_eq_nil_iff.mpr fun x mem => ?_
  all_goals
    have := h x mem
    cases x <;> first | rfl | cases this

/-- What resolvers log says nothing of fetches. -/
theorem fetches_of_isFetch (h : ∀ x ∈ log, x.isFetch = false) :
    log.filterMap fetch? = [] ∧ log.filterMap fetched? = [] := by
  constructor <;> refine List.filterMap_eq_nil_iff.mpr fun x mem => ?_
  all_goals
    have := h x mem
    cases x <;> first | rfl | cases this

end LogEntry

/-! ## Steps of a wave -/

namespace Wave

variable {e : Engine σ} {A : Answers} {w : Wave σ} {c : Coordinator}

theorem Resolving.new {caller : Caller} {run depth : Nat} {g : Graph} {tasks : List Task}
    (due : Task.Due depth tasks) :
    (Wave.new run depth g tasks c : Wave σ).Resolving
      ((e.prepare caller g tasks).2.map (·, .idle)) c := by
  have prepared : (Wave.new run depth g tasks c : Wave σ).Prepared (e.prepare caller g tasks).2 :=
    Wave.prepared due
  have all : ((e.prepare caller g tasks).2.map fun i =>
      (i, (Progress.idle : Progress (FieldValue σ)))).map Prod.fst = (e.prepare caller g tasks).2 := by
    rw [List.map_map]
    exact List.map_id _
  constructor
  case prepared => rw [all]; exact prepared
  case returned => rfl
  case flushes => rfl
  case log => exact fun _ h => nomatch h
  case starts => rw [all, Progress.idles_map_idle]; rfl
  case returns => rw [all, Progress.unfinished_map_idle]; exact .refl _
  case asked => exact .refl c

theorem Resolving.poll {calls : List (Invocation σ × Progress (FieldValue σ))}
    {st : OperationState σ} (R : w.Resolving calls st.coordinator) :
    ({ w with log := w.log ++ (Invocation.pollAll calls st).2.since st } : Wave σ).Resolving
      (Invocation.pollAll calls st).1 (Invocation.pollAll calls st).2.coordinator := by
  have polls := Invocation.pollAll_polls calls st
  have same := Invocation.fst_pollAll calls st
  constructor
  case prepared => rw [same]; exact ⟨R.prepared.nodup, R.prepared.depth, R.prepared.field, R.prepared.task⟩
  case returned => exact R.returned
  case flushes => exact R.flushes
  case log =>
    intro x mem
    rcases List.mem_append.mp mem with mem | mem
    · exact R.log x mem
    · obtain ⟨i, -, rfl | rfl⟩ := polls.entries x mem <;> rfl
  case starts =>
    rw [polls.idles_nil, same, ← R.starts, Wave.starts, List.filterMap_append,
      polls.starts_log Invocation.reads, List.map_nil, List.append_nil]
    rfl
  case returns =>
    rw [same]
    refine .trans ?_ R.returns
    rw [Wave.returns, List.filterMap_append, List.append_assoc]
    exact (polls.returns_log Invocation.reads).append_left _
  case asked =>
    obtain ⟨rs, eq⟩ := OperationState.loads_resolves.pollAll calls st
    rw [eq]
    exact R.asked.trans (Coordinator.asked_loadAll rs _)

theorem Resolving.rescheduled {calls calls' : List (Invocation σ × Progress (FieldValue σ))}
    (h : Progress.Rescheduled calls calls') (R : w.Resolving calls c) : w.Resolving calls' c := by
  obtain ⟨prepared, returned, flushes, log, starts, returns, asked⟩ := R
  rw [← h.map_fst] at prepared starts returns
  rw [← h.idles] at starts
  rw [← h.unfinished] at returns
  exact ⟨prepared, returned, flushes, log, starts, returns, asked⟩

theorem Resolving.collect {calls : List (Invocation σ × Progress (FieldValue σ))}
    {values : List (FieldValue σ)} (R : w.Resolving calls c) (orderly : c.Orderly)
    (waits : Engine.Awaited e A values [] c) (results : Progress.results? calls = some values) :
    ({ w with returned := some (values, c) } : Wave σ).Settling (calls.map Prod.fst) values [] c := by
  have finished : (Progress.results? calls).isSome := by rw [results]; rfl
  have log : ∀ x ∈ w.log, x.isFetch = false := R.log
  constructor
  case prepared => exact ⟨R.prepared.nodup, R.prepared.depth, R.prepared.field, R.prepared.task⟩
  case joined => exact ⟨w.log, [], (List.append_nil _).symm, log, fun _ h => nomatch h⟩
  case starts =>
    have := R.starts
    rwa [Progress.idles_of_results finished, List.map_nil, List.append_nil] at this
  case returns =>
    have := R.returns
    rwa [Progress.unfinished_of_results finished, List.map_nil, List.append_nil] at this
  case fetches =>
    simp [Wave.fetches, Wave.batches, R.flushes, (LogEntry.fetches_of_isFetch log).1, Progress.idles]
  case fetched =>
    simp [Wave.fetched, Wave.batches, R.flushes, (LogEntry.fetches_of_isFetch log).2,
      Progress.unfinished]
  case loading =>
    exact ⟨values, c, rfl, R.asked, orderly, waits.known,
      fun unchained => ⟨unchained, .inl ⟨R.flushes, rfl⟩⟩, fun _ r mem open_ => ⟨mem, open_⟩⟩

theorem Settling.pass {calls : List (Invocation σ)} {values : List (FieldValue σ)}
    {st : OperationState σ} (S : w.Settling calls values [] st.coordinator) :
    w.Settling calls (FieldValue.settleItems values st).1 []
      (FieldValue.settleItems values st).2.coordinator := by
  obtain ⟨values₀, c₀, returned, L⟩ := S.loading
  refine { S with loading := ⟨values₀, c₀, returned, { L with unchained := ?_, waits := ?_ }⟩ }
  · intro unchained
    obtain ⟨now, loads⟩ := L.unchained unchained
    obtain ⟨still, same⟩ := FieldValue.settleItems_unchained values st now
    rw [same]
    exact ⟨still, loads⟩
  · intro none r mem open_
    obtain ⟨waiting, unanswered⟩ := L.waits none r mem open_
    obtain ⟨rs, loads⟩ := OperationState.loads_resolves.settleItems values st
    refine ⟨FieldValue.mem_loads_settleItems values st waiting unanswered, ?_⟩
    rw [loads, Coordinator.answer?_loadAll, unanswered]

theorem Settling.take {calls : List (Invocation σ)} {values : List (FieldValue σ)}
    (S : w.Settling calls values [] c) (queued : c.hasQueued = true) :
    ({ w with flushes := w.flushes ++ [c.takeBatches.1] } : Wave σ).Settling calls values
      (c.takeBatches.1.map (·, .idle)) c.takeBatches.2 := by
  obtain ⟨values₀, c₀, returned, L⟩ := S.loading
  have batches : ({ w with flushes := w.flushes ++ [c.takeBatches.1] } : Wave σ).batches =
      w.batches ++ c.takeBatches.1.map Batch.shown := by simp [Wave.batches]
  constructor
  case prepared => exact ⟨S.prepared.nodup, S.prepared.depth, S.prepared.field, S.prepared.task⟩
  case joined => exact S.joined
  case starts => exact S.starts
  case returns => exact S.returns
  case fetches =>
    rw [batches, Progress.idles_map_idle, ← S.fetches]
    simp [Progress.idles, Wave.fetches]
  case fetched =>
    rw [batches, Progress.unfinished_map_idle]
    have := S.fetched
    simp only [Progress.unfinished, List.filterMap_nil, List.map_nil, List.append_nil] at this
    exact this.append_right _
  case loading =>
    refine ⟨values₀, c₀, returned, L.asked, L.orderly, L.known, fun unchained => ?_, fun none => ?_⟩
    · obtain ⟨now, ⟨none, rfl⟩ | ⟨-, idle⟩⟩ := L.unchained unchained
      · exact ⟨now, .inr ⟨by simp [none], Coordinator.hasQueued_takeBatches _⟩⟩
      · rw [idle] at queued
        cases queued
    · simp at none

theorem Settling.fetch {calls : List (Invocation σ)} {values : List (FieldValue σ)}
    {batches : List (Batch × Progress Unit)} {st : OperationState σ}
    (S : w.Settling calls values batches st.coordinator)
    (registered : ∀ b ∈ Progress.unfinished batches, (e.loaders.lookup b.loader).isSome)
    (flushed : w.flushes ≠ []) :
    ({ w with log := w.log ++ (e.pollBatches batches st).2.since st } : Wave σ).Settling calls values
      (e.pollBatches batches st).1 (e.pollBatches batches st).2.coordinator := by
  have polls := Engine.pollBatches_polls batches st registered
  have entries : ∀ x ∈ (e.pollBatches batches st).2.since st, x.isFetch = true := by
    intro x mem
    obtain ⟨b, -, rfl | rfl⟩ := polls.entries x mem <;> rfl
  obtain ⟨called, fetching, log, calledOnly, fetchingOnly⟩ := S.joined
  obtain ⟨values₀, c₀, returned, L⟩ := S.loading
  constructor
  case prepared => exact ⟨S.prepared.nodup, S.prepared.depth, S.prepared.field, S.prepared.task⟩
  case joined =>
    refine ⟨called, fetching ++ (e.pollBatches batches st).2.since st, ?_, calledOnly, ?_⟩
    · rw [log, List.append_assoc]
    · intro x mem
      exact (List.mem_append.mp mem).elim (fetchingOnly x) (entries x)
  case starts =>
    rw [Wave.starts, List.filterMap_append, (LogEntry.calls_of_isFetch entries).1, List.append_nil]
    exact S.starts
  case returns =>
    rw [Wave.returns, List.filterMap_append, (LogEntry.calls_of_isFetch entries).2, List.append_nil]
    exact S.returns
  case fetches =>
    refine .trans ?_ S.fetches
    rw [polls.idles_nil, Wave.fetches, List.filterMap_append, polls.starts_log Batch.reads,
      List.map_nil, List.append_nil]
    rfl
  case fetched =>
    refine .trans ?_ S.fetched
    rw [Wave.fetched, List.filterMap_append, List.append_assoc]
    exact (polls.returns_log Batch.reads).append_left _
  case loading =>
    refine ⟨values₀, c₀, returned, L.asked, L.orderly, L.known, fun unchained => ?_,
      fun none => absurd none flushed⟩
    obtain ⟨now, ⟨none, -⟩ | ⟨once, idle⟩⟩ := L.unchained unchained
    · exact absurd none flushed
    · exact ⟨now, .inr ⟨once, by rw [Engine.hasQueued_pollBatches, idle]⟩⟩

theorem Settling.rescheduled {calls : List (Invocation σ)} {values : List (FieldValue σ)}
    {batches batches' : List (Batch × Progress Unit)} (h : Progress.Rescheduled batches batches')
    (S : w.Settling calls values batches c) : w.Settling calls values batches' c := by
  obtain ⟨prepared, joined, starts, returns, fetches, fetched, loading⟩ := S
  rw [← h.idles] at fetches
  rw [← h.unfinished] at fetched
  exact ⟨prepared, joined, starts, returns, fetches, fetched, loading⟩

theorem Settling.fetchedAll {calls : List (Invocation σ)} {values : List (FieldValue σ)}
    {batches : List (Batch × Progress Unit)} (finished : (Progress.results? batches).isSome)
    (S : w.Settling calls values batches c) : w.Settling calls values [] c := by
  obtain ⟨prepared, joined, starts, returns, fetches, fetched, loading⟩ := S
  rw [Progress.idles_of_results finished] at fetches
  rw [Progress.unfinished_of_results finished] at fetched
  exact ⟨prepared, joined, starts, returns, fetches, fetched, loading⟩

/-! ## What follows -/

theorem Resolving.disciplined {calls : List (Invocation σ × Progress (FieldValue σ))}
    (R : w.Resolving calls c) : w.Disciplined := by
  have paths := R.starts
  have nodup := R.prepared.nodup
  rw [← paths] at nodup
  have none : ∀ {P : Prop} {r}, w.returned = some r → P := by
    intro P r eq
    rw [R.returned] at eq
    cases eq
  constructor
  case once => exact nodup.of_append_left
  case started =>
    intro p mem
    have : p ∈ (calls.map Prod.fst).map Invocation.path := paths ▸ List.mem_append_left _ mem
    obtain ⟨i, hi, rfl⟩ := List.mem_map.mp this
    exact ⟨R.prepared.depth i hi, R.prepared.task i hi⟩
  case joined =>
    exact ⟨w.log, [], (List.append_nil _).symm, R.log, (fun _ h => nomatch h), fun h => absurd rfl h⟩
  case fetches =>
    rw [Wave.fetches, (LogEntry.fetches_of_isFetch R.log).1]
    exact List.nil_prefix
  case flushed => exact fun _ _ => none
  case carried => exact fun _ _ => none
  case asked => exact fun _ _ => none

theorem Settling.disciplined {calls : List (Invocation σ)} {values : List (FieldValue σ)}
    {batches : List (Batch × Progress Unit)} (S : w.Settling calls values batches c) :
    w.Disciplined := by
  obtain ⟨called, fetching, log, calledOnly, fetchingOnly⟩ := S.joined
  obtain ⟨values₀, c₀, returned, L⟩ := S.loading
  constructor
  case once => rw [S.starts]; exact S.prepared.nodup
  case started =>
    intro p mem
    rw [S.starts] at mem
    obtain ⟨i, hi, rfl⟩ := List.mem_map.mp mem
    exact ⟨S.prepared.depth i hi, S.prepared.task i hi⟩
  case joined =>
    refine ⟨called, fetching, log, calledOnly, fetchingOnly, fun _ => ?_⟩
    rw [S.starts]
    exact S.returns
  case fetches => exact ⟨_, S.fetches⟩
  case flushed =>
    intro values' c' eq unchained
    cases returned.symm.trans eq
    exact (L.unchained unchained).2.imp And.left And.left
  case carried =>
    intro values' c' eq n
    cases returned.symm.trans eq
    obtain ⟨new, known, queued⟩ := L.asked n
    exact ⟨L.orderly.known n, new, known, by rw [L.orderly.keys_takeBatches, queued]⟩
  case asked =>
    intro values' c' eq
    cases returned.symm.trans eq
    exact L.known

theorem Settling.ended {calls : List (Invocation σ)} {values : List (FieldValue σ)}
    (S : w.Settling calls values [] c) (settled : itemsSettled values = true) : w.Over := by
  have fetches : w.fetches = w.batches := by simpa [Progress.idles] using S.fetches
  have fetched : w.fetched.Perm w.batches := by simpa [Progress.unfinished] using S.fetched
  obtain ⟨values₀, c₀, returned, L⟩ := S.loading
  refine ⟨by rw [S.starts]; exact S.returns, fetches, by rw [fetches]; exact fetched, values₀, c₀,
    returned, fun r mem open_ none => ?_⟩
  have := (L.waits none r mem open_).1
  rw [FieldValue.loads_of_itemsSettled settled] at this
  cases this

end Wave

/-! ## Moments -/

/-- A wave comes after those of a point before it. -/
def Wave.Upto (run depth : Nat) (w : Wave σ) : Prop := w.run < run ∨ w.run = run ∧ w.depth ≤ depth

/-- What is kept of the point that an execution stands at, after the waves `past`. -/
def Point.Keeps (past : List (Wave σ)) (c : Coordinator) : Point σ → Prop
  | .tasks _ run depth _ ts => Task.Due (depth + 1) ts ∧ ∀ w ∈ past, w.Upto run depth
  | .resolving _ w _ calls => w.Resolving calls c ∧ ∀ w' ∈ past, w'.Before w
  | .settling _ w _ calls values | .passed _ w _ calls values =>
    w.Settling calls values [] c ∧ ∀ w' ∈ past, w'.Before w
  | .fetching _ w _ calls values batches =>
    w.Settling calls values batches c ∧ w.flushes ≠ [] ∧ ∀ w' ∈ past, w'.Before w
  | .stopped wave _ _ => ∀ w, wave = some w → w.Disciplined ∧ ∀ w' ∈ past, w'.Before w

/-- The wave at work. -/
theorem Point.Keeps.wave {past : List (Wave σ)} {c : Coordinator} {point : Point σ}
    (K : point.Keeps past c) {w : Wave σ} (at_work : point.wave? = some w) :
    w.Disciplined ∧ ∀ w' ∈ past, w'.Before w := by
  cases point with
  | tasks => cases at_work
  | resolving => cases at_work; exact ⟨K.1.disciplined, K.2⟩
  | settling => cases at_work; exact ⟨K.1.disciplined, K.2⟩
  | passed => cases at_work; exact ⟨K.1.disciplined, K.2⟩
  | fetching => cases at_work; exact ⟨K.1.disciplined, K.2.2⟩
  | stopped => exact K w at_work

/-- What is kept at every moment of an execution whose runs begin beneath the depth `base`. -/
structure Moment.Keeps (base : Nat) (m : Moment σ) : Prop where
  orderly : m.state.coordinator.Orderly
  past : ∀ w ∈ m.past, w.Disciplined ∧ w.Over
  order : m.past.Pairwise Wave.Before
  remaining : ∀ tasks ∈ m.remaining, Task.Due (base + 1) tasks
  point : m.point.Keeps m.past m.state.coordinator

namespace Engine

variable {e : Engine σ} {caller : Caller} {rules : Rules σ} {base : Nat} {m m' : Moment σ}

theorem Step.keeps (h : e.Step caller rules base m m') (K : m.Keeps base)
    (waits : m.point.Awaits e e.MayAnswer m.state) : m'.Keeps base := by
  obtain ⟨orderly, past, order, remaining, point⟩ := K
  cases h with
  | next =>
    refine ⟨orderly, past, order, fun ts mem => remaining ts (List.mem_cons_of_mem _ mem),
      remaining _ List.mem_cons_self, fun w hw => ?_⟩
    have := point.2 w hw
    unfold Wave.Upto at *
    omega
  | prepare =>
    refine ⟨orderly, past, order, remaining, .new point.1, fun w hw => ?_⟩
    have := point.2 w hw
    simp only [Wave.Upto, Wave.Before, Wave.new] at *
    omega
  | resolve =>
    refine ⟨?_, past, order, remaining, point.1.poll, point.2⟩
    obtain ⟨rs, eq⟩ := OperationState.loads_resolves.pollAll _ _
    rw [eq]
    exact orderly.loadAll rs
  | collect results =>
    exact ⟨orderly, past, order, remaining,
      point.1.collect orderly (Answering.results waits results).2 results, point.2⟩
  | pass =>
    refine ⟨?_, past, order, remaining, point.1.pass, point.2⟩
    obtain ⟨rs, eq⟩ := OperationState.loads_resolves.settleItems _ _
    rw [eq]
    exact orderly.loadAll rs
  | take _ queued =>
    exact ⟨orderly.takeBatches, past, order, remaining, point.1.take queued, by simp, point.2⟩
  | fetch =>
    refine ⟨?_, past, order, remaining, point.1.fetch (fun b mem => ?_) point.2.1, point.2⟩
    · obtain ⟨calls, eq, -⟩ := finishes_pollBatches _ _
      rw [eq]
      exact orderly.finishAll calls
    · exact waits.tracked.registered (inFlight_eq _ ▸ mem)
  | fetched finished =>
    exact ⟨orderly, past, order, remaining, point.1.fetchedAll finished, point.2.2⟩
  | complete done =>
    have ended := point.1.ended (settled_of_complete waits done)
    refine ⟨orderly, fun w hw => ?_, ?_, remaining, point.1.prepared.due _ _, fun w hw => ?_⟩
    · rcases List.mem_append.mp hw with hw | hw
      · exact past w hw
      · rw [List.mem_singleton.mp hw]
        exact ⟨point.1.disciplined, ended⟩
    · exact List.pairwise_append.mpr ⟨order, List.pairwise_singleton _ _, fun w hw w' hw' =>
        List.mem_singleton.mp hw' ▸ point.2 w hw⟩
    · rcases List.mem_append.mp hw with hw | hw
      · have := point.2 w hw
        unfold Wave.Upto Wave.Before at *
        omega
      · rw [List.mem_singleton.mp hw]
        exact .inr ⟨rfl, Nat.le_refl _⟩
  | stop => exact ⟨orderly, past, order, remaining, fun w hw => point.wave hw⟩

theorem Pause.keeps (h : Pause rules m m') (K : m.Keeps base) : m'.Keeps base := by
  obtain ⟨orderly, past, order, remaining, point⟩ := K
  cases h with
  | resolving rescheduled between =>
    have same := rules.loads between
    refine ⟨same ▸ orderly, past, order, remaining, ?_⟩
    exact ⟨same ▸ point.1.rescheduled rescheduled, point.2⟩
  | fetching rescheduled between =>
    have same := rules.loads between
    refine ⟨same ▸ orderly, past, order, remaining, ?_⟩
    exact ⟨same ▸ point.1.rescheduled rescheduled, point.2⟩

theorem Reaches.keeps (reached : e.Reaches caller rules base m m') (K : m.Keeps base)
    (waits : m.point.Awaits e e.MayAnswer m.state) : m'.Keeps base := by
  induction reached with
  | refl => exact K
  | tail before h ih =>
    have awaits := Reaches.awaits e.answersBy_mayAnswer before waits
    exact h.elim (fun step => step.keeps ih awaits) fun pause => pause.keeps ih

/-- An operation begins with tasks that are due. -/
theorem From.keeps {r : Request} {g : Graph} {runs : List (List Task)} {st : OperationState σ}
    (distinct : (RequestField.whole r.fields).Distinct) (orderly : st.coordinator.Orderly)
    (h : e.From r base g runs) : (Moment.initial g runs st).Keeps base := by
  have each : ∀ {f}, f ∈ r.fields → f.Distinct := fun mem => distinct.sub mem
  have due : ∀ tasks ∈ runs, Task.Due (base + 1) tasks := by
    intro tasks mem
    cases h with
    | @request rootType found =>
      have single : ∀ f ∈ r.fields, Task.Due 1 [rootTask rootType f] := fun f hf =>
        ⟨List.nodup_singleton _, fun t ht => by rw [List.mem_singleton.mp ht]; rfl,
          fun t ht => by rw [List.mem_singleton.mp ht]; exact each hf⟩
      have all : Task.Due 1 (r.fields.map (rootTask rootType)) := by
        refine ⟨?_, fun t ht => ?_, fun t ht => ?_⟩
        · rw [List.map_map]
          have := distinct.nodup.map fun (a b : String) (same : PathSegment.field a = .field b) =>
            PathSegment.field.inj same
          have := this.map fun (a b : PathSegment) (same : [a] = [b]) => List.head_eq_of_cons_eq same
          simpa [Function.comp_def, Task.fieldPath, rootTask, RequestField.whole] using this
        · obtain ⟨f, -, rfl⟩ := List.mem_map.mp ht
          rfl
        · obtain ⟨f, hf, rfl⟩ := List.mem_map.mp ht
          exact each hf
      unfold Engine.runs at mem
      split at mem
      · obtain ⟨f, hf, rfl⟩ := List.mem_map.mp mem
        exact single f hf
      · rw [List.mem_singleton.mp mem]
        exact all
    | @event rootType field d v found fields defined =>
      rw [List.mem_singleton.mp mem]
      have distinct := each (f := field) (by rw [fields]; exact List.mem_singleton_self _)
      have laid : Task.Laid e.schema field _ _ _ := completeValue_laid
        (Graph.new.addField Graph.root field.outputName d.type.isNonNull) Graph.new.size d.type v
        [.field field.outputName]
      refine ⟨laid.distinct distinct.nodup, fun t ht => ?_, fun t ht => ?_⟩
      · obtain ⟨indices, path⟩ := (laid.beneath t ht).place
        rw [Task.depth_fieldPath, path, Path.depth_append, Path.depth_indices]
        rfl
      · exact distinct.sub (laid.beneath t ht).selected
  exact ⟨orderly, (fun _ h => absurd h List.not_mem_nil), .nil, due, Task.due_nil _,
    fun _ h => absurd h List.not_mem_nil⟩

end Engine

/-! ## The discipline -/

/-- The paths of the resolvers that a run started. -/
def Moment.startsOf (m : Moment σ) (run : Nat) : List Path :=
  (m.waves.filter (·.run = run)).flatMap Wave.starts

/-- What the waves of an execution kept to. -/
structure Moment.Disciplined (m : Moment σ) : Prop where
  each : ∀ w ∈ m.waves, w.Disciplined
  /-- All that a wave did was over before the next one began. -/
  past : ∀ w ∈ m.past, w.Over
  /-- The waves came run by run, and those of a run deeper and deeper. -/
  order : m.waves.Pairwise Wave.Before
  /-- In each run resolvers were started in the order of their depths. -/
  depths : ∀ run, (m.startsOf run).Pairwise fun p q => p.depth ≤ q.depth
  /-- In each run the resolver of a path was started once. -/
  once : ∀ run, (m.startsOf run).Nodup

/-- The starts of waves that go deeper and deeper. -/
theorem Wave.starts_pairwise {ws : List (Wave σ)} (each : ∀ w ∈ ws, w.Disciplined)
    (order : ws.Pairwise fun w w' => w.depth < w'.depth) :
    ((ws.flatMap Wave.starts).Pairwise fun p q => p.depth ≤ q.depth) ∧
      (ws.flatMap Wave.starts).Nodup := by
  have within : ∀ w ∈ ws, ∀ p ∈ w.starts, p.depth = w.depth :=
    fun w hw p hp => ((each w hw).started p hp).1
  constructor
  · rw [List.pairwise_flatMap]
    refine ⟨fun w hw => List.pairwise_iff_forall_sublist.mpr fun sub => ?_,
      order.imp_of_mem fun hw hw' lt p hp q hq => ?_⟩
    · have hp := within w hw _ (sub.subset List.mem_cons_self)
      have hq := within w hw _ (sub.subset (List.mem_cons_of_mem _ List.mem_cons_self))
      omega
    · have := within _ hw p hp
      have := within _ hw' q hq
      omega
  · rw [List.Nodup, List.pairwise_flatMap]
    refine ⟨fun w hw => (each w hw).once, order.imp_of_mem fun hw hw' lt p hp q hq eq => ?_⟩
    have := within _ hw p hp
    have := within _ hw' q hq
    rw [eq] at *
    omega

theorem Moment.Keeps.disciplined {base : Nat} {m : Moment σ} (K : m.Keeps base) :
    m.Disciplined := by
  have each : ∀ w ∈ m.waves, w.Disciplined := by
    intro w hw
    rcases List.mem_append.mp hw with hw | hw
    · exact (K.past w hw).1
    · exact (K.point.wave (Option.mem_toList.mp hw)).1
  have order : m.waves.Pairwise Wave.Before :=
    List.pairwise_append.mpr ⟨K.order, by cases m.point.wave? <;> simp, fun w hw w' hw' =>
      (K.point.wave (Option.mem_toList.mp hw')).2 w hw⟩
  have starts : ∀ run, ((m.startsOf run).Pairwise fun p q => p.depth ≤ q.depth) ∧
      (m.startsOf run).Nodup := fun run =>
    Wave.starts_pairwise (fun w hw => each w (List.mem_filter.mp hw).1)
      ((order.filter _).imp_of_mem fun hw hw' before => by
        have hw := of_decide_eq_true (List.mem_filter.mp hw).2
        have hw' := of_decide_eq_true (List.mem_filter.mp hw').2
        unfold Wave.Before at before
        omega)
  exact ⟨each, fun w hw => (K.past w hw).2, order, fun run => (starts run).1,
    fun run => (starts run).2⟩

/-- Whatever resolvers return and loaders answer, and in whatever order they do, the waves of every
validated query, of every run of a mutation and of every event of a subscription keep their
discipline. -/
theorem waves_disciplined {e : Engine σ} (registered : (e.loaders.map Prod.fst).Nodup)
    {document : Document} {name : Option String} {supplied : OrderedMap Json} {r : Request}
    (validated : Request.ofDocument e.schema (some e.settings.maxQueryDepth) document name supplied =
      .ok r) {caller : Caller} {base : Nat} {st₀ : OperationState σ}
    {start : Polled σ × OperationState σ} (begins : e.Begins r caller base st₀ start)
    {log : List LogEntry} {p : Polled σ × OperationState σ}
    (course : e.Course caller .free st₀ start log p) :
    ∃ g runs m, e.From r base g runs ∧ start = e.begin caller g runs st₀ ∧
      e.Reaches caller .free base (.initial g runs st₀) m ∧ m.Stands p ∧ m.log = log ∧
      m.Disciplined := by
  obtain ⟨rootType, root, sound⟩ := (Request.ofDocument_valid validated).root
  obtain ⟨g, runs, m, from_, began, reached, stands, own⟩ := begins.reaches course
  have orderly : st₀.coordinator.Orderly := begins.coordinator ▸ .coordinator registered
  have tracked : Tracked e e.MayAnswer [] st₀.coordinator :=
    begins.coordinator ▸ .coordinator e e.MayAnswer
  have K := reached.keeps (from_.keeps sound.distinct orderly) tracked
  exact ⟨g, runs, m, from_, began, reached, stands, own, K.disciplined⟩

/-! ## Two siblings -/

namespace Siblings

def schema : Schema :=
  ⟨⟨[("Int", ⟨"Int", .scalar .int⟩), ("Float", ⟨"Float", .scalar .float⟩),
      ("String", ⟨"String", .scalar .string⟩), ("Boolean", ⟨"Boolean", .scalar .boolean⟩),
      ("ID", ⟨"ID", .scalar .id⟩),
      ("Query", ⟨"Query", .object [("left", .of "left" (.named "Int")),
        ("right", .of "right" (.named "Int"))]⟩)], by decide⟩,
    "Query", none, none⟩

/-- The right field returns late; the left one asks for a key that it does not wait for. -/
def engine : Engine Unit :=
  ⟨schema,
    ⟨[(⟨"Query", "left"⟩, .field
        ⟨fun _ => 0, fun _ s => (.ok (.load 0 (.integer 3)), s.request 0 (.integer 5))⟩),
      (⟨"Query", "right"⟩, .field
        ⟨fun _ => 7, fun _ s => (.ok (.load 0 (.integer 4)), s)⟩)]⟩,
    [(0, Squares.loader)], .default⟩

/-- The document `{ left right }`. -/
def document : Document :=
  ⟨.anonymous ⟨.nowhere, .query, [], [], [.field ⟨.nowhere, none, "left", [], []⟩ [],
    .field ⟨.nowhere, none, "right", [], []⟩ []]⟩, []⟩

def request : Request := ⟨none, .query, [⟨none, "left", [], []⟩, ⟨none, "right", [], []⟩]⟩

theorem validated : Request.ofDocument engine.schema (some engine.settings.maxQueryDepth) document
    none [] = .ok request := by
  cbv

abbrev begun : OperationState Unit := ⟨0, engine.coordinator, .start default ()⟩

/-- The state when the late field is due. -/
def due (st : OperationState Unit) : OperationState Unit :=
  { st with world := { st.world with clock := 7 } }

/-- The log and the data of the execution. -/
def answer? : Option (List LogEntry × Option Json) :=
  match engine.execute request Sample.caller begun with
  | .ok (.suspended ⟨g, .resolving levels calls, remaining⟩, st) =>
    match engine.poll Sample.caller ⟨g, .resolving levels calls, remaining⟩ (due st) with
    | (.completed g, st') => some (st.since begun ++ st'.since (due st), g.data)
    | _ => none
  | _ => none

theorem course {log : List LogEntry} {data : Option Json} (h : answer? = some (log, data)) :
    ∃ start g st, engine.Begins request Sample.caller 0 begun start ∧
      engine.Course Sample.caller .free begun start log (.completed g, st) ∧ g.data = data := by
  unfold answer? at h
  split at h
  · next g levels calls remaining st started =>
    split at h
    · next g' st' polled =>
      obtain ⟨rfl, rfl⟩ := Prod.mk.inj (Option.some.inj h)
      have first : engine.Course Sample.caller .free begun
          (.suspended ⟨g, .resolving levels calls, remaining⟩, st) (st.since begun) _ := .start
      have between : Rules.free.between st (due st) := rfl
      have later := first.poll (.resolving levels (.refl calls)) trivial between
      rw [polled] at later
      exact ⟨_, g', st', .request started, later, rfl⟩
    · cases h
  · cases h

/-- The fetch of all three keys starts after the late field has returned. -/
theorem waves_disciplined_siblings :
    ∃ log start g st, ∃ m : Moment Unit, engine.Begins request Sample.caller 0 begun start ∧
      engine.Course Sample.caller .free begun start log (.completed g, st) ∧
      g.data = some (.obj [("left", .int 9), ("right", .int 16)]) ∧
      log = [.resolverStarted "Query" "left" [.field "left"],
        .resolverReturned "Query" "left" [.field "left"],
        .resolverStarted "Query" "right" [.field "right"],
        .resolverReturned "Query" "right" [.field "right"],
        .fetchStarted "squares" [.integer 5, .integer 3, .integer 4],
        .fetchReturned "squares" [.integer 5, .integer 3, .integer 4]] ∧
      m.log = log ∧ m.Stands (.completed g, st) ∧ m.Disciplined := by
  obtain ⟨start, g, st, begins, course, data⟩ := course (by cbv)
  obtain ⟨-, -, m, -, -, -, stands, own, disciplined⟩ :=
    waves_disciplined (by decide) validated begins course
  exact ⟨_, start, g, st, m, begins, course, data, rfl, own, stands, disciplined⟩

end Siblings

end GraphQLEngine
