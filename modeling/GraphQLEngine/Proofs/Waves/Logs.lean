import GraphQLEngine.Proofs.Graph.Runs
import GraphQLEngine.Proofs.Waves.Steps

/-!
# What polls log

Resolvers and fetches are polled alike: what is idle starts, what is due returns, and both are
logged.  So after a poll nothing is idle, what was idle has been started in its order, and what had
not returned has returned since or is still to.
-/

namespace GraphQLEngine

variable {σ : Type}

/-! ## Entries -/

namespace LogEntry

/-- The path of a resolver that was started. -/
def start? : LogEntry → Option Path
  | .resolverStarted _ _ path => some path
  | _ => none

/-- The path of a resolver that has returned. -/
def return? : LogEntry → Option Path
  | .resolverReturned _ _ path => some path
  | _ => none

/-- The loader and the keys of a fetch that was started. -/
def fetch? : LogEntry → Option (String × List LoadKey)
  | .fetchStarted name keys => some (name, keys)
  | _ => none

/-- The loader and the keys of a fetch that has returned. -/
def fetched? : LogEntry → Option (String × List LoadKey)
  | .fetchReturned name keys => some (name, keys)
  | _ => none

/-- Whether the entry is one of a fetch. -/
def isFetch : LogEntry → Bool
  | .fetchStarted .. | .fetchReturned .. => true
  | .resolverStarted .. | .resolverReturned .. => false

end LogEntry

/-! ## Polls -/

namespace Progress

variable {α β γ : Type}

/-- What has not started. -/
def idles (ps : List (α × Progress β)) : List α :=
  ps.filterMap fun (a, p) => match p with
    | .idle => some a
    | _ => none

/-- What has not returned. -/
def unfinished (ps : List (α × Progress β)) : List α :=
  ps.filterMap fun (a, p) => match p with
    | .finished _ => none
    | _ => some a

/-- A poll of something at work, with what it logs. -/
inductive Polls (started returned : LogEntry) : Progress β → Progress β → List LogEntry → Prop
  | finished (b : β) : Polls started returned (.finished b) (.finished b) []
  | waits (deadline : Nat) : Polls started returned (.waiting deadline) (.waiting deadline) []
  | returns (deadline : Nat) (b : β) :
    Polls started returned (.waiting deadline) (.finished b) [returned]
  | starts (deadline : Nat) : Polls started returned .idle (.waiting deadline) [started]
  | runs (b : β) : Polls started returned .idle (.finished b) [started, returned]

/-- Polls in turn. -/
inductive PollsAll (started returned : α → LogEntry) :
    List (α × Progress β) → List (α × Progress β) → List LogEntry → Prop
  | nil : PollsAll started returned [] [] []
  | cons {a : α} {p p' : Progress β} {ps ps' : List (α × Progress β)} {new news : List LogEntry} :
    Polls (started a) (returned a) p p' new → PollsAll started returned ps ps' news →
      PollsAll started returned ((a, p) :: ps) ((a, p') :: ps') (new ++ news)

/-- How the entries of the log are read. -/
structure Reads (started returned : α → LogEntry) (starts returns : LogEntry → Option γ)
    (key : α → γ) : Prop where
  starts_started : ∀ a, starts (started a) = some (key a)
  starts_returned : ∀ a, starts (returned a) = none
  returns_started : ∀ a, returns (started a) = none
  returns_returned : ∀ a, returns (returned a) = some (key a)

theorem idles_map_idle (as : List α) : idles (as.map (·, (idle : Progress β))) = as := by
  induction as with
  | nil => rfl
  | cons a as ih => simp [idles]

theorem unfinished_map_idle (as : List α) : unfinished (as.map (·, (idle : Progress β))) = as := by
  induction as with
  | nil => rfl
  | cons a as ih => simp [unfinished]

/-- Once all are finished, nothing is left that is looked for among what is not. -/
theorem filterMap_of_results {f : α × Progress β → Option γ} {ps : List (α × Progress β)}
    (h : (results? ps).isSome) (finished : ∀ a b, f (a, .finished b) = none) :
    ps.filterMap f = [] := by
  induction ps with
  | nil => rfl
  | cons ap rest ih =>
    obtain ⟨a, p⟩ := ap
    cases p with
    | finished b =>
      rw [results?, Option.isSome_map] at h
      rw [List.filterMap_cons_none (finished a b)]
      exact ih h
    | _ => simp [results?] at h

theorem unfinished_of_results {ps : List (α × Progress β)} (h : (results? ps).isSome) :
    unfinished ps = [] :=
  filterMap_of_results h fun _ _ => rfl

theorem idles_of_results {ps : List (α × Progress β)} (h : (results? ps).isSome) :
    idles ps = [] :=
  filterMap_of_results h fun _ _ => rfl

theorem Rescheduled.filterMap_eq {f : α × Progress β → Option γ} {ps ps' : List (α × Progress β)}
    (h : Rescheduled ps ps') (delays : ∀ a d d', f (a, .waiting d') = f (a, .waiting d)) :
    ps'.filterMap f = ps.filterMap f := by
  induction h with
  | nil => rfl
  | @cons ap ap' _ _ h _ ih =>
    obtain ⟨a, p⟩ := ap
    obtain ⟨a', p'⟩ := ap'
    obtain ⟨rfl, delayed⟩ := h
    rw [List.filterMap_cons, List.filterMap_cons, ih]
    cases delayed with
    | same => rfl
    | waiting d d' => rw [delays]

theorem Rescheduled.idles {ps ps' : List (α × Progress β)} (h : Rescheduled ps ps') :
    Progress.idles ps' = Progress.idles ps :=
  h.filterMap_eq fun _ _ _ => rfl

theorem Rescheduled.unfinished {ps ps' : List (α × Progress β)} (h : Rescheduled ps ps') :
    Progress.unfinished ps' = Progress.unfinished ps :=
  h.filterMap_eq fun _ _ _ => rfl

namespace PollsAll

variable {started returned : α → LogEntry} {starts returns : LogEntry → Option γ} {key : α → γ}
  {ps ps' : List (α × Progress β)} {log : List LogEntry}

theorem idles_nil (h : PollsAll started returned ps ps' log) : idles ps' = [] := by
  induction h with
  | nil => rfl
  | cons h _ ih =>
    simp only [idles] at ih
    cases h <;> simp [idles, ih]

theorem entries (h : PollsAll started returned ps ps' log) :
    ∀ x ∈ log, ∃ a ∈ ps.map Prod.fst, x = started a ∨ x = returned a := by
  induction h with
  | nil => exact fun _ h => nomatch h
  | @cons a _ _ _ _ _ _ h _ ih =>
    intro x mem
    rcases List.mem_append.mp mem with mem | mem
    · refine ⟨a, List.mem_cons_self, ?_⟩
      cases h <;> simp_all
    · obtain ⟨b, among, eq⟩ := ih x mem
      exact ⟨b, List.mem_cons_of_mem _ among, eq⟩

/-- What was idle is started in its order. -/
theorem starts_log (h : PollsAll started returned ps ps' log)
    (reads : Reads started returned starts returns key) :
    log.filterMap starts = (idles ps).map key := by
  induction h with
  | nil => rfl
  | cons h _ ih =>
    simp only [idles] at ih
    cases h <;> simp [idles, ih, reads.starts_started, reads.starts_returned]

/-- What had not returned has returned or is still to. -/
theorem returns_log (h : PollsAll started returned ps ps' log)
    (reads : Reads started returned starts returns key) :
    (log.filterMap returns ++ (unfinished ps').map key).Perm ((unfinished ps).map key) := by
  induction h with
  | nil => exact .refl _
  | @cons a _ _ ps ps' _ news h _ ih =>
    have later : (news.filterMap returns ++ key a :: (unfinished ps').map key).Perm
        (key a :: (unfinished ps).map key) :=
      List.perm_middle.trans (ih.cons _)
    simp only [unfinished] at ih later
    cases h with
    | finished => simpa [unfinished] using ih
    | waits => simpa [unfinished] using later
    | returns => simpa [unfinished, reads.returns_returned] using ih
    | starts => simpa [unfinished, reads.returns_started] using later
    | runs => simpa [unfinished, reads.returns_started, reads.returns_returned] using ih

end PollsAll

end Progress

/-! ## Resolvers -/

namespace Invocation

def started (i : Invocation σ) : LogEntry :=
  .resolverStarted i.call.typeName i.call.fieldName i.path

def returned (i : Invocation σ) : LogEntry :=
  .resolverReturned i.call.typeName i.call.fieldName i.path

theorem reads : Progress.Reads (started (σ := σ)) returned LogEntry.start? LogEntry.return? path :=
  ⟨fun _ => rfl, fun _ => rfl, fun _ => rfl, fun _ => rfl⟩

theorem poll_polls (i : Invocation σ) (p : Progress (FieldValue σ)) (st : OperationState σ) :
    ∃ new, Progress.Polls i.started i.returned p (i.poll p st).1 new ∧
      (i.poll p st).2.world.log = st.world.log ++ new := by
  have ran : ∀ st' : OperationState σ,
      (i.run st').2.world.log = st'.world.log ++ [i.returned] := by
    intro st'
    have := OperationState.log_absorb st' (i.run st').1 (i.resolver.run i.call st'.scope).2
    rw [← this]
    rfl
  cases p with
  | finished v => exact ⟨[], .finished v, (List.append_nil _).symm⟩
  | waiting deadline =>
    rw [poll]
    split
    · exact ⟨_, .returns _ _, ran st⟩
    · exact ⟨[], .waits deadline, (List.append_nil _).symm⟩
  | idle =>
    rw [poll]
    split
    · refine ⟨_, .runs _, (ran _).trans ?_⟩
      exact List.append_assoc _ [i.started] [i.returned]
    · exact ⟨_, .starts _, rfl⟩

theorem pollAll_polls (calls : List (Invocation σ × Progress (FieldValue σ)))
    (st : OperationState σ) :
    Progress.PollsAll started returned calls (pollAll calls st).1
      ((pollAll calls st).2.since st) := by
  suffices h : ∃ new, Progress.PollsAll started returned calls (pollAll calls st).1 new ∧
      (pollAll calls st).2.world.log = st.world.log ++ new by
    obtain ⟨new, polls, log⟩ := h
    rwa [OperationState.since, log, List.drop_left]
  induction calls generalizing st with
  | nil => exact ⟨[], .nil, (List.append_nil _).symm⟩
  | cons c rest ih =>
    obtain ⟨i, p⟩ := c
    obtain ⟨new, polls, log⟩ := i.poll_polls p st
    obtain ⟨news, rest, logs⟩ := ih (i.poll p st).2
    exact ⟨new ++ news, .cons polls rest, by rw [pollAll, logs, log, List.append_assoc]⟩

end Invocation

/-! ## Fetches -/

namespace Batch

def started (b : Batch) : LogEntry := .fetchStarted b.name b.keys

def returned (b : Batch) : LogEntry := .fetchReturned b.name b.keys

/-- What the log says of a batch. -/
def shown (b : Batch) : String × List LoadKey := (b.name, b.keys)

theorem reads : Progress.Reads started returned LogEntry.fetch? LogEntry.fetched? shown :=
  ⟨fun _ => rfl, fun _ => rfl, fun _ => rfl, fun _ => rfl⟩

end Batch

namespace Engine

variable {e : Engine σ}

theorem pollBatch_polls (b : Batch) (p : Progress Unit) (st : OperationState σ)
    (registered : b ∈ Progress.unfinished [(b, p)] → (e.loaders.lookup b.loader).isSome) :
    ∃ new, Progress.Polls b.started b.returned p (e.pollBatch b p st).1 new ∧
      (e.pollBatch b p st).2.world.log = st.world.log ++ new := by
  have ran : (e.loaders.lookup b.loader).isSome → ∀ st' : OperationState σ,
      (e.runBatch b st').world.log = st'.world.log ++ [b.returned] := by
    intro registered st'
    obtain ⟨loader, found⟩ := Option.isSome_iff_exists.mp registered
    rw [runBatch, found]
    rfl
  cases p with
  | finished => exact ⟨[], .finished (), (List.append_nil _).symm⟩
  | waiting deadline =>
    have registered := registered List.mem_cons_self
    rw [pollBatch]
    split
    · exact ⟨_, .returns _ _, ran registered st⟩
    · exact ⟨[], .waits deadline, (List.append_nil _).symm⟩
  | idle =>
    have registered := registered List.mem_cons_self
    rw [pollBatch]
    split
    · refine ⟨_, .runs _, (ran registered _).trans ?_⟩
      exact List.append_assoc _ [b.started] [b.returned]
    · exact ⟨_, .starts _, rfl⟩

theorem pollBatches_polls (bs : List (Batch × Progress Unit)) (st : OperationState σ)
    (registered : ∀ b ∈ Progress.unfinished bs, (e.loaders.lookup b.loader).isSome) :
    Progress.PollsAll Batch.started Batch.returned bs (e.pollBatches bs st).1
      ((e.pollBatches bs st).2.since st) := by
  suffices h : ∃ new, Progress.PollsAll Batch.started Batch.returned bs (e.pollBatches bs st).1 new ∧
      (e.pollBatches bs st).2.world.log = st.world.log ++ new by
    obtain ⟨new, polls, log⟩ := h
    rwa [OperationState.since, log, List.drop_left]
  induction bs generalizing st with
  | nil => exact ⟨[], .nil, (List.append_nil _).symm⟩
  | cons bp rest ih =>
    obtain ⟨b, p⟩ := bp
    have split : Progress.unfinished ((b, p) :: rest) =
        Progress.unfinished [(b, p)] ++ Progress.unfinished rest := by
      cases p <;> rfl
    rw [split] at registered
    obtain ⟨new, polls, log⟩ := pollBatch_polls b p st fun mem =>
      registered b (List.mem_append_left _ mem)
    obtain ⟨news, rest, logs⟩ := ih (e.pollBatch b p st).2 fun b' mem =>
      registered b' (List.mem_append_right _ mem)
    exact ⟨new ++ news, .cons polls rest, by rw [pollBatches, logs, log, List.append_assoc]⟩

/-- Batches log nothing but fetches, whether or not their loaders are registered. -/
theorem logs_fetches : OperationState.Fetches e fun st st' =>
    ∃ new, st'.world.log = st.world.log ++ new ∧ ∀ x ∈ new, x.isFetch = true where
  refl _ := ⟨[], (List.append_nil _).symm, fun _ h => nomatch h⟩
  trans := fun ⟨new, log, fetches⟩ ⟨new', log', fetches'⟩ =>
    ⟨new ++ new', by rw [log', log, List.append_assoc],
      List.forall_mem_append.mpr ⟨fetches, fetches'⟩⟩
  start _ b := ⟨[b.started], rfl, List.forall_mem_singleton.mpr rfl⟩
  fetch st b := by
    rw [runBatch]
    split
    · exact ⟨[], (List.append_nil _).symm, fun _ h => nomatch h⟩
    · exact ⟨[b.returned], rfl, List.forall_mem_singleton.mpr rfl⟩

theorem since_pollBatches (bs : List (Batch × Progress Unit)) (st : OperationState σ) :
    ∀ x ∈ (e.pollBatches bs st).2.since st, x.isFetch = true := by
  obtain ⟨new, log, fetches⟩ := (logs_fetches (e := e)).pollBatches bs st
  rwa [OperationState.since, log, List.drop_left]

theorem inFlight_eq (bs : List (Batch × Progress Unit)) : inFlight bs = Progress.unfinished bs := by
  induction bs with
  | nil => rfl
  | cons bp rest ih =>
    obtain ⟨b, p⟩ := bp
    cases p <;> simpa [inFlight, Progress.unfinished] using ih

end Engine

end GraphQLEngine
