import GraphQLEngine.Proofs.Waves.Discipline

/-!
# Resolvers without a delay

Where no resolver has a delay, each returns when it is started, before the next one is.  So the
resolvers of a wave return in the order of its fields, whatever happens between polls.

    e.Prompt  →  w.returns = (e.prepare caller w.graph w.tasks).2.map path
-/

namespace GraphQLEngine

variable {σ : Type}

/-- No resolver of the engine has a delay. -/
def Engine.Prompt (e : Engine σ) : Prop :=
  ∀ {key resolver}, e.dispatch.resolverFor key = .ok resolver → ∀ call, resolver.delay call = 0

namespace Progress

variable {α β γ : Type}

/-- It was not started or has returned. -/
def Instant (p : Progress β) : Prop := ∀ deadline, p ≠ .waiting deadline

variable {started returned : α → LogEntry} {starts returns : LogEntry → Option γ} {key : α → γ}
  {ps ps' : List (α × Progress β)} {log : List LogEntry}

/-- What does not wait returns in its order. -/
theorem PollsAll.in_turn (h : PollsAll started returned ps ps' log)
    (reads : Reads started returned starts returns key) (instant : ∀ p ∈ ps, p.2.Instant)
    (instant' : ∀ p ∈ ps', p.2.Instant) :
    log.filterMap returns = (unfinished ps).map key ∧ unfinished ps' = [] := by
  induction h with
  | nil => exact ⟨rfl, rfl⟩
  | cons h _ ih =>
    obtain ⟨first, rest⟩ := List.forall_mem_cons.mp instant
    obtain ⟨first', rest'⟩ := List.forall_mem_cons.mp instant'
    obtain ⟨same, none⟩ := ih rest rest'
    simp only [unfinished] at same none
    cases h with
    | finished => simp [unfinished, same, none]
    | waits deadline | returns deadline => exact absurd rfl (first deadline)
    | starts deadline => exact absurd rfl (first' deadline)
    | runs => simp [unfinished, same, none, reads.returns_started, reads.returns_returned]

theorem Rescheduled.instant (h : Rescheduled ps ps') (instant : ∀ p ∈ ps, p.2.Instant) :
    ∀ p ∈ ps', p.2.Instant := by
  induction h with
  | nil => exact instant
  | @cons ap ap' _ _ h _ ih =>
    obtain ⟨a, p⟩ := ap
    obtain ⟨a', p'⟩ := ap'
    obtain ⟨first, rest⟩ := List.forall_mem_cons.mp instant
    refine List.forall_mem_cons.mpr ⟨?_, ih rest⟩
    obtain ⟨-, delayed⟩ := h
    cases delayed with
    | same => exact first
    | waiting deadline => exact absurd rfl (first deadline)

end Progress

open Progress (Instant)

namespace Invocation

theorem poll_instant {i : Invocation σ} (prompt : i.resolver.delay i.call = 0)
    {p : Progress (FieldValue σ)} (instant : p.Instant) (st : OperationState σ) :
    (i.poll p st).1.Instant := by
  cases p with
  | finished v => exact instant
  | waiting deadline => exact absurd rfl (instant deadline)
  | idle =>
    rw [poll, prompt]
    exact fun _ h => by cases h

theorem pollAll_instant {calls : List (Invocation σ × Progress (FieldValue σ))}
    (prompt : ∀ c ∈ calls, c.1.resolver.delay c.1.call = 0) (instant : ∀ c ∈ calls, c.2.Instant)
    (st : OperationState σ) : ∀ c ∈ (pollAll calls st).1, c.2.Instant := by
  induction calls generalizing st with
  | nil => exact instant
  | cons c rest ih =>
    obtain ⟨here, later⟩ := List.forall_mem_cons.mp prompt
    obtain ⟨first, others⟩ := List.forall_mem_cons.mp instant
    exact List.forall_mem_cons.mpr ⟨poll_instant here first st, ih later others _⟩

end Invocation

/-! ## Waves in turn -/

/-- The resolvers of the wave returned in the order of its fields. -/
def Wave.Punctual (e : Engine σ) (caller : Caller) (w : Wave σ) : Prop :=
  w.returns = (e.prepare caller w.graph w.tasks).2.map Invocation.path

/-- The resolvers of the wave return in the order of its fields. -/
structure Wave.Returning (e : Engine σ) (caller : Caller) (w : Wave σ)
    (calls : List (Invocation σ × Progress (FieldValue σ))) : Prop where
  called : calls.map Prod.fst = (e.prepare caller w.graph w.tasks).2
  instant : ∀ c ∈ calls, c.2.Instant
  returns : w.returns ++ (Progress.unfinished calls).map Invocation.path =
    (e.prepare caller w.graph w.tasks).2.map Invocation.path

def Point.Punctual (e : Engine σ) (caller : Caller) : Point σ → Prop
  | .resolving _ w _ calls => w.Returning e caller calls
  | .settling _ w .. | .passed _ w .. | .fetching _ w .. => w.Punctual e caller
  | .tasks .. | .stopped .. => True

structure Moment.Punctual (e : Engine σ) (caller : Caller) (m : Moment σ) : Prop where
  past : ∀ w ∈ m.past, w.Punctual e caller
  point : m.point.Punctual e caller

namespace Engine

variable {e : Engine σ} {caller : Caller} {rules : Rules σ} {base : Nat} {m₀ m m' : Moment σ}

theorem Prompt.prepare (prompt : e.Prompt) (g : Graph) (tasks : List Task) :
    ∀ i ∈ (e.prepare caller g tasks).2, i.resolver.delay i.call = 0 := by
  intro i called
  obtain ⟨-, calls, -⟩ := @prepare_calls σ e caller g tasks
  obtain ⟨t, -, -, callsFor⟩ := calls i called
  exact prompt callsFor.dispatched i.call

theorem Step.punctual (prompt : e.Prompt) (h : e.Step caller rules base m m')
    (punctual : m.Punctual e caller) : m'.Punctual e caller := by
  obtain ⟨past, point⟩ := punctual
  cases h with
  | next => exact ⟨past, trivial⟩
  | prepare =>
    refine ⟨past, ?_, fun c mem => ?_, ?_⟩
    · rw [List.map_map]
      exact List.map_id _
    · obtain ⟨i, -, rfl⟩ := List.mem_map.mp mem
      exact fun _ => nofun
    · rw [Progress.unfinished_map_idle]
      rfl
  | @resolve _ _ _ w _ calls st =>
    obtain ⟨same, instant, returns⟩ := point
    have delays : ∀ c ∈ calls, c.1.resolver.delay c.1.call = 0 := fun c mem =>
      prompt.prepare w.graph w.tasks c.1 (same ▸ List.mem_map_of_mem mem)
    have instant' := Invocation.pollAll_instant delays instant st
    obtain ⟨log, done⟩ :=
      (Invocation.pollAll_polls calls st).in_turn Invocation.reads instant instant'
    refine ⟨past, ?_, instant', ?_⟩
    · rw [Invocation.fst_pollAll]
      exact same
    · rw [done, List.map_nil, List.append_nil, Wave.returns, List.filterMap_append, log]
      exact returns
  | collect results =>
    refine ⟨past, ?_⟩
    have returns := point.returns
    rw [Progress.unfinished_of_results (by rw [results]; rfl), List.map_nil, List.append_nil]
      at returns
    exact returns
  | pass => exact ⟨past, point⟩
  | take => exact ⟨past, point⟩
  | @fetch _ _ _ w _ _ _ batches st =>
    refine ⟨past, ?_⟩
    have quiet := (LogEntry.calls_of_isFetch (since_pollBatches (e := e) batches st)).2
    show List.filterMap LogEntry.return? (w.log ++ _) = _
    rw [List.filterMap_append, quiet, List.append_nil]
    exact point
  | fetched => exact ⟨past, point⟩
  | complete =>
    refine ⟨fun w mem => ?_, trivial⟩
    rcases List.mem_append.mp mem with before | last
    · exact past w before
    · exact List.mem_singleton.mp last ▸ point
  | stop => exact ⟨past, trivial⟩

theorem Pause.punctual (h : Pause rules m m') (punctual : m.Punctual e caller) :
    m'.Punctual e caller := by
  obtain ⟨past, point⟩ := punctual
  cases h with
  | resolving rescheduled =>
    refine ⟨past, ?_, rescheduled.instant point.instant, ?_⟩
    · rw [rescheduled.map_fst]
      exact point.called
    · rw [rescheduled.unfinished]
      exact point.returns
  | fetching => exact ⟨past, point⟩

/-- Wherever an execution has come to, the resolvers of its waves have returned in the order of their
fields. -/
theorem Reaches.punctual (prompt : e.Prompt) (reached : e.Reaches caller rules base m₀ m)
    (punctual : m₀.Punctual e caller) : m.Punctual e caller := by
  induction reached with
  | refl => exact punctual
  | tail _ h ih =>
    rcases h with step | pause
    · exact step.punctual prompt ih
    · exact pause.punctual ih

end Engine

end GraphQLEngine
