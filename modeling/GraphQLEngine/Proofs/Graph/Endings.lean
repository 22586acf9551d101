import GraphQLEngine.Engine.Subscribe
import GraphQLEngine.Proofs.Waves.Endurance
import Mathlib.Data.List.Forall2

/-!
# Executions end

An execution that is polled whenever something it waits for is due comes to an end: it is completed
or was cancelled.  Each poll lets a resolver or a fetch go on; each round of settling goes down in
the values of the wave, or finds the queues empty; and there are as many waves as levels, and as many
runs as root tasks.

    Engine.Ends e caller (e.begin caller g runs st)
-/

namespace GraphQLEngine

variable {σ : Type}

/-! ## Progress -/

namespace Progress

variable {α β : Type}

/-- How much is left to do: to start, and to wait. -/
def left : Progress β → Nat
  | .idle => 2
  | .waiting _ => 1
  | .finished _ => 0

/-- Something that a poll changes: it is not started, or it is due. -/
def Ready (clock : Nat) : Progress β → Prop
  | .idle => True
  | .waiting deadline => deadline ≤ clock
  | .finished _ => False

def allLeft : List (α × Progress β) → Nat
  | [] => 0
  | p :: ps => p.2.left + allLeft ps

/-- The earliest deadline, if there is one, has come. -/
def Due (ps : List (α × Progress β)) (clock : Nat) : Prop :=
  ∀ d, (ps.filterMap fun (_, p) => p.deadline?).min? = some d → d ≤ clock

theorem exists_unfinished {ps : List (α × Progress β)} (h : results? ps = none) :
    ∃ p ∈ ps, ∀ b, p.2 ≠ .finished b := by
  induction ps with
  | nil => cases h
  | cons p rest ih =>
    obtain ⟨a, p⟩ := p
    cases p with
    | finished b =>
      rw [results?, Option.map_eq_none_iff] at h
      obtain ⟨q, mem, unfinished⟩ := ih h
      exact ⟨q, List.mem_cons_of_mem _ mem, unfinished⟩
    | _ => exact ⟨_, List.mem_cons_self, fun _ => nofun⟩

/-- While something is unfinished and the earliest deadline has come, something is ready. -/
theorem exists_ready {ps : List (α × Progress β)} {clock : Nat} (due : Due ps clock)
    (unfinished : results? ps = none) : ∃ p ∈ ps, p.2.Ready clock := by
  obtain ⟨⟨a, p⟩, mem, notFinished⟩ := exists_unfinished unfinished
  cases p with
  | idle => exact ⟨_, mem, trivial⟩
  | finished b => exact absurd rfl (notFinished b)
  | waiting d =>
    have waits : d ∈ ps.filterMap fun (_, p) => p.deadline? :=
      List.mem_filterMap.mpr ⟨_, mem, rfl⟩
    cases earliest : (ps.filterMap fun (_, p) => p.deadline?).min? with
    | none => rw [List.min?_eq_none_iff.mp earliest] at waits; cases waits
    | some m =>
      obtain ⟨⟨a', p'⟩, mem', eq⟩ := List.mem_filterMap.mp (List.min?_mem earliest)
      refine ⟨_, mem', ?_⟩
      cases p' <;> cases eq
      exact due m earliest

/-- A poll of each does not add to what is left, and takes from what is ready. -/
def Onward (clock : Nat) (ps ps' : List (α × Progress β)) : Prop :=
  List.Forall₂
    (fun p p' => p'.2.left ≤ p.2.left ∧ (p.2.Ready clock → p'.2.left < p.2.left)) ps ps'

theorem Onward.le {clock : Nat} {ps ps' : List (α × Progress β)} (h : Onward clock ps ps') :
    allLeft ps' ≤ allLeft ps := by
  induction h with
  | nil => exact Nat.le_refl _
  | cons h _ ih =>
    have := h.1
    simp only [allLeft] at ih ⊢
    omega

theorem Onward.lt {clock : Nat} {ps ps' : List (α × Progress β)} (h : Onward clock ps ps')
    (ready : ∃ p ∈ ps, p.2.Ready clock) : allLeft ps' < allLeft ps := by
  induction h with
  | nil => obtain ⟨p, mem, -⟩ := ready; cases mem
  | @cons p p' rest rest' h onward ih =>
    have le := Onward.le onward
    simp only [allLeft] at ih le ⊢
    obtain ⟨q, mem, isReady⟩ := ready
    rcases List.mem_cons.mp mem with rfl | mem
    · have := h.2 isReady
      omega
    · have := ih ⟨q, mem, isReady⟩
      have := h.1
      omega

theorem Onward.unfinished {clock : Nat} {ps ps' : List (α × Progress β)}
    (h : Onward clock ps ps') (unfinished : results? ps' = none) : results? ps = none := by
  induction h with
  | nil => exact unfinished
  | @cons p p' rest rest' h _ ih =>
    obtain ⟨a, p⟩ := p
    obtain ⟨a', p'⟩ := p'
    cases p with
    | finished b =>
      cases p' with
      | finished b' =>
        rw [results?, Option.map_eq_none_iff] at unfinished ⊢
        exact ih unfinished
      | _ => exact absurd h.1 (Nat.not_succ_le_zero _)
    | _ => rfl

/-- While something is unfinished, polling when the earliest deadline has come leaves less to do. -/
theorem Onward.lt_of_due {clock : Nat} {ps ps' : List (α × Progress β)} (h : Onward clock ps ps')
    (due : Due ps clock) (unfinished : results? ps' = none) : allLeft ps' < allLeft ps :=
  h.lt (exists_ready due (h.unfinished unfinished))

end Progress

/-! ## Polls -/

theorem World.clock_absorb (w : World σ) (s : Scope σ) : (w.absorb s).clock = w.clock :=
  w.absorb_induction (P := fun w' => w'.clock = w.clock) s rfl
    fun effect kept => by cases effect <;> exact kept

namespace OperationState

/-- No time passes while resolvers and fetches are at work. -/
theorem clock_resolves :
    Resolves fun st st' : OperationState σ => st'.world.clock = st.world.clock where
  refl _ := rfl
  trans h h' := h'.trans h
  absorb st _ s := st.world.clock_absorb s
  record _ _ := rfl

theorem clock_endures {e : Engine σ} :
    Endures e fun st st' => st'.world.clock = st.world.clock :=
  clock_resolves.endures fun _ _ _ => rfl

end OperationState

open OperationState

theorem Invocation.poll_onward (i : Invocation σ) (p : Progress (FieldValue σ))
    (st : OperationState σ) :
    (i.poll p st).1.left ≤ p.left ∧ (p.Ready st.world.clock → (i.poll p st).1.left < p.left) := by
  unfold Invocation.poll
  split
  · exact ⟨Nat.le_refl _, False.elim⟩
  · split
    · exact ⟨Nat.zero_le _, fun _ => Nat.one_pos⟩
    · next notDue => exact ⟨Nat.le_refl _, fun due => absurd due notDue⟩
  · simp only
    split
    · exact ⟨Nat.zero_le _, fun _ => Nat.two_pos⟩
    · exact ⟨Nat.le_succ _, fun _ => Nat.lt_succ_self _⟩

theorem Invocation.pollAll_onward (calls : List (Invocation σ × Progress (FieldValue σ)))
    (st : OperationState σ) :
    Progress.Onward st.world.clock calls (Invocation.pollAll calls st).1 := by
  induction calls generalizing st with
  | nil => exact .nil
  | cons c rest ih => exact .cons (c.1.poll_onward c.2 st) (clock_resolves.poll c.1 c.2 st ▸ ih _)

namespace Engine

variable {e : Engine σ}

theorem pollBatch_onward (b : Batch) (p : Progress Unit) (st : OperationState σ) :
    (e.pollBatch b p st).1.left ≤ p.left ∧
      (p.Ready st.world.clock → (e.pollBatch b p st).1.left < p.left) := by
  unfold pollBatch
  split
  · exact ⟨Nat.le_refl _, False.elim⟩
  · split
    · exact ⟨Nat.zero_le _, fun _ => Nat.one_pos⟩
    · next notDue => exact ⟨Nat.le_refl _, fun due => absurd due notDue⟩
  · simp only
    split
    · exact ⟨Nat.zero_le _, fun _ => Nat.two_pos⟩
    · exact ⟨Nat.le_succ _, fun _ => Nat.lt_succ_self _⟩

theorem pollBatches_onward (bs : List (Batch × Progress Unit)) (st : OperationState σ) :
    Progress.Onward st.world.clock bs (e.pollBatches bs st).1 := by
  induction bs generalizing st with
  | nil => exact .nil
  | cons bp rest ih =>
    exact .cons (pollBatch_onward bp.1 bp.2 st) (clock_endures.pollBatch bp.1 bp.2 st ▸ ih _)

end Engine

/-! ## Settling -/

namespace Engine

/-- Go on with the fetches that a round waits for, and with the rounds once all have returned. -/
def fetchOn (e : Engine σ) (values : List (FieldValue σ)) (batches : List (Batch × Progress Unit))
    (st : OperationState σ) : Settling σ × OperationState σ :=
  let polled := e.pollBatches batches st
  if (Progress.results? polled.1).isSome then e.settleRounds values polled.2
  else (.fetching values polled.1, polled.2)

/-- Polled whenever something is due, the settling ends; it stops only if the operation was cancelled. -/
inductive SettlingEnds (e : Engine σ) : Settling σ × OperationState σ → Prop
  | settled {ws : List Settled} {st : OperationState σ} : SettlingEnds e (.settled ws, st)
  | stopped {reason : CancelReason} {st : OperationState σ} :
    st.world.signals.reason? st.operation = some reason → SettlingEnds e (.stopped reason, st)
  | fetching {values : List (FieldValue σ)} {batches : List (Batch × Progress Unit)}
    {st : OperationState σ} :
    (∀ st' : OperationState σ, st'.coordinator = st.coordinator →
      Progress.Due batches st'.world.clock → SettlingEnds e (e.fetchOn values batches st')) →
      SettlingEnds e (.fetching values batches, st)

variable {e : Engine σ}

/-- Fetches return, and the settling ends if it does from there on. -/
theorem SettlingEnds.of_fetching {values : List (FieldValue σ)}
    (settled : ∀ st : OperationState σ, st.coordinator.hasQueued = false →
      e.SettlingEnds (e.settleRounds values st))
    (bs : List (Batch × Progress Unit)) (st : OperationState σ)
    (idle : st.coordinator.hasQueued = false) : e.SettlingEnds (.fetching values bs, st) := by
  induction hk : Progress.allLeft bs using Nat.strongRecOn generalizing bs st with
  | ind k ih =>
    refine .fetching fun st' same due => ?_
    have idle' : (e.pollBatches bs st').2.coordinator.hasQueued = false := by
      rw [hasQueued_pollBatches, same, idle]
    rw [fetchOn]
    split
    · exact settled _ idle'
    · next unfinished =>
      have less := (pollBatches_onward (e := e) bs st').lt_of_due due
        (Option.not_isSome_iff_eq_none.mp unfinished)
      exact ih _ (hk ▸ less) _ _ idle' rfl

/-- Settling ends: a round goes down in the values, or finds the queues empty. -/
theorem settlingEnds_settleRounds (values : List (FieldValue σ)) (st : OperationState σ) :
    e.SettlingEnds (e.settleRounds values st) := by
  rw [settleRounds]
  match _pass : FieldValue.settleItems values st with
  | (values', st') =>
    simp only
    split
    · exact .settled
    · split
      · next queued =>
        have _busy : st'.coordinator.hasQueued = true := queued
        split
        · next stop => exact .stopped stop
        · have _idle : (e.pollBatches (st'.coordinator.takeBatches.1.map (·, .idle))
              { st' with coordinator := st'.coordinator.takeBatches.2 }).2.coordinator.hasQueued =
                false := by
            rw [hasQueued_pollBatches]
            exact Coordinator.hasQueued_takeBatches _
          split
          · exact settlingEnds_settleRounds values' _
          · exact .of_fetching (fun st'' _idle => settlingEnds_settleRounds values' st'') _ _ _idle
      · exact .settled
termination_by (values, st.coordinator.hasQueued.toNat)
decreasing_by
  all_goals
    rcases FieldValue.settleItems_below values st with h | h
    · rw [_pass] at h
      injection h with h₁ h₂
      subst h₁ h₂
      apply Prod.Lex.right
      rw [_idle, _busy]
      decide
    · rw [_pass] at h
      exact .left _ _ h

end Engine

/-! ## Phases -/

/-- The earliest deadline of a suspended stage has come. -/
def Stage.Due (clock : Nat) : Stage σ → Prop
  | .resolving _ calls => Progress.Due calls clock
  | .fetching _ _ _ batches => Progress.Due batches clock

theorem Stage.due_of_nextDeadline {x : Execution σ} {clock : Nat}
    (h : ∀ d, x.nextDeadline? = some d → d ≤ clock) : x.stage.Due clock := by
  obtain ⟨g, stage, remaining⟩ := x
  cases stage <;> exact h

namespace Engine

/-- Go on with the stage of a suspended run. -/
def resume (e : Engine σ) (caller : Caller) (g : Graph) (stage : Stage σ) (st : OperationState σ) :
    RunPhase σ × OperationState σ :=
  match stage with
  | .resolving levels calls =>
    e.afterCalls (e.runWaves caller levels) levels g (Invocation.pollAll calls st)
  | .fetching levels calls values batches =>
    let polled := e.pollBatches batches st
    if (Progress.results? polled.1).isSome then
      e.afterSettling (e.runWaves caller levels) levels g calls (e.settleRounds values polled.2)
    else (.suspended g (.fetching levels calls values polled.1), polled.2)

/-- A run whose values are fetched goes on with their settling. -/
theorem resume_fetching (e : Engine σ) (caller : Caller) (g : Graph) (levels : Nat)
    (calls : List (Invocation σ)) (values : List (FieldValue σ))
    (batches : List (Batch × Progress Unit)) (st : OperationState σ) :
    e.resume caller g (.fetching levels calls values batches) st =
      e.afterSettling (e.runWaves caller levels) levels g calls (e.fetchOn values batches st) := by
  rw [resume, fetchOn]
  by_cases finished : (Progress.results? (e.pollBatches batches st).1).isSome
  · simp only [finished, if_true]
  · simp only [finished]
    rfl

theorem poll_eq (e : Engine σ) (caller : Caller) (x : Execution σ) (st : OperationState σ) :
    e.poll caller x st =
      match st.world.signals.reason? st.operation with
      | some reason => (.stopped x.graph reason, st)
      | none => e.afterRun caller x.remaining (e.resume caller x.graph x.stage st) := rfl

/-- A run of waves that goes on whenever something is due ends, or is stopped. -/
inductive PhaseEnds (e : Engine σ) (caller : Caller) : RunPhase σ × OperationState σ → Prop
  | completed {g : Graph} {st : OperationState σ} : PhaseEnds e caller (.completed g, st)
  | stopped {g : Graph} {reason : CancelReason} {st : OperationState σ} :
    PhaseEnds e caller (.stopped g reason, st)
  | suspended {g : Graph} {stage : Stage σ} {st : OperationState σ} :
    (∀ st', st'.coordinator = st.coordinator → stage.Due st'.world.clock →
      PhaseEnds e caller (e.resume caller g stage st')) →
      PhaseEnds e caller (.suspended g stage, st)

/-- An execution that is polled whenever something is due ends, or is stopped. -/
inductive Ends (e : Engine σ) (caller : Caller) : Polled σ × OperationState σ → Prop
  | completed {g : Graph} {st : OperationState σ} : Ends e caller (.completed g, st)
  | stopped {g : Graph} {reason : CancelReason} {st : OperationState σ} :
    Ends e caller (.stopped g reason, st)
  | suspended {x : Execution σ} {st : OperationState σ} :
    (∀ st', st'.coordinator = st.coordinator →
      (∀ d, x.nextDeadline? = some d → d ≤ st'.world.clock) → Ends e caller (e.poll caller x st')) →
      Ends e caller (.suspended x, st)

section

variable {e : Engine σ} {caller : Caller} {levels : Nat} {g : Graph}
  (next_ends : ∀ g tasks st, PhaseEnds e caller (e.runWaves caller levels g tasks st))

include next_ends in
/-- A run goes on as the settling of its wave does. -/
theorem SettlingEnds.phaseEnds (calls : List (Invocation σ)) {r : Settling σ × OperationState σ}
    (h : e.SettlingEnds r) :
    PhaseEnds e caller (e.afterSettling (e.runWaves caller levels) levels g calls r) := by
  induction h with
  | settled => exact next_ends _ _ _
  | stopped => exact .stopped
  | fetching _ ih =>
    refine .suspended fun st' same due => ?_
    rw [resume_fetching]
    exact ih st' same due

include next_ends in
theorem settling_ends (calls : List (Invocation σ)) (values : List (FieldValue σ))
    (st : OperationState σ) :
    PhaseEnds e caller
      (e.afterSettling (e.runWaves caller levels) levels g calls (e.settleRounds values st)) :=
  (settlingEnds_settleRounds values st).phaseEnds next_ends calls

include next_ends in
theorem calls_end (calls : List (Invocation σ × Progress (FieldValue σ))) (st : OperationState σ) :
    PhaseEnds e caller
      (e.afterCalls (e.runWaves caller levels) levels g (Invocation.pollAll calls st)) := by
  induction hk : Progress.allLeft (Invocation.pollAll calls st).1 using Nat.strongRecOn
    generalizing calls st with
  | ind k ih =>
    rw [afterCalls]
    split
    · refine .suspended fun st' _ due => ?_
      rw [resume]
      by_cases unfinished :
          Progress.results? (Invocation.pollAll (Invocation.pollAll calls st).1 st').1 = none
      · have less := (Invocation.pollAll_onward (Invocation.pollAll calls st).1 st').lt_of_due due
          unfinished
        exact ih _ (hk ▸ less) _ _ rfl
      · obtain ⟨values, results⟩ := Option.ne_none_iff_exists'.mp unfinished
        rw [afterCalls, results]
        exact settling_ends next_ends _ _ _
    · exact settling_ends next_ends _ _ _

end

variable {e : Engine σ} {caller : Caller}

/-- There are as many waves as levels. -/
theorem runWaves_ends (levels : Nat) (g : Graph) (tasks : List Task) (st : OperationState σ) :
    PhaseEnds e caller (e.runWaves caller levels g tasks st) := by
  induction levels generalizing g tasks st with
  | zero => exact .completed
  | succ levels ih =>
    rw [runWaves]
    split
    · exact .completed
    · split
      · exact .stopped
      · exact calls_end ih _ _

/-- An execution ends if its run does, and so does what comes after. -/
theorem afterRun_ends_of {remaining : List (List Task)}
    (after : ∀ g st, Ends e caller (e.afterRun caller remaining (.completed g, st)))
    {r : RunPhase σ × OperationState σ} (h : PhaseEnds e caller r) :
    Ends e caller (e.afterRun caller remaining r) := by
  induction h with
  | completed => exact after _ _
  | stopped =>
    rw [afterRun]
    exact .stopped
  | suspended _ ih =>
    rw [afterRun]
    refine .suspended fun st' same due => ?_
    rw [poll_eq]
    split
    · exact .stopped
    · exact ih st' same (Stage.due_of_nextDeadline due)

/-- There are as many runs as lists of root tasks. -/
theorem afterRun_ends (remaining : List (List Task)) {r : RunPhase σ × OperationState σ}
    (h : PhaseEnds e caller r) : Ends e caller (e.afterRun caller remaining r) := by
  induction remaining generalizing r with
  | nil => exact afterRun_ends_of (fun _ _ => .completed) h
  | cons tasks remaining ih =>
    refine afterRun_ends_of (fun g st => ?_) h
    rw [afterRun]
    exact ih (runWaves_ends _ _ _ _)

/-- Every execution ends. -/
theorem begin_ends (g : Graph) (runs : List (List Task)) (st : OperationState σ) :
    Ends e caller (e.begin caller g runs st) :=
  afterRun_ends runs .completed

end Engine

end GraphQLEngine
