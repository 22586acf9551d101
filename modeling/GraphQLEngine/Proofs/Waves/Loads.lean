import GraphQLEngine.Proofs.Graph.Runs
import GraphQLEngine.Proofs.Loads.Batching
import GraphQLEngine.Proofs.Waves.Logs

/-!
# The loads of a wave

At every moment of an execution each load that something waits for is known to the coordinator, and
is queued, being fetched, or answered.  So no wave is completed while a value in it waits for a load.

    Point.Awaits e A st p        what `p` waits for is accounted for in the loads of `st`
-/

namespace GraphQLEngine

open FieldValue (loadsOfItems itemsSettled)

variable {σ : Type}

/-- The loads that a point waits for. -/
def Point.Awaits (e : Engine σ) (A : Answers) (st : OperationState σ) : Point σ → Prop
  | .tasks .. => Tracked e A [] st.coordinator
  | .resolving _ _ _ calls => Answering e A calls st.coordinator
  | .settling _ _ _ _ values => Engine.Awaited e A values [] st.coordinator
  | .passed _ _ _ _ values =>
    Engine.Awaited e A values [] st.coordinator ∧ FieldValue.Open st (loadsOfItems values)
  | .fetching _ _ _ _ values batches => Engine.Awaited e A values (inFlight batches) st.coordinator
  | .stopped .. => True

theorem Progress.Delayed.finished {β : Type} {p p' : Progress β} (h : p.Delayed p') {b : β}
    (done : p' = .finished b) : p = .finished b := by
  cases h with
  | same => exact done
  | waiting => cases done

/-- What is finished after a delay was finished before. -/
theorem Progress.Rescheduled.finished {α β : Type} {ps ps' : List (α × Progress β)}
    (h : Progress.Rescheduled ps ps') {a : α} {b : β} (mem : (a, Progress.finished b) ∈ ps') :
    (a, Progress.finished b) ∈ ps := by
  induction h with
  | nil => exact mem
  | @cons p p' rest rest' h _ ih =>
    rcases List.mem_cons.mp mem with eq | mem
    · obtain ⟨a', p⟩ := p
      obtain ⟨same, delayed⟩ := h
      subst eq
      have was := delayed.finished rfl
      simp only at same was
      rw [was, same]
      exact List.mem_cons_self
    · exact List.mem_cons_of_mem _ (ih mem)

namespace Engine

variable {e : Engine σ} {caller : Caller} {rules : Rules σ} {base : Nat} {A : Answers}
  {m m' : Moment σ}

theorem Step.awaits (by_e : e.AnswersBy A) (h : e.Step caller rules base m m')
    (waits : m.point.Awaits e A m.state) : m'.point.Awaits e A m'.state := by
  cases h with
  | next => exact waits
  | prepare =>
    refine ⟨waits, fun mem => ?_⟩
    obtain ⟨i, -, eq⟩ := List.mem_map.mp mem
    cases eq
  | resolve => exact Invocation.pollAll_answering _ waits
  | collect results => exact (Answering.results waits results).2
  | pass =>
    have still := FieldValue.settleItems_narrows by_e _ _ (Awaited.tracked waits) (Awaited.known waits)
    exact ⟨Awaited.settleItems waits by_e, still.1⟩
  | take => exact waits.1.takeBatches
  | fetch => exact Awaited.pollBatches waits by_e
  | fetched finished =>
    have := waits
    rwa [Point.Awaits, inFlight_of_results finished] at this
  | complete => exact waits.1.tracked
  | stop => exact trivial

theorem Pause.awaits (h : Pause rules m m') (waits : m.point.Awaits e A m.state) :
    m'.point.Awaits e A m'.state := by
  cases h with
  | resolving rescheduled between =>
    rw [Point.Awaits, rules.loads between]
    exact ⟨Answering.tracked waits, fun mem => Answering.finished waits (rescheduled.finished mem)⟩
  | fetching rescheduled between =>
    rw [Point.Awaits, rules.loads between, inFlight_eq, rescheduled.unfinished, ← inFlight_eq]
    exact waits

theorem Reaches.awaits (by_e : e.AnswersBy A) (reached : e.Reaches caller rules base m m')
    (waits : m.point.Awaits e A m.state) : m'.point.Awaits e A m'.state := by
  induction reached with
  | refl => exact waits
  | tail _ h ih => exact h.elim (fun step => step.awaits by_e ih) fun pause => pause.awaits ih

/-- Nothing waits for a load when a wave is completed. -/
theorem settled_of_complete {levels : Nat} {w : Wave σ} {g : Graph} {calls : List (Invocation σ)}
    {values : List (FieldValue σ)} {st : OperationState σ}
    (waits : (Point.passed levels w g calls values).Awaits e A st)
    (done : itemsSettled values = true ∨ st.coordinator.hasQueued = false) :
    itemsSettled values = true := by
  rcases done with settled | idle
  · exact settled
  · apply FieldValue.itemsSettled_of_loads
    rw [List.eq_nil_iff_forall_not_mem]
    intro r hr
    exact waits.1.tracked.answered idle (waits.1.known r hr) (waits.2 r hr).2

end Engine

end GraphQLEngine
