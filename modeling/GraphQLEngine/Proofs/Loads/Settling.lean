import GraphQLEngine.Proofs.Loads.Coordinator
import GraphQLEngine.Proofs.Waves.Endurance

/-!
# What values settle to

`Outcome A v w` says that the value `v` settles to `w` when every load in it, and every load that
its continuations ask for, gets an answer of `A`.  Passes over values and rounds of settling only
ever narrow the outcomes of the values down; and since every load of a value is known to the
coordinator, no value is ever given up.

    Outcome A (settle v st).1 w  →  Outcome A v w
    settleRounds e vs st = (.settled ws, st')  →  Outcomes A vs ws
-/

namespace GraphQLEngine

namespace FieldValue

variable {σ : Type}

mutual

/-- What a value may settle to. -/
inductive Outcome (A : Answers) : FieldValue σ → Settled → Prop
  | value (v : Json) : Outcome A (.value v) (.value v)
  | error (e : FieldError) : Outcome A (.error e) (.error e)
  | list {items : List (FieldValue σ)} {ws : List Settled} :
    Outcomes A items ws → Outcome A (.list items) (.list ws)
  | resumed {loader : Nat} {key : LoadKey} {resume : Continuation σ} {v : Json} {s : Scope σ}
    {w : Settled} :
    A loader key (.ok v) → Outcome A (resume v s).1 w → Outcome A (.deferred loader key resume) w
  | failed {loader : Nat} {key : LoadKey} {resume : Continuation σ} {e : FieldError} :
    A loader key (.error e) → Outcome A (.deferred loader key resume) (.error e)

/-- What values may settle to. -/
inductive Outcomes (A : Answers) : List (FieldValue σ) → List Settled → Prop
  | nil : Outcomes A [] []
  | cons {v : FieldValue σ} {vs : List (FieldValue σ)} {w : Settled} {ws : List Settled} :
    Outcome A v w → Outcomes A vs ws → Outcomes A (v :: vs) (w :: ws)

end

/-! ## Values without loads -/

mutual

theorem isSettled_of_loads : ∀ v : FieldValue σ, v.loads = [] → v.isSettled = true
  | .value _, _ => rfl
  | .error _, _ => rfl
  | .list items, h => itemsSettled_of_loads items h
  | .deferred .., h => nomatch h

theorem itemsSettled_of_loads :
    ∀ vs : List (FieldValue σ), loadsOfItems vs = [] → itemsSettled vs = true
  | [], _ => rfl
  | v :: vs, h => by
    rw [loadsOfItems, List.append_eq_nil_iff] at h
    rw [itemsSettled, isSettled_of_loads v h.1, itemsSettled_of_loads vs h.2]
    rfl

end

mutual

/-- A value that waits for nothing settles to itself. -/
theorem outcome_abandon (A : Answers) :
    ∀ v : FieldValue σ, v.isSettled = true → Outcome A v v.abandon
  | .value v, _ => .value v
  | .error e, _ => .error e
  | .list items, h => .list (outcomes_abandonItems A items h)
  | .deferred .., h => nomatch h

theorem outcomes_abandonItems (A : Answers) :
    ∀ vs : List (FieldValue σ), itemsSettled vs = true → Outcomes A vs (abandonItems vs)
  | [], _ => .nil
  | v :: vs, h => by
    rw [itemsSettled, Bool.and_eq_true] at h
    exact .cons (outcome_abandon A v h.1) (outcomes_abandonItems A vs h.2)

end

/-! ## Passes -/

/-- What a pass leaves of an operation's state: the coordinator stays tracked, has the same answers,
and knows what it knew. -/
structure Passed (e : Engine σ) (A : Answers) (flying : List Batch) (st st' : OperationState σ) :
    Prop where
  tracked : Tracked e A flying st.coordinator → Tracked e A flying st'.coordinator
  answers : ∀ n key, st'.coordinator.answer? n key = st.coordinator.answer? n key
  knows : ∀ {r}, st.coordinator.Knows r → st'.coordinator.Knows r

theorem passed_resolves (e : Engine σ) (A : Answers) (flying : List Batch) :
    OperationState.Resolves (Passed e A flying) where
  refl _ := ⟨id, fun _ _ => rfl, id⟩
  trans h h' := ⟨h'.tracked ∘ h.tracked, fun n key => (h'.answers n key).trans (h.answers n key),
    h'.knows ∘ h.knows⟩
  absorb st v s :=
    ⟨fun T => T.loadAll (s.requests ++ v.loads),
      Coordinator.answer?_loadAll (s.requests ++ v.loads) st.coordinator,
      fun known => known.loadAll (s.requests ++ v.loads)⟩
  record _ _ := ⟨id, fun _ _ => rfl, id⟩

/-- The loads are known and have no answer. -/
def Open (st : OperationState σ) (loads : List (Nat × LoadKey)) : Prop :=
  ∀ r ∈ loads, st.coordinator.Knows r ∧ st.coordinator.answer? r.1 r.2 = none

theorem Open.of_passed {e : Engine σ} {A : Answers} {flying : List Batch}
    {st st' : OperationState σ} {loads : List (Nat × LoadKey)} (h : Open st loads)
    (p : Passed e A flying st st') : Open st' loads :=
  fun r hr => ⟨p.knows (h r hr).1, (p.answers _ _).trans (h r hr).2⟩

section

variable {e : Engine σ} {A : Answers} {flying : List Batch}

mutual

/-- A pass narrows the outcomes of a value down, and leaves in it open loads only. -/
theorem settle_narrows (by_e : e.AnswersBy A) : ∀ (v : FieldValue σ) (st : OperationState σ),
    Tracked e A flying st.coordinator → (∀ r ∈ v.loads, st.coordinator.Knows r) →
    Open (settle v st).2 (settle v st).1.loads ∧
      ∀ w, Outcome A (settle v st).1 w → Outcome A v w
  | .value v, st, _, _ => by
    rw [settle]
    exact ⟨(fun _ h => nomatch h), fun _ => id⟩
  | .error fault, st, _, _ => by
    rw [settle]
    exact ⟨(fun _ h => nomatch h), fun _ => id⟩
  | .list items, st, T, known => by
    rw [settle]
    obtain ⟨still, narrow⟩ := settleItems_narrows by_e items st T known
    refine ⟨still, fun w h => ?_⟩
    cases h with
    | list h => exact .list (narrow _ h)
  | .deferred loader key resume, st, T, known => by
    rw [settle]
    split
    · next unanswered =>
      refine ⟨?_, fun _ => id⟩
      intro r hr
      refine ⟨known r hr, ?_⟩
      rw [loads, List.mem_singleton] at hr
      rw [hr]
      exact unanswered
    · next fault answered =>
      refine ⟨(fun _ h => nomatch h), fun w h => ?_⟩
      cases h
      exact .failed (T.answer by_e answered)
    · next v answered =>
      obtain ⟨still, narrow⟩ := settleResult_narrows by_e (resume v st.scope) st T
      exact ⟨still, fun w h => .resumed (T.answer by_e answered) (narrow w h)⟩

theorem settleResult_narrows (by_e : e.AnswersBy A) :
    ∀ (r : FieldValue σ × Scope σ) (st : OperationState σ), Tracked e A flying st.coordinator →
    Open (settleResult r st).2 (settleResult r st).1.loads ∧
      ∀ w, Outcome A (settleResult r st).1 w → Outcome A r.1 w
  | (v, s), st, T => by
    rw [settleResult]
    exact settle_narrows by_e v (st.absorb v s) (T.loadAll (s.requests ++ v.loads))
      (fun r hr => Coordinator.knows_loadAll (List.mem_append_right _ hr) _)

theorem settleItems_narrows (by_e : e.AnswersBy A) :
    ∀ (vs : List (FieldValue σ)) (st : OperationState σ), Tracked e A flying st.coordinator →
      (∀ r ∈ loadsOfItems vs, st.coordinator.Knows r) →
    Open (settleItems vs st).2 (loadsOfItems (settleItems vs st).1) ∧
      ∀ ws, Outcomes A (settleItems vs st).1 ws → Outcomes A vs ws
  | [], st, _, _ => by
    rw [settleItems]
    exact ⟨(fun _ h => nomatch h), fun _ => id⟩
  | v :: vs, st, T, known => by
    rw [settleItems]
    rw [loadsOfItems] at known
    have first := (passed_resolves e A flying).settle v st
    have second := (passed_resolves e A flying).settleItems vs (settle v st).2
    obtain ⟨open₁, narrow₁⟩ := settle_narrows by_e v st T
      (fun r hr => known r (List.mem_append_left _ hr))
    obtain ⟨open₂, narrow₂⟩ := settleItems_narrows by_e vs (settle v st).2 (first.tracked T)
      (fun r hr => first.knows (known r (List.mem_append_right _ hr)))
    refine ⟨?_, fun ws h => ?_⟩
    · intro r hr
      rcases List.mem_append.mp hr with hr | hr
      · exact open₁.of_passed second r hr
      · exact open₂ r hr
    · cases h with
      | cons h hs => exact .cons (narrow₁ _ h) (narrow₂ _ hs)

end

/-- After a pass with nothing queued and nothing being fetched, nothing waits for a load. -/
theorem itemsSettled_settleItems (by_e : e.AnswersBy A) (vs : List (FieldValue σ))
    (st : OperationState σ) (T : Tracked e A [] st.coordinator)
    (known : ∀ r ∈ loadsOfItems vs, st.coordinator.Knows r)
    (idle : (settleItems vs st).2.coordinator.hasQueued = false) :
    itemsSettled (settleItems vs st).1 = true := by
  have tracked := ((passed_resolves e A []).settleItems vs st).tracked T
  have still := (settleItems_narrows by_e vs st T known).1
  apply itemsSettled_of_loads
  rw [List.eq_nil_iff_forall_not_mem]
  intro r hr
  exact tracked.answered idle (still r hr).1 (still r hr).2

end

end FieldValue

/-! ## Rounds -/

namespace Engine

open FieldValue

variable {σ : Type} {e : Engine σ} {A : Answers}

/-- The values of a wave whose batches are being fetched: their loads are known. -/
structure Awaited (e : Engine σ) (A : Answers) (values : List (FieldValue σ))
    (flying : List Batch) (c : Coordinator) : Prop where
  tracked : Tracked e A flying c
  known : ∀ r ∈ loadsOfItems values, c.Knows r

/-- The keys that a coordinator knows are never forgotten. -/
theorem knows_endures (r : Nat × LoadKey) :
    OperationState.Endures e fun st st' => st.coordinator.Knows r → st'.coordinator.Knows r where
  refl _ := id
  trans h h' := h' ∘ h
  absorb _ v s known := known.loadAll (s.requests ++ v.loads)
  record _ _ := id
  start _ _ := id
  fetch st b known := by
    unfold runBatch
    split
    · exact known
    · exact known.finish b _
  take _ known := known.takeBatches

/-- What a pass over the values of a wave comes to. -/
theorem Awaited.settleItems {values : List (FieldValue σ)} {st : OperationState σ}
    (h : Awaited e A values [] st.coordinator) (by_e : e.AnswersBy A) :
    Awaited e A (FieldValue.settleItems values st).1 []
      (FieldValue.settleItems values st).2.coordinator where
  tracked := ((passed_resolves e A []).settleItems values st).tracked h.tracked
  known r hr := ((settleItems_narrows by_e values st h.tracked h.known).1 r hr).1

theorem Awaited.pollBatches {values : List (FieldValue σ)} {bs : List (Batch × Progress Unit)}
    {st : OperationState σ} (h : Awaited e A values (inFlight bs) st.coordinator)
    (by_e : e.AnswersBy A) :
    Awaited e A values (inFlight (e.pollBatches bs st).1)
      (e.pollBatches bs st).2.coordinator where
  tracked := tracked_pollBatches [] by_e bs h.tracked
  known r hr := (knows_endures r).pollBatches bs st (h.known r hr)

/-- What the rounds of settling come to. -/
def Rounds (e : Engine σ) (A : Answers) (values : List (FieldValue σ))
    (r : Settling σ × OperationState σ) : Prop :=
  match r.1 with
  | .settled ws => Outcomes A values ws ∧ Tracked e A [] r.2.coordinator
  | .fetching values' batches =>
    (∀ ws, Outcomes A values' ws → Outcomes A values ws) ∧
      Awaited e A values' (inFlight batches) r.2.coordinator
  | .stopped _ => True

theorem Rounds.of_narrower {values values' : List (FieldValue σ)}
    {r : Settling σ × OperationState σ}
    (narrow : ∀ ws, Outcomes A values' ws → Outcomes A values ws) (h : Rounds e A values' r) :
    Rounds e A values r := by
  obtain ⟨settling, st⟩ := r
  cases settling with
  | settled ws => exact ⟨narrow ws h.1, h.2⟩
  | fetching vs bs => exact ⟨fun ws out => narrow ws (h.1 ws out), h.2⟩
  | stopped reason => trivial

/-- The batches that are taken after a pass are being fetched. -/
theorem Awaited.takeBatches {values : List (FieldValue σ)} {c : Coordinator}
    (h : Awaited e A values [] c) :
    Awaited e A values (inFlight (c.takeBatches.1.map (·, .idle))) c.takeBatches.2 where
  tracked := by rw [inFlight_idle]; exact h.tracked.takeBatches
  known r hr := (h.known r hr).takeBatches

theorem settleRounds_rounds (by_e : e.AnswersBy A) (values : List (FieldValue σ))
    (st : OperationState σ) (h : Awaited e A values [] st.coordinator) :
    Rounds e A values (e.settleRounds values st) := by
  induction values, st using settleRounds.induct (e := e) with
  | case1 values st values' st' pass settled =>
    have awaited := h.settleItems by_e
    have narrow := (settleItems_narrows by_e values st h.tracked h.known).2
    rw [pass] at awaited narrow
    rw [settleRounds, pass]
    simp only [settled, if_true]
    exact ⟨narrow _ (outcomes_abandonItems A values' settled), awaited.tracked⟩
  | case2 values st values' st' pass unsettled queued reason stop =>
    rw [settleRounds, pass]
    simp only [unsettled, queued, stop]
    trivial
  | case3 values st values' st' pass unsettled queued go taken polled finished ih =>
    have awaited := h.settleItems by_e
    have narrow := (settleItems_narrows by_e values st h.tracked h.known).2
    rw [pass] at awaited narrow
    have flying : Awaited e A values' (inFlight polled.1) polled.2.coordinator :=
      awaited.takeBatches.pollBatches by_e
    rw [inFlight_of_results finished] at flying
    have round : e.settleRounds values st = e.settleRounds values' polled.2 := by
      rw [settleRounds, pass]
      simp [unsettled, queued, go, polled, taken, finished]
    rw [round]
    exact (ih flying).of_narrower narrow
  | case4 values st values' st' pass unsettled queued go taken polled unfinished =>
    have awaited := h.settleItems by_e
    have narrow := (settleItems_narrows by_e values st h.tracked h.known).2
    rw [pass] at awaited narrow
    have flying : Awaited e A values' (inFlight polled.1) polled.2.coordinator :=
      awaited.takeBatches.pollBatches by_e
    have round : e.settleRounds values st = (.fetching values' polled.1, polled.2) := by
      rw [settleRounds, pass]
      simp [unsettled, queued, go, polled, taken, unfinished]
    rw [round]
    exact ⟨narrow, flying⟩
  | case5 values st values' st' pass unsettled idle =>
    -- the queues being empty, the pass would have settled everything
    have settled := itemsSettled_settleItems by_e values st h.tracked h.known
      (by rw [pass]; simpa using idle)
    rw [pass] at settled
    exact absurd settled unsettled

end Engine

end GraphQLEngine
