import GraphQLEngine.Proofs.Loads.Chains

/-!
# The laws of chaining

A continuation that is chained on a value goes on with it, at once or when it is loaded, and so does
one that is chained on what the first makes of it.  It is all the same in which order the two are put
together, and whether a load was answered before or after something was chained on it.

    andThenResult (andThen m f s) g = andThen m (f and then g) s
    settle (andThen (load n key) f s).1 st = settleResult (f v st.scope) st     if `key` is loaded as `v`
    settle (andThen (load n key) f s).1 st = (.error e, st)                     if it fails with `e`
-/

namespace GraphQLEngine

namespace FieldValue

variable {σ : Type}

/-- Go on with `f`, and then with `g`. -/
def compose (f g : Continuation σ) : Continuation σ := fun v s => andThenResult (f v s) g

theorem andThenResult_eq (r : FieldValue σ × Scope σ) (f : Continuation σ) :
    andThenResult r f = andThen r.1 f r.2 := by
  rw [← Prod.eta r, andThenResult]

theorem settleResult_eq (r : FieldValue σ × Scope σ) (st : OperationState σ) :
    settleResult r st = settle r.1 (st.absorb r.1 r.2) := by
  rw [← Prod.eta r, settleResult]

/-! ## The order of putting together -/

mutual

/-- Chaining is associative, in the value and in the effects. -/
theorem andThen_compose (f g : Continuation σ) : ∀ (m : FieldValue σ) (s : Scope σ),
    andThenResult (m.andThen f s) g = m.andThen (compose f g) s
  | .value v, s => by rw [andThen, andThen, compose]
  | .list items, s => by rw [andThen, andThen, andThenResult, andThen]
  | .error e, s => by rw [andThen, andThen, andThenResult, andThen]
  | .deferred loader key resume, s => by
    have later : (fun v s => andThenResult (andThenResult (resume v s) f) g) =
        fun v s => andThenResult (resume v s) (compose f g) := by
      funext v s
      exact andThenResult_compose f g (resume v s)
    rw [andThen, andThen, andThenResult, andThen, later]

theorem andThenResult_compose (f g : Continuation σ) : ∀ r : FieldValue σ × Scope σ,
    andThenResult (andThenResult r f) g = andThenResult r (compose f g)
  | (m, s) => by
    have both := andThen_compose f g m s
    rwa [← andThenResult_eq (m, s) f, ← andThenResult_eq (m, s) (compose f g)] at both

end

/-! ## Values whose loads are answered -/

mutual

/-- Every load that settling the value comes upon has its answer. -/
inductive Answered : FieldValue σ → OperationState σ → Prop
  | value (v : Json) (st : OperationState σ) : Answered (.value v) st
  | error (e : FieldError) (st : OperationState σ) : Answered (.error e) st
  | list {items : List (FieldValue σ)} {st : OperationState σ} :
    AllAnswered items st → Answered (.list items) st
  | failed {loader : Nat} {key : LoadKey} {e : FieldError} {st : OperationState σ}
    (resume : Continuation σ) : st.coordinator.answer? loader key = some (.error e) →
    Answered (.deferred loader key resume) st
  | loaded {loader : Nat} {key : LoadKey} {resume : Continuation σ} {v : Json}
    {st : OperationState σ} : st.coordinator.answer? loader key = some (.ok v) →
    Answered (resume v st.scope).1 (st.absorb (resume v st.scope).1 (resume v st.scope).2) →
    Answered (.deferred loader key resume) st

/-- The same for values that are settled from left to right. -/
inductive AllAnswered : List (FieldValue σ) → OperationState σ → Prop
  | nil (st : OperationState σ) : AllAnswered [] st
  | cons {v : FieldValue σ} {vs : List (FieldValue σ)} {st : OperationState σ} :
    Answered v st → AllAnswered vs (settle v st).2 → AllAnswered (v :: vs) st

end

mutual

/-- A value whose loads are answered is settled by one pass. -/
theorem Answered.isSettled : ∀ {v : FieldValue σ} {st : OperationState σ}, Answered v st →
    (settle v st).1.isSettled = true
  | _, _, .value v st => by rw [settle]; rfl
  | _, _, .error e st => by rw [settle]; rfl
  | _, _, .list all => by rw [settle]; exact all.itemsSettled
  | _, _, .failed resume answer => by rw [settle, answer]; rfl
  | _, _, .loaded answer rest => by
    rw [settle, answer]
    simp only
    rw [settleResult_eq]
    exact rest.isSettled

theorem AllAnswered.itemsSettled : ∀ {vs : List (FieldValue σ)} {st : OperationState σ},
    AllAnswered vs st → itemsSettled (settleItems vs st).1 = true
  | _, _, .nil st => by rw [settleItems]; rfl
  | _, _, .cons head tail => by
    rw [settleItems, FieldValue.itemsSettled, head.isSettled, tail.itemsSettled]
    rfl

end

mutual

/-- Only then is it. -/
theorem answered_of_isSettled : ∀ (v : FieldValue σ) (st : OperationState σ),
    (settle v st).1.isSettled = true → Answered v st
  | .value v, st, _ => .value v st
  | .error e, st, _ => .error e st
  | .list items, st, h => by
    rw [settle] at h
    exact .list (allAnswered_of_itemsSettled items st h)
  | .deferred loader key resume, st, h => by
    cases answer : st.coordinator.answer? loader key with
    | none =>
      rw [settle, answer] at h
      cases h
    | some a =>
      cases a with
      | error e => exact .failed resume answer
      | ok v =>
        rw [settle, answer] at h
        exact .loaded answer (answered_of_result (resume v st.scope) st h)

theorem answered_of_result : ∀ (r : FieldValue σ × Scope σ) (st : OperationState σ),
    (settleResult r st).1.isSettled = true → Answered r.1 (st.absorb r.1 r.2)
  | (v, s), st, h => by
    rw [settleResult] at h
    exact answered_of_isSettled v (st.absorb v s) h

theorem allAnswered_of_itemsSettled : ∀ (vs : List (FieldValue σ)) (st : OperationState σ),
    itemsSettled (settleItems vs st).1 = true → AllAnswered vs st
  | [], st, _ => .nil st
  | v :: vs, st, h => by
    rw [settleItems, itemsSettled, Bool.and_eq_true] at h
    exact .cons (answered_of_isSettled v st h.1) (allAnswered_of_itemsSettled vs _ h.2)

end

/-- A pass settles a value exactly if all loads that it comes upon are answered. -/
theorem answered_iff {v : FieldValue σ} {st : OperationState σ} :
    Answered v st ↔ (settle v st).1.isSettled = true :=
  ⟨Answered.isSettled, answered_of_isSettled v st⟩

/-- In a settled value further passes find nothing to do. -/
theorem settle_of_isSettled {v : FieldValue σ} (settled : v.isSettled = true)
    (st : OperationState σ) : settle v st = (v, st) :=
  settle_of_loads v st (loads_of_isSettled v settled)

/-! ## Passes in one state after the other -/

/-- What passes in one state after the other make of a value. -/
def settleThrough (v : FieldValue σ) (states : List (OperationState σ)) : FieldValue σ :=
  states.foldl (fun v st => (settle v st).1) v

/-- A pass settles the value, and this is what it settles to. -/
def SettlesTo (v : FieldValue σ) (st : OperationState σ) (w : Settled) : Prop :=
  (settle v st).1.isSettled = true ∧ (settle v st).1.abandon = w

theorem settleThrough_of_unchanged {v : FieldValue σ} {states : List (OperationState σ)}
    (unchanged : ∀ st ∈ states, settle v st = (v, st)) : settleThrough v states = v := by
  induction states with
  | nil => rfl
  | cons st rest ih =>
    rw [settleThrough, List.foldl_cons, unchanged st List.mem_cons_self]
    exact ih fun st' mem => unchanged st' (List.mem_cons_of_mem _ mem)

theorem settleThrough_append (v : FieldValue σ) (before after : List (OperationState σ)) :
    settleThrough v (before ++ after) = settleThrough (settleThrough v before) after :=
  List.foldl_append

/-! ## Chaining on loads -/

section

variable {n : Nat} {key : LoadKey} {resume f : Continuation σ} {s : Scope σ}
  {st : OperationState σ}

theorem settle_deferred_unanswered (unanswered : st.coordinator.answer? n key = none) :
    settle (.deferred n key resume) st = (.deferred n key resume, st) := by
  rw [settle, unanswered]

theorem settle_deferred_failed {e : FieldError}
    (failed : st.coordinator.answer? n key = some (.error e)) :
    settle (.deferred n key resume) st = (.error e, st) := by
  rw [settle, failed]

theorem settle_deferred_andThen {v : Json}
    (loaded : st.coordinator.answer? n key = some (.ok v)) :
    settle ((deferred n key resume).andThen f s).1 st =
      settleResult (andThenResult (resume v st.scope) f) st := by
  rw [andThen, settle, loaded]

theorem settle_load_andThen {v : Json} (loaded : st.coordinator.answer? n key = some (.ok v)) :
    settle ((load n key).andThen f s).1 st = settleResult (f v st.scope) st := by
  rw [load, settle_deferred_andThen loaded, andThenResult, andThen]

/-- A load that is answered settles to the answer, and nothing else happens. -/
theorem settle_load_loaded {v : Json} (loaded : st.coordinator.answer? n key = some (.ok v)) :
    settle (load n key) st = (.value v, st) := by
  rw [load, settle, loaded]
  simp only
  rw [settleResult, settle]
  rfl

end

/-! ## The laws -/

/-- The laws of chaining `f` and `g`. -/
structure Sequencing (f g : Continuation σ) : Prop where
  /-- Chained one after the other they make the same value, with the same effects, as chained at once. -/
  assoc : ∀ (m : FieldValue σ) (s : Scope σ),
    andThenResult (m.andThen f s) g = m.andThen (compose f g) s
  /-- After any passes, once every load involved has its answer, both settle, and to the same. -/
  settles : ∀ (m : FieldValue σ) (s : Scope σ) (before : List (OperationState σ))
    (st : OperationState σ),
    Answered (settleThrough (andThenResult (m.andThen f s) g).1 before) st →
      ∃ w, SettlesTo (settleThrough (andThenResult (m.andThen f s) g).1 before) st w ∧
        SettlesTo (settleThrough (m.andThen (compose f g) s).1 before) st w
  /-- What is chained on a load that is answered after some passes settles to what `f` makes of the
  loaded value, as does what is chained on a load that is answered already. -/
  loaded : ∀ (n : Nat) (key : LoadKey) (v : Json) (s : Scope σ)
    (before : List (OperationState σ)) (st : OperationState σ) (after : List (OperationState σ)),
    (∀ st' ∈ before, st'.coordinator.answer? n key = none) →
    st.coordinator.answer? n key = some (.ok v) →
      settle ((load n key).andThen f s).1 st = settleResult (f v st.scope) st ∧
      settleThrough ((load n key).andThen f s).1 (before ++ st :: after) =
        settleThrough (settleResult (f v st.scope) st).1 after
  /-- Chained on a load that was settled before, `f` goes on with the loaded value at once. -/
  settled : ∀ (n : Nat) (key : LoadKey) (v : Json) (s : Scope σ) (st : OperationState σ),
    st.coordinator.answer? n key = some (.ok v) →
      settle (load n key) st = (.value v, st) ∧ (settle (load n key) st).1.andThen f s = f v s
  /-- The same if continuations were chained on the load before. -/
  resumed : ∀ (n : Nat) (key : LoadKey) (resume : Continuation σ) (v : Json) (s : Scope σ)
    (st : OperationState σ), st.coordinator.answer? n key = some (.ok v) →
      settle (.deferred n key resume) st = settleResult (resume v st.scope) st ∧
      settle ((deferred n key resume).andThen f s).1 st =
        settleResult (andThenResult (resume v st.scope) f) st
  /-- A load that fails settles to its error.  Whatever is chained on it, the state stays as it is, since
  nothing of that runs. -/
  failed : ∀ (n : Nat) (key : LoadKey) (resume : Continuation σ) (e : FieldError) (s : Scope σ)
    (st : OperationState σ), st.coordinator.answer? n key = some (.error e) →
      settle (.deferred n key resume) st = (.error e, st) ∧
      settle ((deferred n key resume).andThen f s).1 st = (.error e, st) ∧
      settle (andThenResult ((deferred n key resume).andThen f s) g).1 st = (.error e, st)
  /-- After every load involved had its answer, no pass in any state changes anything. -/
  again : ∀ (v : FieldValue σ) (st st' : OperationState σ), Answered v st →
    settle (settle v st).1 st' = ((settle v st).1, st')

/-- Chaining obeys the laws of sequencing. -/
theorem chaining_lawful (f g : Continuation σ) : Sequencing f g where
  assoc := andThen_compose f g
  settles m s before st answered := by
    rw [andThen_compose] at answered ⊢
    exact ⟨_, ⟨answered.isSettled, rfl⟩, answered.isSettled, rfl⟩
  loaded n key v s before st after waiting answer := by
    have waits : settleThrough ((load n key).andThen f s).1 before = ((load n key).andThen f s).1 :=
      settleThrough_of_unchanged fun st' mem => by
        rw [load, andThen]
        exact settle_deferred_unanswered (waiting st' mem)
    refine ⟨settle_load_andThen answer, ?_⟩
    rw [settleThrough_append, waits, settleThrough, List.foldl_cons, settle_load_andThen answer]
    rfl
  settled n key v s st answer := by
    rw [settle_load_loaded answer]
    exact ⟨rfl, by rw [andThen]⟩
  resumed n key resume v s st answer :=
    ⟨by rw [settle, answer], settle_deferred_andThen answer⟩
  failed n key resume e s st answer := by
    rw [andThen, andThenResult, andThen]
    exact ⟨settle_deferred_failed answer, settle_deferred_failed answer,
      settle_deferred_failed answer⟩
  again v st st' answered := settle_of_isSettled answered.isSettled st'

end FieldValue

namespace Squares

/-- An operation whose loads have been fetched. -/
def fetched : OperationState Unit := (engine.pollBatches fetching begun).2

/-- Goes on with the square of 4. -/
def loadNext : Continuation Unit := fun _ s => (.load 0 (.integer 4), s)

/-- Goes on with what was loaded, and the square of 5. -/
def pair : Continuation Unit := fun v s => (.list [.value v, .load 0 (.integer 5)], s)

theorem fetched_loaded : fetched.coordinator.answer? 0 (.integer 3) = some (.ok (.int 9)) := by cbv

theorem fetched_failed : fetched.coordinator.answer? 0 (.integer (-1)) =
    some (.error (.notFound "squares" "-1")) := by cbv

/-- The square of 3 is loaded, then that of 4, and then it is paired with that of 5. -/
def paired : FieldValue Unit :=
  (FieldValue.andThenResult ((FieldValue.load 0 (.integer 3)).andThen loadNext begun.scope) pair).1

theorem paired_answered : paired.Answered fetched := FieldValue.answered_of_isSettled _ _ (by cbv)

theorem chaining_lawful_squares :
    ((FieldValue.load 0 (.integer 3)).andThen (FieldValue.compose loadNext pair) begun.scope).1.SettlesTo
        fetched (.list [.value (.int 16), .value (.int 25)]) ∧
      FieldValue.settle ((FieldValue.load 0 (.integer 3)).andThen pair begun.scope).1 fetched =
        FieldValue.settleResult (pair (.int 9) fetched.scope) fetched ∧
      FieldValue.settle ((FieldValue.load 0 (.integer (-1))).andThen pair begun.scope).1 fetched =
        (.error (.notFound "squares" "-1"), fetched) ∧
      FieldValue.settle (FieldValue.settle paired fetched).1 begun =
        ((FieldValue.settle paired fetched).1, begun) := by
  have laws := FieldValue.chaining_lawful loadNext pair
  have chained := FieldValue.chaining_lawful pair pair
  obtain ⟨w, left, right⟩ := laws.settles _ _ [] fetched paired_answered
  have same : w = .list [.value (.int 16), .value (.int 25)] := left.2.symm.trans (by cbv)
  subst same
  exact ⟨right,
    (chained.loaded _ _ _ _ [] fetched [] (fun _ mem => absurd mem List.not_mem_nil) fetched_loaded).1,
    (chained.failed _ _ _ _ _ _ fetched_failed).2.1, laws.again _ _ _ paired_answered⟩

end Squares

end GraphQLEngine
