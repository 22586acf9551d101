import GraphQLEngine.Proofs.Graph.Endings
import GraphQLEngine.Proofs.Loads.Chains

/-!
# Rounds of settling

The settling of the values of a wave is a number of rounds, each of a pass over the values and a flush,
and a last pass.  Fetches may take their time, during which the world changes at will.  Since all loads
of the values are known to the coordinator, something is queued as long as some value is deferred, and
each flush hands over keys that no flush before it did.

    Engine.Settles e vs st r               where the settling of `vs` may come to, poll by poll
    Engine.AfterRounds e vs st rounds vs' st'
    Engine.Stands e vs' st' r              after the rounds comes a pass over `vs'`, and then `r`
-/

namespace GraphQLEngine

variable {σ : Type}

/-! ## Histories of a coordinator -/

namespace Engine

variable {e : Engine σ} {A : Answers} {requests : List (Nat × LoadKey)} {flushes : List Flush}
  {f : Flush} {c c' : Coordinator}

theorem Flushing.tracked {bs : List (Batch × Progress Unit)} {calls : List FetchCall}
    (by_e : e.AnswersBy A) (T : Tracked e A [] c) (h : e.Flushing c bs calls c') :
    Tracked e A (inFlight bs) c' := by
  induction h with
  | taken => rw [inFlight_idle]; exact T.takeBatches
  | poll operation w _ ih => exact tracked_pollBatches [] by_e _ ih

theorem Flushing.idle {bs : List (Batch × Progress Unit)} {calls : List FetchCall}
    (h : e.Flushing c bs calls c') : c'.hasQueued = false := by
  induction h with
  | taken => exact Coordinator.hasQueued_takeBatches c
  | poll operation w _ ih => rw [hasQueued_pollBatches, ih]

theorem Flushing.knows {r : Nat × LoadKey} {bs : List (Batch × Progress Unit)}
    {calls : List FetchCall} (h : e.Flushing c bs calls c') (knows : c.Knows r) : c'.Knows r := by
  induction h with
  | taken => exact knows.takeBatches
  | poll operation w _ ih => exact (knows_endures r).pollBatches _ _ ih

theorem Flushes.tracked (by_e : e.AnswersBy A) (T : Tracked e A [] c) (h : e.Flushes c f c') :
    Tracked e A [] c' := by
  obtain ⟨flushing, done⟩ := h
  have tracked := flushing.tracked by_e T
  rwa [inFlight_of_results done] at tracked

theorem Flushes.idle (h : e.Flushes c f c') : c'.hasQueued = false := by
  obtain ⟨flushing, -⟩ := h
  exact flushing.idle

theorem Flushes.knows {r : Nat × LoadKey} (h : e.Flushes c f c') (knows : c.Knows r) :
    c'.Knows r := by
  obtain ⟨flushing, -⟩ := h
  exact flushing.knows knows

theorem Uses.loadAll (used : e.Uses requests flushes c) (rs : List (Nat × LoadKey)) :
    e.Uses (requests ++ rs) flushes (c.loadAll rs) := by
  induction rs generalizing requests c with
  | nil => rwa [List.append_nil]
  | cons r rest ih =>
    have both := ih (used.load r)
    rwa [List.append_assoc] at both

theorem Uses.tracked (used : e.Uses requests flushes c) : Tracked e e.MayAnswer [] c := by
  induction used with
  | new => exact .coordinator e _
  | load r _ ih => exact ih.load r
  | flush _ flushed ih => exact flushed.tracked e.answersBy_mayAnswer ih

theorem Uses.knows {r : Nat × LoadKey} (used : e.Uses requests flushes c) (asked : r ∈ requests) :
    c.Knows r := by
  induction used with
  | new => cases asked
  | @load requests _ c q _ ih =>
    rcases List.mem_append.mp asked with old | new
    · exact (ih old).load q
    · rw [List.mem_singleton.mp new]
      exact Coordinator.knows_load_self c q
  | flush _ flushed ih => exact flushed.knows (ih asked)

/-- What is queued of a loader was not handed to it, and a flush hands over just that. -/
theorem Consistent.handed_flush (C : e.Consistent requests flushes c)
    (registered : (e.loaders.map Prod.fst).Nodup) (h : e.Flushes c f c') {n : Nat} {l : LoaderState}
    (found : c.loaders.lookup n = some l) :
    handed n [f] = l.queued ∧ ∀ key ∈ l.queued, key ∉ handed n flushes := by
  have nodup : (c.loaders.map Prod.fst).Nodup := by rw [C.numbers]; exact registered
  have number : n ∈ e.loaders.map Prod.fst :=
    C.numbers ▸ List.mem_map_of_mem (mem_of_lookup found)
  obtain ⟨⟨_, loader⟩, entry, rfl⟩ := List.mem_map.mp number
  obtain ⟨l', found', K⟩ := C.states (lookup_of_mem registered entry)
  cases found.symm.trans found'
  refine ⟨?_, fun key waits old => ?_⟩
  · rw [handed, handedBatches, List.flatMap_singleton]
    exact (C.flushed nodup found h).2.2.1
  · -- the keys handed over and those queued are the known ones, each of which is there once
    have once : l.known.Nodup := K.known ▸ nodup_eraseDups _
    rw [← K.handed] at once
    exact List.disjoint_of_nodup_append once old waits

/-- A flush hands over keys that were not handed over before, and some if anything is queued. -/
theorem Uses.flush_fresh (registered : (e.loaders.map Prod.fst).Nodup)
    (used : e.Uses requests flushes c) (h : e.Flushes c f c') :
    (∀ n, ∀ key ∈ handed n [f], key ∉ handed n flushes) ∧
      (c.hasQueued = true → ∃ n, handed n [f] ≠ []) := by
  have C := used.consistent registered
  constructor
  · intro n key carried
    obtain ⟨b, mem, inside⟩ := List.mem_flatMap.mp carried
    rw [handedBatches, List.flatMap_singleton] at mem
    obtain ⟨among, same⟩ := List.mem_filter.mp mem
    have taken : b ∈ c.takeBatches.1 := by cases h; exact among
    obtain ⟨l, found⟩ := Option.isSome_iff_exists.mp (Coordinator.lookup_of_mem_takeBatches taken)
    rw [of_decide_eq_true same] at found
    obtain ⟨all, fresh⟩ := C.handed_flush registered h found
    exact fresh key (all ▸ carried)
  · intro queued
    obtain ⟨⟨n, l⟩, entry, waits⟩ := List.any_eq_true.mp queued
    have nodup : (c.loaders.map Prod.fst).Nodup := by rw [C.numbers]; exact registered
    refine ⟨n, ?_⟩
    rw [(C.handed_flush registered h (lookup_of_mem nodup entry)).1]
    simpa using waits

end Engine

/-! ## Settling, poll by poll -/

namespace Engine

/-- What the settling of values comes to, at once or when it is polled.  Before each poll the world
changes at will. -/
inductive Settles (e : Engine σ) (values : List (FieldValue σ)) (st : OperationState σ) :
    Settling σ × OperationState σ → Prop
  | start : Settles e values st (e.settleRounds values st)
  | goOn {values' : List (FieldValue σ)} {batches : List (Batch × Progress Unit)}
    {st' : OperationState σ} (st'' : OperationState σ) :
    Settles e values st (.fetching values' batches, st') → st''.coordinator = st'.coordinator →
      Settles e values st (e.fetchOn values' batches st'')

/-- The fetches after a pass that left the state `st`: how far they are, what has returned, and the state
after the last poll.  The first poll follows the pass at once; before each other one, which takes place
while something is unfinished, the world changes at will. -/
inductive Fetches (e : Engine σ) (st : OperationState σ) :
    List (Batch × Progress Unit) → List FetchCall → OperationState σ → Prop
  | begun {bs : List (Batch × Progress Unit)} {st' : OperationState σ} :
    bs = st.coordinator.takeBatches.1.map (·, .idle) →
    st' = { st with coordinator := st.coordinator.takeBatches.2 } →
    Fetches e st (e.pollBatches bs st').1 (e.ended bs st') (e.pollBatches bs st').2
  | poll {bs : List (Batch × Progress Unit)} {calls : List FetchCall} {st' : OperationState σ}
    (st'' : OperationState σ) : Fetches e st bs calls st' → Progress.results? bs = none →
    st''.coordinator = st'.coordinator →
    Fetches e st (e.pollBatches bs st'').1 (calls ++ e.ended bs st'') (e.pollBatches bs st'').2

theorem Fetches.flushing {e : Engine σ} {st st' : OperationState σ}
    {bs : List (Batch × Progress Unit)} {calls : List FetchCall} (h : e.Fetches st bs calls st') :
    e.Flushing st.coordinator bs calls st'.coordinator := by
  induction h with
  | begun batches taken =>
    rw [batches, taken]
    exact .poll st.operation st.world .taken
  | poll st'' _ _ same ih =>
    rw [← same] at ih
    exact ih.poll st''.operation st''.world

end Engine

/-! ## Rounds -/

/-- A round: a pass over the values in a state, and the flush after it. -/
structure SettleRound (σ : Type) where
  values : List (FieldValue σ)
  state : OperationState σ
  flush : Flush

namespace SettleRound

/-- The values and the state after the pass. -/
def pass (r : SettleRound σ) : List (FieldValue σ) × OperationState σ :=
  FieldValue.settleItems r.values r.state

/-- After the pass some value is deferred and something is queued.  It is flushed, and once all fetches
have returned the state is `st`. -/
structure Done (e : Engine σ) (r : SettleRound σ) (st : OperationState σ) : Prop where
  waits : FieldValue.itemsSettled r.pass.1 = false
  queued : r.pass.2.coordinator.hasQueued = true
  batches : r.flush.batches = r.pass.2.coordinator.takeBatches.1
  fetched : ∃ bs, e.Fetches r.pass.2 bs r.flush.calls st ∧ (Progress.results? bs).isSome

theorem Done.flushes {e : Engine σ} {r : SettleRound σ} {st : OperationState σ} (h : r.Done e st) :
    e.Flushes r.pass.2.coordinator r.flush st.coordinator := by
  obtain ⟨bs, fetches, finished⟩ := h.fetched
  have flush : r.flush = ⟨r.pass.2.coordinator.takeBatches.1, r.flush.calls⟩ := by rw [← h.batches]
  rw [flush]
  exact .done fetches.flushing finished

end SettleRound

namespace Engine

open FieldValue

/-- Rounds lead from values in a state to the values and the state in which the next pass begins. -/
inductive AfterRounds (e : Engine σ) (values : List (FieldValue σ)) (st : OperationState σ) :
    List (SettleRound σ) → List (FieldValue σ) → OperationState σ → Prop
  | start : AfterRounds e values st [] values st
  | round {rounds : List (SettleRound σ)} {r : SettleRound σ} {st' : OperationState σ} :
    AfterRounds e values st rounds r.values r.state → r.Done e st' →
      AfterRounds e values st (rounds ++ [r]) r.pass.1 st'

/-- What becomes of values by a pass: they are settled, or a flush is under way, or the operation is
found to be cancelled. -/
inductive Stands (e : Engine σ) (values : List (FieldValue σ)) (st : OperationState σ) :
    Settling σ × OperationState σ → Prop
  | settled : itemsSettled (settleItems values st).1 = true →
    Stands e values st (.settled (abandonItems (settleItems values st).1), (settleItems values st).2)
  | fetching {batches : List (Batch × Progress Unit)} {calls : List FetchCall}
    {st' : OperationState σ} : itemsSettled (settleItems values st).1 = false →
    (settleItems values st).2.coordinator.hasQueued = true →
    e.Fetches (settleItems values st).2 batches calls st' → Progress.results? batches = none →
    Stands e values st (.fetching (settleItems values st).1 batches, st')
  | stopped {reason : CancelReason} :
    (settleItems values st).2.world.signals.reason? (settleItems values st).2.operation =
      some reason →
    Stands e values st (.stopped reason, (settleItems values st).2)

/-- The coordinator has a history, in which all loads of the values were asked for. -/
structure Held (e : Engine σ) (flushes : List Flush) (values : List (FieldValue σ))
    (c : Coordinator) : Prop where
  used : ∃ requests, e.Uses requests flushes c
  known : ∀ r ∈ loadsOfItems values, c.Knows r

variable {e : Engine σ} {flushes : List Flush} {values values' : List (FieldValue σ)}
  {st st' : OperationState σ} {rounds : List (SettleRound σ)}

theorem Held.tracked {c : Coordinator} (h : e.Held flushes values c) :
    Tracked e e.MayAnswer [] c := by
  obtain ⟨requests, used⟩ := h.used
  exact used.tracked

theorem Held.pass (h : e.Held flushes values st.coordinator) :
    e.Held flushes (settleItems values st).1 (settleItems values st).2.coordinator := by
  obtain ⟨requests, used⟩ := h.used
  obtain ⟨rs, asked⟩ := OperationState.loads_resolves.settleItems values st
  have still := (settleItems_narrows e.answersBy_mayAnswer values st h.tracked h.known).1
  exact ⟨⟨_, asked ▸ used.loadAll rs⟩, fun r mem => (still r mem).1⟩

theorem Held.flush {f : Flush} {c c' : Coordinator} (h : e.Held flushes values c)
    (flushed : e.Flushes c f c') : e.Held (flushes ++ [f]) values c' := by
  obtain ⟨requests, used⟩ := h.used
  exact ⟨⟨requests, used.flush flushed⟩, fun r mem => flushed.knows (h.known r mem)⟩

/-- While some value is deferred something is queued, so none is ever abandoned. -/
theorem Held.queued (h : e.Held flushes values st.coordinator)
    (waits : itemsSettled (settleItems values st).1 = false) :
    (settleItems values st).2.coordinator.hasQueued = true := by
  by_contra idle
  have settled := itemsSettled_settleItems e.answersBy_mayAnswer values st h.tracked h.known
    (Bool.not_eq_true _ ▸ idle)
  rw [settled] at waits
  cases waits

theorem AfterRounds.held (after : e.AfterRounds values st rounds values' st')
    (h : e.Held flushes values st.coordinator) :
    e.Held (flushes ++ rounds.map SettleRound.flush) values' st'.coordinator := by
  induction after with
  | start => rwa [List.map_nil, List.append_nil]
  | round _ done ih =>
    rw [List.map_append, ← List.append_assoc]
    exact ih.pass.flush done.flushes

/-- After a flush all loads of the values have an answer. -/
theorem AfterRounds.answered (after : e.AfterRounds values st rounds values' st')
    (h : e.Held flushes values st.coordinator) (some_round : rounds ≠ []) :
    ∀ r ∈ loadsOfItems values', st'.coordinator.answer? r.1 r.2 ≠ none := by
  have held := after.held h
  cases after with
  | start => exact absurd rfl some_round
  | round _ done =>
    exact fun r mem => held.tracked.answered done.flushes.idle (held.known r mem)

/-- Each flush hands over keys that no flush before it did. -/
theorem AfterRounds.fresh (registered : (e.loaders.map Prod.fst).Nodup)
    (after : e.AfterRounds values st rounds values' st')
    (h : e.Held flushes values st.coordinator) {before later : List (SettleRound σ)}
    {r : SettleRound σ} (split : rounds = before ++ r :: later) :
    (∃ n, handed n [r.flush] ≠ []) ∧
      ∀ n, ∀ key ∈ handed n [r.flush],
        key ∉ handed n (flushes ++ before.map SettleRound.flush) := by
  induction after generalizing later with
  | start => exact absurd split.symm (List.append_ne_nil_of_right_ne_nil _ (List.cons_ne_nil _ _))
  | @round rounds r' st' earlier done ih =>
    -- the round is the last one, or one of those before it
    rcases List.eq_nil_or_concat later with rfl | ⟨later, r'', rfl⟩
    · obtain ⟨rfl, same⟩ := List.append_inj' split rfl
      cases same
      obtain ⟨requests, used⟩ := (earlier.held h).pass.used
      obtain ⟨fresh, nonempty⟩ := used.flush_fresh registered done.flushes
      exact ⟨nonempty done.queued, fresh⟩
    · rw [List.concat_eq_append, ← List.cons_append, ← List.append_assoc] at split
      exact ih (List.append_inj' split rfl).1

/-! ## Where settling stands -/

/-- A pass and the flush after it are one more round. -/
theorem AfterRounds.next (after : e.AfterRounds values st rounds values' st')
    (waits : itemsSettled (settleItems values' st').1 = false)
    (queued : (settleItems values' st').2.coordinator.hasQueued = true)
    {bs : List (Batch × Progress Unit)} {calls : List FetchCall} {st'' : OperationState σ}
    (fetches : e.Fetches (settleItems values' st').2 bs calls st'')
    (finished : (Progress.results? bs).isSome) :
    ∃ rounds', e.AfterRounds values st rounds' (settleItems values' st').1 st'' := by
  let r : SettleRound σ :=
    ⟨values', st', (settleItems values' st').2.coordinator.takeBatches.1, calls⟩
  have done : r.Done e st'' := ⟨waits, queued, rfl, bs, fetches, finished⟩
  exact ⟨rounds ++ [r], after.round done⟩

/-- The rounds go on from where they stand. -/
theorem settleRounds_stands {values₀ : List (FieldValue σ)} {st₀ : OperationState σ}
    (h₀ : e.Held flushes values₀ st₀.coordinator) (values : List (FieldValue σ))
    (st : OperationState σ) (rounds : List (SettleRound σ))
    (after : e.AfterRounds values₀ st₀ rounds values st) :
    ∃ rounds' values' st', e.AfterRounds values₀ st₀ rounds' values' st' ∧
      e.Stands values' st' (e.settleRounds values st) := by
  induction values, st using settleRounds.induct (e := e) generalizing rounds with
  | case1 values st values' st' pass settled =>
    refine ⟨rounds, values, st, after, ?_⟩
    have stands : e.Stands values st _ := .settled (by rw [pass]; exact settled)
    rw [settleRounds, pass]
    rw [pass] at stands
    simpa only [settled, if_true] using stands
  | case2 values st values' st' pass unsettled queued reason stop =>
    refine ⟨rounds, values, st, after, ?_⟩
    have stands : e.Stands values st _ := .stopped (by rw [pass]; exact stop)
    rw [settleRounds, pass]
    rw [pass] at stands
    simpa [unsettled, queued, stop] using stands
  | case3 values st values' st' pass unsettled queued go taken polled finished ih =>
    have fetches := @Fetches.begun σ e st' _ _ rfl rfl
    obtain ⟨rounds', next⟩ := after.next (by rw [pass]; exact Bool.not_eq_true _ ▸ unsettled)
      (by rw [pass]; exact queued) (by rw [pass]; exact fetches) finished
    rw [pass] at next
    have go_on : e.settleRounds values st = e.settleRounds values' polled.2 := by
      rw [settleRounds, pass]
      simp [unsettled, queued, go, polled, taken, finished]
    rw [go_on]
    exact ih rounds' next
  | case4 values st values' st' pass unsettled queued go taken polled unfinished =>
    refine ⟨rounds, values, st, after, ?_⟩
    have fetches := @Fetches.begun σ e st' _ _ rfl rfl
    have stands : e.Stands values st (.fetching (settleItems values st).1 polled.1, polled.2) :=
      .fetching (by rw [pass]; exact Bool.not_eq_true _ ▸ unsettled) (by rw [pass]; exact queued)
        (by rw [pass]; exact fetches) (Option.not_isSome_iff_eq_none.mp unfinished)
    rw [settleRounds, pass]
    rw [pass] at stands
    simpa [unsettled, queued, go, polled, taken, unfinished] using stands
  | case5 values st values' st' pass unsettled idle =>
    -- this is where the deferred values would be abandoned
    have queued := (after.held h₀).queued (by rw [pass]; exact Bool.not_eq_true _ ▸ unsettled)
    rw [pass] at queued
    exact absurd queued idle

/-- However it is polled, the settling stands after some rounds. -/
theorem Settles.stands {r : Settling σ × OperationState σ} (h : e.Settles values st r)
    (held : e.Held flushes values st.coordinator) :
    ∃ rounds values' st', e.AfterRounds values st rounds values' st' ∧ e.Stands values' st' r := by
  induction h with
  | start => exact settleRounds_stands held values st [] .start
  | @goOn vs batches st₁ st₂ _ same ih =>
    obtain ⟨rounds, values', st', after, stands⟩ := ih
    cases stands with
    | fetching waits queued fetches unfinished =>
      have polled := fetches.poll st₂ unfinished same
      rw [fetchOn]
      by_cases finished : (Progress.results? (e.pollBatches batches st₂).1).isSome
      · simp only [finished, if_true]
        obtain ⟨rounds', next⟩ := after.next waits queued polled finished
        exact settleRounds_stands held _ _ rounds' next
      · simp only [finished]
        exact ⟨rounds, values', st', after, .fetching waits queued polled
          (Option.not_isSome_iff_eq_none.mp finished)⟩

end Engine

end GraphQLEngine
