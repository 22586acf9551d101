import GraphQLEngine.Proofs.Loads.Batching
import GraphQLEngine.Proofs.Loads.Settling

/-!
# What is asked for between flushes

Between two flushes of a coordinator its loaders are only asked for keys: those that are new become
known and queued, each once, and the next flush takes them all.

    Coordinator.Asked c c'        from `c` to `c'` keys were asked for, and nothing else was done
    FieldValue.Unchained v        no continuation in `v` asks for a load
-/

namespace GraphQLEngine

variable {σ : Type}

namespace Coordinator

/-- The keys that a loader was asked for. -/
def known (c : Coordinator) (n : Nat) : List LoadKey :=
  ((c.loaders.lookup n).map LoaderState.known).getD []

/-- On the way from one coordinator to another, keys were asked for. -/
def Asked (c c' : Coordinator) : Prop :=
  ∀ n, ∃ new, c'.known n = c.known n ++ new ∧ c'.queued n = c.queued n ++ new

theorem Asked.refl (c : Coordinator) : c.Asked c :=
  fun _ => ⟨[], (List.append_nil _).symm, (List.append_nil _).symm⟩

theorem Asked.trans {a b c : Coordinator} (h : a.Asked b) (h' : b.Asked c) : a.Asked c := by
  intro n
  obtain ⟨new, known, queued⟩ := h n
  obtain ⟨new', known', queued'⟩ := h' n
  exact ⟨new ++ new', by rw [known', known, List.append_assoc],
    by rw [queued', queued, List.append_assoc]⟩

theorem asked_load (c : Coordinator) (r : Nat × LoadKey) : c.Asked (c.load r) := by
  intro n
  rw [known, known, queued, queued, load, lookup_modify]
  cases c.loaders.lookup n with
  | none => exact ⟨[], rfl, rfl⟩
  | some l =>
    by_cases new : n = r.1 ∧ r.2 ∉ l.known
    · exact ⟨[r.2], by simp [new, LoaderState.load], by simp [new, LoaderState.load]⟩
    · refine ⟨[], ?_⟩
      rw [not_and_or, not_not] at new
      rcases new with other | old
      · simp [other]
      · simp [LoaderState.load, old]

theorem asked_loadAll (rs : List (Nat × LoadKey)) (c : Coordinator) : c.Asked (c.loadAll rs) := by
  induction rs generalizing c with
  | nil => exact .refl c
  | cons r rest ih => exact (asked_load c r).trans (ih (c.load r))

/-! ## Orderly coordinators -/

/-- No number is used twice, and no key is asked for twice. -/
structure Orderly (c : Coordinator) : Prop where
  numbers : (c.loaders.map Prod.fst).Nodup
  known : ∀ n, (c.known n).Nodup

theorem Orderly.coordinator {e : Engine σ} (nodup : (e.loaders.map Prod.fst).Nodup) :
    e.coordinator.Orderly where
  numbers := by simpa [Engine.coordinator, new, Function.comp_def] using nodup
  known n := by
    rw [Coordinator.known, Engine.coordinator, new,
      lookup_map_snd (fun _ (loader : Loader σ) => LoaderState.new loader.name)]
    cases e.loaders.lookup n <;> exact List.nodup_nil

theorem Orderly.load {c : Coordinator} (h : c.Orderly) (r : Nat × LoadKey) :
    (c.load r).Orderly where
  numbers := by rw [Coordinator.load, map_fst_modify]; exact h.numbers
  known n := by
    have old := h.known n
    rw [Coordinator.known] at old ⊢
    rw [Coordinator.load, lookup_modify]
    cases found : c.loaders.lookup n with
    | none => exact List.nodup_nil
    | some l =>
      rw [found] at old
      by_cases new : n = r.1 ∧ r.2 ∉ l.known
      · have : (l.known ++ [r.2]).Nodup :=
          List.nodup_append.mpr ⟨old, List.nodup_singleton _, fun a ha b hb eq =>
            new.2 (List.mem_singleton.mp hb ▸ eq ▸ ha)⟩
        simpa [new, LoaderState.load] using this
      · rw [not_and_or, not_not] at new
        rcases new with other | known
        · simpa [other] using old
        · simpa [LoaderState.load, known] using old

theorem Orderly.loadAll {c : Coordinator} (h : c.Orderly) (rs : List (Nat × LoadKey)) :
    (c.loadAll rs).Orderly := by
  induction rs generalizing c with
  | nil => exact h
  | cons r rest ih => exact ih (h.load r)

theorem known_takeBatches (c : Coordinator) (n : Nat) : c.takeBatches.2.known n = c.known n := by
  rw [known, known, lookup_takeBatches]
  cases c.loaders.lookup n <;> rfl

theorem known_finishAll (c : Coordinator) (calls : List FetchCall) (n : Nat) :
    (c.finishAll calls).known n = c.known n := by
  rw [known, known, lookup_finishAll]
  cases c.loaders.lookup n <;> rfl

theorem Orderly.takeBatches {c : Coordinator} (h : c.Orderly) : c.takeBatches.2.Orderly where
  numbers := by rw [map_fst_takeBatches]; exact h.numbers
  known n := by rw [known_takeBatches]; exact h.known n

theorem Orderly.finishAll {c : Coordinator} (h : c.Orderly) (calls : List FetchCall) :
    (c.finishAll calls).Orderly where
  numbers := by rw [map_fst_finishAll]; exact h.numbers
  known n := by rw [known_finishAll]; exact h.known n

/-- The batches that are taken of a loader hold what was queued. -/
theorem Orderly.keys_takeBatches {c : Coordinator} (h : c.Orderly) (n : Nat) :
    (c.takeBatches.1.filter (·.loader = n)).flatMap Batch.keys = c.queued n := by
  cases found : c.loaders.lookup n with
  | some l =>
    rw [filter_takeBatches h.numbers found, queued, found, List.flatMap_map]
    exact List.flatMap_id'.trans (LoaderState.flatten_chunks _ _)
  | none =>
    rw [queued, found]
    refine List.flatMap_eq_nil_iff.mpr fun b mem => ?_
    obtain ⟨mem, number⟩ := List.mem_filter.mp mem
    have := lookup_of_mem_takeBatches mem
    rw [of_decide_eq_true number, found] at this
    cases this

end Coordinator

/-! ## Polls and passes -/

/-- Resolvers and passes ask for keys. -/
theorem OperationState.loads_resolves : OperationState.Resolves fun st st' : OperationState σ =>
    ∃ rs, st'.coordinator = st.coordinator.loadAll rs where
  refl _ := ⟨[], rfl⟩
  trans := fun ⟨rs, first⟩ ⟨rs', second⟩ =>
    ⟨rs ++ rs', by rw [second, first]; exact List.foldl_append.symm⟩
  absorb _ _ _ := ⟨_, rfl⟩
  record _ _ := ⟨[], rfl⟩

namespace Engine

variable {e : Engine σ}

theorem finishes_pollBatch (b : Batch) (p : Progress Unit) (st : OperationState σ) :
    ∃ calls, (e.pollBatch b p st).2.coordinator = st.coordinator.finishAll calls ∧
      ∀ call ∈ calls, call.batch ∈ inFlight [(b, p)] := by
  have none : ∀ (bs : List Batch), ∀ call ∈ ([] : List FetchCall), call.batch ∈ bs :=
    fun _ _ mem => absurd mem List.not_mem_nil
  have ran (st : OperationState σ) : ∃ calls,
      (e.runBatch b st).coordinator = st.coordinator.finishAll calls ∧
        ∀ call ∈ calls, call.batch ∈ [b] := by
    unfold runBatch
    split
    · exact ⟨[], rfl, none _⟩
    · next loader _ =>
      refine ⟨[⟨b, (loader.fetch b.keys st.world.store).1⟩], rfl, fun call mem => ?_⟩
      rw [List.mem_singleton.mp mem]
      exact List.mem_singleton_self b
  cases p with
  | finished => exact ⟨[], rfl, none _⟩
  | waiting deadline =>
    rw [pollBatch]
    split
    · exact ran st
    · exact ⟨[], rfl, none _⟩
  | idle =>
    rw [pollBatch]
    split
    · exact ran (st.record (.fetchStarted b.name b.keys))
    · exact ⟨[], rfl, none _⟩

/-- Fetches leave answers to batches that were in flight. -/
theorem finishes_pollBatches (bs : List (Batch × Progress Unit)) (st : OperationState σ) :
    ∃ calls, (e.pollBatches bs st).2.coordinator = st.coordinator.finishAll calls ∧
      ∀ call ∈ calls, call.batch ∈ inFlight bs := by
  induction bs generalizing st with
  | nil => exact ⟨[], rfl, fun _ mem => absurd mem List.not_mem_nil⟩
  | cons bp rest ih =>
    obtain ⟨b, p⟩ := bp
    obtain ⟨calls, head, flew⟩ := finishes_pollBatch (e := e) b p st
    obtain ⟨calls', tail, flew'⟩ := ih (e.pollBatch b p st).2
    refine ⟨calls ++ calls', by rw [pollBatches, tail, head, Coordinator.finishAll_append], ?_⟩
    intro call mem
    rw [inFlight_cons]
    exact List.mem_append.mpr ((List.mem_append.mp mem).imp (flew call) (flew' call))

/-- What is in flight after a poll was so before. -/
theorem inFlight_pollBatches (bs : List (Batch × Progress Unit)) (st : OperationState σ) :
    ∀ b ∈ inFlight (e.pollBatches bs st).1, b ∈ inFlight bs := by
  have one (b : Batch) (p : Progress Unit) (st : OperationState σ) :
      ∀ b' ∈ inFlight [(b, (e.pollBatch b p st).1)], b' ∈ inFlight [(b, p)] := by
    intro b' mem
    have alone (p' : Progress Unit) (mem : b' ∈ inFlight [(b, p')]) : b' ∈ [b] := by
      cases p' with
      | finished => exact absurd mem List.not_mem_nil
      | idle | waiting => exact mem
    cases p with
    | finished => exact mem
    | idle | waiting => exact alone _ mem
  induction bs generalizing st with
  | nil => exact fun _ mem => mem
  | cons bp rest ih =>
    obtain ⟨b, p⟩ := bp
    intro b' mem
    rw [pollBatches, inFlight_cons] at mem
    rw [inFlight_cons]
    exact List.mem_append.mpr ((List.mem_append.mp mem).imp (one b p st b') (ih _ b'))

end Engine

namespace FieldValue

mutual

/-- A load without an answer stays in a pass. -/
theorem mem_loads_settle {r : Nat × LoadKey} : ∀ (v : FieldValue σ) (st : OperationState σ),
    r ∈ v.loads → st.coordinator.answer? r.1 r.2 = none → r ∈ (settle v st).1.loads
  | .value _, _, mem, _ | .error _, _, mem, _ => absurd mem List.not_mem_nil
  | .list items, st, mem, unanswered => by
    rw [settle]
    exact mem_loads_settleItems items st mem unanswered
  | .deferred loader key resume, st, mem, unanswered => by
    rw [loads, List.mem_singleton] at mem
    subst mem
    rw [settle, unanswered]
    exact List.mem_singleton_self _

theorem mem_loads_settleItems {r : Nat × LoadKey} :
    ∀ (vs : List (FieldValue σ)) (st : OperationState σ), r ∈ loadsOfItems vs →
      st.coordinator.answer? r.1 r.2 = none → r ∈ loadsOfItems (settleItems vs st).1
  | [], _, mem, _ => absurd mem List.not_mem_nil
  | v :: vs, st, mem, unanswered => by
    rw [settleItems, loadsOfItems]
    rcases List.mem_append.mp mem with mem | mem
    · exact List.mem_append_left _ (mem_loads_settle v st mem unanswered)
    · refine List.mem_append_right _ (mem_loads_settleItems vs _ mem ?_)
      obtain ⟨rs, same⟩ := OperationState.loads_resolves.settle v st
      rw [same, Coordinator.answer?_loadAll, unanswered]

end

mutual

theorem loads_of_isSettled : ∀ v : FieldValue σ, v.isSettled = true → v.loads = []
  | .value _, _ => rfl
  | .error _, _ => rfl
  | .list items, h => @loads_of_itemsSettled items h
  | .deferred .., h => nomatch h

/-- Settled values wait for no load. -/
theorem loads_of_itemsSettled : ∀ {vs : List (FieldValue σ)}, itemsSettled vs = true →
    loadsOfItems vs = []
  | [], _ => rfl
  | v :: vs, h => by
    rw [itemsSettled, Bool.and_eq_true] at h
    rw [loadsOfItems, loads_of_isSettled v h.1, loads_of_itemsSettled h.2]
    rfl

end

/-! ## Chains -/

mutual

/-- No continuation in the value asks for a load. -/
def Unchained : FieldValue σ → Prop
  | .value _ | .error _ => True
  | .list items => ItemsUnchained items
  | .deferred _ _ resume =>
    ∀ v s, (resume v s).1.loads = [] ∧ (resume v s).2.requests = s.requests

def ItemsUnchained : List (FieldValue σ) → Prop
  | [] => True
  | v :: vs => Unchained v ∧ ItemsUnchained vs

end

mutual

theorem unchained_of_loads : ∀ v : FieldValue σ, v.loads = [] → v.Unchained
  | .value _, _ => trivial
  | .error _, _ => trivial
  | .list items, h => itemsUnchained_of_loads items h
  | .deferred .., h => nomatch h

theorem itemsUnchained_of_loads :
    ∀ vs : List (FieldValue σ), loadsOfItems vs = [] → ItemsUnchained vs
  | [], _ => trivial
  | v :: vs, h => by
    rw [loadsOfItems, List.append_eq_nil_iff] at h
    exact ⟨unchained_of_loads v h.1, itemsUnchained_of_loads vs h.2⟩

end

mutual

/-- There is nothing to do in a value without loads. -/
theorem settle_of_loads : ∀ (v : FieldValue σ) (st : OperationState σ),
    v.loads = [] → settle v st = (v, st)
  | .value _, _, _ => by rw [settle]
  | .error _, _, _ => by rw [settle]
  | .list items, st, h => by rw [settle, settleItems_of_loads items st h]
  | .deferred .., _, h => nomatch h

theorem settleItems_of_loads : ∀ (vs : List (FieldValue σ)) (st : OperationState σ),
    loadsOfItems vs = [] → settleItems vs st = (vs, st)
  | [], _, _ => by rw [settleItems]
  | v :: vs, st, h => by
    rw [loadsOfItems, List.append_eq_nil_iff] at h
    rw [settleItems, settle_of_loads v st h.1]
    simp only
    rw [settleItems_of_loads vs st h.2]

end

mutual

/-- A pass over values that chain no loads asks for nothing. -/
theorem settle_unchained : ∀ (v : FieldValue σ) (st : OperationState σ), v.Unchained →
    (settle v st).1.Unchained ∧ (settle v st).2.coordinator = st.coordinator
  | .value _, st, _ => by rw [settle]; exact ⟨trivial, rfl⟩
  | .error _, st, _ => by rw [settle]; exact ⟨trivial, rfl⟩
  | .list items, st, h => by rw [settle]; exact settleItems_unchained items st h
  | .deferred loader key resume, st, h => by
    rw [settle]
    split
    · exact ⟨h, rfl⟩
    · exact ⟨trivial, rfl⟩
    · next v _ =>
      obtain ⟨loads, requests⟩ := h v st.scope
      generalize resume v st.scope = r at loads requests
      obtain ⟨w, s⟩ := r
      rw [settleResult, settle_of_loads w _ loads]
      refine ⟨unchained_of_loads w loads, ?_⟩
      have none : s.requests ++ w.loads = [] := by
        rw [loads, List.append_nil]
        exact requests
      exact congrArg st.coordinator.loadAll none

theorem settleItems_unchained : ∀ (vs : List (FieldValue σ)) (st : OperationState σ),
    ItemsUnchained vs →
    ItemsUnchained (settleItems vs st).1 ∧ (settleItems vs st).2.coordinator = st.coordinator
  | [], st, _ => by rw [settleItems]; exact ⟨trivial, rfl⟩
  | v :: vs, st, h => by
    obtain ⟨first, same⟩ := settle_unchained v st h.1
    obtain ⟨rest, same'⟩ := settleItems_unchained vs (settle v st).2 h.2
    rw [settleItems]
    exact ⟨⟨first, rest⟩, same'.trans same⟩

end

end FieldValue

end GraphQLEngine
