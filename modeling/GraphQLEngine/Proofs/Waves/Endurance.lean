import GraphQLEngine.Execution.Wave

/-!
# What endures

How an operation at work and what becomes of it are related is often kept by each thing that a wave
does: to absorb a scope, to put an entry into the log, to take the batches of a flush, to fetch one.
Then it is kept by every pass and by every poll.

    Settles R    →  R st (settleItems vs st).2
    Resolves R   →  R st (pollAll calls st).2
    Fetches e R  →  R st (e.pollBatches batches st).2
-/

namespace GraphQLEngine

variable {σ : Type}

/-- What storing and each effect keep, absorbing keeps. -/
theorem World.absorb_induction {P : World σ → Prop} (w : World σ) (s : Scope σ)
    (stored : P { w with store := s.store })
    (perform : ∀ {w' : World σ} (effect : Effect), P w' → P (w'.perform effect)) :
    P (w.absorb s) :=
  List.foldlRecOn s.effects World.perform stored fun _ kept effect _ => perform effect kept

namespace OperationState

/-- How an operation and what it becomes are related, whatever its values come to. -/
structure Settles (R : OperationState σ → OperationState σ → Prop) : Prop where
  refl : ∀ st, R st st
  trans : ∀ {a b c}, R a b → R b c → R a c
  absorb : ∀ st v s, R st (st.absorb v s)

/-- How an operation and what it becomes are related, whatever its resolvers do. -/
structure Resolves (R : OperationState σ → OperationState σ → Prop) : Prop extends Settles R where
  record : ∀ st entry, R st (st.record entry)

/-- How an operation and what it becomes are related, whatever is fetched. -/
structure Fetches (e : Engine σ) (R : OperationState σ → OperationState σ → Prop) : Prop where
  refl : ∀ st, R st st
  trans : ∀ {a b c}, R a b → R b c → R a c
  start : ∀ st (b : Batch), R st (st.record (.fetchStarted b.name b.keys))
  fetch : ∀ st (b : Batch), R st (e.runBatch b st)

/-- How an operation and what it becomes are related, whatever its waves do. -/
structure Endures (e : Engine σ) (R : OperationState σ → OperationState σ → Prop) : Prop
    extends Resolves R, Fetches e R where
  take : ∀ st, R st { st with coordinator := st.coordinator.takeBatches.2 }

variable {R : OperationState σ → OperationState σ → Prop} {e : Engine σ}

/-- The loads and the store of an operation may become anything. -/
theorem Resolves.endures (h : Resolves R)
    (work : ∀ st c store,
      R st { st with coordinator := c, world := { st.world with store := store } }) :
    Endures e R where
  toResolves := h
  start st _ := h.record st _
  fetch st b := by
    unfold Engine.runBatch
    split
    · exact h.refl st
    · next loader _ =>
      obtain ⟨returned, store⟩ := loader.fetch b.keys st.world.store
      exact h.trans (work st (st.coordinator.finish b returned) store)
        (h.record _ (.fetchReturned b.name b.keys))
  take st := work st st.coordinator.takeBatches.2 st.world.store

namespace Settles

mutual

theorem settle (h : Settles R) : ∀ (v : FieldValue σ) (st : OperationState σ),
    R st (FieldValue.settle v st).2
  | .value _, st | .error _, st => by rw [FieldValue.settle]; exact h.refl st
  | .list items, st => by rw [FieldValue.settle]; exact h.settleItems items st
  | .deferred loader key resume, st => by
    rw [FieldValue.settle]
    split
    · exact h.refl st
    · exact h.refl st
    · next v _ => exact h.settleResult (resume v st.scope) st

theorem settleResult (h : Settles R) : ∀ (r : FieldValue σ × Scope σ) (st : OperationState σ),
    R st (FieldValue.settleResult r st).2
  | (v, s), st => by
    rw [FieldValue.settleResult]
    exact h.trans (h.absorb st v s) (h.settle v (st.absorb v s))

theorem settleItems (h : Settles R) : ∀ (vs : List (FieldValue σ)) (st : OperationState σ),
    R st (FieldValue.settleItems vs st).2
  | [], st => by rw [FieldValue.settleItems]; exact h.refl st
  | v :: vs, st => by
    rw [FieldValue.settleItems]
    exact h.trans (h.settle v st) (h.settleItems vs (FieldValue.settle v st).2)

end

end Settles

namespace Resolves

theorem poll (h : Resolves R) (i : Invocation σ) (p : Progress (FieldValue σ))
    (st : OperationState σ) : R st (i.poll p st).2 := by
  have ran : ∀ st' : OperationState σ, R st' (i.run st').2 := fun st' =>
    h.trans (h.absorb st' (i.run st').1 (i.resolver.run i.call st'.scope).2) (h.record _ _)
  unfold Invocation.poll
  split
  · exact h.refl st
  · split
    · exact ran st
    · exact h.refl st
  · have started := h.record st (.resolverStarted i.call.typeName i.call.fieldName i.path)
    simp only
    split
    · exact h.trans started (ran _)
    · exact started

theorem pollAll (h : Resolves R) (calls : List (Invocation σ × Progress (FieldValue σ)))
    (st : OperationState σ) : R st (Invocation.pollAll calls st).2 := by
  induction calls generalizing st with
  | nil => exact h.refl st
  | cons c rest ih => exact h.trans (h.poll c.1 c.2 st) (ih _)

end Resolves

namespace Fetches

theorem pollBatch (h : Fetches e R) (b : Batch) (p : Progress Unit) (st : OperationState σ) :
    R st (e.pollBatch b p st).2 := by
  unfold Engine.pollBatch
  split
  · exact h.refl st
  · split
    · exact h.fetch st b
    · exact h.refl st
  · simp only
    split
    · exact h.trans (h.start st b) (h.fetch _ b)
    · exact h.start st b

theorem pollBatches (h : Fetches e R) (bs : List (Batch × Progress Unit)) (st : OperationState σ) :
    R st (e.pollBatches bs st).2 := by
  induction bs generalizing st with
  | nil => exact h.refl st
  | cons bp rest ih => exact h.trans (h.pollBatch bp.1 bp.2 st) (ih _)

end Fetches

end OperationState

end GraphQLEngine
