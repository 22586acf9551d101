import GraphQLEngine.Execution.Wave
import Mathlib.Logic.Basic

/-!
# Resolvers that are functions

A resolver may depend on its call alone, and so may the continuations of the values that it returns;
a loader may answer a key alike in every batch.  Then a pass over values comes to the same in any two
operations that find the same answers.

    Couples R  →  R st st'  →  (settle v st').1 = (settle v st).1
-/

namespace GraphQLEngine

variable {σ : Type}

/-! ## What depends on nothing else -/

/-- What is returned, and which loads are asked for, is the same in every new scope. -/
def Alike {α : Type} (f : Scope σ → α × Scope σ) : Prop :=
  ∀ s s', s.effects = [] → s'.effects = [] →
    (f s').1 = (f s).1 ∧ (f s').2.requests = (f s).2.requests

mutual

/-- A value whose continuations depend on the answers that they are given alone. -/
inductive Steady : FieldValue σ → Prop
  | value (v : Json) : Steady (.value v)
  | error (e : FieldError) : Steady (.error e)
  | list {items : List (FieldValue σ)} : SteadyAll items → Steady (.list items)
  | deferred {loader : Nat} {key : LoadKey} {resume : Continuation σ} :
    (∀ v, Alike (resume v)) → (∀ v s, Steady (resume v s).1) →
      Steady (.deferred loader key resume)

inductive SteadyAll : List (FieldValue σ) → Prop
  | nil : SteadyAll []
  | cons {v : FieldValue σ} {vs : List (FieldValue σ)} : Steady v → SteadyAll vs →
    SteadyAll (v :: vs)

end

/-- A resolver that depends on its call alone. -/
structure Resolver.Functional (r : Resolver σ) : Prop where
  alike : ∀ call, Alike (r.run call)
  steady : ∀ {call s v}, (r.run call s).1 = .ok v → Steady v

/-- The resolvers of an engine depend on their calls alone, and its loaders answer a key alike in
every batch. -/
structure Engine.Functional (e : Engine σ) : Prop where
  resolvers : ∀ {key resolver}, e.dispatch.resolverFor key = .ok resolver → resolver.Functional
  loaders : ∀ {n loader}, e.loaders.lookup n = some loader → ∀ {keys keys' key} (name store store'),
    key ∈ keys → key ∈ keys' →
      LoaderState.answerOf name key (loader.fetch keys' store').1 =
        LoaderState.answerOf name key (loader.fetch keys store).1

/-! ## Two operations -/

/-- Two operations at work find the same answers, and do so after returning the same. -/
structure OperationState.Couples (R : OperationState σ → OperationState σ → Prop) : Prop where
  answer : ∀ {st st'}, R st st' → ∀ n key,
    st'.coordinator.answer? n key = st.coordinator.answer? n key
  absorb : ∀ {st st'}, R st st' → ∀ (v : FieldValue σ) {s s' : Scope σ}, s'.requests = s.requests →
    R (st.absorb v s) (st'.absorb v s')

/-- Two results that are the same, with operations at work that belong together. -/
structure OperationState.Concur {α : Type} (R : OperationState σ → OperationState σ → Prop)
    (good : α → Prop) (r r' : α × OperationState σ) : Prop where
  same : r'.1 = r.1
  good : good r.1
  coupled : R r.2 r'.2

open OperationState (Couples Concur)

namespace FieldValue

variable {R : OperationState σ → OperationState σ → Prop}

mutual

/-- A pass comes to the same in both. -/
theorem settle_concur (couples : Couples R) : ∀ (v : FieldValue σ), Steady v →
    ∀ {st st' : OperationState σ}, R st st' → Concur R Steady (settle v st) (settle v st')
  | .value v, steady, _, _, t => by
    rw [settle, settle]
    exact ⟨rfl, steady, t⟩
  | .error e, steady, _, _, t => by
    rw [settle, settle]
    exact ⟨rfl, steady, t⟩
  | .list items, .list all, _, _, t => by
    have each := settleItems_concur couples items all t
    rw [settle, settle]
    exact ⟨congrArg FieldValue.list each.same, .list each.good, each.coupled⟩
  | .deferred loader key resume, .deferred alike next, st, st', t => by
    rw [settle, settle, couples.answer t]
    split
    · exact ⟨rfl, .deferred alike next, t⟩
    · next e _ => exact ⟨rfl, .error e, t⟩
    · next v _ =>
      obtain ⟨value, requests⟩ := alike v st.scope st'.scope rfl rfl
      exact settleResult_concur couples (resume v st.scope) (next v st.scope) value requests t

theorem settleResult_concur (couples : Couples R) : ∀ (r : FieldValue σ × Scope σ), Steady r.1 →
    ∀ {r' : FieldValue σ × Scope σ} {st st' : OperationState σ}, r'.1 = r.1 →
      r'.2.requests = r.2.requests → R st st' →
        Concur R Steady (settleResult r st) (settleResult r' st')
  | (v, s), steady, (_, s'), st, st', rfl, same, t => by
    rw [settleResult, settleResult]
    exact settle_concur couples v steady (couples.absorb t v same)

theorem settleItems_concur (couples : Couples R) : ∀ (vs : List (FieldValue σ)), SteadyAll vs →
    ∀ {st st' : OperationState σ}, R st st' →
      Concur R SteadyAll (settleItems vs st) (settleItems vs st')
  | [], _, _, _, t => by
    rw [settleItems, settleItems]
    exact ⟨rfl, .nil, t⟩
  | v :: vs, .cons first rest, st, st', t => by
    have head := settle_concur couples v first t
    have tail := settleItems_concur couples vs rest head.coupled
    rw [settleItems, settleItems]
    refine ⟨?_, .cons head.good tail.good, tail.coupled⟩
    exact congrArg₂ List.cons head.same tail.same

end

end FieldValue

end GraphQLEngine
