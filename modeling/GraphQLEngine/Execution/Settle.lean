import GraphQLEngine.Execution.Loader

/-!
# Settling values

A pass over the values of a wave replaces every deferred value whose load is answered by what its
continuation makes of the answer, which may ask for further loads.  Rounds of passes and fetches
end, since a pass goes down in the values or, if it finds nothing to do, the queues are empty
after the next fetch.

    settleItems vs st = (vs', st')  →  vs' is below vs, or vs' = vs and st' = st
-/

namespace GraphQLEngine

/-- An operation at work: its signal, its loads and the world around it. -/
structure OperationState (σ : Type) where
  operation : Nat
  coordinator : Coordinator
  world : World σ

namespace OperationState

variable {σ : Type}

def isCancelled (st : OperationState σ) : Bool := st.world.signals.isCancelled st.operation

def scope (st : OperationState σ) : Scope σ := st.world.scope st.operation

def record (st : OperationState σ) (entry : LogEntry) : OperationState σ :=
  { st with world := st.world.record entry }

/-- The state after a resolver, or a continuation, has returned a value: its effects take place,
and the loads that it asked for and those of the value are queued. -/
def absorb (st : OperationState σ) (v : FieldValue σ) (s : Scope σ) : OperationState σ :=
  { st with
    coordinator := st.coordinator.loadAll (s.requests ++ v.loads)
    world := st.world.absorb s }

end OperationState

namespace FieldValue

variable {σ : Type}

mutual

/-- Replace the deferred values whose loads are answered, from left to right. -/
def settle : FieldValue σ → OperationState σ → FieldValue σ × OperationState σ
  | .value v, st => (.value v, st)
  | .error e, st => (.error e, st)
  | .list items, st =>
    let r := settleItems items st
    (.list r.1, r.2)
  | .deferred loader key resume, st =>
    match st.coordinator.answer? loader key with
    | none => (.deferred loader key resume, st)
    | some (.error e) => (.error e, st)
    | some (.ok v) => settleResult (resume v st.scope) st

def settleResult : FieldValue σ × Scope σ → OperationState σ → FieldValue σ × OperationState σ
  | (v, s), st => settle v (st.absorb v s)

def settleItems : List (FieldValue σ) → OperationState σ →
    List (FieldValue σ) × OperationState σ
  | [], st => ([], st)
  | v :: vs, st =>
    let r := settle v st
    let rs := settleItems vs r.2
    (r.1 :: rs.1, rs.2)

end

/-! ## The order in which values go down -/

mutual

/-- One deferred value inside the second value is replaced in the first. -/
inductive Below : FieldValue σ → FieldValue σ → Prop
  | resumed (loader : Nat) (key : LoadKey) (resume : Continuation σ) (v : Json) (s : Scope σ) :
    Below (resume v s).1 (.deferred loader key resume)
  | failed (loader : Nat) (key : LoadKey) (resume : Continuation σ) (e : FieldError) :
    Below (.error e) (.deferred loader key resume)
  | list {items items' : List (FieldValue σ)} :
    ItemsBelow items' items → Below (.list items') (.list items)

/-- One item of the second list is lower in the first, and the others are the same. -/
inductive ItemsBelow : List (FieldValue σ) → List (FieldValue σ) → Prop
  | head {v v' : FieldValue σ} (vs : List (FieldValue σ)) :
    Below v' v → ItemsBelow (v' :: vs) (v :: vs)
  | tail (v : FieldValue σ) {vs vs' : List (FieldValue σ)} :
    ItemsBelow vs' vs → ItemsBelow (v :: vs') (v :: vs)

end

theorem acc_cons {v : FieldValue σ} (hv : Acc Below v) :
    ∀ {vs : List (FieldValue σ)}, Acc ItemsBelow vs → Acc ItemsBelow (v :: vs) := by
  induction hv with
  | intro v _ ihv =>
    intro vs hvs
    induction hvs with
    | intro vs hvs ihvs =>
      refine Acc.intro _ fun _ h => ?_
      cases h with
      | head _ h => exact ihv _ h (Acc.intro _ hvs)
      | tail _ h => exact ihvs _ h

theorem acc_list {items : List (FieldValue σ)} (h : Acc ItemsBelow items) :
    Acc Below (.list items) := by
  induction h with
  | intro items _ ih =>
    refine Acc.intro _ fun _ h => ?_
    cases h with
    | list h => exact ih _ h

mutual

theorem acc_below : ∀ v : FieldValue σ, Acc Below v
  | .value _ => Acc.intro _ fun _ h => nomatch h
  | .error _ => Acc.intro _ fun _ h => nomatch h
  | .list items => acc_list (acc_itemsBelow items)
  | .deferred _ _ resume => Acc.intro _ fun _ h => by
    cases h with
    | resumed _ _ _ v s => exact acc_result (resume v s)
    | failed => exact Acc.intro _ fun _ h => nomatch h

theorem acc_result : ∀ r : FieldValue σ × Scope σ, Acc Below r.1
  | (v, _) => acc_below v

theorem acc_itemsBelow : ∀ vs : List (FieldValue σ), Acc ItemsBelow vs
  | [] => Acc.intro _ fun _ h => nomatch h
  | v :: vs => acc_cons (acc_below v) (acc_itemsBelow vs)

end

open Relation (TransGen)

theorem transGen_list {items items' : List (FieldValue σ)} (h : TransGen ItemsBelow items' items) :
    TransGen Below (.list items') (.list items) := by
  induction h with
  | single h => exact .single (.list h)
  | tail _ h ih => exact .tail ih (.list h)

theorem transGen_head {v v' : FieldValue σ} (vs : List (FieldValue σ)) (h : TransGen Below v' v) :
    TransGen ItemsBelow (v' :: vs) (v :: vs) := by
  induction h with
  | single h => exact .single (.head vs h)
  | tail _ h ih => exact .tail ih (.head vs h)

theorem transGen_tail (v : FieldValue σ) {vs vs' : List (FieldValue σ)}
    (h : TransGen ItemsBelow vs' vs) : TransGen ItemsBelow (v :: vs') (v :: vs) := by
  induction h with
  | single h => exact .single (.tail v h)
  | tail _ h ih => exact .tail ih (.tail v h)

mutual

/-- A pass over a value changes nothing or goes down. -/
theorem settle_below : ∀ (v : FieldValue σ) (st : OperationState σ),
    settle v st = (v, st) ∨ TransGen Below (settle v st).1 v
  | .value v, st => .inl (by simp [settle])
  | .error e, st => .inl (by simp [settle])
  | .list items, st => by
    rw [settle]
    rcases settleItems_below items st with h | h
    · exact .inl (by rw [h])
    · exact .inr (transGen_list h)
  | .deferred loader key resume, st => by
    rw [settle]
    split
    · exact .inl rfl
    · exact .inr (.single (.failed loader key resume _))
    · next v _ =>
      right
      have resumed := Below.resumed loader key resume v st.scope
      rcases settleResult_below (resume v st.scope) st with h | h
      · rw [h]; exact .single resumed
      · exact .tail h resumed

theorem settleResult_below : ∀ (r : FieldValue σ × Scope σ) (st : OperationState σ),
    (settleResult r st).1 = r.1 ∨ TransGen Below (settleResult r st).1 r.1
  | (v, s), st => by
    rw [settleResult]
    rcases settle_below v (st.absorb v s) with h | h
    · exact .inl (by rw [h])
    · exact .inr h

theorem settleItems_below : ∀ (vs : List (FieldValue σ)) (st : OperationState σ),
    settleItems vs st = (vs, st) ∨ TransGen ItemsBelow (settleItems vs st).1 vs
  | [], st => .inl (by rw [settleItems])
  | v :: vs, st => by
    rw [settleItems]
    rcases settle_below v st with h | h
    · rw [h]
      rcases settleItems_below vs st with h' | h'
      · exact .inl (by rw [h'])
      · exact .inr (transGen_tail v h')
    · right
      rcases settleItems_below vs (settle v st).2 with h' | h'
      · rw [h']; exact transGen_head vs h
      · exact (transGen_tail _ h').trans (transGen_head vs h)

end

/-- The values of a wave go down, or else its queues run empty. -/
instance : WellFoundedRelation (List (FieldValue σ)) :=
  ⟨TransGen ItemsBelow, ⟨fun vs => (acc_itemsBelow vs).transGen⟩⟩

end FieldValue

end GraphQLEngine
