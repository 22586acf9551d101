import GraphQLEngine.Execution.Completion
import GraphQLEngine.Execution.Resolver
import GraphQLEngine.Execution.Settle

/-!
# Waves

The fields at one depth of the answer are a wave.  All resolvers of a wave are started before any
load is fetched, and all loads that they wait for are fetched, in rounds, before the values of the
wave are completed.
-/

namespace GraphQLEngine

variable {σ : Type}

/-! ## Preparing -/

/-- A resolver that is to be called, and where its value goes. -/
structure Invocation (σ : Type) where
  node : Nat
  type : TypeRef
  field : RequestField
  path : Path
  call : FieldCall
  resolver : Resolver σ

namespace Engine

/-- Make the node of a task.  The field of the type's name is complete at once; a field without a
definition or a resolver, and one that the caller may not see, fails; beneath a null nothing is
done. -/
def prepareTask (e : Engine σ) (caller : Caller) (g : Graph) (t : Task) :
    Graph × Option (Invocation σ) :=
  let id := g.size
  let name := t.field.outputName
  if g.isNulled t.parent then (g, none)
  else if t.field.name = typenameField then
    ((g.addField t.parent name true).setLeaf id (.str t.parentType), none)
  else
    match e.schema.field? t.parentType t.field.name with
    | none =>
      ((g.addField t.parent name false).fail id
        (.internal ("Field " ++ t.parentType ++ "." ++ t.field.name ++
          " is not part of the schema")) t.fieldPath, none)
    | some d =>
      let g := g.addField t.parent name d.type.isNonNull
      if caller.identity.satisfies d.access then
        match e.dispatch.resolverFor ⟨t.parentType, t.field.name⟩ with
        | .error fault => (g.fail id (.internal fault.message) t.fieldPath, none)
        | .ok resolver =>
          (g, some ⟨id, d.type, t.field, t.fieldPath,
            caller.call t.parentType t.parentValue t.field d, resolver⟩)
      else (g.fail id .authorization t.fieldPath, none)

/-- Make the nodes of a wave; what is left are the resolvers to call. -/
def prepare (e : Engine σ) (caller : Caller) (g : Graph) : List Task → Graph × List (Invocation σ)
  | [] => (g, [])
  | t :: ts =>
    let first := e.prepareTask caller g t
    let rest := e.prepare caller first.1 ts
    (rest.1, first.2.toList ++ rest.2)

end Engine

/-! ## Resolving -/

inductive Progress (α : Type) where
  | idle
  | waiting (deadline : Nat)
  | finished (result : α)

namespace Invocation

/-- Call the resolver. -/
def run (i : Invocation σ) (st : OperationState σ) : FieldValue σ × OperationState σ :=
  let r := i.resolver.run i.call st.scope
  let v :=
    match r.1 with
    | .ok v => v
    | .error e => .error e
  (v, (st.absorb v r.2).record (.resolverReturned i.call.typeName i.call.fieldName i.path))

/-- Start the resolver, or go on with it if its delay is over. -/
def poll (i : Invocation σ) (p : Progress (FieldValue σ)) (st : OperationState σ) :
    Progress (FieldValue σ) × OperationState σ :=
  match p with
  | .finished v => (.finished v, st)
  | .waiting deadline =>
    if deadline ≤ st.world.clock then
      let r := i.run st
      (.finished r.1, r.2)
    else (.waiting deadline, st)
  | .idle =>
    let st := st.record (.resolverStarted i.call.typeName i.call.fieldName i.path)
    match i.resolver.delay i.call with
    | 0 =>
      let r := i.run st
      (.finished r.1, r.2)
    | delay => (.waiting (st.world.clock + delay), st)

/-- Poll the resolvers of a wave in the order of its fields. -/
def pollAll : List (Invocation σ × Progress (FieldValue σ)) → OperationState σ →
    List (Invocation σ × Progress (FieldValue σ)) × OperationState σ
  | [], st => ([], st)
  | (i, p) :: rest, st =>
    let r := i.poll p st
    let rs := pollAll rest r.2
    ((i, r.1) :: rs.1, rs.2)

end Invocation

/-- The results, if all are finished. -/
def Progress.results? : List (α × Progress β) → Option (List β)
  | [] => some []
  | (_, .finished b) :: rest => (results? rest).map (b :: ·)
  | _ => none

/-! ## Fetching -/

namespace Engine

/-- Fetch a batch. -/
def runBatch (e : Engine σ) (b : Batch) (st : OperationState σ) : OperationState σ :=
  match e.loaders.lookup b.loader with
  | none => st
  | some loader =>
    let r := loader.fetch b.keys st.world.store
    { st with
      coordinator := st.coordinator.finish b r.1
      world := { st.world with store := r.2 }.record (.fetchReturned b.name b.keys) }

def batchDelay (e : Engine σ) (b : Batch) : Nat :=
  match e.loaders.lookup b.loader with
  | none => 0
  | some loader => loader.delay

/-- Start the fetch of a batch, or go on with it if its delay is over. -/
def pollBatch (e : Engine σ) (b : Batch) (p : Progress Unit) (st : OperationState σ) :
    Progress Unit × OperationState σ :=
  match p with
  | .finished _ => (.finished (), st)
  | .waiting deadline =>
    if deadline ≤ st.world.clock then (.finished (), e.runBatch b st) else (.waiting deadline, st)
  | .idle =>
    let st := st.record (.fetchStarted b.name b.keys)
    match e.batchDelay b with
    | 0 => (.finished (), e.runBatch b st)
    | delay => (.waiting (st.world.clock + delay), st)

def pollBatches (e : Engine σ) : List (Batch × Progress Unit) → OperationState σ →
    List (Batch × Progress Unit) × OperationState σ
  | [], st => ([], st)
  | (b, p) :: rest, st =>
    let r := e.pollBatch b p st
    let rs := e.pollBatches rest r.2
    ((b, r.1) :: rs.1, rs.2)

theorem hasQueued_runBatch (e : Engine σ) (b : Batch) (st : OperationState σ) :
    (e.runBatch b st).coordinator.hasQueued = st.coordinator.hasQueued := by
  unfold runBatch
  split
  · rfl
  · exact Coordinator.hasQueued_finish _ _ _

theorem hasQueued_pollBatch (e : Engine σ) (b : Batch) (p : Progress Unit)
    (st : OperationState σ) :
    (e.pollBatch b p st).2.coordinator.hasQueued = st.coordinator.hasQueued := by
  unfold pollBatch
  split
  · rfl
  · split
    · exact e.hasQueued_runBatch b st
    · rfl
  · split
    · exact e.hasQueued_runBatch b _
    · rfl

theorem hasQueued_pollBatches (e : Engine σ) (bs : List (Batch × Progress Unit))
    (st : OperationState σ) :
    (e.pollBatches bs st).2.coordinator.hasQueued = st.coordinator.hasQueued := by
  induction bs generalizing st with
  | nil => rfl
  | cons bp rest ih => rw [pollBatches, ih, hasQueued_pollBatch]

/-! ## Settling -/

/-- How the settling of a wave stands. -/
inductive Settling (σ : Type) where
  | settled (values : List Settled)
  | fetching (values : List (FieldValue σ)) (batches : List (Batch × Progress Unit))
  | stopped (reason : CancelReason)

/-- Passes over the values and fetches in turn, until nothing waits for a load, a fetch takes time,
or the operation is cancelled. -/
def settleRounds (e : Engine σ) (values : List (FieldValue σ)) (st : OperationState σ) :
    Settling σ × OperationState σ :=
  match _pass : FieldValue.settleItems values st with
  | (values', st') =>
    if FieldValue.itemsSettled values' then (.settled (FieldValue.abandonItems values'), st')
    else if _queued : st'.coordinator.hasQueued then
      match st'.world.signals.reason? st'.operation with
      | some reason => (.stopped reason, st')
      | none =>
        let taken := st'.coordinator.takeBatches
        let polled := e.pollBatches (taken.1.map (·, .idle)) { st' with coordinator := taken.2 }
        if (Progress.results? polled.1).isSome then e.settleRounds values' polled.2
        else (.fetching values' polled.1, polled.2)
    else (.settled (FieldValue.abandonItems values'), st')
termination_by (values, st.coordinator.hasQueued.toNat)
decreasing_by
  rcases FieldValue.settleItems_below values st with h | h
  · rw [_pass] at h
    injection h with h₁ h₂
    subst h₁ h₂
    apply Prod.Lex.right
    rw [hasQueued_pollBatches, Coordinator.hasQueued_takeBatches, _queued]
    decide
  · rw [_pass] at h
    exact .left _ _ h

end Engine

end GraphQLEngine
