import GraphQLEngine.Execution.Wave

/-!
# Running operations

An execution works off its waves until a resolver or a fetch takes time; then it is suspended, and
polling it later goes on from there.  Queries have one run of waves, mutations one for each root
field, which begins when the run before it is over.  An operation whose signal is set stops before
the next wave or fetch, and at the next poll.
-/

namespace GraphQLEngine

variable {σ : Type}

/-- Where a suspended execution stands within a wave, with the number of levels of selections
beneath it. -/
inductive Stage (σ : Type) where
  | resolving (levels : Nat) (calls : List (Invocation σ × Progress (FieldValue σ)))
  | fetching (levels : Nat) (calls : List (Invocation σ)) (values : List (FieldValue σ))
    (batches : List (Batch × Progress Unit))

/-- A suspended execution. -/
structure Execution (σ : Type) where
  graph : Graph
  stage : Stage σ
  /-- The root tasks of the runs that have not begun. -/
  remaining : List (List Task)

/-- How far an execution has come. -/
inductive Polled (σ : Type) where
  | suspended (e : Execution σ)
  | completed (g : Graph)
  /-- The operation was cancelled. -/
  | stopped (g : Graph) (reason : CancelReason)

/-- How far one run of waves has come. -/
inductive RunPhase (σ : Type) where
  | suspended (g : Graph) (stage : Stage σ)
  | completed (g : Graph)
  | stopped (g : Graph) (reason : CancelReason)

/-- The number of levels of the fields of tasks. -/
def Task.levels (tasks : List Task) : Nat := RequestField.depths (tasks.map (·.field))

namespace Engine

/-- Complete the values of a wave in the order of its fields. -/
def completeWave (e : Engine σ) (g : Graph) : List (Invocation σ) → List Settled →
    Graph × List Task
  | i :: is, v :: vs =>
    let first := completeValue e.schema i.field g i.node i.type v i.path
    let rest := e.completeWave first.1 is vs
    (rest.1, first.2 ++ rest.2)
  | _, _ => (g, [])

/-- Go on after a round of settling; `next` runs the waves beneath. -/
def afterSettling (e : Engine σ)
    (next : Graph → List Task → OperationState σ → RunPhase σ × OperationState σ) (levels : Nat)
    (g : Graph) (calls : List (Invocation σ)) (r : Settling σ × OperationState σ) :
    RunPhase σ × OperationState σ :=
  match r.1 with
  | .settled values =>
    let completed := e.completeWave g calls values
    next completed.1 completed.2 r.2
  | .fetching values batches => (.suspended g (.fetching levels calls values batches), r.2)
  | .stopped reason => (.stopped g reason, r.2)

/-- Go on after the resolvers were polled. -/
def afterCalls (e : Engine σ)
    (next : Graph → List Task → OperationState σ → RunPhase σ × OperationState σ) (levels : Nat)
    (g : Graph) (r : List (Invocation σ × Progress (FieldValue σ)) × OperationState σ) :
    RunPhase σ × OperationState σ :=
  match Progress.results? r.1 with
  | none => (.suspended g (.resolving levels r.1), r.2)
  | some values =>
    e.afterSettling next levels g (r.1.map Prod.fst) (e.settleRounds values r.2)

/-- Run tasks and all that is beneath them, for at most `levels` waves. -/
def runWaves (e : Engine σ) (caller : Caller) : Nat → Graph → List Task → OperationState σ →
    RunPhase σ × OperationState σ
  | 0, g, _, st => (.completed g, st)
  | levels + 1, g, tasks, st =>
    if tasks.isEmpty then (.completed g, st)
    else
      match st.world.signals.reason? st.operation with
      | some reason => (.stopped g reason, st)
      | none =>
        let prepared := e.prepare caller g tasks
        e.afterCalls (e.runWaves caller levels) levels prepared.1
          (Invocation.pollAll (prepared.2.map (·, .idle)) st)

/-- Go on with the runs that remain once a run has come to a point. -/
def afterRun (e : Engine σ) (caller : Caller) : List (List Task) →
    RunPhase σ × OperationState σ → Polled σ × OperationState σ
  | remaining, (.suspended g stage, st) => (.suspended ⟨g, stage, remaining⟩, st)
  | _, (.stopped g reason, st) => (.stopped g reason, st)
  | [], (.completed g, st) => (.completed g, st)
  | tasks :: remaining, (.completed g, st) =>
    e.afterRun caller remaining (e.runWaves caller (Task.levels tasks) g tasks st)

/-- Run lists of root tasks one after the other. -/
def begin (e : Engine σ) (caller : Caller) (g : Graph) (runs : List (List Task))
    (st : OperationState σ) : Polled σ × OperationState σ :=
  e.afterRun caller runs (.completed g, st)

/-- Go on with a suspended execution. -/
def poll (e : Engine σ) (caller : Caller) (x : Execution σ) (st : OperationState σ) :
    Polled σ × OperationState σ :=
  match st.world.signals.reason? st.operation with
  | some reason => (.stopped x.graph reason, st)
  | none =>
    e.afterRun caller x.remaining <|
      match x.stage with
      | .resolving levels calls =>
        e.afterCalls (e.runWaves caller levels) levels x.graph (Invocation.pollAll calls st)
      | .fetching levels calls values batches =>
        let polled := e.pollBatches batches st
        if (Progress.results? polled.1).isSome then
          e.afterSettling (e.runWaves caller levels) levels x.graph calls
            (e.settleRounds values polled.2)
        else (.suspended x.graph (.fetching levels calls values polled.1), polled.2)

end Engine

/-! ## Deadlines -/

def Progress.deadline? : Progress α → Option Nat
  | .waiting deadline => some deadline
  | _ => none

/-- When the next of the resolvers or fetches that an execution waits for is due. -/
def Execution.nextDeadline? (x : Execution σ) : Option Nat :=
  match x.stage with
  | .resolving _ calls => (calls.filterMap fun (_, p) => p.deadline?).min?
  | .fetching _ _ _ batches => (batches.filterMap fun (_, p) => p.deadline?).min?

end GraphQLEngine
