import GraphQLEngine.Proofs.Loads.Settling

/-!
# Plans

A plan is what a resolver comes to when each load in it gets the answer of its key at once: there
are no batches and no state.  A value that follows a plan settles to what the plan comes to,
whatever the batches that its loads go into.

    Realizes v p        the value `v` follows the plan `p`, in every scope
    p.run answers       what `p` comes to
-/

namespace GraphQLEngine

open FieldValue (Outcome Outcomes)

/-- A value, an error, a list of such, or a load with what is done with its answer. -/
inductive Plan where
  | value (v : Json)
  | error (e : FieldError)
  | list (items : List Plan)
  | load (loader : Nat) (key : LoadKey) (resume : Json → Plan)

namespace Plan

mutual

/-- Follow a plan, with the answer of each load at hand. -/
def run (answers : Nat → LoadKey → Answer) : Plan → Settled
  | .value v => .value v
  | .error e => .error e
  | .list items => .list (runAll answers items)
  | .load loader key resume =>
    match answers loader key with
    | .ok v => run answers (resume v)
    | .error e => .error e

def runAll (answers : Nat → LoadKey → Answer) : List Plan → List Settled
  | [] => []
  | p :: ps => run answers p :: runAll answers ps

end

end Plan

variable {σ : Type}

mutual

/-- A value does what a plan says, whatever the scopes that its continuations work in. -/
inductive Realizes : FieldValue σ → Plan → Prop
  | value (v : Json) : Realizes (.value v) (.value v)
  | error (e : FieldError) : Realizes (.error e) (.error e)
  | list {items : List (FieldValue σ)} {plans : List Plan} :
    RealizesAll items plans → Realizes (.list items) (.list plans)
  | load {loader : Nat} {key : LoadKey} {resume : Continuation σ} {next : Json → Plan} :
    (∀ v s, Realizes (resume v s).1 (next v)) →
      Realizes (.deferred loader key resume) (.load loader key next)

inductive RealizesAll : List (FieldValue σ) → List Plan → Prop
  | nil : RealizesAll [] []
  | cons {v : FieldValue σ} {vs : List (FieldValue σ)} {p : Plan} {ps : List Plan} :
    Realizes v p → RealizesAll vs ps → RealizesAll (v :: vs) (p :: ps)

end

section

variable {A : Answers} {answers : Nat → LoadKey → Answer}

mutual

/-- What follows a plan settles to what the plan comes to. -/
theorem Plan.run_eq (fixed : ∀ {n key a}, A n key a → a = answers n key) :
    ∀ (p : Plan) {v : FieldValue σ} {w : Settled}, Realizes v p → Outcome A v w →
      w = p.run answers
  | .value _, _, _, .value _, .value _ => by rw [run]
  | .error _, _, _, .error _, .error _ => by rw [run]
  | .list items, _, _, .list each, .list outcomes => by
    rw [run, Plan.runAll_eq fixed items each outcomes]
  | .load _ _ resume, _, _, .load each, .resumed (v := v) (s := s) answered outcome => by
    rw [run, ← fixed answered]
    exact Plan.run_eq fixed (resume v) (each v s) outcome
  | .load .., _, _, .load _, .failed answered => by
    rw [run, ← fixed answered]

theorem Plan.runAll_eq (fixed : ∀ {n key a}, A n key a → a = answers n key) :
    ∀ (ps : List Plan) {vs : List (FieldValue σ)} {ws : List Settled}, RealizesAll vs ps →
      Outcomes A vs ws → ws = Plan.runAll answers ps
  | [], _, _, .nil, .nil => by rw [runAll]
  | p :: ps, _, _, .cons first rest, .cons outcome outcomes => by
    rw [runAll, Plan.run_eq fixed p first outcome, Plan.runAll_eq fixed ps rest outcomes]

end

end

end GraphQLEngine
