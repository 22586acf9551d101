import GraphQLEngine.Execution.FieldValue

/-!
# Loaders and batches

A loader fetches the values of many keys at once.  The coordinator of an operation collects the
keys that resolvers ask for, hands each to its loader at most once, and keeps the answers.

    answer? (finish c b r) b.loader k = some _           if k ∈ b.keys
    hasQueued (takeBatches c).2 = false
-/

namespace GraphQLEngine

/-- The value of a key, or why there is none. -/
abbrev Answer := Except FieldError Json

/-- What a fetch returns: the answers of some of its keys, or a failure of all. -/
abbrev Fetched := Except FieldError (List (LoadKey × Answer))

structure Loader (σ : Type) where
  name : String
  /-- How long a fetch takes, in milliseconds. -/
  delay : Nat
  fetch : List LoadKey → σ → Fetched × σ

structure LoaderStats where
  batchCalls : Nat
  keysLoaded : Nat
deriving DecidableEq, Repr, Inhabited

/-- What a coordinator knows of one loader. -/
structure LoaderState where
  name : String
  /-- Every key that was asked for. -/
  known : List LoadKey
  /-- The keys asked for since the last flush. -/
  queued : List LoadKey
  answers : List (LoadKey × Answer)
  stats : LoaderStats
deriving Inhabited

/-- Keys that are fetched together. -/
structure Batch where
  loader : Nat
  name : String
  keys : List LoadKey
deriving Inhabited

namespace LoaderState

def new (name : String) : LoaderState := ⟨name, [], [], [], ⟨0, 0⟩⟩

/-- Ask for a key; one that was asked for before is not queued again. -/
def load (l : LoaderState) (key : LoadKey) : LoaderState :=
  if key ∈ l.known then l
  else { l with known := l.known ++ [key], queued := l.queued ++ [key] }

/-- Cut a list into pieces of `size`, the last of which may be shorter. -/
def chunks (size : Nat) : List α → List (List α)
  | [] => []
  | x :: xs =>
    ((x :: xs).take (max 1 size)) :: chunks size (xs.drop (max 1 size - 1))
termination_by xs => xs.length
decreasing_by simp only [List.length_drop, List.length_cons]; omega

/-- The queued keys in batches of at most `size`; without a size in one. -/
def batches (l : LoaderState) (size : Option Nat) : List (List LoadKey) :=
  chunks (size.getD l.queued.length) l.queued

/-- The state once its batches were taken. -/
def taken (l : LoaderState) (size : Option Nat) : LoaderState :=
  { l with
    queued := []
    stats := ⟨l.stats.batchCalls + (l.batches size).length,
      l.stats.keysLoaded + l.queued.length⟩ }

/-- The answer that a fetch gives to one of its keys. -/
def answerOf (name : String) (key : LoadKey) : Fetched → Answer
  | .error e => .error e
  | .ok answers => (answers.lookup key).getD (.error (.notFound name key.render))

def finish (l : LoaderState) (keys : List LoadKey) (r : Fetched) : LoaderState :=
  { l with answers := l.answers ++ keys.map fun key => (key, answerOf l.name key r) }

end LoaderState

/-- The loads of one operation, by the number of the loader. -/
structure Coordinator where
  batchSize : Option Nat
  loaders : List (Nat × LoaderState)
deriving Inhabited

namespace Coordinator

/-- A coordinator that has not loaded anything. -/
def new (batchSize : Option Nat) (loaders : List (Nat × Loader σ)) : Coordinator :=
  ⟨batchSize, loaders.map fun (number, loader) => (number, .new loader.name)⟩

def modify (c : Coordinator) (number : Nat) (f : LoaderState → LoaderState) : Coordinator :=
  { c with loaders := c.loaders.map fun (n, l) => (n, if n = number then f l else l) }

def load (c : Coordinator) (request : Nat × LoadKey) : Coordinator :=
  c.modify request.1 (·.load request.2)

def loadAll (c : Coordinator) (requests : List (Nat × LoadKey)) : Coordinator :=
  requests.foldl load c

/-- The answer to a load, if it is there; a load from an unknown loader fails at once. -/
def answer? (c : Coordinator) (number : Nat) (key : LoadKey) : Option Answer :=
  match c.loaders.lookup number with
  | none => some (.error (.internal ("Loader " ++ toString number ++ " is not registered")))
  | some l => l.answers.lookup key

def hasQueued (c : Coordinator) : Bool := c.loaders.any fun (_, l) => !l.queued.isEmpty

/-- Take the queued keys of every loader, in batches. -/
def takeBatches (c : Coordinator) : List Batch × Coordinator :=
  (c.loaders.flatMap fun (number, l) =>
      (l.batches c.batchSize).map fun keys => ⟨number, l.name, keys⟩,
    { c with loaders := c.loaders.map fun (number, l) => (number, l.taken c.batchSize) })

/-- Keep what the fetch of a batch returned. -/
def finish (c : Coordinator) (b : Batch) (r : Fetched) : Coordinator :=
  c.modify b.loader (·.finish b.keys r)

/-- The statistics in the order of the loaders' names; of loaders of one name those of the last. -/
def stats (c : Coordinator) : OrderedMap LoaderStats :=
  (OrderedMap.ofEntries (c.loaders.map fun (_, l) => (l.name, l.stats))).sorted

/-! ## Lemmas -/

theorem hasQueued_takeBatches (c : Coordinator) : c.takeBatches.2.hasQueued = false := by
  simp [hasQueued, takeBatches, LoaderState.taken]

theorem hasQueued_finish (c : Coordinator) (b : Batch) (r : Fetched) :
    (c.finish b r).hasQueued = c.hasQueued := by
  unfold hasQueued finish modify
  rw [List.any_map]
  congr 1
  funext ⟨n, l⟩
  by_cases h : n = b.loader <;> simp [h, LoaderState.finish]

end Coordinator

end GraphQLEngine
