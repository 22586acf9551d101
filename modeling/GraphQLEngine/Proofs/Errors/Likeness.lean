import GraphQLEngine.Engine.Subscribe
import Mathlib.Data.List.Forall2
import Mathlib.Data.Option.Basic

/-!
# Likeness but for internal details

Two values are like each other if they differ at most in the details of internal errors, at any place
in them: what a resolver returns and what its continuations go on to return, what loaders answer for a
key or for a whole batch, what is kept of the answers.

    e.Like e'  →  e'.shown = e.shown and e'.kind = e.kind
    v.Like v'  →  v and v' wait for the same loads
-/

namespace GraphQLEngine

variable {σ : Type}

/-! ## Errors and outcomes -/

inductive FieldError.Like : FieldError → FieldError → Prop
  | same (e : FieldError) : Like e e
  | internal (detail detail' : String) : Like (.internal detail) (.internal detail')

theorem FieldError.Like.shown {e e' : FieldError} (h : e.Like e') : e'.shown = e.shown := by
  cases h <;> rfl

theorem FieldError.Like.kind {e e' : FieldError} (h : e.Like e') : e'.kind = e.kind := by
  cases h <;> rfl

/-- The same field fails with errors that are like each other, or gives results that are. -/
inductive OutcomeLike {α : Type} (R : α → α → Prop) :
    Except FieldError α → Except FieldError α → Prop
  | ok {a a' : α} : R a a' → OutcomeLike R (.ok a) (.ok a')
  | error {e e' : FieldError} : e.Like e' → OutcomeLike R (.error e) (.error e')

theorem rel_cases {α β : Type} {R : α → β → Prop} {o : Option α} {o' : Option β}
    (h : Option.Rel R o o') : o = none ∧ o' = none ∨ ∃ a b, o = some a ∧ o' = some b ∧ R a b := by
  cases h with
  | none => exact .inl ⟨rfl, rfl⟩
  | some related => exact .inr ⟨_, _, rfl, rfl, related⟩

/-- What is under the same key. -/
def Keyed {κ α : Type} (R : α → α → Prop) (entry entry' : κ × α) : Prop :=
  entry'.1 = entry.1 ∧ R entry.2 entry'.2

theorem lookup_keyed {κ α : Type} [BEq κ] {R : α → α → Prop} {l l' : List (κ × α)}
    (h : List.Forall₂ (Keyed R) l l') (k : κ) : Option.Rel R (l.lookup k) (l'.lookup k) := by
  induction h with
  | nil => exact .none
  | @cons entry entry' _ _ here _ ih =>
    obtain ⟨key, a⟩ := entry
    obtain ⟨key', a'⟩ := entry'
    obtain ⟨rfl, related⟩ := here
    rw [List.lookup_cons, List.lookup_cons]
    cases k == key' with
    | true => exact .some related
    | false => exact ih

theorem map_of_forall₂ {α β : Type} {R : α → α → Prop} {f : α → β} {l l' : List α}
    (h : List.Forall₂ R l l') (same : ∀ a a', R a a' → f a' = f a) : l'.map f = l.map f := by
  induction h with
  | nil => rfl
  | cons here _ ih => rw [List.map_cons, List.map_cons, same _ _ here, ih]

theorem getElem?_of_forall₂ {α : Type} {R : α → α → Prop} {l l' : List α} (h : List.Forall₂ R l l')
    (i : Nat) : Option.Rel R l[i]? l'[i]? := by
  induction h generalizing i with
  | nil => exact .none
  | cons here _ ih =>
    cases i with
    | zero => exact .some here
    | succ i => exact ih i

theorem set_of_forall₂ {α : Type} {R : α → α → Prop} {l l' : List α} (h : List.Forall₂ R l l')
    (i : Nat) {a a' : α} (related : R a a') : List.Forall₂ R (l.set i a) (l'.set i a') := by
  induction h generalizing i with
  | nil => exact .nil
  | cons here rest ih =>
    cases i with
    | zero => exact .cons related rest
    | succ i => exact .cons here (ih i)

abbrev Answer.Like (a a' : Answer) : Prop := OutcomeLike Eq a a'

abbrev Fetched.Like (r r' : Fetched) : Prop := OutcomeLike (List.Forall₂ (Keyed Answer.Like)) r r'

theorem Answer.Like.refl : ∀ a : Answer, Answer.Like a a
  | .ok _ => .ok rfl
  | .error e => .error (.same e)

theorem Fetched.Like.answerOf {r r' : Fetched} (h : Fetched.Like r r') (name : String)
    (key : LoadKey) :
    Answer.Like (LoaderState.answerOf name key r) (LoaderState.answerOf name key r') := by
  cases h with
  | error like => exact .error like
  | @ok answers answers' like =>
    rw [LoaderState.answerOf, LoaderState.answerOf]
    rcases rel_cases (lookup_keyed like key) with ⟨eq, eq'⟩ | ⟨_, _, eq, eq', like⟩
    all_goals rw [eq, eq']
    · exact .refl _
    · exact like

/-! ## Values -/

mutual

inductive FieldValue.Like : FieldValue σ → FieldValue σ → Prop
  | value (v : Json) : FieldValue.Like (.value v) (.value v)
  | error {e e' : FieldError} : e.Like e' → FieldValue.Like (.error e) (.error e')
  | list {items items' : List (FieldValue σ)} :
    FieldValue.LikeItems items items' → FieldValue.Like (.list items) (.list items')
  /-- The continuations do the same in the same scope. -/
  | deferred {loader : Nat} {key : LoadKey} {resume resume' : Continuation σ} :
    (∀ v s, FieldValue.Like (resume v s).1 (resume' v s).1) →
      (∀ v s, (resume' v s).2 = (resume v s).2) →
      FieldValue.Like (.deferred loader key resume) (.deferred loader key resume')

inductive FieldValue.LikeItems : List (FieldValue σ) → List (FieldValue σ) → Prop
  | nil : FieldValue.LikeItems [] []
  | cons {v v' : FieldValue σ} {vs vs' : List (FieldValue σ)} :
    FieldValue.Like v v' → FieldValue.LikeItems vs vs' →
      FieldValue.LikeItems (v :: vs) (v' :: vs')

end

mutual

inductive Settled.Like : Settled → Settled → Prop
  | value (v : Json) : Settled.Like (.value v) (.value v)
  | error {e e' : FieldError} : e.Like e' → Settled.Like (.error e) (.error e')
  | list {items items' : List Settled} :
    Settled.LikeItems items items' → Settled.Like (.list items) (.list items')

inductive Settled.LikeItems : List Settled → List Settled → Prop
  | nil : Settled.LikeItems [] []
  | cons {v v' : Settled} {vs vs' : List Settled} :
    Settled.Like v v' → Settled.LikeItems vs vs' → Settled.LikeItems (v :: vs) (v' :: vs')

end

namespace FieldValue

mutual

theorem Like.loads : ∀ {v v' : FieldValue σ}, v.Like v' → v'.loads = v.loads
  | _, _, .value _ => rfl
  | _, _, .error _ => rfl
  | _, _, .deferred _ _ => rfl
  | _, _, .list items => by
    rw [FieldValue.loads, FieldValue.loads]
    exact LikeItems.loads items

theorem LikeItems.loads : ∀ {vs vs' : List (FieldValue σ)}, LikeItems vs vs' →
    loadsOfItems vs' = loadsOfItems vs
  | _, _, .nil => rfl
  | _, _, .cons first rest => by
    rw [loadsOfItems, loadsOfItems, Like.loads first, LikeItems.loads rest]

end

mutual

theorem Like.isSettled : ∀ {v v' : FieldValue σ}, v.Like v' → v'.isSettled = v.isSettled
  | _, _, .value _ => rfl
  | _, _, .error _ => rfl
  | _, _, .deferred _ _ => rfl
  | _, _, .list items => by
    rw [FieldValue.isSettled, FieldValue.isSettled]
    exact LikeItems.itemsSettled items

theorem LikeItems.itemsSettled : ∀ {vs vs' : List (FieldValue σ)}, LikeItems vs vs' →
    FieldValue.itemsSettled vs' = FieldValue.itemsSettled vs
  | _, _, .nil => rfl
  | _, _, .cons first rest => by
    rw [FieldValue.itemsSettled, FieldValue.itemsSettled, Like.isSettled first,
      LikeItems.itemsSettled rest]

end

mutual

theorem Like.abandon : ∀ {v v' : FieldValue σ}, v.Like v' → v.abandon.Like v'.abandon
  | _, _, .value v => .value v
  | _, _, .error like => .error like
  | _, _, .deferred _ _ => .error (.same _)
  | _, _, .list items => .list (LikeItems.abandon items)

theorem LikeItems.abandon : ∀ {vs vs' : List (FieldValue σ)}, LikeItems vs vs' →
    Settled.LikeItems (abandonItems vs) (abandonItems vs')
  | _, _, .nil => .nil
  | _, _, .cons first rest => .cons (Like.abandon first) (LikeItems.abandon rest)

end

end FieldValue

/-! ## Loads -/

/-- The same keys, with answers that are like each other. -/
structure LoaderState.Like (l l' : LoaderState) : Prop where
  name : l'.name = l.name
  known : l'.known = l.known
  queued : l'.queued = l.queued
  answers : List.Forall₂ (Keyed Answer.Like) l.answers l'.answers
  stats : l'.stats = l.stats

structure Coordinator.Like (c c' : Coordinator) : Prop where
  batchSize : c'.batchSize = c.batchSize
  loaders : List.Forall₂ (Keyed LoaderState.Like) c.loaders c'.loaders

namespace LoaderState

theorem Like.batches {l l' : LoaderState} (h : l.Like l') (size : Option Nat) :
    l'.batches size = l.batches size := by
  rw [LoaderState.batches, LoaderState.batches, h.queued]

theorem Like.load {l l' : LoaderState} (h : l.Like l') (key : LoadKey) :
    (l.load key).Like (l'.load key) := by
  unfold LoaderState.load
  simp only [h.known, h.queued]
  split
  · exact h
  · exact ⟨h.name, rfl, rfl, h.answers, h.stats⟩

theorem Like.taken {l l' : LoaderState} (h : l.Like l') (size : Option Nat) :
    (l.taken size).Like (l'.taken size) where
  name := h.name
  known := h.known
  queued := rfl
  answers := h.answers
  stats := by rw [LoaderState.taken, LoaderState.taken, h.batches, h.stats, h.queued]

theorem Like.finish {l l' : LoaderState} (h : l.Like l') (keys : List LoadKey) {r r' : Fetched}
    (fetched : Fetched.Like r r') : (l.finish keys r).Like (l'.finish keys r') where
  name := h.name
  known := h.known
  queued := h.queued
  stats := h.stats
  answers := by
    refine List.rel_append h.answers ?_
    rw [h.name]
    induction keys with
    | nil => exact .nil
    | cons key rest ih => exact .cons ⟨rfl, fetched.answerOf l.name key⟩ ih

end LoaderState

namespace Coordinator

variable {c c' : Coordinator}

theorem Like.modify (h : c.Like c') (number : Nat) {f f' : LoaderState → LoaderState}
    (keeps : ∀ {l l'}, l.Like l' → (f l).Like (f' l')) :
    (c.modify number f).Like (c'.modify number f') where
  batchSize := h.batchSize
  loaders := by
    refine List.forall₂_map_left_iff.mpr (List.forall₂_map_right_iff.mpr (h.loaders.imp ?_))
    rintro ⟨n, l⟩ ⟨n', l'⟩ ⟨same, like⟩
    cases same
    refine ⟨rfl, ?_⟩
    show LoaderState.Like (if n = number then f l else l) (if n = number then f' l' else l')
    split
    · exact keeps like
    · exact like

theorem Like.loadAll (h : c.Like c') (requests : List (Nat × LoadKey)) :
    (c.loadAll requests).Like (c'.loadAll requests) := by
  induction requests generalizing c c' with
  | nil => exact h
  | cons request rest ih => exact ih (h.modify request.1 fun like => like.load request.2)

theorem Like.finish (h : c.Like c') (b : Batch) {r r' : Fetched} (fetched : Fetched.Like r r') :
    (c.finish b r).Like (c'.finish b r') :=
  h.modify b.loader fun like => like.finish b.keys fetched

theorem Like.answer? (h : c.Like c') (number : Nat) (key : LoadKey) :
    Option.Rel Answer.Like (c.answer? number key) (c'.answer? number key) := by
  unfold Coordinator.answer?
  rcases rel_cases (lookup_keyed h.loaders number) with ⟨eq, eq'⟩ | ⟨_, _, eq, eq', like⟩
  all_goals rw [eq, eq']
  · exact .some (.refl _)
  · exact lookup_keyed like.answers key

theorem Like.hasQueued (h : c.Like c') : c'.hasQueued = c.hasQueued := by
  have same := map_of_forall₂ h.loaders (f := fun entry => !entry.2.queued.isEmpty)
    fun _ _ like => by simp only [like.2.queued]
  have each (c : Coordinator) :
      c.hasQueued = (c.loaders.map fun entry => !entry.2.queued.isEmpty).any id := by
    rw [List.any_map]
    rfl
  rw [each, each, same]

theorem Like.takeBatches (h : c.Like c') :
    c'.takeBatches.1 = c.takeBatches.1 ∧ c.takeBatches.2.Like c'.takeBatches.2 := by
  constructor
  · have same := map_of_forall₂ h.loaders
      (f := fun entry =>
        (entry.2.batches c.batchSize).map fun keys => Batch.mk entry.1 entry.2.name keys)
      fun _ _ like => by simp only [like.1, like.2.batches, like.2.name]
    rw [Coordinator.takeBatches, Coordinator.takeBatches, h.batchSize]
    exact congrArg List.flatten same
  · refine ⟨h.batchSize, List.forall₂_map_left_iff.mpr (List.forall₂_map_right_iff.mpr
      (h.loaders.imp fun _ _ like => ⟨like.1, ?_⟩))⟩
    rw [h.batchSize]
    exact like.2.taken c.batchSize

end Coordinator

end GraphQLEngine
