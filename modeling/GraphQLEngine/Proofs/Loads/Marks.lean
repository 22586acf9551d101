import GraphQLEngine.Execution.Settle
import Mathlib.Data.List.Infix
import Mathlib.Data.List.Nodup

/-!
# Continuations run once

To see which continuations are run, values are marked: a book is kept beside the store, and whenever a
continuation is run it writes the mark of its place there.  Marked values settle as they would without
marks; and a place that was written into the book is never left to be run again.

    Marks v' v marks           `v'` is `v`, the deferred values of which are at the places `marks`
    Spent before ran left      of what was at `before`, `ran` were run and `left` are still to run
    (markedPasses vs states).2         the book after passes over `vs` in these states
-/

namespace GraphQLEngine

variable {σ : Type}

/-- The place of a deferred value: the numbers of the items down to it, with a 0 for each continuation
whose result it is in. -/
abbrev Mark := List Nat

/-! ## Places -/

namespace Mark

/-- Neither place is within the other. -/
def Apart (p q : Mark) : Prop := ¬ p <+: q ∧ ¬ q <+: p

theorem Apart.within {p p' q q' : Mark} (apart : p.Apart q) (hp : p <+: p') (hq : q <+: q') :
    Apart p' q' := by
  constructor
  · intro inside
    rcases List.prefix_or_prefix_of_prefix (hp.trans inside) hq with h | h
    · exact apart.1 h
    · exact apart.2 h
  · intro inside
    rcases List.prefix_or_prefix_of_prefix hp (hq.trans inside) with h | h
    · exact apart.1 h
    · exact apart.2 h

theorem apart_of_ne {p : Mark} {i j : Nat} (ne : i ≠ j) : Apart (p ++ [i]) (p ++ [j]) := by
  constructor
  · intro inside
    have same := List.IsPrefix.eq_of_length inside (by simp)
    exact ne (List.singleton_inj.mp (List.append_cancel_left same))
  · intro inside
    have same := List.IsPrefix.eq_of_length inside (by simp)
    exact ne (List.singleton_inj.mp (List.append_cancel_left same)).symm

/-- All places of one list are within those of another. -/
def Within (before after : List Mark) : Prop := ∀ q ∈ after, ∃ p ∈ before, p <+: q

theorem Within.trans {a b c : List Mark} (h : Within a b) (h' : Within b c) : Within a c := by
  intro r mem
  obtain ⟨q, among, inside⟩ := h' r mem
  obtain ⟨p, among', inside'⟩ := h q among
  exact ⟨p, among', inside'.trans inside⟩

theorem Within.append {a a' b b' : List Mark} (h : Within a b) (h' : Within a' b') :
    Within (a ++ a') (b ++ b') := by
  intro q mem
  rcases List.mem_append.mp mem with mem | mem
  · obtain ⟨p, among, inside⟩ := h q mem
    exact ⟨p, List.mem_append_left _ among, inside⟩
  · obtain ⟨p, among, inside⟩ := h' q mem
    exact ⟨p, List.mem_append_right _ among, inside⟩

/-- Places within places that are apart are apart. -/
theorem Within.apart {a b a' b' : List Mark} (h : Within a a') (h' : Within b b')
    (apart : ∀ p ∈ a, ∀ q ∈ b, Apart p q) : ∀ p ∈ a', ∀ q ∈ b', Apart p q := by
  intro p mem q mem'
  obtain ⟨p₀, among, inside⟩ := h p mem
  obtain ⟨q₀, among', inside'⟩ := h' q mem'
  exact (apart p₀ among q₀ among').within inside inside'

/-- Of what was at the places `before`, that at `ran` was run, each once, and that at `left` is still to
run; there is no way from what is left back to what was run. -/
structure Spent (before ran left : List Mark) : Prop where
  runs : Within before ran
  leaves : Within before left
  once : ran.Nodup
  apart : left.Pairwise Apart
  gone : ∀ p ∈ left, ∀ q ∈ ran, ¬ p <+: q

theorem Spent.nothing {places : List Mark} (apart : places.Pairwise Apart) :
    Spent places [] places where
  runs _ mem := absurd mem List.not_mem_nil
  leaves q mem := ⟨q, mem, List.prefix_rfl⟩
  once := List.nodup_nil
  apart := apart
  gone _ _ _ mem := absurd mem List.not_mem_nil

/-- What fails is not run, and nothing is left of it. -/
theorem Spent.failed (places : List Mark) : Spent places [] [] where
  runs _ mem := absurd mem List.not_mem_nil
  leaves _ mem := absurd mem List.not_mem_nil
  once := List.nodup_nil
  apart := .nil
  gone _ mem := absurd mem List.not_mem_nil

theorem Spent.trans {a b c ran ran' : List Mark} (h : Spent a ran b) (h' : Spent b ran' c) :
    Spent a (ran ++ ran') c where
  runs := by
    intro q mem
    rcases List.mem_append.mp mem with mem | mem
    · exact h.runs q mem
    · exact h.leaves.trans h'.runs q mem
  leaves := h.leaves.trans h'.leaves
  once := by
    -- what is run later is within what was left, from where there is no way back
    refine List.nodup_append.mpr ⟨h.once, h'.once, fun q mem q' mem' same => ?_⟩
    obtain ⟨p, among, inside⟩ := h'.runs q' mem'
    exact h.gone p among q mem (same ▸ inside)
  apart := h'.apart
  gone p mem q mem' := by
    rcases List.mem_append.mp mem' with mem' | mem'
    · obtain ⟨p₀, among, inside⟩ := h'.leaves p mem
      exact fun back => h.gone p₀ among q mem' (inside.trans back)
    · exact h'.gone p mem q mem'

theorem Spent.append {a b a' b' ran ran' : List Mark} (h : Spent a ran b) (h' : Spent a' ran' b')
    (apart : ∀ p ∈ a, ∀ q ∈ a', Apart p q) : Spent (a ++ a') (ran ++ ran') (b ++ b') where
  runs := h.runs.append h'.runs
  leaves := h.leaves.append h'.leaves
  once := by
    refine List.nodup_append.mpr ⟨h.once, h'.once, fun q mem q' mem' same => ?_⟩
    exact (h.runs.apart h'.runs apart q mem q' mem').1 (same ▸ List.prefix_rfl)
  apart := List.pairwise_append.mpr ⟨h.apart, h'.apart, h.leaves.apart h'.leaves apart⟩
  gone p mem q mem' := by
    rcases List.mem_append.mp mem with mem | mem
    · rcases List.mem_append.mp mem' with mem' | mem'
      · exact h.gone p mem q mem'
      · exact (h.leaves.apart h'.runs apart p mem q mem').1
    · rcases List.mem_append.mp mem' with mem' | mem'
      · exact (h.runs.apart h'.leaves apart q mem' p mem).2
      · exact h'.gone p mem q mem'

/-- A continuation is run, and what is deferred in its result is left. -/
theorem Spent.resumed {p : Mark} {left : List Mark} (inside : ∀ q ∈ left, p ++ [0] <+: q)
    (apart : left.Pairwise Apart) : Spent [p] [p] left where
  runs q mem := ⟨q, mem, List.prefix_rfl⟩
  leaves q mem := ⟨p, List.mem_singleton_self p, (List.prefix_append p [0]).trans (inside q mem)⟩
  once := List.nodup_singleton p
  apart := apart
  gone q mem q' mem' back := by
    rw [List.mem_singleton.mp mem'] at back
    have longer := ((inside q mem).trans back).length_le
    rw [List.length_append, List.length_singleton] at longer
    omega

end Mark

/-! ## Marked values -/

/-- The scope without the book. -/
def Scope.plain (s : Scope (σ × List Mark)) : Scope σ :=
  ⟨s.signals, s.operation, s.latest, s.effects, s.store.1⟩

/-- The scope with a book beside the store. -/
def Scope.withBook (s : Scope σ) (book : List Mark) : Scope (σ × List Mark) :=
  ⟨s.signals, s.operation, s.latest, s.effects, (s.store, book)⟩

def World.withBook (w : World σ) (book : List Mark) : World (σ × List Mark) :=
  ⟨w.clock, w.signals, w.latest, w.hub, (w.store, book), w.log⟩

def OperationState.withBook (st : OperationState σ) (book : List Mark) :
    OperationState (σ × List Mark) :=
  ⟨st.operation, st.coordinator, st.world.withBook book⟩

namespace FieldValue

mutual

/-- The value at a place, with its continuations marked. -/
def marked (place : Mark) : FieldValue σ → FieldValue (σ × List Mark)
  | .value v => .value v
  | .error e => .error e
  | .list items => .list (markedItems place 0 items)
  | .deferred loader key resume =>
    .deferred loader key fun v s => markedResult place s.store.2 (resume v s.plain)

/-- What a continuation at a place returns, which writes the place into the book. -/
def markedResult (place : Mark) (book : List Mark) :
    FieldValue σ × Scope σ → FieldValue (σ × List Mark) × Scope (σ × List Mark)
  | (v, s) => (marked (place ++ [0]) v, s.withBook (book ++ [place]))

/-- The items from a number on of a list at a place. -/
def markedItems (place : Mark) : Nat → List (FieldValue σ) → List (FieldValue (σ × List Mark))
  | _, [] => []
  | i, v :: vs => marked (place ++ [i]) v :: markedItems place (i + 1) vs

end

mutual

/-- The first value is the second one with marks at these places. -/
inductive Marks : FieldValue (σ × List Mark) → FieldValue σ → List Mark → Prop
  | value (v : Json) : Marks (.value v) (.value v) []
  | error (e : FieldError) : Marks (.error e) (.error e) []
  | list {items' : List (FieldValue (σ × List Mark))} {items : List (FieldValue σ)}
    {places : List Mark} : ItemsMarks items' items places → Marks (.list items') (.list items) places
  | deferred (place : Mark) (loader : Nat) (key : LoadKey) (resume : Continuation σ) :
    Marks (marked place (.deferred loader key resume)) (.deferred loader key resume) [place]

/-- The same for values one by one. -/
inductive ItemsMarks :
    List (FieldValue (σ × List Mark)) → List (FieldValue σ) → List Mark → Prop
  | nil : ItemsMarks [] [] []
  | cons {v' : FieldValue (σ × List Mark)} {v : FieldValue σ}
    {vs' : List (FieldValue (σ × List Mark))} {vs : List (FieldValue σ)}
    {places places' : List Mark} : Marks v' v places → ItemsMarks vs' vs places' →
    ItemsMarks (v' :: vs') (v :: vs) (places ++ places')

end

mutual

/-- What is marked at a place has its marks there, apart from each other. -/
theorem marks_marked : ∀ (v : FieldValue σ) (place : Mark), ∃ places,
    Marks (marked place v) v places ∧ (∀ q ∈ places, place <+: q) ∧ places.Pairwise Mark.Apart
  | .value v, place => by
    rw [marked]
    exact ⟨[], .value v, fun q mem => absurd mem List.not_mem_nil, .nil⟩
  | .error e, place => by
    rw [marked]
    exact ⟨[], .error e, fun q mem => absurd mem List.not_mem_nil, .nil⟩
  | .list items, place => by
    obtain ⟨places, marks, inside, apart⟩ := itemsMarks_markedItems items place 0
    rw [marked]
    refine ⟨places, .list marks, fun q mem => ?_, apart⟩
    obtain ⟨j, -, within⟩ := inside q mem
    exact (List.prefix_append place [j]).trans within
  | .deferred loader key resume, place => by
    refine ⟨[place], .deferred place loader key resume, fun q mem => ?_, List.pairwise_singleton _ _⟩
    rw [List.mem_singleton.mp mem]

theorem itemsMarks_markedItems : ∀ (vs : List (FieldValue σ)) (place : Mark) (i : Nat), ∃ places,
    ItemsMarks (markedItems place i vs) vs places ∧
      (∀ q ∈ places, ∃ j, i ≤ j ∧ place ++ [j] <+: q) ∧ places.Pairwise Mark.Apart
  | [], place, i => by
    rw [markedItems]
    exact ⟨[], .nil, fun q mem => absurd mem List.not_mem_nil, .nil⟩
  | v :: vs, place, i => by
    obtain ⟨first, marks, inside, apart⟩ := marks_marked v (place ++ [i])
    obtain ⟨rest, marks', inside', apart'⟩ := itemsMarks_markedItems vs place (i + 1)
    rw [markedItems]
    refine ⟨first ++ rest, .cons marks marks', fun q mem => ?_,
      List.pairwise_append.mpr ⟨apart, apart', fun p mem q mem' => ?_⟩⟩
    · rcases List.mem_append.mp mem with mem | mem
      · exact ⟨i, Nat.le_refl i, inside q mem⟩
      · obtain ⟨j, le, within⟩ := inside' q mem
        exact ⟨j, Nat.le_of_succ_le le, within⟩
    · obtain ⟨j, le, within⟩ := inside' q mem'
      exact (Mark.apart_of_ne (Nat.ne_of_lt le)).within (inside p mem) within

end

mutual

theorem loads_marked : ∀ (v : FieldValue σ) (place : Mark), (marked place v).loads = v.loads
  | .value v, place => by rw [marked]; rfl
  | .error e, place => by rw [marked]; rfl
  | .list items, place => by rw [marked, loads, loads, loads_markedItems]
  | .deferred loader key resume, place => by rw [marked]; rfl

theorem loads_markedItems : ∀ (vs : List (FieldValue σ)) (place : Mark) (i : Nat),
    loadsOfItems (markedItems place i vs) = loadsOfItems vs
  | [], place, i => by rw [markedItems]; rfl
  | v :: vs, place, i => by
    rw [markedItems, loadsOfItems, loadsOfItems, loads_marked, loads_markedItems]

end

end FieldValue

/-! ## Passes over marked values -/

theorem World.absorb_withBook (w : World σ) (s : Scope σ) (book book' : List Mark) :
    (w.withBook book).absorb (s.withBook book') = (w.absorb s).withBook book' := by
  have perform (w : World σ) (effect : Effect) :
      (w.withBook book').perform effect = (w.perform effect).withBook book' := by
    cases effect <;> rfl
  show s.effects.foldl World.perform (World.withBook { w with store := s.store } book') = _
  exact List.foldl_hom (World.withBook · book') perform

theorem OperationState.absorb_withBook (st : OperationState σ) (v : FieldValue σ) (s : Scope σ)
    (place : Mark) (book book' : List Mark) :
    (st.withBook book).absorb (v.marked place) (s.withBook book') =
      (st.absorb v s).withBook book' := by
  unfold absorb withBook
  rw [FieldValue.loads_marked]
  exact congrArg (OperationState.mk _ _) (World.absorb_withBook st.world s book book')

namespace FieldValue

/-- What a pass over marked values comes to: the book has new entries, and the rest is as it would be
without the marks. -/
structure Mirrors (places book : List Mark) (st' : OperationState (σ × List Mark))
    (st : OperationState σ) (ran left : List Mark) : Prop where
  state : st' = st.withBook (book ++ ran)
  spent : Mark.Spent places ran left

theorem Mirrors.of_spent {places left : List Mark} (spent : Mark.Spent places [] left)
    (book : List Mark) (st : OperationState σ) : Mirrors places book (st.withBook book) st [] left :=
  ⟨by rw [List.append_nil], spent⟩

mutual

/-- Marked values settle as they would without marks, and each continuation that is run gets an entry. -/
theorem settle_marks : ∀ (v : FieldValue σ) (v' : FieldValue (σ × List Mark)) (places : List Mark)
    (st : OperationState σ) (book : List Mark), Marks v' v places → places.Pairwise Mark.Apart →
    ∃ ran left, Marks (settle v' (st.withBook book)).1 (settle v st).1 left ∧
      Mirrors places book (settle v' (st.withBook book)).2 (settle v st).2 ran left
  | .value v, v', places, st, book, marks, apart => by
    cases marks
    rw [settle, settle]
    exact ⟨[], [], .value v, .of_spent (.nothing apart) book st⟩
  | .error e, v', places, st, book, marks, apart => by
    cases marks
    rw [settle, settle]
    exact ⟨[], [], .error e, .of_spent (.nothing apart) book st⟩
  | .list items, v', places, st, book, marks, apart => by
    cases marks with
    | list marks =>
      obtain ⟨ran, left, marks, mirrors⟩ := settleItems_marks items _ places st book marks apart
      rw [settle, settle]
      exact ⟨ran, left, .list marks, mirrors⟩
  | .deferred loader key resume, v', places, st, book, marks, apart => by
    cases marks with
    | deferred place =>
      have same : (st.withBook book).coordinator.answer? loader key =
          st.coordinator.answer? loader key := rfl
      have left_alone := Marks.deferred place loader key resume
      rw [marked] at left_alone ⊢
      rw [settle, settle, same]
      cases st.coordinator.answer? loader key with
      | none => exact ⟨[], [place], left_alone, .of_spent (.nothing apart) book st⟩
      | some a =>
        cases a with
        | error e => exact ⟨[], [], .error e, .of_spent (.failed [place]) book st⟩
        | ok v => exact settleResult_marks (resume v st.scope) place st book

theorem settleResult_marks : ∀ (r : FieldValue σ × Scope σ) (place : Mark)
    (st : OperationState σ) (book : List Mark),
    ∃ ran left, Marks (settleResult (markedResult place book r) (st.withBook book)).1
        (settleResult r st).1 left ∧
      Mirrors [place] book (settleResult (markedResult place book r) (st.withBook book)).2
        (settleResult r st).2 ran left
  | (v, s), place, st, book => by
    rw [markedResult, settleResult, settleResult, OperationState.absorb_withBook]
    obtain ⟨places, marks, inside, apart⟩ := marks_marked v (place ++ [0])
    obtain ⟨ran, left, marks, mirrors⟩ :=
      settle_marks v _ places (st.absorb v s) (book ++ [place]) marks apart
    exact ⟨[place] ++ ran, left, marks, by rw [mirrors.state, List.append_assoc],
      (Mark.Spent.resumed inside apart).trans mirrors.spent⟩

theorem settleItems_marks : ∀ (vs : List (FieldValue σ)) (vs' : List (FieldValue (σ × List Mark)))
    (places : List Mark) (st : OperationState σ) (book : List Mark), ItemsMarks vs' vs places →
    places.Pairwise Mark.Apart →
    ∃ ran left, ItemsMarks (settleItems vs' (st.withBook book)).1 (settleItems vs st).1 left ∧
      Mirrors places book (settleItems vs' (st.withBook book)).2 (settleItems vs st).2 ran left
  | [], vs', places, st, book, marks, apart => by
    cases marks
    rw [settleItems, settleItems]
    exact ⟨[], [], .nil, .of_spent (.nothing apart) book st⟩
  | v :: vs, vs', places, st, book, marks, apart => by
    cases marks with
    | @cons w _ ws _ first rest marks marks' =>
      obtain ⟨apart, apart', across⟩ := List.pairwise_append.mp apart
      obtain ⟨ran, left, head, mirrors⟩ := settle_marks v w first st book marks apart
      obtain ⟨ran', left', tail, mirrors'⟩ :=
        settleItems_marks vs ws rest (settle v st).2 (book ++ ran) marks' apart'
      rw [settleItems, settleItems, mirrors.state]
      exact ⟨ran ++ ran', left ++ left', .cons head tail,
        by rw [mirrors'.state, List.append_assoc], mirrors.spent.append mirrors'.spent across⟩

end

/-! ## Passes in one state after the other -/

/-- What passes in one state after the other make of values. -/
def passes (values : List (FieldValue σ)) (states : List (OperationState σ)) :
    List (FieldValue σ) :=
  states.foldl (fun vs st => (settleItems vs st).1) values

/-- A pass over marked values, with a book. -/
def passMarked (r : List (FieldValue (σ × List Mark)) × List Mark) (st : OperationState σ) :
    List (FieldValue (σ × List Mark)) × List Mark :=
  let passed := settleItems r.1 (st.withBook r.2)
  (passed.1, passed.2.world.store.2)

/-- What passes in one state after the other make of the marked values, and the book that is carried
along. -/
def markedPasses (values : List (FieldValue σ)) (states : List (OperationState σ)) :
    List (FieldValue (σ × List Mark)) × List Mark :=
  states.foldl passMarked (markedItems [] 0 values, [])

theorem passes_append (values : List (FieldValue σ)) (before after : List (OperationState σ)) :
    passes values (before ++ after) = passes (passes values before) after :=
  List.foldl_append

theorem passMarked_marks {r : List (FieldValue (σ × List Mark)) × List Mark}
    {vs : List (FieldValue σ)} {places left : List Mark} (marks : ItemsMarks r.1 vs left)
    (spent : Mark.Spent places r.2 left) (st : OperationState σ) :
    ∃ left', ItemsMarks (passMarked r st).1 (settleItems vs st).1 left' ∧
      Mark.Spent places (passMarked r st).2 left' := by
  obtain ⟨ran, left', marks', mirrors⟩ := settleItems_marks vs r.1 left st r.2 marks spent.apart
  refine ⟨left', marks', ?_⟩
  rw [passMarked, mirrors.state]
  exact spent.trans mirrors.spent

/-- Passes over marked values are like those over the values, and run each continuation once at most. -/
theorem markedPasses_once (values : List (FieldValue σ)) (states : List (OperationState σ)) :
    (∃ left, ItemsMarks (markedPasses values states).1 (passes values states) left) ∧
      (markedPasses values states).2.Nodup := by
  obtain ⟨places, marks, -, apart⟩ := itemsMarks_markedItems values [] 0
  have runs : ∀ (states : List (OperationState σ)) (vs : List (FieldValue σ))
      (r : List (FieldValue (σ × List Mark)) × List Mark) (left : List Mark),
      ItemsMarks r.1 vs left → Mark.Spent places r.2 left →
      ∃ left', ItemsMarks (states.foldl passMarked r).1 (passes vs states) left' ∧
        Mark.Spent places (states.foldl passMarked r).2 left' := by
    intro states
    induction states with
    | nil => exact fun vs r left marks spent => ⟨left, marks, spent⟩
    | cons st rest ih =>
      intro vs r left marks spent
      obtain ⟨left', marks', spent'⟩ := passMarked_marks marks spent st
      exact ih (settleItems vs st).1 (passMarked r st) left' marks' spent'
  obtain ⟨left, marks, spent⟩ :=
    runs states values (markedItems [] 0 values, []) places marks (.nothing apart)
  exact ⟨⟨left, marks⟩, spent.once⟩

end FieldValue

end GraphQLEngine
