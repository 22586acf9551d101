import GraphQLEngine.Proofs.Loads.Chaining
import GraphQLEngine.Proofs.Loads.Marks
import GraphQLEngine.Proofs.Loads.Rounds

/-!
# How deep loads go

A load depends on another one if it is asked for by what the continuation of the other returned.  In a
pass after a flush every continuation is run, so a value that is still deferred then is further down
in such a chain; and there cannot be more rounds than loads in the longest chain.

    ItemsChain R vs loads         loads, each in what the continuation of the one before returned in `R`
    AfterRounds e vs st rounds vs' st'  →  rounds.length ≤ loads.length      for some such chain
-/

namespace GraphQLEngine

variable {σ : Type}

/-! ## Resumptions -/

/-- A continuation that is run: its load, the loaded value and the scope that it is run with. -/
structure Resumption (σ : Type) where
  loader : Nat
  key : LoadKey
  resume : Continuation σ
  value : Json
  scope : Scope σ

namespace Resumption

/-- The deferred value whose continuation it is. -/
def deferred (x : Resumption σ) : FieldValue σ := .deferred x.loader x.key x.resume

/-- The value that the continuation returned. -/
def result (x : Resumption σ) : FieldValue σ := (x.resume x.value x.scope).1

end Resumption

namespace FieldValue

mutual

/-- A pass over the value in the state runs the continuation. -/
inductive Resumes : FieldValue σ → OperationState σ → Resumption σ → Prop
  | here {loader : Nat} {key : LoadKey} {resume : Continuation σ} {v : Json}
    {st : OperationState σ} : st.coordinator.answer? loader key = some (.ok v) →
    Resumes (.deferred loader key resume) st ⟨loader, key, resume, v, st.scope⟩
  | later {loader : Nat} {key : LoadKey} {resume : Continuation σ} {v : Json}
    {st : OperationState σ} {x : Resumption σ} :
    st.coordinator.answer? loader key = some (.ok v) →
    Resumes (resume v st.scope).1 (st.absorb (resume v st.scope).1 (resume v st.scope).2) x →
    Resumes (.deferred loader key resume) st x
  | list {items : List (FieldValue σ)} {st : OperationState σ} {x : Resumption σ} :
    ItemsResumes items st x → Resumes (.list items) st x

/-- The same for values that are settled from left to right. -/
inductive ItemsResumes : List (FieldValue σ) → OperationState σ → Resumption σ → Prop
  | head {v : FieldValue σ} {vs : List (FieldValue σ)} {st : OperationState σ}
    {x : Resumption σ} : Resumes v st x → ItemsResumes (v :: vs) st x
  | tail {v : FieldValue σ} {vs : List (FieldValue σ)} {st : OperationState σ}
    {x : Resumption σ} : ItemsResumes vs (settle v st).2 x → ItemsResumes (v :: vs) st x

end

/-! ## Chains of loads -/

mutual

/-- A load that the value waits for, then one that the result of its continuation waits for, and so on;
the continuations are run as in `R`. -/
inductive Chain (R : Resumption σ → Prop) : FieldValue σ → List (Nat × LoadKey) → Prop
  | last (loader : Nat) (key : LoadKey) (resume : Continuation σ) :
    Chain R (.deferred loader key resume) [(loader, key)]
  | next {x : Resumption σ} {loads : List (Nat × LoadKey)} : R x → Chain R x.result loads →
    Chain R x.deferred ((x.loader, x.key) :: loads)
  | list {items : List (FieldValue σ)} {loads : List (Nat × LoadKey)} :
    ItemsChain R items loads → Chain R (.list items) loads

/-- A chain that begins in one of the values. -/
inductive ItemsChain (R : Resumption σ → Prop) : List (FieldValue σ) → List (Nat × LoadKey) → Prop
  | head {v : FieldValue σ} {vs : List (FieldValue σ)} {loads : List (Nat × LoadKey)} :
    Chain R v loads → ItemsChain R (v :: vs) loads
  | tail {v : FieldValue σ} {vs : List (FieldValue σ)} {loads : List (Nat × LoadKey)} :
    ItemsChain R vs loads → ItemsChain R (v :: vs) loads

end

variable {R : Resumption σ → Prop}

mutual

/-- In a value that is not settled a chain begins. -/
theorem chain_of_waits : ∀ v : FieldValue σ, v.isSettled = false →
    ∃ loads, Chain R v loads ∧ loads.length = 1
  | .value _, h => by cases h
  | .error _, h => by cases h
  | .list items, h => by
    obtain ⟨loads, chain, one⟩ := itemsChain_of_waits items h
    exact ⟨loads, .list chain, one⟩
  | .deferred loader key resume, _ => ⟨_, .last loader key resume, rfl⟩

theorem itemsChain_of_waits : ∀ vs : List (FieldValue σ), itemsSettled vs = false →
    ∃ loads, ItemsChain R vs loads ∧ loads.length = 1
  | [], h => by cases h
  | v :: vs, h => by
    rw [itemsSettled, Bool.and_eq_false_iff] at h
    rcases h with h | h
    · obtain ⟨loads, chain, one⟩ := chain_of_waits v h
      exact ⟨loads, .head chain, one⟩
    · obtain ⟨loads, chain, one⟩ := itemsChain_of_waits vs h
      exact ⟨loads, .tail chain, one⟩

end

/-- The loads have an answer. -/
def AnswersTo (st : OperationState σ) (loads : List (Nat × LoadKey)) : Prop :=
  ∀ r ∈ loads, st.coordinator.answer? r.1 r.2 ≠ none

mutual

/-- A chain after a pass is the end of one before it, and a shorter one if all loads were answered. -/
theorem chain_of_settle : ∀ (v : FieldValue σ) (st : OperationState σ) (loads : List (Nat × LoadKey)),
    (∀ x, Resumes v st x → R x) → Chain R (settle v st).1 loads →
    ∃ loads', Chain R v loads' ∧ loads.length ≤ loads'.length ∧
      (AnswersTo st v.loads → loads.length < loads'.length)
  | .value v, st, loads, _, chain => by rw [settle] at chain; cases chain
  | .error e, st, loads, _, chain => by rw [settle] at chain; cases chain
  | .list items, st, loads, ran, chain => by
    rw [settle] at chain
    cases chain with
    | list chain =>
      obtain ⟨loads', chain', le, lt⟩ :=
        itemsChain_of_settle items st loads (fun x h => ran x (.list h)) chain
      exact ⟨loads', .list chain', le, lt⟩
  | .deferred loader key resume, st, loads, ran, chain => by
    cases answer : st.coordinator.answer? loader key with
    | none =>
      rw [settle, answer] at chain
      refine ⟨loads, chain, Nat.le_refl _, fun answered => ?_⟩
      exact absurd answer (answered (loader, key) (List.mem_singleton_self _))
    | some a =>
      cases a with
      | error e => rw [settle, answer] at chain; cases chain
      | ok v =>
        -- the chain goes on from the result of the continuation, so this load comes before it
        rw [settle, answer] at chain
        obtain ⟨loads', chain', le⟩ := chain_of_settleResult (resume v st.scope) st loads
          (fun x h => ran x (.later answer h)) chain
        have longer : Chain R (.deferred loader key resume) ((loader, key) :: loads') :=
          .next (x := ⟨loader, key, resume, v, st.scope⟩) (ran _ (.here answer)) chain'
        exact ⟨_, longer, Nat.le_succ_of_le le, fun _ => Nat.lt_succ_of_le le⟩

theorem chain_of_settleResult : ∀ (r : FieldValue σ × Scope σ) (st : OperationState σ)
    (loads : List (Nat × LoadKey)), (∀ x, Resumes r.1 (st.absorb r.1 r.2) x → R x) →
    Chain R (settleResult r st).1 loads → ∃ loads', Chain R r.1 loads' ∧ loads.length ≤ loads'.length
  | (v, s), st, loads, ran, chain => by
    rw [settleResult] at chain
    obtain ⟨loads', chain', le, -⟩ := chain_of_settle v (st.absorb v s) loads ran chain
    exact ⟨loads', chain', le⟩

theorem itemsChain_of_settle : ∀ (vs : List (FieldValue σ)) (st : OperationState σ)
    (loads : List (Nat × LoadKey)), (∀ x, ItemsResumes vs st x → R x) →
    ItemsChain R (settleItems vs st).1 loads →
    ∃ loads', ItemsChain R vs loads' ∧ loads.length ≤ loads'.length ∧
      (AnswersTo st (loadsOfItems vs) → loads.length < loads'.length)
  | [], st, loads, _, chain => by rw [settleItems] at chain; cases chain
  | v :: vs, st, loads, ran, chain => by
    rw [settleItems] at chain
    rw [loadsOfItems]
    cases chain with
    | head chain =>
      obtain ⟨loads', chain', le, lt⟩ :=
        chain_of_settle v st loads (fun x h => ran x (.head h)) chain
      exact ⟨loads', .head chain', le,
        fun answered => lt fun r mem => answered r (List.mem_append_left _ mem)⟩
    | tail chain =>
      obtain ⟨loads', chain', le, lt⟩ :=
        itemsChain_of_settle vs (settle v st).2 loads (fun x h => ran x (.tail h)) chain
      refine ⟨loads', .tail chain', le, fun answered => lt fun r mem => ?_⟩
      obtain ⟨rs, asked⟩ := OperationState.loads_resolves.settle v st
      rw [asked, Coordinator.answer?_loadAll]
      exact answered r (List.mem_append_right _ mem)

end

end FieldValue

/-! ## As many rounds as loads in a chain -/

namespace SettleRound

/-- The continuation is run in the pass of one of the rounds. -/
def Resumed (rounds : List (SettleRound σ)) (x : Resumption σ) : Prop :=
  ∃ r ∈ rounds, FieldValue.ItemsResumes r.values r.state x

/-- The states in which the passes of the rounds begin, and the one after them. -/
def states (rounds : List (SettleRound σ)) (last : OperationState σ) : List (OperationState σ) :=
  rounds.map SettleRound.state ++ [last]

end SettleRound

namespace Engine

open FieldValue

variable {e : Engine σ} {flushes : List Flush} {values values' : List (FieldValue σ)}
  {st st' : OperationState σ} {rounds : List (SettleRound σ)}

/-- A chain after some rounds is the end of one that is longer by one load for each round but the
first. -/
theorem AfterRounds.chain {R : Resumption σ → Prop}
    (after : e.AfterRounds values st rounds values' st')
    (h : e.Held flushes values st.coordinator) (ran : ∀ x, SettleRound.Resumed rounds x → R x)
    {loads : List (Nat × LoadKey)} (chain : ItemsChain R values' loads) :
    ∃ loads', ItemsChain R values loads' ∧ loads.length + (rounds.length - 1) ≤ loads'.length := by
  induction after generalizing loads with
  | start => exact ⟨loads, chain, Nat.le_refl _⟩
  | @round rounds r st' earlier done ih =>
    obtain ⟨loads₁, chain₁, le, lt⟩ := itemsChain_of_settle r.values r.state loads
      (fun x h => ran x ⟨r, List.mem_append_right _ (List.mem_singleton_self r), h⟩) chain
    obtain ⟨loads', chain', le'⟩ := ih
      (fun x ⟨r', mem, h⟩ => ran x ⟨r', List.mem_append_left _ mem, h⟩) chain₁
    refine ⟨loads', chain', ?_⟩
    rw [List.length_append, List.length_singleton]
    -- before the first flush there may be loads that wait, and a pass need not go on with them
    rcases Nat.eq_zero_or_pos rounds.length with none | some
    · omega
    · have less := lt (earlier.answered h (List.ne_nil_of_length_pos some))
      omega

/-- There are at most as many rounds as loads in some chain. -/
theorem AfterRounds.length_le (after : e.AfterRounds values st rounds values' st')
    (h : e.Held flushes values st.coordinator) (some_round : rounds ≠ []) :
    ∃ loads, ItemsChain (SettleRound.Resumed rounds) values loads ∧
      rounds.length ≤ loads.length := by
  have all := after
  cases after with
  | start => exact absurd rfl some_round
  | round _ done =>
    obtain ⟨loads, chain, one⟩ := itemsChain_of_waits _ done.waits
    obtain ⟨loads', chain', le⟩ := all.chain h (fun _ => id) chain
    refine ⟨loads', chain', ?_⟩
    rw [List.length_append, List.length_singleton] at le ⊢
    omega

/-- The passes of the rounds and the one after them. -/
theorem AfterRounds.passes (after : e.AfterRounds values st rounds values' st') :
    passes values (SettleRound.states rounds st') = (settleItems values' st').1 := by
  have earlier : FieldValue.passes values (rounds.map SettleRound.state) = values' := by
    induction after with
    | start => rfl
    | round _ _ ih =>
      rw [List.map_append, passes_append, ih]
      rfl
  rw [SettleRound.states, passes_append, earlier]
  rfl

/-! ## What settling can be relied on for -/

/-- After some rounds, the pass over `values'` in `st'` leads to where settling stands, `r`. -/
structure Accounted (e : Engine σ) (flushes : List Flush) (values : List (FieldValue σ))
    (st : OperationState σ) (rounds : List (SettleRound σ)) (values' : List (FieldValue σ))
    (st' : OperationState σ) (r : Settling σ × OperationState σ) : Prop where
  after : e.AfterRounds values st rounds values' st'
  stands : e.Stands values' st' r
  /-- There are at most as many rounds as loads in a chain, each of which but the first is asked for by
  what the continuation of the one before returned in one of the passes. -/
  bounded : rounds ≠ [] → ∃ loads, ItemsChain (SettleRound.Resumed rounds) values loads ∧
    rounds.length ≤ loads.length
  /-- Each round hands keys to the loaders, and none that was handed over before. -/
  fresh : ∀ before (round : SettleRound σ) later, rounds = before ++ round :: later →
    (∃ n, handed n [round.flush] ≠ []) ∧
      ∀ n, ∀ key ∈ handed n [round.flush],
        key ∉ handed n (flushes ++ before.map SettleRound.flush)
  /-- The last pass leaves nothing deferred, and what is settled is what it left, item by item: no value
  is made an error, since without answers only values that wait for nothing have an outcome. -/
  settled : ∀ ws, r.1 = .settled ws →
    itemsSettled (settleItems values' st').1 = true ∧
      Outcomes (fun _ _ _ => False) (settleItems values' st').1 ws
  /-- If each continuation writes its place into a book when it is run, the passes come to the same. -/
  mirrored : ∃ left, ItemsMarks (markedPasses values (SettleRound.states rounds st')).1
    (settleItems values' st').1 left
  /-- No place is written twice. -/
  once : (markedPasses values (SettleRound.states rounds st')).2.Nodup

theorem Stands.settled_copies {r : Settling σ × OperationState σ} (stands : e.Stands values st r)
    {ws : List Settled} (settled : r.1 = .settled ws) :
    itemsSettled (settleItems values st).1 = true ∧
      Outcomes (fun _ _ _ => False) (settleItems values st).1 ws := by
  cases stands with
  | settled all =>
    cases settled
    exact ⟨all, outcomes_abandonItems _ _ all⟩
  | fetching => cases settled
  | stopped => cases settled

/-- Settling ends, and abandons nothing. -/
theorem settling_abandons_nothing {requests : List (Nat × LoadKey)}
    (registered : (e.loaders.map Prod.fst).Nodup)
    (used : e.Uses requests flushes st.coordinator)
    (asked : ∀ r ∈ loadsOfItems values, r ∈ requests) :
    e.SettlingEnds (e.settleRounds values st) ∧
      ∀ r, e.Settles values st r →
        ∃ rounds values' st', e.Accounted flushes values st rounds values' st' r := by
  have held : e.Held flushes values st.coordinator :=
    ⟨⟨requests, used⟩, fun r mem => used.knows (asked r mem)⟩
  refine ⟨settlingEnds_settleRounds values st, fun r reached => ?_⟩
  obtain ⟨rounds, values', st', after, stands⟩ := reached.stands held
  obtain ⟨mirrored, once⟩ := markedPasses_once values (SettleRound.states rounds st')
  rw [after.passes] at mirrored
  refine ⟨rounds, values', st', ?_⟩
  constructor
  case after => exact after
  case stands => exact stands
  case bounded => exact after.length_le held
  case fresh => exact fun before round later => after.fresh registered held
  case settled => exact fun ws => stands.settled_copies
  case mirrored => exact mirrored
  case once => exact once

end Engine

namespace Squares

/-- The square of 3 has been asked for. -/
def asking : OperationState Unit := ⟨0, engine.coordinator.load (0, .integer 3), .start default ()⟩

theorem settling_abandons_nothing_squares :
    engine.Uses [(0, .integer 3)] [] asking.coordinator ∧
      FieldValue.loadsOfItems [paired] = [(0, .integer 3)] ∧
      (engine.settleRounds [paired] asking).1 =
        .settled [.list [.value (.int 16), .value (.int 25)]] ∧
      engine.SettlingEnds (engine.settleRounds [paired] asking) ∧
      ∃ rounds values' st', engine.Accounted [] [paired] asking rounds values' st'
        (engine.settleRounds [paired] asking) := by
  have used : engine.Uses [(0, .integer 3)] [] asking.coordinator := Engine.Uses.new.load _
  have loads : FieldValue.loadsOfItems [paired] = [(0, .integer 3)] := by cbv
  have asked : ∀ r ∈ FieldValue.loadsOfItems [paired], r ∈ [(0, .integer 3)] :=
    fun r mem => loads ▸ mem
  obtain ⟨ends, accounted⟩ := Engine.settling_abandons_nothing (by decide) used asked
  exact ⟨used, loads, by cbv, ends, accounted _ .start⟩

end Squares

end GraphQLEngine
