import GraphQLEngine.Proofs.Loads.Chains
import GraphQLEngine.Proofs.Loads.Functional

/-!
# Coordinators at rest

Between two flushes a coordinator has answers for the keys that were asked for and are not queued, and
for no others.  So two coordinators of one engine that were asked for the same keys find the same
answers, however they cut their batches; and asked for the same once more, they still do.

    Engine.Rests e size c            batches of at most `size` keys, none of which is being fetched
    Engine.Match e size size' ordered c c'
-/

namespace GraphQLEngine

variable {σ : Type}

/-- The keys that batches hand to the loader `n`. -/
def Batch.keysOf (n : Nat) (batches : List Batch) : List LoadKey :=
  (batches.filter (·.loader = n)).flatMap Batch.keys

namespace Coordinator

variable {c c' : Coordinator} {size : Option Nat} {flying : List Batch}

/-! ## What a load does -/

/-- The answers that a loader has given. -/
def answered (c : Coordinator) (n : Nat) : List (LoadKey × Answer) :=
  ((c.loaders.lookup n).map LoaderState.answers).getD []

/-- A key is asked for that its loader was not asked for before. -/
def News (c : Coordinator) (r : Nat × LoadKey) (n : Nat) : Prop :=
  (c.loaders.lookup n).isSome ∧ n = r.1 ∧ r.2 ∉ c.known n

theorem isSome_load (c : Coordinator) (r : Nat × LoadKey) (n : Nat) :
    ((c.load r).loaders.lookup n).isSome = (c.loaders.lookup n).isSome := by
  rw [load, lookup_modify, Option.isSome_map]

theorem load_of_news {r : Nat × LoadKey} {n : Nat} (news : c.News r n) :
    (c.load r).known n = c.known n ++ [r.2] ∧ (c.load r).queued n = c.queued n ++ [r.2] := by
  obtain ⟨registered, rfl, fresh⟩ := news
  obtain ⟨l, found⟩ := Option.isSome_iff_exists.mp registered
  have new : r.2 ∉ l.known := by simpa [known, found] using fresh
  simp only [known, queued, load, lookup_modify, found, Option.map_some, Option.getD_some, if_true]
  rw [LoaderState.load, if_neg new]
  exact ⟨rfl, rfl⟩

theorem load_of_old {r : Nat × LoadKey} {n : Nat} (old : ¬ c.News r n) :
    (c.load r).known n = c.known n ∧ (c.load r).queued n = c.queued n := by
  simp only [known, queued, load, lookup_modify]
  cases found : c.loaders.lookup n with
  | none => exact ⟨rfl, rfl⟩
  | some l =>
    by_cases same : n = r.1
    · have asked : r.2 ∈ l.known := by
        by_contra new
        exact old ⟨by rw [found]; rfl, same, by simpa [known, found] using new⟩
      simp [same, LoaderState.load, asked]
    · simp [same]

theorem answered_load (c : Coordinator) (r : Nat × LoadKey) (n : Nat) :
    (c.load r).answered n = c.answered n := by
  have same (l : LoaderState) : (l.load r.2).answers = l.answers := by
    unfold LoaderState.load
    split <;> rfl
  simp only [answered, load, lookup_modify]
  cases c.loaders.lookup n with
  | none => rfl
  | some l => by_cases h : n = r.1 <;> simp [h, same]

theorem mem_known_load {n : Nat} {key : LoadKey} (r : Nat × LoadKey) (c : Coordinator) :
    key ∈ (c.load r).known n ↔
      key ∈ c.known n ∨ (c.loaders.lookup n).isSome ∧ (n, key) = r := by
  obtain ⟨m, asked⟩ := r
  by_cases news : c.News (m, asked) n
  · rw [(load_of_news news).1]
    obtain ⟨registered, rfl, -⟩ := news
    simp [registered]
  · rw [(load_of_old news).1]
    refine ⟨.inl, fun h => h.elim id fun ⟨registered, same⟩ => ?_⟩
    cases same
    by_contra fresh
    exact news ⟨registered, rfl, fresh⟩

theorem mem_known_loadAll {n : Nat} {key : LoadKey} (rs : List (Nat × LoadKey)) (c : Coordinator) :
    key ∈ (c.loadAll rs).known n ↔
      key ∈ c.known n ∨ (c.loaders.lookup n).isSome ∧ (n, key) ∈ rs := by
  induction rs generalizing c with
  | nil => simp [loadAll]
  | cons r rest ih =>
    rw [show c.loadAll (r :: rest) = (c.load r).loadAll rest from rfl, ih, mem_known_load,
      isSome_load, List.mem_cons]
    tauto

/-- What is queued after loads was queued before or is newly asked for. -/
theorem mem_queued_loadAll {n : Nat} {key : LoadKey} (orderly : c.Orderly)
    (rs : List (Nat × LoadKey)) :
    key ∈ (c.loadAll rs).queued n ↔
      key ∈ c.queued n ∨ key ∈ (c.loadAll rs).known n ∧ key ∉ c.known n := by
  obtain ⟨new, known, queued⟩ := asked_loadAll rs c n
  have once := (orderly.loadAll rs).known n
  rw [known] at once
  have apart := List.disjoint_of_nodup_append once
  rw [known, queued, List.mem_append, List.mem_append]
  constructor
  · rintro (old | new)
    · exact .inl old
    · exact .inr ⟨.inr new, fun old => apart old new⟩
  · rintro (old | ⟨old | new, fresh⟩)
    · exact .inl old
    · exact absurd old fresh
    · exact .inr new

theorem queued_takeBatches (c : Coordinator) (n : Nat) : c.takeBatches.2.queued n = [] := by
  rw [queued, lookup_takeBatches]
  cases c.loaders.lookup n <;> rfl

theorem answered_takeBatches (c : Coordinator) (n : Nat) :
    c.takeBatches.2.answered n = c.answered n := by
  rw [answered, answered, lookup_takeBatches]
  cases c.loaders.lookup n <;> rfl

theorem queued_finishAll (c : Coordinator) (calls : List FetchCall) (n : Nat) :
    (c.finishAll calls).queued n = c.queued n := by
  rw [queued, queued, lookup_finishAll]
  cases c.loaders.lookup n <;> rfl

theorem mem_answered_finishAll {calls : List FetchCall} {n : Nat} {key : LoadKey} {a : Answer}
    (mem : (key, a) ∈ (c.finishAll calls).answered n) :
    (key, a) ∈ c.answered n ∨ ∃ call ∈ calls, call.batch.loader = n ∧ key ∈ call.batch.keys := by
  rw [answered, lookup_finishAll] at mem
  rw [answered]
  cases found : c.loaders.lookup n with
  | none => rw [found] at mem; exact absurd mem List.not_mem_nil
  | some l =>
    rw [found] at mem
    rcases List.mem_append.mp mem with old | new
    · exact .inl old
    · obtain ⟨call, among, answer⟩ := List.mem_flatMap.mp new
      obtain ⟨among, same⟩ := List.mem_filter.mp among
      obtain ⟨key', carried, eq⟩ := List.mem_map.mp answer
      cases eq
      exact .inr ⟨call, among, of_decide_eq_true same, carried⟩

/-! ## Neat coordinators -/

/-- No key of a coordinator is at two places: a key that is queued has no answer and is in none of the
batches `flying`. -/
structure Neat (size : Option Nat) (flying : List Batch) (c : Coordinator) : Prop where
  batchSize : c.batchSize = size
  orderly : c.Orderly
  queued : ∀ n, c.queued n <:+ c.known n
  answered : ∀ {n key a}, (key, a) ∈ c.answered n → key ∈ c.known n ∧ key ∉ c.queued n
  flying : ∀ b ∈ flying, ∀ key ∈ b.keys, key ∈ c.known b.loader ∧ key ∉ c.queued b.loader

/-- A new coordinator was asked for nothing. -/
theorem coordinator_empty (e : Engine σ) (n : Nat) : e.coordinator.known n = [] ∧
    e.coordinator.queued n = [] ∧ e.coordinator.answered n = [] := by
  have states : e.coordinator.loaders.lookup n =
      (e.loaders.lookup n).map fun loader => .new loader.name :=
    lookup_map_snd (fun _ (loader : Loader σ) => LoaderState.new loader.name) e.loaders n
  rw [known, queued, answered, states]
  cases e.loaders.lookup n <;> exact ⟨rfl, rfl, rfl⟩

theorem Neat.coordinator {e : Engine σ} (registered : (e.loaders.map Prod.fst).Nodup) :
    Neat e.settings.maxBatchSize [] e.coordinator := by
  refine ⟨rfl, .coordinator registered, fun n => ?_, fun {n key a} mem => ?_,
    fun b mem => absurd mem List.not_mem_nil⟩
  · rw [(coordinator_empty e n).1, (coordinator_empty e n).2.1]
  · rw [(coordinator_empty e n).2.2] at mem
    exact absurd mem List.not_mem_nil

theorem Neat.load (h : c.Neat size []) (r : Nat × LoadKey) : (c.load r).Neat size [] := by
  refine ⟨h.batchSize, h.orderly.load r, fun n => ?_, fun {n key a} mem => ?_,
    fun b mem => absurd mem List.not_mem_nil⟩
  · by_cases news : c.News r n
    · rw [(load_of_news news).1, (load_of_news news).2]
      obtain ⟨before, split⟩ := h.queued n
      exact ⟨before, by rw [← List.append_assoc, split]⟩
    · rw [(load_of_old news).1, (load_of_old news).2]
      exact h.queued n
  · rw [answered_load] at mem
    obtain ⟨asked, taken⟩ := h.answered mem
    by_cases news : c.News r n
    · rw [(load_of_news news).1, (load_of_news news).2]
      refine ⟨List.mem_append_left _ asked, fun waits => ?_⟩
      rcases List.mem_append.mp waits with waits | waits
      · exact taken waits
      · exact news.2.2 (List.mem_singleton.mp waits ▸ asked)
    · rw [(load_of_old news).1, (load_of_old news).2]
      exact ⟨asked, taken⟩

theorem Neat.loadAll (h : c.Neat size []) (rs : List (Nat × LoadKey)) :
    (c.loadAll rs).Neat size [] := by
  induction rs generalizing c with
  | nil => exact h
  | cons r rest ih => exact ih (h.load r)

theorem Neat.takeBatches (h : c.Neat size []) : c.takeBatches.2.Neat size c.takeBatches.1 := by
  refine ⟨h.batchSize, h.orderly.takeBatches, fun n => ?_, fun {n key a} mem => ?_,
    fun b mem key carried => ?_⟩
  · rw [queued_takeBatches]
    exact List.nil_suffix
  · rw [answered_takeBatches] at mem
    rw [known_takeBatches, queued_takeBatches]
    exact ⟨(h.answered mem).1, List.not_mem_nil⟩
  · rw [known_takeBatches, queued_takeBatches]
    have taken : key ∈ c.queued b.loader := by
      rw [← h.orderly.keys_takeBatches]
      exact List.mem_flatMap.mpr ⟨b, List.mem_filter.mpr ⟨mem, decide_eq_true rfl⟩, carried⟩
    exact ⟨(h.queued _).subset taken, List.not_mem_nil⟩

theorem Neat.finishAll (h : c.Neat size flying) {calls : List FetchCall}
    (flew : ∀ call ∈ calls, call.batch ∈ flying) : (c.finishAll calls).Neat size flying := by
  refine ⟨(Engine.batchSize_finishAll c calls).trans h.batchSize, h.orderly.finishAll calls,
    fun n => ?_, fun {n key a} mem => ?_, fun b mem key carried => ?_⟩
  all_goals rw [queued_finishAll, known_finishAll]
  · exact h.queued n
  · rcases mem_answered_finishAll mem with old | ⟨call, among, rfl, carried⟩
    · exact h.answered old
    · exact h.flying _ (flew call among) key carried
  · exact h.flying b mem key carried

theorem Neat.fewer (h : c.Neat size flying) {flying' : List Batch}
    (fewer : ∀ b ∈ flying', b ∈ flying) : c.Neat size flying' :=
  { h with flying := fun b mem => h.flying b (fewer b mem) }

/-- A flush takes each queued key once, in as many batches as that takes. -/
theorem Neat.taken (h : c.Neat size flying) (n : Nat) :
    Batch.keysOf n c.takeBatches.1 = c.queued n ∧ (c.queued n).Nodup ∧
      (c.takeBatches.1.filter (·.loader = n)).length =
        LoaderState.batchCount size (c.queued n).length := by
  refine ⟨h.orderly.keys_takeBatches n, (h.queued n).sublist.nodup (h.orderly.known n), ?_⟩
  rw [Coordinator.queued]
  cases found : c.loaders.lookup n with
  | some l =>
    rw [filter_takeBatches h.orderly.numbers found, List.length_map, LoaderState.length_batches,
      h.batchSize]
    rfl
  | none =>
    have none : c.takeBatches.1.filter (·.loader = n) = [] := by
      refine List.filter_eq_nil_iff.mpr fun b mem same => ?_
      have := lookup_of_mem_takeBatches mem
      rw [of_decide_eq_true same, found] at this
      cases this
    rw [none]
    cases size <;> simp [LoaderState.batchCount]

/-! ## The same keys -/

/-- The same keys were asked for and are queued; in the same order, if the requests were `ordered`
alike. -/
structure Alike (ordered : Prop) (c c' : Coordinator) : Prop where
  known : ∀ n key, key ∈ c'.known n ↔ key ∈ c.known n
  queued : ∀ n key, key ∈ c'.queued n ↔ key ∈ c.queued n
  order : ordered → ∀ n, c'.known n = c.known n ∧ c'.queued n = c.queued n

/-- Loads of the same keys, in the same order, come to the same. -/
theorem order_loadAll (rs : List (Nat × LoadKey)) {c c' : Coordinator}
    (registered : ∀ n, (c'.loaders.lookup n).isSome = (c.loaders.lookup n).isSome)
    (order : ∀ n, c'.known n = c.known n ∧ c'.queued n = c.queued n) (n : Nat) :
    (c'.loadAll rs).known n = (c.loadAll rs).known n ∧
      (c'.loadAll rs).queued n = (c.loadAll rs).queued n := by
  induction rs generalizing c c' with
  | nil => exact order n
  | cons r rest ih =>
    refine ih (c := c.load r) (fun n => ?_) fun n => ?_
    · rw [isSome_load, isSome_load, registered]
    · obtain ⟨known, queued⟩ := order n
      have same : c'.News r n ↔ c.News r n := by rw [News, News, registered, known]
      by_cases news : c.News r n
      · rw [(load_of_news news).1, (load_of_news news).2, (load_of_news (same.mpr news)).1,
          (load_of_news (same.mpr news)).2, known, queued]
        exact ⟨rfl, rfl⟩
      · have old := same.not.mpr news
        rw [(load_of_old news).1, (load_of_old news).2, (load_of_old old).1, (load_of_old old).2]
        exact ⟨known, queued⟩

end Coordinator

/-! ## At rest -/

/-- A coordinator of an engine, none of whose batches is being fetched. -/
structure Engine.Rests (e : Engine σ) (size : Option Nat) (c : Coordinator) : Prop where
  tracked : Tracked e e.MayAnswer [] c
  neat : c.Neat size []

/-- Two coordinators of an engine that were asked for the same keys. -/
structure Engine.Match (e : Engine σ) (size size' : Option Nat) (ordered : Prop)
    (c c' : Coordinator) : Prop where
  rests : e.Rests size c
  rests' : e.Rests size' c'
  alike : c.Alike ordered c'

/-- The same keys in two flushes, cut into batches of at most `size` and `size'` keys. -/
structure Batch.Recut (ordered : Prop) (size size' : Option Nat) (flush flush' : List Batch) :
    Prop where
  keys : ∀ n, (Batch.keysOf n flush').Perm (Batch.keysOf n flush)
  order : ordered → ∀ n, Batch.keysOf n flush' = Batch.keysOf n flush
  calls : ∀ n, (flush.filter (·.loader = n)).length =
    LoaderState.batchCount size (Batch.keysOf n flush).length
  calls' : ∀ n, (flush'.filter (·.loader = n)).length =
    LoaderState.batchCount size' (Batch.keysOf n flush').length

namespace Engine

variable {e : Engine σ} {size size' : Option Nat} {ordered : Prop} {c c' : Coordinator}

theorem Rests.loadAll (h : e.Rests size c) (rs : List (Nat × LoadKey)) :
    e.Rests size (c.loadAll rs) :=
  ⟨h.tracked.loadAll rs, h.neat.loadAll rs⟩

/-- The keys without an answer are those that are queued or were not asked for. -/
theorem Rests.unanswered (h : e.Rests size c) {n : Nat} {key : LoadKey} :
    c.answer? n key = none ↔
      (c.loaders.lookup n).isSome ∧ (key ∈ c.known n → key ∈ c.queued n) := by
  have answered : ∀ a, (key, a) ∈ c.answered n → key ∈ c.known n ∧ key ∉ c.queued n :=
    fun _ => h.neat.answered
  rw [Coordinator.known, Coordinator.queued, Coordinator.answered] at answered
  rw [Coordinator.answer?, Coordinator.known, Coordinator.queued]
  cases found : c.loaders.lookup n with
  | none => simp
  | some l =>
    rw [found] at answered
    simp only [Option.map_some, Option.getD_some, Option.isSome_some, true_and] at answered ⊢
    constructor
    · intro none asked
      rcases h.tracked.known found asked with queued | ⟨a, mem⟩ | ⟨b, mem, -⟩
      · exact queued
      · exact absurd (List.lookup_eq_none_iff.mp none _ mem) (by simp)
      · exact absurd mem List.not_mem_nil
    · intro waits
      cases answer : l.answers.lookup key with
      | none => rfl
      | some a =>
        obtain ⟨asked, fresh⟩ := answered a (mem_of_lookup answer)
        exact absurd (waits asked) fresh

/-- A key has one answer. -/
theorem Functional.unique (functional : e.Functional) {n : Nat} {key : LoadKey} {a a' : Answer}
    (h : e.MayAnswer n key a) (h' : e.MayAnswer n key a') : a' = a := by
  cases h with
  | fetched store found mem =>
    cases h' with
    | fetched store' found' mem' =>
      cases found.symm.trans found'
      exact functional.loaders found _ store store' mem mem'
    | missing _ none => cases found.symm.trans none
  | missing _ none =>
    cases h' with
    | fetched _ found _ => cases none.symm.trans found
    | missing => rfl

namespace Match

theorem imp {ordered' : Prop} (h : e.Match size size' ordered c c') (weaker : ordered' → ordered) :
    e.Match size size' ordered' c c' :=
  ⟨h.rests, h.rests', h.alike.known, h.alike.queued, fun o => h.alike.order (weaker o)⟩

theorem registered (h : e.Match size size' ordered c c') (n : Nat) :
    (c'.loaders.lookup n).isSome = (c.loaders.lookup n).isSome :=
  (h.rests'.tracked.lookup_isSome n).trans (h.rests.tracked.lookup_isSome n).symm

theorem answer? (h : e.Match size size' ordered c c') (functional : e.Functional) (n : Nat)
    (key : LoadKey) : c'.answer? n key = c.answer? n key := by
  have open_ : c'.answer? n key = none ↔ c.answer? n key = none := by
    rw [h.rests.unanswered, h.rests'.unanswered, h.registered, h.alike.known, h.alike.queued]
  cases answer : c.answer? n key with
  | none => exact open_.mpr answer
  | some a =>
    obtain ⟨a', answer'⟩ := Option.ne_none_iff_exists'.mp (open_.not.mpr (by rw [answer]; simp))
    have by_e := e.answersBy_mayAnswer
    rw [answer', functional.unique (h.rests.tracked.answer by_e answer)
      (h.rests'.tracked.answer by_e answer')]

/-- Both are asked for the same keys once more. -/
theorem loadAll (h : e.Match size size' ordered c c') {rs rs' : List (Nat × LoadKey)}
    (mem : ∀ r, r ∈ rs' ↔ r ∈ rs) (order : ordered → rs' = rs) :
    e.Match size size' ordered (c.loadAll rs) (c'.loadAll rs') := by
  have known (n : Nat) (key : LoadKey) :
      key ∈ (c'.loadAll rs').known n ↔ key ∈ (c.loadAll rs).known n := by
    rw [Coordinator.mem_known_loadAll, Coordinator.mem_known_loadAll, h.registered, h.alike.known,
      mem]
  refine ⟨h.rests.loadAll rs, h.rests'.loadAll rs', known, fun n key => ?_, fun o => ?_⟩
  · rw [Coordinator.mem_queued_loadAll h.rests.neat.orderly,
      Coordinator.mem_queued_loadAll h.rests'.neat.orderly, known, h.alike.queued, h.alike.known]
  · rw [order o]
    exact Coordinator.order_loadAll rs h.registered (h.alike.order o)

/-- Operations whose coordinators match find the same answers, and go on so. -/
theorem couples (functional : e.Functional) (size size' : Option Nat) (ordered : Prop) :
    OperationState.Couples fun st st' : OperationState σ =>
      e.Match size size' ordered st.coordinator st'.coordinator where
  answer h n key := h.answer? functional n key
  absorb h v s s' same := h.loadAll (fun r => by rw [same]) fun _ => by rw [same]

/-- Flushes of both hand over the same keys. -/
theorem recut (h : e.Match size size' ordered c c') :
    Batch.Recut ordered size size' c.takeBatches.1 c'.takeBatches.1 := by
  constructor
  case keys =>
    intro n
    obtain ⟨keys, nodup, -⟩ := h.rests.neat.taken n
    obtain ⟨keys', nodup', -⟩ := h.rests'.neat.taken n
    rw [keys, keys', List.perm_ext_iff_of_nodup nodup' nodup]
    exact h.alike.queued n
  case order =>
    intro o n
    rw [(h.rests.neat.taken n).1, (h.rests'.neat.taken n).1, (h.alike.order o n).2]
  case calls =>
    intro n
    rw [(h.rests.neat.taken n).1, (h.rests.neat.taken n).2.2]
  case calls' =>
    intro n
    rw [(h.rests'.neat.taken n).1, (h.rests'.neat.taken n).2.2]

/-- After the flushes both have been asked for the same, and nothing is queued. -/
theorem flushed (h : e.Match size size' ordered c c') {d d' : Coordinator} (rests : e.Rests size d)
    (rests' : e.Rests size' d') (known : ∀ n, d.known n = c.known n)
    (known' : ∀ n, d'.known n = c'.known n) (idle : ∀ n, d.queued n = [])
    (idle' : ∀ n, d'.queued n = []) : e.Match size size' ordered d d' := by
  refine ⟨rests, rests', fun n key => ?_, fun n key => ?_, fun o n => ?_⟩
  · rw [known, known', h.alike.known]
  · rw [idle, idle']
  · rw [known, known', idle, idle', (h.alike.order o n).1]
    exact ⟨rfl, rfl⟩

end Match

end Engine

end GraphQLEngine
