import GraphQLEngine.Execution.Wave
import GraphQLEngine.Proofs.Lists

/-!
# What a coordinator keeps track of

Every key that was asked for is queued, in a batch that is being fetched, or answered; and every
answer is one that the loader of its number gives.  Loading, taking batches and finishing a fetch
keep this.

    Tracked e A []                      nothing is being fetched
    Tracked e A (b :: flying)  →  Tracked e A flying      when the fetch of `b` is finished
-/

namespace GraphQLEngine

/-- Which answers the loader of a number may give for a key. -/
abbrev Answers := Nat → LoadKey → Answer → Prop

/-- The answers that the loaders of an engine give, and the one for a number without a loader. -/
structure Engine.AnswersBy {σ : Type} (e : Engine σ) (A : Answers) : Prop where
  fetched : ∀ {n : Nat} {loader : Loader σ} {keys : List LoadKey} {key : LoadKey} (store : σ),
    e.loaders.lookup n = some loader → key ∈ keys →
      A n key (LoaderState.answerOf loader.name key (loader.fetch keys store).1)
  missing : ∀ {n : Nat} (key : LoadKey), e.loaders.lookup n = none →
    A n key (.error (.internal ("Loader " ++ toString n ++ " is not registered")))

/-- The answers that the loaders of an engine may give, in some batch and for some store. -/
inductive Engine.MayAnswer {σ : Type} (e : Engine σ) : Answers
  | fetched {n : Nat} {loader : Loader σ} {keys : List LoadKey} {key : LoadKey} (store : σ) :
    e.loaders.lookup n = some loader → key ∈ keys →
      Engine.MayAnswer e n key (LoaderState.answerOf loader.name key (loader.fetch keys store).1)
  | missing {n : Nat} (key : LoadKey) : e.loaders.lookup n = none →
    Engine.MayAnswer e n key
      (.error (.internal ("Loader " ++ toString n ++ " is not registered")))

theorem Engine.answersBy_mayAnswer {σ : Type} (e : Engine σ) : e.AnswersBy e.MayAnswer :=
  ⟨fun store found mem => .fetched store found mem, fun key none => .missing key none⟩

/-! ## Pieces of a list -/

namespace LoaderState

theorem flatten_chunks {α : Type} (size : Nat) (xs : List α) :
    (chunks size xs).flatten = xs := by
  fun_induction chunks size xs with
  | case1 => rfl
  | case2 x xs ih =>
    obtain ⟨k, hk⟩ : ∃ k, max 1 size = k + 1 := ⟨max 1 size - 1, by omega⟩
    rw [List.flatten_cons, ih, hk, List.take_succ_cons, Nat.add_sub_cancel, List.cons_append,
      List.take_append_drop]

end LoaderState

namespace Coordinator

theorem lookup_modify (c : Coordinator) (number n : Nat) (f : LoaderState → LoaderState) :
    (c.modify number f).loaders.lookup n =
      (c.loaders.lookup n).map fun l => if n = number then f l else l :=
  lookup_map_snd (fun m l => if m = number then f l else l) c.loaders n

theorem lookup_takeBatches (c : Coordinator) (n : Nat) :
    c.takeBatches.2.loaders.lookup n = (c.loaders.lookup n).map (·.taken c.batchSize) :=
  lookup_map_snd (fun _ (l : LoaderState) => l.taken c.batchSize) c.loaders n

/-- A key that is queued is in one of the batches that are taken. -/
theorem mem_takeBatches {c : Coordinator} {n : Nat} {l : LoaderState} {key : LoadKey}
    (hl : c.loaders.lookup n = some l) (queued : key ∈ l.queued) :
    ∃ b ∈ c.takeBatches.1, b.loader = n ∧ key ∈ b.keys := by
  rw [← LoaderState.flatten_chunks (c.batchSize.getD l.queued.length) l.queued] at queued
  obtain ⟨keys, hkeys, mem⟩ := List.mem_flatten.mp queued
  obtain ⟨l₁, l₂, hsplit, -⟩ := List.lookup_eq_some_iff.mp hl
  have entry : (n, l) ∈ c.loaders := by rw [hsplit]; simp
  exact ⟨⟨n, l.name, keys⟩, List.mem_flatMap.mpr ⟨_, entry, List.mem_map_of_mem hkeys⟩, rfl, mem⟩

/-- The loader of a batch that is taken has a state. -/
theorem lookup_of_mem_takeBatches {c : Coordinator} {b : Batch} (h : b ∈ c.takeBatches.1) :
    (c.loaders.lookup b.loader).isSome := by
  obtain ⟨⟨n, l⟩, entry, mem⟩ := List.mem_flatMap.mp h
  obtain ⟨keys, -, rfl⟩ := List.mem_map.mp mem
  rw [List.lookup_isSome_iff]
  exact ⟨(n, l), entry, by simp⟩

theorem queued_eq_nil {c : Coordinator} {n : Nat} {l : LoaderState} (h : c.hasQueued = false)
    (hl : c.loaders.lookup n = some l) : l.queued = [] := by
  obtain ⟨l₁, l₂, hsplit, -⟩ := List.lookup_eq_some_iff.mp hl
  simp only [hasQueued, List.any_eq_false] at h
  have := h (n, l) (by rw [hsplit]; simp)
  simpa using this

/-! ## Known keys -/

/-- A load was asked for, if its loader has a state. -/
def Knows (c : Coordinator) (r : Nat × LoadKey) : Prop :=
  ∀ l, c.loaders.lookup r.1 = some l → r.2 ∈ l.known

theorem answer?_load (c : Coordinator) (r : Nat × LoadKey) (n : Nat) (key : LoadKey) :
    (c.load r).answer? n key = c.answer? n key := by
  unfold answer? load
  rw [lookup_modify]
  cases c.loaders.lookup n with
  | none => rfl
  | some l =>
    by_cases h : n = r.1
    · by_cases known : r.2 ∈ l.known <;> simp [h, LoaderState.load, known]
    · simp [h]

theorem knows_load_self (c : Coordinator) (r : Nat × LoadKey) : (c.load r).Knows r := by
  intro l hl
  rw [load, lookup_modify] at hl
  obtain ⟨l₀, -, rfl⟩ := Option.map_eq_some_iff.mp hl
  by_cases known : r.2 ∈ l₀.known <;> simp [LoaderState.load, known]

theorem Knows.load {c : Coordinator} {q : Nat × LoadKey} (h : c.Knows q) (r : Nat × LoadKey) :
    (c.load r).Knows q := by
  intro l hl
  rw [Coordinator.load, lookup_modify] at hl
  obtain ⟨l₀, hl₀, rfl⟩ := Option.map_eq_some_iff.mp hl
  have mem := h l₀ hl₀
  by_cases hq : q.1 = r.1
  · by_cases known : r.2 ∈ l₀.known <;> simp [hq, LoaderState.load, known, mem]
  · simpa [hq] using mem

theorem answer?_loadAll (rs : List (Nat × LoadKey)) (c : Coordinator) (n : Nat) (key : LoadKey) :
    (c.loadAll rs).answer? n key = c.answer? n key := by
  induction rs generalizing c with
  | nil => rfl
  | cons r rest ih => exact (ih (c.load r)).trans (answer?_load c r n key)

theorem Knows.loadAll {c : Coordinator} {q : Nat × LoadKey} (h : c.Knows q)
    (rs : List (Nat × LoadKey)) : (c.loadAll rs).Knows q := by
  induction rs generalizing c with
  | nil => exact h
  | cons r rest ih => exact ih (h.load r)

theorem knows_loadAll {rs : List (Nat × LoadKey)} {q : Nat × LoadKey} (mem : q ∈ rs)
    (c : Coordinator) : (c.loadAll rs).Knows q := by
  induction rs generalizing c with
  | nil => cases mem
  | cons r rest ih =>
    rcases List.mem_cons.mp mem with rfl | mem
    · exact (knows_load_self c q).loadAll rest
    · exact ih mem (c.load r)

theorem Knows.takeBatches {c : Coordinator} {q : Nat × LoadKey} (h : c.Knows q) :
    c.takeBatches.2.Knows q := by
  intro l hl
  rw [lookup_takeBatches] at hl
  obtain ⟨l₀, hl₀, rfl⟩ := Option.map_eq_some_iff.mp hl
  exact h l₀ hl₀

theorem Knows.finish {c : Coordinator} {q : Nat × LoadKey} (h : c.Knows q) (b : Batch)
    (returned : Fetched) : (c.finish b returned).Knows q := by
  intro l hl
  rw [Coordinator.finish, lookup_modify] at hl
  obtain ⟨l₀, hl₀, rfl⟩ := Option.map_eq_some_iff.mp hl
  have mem := h l₀ hl₀
  split <;> exact mem

end Coordinator

/-! ## Tracking -/

/-- A coordinator of an engine, whose batches `flying` are being fetched. -/
structure Tracked {σ : Type} (e : Engine σ) (A : Answers) (flying : List Batch)
    (c : Coordinator) : Prop where
  names : ∀ n, (c.loaders.lookup n).map LoaderState.name = (e.loaders.lookup n).map Loader.name
  answers : ∀ {n l key a}, c.loaders.lookup n = some l → (key, a) ∈ l.answers → A n key a
  known : ∀ {n l key}, c.loaders.lookup n = some l → key ∈ l.known →
    key ∈ l.queued ∨ (∃ a, (key, a) ∈ l.answers) ∨ ∃ b ∈ flying, b.loader = n ∧ key ∈ b.keys
  registered : ∀ {b}, b ∈ flying → (e.loaders.lookup b.loader).isSome

namespace Tracked

variable {σ : Type} {e : Engine σ} {A : Answers} {flying : List Batch} {c : Coordinator}

theorem lookup_isSome (T : Tracked e A flying c) (n : Nat) :
    (c.loaders.lookup n).isSome = (e.loaders.lookup n).isSome := by
  have := congrArg Option.isSome (T.names n)
  simpa only [Option.isSome_map] using this

/-- The coordinator of a new operation. -/
theorem coordinator (e : Engine σ) (A : Answers) : Tracked e A [] e.coordinator := by
  have states : ∀ n, e.coordinator.loaders.lookup n =
      (e.loaders.lookup n).map fun loader => .new loader.name :=
    fun n => lookup_map_snd (fun _ (loader : Loader σ) => LoaderState.new loader.name) e.loaders n
  constructor
  case names =>
    intro n
    rw [states n]
    cases e.loaders.lookup n <;> rfl
  case answers =>
    intro n l key a hl mem
    rw [states n] at hl
    obtain ⟨loader, -, rfl⟩ := Option.map_eq_some_iff.mp hl
    cases mem
  case known =>
    intro n l key hl mem
    rw [states n] at hl
    obtain ⟨loader, -, rfl⟩ := Option.map_eq_some_iff.mp hl
    cases mem
  case registered => exact fun h => nomatch h

theorem load (T : Tracked e A flying c) (r : Nat × LoadKey) : Tracked e A flying (c.load r) := by
  have states : ∀ {n l'}, (c.load r).loaders.lookup n = some l' →
      ∃ l, c.loaders.lookup n = some l ∧ (l' = l ∨ l' = l.load r.2) := by
    intro n l' hl
    rw [Coordinator.load, Coordinator.lookup_modify] at hl
    obtain ⟨l, hl₀, rfl⟩ := Option.map_eq_some_iff.mp hl
    refine ⟨l, hl₀, ?_⟩
    split
    · exact .inr rfl
    · exact .inl rfl
  have same_name : ∀ l : LoaderState, (l.load r.2).name = l.name := by
    intro l; unfold LoaderState.load; split <;> rfl
  have same_answers : ∀ l : LoaderState, (l.load r.2).answers = l.answers := by
    intro l; unfold LoaderState.load; split <;> rfl
  constructor
  case names =>
    intro n
    rw [← T.names n, Coordinator.load, Coordinator.lookup_modify]
    cases c.loaders.lookup n with
    | none => rfl
    | some l => by_cases h : n = r.1 <;> simp [h, same_name]
  case answers =>
    intro n l' key a hl' mem
    obtain ⟨l, hl, rfl | rfl⟩ := states hl'
    · exact T.answers hl mem
    · rw [same_answers] at mem
      exact T.answers hl mem
  case known =>
    intro n l' key hl' mem
    obtain ⟨l, hl, rfl | rfl⟩ := states hl'
    · exact T.known hl mem
    · rw [same_answers]
      by_cases old : r.2 ∈ l.known
      · rw [LoaderState.load, if_pos old] at mem ⊢
        exact T.known hl mem
      · rw [LoaderState.load, if_neg old] at mem ⊢
        rcases List.mem_append.mp mem with mem | mem
        · rcases T.known hl mem with queued | rest
          · exact .inl (List.mem_append_left _ queued)
          · exact .inr rest
        · exact .inl (List.mem_append_right _ mem)
  case registered => exact T.registered

theorem loadAll (T : Tracked e A flying c) (rs : List (Nat × LoadKey)) :
    Tracked e A flying (c.loadAll rs) := by
  induction rs generalizing c with
  | nil => exact T
  | cons r rest ih => exact ih (T.load r)

/-- The batches that are taken are being fetched. -/
theorem takeBatches (T : Tracked e A [] c) : Tracked e A c.takeBatches.1 c.takeBatches.2 := by
  constructor
  case names =>
    intro n
    rw [← T.names n, Coordinator.lookup_takeBatches]
    cases c.loaders.lookup n <;> rfl
  case answers =>
    intro n l key a hl mem
    rw [Coordinator.lookup_takeBatches] at hl
    obtain ⟨l₀, hl₀, rfl⟩ := Option.map_eq_some_iff.mp hl
    exact T.answers hl₀ mem
  case known =>
    intro n l key hl mem
    rw [Coordinator.lookup_takeBatches] at hl
    obtain ⟨l₀, hl₀, rfl⟩ := Option.map_eq_some_iff.mp hl
    rcases T.known hl₀ mem with queued | answered | ⟨b, hb, -⟩
    · exact .inr (.inr (Coordinator.mem_takeBatches hl₀ queued))
    · exact .inr (.inl answered)
    · cases hb
  case registered =>
    intro b hb
    rw [← T.lookup_isSome]
    exact Coordinator.lookup_of_mem_takeBatches hb

/-- The keys of a batch whose fetch is finished are answered. -/
theorem finish {before after : List Batch} {b : Batch} {loader : Loader σ}
    (T : Tracked e A (before ++ b :: after) c) (by_e : e.AnswersBy A)
    (hloader : e.loaders.lookup b.loader = some loader) (store : σ) :
    Tracked e A (before ++ after) (c.finish b (loader.fetch b.keys store).1) := by
  have states : ∀ {n l'},
      (c.finish b (loader.fetch b.keys store).1).loaders.lookup n = some l' →
      ∃ l, c.loaders.lookup n = some l ∧
        (n ≠ b.loader ∧ l' = l ∨
          n = b.loader ∧ l' = l.finish b.keys (loader.fetch b.keys store).1) := by
    intro n l' hl
    rw [Coordinator.finish, Coordinator.lookup_modify] at hl
    obtain ⟨l, hl₀, rfl⟩ := Option.map_eq_some_iff.mp hl
    by_cases h : n = b.loader
    · exact ⟨l, hl₀, .inr ⟨h, if_pos h⟩⟩
    · exact ⟨l, hl₀, .inl ⟨h, if_neg h⟩⟩
  constructor
  case names =>
    intro n
    rw [← T.names n, Coordinator.finish, Coordinator.lookup_modify]
    cases c.loaders.lookup n with
    | none => rfl
    | some l => by_cases h : n = b.loader <;> simp [h, LoaderState.finish]
  case answers =>
    intro n l' key a hl' mem
    obtain ⟨l, hl, ⟨-, rfl⟩ | ⟨rfl, rfl⟩⟩ := states hl'
    · exact T.answers hl mem
    · rcases List.mem_append.mp mem with mem | mem
      · exact T.answers hl mem
      · obtain ⟨key, hkey, eq⟩ := List.mem_map.mp mem
        cases eq
        have name := T.names b.loader
        rw [hl, hloader, Option.map_some, Option.map_some, Option.some.injEq] at name
        rw [name]
        exact by_e.fetched store hloader hkey
  case known =>
    intro n l' key hl' mem
    obtain ⟨l, hl, ⟨ne, rfl⟩ | ⟨rfl, rfl⟩⟩ := states hl'
    · rcases T.known hl mem with queued | answered | ⟨b', hb', rfl, hkey⟩
      · exact .inl queued
      · exact .inr (.inl answered)
      · refine .inr (.inr ⟨b', ?_, rfl, hkey⟩)
        have : b' ≠ b := fun same => ne (same ▸ rfl)
        simpa [this] using hb'
    · rcases T.known hl mem with queued | ⟨a, answered⟩ | ⟨b', hb', same, hkey⟩
      · exact .inl queued
      · exact .inr (.inl ⟨a, List.mem_append_left _ answered⟩)
      · by_cases hb : b' = b
        · subst hb
          exact .inr (.inl ⟨_, List.mem_append_right _ (List.mem_map_of_mem hkey)⟩)
        · refine .inr (.inr ⟨b', ?_, same, hkey⟩)
          simpa [hb] using hb'
  case registered =>
    intro b' hb'
    apply T.registered
    rcases List.mem_append.mp hb' with h | h
    · exact List.mem_append_left _ h
    · exact List.mem_append_right _ (List.mem_cons_of_mem _ h)

/-- An answer is one of the engine's. -/
theorem answer (T : Tracked e A flying c) (by_e : e.AnswersBy A) {n : Nat} {key : LoadKey}
    {a : Answer} (h : c.answer? n key = some a) : A n key a := by
  unfold Coordinator.answer? at h
  cases hl : c.loaders.lookup n with
  | none =>
    rw [hl] at h
    rw [← Option.some.inj h]
    apply by_e.missing
    have := T.lookup_isSome n
    rw [hl] at this
    simpa using this.symm
  | some l =>
    rw [hl] at h
    obtain ⟨l₁, l₂, hsplit, -⟩ := List.lookup_eq_some_iff.mp h
    exact T.answers hl (by rw [hsplit]; simp)

/-- With nothing queued and nothing being fetched, every load that was asked for is answered. -/
theorem answered (T : Tracked e A [] c) (idle : c.hasQueued = false) {r : Nat × LoadKey}
    (knows : c.Knows r) : c.answer? r.1 r.2 ≠ none := by
  intro open_
  unfold Coordinator.answer? at open_
  cases hl : c.loaders.lookup r.1 with
  | none => simp [hl] at open_
  | some l =>
    simp only [hl, List.lookup_eq_none_iff] at open_
    rcases T.known hl (knows l hl) with queued | ⟨a, mem⟩ | ⟨b, hb, -⟩
    · rw [Coordinator.queued_eq_nil idle hl] at queued
      cases queued
    · exact absurd (open_ _ mem) (by simp)
    · cases hb

end Tracked

/-! ## Polling fetches -/

/-- The batches whose fetch is not finished. -/
def inFlight (batches : List (Batch × Progress Unit)) : List Batch :=
  (batches.filter fun b => match b.2 with | .finished _ => false | _ => true).map Prod.fst

namespace Engine

variable {σ : Type} {e : Engine σ} {A : Answers}

theorem tracked_runBatch {before after : List Batch} {b : Batch} {st : OperationState σ}
    (by_e : e.AnswersBy A) (T : Tracked e A (before ++ b :: after) st.coordinator) :
    Tracked e A (before ++ after) (e.runBatch b st).coordinator := by
  have registered := T.registered (b := b) (by simp)
  unfold runBatch
  split
  · next none => rw [none] at registered; cases registered
  · next loader hloader => exact T.finish by_e hloader st.world.store

theorem tracked_pollBatches (before : List Batch) (by_e : e.AnswersBy A)
    (bs : List (Batch × Progress Unit)) {st : OperationState σ}
    (T : Tracked e A (before ++ inFlight bs) st.coordinator) :
    Tracked e A (before ++ inFlight (e.pollBatches bs st).1)
      (e.pollBatches bs st).2.coordinator := by
  induction bs generalizing before st with
  | nil => exact T
  | cons bp rest ih =>
    obtain ⟨b, p⟩ := bp
    -- the head is still in flight afterwards, or its keys are answered
    have waits : ∀ {deadline : Nat} {st' : OperationState σ},
        st'.coordinator = st.coordinator → inFlight ((b, p) :: rest) = b :: inFlight rest →
        Tracked e A (before ++ inFlight ((b, .waiting deadline) :: (e.pollBatches rest st').1))
          (e.pollBatches rest st').2.coordinator := by
      intro deadline st' same flying
      rw [flying, ← same] at T
      have := ih (before ++ [b]) (by simpa using T)
      simpa [inFlight] using this
    have done : ∀ {st' : OperationState σ},
        st'.coordinator = st.coordinator → inFlight ((b, p) :: rest) = b :: inFlight rest →
        Tracked e A (before ++ inFlight ((b, .finished ()) :: (e.pollBatches rest
          (e.runBatch b st')).1)) (e.pollBatches rest (e.runBatch b st')).2.coordinator := by
      intro st' same flying
      rw [flying, ← same] at T
      have := ih before (tracked_runBatch by_e T)
      simpa [inFlight] using this
    rw [pollBatches]
    simp only
    cases p with
    | finished =>
      have := ih before (by simpa [inFlight] using T)
      simpa [inFlight, pollBatch] using this
    | waiting deadline =>
      by_cases due : deadline ≤ st.world.clock
      · simp only [pollBatch, due, if_true]
        exact done rfl (by simp [inFlight])
      · simp only [pollBatch, due, if_false]
        exact waits rfl (by simp [inFlight])
    | idle =>
      simp only [pollBatch]
      split
      · exact done rfl (by simp [inFlight])
      · exact waits rfl (by simp [inFlight])

theorem inFlight_of_results {bs : List (Batch × Progress Unit)}
    (h : (Progress.results? bs).isSome) : inFlight bs = [] := by
  induction bs with
  | nil => rfl
  | cons bp rest ih =>
    obtain ⟨b, p⟩ := bp
    cases p with
    | finished =>
      simp only [Progress.results?, Option.isSome_map] at h
      simpa [inFlight] using ih h
    | _ => simp [Progress.results?] at h

theorem inFlight_idle (bs : List Batch) : inFlight (bs.map (·, .idle)) = bs := by
  induction bs with
  | nil => rfl
  | cons b rest ih => simpa [inFlight] using ih

end Engine

end GraphQLEngine
