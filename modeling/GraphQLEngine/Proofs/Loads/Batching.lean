import GraphQLEngine.Proofs.Loads.Coordinator
import Mathlib

/-!
# One coordinator

A coordinator is used by loads and flushes in any order.  A key is handed to its loader at most once,
in the flush after the first load that asks for it; what the call that carries it returns is the
answer to every load of the key, from then on.

    Engine.Uses e requests flushes c      what was asked for, and the flushes, in their order
    handed n flushes ++ c.queued n        the keys asked for of loader `n`, each once

Between the polls of a flush the world may change at will, so its fetches return in any order.
-/

namespace GraphQLEngine

variable {σ : Type}

/-! ## Pieces of a list -/

namespace LoaderState

theorem length_chunks {α : Type} (size : Nat) (xs : List α) :
    (chunks size xs).length = xs.length ⌈/⌉ max 1 size := by
  have pos : 0 < max 1 size := by omega
  fun_induction chunks size xs with
  | case1 => simp
  | case2 x xs ih =>
    rw [List.length_cons, ih, List.length_drop, List.length_cons, Nat.ceilDiv_eq_add_pred_div,
      Nat.ceilDiv_eq_add_pred_div]
    generalize max 1 size = k at pos
    rcases Nat.lt_or_ge xs.length k with short | long
    · rw [Nat.div_eq_of_lt (by omega), show xs.length + 1 + k - 1 = xs.length + k by omega,
        Nat.add_div_right _ pos, Nat.div_eq_of_lt short]
    · rw [show xs.length + 1 + k - 1 = (xs.length - (k - 1) + k - 1) + k by omega,
        Nat.add_div_right _ pos]

theorem ne_nil_of_mem_chunks {α : Type} {size : Nat} {xs piece : List α}
    (mem : piece ∈ chunks size xs) : piece ≠ [] := by
  fun_induction chunks size xs with
  | case1 => cases mem
  | case2 x xs ih =>
    rcases List.mem_cons.mp mem with rfl | mem
    · simp
    · exact ih mem

theorem length_le_of_mem_chunks {α : Type} {size : Nat} {xs piece : List α}
    (mem : piece ∈ chunks size xs) : piece.length ≤ max 1 size := by
  fun_induction chunks size xs with
  | case1 => cases mem
  | case2 x xs ih =>
    rcases List.mem_cons.mp mem with rfl | mem
    · exact List.length_take_le _ _
    · exact ih mem

/-- How many batches a number of queued keys makes; without a size all keys go into one. -/
def batchCount (size : Option Nat) (queued : Nat) : Nat :=
  match size with
  | none => min 1 queued
  | some size => queued ⌈/⌉ max 1 size

theorem length_batches (l : LoaderState) (size : Option Nat) :
    (l.batches size).length = batchCount size l.queued.length := by
  rw [batches, length_chunks]
  cases size with
  | some size => rfl
  | none =>
    rw [Option.getD_none, batchCount, Nat.ceilDiv_eq_add_pred_div]
    rcases Nat.eq_zero_or_pos l.queued.length with none | some
    · rw [none]; rfl
    · rw [show max 1 l.queued.length = l.queued.length by omega,
        show l.queued.length + l.queued.length - 1 = (l.queued.length - 1) + l.queued.length by omega,
        Nat.add_div_right _ some, Nat.div_eq_of_lt (by omega)]
      omega

end LoaderState

/-! ## Histories -/

/-- A fetch that has returned. -/
structure FetchCall where
  batch : Batch
  returned : Fetched

/-- What a call to a loader of a name answers. -/
def FetchCall.answers (name : String) (call : FetchCall) : List (LoadKey × Answer) :=
  call.batch.keys.map fun key => (key, LoaderState.answerOf name key call.returned)

/-- The batches of a flush in the order in which their fetches start, and the fetches in the order
in which they return. -/
structure Flush where
  batches : List Batch
  calls : List FetchCall

def Flush.batchesOf (n : Nat) (f : Flush) : List Batch := f.batches.filter (·.loader = n)

/-- The batches that were handed to a loader, in the order of their calls. -/
def handedBatches (n : Nat) (flushes : List Flush) : List Batch := flushes.flatMap (·.batchesOf n)

/-- The keys that were handed to a loader. -/
def handed (n : Nat) (flushes : List Flush) : List LoadKey :=
  (handedBatches n flushes).flatMap Batch.keys

/-- The keys that a loader was asked for. -/
def askedOf (n : Nat) (requests : List (Nat × LoadKey)) : List LoadKey :=
  (requests.filter (·.1 = n)).map Prod.snd

/-- The queued keys of a loader. -/
def Coordinator.queued (c : Coordinator) (n : Nat) : List LoadKey :=
  ((c.loaders.lookup n).map LoaderState.queued).getD []

namespace Engine

/-- The fetch that a poll of a batch brings to an end. -/
def endedBatch (e : Engine σ) (b : Batch) (p : Progress Unit) (st : OperationState σ) :
    Option FetchCall :=
  match p, (e.pollBatch b p st).1, e.loaders.lookup b.loader with
  | .finished _, _, _ => none
  | _, .finished _, some loader => some ⟨b, (loader.fetch b.keys st.world.store).1⟩
  | _, _, _ => none

/-- The fetches that a poll of batches brings to an end. -/
def ended (e : Engine σ) : List (Batch × Progress Unit) → OperationState σ → List FetchCall
  | [], _ => []
  | (b, p) :: rest, st => (e.endedBatch b p st).toList ++ e.ended rest (e.pollBatch b p st).2

/-- A flush goes on: its batches, the fetches that have returned, and the coordinator. -/
inductive Flushing (e : Engine σ) (c : Coordinator) :
    List (Batch × Progress Unit) → List FetchCall → Coordinator → Prop
  | taken : Flushing e c (c.takeBatches.1.map (·, .idle)) [] c.takeBatches.2
  | poll {bs : List (Batch × Progress Unit)} {calls : List FetchCall} {c' : Coordinator}
    (operation : Nat) (w : World σ) : Flushing e c bs calls c' →
    Flushing e c (e.pollBatches bs ⟨operation, c', w⟩).1 (calls ++ e.ended bs ⟨operation, c', w⟩)
      (e.pollBatches bs ⟨operation, c', w⟩).2.coordinator

/-- A flush from its beginning to its end. -/
inductive Flushes (e : Engine σ) (c : Coordinator) : Flush → Coordinator → Prop
  | done {bs : List (Batch × Progress Unit)} {calls : List FetchCall} {c' : Coordinator} :
    e.Flushing c bs calls c' → (Progress.results? bs).isSome →
      Flushes e c ⟨c.takeBatches.1, calls⟩ c'

/-- The uses of a coordinator since it was new. -/
inductive Uses (e : Engine σ) : List (Nat × LoadKey) → List Flush → Coordinator → Prop
  | new : Uses e [] [] e.coordinator
  | load {requests : List (Nat × LoadKey)} {flushes : List Flush} {c : Coordinator}
    (r : Nat × LoadKey) : Uses e requests flushes c → Uses e (requests ++ [r]) flushes (c.load r)
  | flush {requests : List (Nat × LoadKey)} {flushes : List Flush} {f : Flush}
    {c c' : Coordinator} : Uses e requests flushes c → e.Flushes c f c' →
    Uses e requests (flushes ++ [f]) c'

end Engine

/-! ## Flushes -/

namespace Coordinator

/-- Keep what calls returned. -/
def finishAll (c : Coordinator) (calls : List FetchCall) : Coordinator :=
  calls.foldl (fun c call => c.finish call.batch call.returned) c

theorem finishAll_append (c : Coordinator) (calls calls' : List FetchCall) :
    c.finishAll (calls ++ calls') = (c.finishAll calls).finishAll calls' :=
  List.foldl_append

/-- What calls returned is in the answers of their loaders. -/
theorem lookup_finishAll (c : Coordinator) (calls : List FetchCall) (n : Nat) :
    (c.finishAll calls).loaders.lookup n = (c.loaders.lookup n).map fun l =>
      { l with
        answers := l.answers ++
          (calls.filter (·.batch.loader = n)).flatMap (FetchCall.answers l.name) } := by
  induction calls generalizing c with
  | nil => cases h : c.loaders.lookup n <;> simp [finishAll, h]
  | cons call rest ih =>
    have := ih (c.finish call.batch call.returned)
    rw [finishAll, List.foldl_cons] at *
    rw [this, finish, lookup_modify, Option.map_map]
    congr 1
    funext l
    by_cases same : n = call.batch.loader
    · simp [same, LoaderState.finish, FetchCall.answers]
    · have other : call.batch.loader ≠ n := fun eq => same eq.symm
      simp [same, other]

theorem map_fst_modify (c : Coordinator) (number : Nat) (f : LoaderState → LoaderState) :
    (c.modify number f).loaders.map Prod.fst = c.loaders.map Prod.fst := by
  simp [modify, Function.comp_def]

theorem map_fst_takeBatches (c : Coordinator) :
    c.takeBatches.2.loaders.map Prod.fst = c.loaders.map Prod.fst := by
  simp [takeBatches, Function.comp_def]

theorem map_fst_finishAll (c : Coordinator) (calls : List FetchCall) :
    (c.finishAll calls).loaders.map Prod.fst = c.loaders.map Prod.fst := by
  induction calls generalizing c with
  | nil => rfl
  | cons call rest ih => exact (ih _).trans (map_fst_modify c _ _)

/-- The batches that are taken from a loader are those of its queue. -/
theorem filter_flatMap_batches {ls : List (Nat × LoaderState)} {n : Nat} (size : Option Nat)
    (absent : n ∉ ls.map Prod.fst) :
    (ls.flatMap fun (number, l) =>
      (l.batches size).map fun keys => (⟨number, l.name, keys⟩ : Batch)).filter (·.loader = n) =
      [] := by
  rw [List.filter_eq_nil_iff]
  intro b mem
  obtain ⟨⟨m, l⟩, entry, mem⟩ := List.mem_flatMap.mp mem
  obtain ⟨keys, -, rfl⟩ := List.mem_map.mp mem
  have ne : m ≠ n := fun eq => absent (eq ▸ List.mem_map_of_mem entry)
  simpa using ne

theorem filter_takeBatches {c : Coordinator} (nodup : (c.loaders.map Prod.fst).Nodup) {n : Nat}
    {l : LoaderState} (found : c.loaders.lookup n = some l) :
    c.takeBatches.1.filter (·.loader = n) =
      (l.batches c.batchSize).map fun keys => ⟨n, l.name, keys⟩ := by
  unfold takeBatches
  simp only
  generalize c.loaders = ls at nodup found
  induction ls with
  | nil => cases found
  | cons entry rest ih =>
    obtain ⟨m, l'⟩ := entry
    rw [List.map_cons, List.nodup_cons] at nodup
    rw [List.flatMap_cons, List.filter_append]
    by_cases same : n = m
    · subst same
      rw [List.lookup_cons_self, Option.some.injEq] at found
      rw [filter_flatMap_batches c.batchSize nodup.1, found, List.append_nil, List.filter_eq_self]
      intro b mem
      obtain ⟨keys, -, rfl⟩ := List.mem_map.mp mem
      simp
    · rw [List.lookup_cons, beq_eq_false_iff_ne.mpr same] at found
      rw [ih nodup.2 found, List.append_left_eq_self, List.filter_eq_nil_iff]
      intro b mem
      obtain ⟨keys, -, rfl⟩ := List.mem_map.mp mem
      simpa using fun eq => same (Eq.symm eq)

end Coordinator

namespace Engine

variable {e : Engine σ}

/-- What a poll of a batch does to the coordinator, and what is left in flight. -/
theorem pollBatch_ended (b : Batch) (p : Progress Unit) (st : OperationState σ)
    (registered : (e.loaders.lookup b.loader).isSome) :
    (e.pollBatch b p st).2.coordinator = st.coordinator.finishAll (e.endedBatch b p st).toList ∧
      (e.endedBatch b p st).toList.map FetchCall.batch ++ inFlight [(b, (e.pollBatch b p st).1)] =
        inFlight [(b, p)] := by
  obtain ⟨loader, found⟩ := Option.isSome_iff_exists.mp registered
  have ran : ∀ st' : OperationState σ, st'.coordinator = st.coordinator →
      st'.world.store = st.world.store → (e.runBatch b st').coordinator =
        st.coordinator.finish b (loader.fetch b.keys st.world.store).1 := by
    intro st' same store
    rw [runBatch, found]
    simp only [same, store]
  unfold endedBatch
  cases p with
  | finished => exact ⟨rfl, rfl⟩
  | waiting deadline =>
    by_cases due : deadline ≤ st.world.clock
    · simp [pollBatch, due, found, ran, inFlight, Coordinator.finishAll]
    · simp [pollBatch, due, found, inFlight, Coordinator.finishAll]
  | idle =>
    cases delay : e.batchDelay b with
    | zero =>
      simp [pollBatch, delay, found, ran, inFlight, Coordinator.finishAll, OperationState.record,
        World.record]
    | succ d => simp [pollBatch, delay, found, inFlight, Coordinator.finishAll, OperationState.record]

theorem inFlight_cons (b : Batch) (p : Progress Unit) (rest : List (Batch × Progress Unit)) :
    inFlight ((b, p) :: rest) = inFlight [(b, p)] ++ inFlight rest := by
  cases p <;> rfl

theorem pollBatches_ended (bs : List (Batch × Progress Unit)) (st : OperationState σ)
    (registered : ∀ b ∈ bs.map Prod.fst, (e.loaders.lookup b.loader).isSome) :
    (e.pollBatches bs st).2.coordinator = st.coordinator.finishAll (e.ended bs st) ∧
      ((e.ended bs st).map FetchCall.batch ++ inFlight (e.pollBatches bs st).1).Perm
        (inFlight bs) := by
  induction bs generalizing st with
  | nil => exact ⟨rfl, .refl _⟩
  | cons bp rest ih =>
    obtain ⟨b, p⟩ := bp
    obtain ⟨head, now⟩ := pollBatch_ended b p st (registered b List.mem_cons_self)
    obtain ⟨tail, later⟩ := ih (e.pollBatch b p st).2 fun b' mem =>
      registered b' (List.mem_cons_of_mem _ mem)
    rw [pollBatches, ended, Coordinator.finishAll_append, ← head]
    refine ⟨tail, ?_⟩
    simp only
    rw [inFlight_cons, inFlight_cons (p := p), ← now, List.map_append, List.append_assoc,
      List.append_assoc]
    refine .append_left _ ?_
    rw [← List.append_assoc]
    exact (List.perm_append_comm.append_right _).trans
      (by rw [List.append_assoc]; exact later.append_left _)

theorem fst_pollBatches (bs : List (Batch × Progress Unit)) (st : OperationState σ) :
    (e.pollBatches bs st).1.map Prod.fst = bs.map Prod.fst := by
  induction bs generalizing st with
  | nil => rfl
  | cons bp rest ih => rw [pollBatches, List.map_cons, List.map_cons, ih]

/-- The call is one to a loader of the engine. -/
def Made (e : Engine σ) (call : FetchCall) : Prop :=
  ∃ loader store, e.loaders.lookup call.batch.loader = some loader ∧
    call.returned = (loader.fetch call.batch.keys store).1

theorem made_of_ended {bs : List (Batch × Progress Unit)} {st : OperationState σ} {call : FetchCall}
    (mem : call ∈ e.ended bs st) : e.Made call := by
  induction bs generalizing st with
  | nil => cases mem
  | cons bp rest ih =>
    obtain ⟨b, p⟩ := bp
    rcases List.mem_append.mp mem with mem | mem
    · rw [Option.mem_toList] at mem
      unfold endedBatch at mem
      split at mem
      · cases mem
      · next found _ =>
        cases Option.some.inj mem
        exact ⟨_, _, ‹_›, rfl⟩
      · cases mem
    · exact ih mem

/-- A flush that goes on: the batches are those that were taken, their keys are in flight or
answered. -/
structure Underway (e : Engine σ) (c : Coordinator) (bs : List (Batch × Progress Unit))
    (calls : List FetchCall) (c' : Coordinator) : Prop where
  batches : bs.map Prod.fst = c.takeBatches.1
  finished : c' = c.takeBatches.2.finishAll calls
  left : (calls.map FetchCall.batch ++ inFlight bs).Perm c.takeBatches.1
  made : ∀ call ∈ calls, e.Made call

theorem Flushing.underway {c c' : Coordinator} {bs : List (Batch × Progress Unit)}
    {calls : List FetchCall}
    (registered : ∀ b ∈ c.takeBatches.1, (e.loaders.lookup b.loader).isSome)
    (h : e.Flushing c bs calls c') : e.Underway c bs calls c' := by
  induction h with
  | taken =>
    refine ⟨?_, rfl, ?_, fun _ h => nomatch h⟩
    · rw [List.map_map]
      exact List.map_id _
    · rw [inFlight_idle]
      exact .refl _
  | @poll bs calls c' operation w _ ih =>
    obtain ⟨finished, left⟩ := pollBatches_ended (e := e) bs ⟨operation, c', w⟩
      (by rw [ih.batches]; exact registered)
    refine ⟨(fst_pollBatches _ _).trans ih.batches, ?_, ?_, fun call mem => ?_⟩
    · rw [finished, Coordinator.finishAll_append, ← ih.finished]
    · rw [List.map_append, List.append_assoc]
      exact (left.append_left _).trans ih.left
    · rcases List.mem_append.mp mem with mem | mem
      · exact ih.made call mem
      · exact made_of_ended mem

end Engine

/-! ## Consistency -/

/-- The calls of a loader that have returned. -/
def callsOf (n : Nat) (flushes : List Flush) : List FetchCall :=
  (flushes.flatMap Flush.calls).filter (·.batch.loader = n)

section

variable {n : Nat} {flushes : List Flush} {f : Flush}

theorem handedBatches_append :
    handedBatches n (flushes ++ [f]) = handedBatches n flushes ++ f.batchesOf n := by
  simp [handedBatches]

theorem handed_append :
    handed n (flushes ++ [f]) = handed n flushes ++ (f.batchesOf n).flatMap Batch.keys := by
  simp [handed, handedBatches_append]

theorem callsOf_append :
    callsOf n (flushes ++ [f]) =
      callsOf n flushes ++ f.calls.filter (·.batch.loader = n) := by
  simp [callsOf]

end

namespace Engine

/-- What a coordinator keeps of the loader of a name and a number is determined by its uses. -/
structure Keeps (called : String) (n : Nat) (requests : List (Nat × LoadKey)) (flushes : List Flush)
    (l : LoaderState) : Prop where
  name : l.name = called
  known : l.known = (askedOf n requests).eraseDups
  handed : handed n flushes ++ l.queued = l.known
  answers : l.answers = (callsOf n flushes).flatMap (FetchCall.answers called)
  stats : l.stats = ⟨(handedBatches n flushes).length, (GraphQLEngine.handed n flushes).length⟩

/-- What a coordinator of an engine keeps, and the flushes, fit its uses. -/
structure Consistent (e : Engine σ) (requests : List (Nat × LoadKey)) (flushes : List Flush)
    (c : Coordinator) : Prop where
  size : c.batchSize = e.settings.maxBatchSize
  numbers : c.loaders.map Prod.fst = e.loaders.map Prod.fst
  complete : ∀ f ∈ flushes, (f.calls.map FetchCall.batch).Perm f.batches
  made : ∀ f ∈ flushes, ∀ call ∈ f.calls, e.Made call
  states : ∀ {n : Nat} {loader : Loader σ}, e.loaders.lookup n = some loader →
    ∃ l, c.loaders.lookup n = some l ∧ Keeps loader.name n requests flushes l

variable {e : Engine σ} {requests : List (Nat × LoadKey)} {flushes : List Flush}
  {c c' : Coordinator}

theorem Keeps.load {called : String} {n : Nat} {l : LoaderState}
    (K : Keeps called n requests flushes l) (r : Nat × LoadKey) :
    Keeps called n (requests ++ [r]) flushes (if n = r.1 then l.load r.2 else l) := by
  by_cases same : n = r.1
  · have asked : askedOf n (requests ++ [r]) = askedOf n requests ++ [r.2] := by
      simp [askedOf, same]
    have known_iff : r.2 ∈ l.known ↔ r.2 ∈ askedOf n requests := by
      rw [K.known, List.mem_eraseDups]
    rw [if_pos same, LoaderState.load]
    by_cases old : r.2 ∈ l.known
    · rw [if_pos old]
      refine { K with known := ?_ }
      rw [asked, List.eraseDups_append, K.known]
      simp [List.removeAll, known_iff.mp old]
    · rw [if_neg old]
      refine { K with known := ?_, handed := ?_ }
      · rw [asked, List.eraseDups_append, K.known]
        simp [List.removeAll, known_iff.not.mp old, List.eraseDups_cons]
      · rw [← List.append_assoc, K.handed]
  · have asked : askedOf n (requests ++ [r]) = askedOf n requests := by
      simp [askedOf, Ne.symm same]
    rw [if_neg same]
    exact { K with known := asked ▸ K.known }

/-- The batches of a flush hold what was queued. -/
theorem keys_batchesOf {n : Nat} {l : LoaderState} {f : Flush} {size : Option Nat}
    (batches : f.batchesOf n = (l.batches size).map fun keys => ⟨n, l.name, keys⟩) :
    (f.batchesOf n).flatMap Batch.keys = l.queued := by
  rw [batches, List.flatMap_map]
  exact List.flatMap_id'.trans (LoaderState.flatten_chunks _ _)

theorem Keeps.flush {called : String} {n : Nat} {l : LoaderState} {f : Flush} {size : Option Nat}
    (K : Keeps called n requests flushes l)
    (batches : f.batchesOf n = (l.batches size).map fun keys => ⟨n, l.name, keys⟩) :
    Keeps called n requests (flushes ++ [f])
      { l.taken size with
        answers := l.answers ++
          (f.calls.filter (·.batch.loader = n)).flatMap (FetchCall.answers called) } := by
  have keys := keys_batchesOf batches
  constructor
  case name => exact K.name
  case known => exact K.known
  case handed => rw [handed_append, keys, K.handed]; exact List.append_nil _
  case answers => rw [callsOf_append, List.flatMap_append, ← K.answers]
  case stats =>
    rw [handedBatches_append, handed_append, keys, List.length_append, List.length_append, batches,
      List.length_map]
    simp [LoaderState.taken, K.stats]

/-- A flush takes the queue of a loader in batches. -/
theorem Flushes.batchesOf {f : Flush} (h : e.Flushes c f c')
    (nodup : (c.loaders.map Prod.fst).Nodup) {n : Nat} {l : LoaderState}
    (found : c.loaders.lookup n = some l) :
    f.batchesOf n = (l.batches c.batchSize).map fun keys => ⟨n, l.name, keys⟩ := by
  cases h
  exact Coordinator.filter_takeBatches nodup found

theorem Flushes.underway {f : Flush} (h : e.Flushes c f c')
    (registered : ∀ b ∈ c.takeBatches.1, (e.loaders.lookup b.loader).isSome) :
    c' = c.takeBatches.2.finishAll f.calls ∧ (f.calls.map FetchCall.batch).Perm f.batches ∧
      ∀ call ∈ f.calls, e.Made call := by
  obtain ⟨flushing, done⟩ := h
  have U := flushing.underway registered
  refine ⟨U.finished, ?_, U.made⟩
  have left := U.left
  rwa [inFlight_of_results done, List.append_nil] at left

/-- The batches that are taken are of loaders of the engine. -/
theorem Consistent.registered (C : e.Consistent requests flushes c) {b : Batch}
    (mem : b ∈ c.takeBatches.1) : (e.loaders.lookup b.loader).isSome := by
  obtain ⟨⟨n, l⟩, entry, same⟩ :=
    List.lookup_isSome_iff.mp (Coordinator.lookup_of_mem_takeBatches mem)
  have number : n ∈ e.loaders.map Prod.fst := C.numbers ▸ List.mem_map_of_mem entry
  obtain ⟨⟨_, loader⟩, entry', rfl⟩ := List.mem_map.mp number
  exact List.lookup_isSome_iff.mpr ⟨_, entry', same⟩

theorem Consistent.new (e : Engine σ) : e.Consistent [] [] e.coordinator where
  size := rfl
  numbers := by simp [coordinator, Coordinator.new, Function.comp_def]
  complete _ h := nomatch h
  made _ h := nomatch h
  states {n loader} found := by
    refine ⟨.new loader.name, ?_, rfl, rfl, rfl, rfl, rfl⟩
    rw [coordinator, Coordinator.new,
      lookup_map_snd (fun _ (loader : Loader σ) => LoaderState.new loader.name), found]
    rfl

theorem Consistent.load (C : e.Consistent requests flushes c) (r : Nat × LoadKey) :
    e.Consistent (requests ++ [r]) flushes (c.load r) where
  size := C.size
  numbers := (Coordinator.map_fst_modify c _ _).trans C.numbers
  complete := C.complete
  made := C.made
  states {n loader} found := by
    obtain ⟨l, hl, K⟩ := C.states found
    refine ⟨_, ?_, K.load r⟩
    rw [Coordinator.load, Coordinator.lookup_modify, hl]
    rfl

theorem batchSize_finishAll (c : Coordinator) (calls : List FetchCall) :
    (c.finishAll calls).batchSize = c.batchSize := by
  induction calls generalizing c with
  | nil => rfl
  | cons call rest ih => exact ih _

theorem Consistent.flush {f : Flush} (C : e.Consistent requests flushes c)
    (nodup : (e.loaders.map Prod.fst).Nodup) (h : e.Flushes c f c') :
    e.Consistent requests (flushes ++ [f]) c' := by
  have nodup' : (c.loaders.map Prod.fst).Nodup := by rw [C.numbers]; exact nodup
  obtain ⟨rfl, complete, made⟩ := h.underway fun _ => C.registered
  have step : ∀ {P : Flush → Prop}, (∀ f' ∈ flushes, P f') → P f → ∀ f' ∈ flushes ++ [f], P f' := by
    intro P old new f' mem
    rcases List.mem_append.mp mem with mem | mem
    · exact old f' mem
    · rw [List.mem_singleton.mp mem]; exact new
  constructor
  case size => exact (batchSize_finishAll _ _).trans C.size
  case numbers =>
    rw [Coordinator.map_fst_finishAll, Coordinator.map_fst_takeBatches, C.numbers]
  case complete => exact step C.complete complete
  case made => exact step C.made made
  case states =>
    intro n loader found
    obtain ⟨l, hl, K⟩ := C.states found
    refine ⟨_, ?_, K.flush (h.batchesOf nodup' hl)⟩
    rw [Coordinator.lookup_finishAll, Coordinator.lookup_takeBatches, hl, Option.map_some,
      Option.map_some]
    simp [LoaderState.taken, K.name]

/-- However a coordinator is used, what it keeps is determined by its uses. -/
theorem Uses.consistent (nodup : (e.loaders.map Prod.fst).Nodup)
    (used : e.Uses requests flushes c) : e.Consistent requests flushes c := by
  induction used with
  | new => exact .new e
  | load r _ ih => exact ih.load r
  | flush _ h ih => exact ih.flush nodup h

end Engine

/-! ## The contract -/

theorem lookup_flatMap_answers {called : String} {calls : List FetchCall}
    (nodup : ((calls.map FetchCall.batch).flatMap Batch.keys).Nodup) {call : FetchCall}
    (mem : call ∈ calls) {key : LoadKey} (carried : key ∈ call.batch.keys) :
    (calls.flatMap (FetchCall.answers called)).lookup key =
      some (LoaderState.answerOf called key call.returned) := by
  apply lookup_of_mem
  · rw [List.map_flatMap]
    rw [List.flatMap_map] at nodup
    simpa [FetchCall.answers, Function.comp_def] using nodup
  · exact List.mem_flatMap.mpr ⟨call, mem, List.mem_map_of_mem carried⟩

/-- What a load of a key comes to. -/
def FieldValue.ofAnswer : Answer → FieldValue σ
  | .ok v => .value v
  | .error e => .error e

theorem FieldValue.settle_load {n : Nat} {key : LoadKey} {a : Answer} {st : OperationState σ}
    (answered : st.coordinator.answer? n key = some a) :
    (FieldValue.settle (.load n key) st).1 = .ofAnswer a := by
  rw [load, settle]
  cases a with
  | error e => simp [answered, ofAnswer]
  | ok v => simp [answered, settleResult, settle, ofAnswer]

/-- What can be relied on for a loader after some uses of a coordinator. -/
structure Engine.Batched (e : Engine σ) (n : Nat) (loader : Loader σ)
    (requests : List (Nat × LoadKey)) (flushes : List Flush) (c : Coordinator) : Prop where
  /-- No key is handed to the loader twice. -/
  once : (handed n flushes).Nodup
  /-- The keys that were handed to it and those that are queued are the keys asked for, in the order
  of their first request. -/
  order : handed n flushes ++ c.queued n = (askedOf n requests).eraseDups
  /-- A key that was asked for has no answer exactly while it is queued. -/
  unset : ∀ key, key ∈ c.queued n ↔ (n, key) ∈ requests ∧ c.answer? n key = none
  /-- A flush hands over what is queued, in as many batches as that takes. -/
  flush : ∀ f c', e.Flushes c f c' →
    (f.batchesOf n).length = LoaderState.batchCount e.settings.maxBatchSize (c.queued n).length ∧
    (∀ b ∈ f.batchesOf n, b.keys ≠ [] ∧
      ∀ size, e.settings.maxBatchSize = some size → b.keys.length ≤ max 1 size) ∧
    (f.batchesOf n).flatMap Batch.keys = c.queued n ∧
    (f.calls.map FetchCall.batch).Perm f.batches ∧ c'.queued n = []
  /-- A key that was asked for is queued or was carried by a call. -/
  carried : ∀ key, (n, key) ∈ requests →
    key ∈ c.queued n ∨ ∃ call ∈ callsOf n flushes, key ∈ call.batch.keys
  /-- What a call returns is the answer to all loads of its keys. -/
  answered : ∀ call ∈ callsOf n flushes,
    (∃ store, call.returned = (loader.fetch call.batch.keys store).1) ∧
    ∀ key ∈ call.batch.keys,
      c.answer? n key = some (LoaderState.answerOf loader.name key call.returned) ∧
      ∀ operation (w : World σ), (FieldValue.settle (.load n key) ⟨operation, c, w⟩).1 =
        .ofAnswer (LoaderState.answerOf loader.name key call.returned)
  /-- The statistics count the calls and their keys; they are reported by the names of the loaders. -/
  stats : (c.loaders.lookup n).map LoaderState.stats =
      some ⟨(handedBatches n flushes).length, (handed n flushes).length⟩ ∧
    ((∀ m loader', e.loaders.lookup m = some loader' → loader'.name = loader.name → m = n) →
      c.stats.lookup loader.name = (c.loaders.lookup n).map LoaderState.stats)

namespace Engine

variable {e : Engine σ} {n : Nat} {loader : Loader σ} {requests : List (Nat × LoadKey)}
  {flushes : List Flush} {c : Coordinator} {l : LoaderState}

theorem Consistent.perm_calls (C : e.Consistent requests flushes c) :
    ((callsOf n flushes).map FetchCall.batch).Perm (handedBatches n flushes) := by
  have : (callsOf n flushes).map FetchCall.batch =
      flushes.flatMap fun f => (f.calls.map FetchCall.batch).filter (·.loader = n) := by
    simp [callsOf, List.filter_flatMap, List.map_flatMap, List.filter_map, Function.comp_def]
  rw [this]
  exact .flatMap_left _ fun f mem => (C.complete f mem).filter _

theorem Consistent.nodup_calls (C : e.Consistent requests flushes c)
    (once : (handed n flushes).Nodup) :
    (((callsOf n flushes).map FetchCall.batch).flatMap Batch.keys).Nodup :=
  (C.perm_calls.flatMap_right _).nodup_iff.mpr once

/-- The keys that were handed to a loader are those that its calls carried. -/
theorem Consistent.mem_handed (C : e.Consistent requests flushes c) {key : LoadKey} :
    key ∈ handed n flushes ↔ ∃ call ∈ callsOf n flushes, key ∈ call.batch.keys := by
  rw [handed, ← (C.perm_calls.flatMap_right Batch.keys).mem_iff, List.flatMap_map, List.mem_flatMap]

/-- A flush takes what is queued, in as many batches as that takes. -/
theorem Consistent.flushed (C : e.Consistent requests flushes c)
    (nodup : (c.loaders.map Prod.fst).Nodup) (hl : c.loaders.lookup n = some l) {f : Flush}
    {c' : Coordinator} (h : e.Flushes c f c') :
    (f.batchesOf n).length = LoaderState.batchCount e.settings.maxBatchSize l.queued.length ∧
    (∀ b ∈ f.batchesOf n, b.keys ≠ [] ∧
      ∀ size, e.settings.maxBatchSize = some size → b.keys.length ≤ max 1 size) ∧
    (f.batchesOf n).flatMap Batch.keys = l.queued ∧
    (f.calls.map FetchCall.batch).Perm f.batches ∧ c'.queued n = [] := by
  have batches := h.batchesOf nodup hl
  obtain ⟨rfl, complete, -⟩ := h.underway fun _ => C.registered
  rw [← C.size]
  refine ⟨?_, ?_, keys_batchesOf batches, complete, ?_⟩
  · rw [batches, List.length_map, LoaderState.length_batches]
  · intro b mem
    rw [batches] at mem
    obtain ⟨keys, piece, rfl⟩ := List.mem_map.mp mem
    refine ⟨LoaderState.ne_nil_of_mem_chunks piece, fun size capped => ?_⟩
    have := LoaderState.length_le_of_mem_chunks piece
    rwa [capped, Option.getD_some] at this
  · rw [Coordinator.queued, Coordinator.lookup_finishAll, Coordinator.lookup_takeBatches, hl]
    rfl

/-- The statistics of a loader whose name no other one has are found by it. -/
theorem Consistent.lookup_stats (C : e.Consistent requests flushes c)
    (registered : (e.loaders.map Prod.fst).Nodup) (found : e.loaders.lookup n = some loader)
    (only : ∀ m loader', e.loaders.lookup m = some loader' → loader'.name = loader.name → m = n) :
    c.stats.lookup loader.name = (c.loaders.lookup n).map LoaderState.stats := by
  have nodup : (c.loaders.map Prod.fst).Nodup := by rw [C.numbers]; exact registered
  obtain ⟨l, hl, K⟩ := C.states found
  rw [hl, Option.map_some, Coordinator.stats, OrderedMap.lookup_sorted]
  apply OrderedMap.lookup_ofEntries
  · refine List.mem_map.mpr ⟨(n, l), mem_of_lookup hl, ?_⟩
    simp only [K.name]
  · intro w mem
    obtain ⟨⟨m, l'⟩, entry, eq⟩ := List.mem_map.mp mem
    obtain ⟨named, rfl⟩ := Prod.mk.inj eq
    have hl' := lookup_of_mem nodup entry
    have number : m ∈ e.loaders.map Prod.fst := C.numbers ▸ List.mem_map_of_mem entry
    obtain ⟨⟨_, loader'⟩, entry', rfl⟩ := List.mem_map.mp number
    have found' := lookup_of_mem registered entry'
    obtain ⟨l'', hl'', K'⟩ := C.states found'
    cases hl'.symm.trans hl''
    have same := only _ _ found' (K'.name.symm.trans named)
    subst same
    cases hl.symm.trans hl'
    rfl

/-- However a coordinator is used, its loaders can rely on it. -/
theorem loads_batched_once (registered : (e.loaders.map Prod.fst).Nodup)
    (used : e.Uses requests flushes c) (found : e.loaders.lookup n = some loader) :
    e.Batched n loader requests flushes c := by
  have C := used.consistent registered
  have nodup : (c.loaders.map Prod.fst).Nodup := by rw [C.numbers]; exact registered
  obtain ⟨l, hl, K⟩ := C.states found
  have queued : c.queued n = l.queued := by rw [Coordinator.queued, hl]; rfl
  have all : handed n flushes ++ l.queued = (askedOf n requests).eraseDups :=
    K.handed.trans K.known
  have disjoint : (handed n flushes ++ l.queued).Nodup := all ▸ nodup_eraseDups _
  have once : (handed n flushes).Nodup := disjoint.of_append_left
  have asked : ∀ key, (n, key) ∈ requests ↔ key ∈ handed n flushes ∨ key ∈ l.queued := by
    intro key
    rw [← List.mem_append, all, List.mem_eraseDups]
    simp [askedOf]
  have answer : ∀ call ∈ callsOf n flushes, ∀ key ∈ call.batch.keys,
      c.answer? n key = some (LoaderState.answerOf loader.name key call.returned) := by
    intro call mem key carried
    rw [Coordinator.answer?, hl]
    simp only [K.answers]
    exact lookup_flatMap_answers (C.nodup_calls once) mem carried
  constructor
  case once => exact once
  case order => rw [queued, all]
  case unset =>
    intro key
    rw [queued, asked]
    constructor
    · intro mem
      refine ⟨.inr mem, ?_⟩
      rw [Coordinator.answer?, hl]
      simp only [K.answers, List.lookup_eq_none_iff]
      intro p answered
      obtain ⟨call, hcall, answered⟩ := List.mem_flatMap.mp answered
      obtain ⟨key', carried, rfl⟩ := List.mem_map.mp answered
      have ne : key ≠ key' := fun eq =>
        (List.disjoint_of_nodup_append disjoint) (C.mem_handed.mpr ⟨call, hcall, carried⟩) (eq ▸ mem)
      simpa using ne
    · rintro ⟨mem | mem, unanswered⟩
      · obtain ⟨call, hcall, carried⟩ := C.mem_handed.mp mem
        rw [answer call hcall key carried] at unanswered
        cases unanswered
      · exact mem
  case flush =>
    rw [queued]
    exact fun f c' h => C.flushed nodup hl h
  case carried =>
    intro key mem
    rw [queued]
    exact ((asked key).mp mem).symm.imp_right C.mem_handed.mp
  case answered =>
    intro call mem
    obtain ⟨hcall, same⟩ := List.mem_filter.mp mem
    obtain ⟨f, hf, hcall⟩ := List.mem_flatMap.mp hcall
    obtain ⟨loader', store, found', returned⟩ := C.made f hf call hcall
    rw [of_decide_eq_true same, found, Option.some.injEq] at found'
    subst found'
    exact ⟨⟨store, returned⟩, fun key carried => ⟨answer call mem key carried, fun operation w =>
      FieldValue.settle_load (answer call mem key carried)⟩⟩
  case stats =>
    refine ⟨?_, C.lookup_stats registered found⟩
    rw [hl, Option.map_some, K.stats]

end Engine

/-! ## Squares -/

namespace Squares

/-- Has the squares of the numbers that are not negative. -/
def loader : Loader Unit where
  name := "squares"
  delay := 0
  fetch keys s :=
    (.ok (keys.filterMap fun key =>
      match key with
      | .integer n => if n < 0 then none else some (key, .ok (.int (n * n)))
      | .text _ => none), s)

/-- An engine without fields, which fetches two keys at a time. -/
def engine : Engine Unit :=
  ⟨default, ⟨[]⟩, [(0, loader)], { Settings.default with maxBatchSize := some 2 }⟩

/-- Five loads of four keys. -/
def requests : List (Nat × LoadKey) :=
  [(0, .integer 3), (0, .integer (-1)), (0, .integer 3), (0, .integer 4), (0, .integer 5)]

def flush : Flush where
  batches := [⟨0, "squares", [.integer 3, .integer (-1)]⟩, ⟨0, "squares", [.integer 4, .integer 5]⟩]
  calls := [
    ⟨⟨0, "squares", [.integer 3, .integer (-1)]⟩, .ok [(.integer 3, .ok (.int 9))]⟩,
    ⟨⟨0, "squares", [.integer 4, .integer 5]⟩,
      .ok [(.integer 4, .ok (.int 16)), (.integer 5, .ok (.int 25))]⟩]

def loaded : Coordinator := engine.coordinator.loadAll requests

def fetching : List (Batch × Progress Unit) := loaded.takeBatches.1.map (·, .idle)

def begun : OperationState Unit := ⟨0, loaded.takeBatches.2, .start default ()⟩

theorem flushes : engine.Flushes loaded flush (engine.pollBatches fetching begun).2.coordinator := by
  have all : flush = ⟨loaded.takeBatches.1, engine.ended fetching begun⟩ := by cbv
  rw [all]
  exact .done (.poll 0 (.start default ()) .taken) (by cbv)

/-- After the flush a key is asked for once more. -/
theorem used : engine.Uses (requests ++ [(0, .integer 3)]) [flush]
    ((engine.pollBatches fetching begun).2.coordinator.load (0, .integer 3)) := by
  have asked : engine.Uses requests [] loaded :=
    ((((Engine.Uses.new.load _).load _).load _).load _).load _
  exact (asked.flush flushes).load _

theorem loads_batched_once_squares :
    ∃ c, engine.Uses (requests ++ [(0, .integer 3)]) [flush] c ∧ c.queued 0 = [] ∧
      c.answer? 0 (.integer 3) = some (.ok (.int 9)) ∧
      c.answer? 0 (.integer (-1)) = some (.error (.notFound "squares" "-1")) ∧
      c.stats.lookup "squares" = some ⟨2, 4⟩ := by
  have B := @Engine.loads_batched_once _ engine 0 loader _ _ _ (by decide) used rfl
  have calls : callsOf 0 [flush] = flush.calls := rfl
  have first := (B.answered flush.calls[0] (by rw [calls]; exact List.getElem_mem _)).2
  refine ⟨_, used, ?_, ?_, ?_, ?_⟩
  · have := B.order
    have same : handed 0 [flush] = (askedOf 0 (requests ++ [(0, .integer 3)])).eraseDups := by decide
    rwa [same, List.append_right_eq_self] at this
  · exact (first (.integer 3) (by decide)).1
  · exact (first (.integer (-1)) (by decide)).1
  · refine (B.stats.2 fun m loader' found _ => ?_).trans B.stats.1
    by_contra other
    have : engine.loaders.lookup m = none := by
      simp [engine, List.lookup_cons, beq_eq_false_iff_ne.mpr other]
    rw [this] at found
    cases found

end Squares

end GraphQLEngine
