import GraphQLEngine.Proofs.Mutations.Logs

/-!
# Mutations are sequences

A mutation leaves the store as its root fields would if each was a mutation of its own, one after the
other on the same store; its errors are theirs, and its data is put together from theirs.  Once one
of them has no data neither has the mutation, and the root fields after it are not resolved.

    Engine.OneByOne e caller r fields s gs s'     the root fields on their own, from `s` to `s'`
    Graph.joined? gs                              the members of what they come to

Loads go through one coordinator, in which a key that an earlier root field has loaded is there at
once.  What a value comes to may then be settled earlier than it would be, so the order in which the
resolvers return is kept, but not the order in which they go on with what they have loaded.
-/

namespace GraphQLEngine

open GraphQLEngine.Graph (Tidy)

variable {σ : Type}

/-- The members of the data of graphs, one after the other; none if one of them has no data. -/
def Graph.joined? : List Graph → Option (List (String × Json))
  | [] => some []
  | g :: gs =>
    match g.data with
    | some (.obj members) => (joined? gs).map (members ++ ·)
    | _ => none

namespace Engine

/-- On the store `s` a request is executed, completes with a graph, and leaves the store `s'`. -/
def Performs (e : Engine σ) (caller : Caller) (r : Request) (s : σ) (g : Graph) (s' : σ) : Prop :=
  ∃ operation w start log st, w.store = s ∧
    e.execute r caller ⟨operation, e.coordinator, w⟩ = .ok start ∧
    e.Course caller .serial ⟨operation, e.coordinator, w⟩ start log (.completed g, st) ∧
    st.world.store = s'

/-- Root fields are executed as requests of their own, one after the other on the same store, until
one has no data. -/
inductive OneByOne (e : Engine σ) (caller : Caller) (r : Request) :
    List RequestField → σ → List Graph → σ → Prop
  | done (s : σ) : OneByOne e caller r [] s [] s
  | last {f : RequestField} {fields : List RequestField} {s s' : σ} {g : Graph} :
    e.Performs caller { r with fields := [f] } s g s' → g.data = none →
      OneByOne e caller r (f :: fields) s [g] s'
  | next {f : RequestField} {fields : List RequestField} {s s' s'' : σ} {g : Graph}
    {gs : List Graph} : e.Performs caller { r with fields := [f] } s g s' → g.data ≠ none →
      OneByOne e caller r fields s' gs s'' → OneByOne e caller r (f :: fields) s (g :: gs) s''

variable {e : Engine σ} {caller : Caller} {b : Behavior σ} {r : Request} {rootType : String}
  {names : List String} {fields : List RequestField}

/-! ## Root fields on their own -/

/-- A request that completes has come to what its runs come to one after the other. -/
theorem Begins.completed (acts : e.Behaves b) {st₀ st : OperationState σ}
    {start : Polled σ × OperationState σ} {g : Graph} {log : List LogEntry}
    (begins : e.Begins r caller 0 st₀ start) (root : e.schema.root? r.kind = some rootType)
    (course : e.Course caller .serial st₀ start log (.completed g, st)) :
    (g, st.world.store) =
      e.evalRuns caller b (runs r.kind rootType r.fields) .new st₀.world.store := by
  obtain ⟨g₀, rs, m, from_, rfl, reached, stands, -⟩ := begins.reaches course
  obtain ⟨root'⟩ := from_
  cases root.symm.trans root'
  exact reached.completed acts (begins.coordinator ▸ .coordinator e _) stands

theorem Performs.eq (acts : e.Behaves b) {f : RequestField} {s s' : σ} {g : Graph}
    (mutation : r.kind = .mutation) (root : e.schema.root? r.kind = some rootType)
    (h : e.Performs caller { r with fields := [f] } s g s') :
    (g, s') = e.evalRoot caller b rootType f s := by
  obtain ⟨operation, w, start, log, st, rfl, started, course, rfl⟩ := h
  have := Begins.completed acts (.request started) root course
  rwa [mutation] at this

/-- A root field on its own comes to a tidy graph; after others its run does the same, and the graph is
grafted on theirs. -/
theorem Performs.grafted (acts : e.Behaves b) {f : RequestField} {s s' : σ} {g g₀ : Graph}
    (mutation : r.kind = .mutation) (root : e.schema.root? r.kind = some rootType)
    (h : e.Performs caller { r with fields := [f] } s g s') (T₀ : Tidy names g₀)
    (object : g₀.content? 0 ≠ some .null) (fresh : f.outputName ∉ names) :
    Tidy [f.outputName] g ∧ ∀ fields, e.evalRuns caller b (runs .mutation rootType (f :: fields)) g₀ s =
      e.evalRuns caller b (runs .mutation rootType fields) (g₀.graft g) s' := by
  obtain ⟨tidy, same⟩ := @evalRoot_graft σ e caller b g₀ _ rootType f T₀ object fresh s
  rw [← h.eq acts mutation root] at tidy same
  refine ⟨tidy, fun fields => ?_⟩
  rw [runs, List.map_cons, evalRuns, same]
  rfl

/-! ## One by one -/

/-- Runs on a null root do nothing. -/
theorem evalRuns_of_null {g : Graph} (T : Tidy names g) (null : g.content? 0 = some .null) (s : σ) :
    e.evalRuns caller b (runs .mutation rootType fields) g s = (g, s) := by
  induction fields with
  | nil => rfl
  | cons f fields ih =>
    have nothing : e.evalWaves caller b (Task.levels [rootTask rootType f]) g
        [rootTask rootType f] s = (g, s) :=
      evalWaves_of_nulled _
        (fun t mem => by rw [List.mem_singleton.mp mem]; exact T.isNulled_root.mpr null) s
    rw [runs, List.map_cons, evalRuns, nothing]
    exact ih

/-- What the runs of root fields come to after others, if the root fields on their own come to `gs`
and the store `s'`. -/
structure RunsJoin (e : Engine σ) (caller : Caller) (b : Behavior σ) (rootType : String)
    (fields : List RequestField) (g₀ : Graph) (s : σ) (gs : List Graph) (s' : σ) : Prop where
  store : (e.evalRuns caller b (runs .mutation rootType fields) g₀ s).2 = s'
  errors : (e.evalRuns caller b (runs .mutation rootType fields) g₀ s).1.errors =
    g₀.errors ++ gs.flatMap Graph.errors
  data : (e.evalRuns caller b (runs .mutation rootType fields) g₀ s).1.data =
    (Graph.joined? gs).map fun members => .obj (g₀.members ++ members)
  /-- The runs that are left out would be on null. -/
  null : ∀ k, gs.length ≤ k → k < fields.length →
    (e.evalRuns caller b (runs .mutation rootType (fields.take k)) g₀ s).1.isNulled Graph.root = true

theorem OneByOne.join (acts : e.Behaves b) (mutation : r.kind = .mutation)
    (root : e.schema.root? r.kind = some rootType) {s s' : σ} {gs : List Graph}
    (alone : e.OneByOne caller r fields s gs s') {g₀ : Graph} (T₀ : Tidy names g₀)
    (object : g₀.content? 0 ≠ some .null)
    (distinct : (names ++ fields.map RequestField.outputName).Nodup) :
    e.RunsJoin caller b rootType fields g₀ s gs s' := by
  induction alone generalizing names g₀ with
  | done s =>
    refine ⟨rfl, (List.append_nil _).symm, ?_, fun k _ lt => absurd lt (Nat.not_lt_zero k)⟩
    rw [Graph.joined?, Option.map_some, List.append_nil]
    exact T₀.data object
  | @last f fields s s' g performs none =>
    have fresh : f.outputName ∉ names := fun mem =>
      (List.nodup_append.mp distinct).2.2 _ mem _ List.mem_cons_self rfl
    obtain ⟨tidy, goes⟩ := performs.grafted acts mutation root T₀ object fresh
    have null := (Graph.null_graft (t := g₀) tidy).mpr (tidy.data_eq_none.mp none)
    have rest : ∀ fields, e.evalRuns caller b (runs .mutation rootType (f :: fields)) g₀ s =
        (g₀.graft g, s') := fun fields =>
      (goes fields).trans (evalRuns_of_null (T₀.graft tidy object) null s')
    constructor
    case store => rw [rest]
    case errors => rw [rest]; simp
    case data =>
      rw [rest, Graph.joined?, none]
      exact Graph.data_null null
    case null =>
      intro k le _
      obtain ⟨k, rfl⟩ := Nat.exists_eq_add_of_le' le
      rw [List.length_singleton, List.take_succ_cons, rest]
      exact (T₀.graft tidy object).isNulled_root.mpr null
  | @next f fields s s' s'' g gs performs given _ ih =>
    have fresh : f.outputName ∉ names := fun mem =>
      (List.nodup_append.mp distinct).2.2 _ mem _ List.mem_cons_self rfl
    obtain ⟨tidy, rest⟩ := performs.grafted acts mutation root T₀ object fresh
    have shown : g.content? 0 ≠ some .null := fun null => given (tidy.data_eq_none.mpr null)
    have J := ih (T₀.graft tidy object) (fun null => shown ((Graph.null_graft tidy).mp null))
      (by rwa [List.append_assoc])
    constructor
    case store => rw [rest, J.store]
    case errors => rw [rest, J.errors]; simp
    case data =>
      rw [rest, J.data, Graph.joined?, tidy.data shown, Graph.members_graft T₀ tidy shown]
      simp [Function.comp_def]
    case null =>
      intro k le lt
      obtain ⟨k, rfl⟩ := Nat.exists_eq_add_of_le' (Nat.le_trans (Nat.succ_pos gs.length) le)
      rw [List.take_succ_cons, rest]
      exact J.null k (by simpa using le) (by simpa using lt)

/-- The root fields on their own give one member each. -/
theorem OneByOne.single (acts : e.Behaves b) (mutation : r.kind = .mutation)
    (root : e.schema.root? r.kind = some rootType) {s s' : σ} {gs : List Graph}
    (alone : e.OneByOne caller r fields s gs s') : ∀ x ∈ fields.zip gs,
      x.2.data = none ∨ ∃ v, x.2.data = some (.obj [(x.1.outputName, v)]) := by
  have tidy : ∀ {f s g s'}, e.Performs caller { r with fields := [f] } s g s' →
      g.data = none ∨ ∃ v, g.data = some (.obj [(f.outputName, v)]) := fun performs =>
    (performs.grafted acts mutation root Tidy.new nofun List.not_mem_nil).1.single
  induction alone with
  | done => exact fun _ mem => nomatch mem
  | last performs none =>
    intro x mem
    rw [List.zip_cons_cons, List.zip_nil_right] at mem
    rw [List.mem_singleton.mp mem]
    exact .inl none
  | next performs _ _ ih =>
    intro x mem
    rw [List.zip_cons_cons] at mem
    rcases List.mem_cons.mp mem with rfl | mem
    · exact tidy performs
    · exact ih x mem

end Engine

/-! ## Mutations -/

/-- When resolvers return in the order of the fields, and what they go on to do with what they have
loaded leaves the store, then every validated mutation comes to what its root fields come to one by
one; each is over before the next begins, and none begins after one that has no data. -/
theorem mutation_one_by_one {e : Engine σ} {b : Behavior σ} (acts : e.Behaves b)
    (registered : (e.loaders.map Prod.fst).Nodup) {document : Document} {name : Option String}
    {supplied : OrderedMap Json} {r : Request}
    (validated : Request.ofDocument e.schema (some e.settings.maxQueryDepth) document name supplied =
      .ok r) (mutation : r.kind = .mutation) {caller : Caller} {operation : Nat} {w : World σ}
    {start : Polled σ × OperationState σ}
    (started : e.execute r caller ⟨operation, e.coordinator, w⟩ = .ok start) {log : List LogEntry}
    {g : Graph} {st : OperationState σ}
    (course : e.Course caller .serial ⟨operation, e.coordinator, w⟩ start log (.completed g, st)) :
    (∀ gs s', e.OneByOne caller r r.fields w.store gs s' →
      st.world.store = s' ∧ g.errors = gs.flatMap Graph.errors ∧
      g.data = (Graph.joined? gs).map .obj ∧
      ∀ x ∈ r.fields.zip gs,
        x.2.data = none ∨ ∃ v, x.2.data = some (.obj [(x.1.outputName, v)])) ∧
    ∃ rootType m, e.schema.root? .mutation = some rootType ∧
      e.Reaches caller .serial 0
        (.initial .new (Engine.runs .mutation rootType r.fields) ⟨operation, e.coordinator, w⟩) m ∧
      m.Stands (.completed g, st) ∧ m.log = log ∧ m.LogsInTurn r.fields ∧
      ∀ gs s', e.OneByOne caller r r.fields w.store gs s' →
        ∀ k, gs.length ≤ k → k < r.fields.length → m.logOf k = [] := by
  obtain ⟨rootType, root, sound⟩ := (Request.ofDocument_valid validated).root
  have begins : e.Begins r caller 0 ⟨operation, e.coordinator, w⟩ start := .request started
  have distinct : (r.fields.map RequestField.outputName).Nodup := sound.distinct.nodup
  have completed := Engine.Begins.completed acts begins root course
  rw [mutation] at completed
  have join : ∀ {gs s'}, e.OneByOne caller r r.fields w.store gs s' →
      e.RunsJoin caller b rootType r.fields .new w.store gs s' := fun alone =>
    alone.join acts mutation root Tidy.new nofun distinct
  refine ⟨fun gs s' alone => ?_, ?_⟩
  · have J := join alone
    obtain ⟨graph, store⟩ := Prod.mk.inj completed
    rw [graph, store]
    exact ⟨J.store, by rw [J.errors]; rfl, J.data, alone.single acts mutation root⟩
  · obtain ⟨g₀, rs, m, from_, began, reached, stands, own⟩ := begins.reaches course
    have orderly : (⟨operation, e.coordinator, w⟩ : OperationState σ).coordinator.Orderly :=
      .coordinator registered
    have initial := from_.keeps sound.distinct orderly
    obtain ⟨root'⟩ := from_
    cases root.symm.trans root'
    rw [mutation] at reached initial root
    have K := reached.keeps initial (Tracked.coordinator e e.MayAnswer)
    have R : m.RootByRoot e caller b .new w.store _ r.fields := reached.rootByRoot acts initial
      (Tracked.coordinator e e.MayAnswer) (Tracked.coordinator e _)
      (fun run eq => by cases eq; exact ⟨rfl, rfl⟩)
      ⟨(fun _ mem => nomatch mem), fun some => absurd rfl some, fun _ _ mem => nomatch mem⟩
    have ended : m.waves = m.past := by
      cases stands with
      | completed comes _ => cases comes with | completed => exact List.append_nil _
    obtain ⟨logs, silent⟩ := R.logs K ended
    refine ⟨rootType, m, root, reached, stands, own, logs, fun gs s' alone k le lt => silent k ?_⟩
    have := (join alone).null k le lt
    rwa [Engine.runs, List.map_take] at this

/-! ## A counter -/

namespace Counter

def schema : Schema :=
  ⟨⟨[("Int", ⟨"Int", .scalar .int⟩), ("Float", ⟨"Float", .scalar .float⟩),
      ("String", ⟨"String", .scalar .string⟩), ("Boolean", ⟨"Boolean", .scalar .boolean⟩),
      ("ID", ⟨"ID", .scalar .id⟩),
      ("Query", ⟨"Query", .object [("next", .of "next" (.named "Int"))]⟩),
      ("Mutation", ⟨"Mutation", .object [("next", .of "next" (.named "Int")),
        ("warm", .of "warm" (.named "Int")), ("both", .of "both" (.list (.named "Int"))),
        ("broken", .of "broken" (.nonNull (.named "Int")))]⟩)], by decide⟩,
    "Query", some "Mutation", none⟩

/-- Has the same answer for every key. -/
def zero : Loader Nat :=
  ⟨"zero", 0, fun keys s => (.ok (keys.map fun key => (key, .ok (.int 0))), s)⟩

/-- Answers likewise, and counts the keys. -/
def tally : Loader Nat :=
  ⟨"tally", 0, fun keys s => (.ok (keys.map fun key => (key, .ok (.int 0))), s + keys.length)⟩

theorem answerOf_zeros (name : String) {keys : List LoadKey} {key : LoadKey} (mem : key ∈ keys) :
    LoaderState.answerOf name key (.ok (keys.map fun key => (key, .ok (.int 0)))) = .ok (.int 0) := by
  rw [LoaderState.answerOf, List.lookup_graph (fun _ => Except.ok (Json.int 0)) mem]
  rfl

/-- Count on, and give out the count. -/
def count : Continuation Nat := fun _ c => (.value (.int (c.store + 1)), { c with store := c.store + 1 })

/-- Give out the count. -/
def read : Continuation Nat := fun _ c => (.value (.int c.store), c)

/-- The items of `both` load a key each and go on from there; `warm` loads the second of them. -/
def resolvers (after : Continuation Nat) : List (FieldKey × Resolver Nat) :=
  [(⟨"Mutation", "next"⟩, ⟨fun _ => 0, fun _ c => (.ok (count .null c).1, (count .null c).2)⟩),
    (⟨"Mutation", "warm"⟩, ⟨fun _ => 0, fun _ c => (.ok (.load 0 (.text "b")), c)⟩),
    (⟨"Mutation", "both"⟩, ⟨fun _ => 0, fun _ c =>
      (.ok (.list [.deferred 0 (.text "a") after, .deferred 0 (.text "b") after]), c)⟩),
    (⟨"Mutation", "broken"⟩, ⟨fun _ => 0, fun _ c => (.error (.internal "broken"), c)⟩)]

def engine (loader : Loader Nat) (after : Continuation Nat) : Engine Nat :=
  ⟨schema, ⟨(resolvers after).map fun (key, resolver) => (key, .field resolver)⟩, [(0, loader)],
    .default⟩

/-- The mutation of these fields. -/
def document (names : List String) : Document :=
  ⟨.anonymous ⟨.nowhere, .mutation, [], [],
    names.map fun name => .field ⟨.nowhere, none, name, [], []⟩ []⟩, []⟩

def field (name : String) : RequestField := ⟨none, name, [], []⟩

def request (fields : List RequestField) : Request := ⟨none, .mutation, fields⟩

/-- What an engine that does not pause comes to from a count. -/
def outcome? (e : Engine Nat) (fields : List RequestField) (s : Nat) :
    Option (Option Json × List ReportedError × Nat) :=
  match e.execute (request fields) Sample.caller ⟨0, e.coordinator, .start default s⟩ with
  | .ok (.completed g, st) => some (g.data, g.errors, st.world.store)
  | _ => none

section

variable {e : Engine Nat} {s s' : Nat} {data : Option Json} {errors : List ReportedError}

theorem course {fields : List RequestField} (h : outcome? e fields s = some (data, errors, s')) :
    ∃ start log g st,
      e.execute (request fields) Sample.caller ⟨0, e.coordinator, .start default s⟩ = .ok start ∧
      e.Course Sample.caller .serial ⟨0, e.coordinator, .start default s⟩ start log
        (.completed g, st) ∧
      g.data = data ∧ g.errors = errors ∧ st.world.store = s' := by
  unfold outcome? at h
  split at h
  · next g st started =>
    cases h
    exact ⟨_, _, g, st, started, .start, rfl, rfl, rfl⟩
  · cases h

theorem performs (fields : List RequestField) {f : RequestField}
    (h : outcome? e [f] s = some (data, errors, s')) :
    ∃ g, e.Performs Sample.caller { request fields with fields := [f] } s g s' ∧ g.data = data ∧
      g.errors = errors := by
  obtain ⟨start, log, g, st, started, course, hdata, herrors, store⟩ := course h
  exact ⟨g, ⟨0, _, start, log, st, rfl, started, course, store⟩, hdata, herrors⟩

end

/-- What the fields do if they only read the count once they have loaded. -/
def behavior : Behavior Nat where
  resolve key _ s :=
    match key.fieldName with
    | "next" => (fun _ => .value (.int (s + 1)), s + 1)
    | "warm" => (fun _ => .load 0 (.text "b") .value, s)
    | "both" =>
      (fun t => .list [.load 0 (.text "a") fun _ => .value (.int t),
        .load 0 (.text "b") fun _ => .value (.int t)], s)
    | _ => (fun _ => .error (.internal "broken"), s)
  answer n _ :=
    if n = 0 then .ok (.int 0)
    else .error (.internal ("Loader " ++ toString n ++ " is not registered"))

theorem behaves : (engine zero read).Behaves behavior where
  resolvers {key resolver} call c found := by
    have mem : (key, resolver) ∈ resolvers read := by
      unfold DispatchTable.resolverFor at found
      split at found
      · cases found
      · next handler registered =>
        cases found
        have := mem_of_lookup registered
        simpa [engine] using this
      · cases found
    simp only [resolvers, List.mem_cons, Prod.mk.injEq, List.not_mem_nil, or_false] at mem
    have loads : ∀ t k, RealizesOn t (.deferred 0 (.text k) read)
        (.load 0 (.text k) fun _ => .value (.int t)) := fun t k =>
      .load (fun v c same => by rw [← same]; exact .value _) fun v c same => same
    rcases mem with ⟨rfl, rfl⟩ | ⟨rfl, rfl⟩ | ⟨rfl, rfl⟩ | ⟨rfl, rfl⟩
    · exact ⟨rfl, fun t => .value _⟩
    · exact ⟨rfl, fun t => .load (fun v c _ => .value v) fun v c same => same⟩
    · exact ⟨rfl, fun t => .list (.cons (loads t "a") (.cons (loads t "b") .nil))⟩
    · exact ⟨rfl, fun t => .error _⟩
  loaders {n l keys key} s found mem := by
    cases n with
    | zero =>
      cases found
      exact answerOf_zeros _ mem
    | succ n => cases found
  missing {n} key none := by
    cases n with
    | zero => cases none
    | succ n => rfl
  stores {n l} keys s found := by
    cases n with
    | zero => cases found; rfl
    | succ n => cases found

/-- The fields of the mutation `{ next both broken warm }`; the third must not be null, but fails. -/
def fields : List RequestField := [field "next", field "both", field "broken", field "warm"]

set_option maxRecDepth 8000 in
/-- What the fields come to together, and the first three one by one. -/
theorem outcomes :
    outcome? (engine zero read) fields 0 =
      some (none, [⟨"Internal error", [.field "broken"], .internal⟩], 1) ∧
    outcome? (engine zero read) [field "next"] 0 =
      some (some (.obj [("next", .int 1)]), [], 1) ∧
    outcome? (engine zero read) [field "both"] 1 =
      some (some (.obj [("both", .arr [.int 1, .int 1])]), [], 1) ∧
    outcome? (engine zero read) [field "broken"] 1 =
      some (none, [⟨"Internal error", [.field "broken"], .internal⟩], 1) :=
  ⟨by cbv, by cbv, by cbv, by cbv⟩

theorem validated : Request.ofDocument schema (some Settings.default.maxQueryDepth)
    (document ["next", "both", "broken", "warm"]) none [] = .ok (request fields) := by
  cbv

/-- The last field is not resolved, and the store is what the first three leave one by one. -/
theorem mutation_one_by_one_counter :
    ∃ start log g st gs, ∃ m : Moment Nat, (engine zero read).Behaves behavior ∧
      (engine zero read).execute (request fields) Sample.caller
        ⟨0, (engine zero read).coordinator, .start default 0⟩ = .ok start ∧
      (engine zero read).Course Sample.caller .serial
        ⟨0, (engine zero read).coordinator, .start default 0⟩ start log (.completed g, st) ∧
      (engine zero read).OneByOne Sample.caller (request fields) fields 0 gs 1 ∧
      gs.map Graph.data = [some (.obj [("next", .int 1)]),
        some (.obj [("both", .arr [.int 1, .int 1])]), none] ∧
      st.world.store = 1 ∧ g.data = none ∧
      g.errors = [⟨"Internal error", [.field "broken"], .internal⟩] ∧
      m.log = log ∧ m.LogsInTurn fields ∧ m.logOf 3 = [] := by
  obtain ⟨whole, first, second, third⟩ := outcomes
  obtain ⟨start, log, g, st, started, course, -⟩ := course whole
  obtain ⟨next, nexts, dataNext, errorsNext⟩ := performs fields first
  obtain ⟨both, boths, dataBoth, errorsBoth⟩ := performs fields second
  obtain ⟨broken, brokens, dataBroken, errorsBroken⟩ := performs fields third
  have alone : (engine zero read).OneByOne Sample.caller (request fields) (request fields).fields 0
      [next, both, broken] 1 :=
    .next nexts (by rw [dataNext]; exact nofun) (.next boths (by rw [dataBoth]; exact nofun)
      (.last brokens dataBroken))
  obtain ⟨came, rootType, m, -, -, -, own, logs, silent⟩ :=
    mutation_one_by_one behaves (by decide) validated rfl started course
  obtain ⟨store, errors, data, -⟩ := came _ _ alone
  refine ⟨start, log, g, st, _, m, behaves, started, course, alone, ?_, store, ?_, ?_, own, logs,
    silent _ _ alone 3 (Nat.le_refl 3) (by decide)⟩
  · simp [dataNext, dataBoth, dataBroken]
  · rw [data]
    simp [Graph.joined?, dataNext, dataBoth, dataBroken]
  · rw [errors]
    simp [errorsNext, errorsBoth, errorsBroken]

/-! ### Shared loads -/

/-- The mutation `{ warm both }` comes to this data and count, and its fields one by one to these
members and this count. -/
def WarmBoth (e : Engine Nat) (data : Json) (s : Nat) (members : List (String × Json)) (s' : Nat) :
    Prop :=
  ∃ start log g st gs,
    e.execute (request [field "warm", field "both"]) Sample.caller
      ⟨0, e.coordinator, .start default 0⟩ = .ok start ∧
    e.Course Sample.caller .serial ⟨0, e.coordinator, .start default 0⟩ start log
      (.completed g, st) ∧
    g.data = some data ∧ st.world.store = s ∧
    e.OneByOne Sample.caller (request [field "warm", field "both"]) [field "warm", field "both"] 0 gs
      s' ∧
    Graph.joined? gs = some members

theorem warmBoth {e : Engine Nat} {data : Json} {warm both : List (String × Json)} {s s' s'' : Nat}
    (together : outcome? e [field "warm", field "both"] 0 = some (some data, [], s))
    (first : outcome? e [field "warm"] 0 = some (some (.obj warm), [], s'))
    (second : outcome? e [field "both"] s' = some (some (.obj both), [], s'')) :
    WarmBoth e data s (warm ++ both) s'' := by
  obtain ⟨start, log, g, st, started, course, given, -, store⟩ := course together
  obtain ⟨g₁, performs₁, data₁, -⟩ := performs [field "warm", field "both"] first
  obtain ⟨g₂, performs₂, data₂, -⟩ := performs [field "warm", field "both"] second
  refine ⟨start, log, g, st, [g₁, g₂], started, course, given, store,
    .next performs₁ (by rw [data₁]; exact nofun) (.next performs₂ (by rw [data₂]; exact nofun)
      (.done s'')), ?_⟩
  simp [Graph.joined?, data₁, data₂]

set_option maxRecDepth 8000 in
/-- On its own the field `both` counts for its first item first, but after `warm`, which has loaded the
key of the second item, for that one. -/
theorem warmBoth_count :
    WarmBoth (engine zero count) (.obj [("warm", .int 0), ("both", .arr [.int 2, .int 1])]) 2
      [("warm", .int 0), ("both", .arr [.int 1, .int 2])] 2 :=
  @warmBoth (engine zero count) _ [("warm", .int 0)] [("both", .arr [.int 1, .int 2])] 2 0 2 (by cbv)
    (by cbv) (by cbv)

set_option maxRecDepth 8000 in
/-- On its own the field `both` has that key fetched once more. -/
theorem warmBoth_tally :
    WarmBoth (engine tally read) (.obj [("warm", .int 0), ("both", .arr [.int 2, .int 1])]) 2
      [("warm", .int 0), ("both", .arr [.int 3, .int 3])] 3 :=
  @warmBoth (engine tally read) _ [("warm", .int 0)] [("both", .arr [.int 3, .int 3])] 2 1 3 (by cbv)
    (by cbv) (by cbv)

/-- Loaders answer each key alike, but if values count once they have loaded, or if the loader counts,
it shows that the fields of a mutation share what they load. -/
theorem not_always_one_by_one :
    (∀ loader ∈ [zero, tally], ∀ (keys : List LoadKey) (key : LoadKey) (s : Nat), key ∈ keys →
      LoaderState.answerOf loader.name key (loader.fetch keys s).1 = .ok (.int 0)) ∧
    Request.ofDocument schema (some Settings.default.maxQueryDepth) (document ["warm", "both"]) none
      [] = .ok (request [field "warm", field "both"]) ∧
    WarmBoth (engine zero count) (.obj [("warm", .int 0), ("both", .arr [.int 2, .int 1])]) 2
      [("warm", .int 0), ("both", .arr [.int 1, .int 2])] 2 ∧
    WarmBoth (engine tally read) (.obj [("warm", .int 0), ("both", .arr [.int 2, .int 1])]) 2
      [("warm", .int 0), ("both", .arr [.int 3, .int 3])] 3 := by
  refine ⟨fun loader mem keys key s inside => ?_, by cbv, warmBoth_count, warmBoth_tally⟩
  simp only [List.mem_cons, List.not_mem_nil, or_false] at mem
  rcases mem with rfl | rfl <;> exact answerOf_zeros _ inside

end Counter

end GraphQLEngine
