import GraphQLEngine.Proofs.Schemas.Sealing
import GraphQLEngine.Proofs.Waves.Operations

/-!
# Resolvers are found

The type of every task is reachable from the roots, through the fields that lead to it.  So when an
engine's table was sealed against its schema, the resolver of every field that is to be resolved is
found, in each wave of each operation, and a subscription finds the resolver of its root field.

There is one exception: sealing asks for the kind of a resolver by the type of its field alone.  The
fields of the subscription root have subscription resolvers also where that type is the type of
another field, or is the query or the mutation root; there the look-up fails.
-/

namespace GraphQLEngine

variable {σ : Type}

/-! ## The types of tasks -/

def Task.Typed (s : Schema) (t : Task) : Prop := s.Reaches t.parentType

def Invocation.Typed (s : Schema) (i : Invocation σ) : Prop := s.Reaches i.type.innermost

/-- What is at work is of reachable types. -/
def Point.Typed (s : Schema) : Point σ → Prop
  | .tasks _ _ _ _ ts => ∀ t ∈ ts, t.Typed s
  | .resolving _ _ _ calls => ∀ i ∈ calls.map Prod.fst, i.Typed s
  | .settling _ _ _ calls _ | .passed _ _ _ calls _ | .fetching _ _ _ calls _ _ =>
    ∀ i ∈ calls, i.Typed s
  | .stopped .. => True

structure Moment.Typed (s : Schema) (m : Moment σ) : Prop where
  waves : ∀ w ∈ m.waves, ∀ t ∈ w.tasks, t.Typed s
  remaining : ∀ ts ∈ m.remaining, ∀ t ∈ ts, t.Typed s
  point : m.point.Typed s

/-- The wave at work goes on. -/
theorem Moment.Typed.onward {s : Schema} {past : List (Wave σ)}
    {remaining : List (List Task)} {point point' : Point σ} {st st' : OperationState σ}
    (T : Moment.Typed s ⟨past, remaining, point, st⟩) {w w' : Wave σ}
    (wave : point.wave? = some w) (wave' : point'.wave? = some w') (same : w'.tasks = w.tasks)
    (typed : point'.Typed s) : Moment.Typed s ⟨past, remaining, point', st'⟩ where
  waves x hx := by
    rw [Moment.waves, wave'] at hx
    rcases List.mem_append.mp hx with hx | hx
    · exact T.waves x (List.mem_append_left _ hx)
    · rw [List.mem_singleton.mp hx, same]
      refine T.waves w (List.mem_append_right _ ?_)
      rw [wave]
      exact List.mem_singleton_self w
  remaining := T.remaining
  point := typed

namespace Engine

variable {e : Engine σ} {caller : Caller} {rules : Rules σ} {base : Nat} {spec : SchemaSpec}
  {m m' : Moment σ}

/-- The calls of a wave are for fields of reachable types. -/
theorem prepare_typed {g : Graph} {tasks : List Task} (typed : ∀ t ∈ tasks, t.Typed e.schema) :
    ∀ i ∈ (e.prepare caller g tasks).2, i.Typed e.schema := by
  intro i hi
  obtain ⟨t, ht, -, calls⟩ := (prepare_calls g tasks).2.1 i hi
  obtain ⟨d, found, type, -⟩ := calls.defined
  rw [Invocation.Typed, type]
  exact .field (typed t ht) found

/-- The tasks that a wave leaves are for fields of reachable types. -/
theorem completeWave_typed (built : Schema.build spec = .ok e.schema) {calls : List (Invocation σ)}
    (typed : ∀ i ∈ calls, i.Typed e.schema) {g : Graph} {values : List Settled} :
    ∀ t ∈ (e.completeWave g calls values).2, t.Typed e.schema := by
  intro t ht
  obtain ⟨i, hi, under⟩ := completeWave_beneath ht
  obtain ⟨T, found, parent⟩ := under.type
  rw [Task.Typed, parent, Schema.name_of_build built found]
  exact typed i hi

theorem Step.typed (built : Schema.build spec = .ok e.schema) (h : e.Step caller rules base m m')
    (T : m.Typed e.schema) : m'.Typed e.schema := by
  cases h with
  | next =>
    exact ⟨T.waves, fun ts hts => T.remaining ts (List.mem_cons_of_mem _ hts),
      T.remaining _ List.mem_cons_self⟩
  | prepare =>
    refine ⟨fun w hw => ?_, T.remaining, fun i hi => ?_⟩
    · rcases List.mem_append.mp hw with hw | hw
      · exact T.waves w (List.mem_append_left _ hw)
      · rw [List.mem_singleton.mp hw]
        exact T.point
    · rw [List.map_map] at hi
      exact prepare_typed T.point i (by simpa using hi)
  | resolve => exact T.onward rfl rfl rfl fun i hi => T.point i (Invocation.fst_pollAll _ _ ▸ hi)
  | collect => exact T.onward rfl rfl rfl T.point
  | pass => exact T.onward rfl rfl rfl T.point
  | take => exact T.onward rfl rfl rfl T.point
  | fetch => exact T.onward rfl rfl rfl T.point
  | fetched => exact T.onward rfl rfl rfl T.point
  | complete =>
    refine ⟨fun w hw => T.waves w ?_, T.remaining, completeWave_typed built T.point⟩
    simpa [Moment.waves, Point.wave?] using hw
  | stop => exact ⟨T.waves, T.remaining, trivial⟩

theorem Pause.typed {s : Schema} (h : Pause rules m m') (T : m.Typed s) : m'.Typed s := by
  cases h with
  | resolving rescheduled => exact T.onward rfl rfl rfl fun i hi => T.point i (rescheduled.map_fst ▸ hi)
  | fetching => exact T.onward rfl rfl rfl T.point

/-- All that is at work is of reachable types, wherever an operation has come to. -/
theorem Reaches.typed (built : Schema.build spec = .ok e.schema)
    (reached : e.Reaches caller rules base m m') (T : m.Typed e.schema) : m'.Typed e.schema := by
  induction reached with
  | refl => exact T
  | tail _ h ih => exact h.elim (fun step => step.typed built ih) fun pause => pause.typed ih

/-- An operation begins with fields of reachable types. -/
theorem From.typed {r : Request} {g : Graph} {runs : List (List Task)} {st : OperationState σ}
    (built : Schema.build spec = .ok e.schema) (h : e.From r base g runs) :
    (Moment.initial g runs st).Typed e.schema := by
  have root : ∀ {kind typeName}, e.schema.root? kind = some typeName →
      e.schema.Reaches typeName := by
    intro kind typeName found
    apply Schema.Reaches.root
    cases kind <;> simp_all [Schema.root?, Schema.roots]
  have tasks : ∀ ts ∈ runs, ∀ t ∈ ts, t.Typed e.schema := by
    cases h with
    | @request rootType found =>
      have all : ∀ t ∈ (Engine.runs r.kind rootType r.fields).flatten, t.Typed e.schema := by
        intro t ht
        rw [flatten_runs] at ht
        obtain ⟨f, -, rfl⟩ := List.mem_map.mp ht
        exact root found
      exact fun ts hts t ht => all t (List.mem_flatten.mpr ⟨ts, hts, ht⟩)
    | event v found single defined =>
      intro ts hts t ht
      rw [List.mem_singleton.mp hts] at ht
      obtain ⟨T, type, parent⟩ := ((completeValue_laid _ _ _ _ _).beneath t ht).type
      rw [Task.Typed, parent, Schema.name_of_build built type]
      exact .field (root found) defined
  exact ⟨(fun _ h => absurd h List.not_mem_nil), tasks, fun _ h => absurd h List.not_mem_nil⟩

/-- The resolver of a field is found, unless the field is one of the subscription root. -/
def Finds (e : Engine σ) (key : FieldKey) : Prop :=
  if e.schema.isSubscriptionRoot key.typeName then
    e.dispatch.resolverFor key = .error (.wrongKind key .field)
  else ∃ resolver, e.dispatch.resolverFor key = .ok resolver

mutual

/-- The only fault of a field is that it is not one of its type. -/
theorem fault_of_checkField {s : Schema} {fault : ExecutionError} :
    ∀ {typeName : String} (f : RequestField), checkField s typeName f = .error fault →
      ∃ T name, fault = .unresolvedField T name
  | _, ⟨_, name, _, subfields⟩, h => by
    rw [checkField] at h
    split at h
    · cases h
    · split at h
      · cases h
        exact ⟨_, _, rfl⟩
      · exact fault_of_checkFields subfields h

theorem fault_of_checkFields {s : Schema} {fault : ExecutionError} :
    ∀ {typeName : String} (fs : List RequestField), checkFields s typeName fs = .error fault →
      ∃ T name, fault = .unresolvedField T name
  | _, [], h => by cases h
  | _, f :: fs, h => by
    rw [checkFields] at h
    split at h
    · next refused =>
      cases h
      exact fault_of_checkField f refused
    · exact fault_of_checkFields fs h

end

theorem preflight_ne_dispatch {r : Request} {fault : DispatchError} :
    e.preflight r ≠ .error (.dispatch fault) := by
  intro h
  unfold preflight at h
  split at h
  · cases h
  · split at h
    · cases h
    · split at h
      · next refused =>
        cases h
        obtain ⟨T, name, eq⟩ := fault_of_checkFields _ refused
        cases eq
      · cases h

end Engine

/-- An engine whose table was sealed finds the resolvers.  A subscription is never refused for want of
one, and each task of each wave that an operation comes to, between whatever changes of the world,
finds its own, unless its field is one of the subscription root. -/
theorem resolvers_found {spec : SchemaSpec} {e : Engine σ}
    {table : DispatchTable (Resolver σ) (SubscriptionResolver σ)}
    (built : Schema.build spec = .ok e.schema) (fits : table.sealFor e.schema = .ok e.dispatch)
    (r : Request) (caller : Caller) :
    (∀ fault, e.planSubscription r caller ≠ .error (.dispatch fault)) ∧
    ∀ {base st₀ start}, e.Begins r caller base st₀ start →
      ∀ {log p}, e.Course caller .free st₀ start log p →
      ∃ g runs m, start = e.begin caller g runs st₀ ∧
        e.Reaches caller .free base (.initial g runs st₀) m ∧ m.Stands p ∧ m.log = log ∧
        ∀ w ∈ m.waves, ∀ t ∈ w.tasks, ∀ d, e.schema.field? t.parentType t.field.name = some d →
          e.Finds ⟨t.parentType, t.field.name⟩ := by
  constructor
  · intro fault refused
    unfold Engine.planSubscription at refused
    split at refused
    · cases refused
    · next kind =>
      split at refused
      · next checked =>
        cases refused
        exact Engine.preflight_ne_dispatch checked
      · next rootType checked =>
        have root := Engine.root?_of_preflight checked
        simp only [ne_eq, not_not] at kind
        rw [kind, Schema.root?] at root
        split at refused
        · next field _ =>
          split at refused
          · cases refused
          · next d found =>
            split at refused
            · split at refused
              · next missing =>
                have sound := DispatchTable.resolverFor_of_sealed built fits
                  (.root (by simp [Schema.roots, root])) found
                rw [if_pos (by simp [Schema.isSubscriptionRoot, root])] at sound
                obtain ⟨-, resolver, isFound⟩ := sound
                rw [isFound] at missing
                cases missing
              · cases refused
            · cases refused
        · cases refused
  · intro base st₀ start begins log p course
    obtain ⟨g, runs, m, from_, began, reached, stands, own⟩ := begins.reaches course
    refine ⟨g, runs, m, began, reached, stands, own, fun w hw t ht d found => ?_⟩
    have typed := (reached.typed built (from_.typed built)).waves w hw t ht
    have sound := DispatchTable.resolverFor_of_sealed built fits typed found
    unfold Engine.Finds
    split
    · next root =>
      rw [if_pos root] at sound
      exact sound.1
    · next root =>
      rw [if_neg root] at sound
      exact sound

/-! ## A subscription root that is the type of a field -/

namespace Feed

def spec : SchemaSpec where
  declarations := [
    .object "Query" [.of "feed" (.named "Subscription")],
    .object "Subscription" [.of "tick" (.named "Int")]]
  queryRoot := none
  mutationRoot := none
  subscriptionRoot := none

def schema : Schema :=
  ⟨⟨[("Int", ⟨"Int", .scalar .int⟩), ("Float", ⟨"Float", .scalar .float⟩),
      ("String", ⟨"String", .scalar .string⟩), ("Boolean", ⟨"Boolean", .scalar .boolean⟩),
      ("ID", ⟨"ID", .scalar .id⟩),
      ("Query", ⟨"Query", .object [("feed", .of "feed" (.named "Subscription"))]⟩),
      ("Subscription", ⟨"Subscription", .object [("tick", .of "tick" (.named "Int"))]⟩)],
      by decide⟩,
    "Query", none, some "Subscription"⟩

def engine : Engine Unit :=
  ⟨schema,
    ⟨[(⟨"Query", "feed"⟩, .field
        ⟨fun _ => 0, fun _ s => (.ok (.value (.obj [("tick", .int 5)])), s)⟩),
      (⟨"Subscription", "tick"⟩, .subscription
        ⟨fun _ => 0, fun _ s => (.ok ⟨"t", fun _ => true⟩, s), .ok, none⟩)]⟩,
    [], .default⟩

/-- The request `{ feed { tick } }`. -/
def request : Request := ⟨none, .query, [⟨none, "feed", [], [⟨none, "tick", [], []⟩]⟩]⟩

abbrev begun : OperationState Unit := ⟨0, engine.coordinator, .start default ()⟩

theorem built : Schema.build spec = .ok schema := by rfl

theorem sealed : engine.dispatch.sealFor engine.schema = .ok engine.dispatch := by
  cbv

theorem checked : engine.preflight request = .ok "Query" := by cbv

/-- The document is executed, though the field of the subscription root has no field resolver. -/
theorem resolvers_found_feed :
    engine.dispatch.resolverFor ⟨"Subscription", "tick"⟩ =
      .error (.wrongKind ⟨"Subscription", "tick"⟩ .field) ∧
    ∃ start, engine.execute request Sample.caller begun = .ok start ∧
      ∃ g runs m, engine.Reaches Sample.caller .free 0 (.initial g runs begun) m ∧ m.Stands start ∧
        ∀ w ∈ m.waves, ∀ t ∈ w.tasks, ∀ d, schema.field? t.parentType t.field.name = some d →
          engine.Finds ⟨t.parentType, t.field.name⟩ := by
  refine ⟨by cbv, ?_⟩
  obtain ⟨start, started⟩ : ∃ start, engine.execute request Sample.caller begun = .ok start := by
    rw [Engine.execute, if_neg (by decide), checked]
    exact ⟨_, rfl⟩
  obtain ⟨g, runs, m, -, reached, stands, -, found⟩ :=
    (resolvers_found (e := engine) built sealed request Sample.caller).2 (.request started) .start
  exact ⟨start, started, g, runs, m, reached, stands, found⟩

end Feed

end GraphQLEngine
