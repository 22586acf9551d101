import GraphQLEngine.Proofs.Waves.Operations

/-!
# Selections that the schema knows

What preflight accepts stays known in the waves: every field that is selected exists on its type, the
objects in a completed value are of the type that the field has, and the types of all fields are
there.  So no wave comes to a field, and no completion to a type, that the schema does not have.

There is one exception: preflight takes a field named `__typename` for the name of the type, and does
not look beneath it, while a subscription whose root has declared such a field executes it as one.

    Engine.Meets e m                  a field or a type that the schema does not have comes next
    e.Reaches … (.initial …) m  →  e.Meets m  →  r.Hides e.schema
-/

namespace GraphQLEngine

variable {σ : Type}

/-! ## Known fields -/

/-- The field exists on a type, and so do the fields selected beneath it; the field of the type's
name has nothing beneath it that is looked at. -/
inductive RequestField.Known (s : Schema) : String → RequestField → Prop
  | typename {typeName : String} {f : RequestField} : f.name = typenameField → Known s typeName f
  | field {typeName : String} {f : RequestField} {d : FieldDefinition} :
    s.field? typeName f.name = some d → (∀ sub ∈ f.subfields, Known s d.type.innermost sub) →
      Known s typeName f

/-- A subscription whose root field is a declared one that is named like the field of the type's name,
and has an unknown field beneath it. -/
def Request.Hides (s : Schema) (r : Request) : Prop :=
  r.kind = .subscription ∧ ∃ rootType f d, s.root? r.kind = some rootType ∧ r.fields = [f] ∧
    f.name = typenameField ∧ s.field? rootType f.name = some d ∧
    ∃ sub ∈ f.subfields, ¬ sub.Known s d.type.innermost

theorem RequestField.Known.cases {s : Schema} {typeName : String} {f : RequestField}
    (h : f.Known s typeName) :
    f.name = typenameField ∨ ∃ d, s.field? typeName f.name = some d ∧
      ∀ sub ∈ f.subfields, sub.Known s d.type.innermost := by
  cases h with
  | typename name => exact .inl name
  | field found subs => exact .inr ⟨_, found, subs⟩

namespace Engine

mutual

theorem known_of_checkField {s : Schema} :
    ∀ {typeName : String} (f : RequestField), checkField s typeName f = .ok () →
      f.Known s typeName
  | _, ⟨_, name, _, subfields⟩, h => by
    rw [checkField] at h
    split at h
    · next typename => exact .typename typename
    · split at h
      · cases h
      · next d found => exact .field found (known_of_checkFields subfields h)

theorem known_of_checkFields {s : Schema} :
    ∀ {typeName : String} (fs : List RequestField), checkFields s typeName fs = .ok () →
      ∀ f ∈ fs, f.Known s typeName
  | _, [], _ => fun _ mem => nomatch mem
  | _, f :: fs, h => by
    rw [checkFields] at h
    split at h
    · cases h
    · next known =>
      exact List.forall_mem_cons.mpr ⟨known_of_checkField f known, known_of_checkFields fs h⟩

end

variable {e : Engine σ} {r : Request} {rootType : String}

/-- What preflight has checked. -/
theorem preflight_ok (checked : e.preflight r = .ok rootType) :
    e.schema.root? r.kind = some rootType ∧ r.depth ≤ e.settings.maxQueryDepth ∧
      ∀ f ∈ r.fields, f.Known e.schema rootType := by
  unfold preflight at checked
  split at checked
  · cases checked
  · next found =>
    split at checked
    · cases checked
    · next shallow =>
      split at checked <;> cases checked
      next known => exact ⟨found, Nat.not_lt.mp shallow, known_of_checkFields _ known⟩

theorem validate_valid {query : String} {name : Option String} {supplied : OrderedMap Json}
    (h : e.validate query name supplied = .ok r) :
    r.Valid e.schema (some e.settings.maxQueryDepth) := by
  unfold validate at h
  split at h
  · next ok =>
    cases h
    obtain ⟨document, -, ok⟩ := bind_ok ok
    exact Request.ofDocument_valid ok
  · cases h

end Engine

/-- Validation leaves nothing beneath the field of the type's name. -/
theorem Request.Valid.not_hides {s : Schema} {limit : Option Nat} {r : Request}
    (h : r.Valid s limit) : ¬ r.Hides s := by
  rintro ⟨-, _, f, d, -, fields, name, -, sub, mem, -⟩
  obtain ⟨rootType, -, sound⟩ := h.root
  rcases (sound.sound f (fields ▸ List.mem_singleton_self f)).cases with ⟨-, none⟩ | ⟨-, other, -⟩
  · rw [none] at mem
    cases mem
  · exact other name

/-! ## Known types -/

/-- Completing a settled value of a type comes upon a type that the schema does not have. -/
inductive Schema.Lacks (s : Schema) : TypeRef → Settled → Prop
  | single {t : TypeRef} {v : Json} : v ≠ .null → t.nullable.isList = false →
    s.type? t.innermost = none → Lacks s t (.value v)
  | item {t item : TypeRef} {v w : Settled} {items : List Settled} : t.nullable = .list item →
    v.items? = some items → w ∈ items → Lacks s item w → Lacks s t v

theorem Schema.not_lacks {s : Schema} {t : TypeRef} {T : SchemaType}
    (found : s.type? t.innermost = some T) (v : Settled) : ¬ s.Lacks t v := by
  intro h
  induction h with
  | single _ _ missing =>
    rw [found] at missing
    cases missing
  | item list _ _ _ ih =>
    rw [TypeRef.innermost_of_nullable list] at ih
    exact ih found

/-! ## Known work -/

def Task.Known (s : Schema) (t : Task) : Prop := t.field.Known s t.parentType

/-- The type of the call is there, and what is selected beneath it exists on it. -/
structure Invocation.Known (s : Schema) (i : Invocation σ) : Prop where
  type : ∃ T, s.type? i.type.innermost = some T
  selected : ∀ sub ∈ i.field.subfields, sub.Known s i.type.innermost

def Point.Known (s : Schema) : Point σ → Prop
  | .tasks _ _ _ _ ts => ∀ t ∈ ts, t.Known s
  | .resolving _ _ _ calls => ∀ i ∈ calls.map Prod.fst, i.Known s
  | .settling _ _ _ calls _ | .passed _ _ _ calls _ | .fetching _ _ _ calls _ _ =>
    ∀ i ∈ calls, i.Known s
  | .stopped .. => True

structure Moment.Known (s : Schema) (m : Moment σ) : Prop where
  remaining : ∀ ts ∈ m.remaining, ∀ t ∈ ts, t.Known s
  point : m.point.Known s

/-- What comes next is a wave with a field, or the completion of a value with a type, that the schema
does not have. -/
inductive Engine.Meets (e : Engine σ) : Moment σ → Prop
  | field {past : List (Wave σ)} {remaining : List (List Task)} {levels run depth : Nat} {g : Graph}
    {tasks : List Task} {st : OperationState σ} {t : Task} : t ∈ tasks →
    t.field.name ≠ typenameField → e.schema.field? t.parentType t.field.name = none →
    Meets e ⟨past, remaining, .tasks levels run depth g tasks, st⟩
  | type {past : List (Wave σ)} {remaining : List (List Task)} {levels : Nat} {w : Wave σ}
    {g : Graph} {calls : List (Invocation σ)} {values : List (FieldValue σ)}
    {st : OperationState σ} {i : Invocation σ} {v : Settled} :
    (i, v) ∈ calls.zip (FieldValue.abandonItems values) → e.schema.Lacks i.type v →
    Meets e ⟨past, remaining, .passed levels w g calls values, st⟩

theorem Moment.Known.not_meets {e : Engine σ} {m : Moment σ} (K : m.Known e.schema) :
    ¬ e.Meets m := by
  intro h
  cases h with
  | field mem other missing =>
    rcases (K.point _ mem).cases with name | ⟨d, found, -⟩
    · exact other name
    · rw [missing] at found
      cases found
  | type mem lacks =>
    obtain ⟨T, found⟩ := (K.point _ (List.of_mem_zip mem).1).type
    exact e.schema.not_lacks found _ lacks

namespace Engine

variable {e : Engine σ} {caller : Caller} {rules : Rules σ} {base : Nat} {spec : SchemaSpec}
  {m m' : Moment σ}

/-- The calls of a wave have types that are there. -/
theorem prepare_known (built : Schema.build spec = .ok e.schema) {g : Graph} {tasks : List Task}
    (known : ∀ t ∈ tasks, t.Known e.schema) :
    ∀ i ∈ (e.prepare caller g tasks).2, i.Known e.schema := by
  intro i hi
  obtain ⟨t, ht, -, calls⟩ := (prepare_calls g tasks).2.1 i hi
  obtain ⟨d, found, type, -⟩ := calls.defined
  refine ⟨type ▸ Schema.fieldType_of_build built found, ?_⟩
  rcases (known t ht).cases with name | ⟨d', found', subs⟩
  · exact absurd name calls.named
  · cases found.symm.trans found'
    rw [calls.field, type]
    exact subs

/-- The tasks that a wave leaves are for fields that were selected on known types. -/
theorem completeWave_known (built : Schema.build spec = .ok e.schema)
    {calls : List (Invocation σ)} (known : ∀ i ∈ calls, i.Known e.schema) {g : Graph}
    {values : List Settled} : ∀ t ∈ (e.completeWave g calls values).2, t.Known e.schema := by
  intro t ht
  obtain ⟨i, hi, under⟩ := completeWave_beneath ht
  obtain ⟨T, found, parent⟩ := under.type
  rw [Task.Known, parent, Schema.name_of_build built found]
  exact (known i hi).selected _ under.selected

theorem Step.known (built : Schema.build spec = .ok e.schema) (h : e.Step caller rules base m m')
    (K : m.Known e.schema) : m'.Known e.schema := by
  cases h with
  | next =>
    exact ⟨fun ts hts => K.remaining ts (List.mem_cons_of_mem _ hts),
      K.remaining _ List.mem_cons_self⟩
  | prepare =>
    refine ⟨K.remaining, fun i hi => ?_⟩
    rw [List.map_map] at hi
    exact prepare_known built K.point i (by simpa using hi)
  | resolve => exact ⟨K.remaining, fun i hi => K.point i (Invocation.fst_pollAll _ _ ▸ hi)⟩
  | complete => exact ⟨K.remaining, completeWave_known built K.point⟩
  | collect | pass | take | fetch | fetched => exact ⟨K.remaining, K.point⟩
  | stop => exact ⟨K.remaining, trivial⟩

theorem Pause.known {s : Schema} (h : Pause rules m m') (K : m.Known s) : m'.Known s := by
  cases h with
  | resolving rescheduled =>
    exact ⟨K.remaining, fun i hi => K.point i (rescheduled.map_fst ▸ hi)⟩
  | fetching => exact ⟨K.remaining, K.point⟩

/-- All that is at work is known, wherever an operation has come to. -/
theorem Reaches.known (built : Schema.build spec = .ok e.schema)
    (reached : e.Reaches caller rules base m m') (K : m.Known e.schema) : m'.Known e.schema := by
  induction reached with
  | refl => exact K
  | tail _ h ih => exact h.elim (fun step => step.known built ih) fun pause => pause.known ih

/-- An operation that preflight accepts begins with known fields, unless it hides one. -/
theorem From.known {r : Request} {rootType : String} {g : Graph} {runs : List (List Task)}
    {st : OperationState σ} (built : Schema.build spec = .ok e.schema)
    (checked : e.preflight r = .ok rootType) (h : e.From r base g runs)
    (event : base = 1 → r.kind = .subscription) (shown : ¬ r.Hides e.schema) :
    (Moment.initial g runs st).Known e.schema := by
  obtain ⟨root, -, known⟩ := preflight_ok checked
  refine ⟨?_, fun _ mem => absurd mem List.not_mem_nil⟩
  cases h with
  | request found =>
    cases root.symm.trans found
    have all : ∀ t ∈ (Engine.runs r.kind rootType r.fields).flatten, t.Known e.schema := by
      intro t ht
      rw [flatten_runs] at ht
      obtain ⟨f, hf, rfl⟩ := List.mem_map.mp ht
      exact known f hf
    exact fun ts hts t ht => all t (List.mem_flatten.mpr ⟨ts, hts, ht⟩)
  | @event _ field d v found single defined =>
    cases root.symm.trans found
    have subs : ∀ sub ∈ field.subfields, sub.Known e.schema d.type.innermost := by
      rcases (known field (single ▸ List.mem_singleton_self field)).cases with
        name | ⟨d', defined', subs⟩
      · -- beneath `__typename` nothing was checked, so a field there is known or hidden
        refine fun sub mem => Classical.byContradiction fun unknown => shown ?_
        exact ⟨event rfl, rootType, field, d, root, single, name, defined, sub, mem, unknown⟩
      · cases defined.symm.trans defined'
        exact subs
    intro ts hts t ht
    rw [List.mem_singleton.mp hts] at ht
    have under := (completeValue_laid _ _ _ _ _).beneath t ht
    obtain ⟨T, type, parent⟩ := under.type
    rw [Task.Known, parent, Schema.name_of_build built type]
    exact subs _ under.selected

/-- What starts was accepted, and only subscriptions have events. -/
theorem Starts.checked {r : Request} {st₀ : OperationState σ} {start : Polled σ × OperationState σ}
    (h : e.Starts r caller base st₀ start) :
    (∃ rootType, e.preflight r = .ok rootType) ∧ (base = 1 → r.kind = .subscription) := by
  cases h with
  | request started =>
    unfold execute at started
    split at started
    · cases started
    · split at started
      · cases started
      · next rootType checked => exact ⟨⟨rootType, checked⟩, nofun⟩
  | event streams =>
    obtain ⟨plan, planned, -⟩ := streams.planned
    obtain ⟨-, kind, checked, -⟩ := planSubscription_ok planned
    exact ⟨⟨_, checked⟩, fun _ => kind⟩

/-- The root field of a subscription that was accepted is found, unless it is the field of the type's
name. -/
theorem typename_of_planSubscription {r : Request} {rootType typeName fieldName : String}
    (checked : e.preflight r = .ok rootType)
    (refused : e.planSubscription r caller = .error (.unresolvedField typeName fieldName)) :
    fieldName = typenameField := by
  obtain ⟨-, -, known⟩ := preflight_ok checked
  unfold planSubscription at refused
  rw [checked] at refused
  split at refused
  · cases refused
  · simp only at refused
    split at refused
    · next field fields =>
      split at refused
      · next missing =>
        cases refused
        rcases (known field (fields ▸ List.mem_singleton_self field)).cases with
          name | ⟨d, found, -⟩
        · exact name
        · rw [missing] at found
          cases found
      · split at refused
        · split at refused <;> cases refused
        · cases refused
    · cases refused

end Engine

/-- Validation, preflight and execution agree on the schema.  Preflight accepts what validation
accepts.  In the execution of what preflight accepts, at every moment that a query, a mutation or an
event of a subscription comes to, no wave comes upon a field and no value upon a type that the schema
does not have, unless the subscription hides a field beneath a declared root field named `__typename`;
the root field of every event is found, with its type.  What preflight refuses is refused whatever the
state is, and none comes of it. -/
theorem preflight_guards {spec : SchemaSpec} {e : Engine σ}
    (built : Schema.build spec = .ok e.schema) (r : Request) (caller : Caller) :
    (∀ query name supplied, e.validate query name supplied = .ok r → ∃ rootType,
      e.preflight r = .ok rootType ∧ e.schema.root? r.kind = some rootType ∧
        r.depth ≤ e.settings.maxQueryDepth ∧ (∀ f ∈ r.fields, f.Known e.schema rootType) ∧
        ¬ r.Hides e.schema) ∧
    (∀ {base st₀ start}, e.Starts r caller base st₀ start →
      ∃ g runs, e.From r base g runs ∧ start = e.begin caller g runs st₀ ∧
        (∀ m, e.Reaches caller .free base (.initial g runs st₀) m → e.Meets m →
          r.Hides e.schema) ∧
        ∀ {log p}, e.Course caller .free st₀ start log p → ∃ m,
          e.Reaches caller .free base (.initial g runs st₀) m ∧ m.Stands p ∧ m.log = log) ∧
    (∀ s, e.Streams r caller s → ∃ d, e.schema.field? s.rootType s.field.name = some d ∧
      (∀ v, ¬ e.schema.Lacks d.type v) ∧
      ∀ event w, ∃ start, e.executeEvent s event w = .ok start) ∧
    (∀ rootType, e.preflight r = .ok rootType →
      (r.kind ≠ .subscription → ∀ st, ∃ start, e.execute r caller st = .ok start) ∧
      ∀ typeName fieldName,
        e.planSubscription r caller = .error (.unresolvedField typeName fieldName) →
          fieldName = typenameField) ∧
    ∀ fault, e.preflight r = .error fault →
      (∀ st, e.execute r caller st =
        .error (if r.kind = .subscription then .notExecutable else fault : ExecutionError).response) ∧
      e.planSubscription r caller =
        .error (if r.kind = .subscription then fault else .notASubscription) := by
  refine ⟨fun query name supplied validated => ?_, fun starts => ?_, fun s streams => ?_,
    fun rootType checked => ⟨fun executable st => ?_, fun _ _ refused =>
      Engine.typename_of_planSubscription checked refused⟩, fun fault refused => ⟨fun st => ?_, ?_⟩⟩
  · have valid := Engine.validate_valid validated
    obtain ⟨rootType, -, checked⟩ := Engine.preflight_of_valid valid
    obtain ⟨root, shallow, known⟩ := Engine.preflight_ok checked
    exact ⟨rootType, checked, root, shallow, known, valid.not_hides⟩
  · obtain ⟨⟨rootType, checked⟩, event⟩ := starts.checked
    obtain ⟨g, runs, from_, rfl⟩ := starts.from
    refine ⟨g, runs, from_, rfl, fun m reached meets => ?_, fun course => course.reaches⟩
    refine Classical.byContradiction fun shown => ?_
    exact (reached.known built (from_.known built checked event shown)).not_meets meets
  · obtain ⟨plan, planned, -, root, field, -⟩ := streams.planned
    obtain ⟨-, -, -, -, d, found, -⟩ := Engine.planSubscription_ok planned
    rw [← root, ← field] at found
    obtain ⟨T, type⟩ := Schema.fieldType_of_build built found
    refine ⟨d, found, fun v => e.schema.not_lacks type v, fun event w => ?_⟩
    rw [Engine.executeEvent, found]
    exact ⟨_, rfl⟩
  · rw [Engine.execute, if_neg executable, checked]
    exact ⟨_, rfl⟩
  · rw [Engine.execute, refused]
    split <;> rfl
  · rw [Engine.planSubscription, refused]
    by_cases kind : r.kind = .subscription <;> simp [kind]

/-! ## Lists of objects -/

namespace Notes

def spec : SchemaSpec where
  declarations := [
    .object "Query" [.of "notes" (.list (.nonNull (.named "Note")))],
    .object "Note" [.of "text" (.named "String")],
    .object "Subscription" [.of "__typename" (.named "Note")]]
  queryRoot := none
  mutationRoot := none
  subscriptionRoot := none

def schema : Schema :=
  ⟨⟨[("Int", ⟨"Int", .scalar .int⟩), ("Float", ⟨"Float", .scalar .float⟩),
      ("String", ⟨"String", .scalar .string⟩), ("Boolean", ⟨"Boolean", .scalar .boolean⟩),
      ("ID", ⟨"ID", .scalar .id⟩),
      ("Query", ⟨"Query", .object [("notes", .of "notes" (.list (.nonNull (.named "Note"))))]⟩),
      ("Note", ⟨"Note", .object [("text", .of "text" (.named "String"))]⟩),
      ("Subscription", ⟨"Subscription", .object [("__typename", .of "__typename" (.named "Note"))]⟩)],
      by decide⟩,
    "Query", none, some "Subscription"⟩

def engine : Engine Unit :=
  ⟨schema,
    ⟨[(⟨"Query", "notes"⟩, .field
        ⟨fun _ => 0, fun _ s => (.ok (.value (.arr [.obj [("text", .str "news")]])), s)⟩),
      (⟨"Note", "text"⟩, .field .property)]⟩,
    [], .default⟩

/-- The request `{ notes { … } }` for a field of each note. -/
def request (field : String) : Request :=
  ⟨none, .query, [⟨none, "notes", [], [⟨none, field, [], []⟩]⟩]⟩

/-- The request `subscription { __typename { title } }`. -/
def hidden : Request :=
  ⟨none, .subscription, [⟨none, "__typename", [], [⟨none, "title", [], []⟩]⟩]⟩

abbrev begun : OperationState Unit := ⟨0, engine.coordinator, .start default ()⟩

theorem built : Schema.build spec = .ok schema := by rfl

/-- What is asked for a note must be a field of notes. -/
theorem preflight_guards_notes :
    engine.execute (request "title") Sample.caller begun =
      .error ⟨none, [⟨"Cannot query field 'title' on type 'Note'", [], .unresolvedField⟩]⟩ ∧
    ∃ start, engine.execute (request "text") Sample.caller begun = .ok start ∧
      ∃ g runs, start = engine.begin Sample.caller g runs begun ∧
        ∀ m, engine.Reaches Sample.caller .free 0 (.initial g runs begun) m → ¬ engine.Meets m := by
  have refused : engine.preflight (request "title") = .error (.unresolvedField "Note" "title") := by
    cbv
  have checked : engine.preflight (request "text") = .ok "Query" := by cbv
  obtain ⟨-, -, -, -, guard⟩ :=
    preflight_guards (e := engine) built (request "title") Sample.caller
  obtain ⟨-, starts, -, accepted, -⟩ :=
    preflight_guards (e := engine) built (request "text") Sample.caller
  obtain ⟨start, started⟩ := (accepted _ checked).1 (by decide) begun
  obtain ⟨g, runs, -, begun, known, -⟩ := starts (.request started)
  refine ⟨(guard _ refused).1 _, start, started, g, runs, begun, fun m reached meets => ?_⟩
  exact absurd (known m reached meets).1 (by decide)

/-- Preflight does not see what is hidden. -/
example : engine.preflight hidden = .ok "Subscription" := by cbv

end Notes

end GraphQLEngine
