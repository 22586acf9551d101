import GraphQLEngine.Proofs.Waves.Logs
import GraphQLEngine.Proofs.Waves.Operations

/-!
# Invoked resolvers are granted

A query or mutation, and an event beneath its root field, invokes the resolvers that its log names;
the set-up of a subscription and its events invoke the resolver of the root field.  All these are
for fields that the schema has and the identity of the caller may see: each call of a wave is made
behind that check, what is at work stays the same until the wave is over, and a stream is only
planned behind that check.

    Engine.Invokes e r caller key
-/

namespace GraphQLEngine

variable {σ : Type}

/-- A field of the schema that an identity may see. -/
def Engine.Grants (e : Engine σ) (i : Identity) (key : FieldKey) : Prop :=
  ∃ d, e.schema.field? key.typeName key.fieldName = some d ∧ i.satisfies d.access = true

/-- The fields whose resolvers are invoked on behalf of a request, in whatever state it is executed
or subscribed to, and whatever changes while it is suspended. -/
inductive Engine.Invokes (e : Engine σ) (r : Request) (caller : Caller) : FieldKey → Prop
  /-- A resolver is started by a query or mutation, or beneath the root field of an event. -/
  | field {base : Nat} {st₀ : OperationState σ} {start p : Polled σ × OperationState σ}
    {log : List LogEntry} {typeName fieldName : String} {path : Path} :
    e.Starts r caller base st₀ start → e.Course caller .free st₀ start log p →
      .resolverStarted typeName fieldName path ∈ log → Invokes e r caller ⟨typeName, fieldName⟩
  /-- A planned subscription asks its resolver where to listen. -/
  | setUp {plan : SubscriptionPlan σ} : e.planSubscription r caller = .ok plan →
    Invokes e r caller ⟨plan.rootType, plan.field.name⟩
  /-- A stream asks the resolver for the value of an event. -/
  | event {s : SubscriptionStream σ} : e.Streams r caller s →
    Invokes e r caller ⟨s.rootType, s.field.name⟩

/-! ## What waves start -/

/-- The entry is not for a resolver that the identity is denied. -/
def LogEntry.Granted (e : Engine σ) (i : Identity) : LogEntry → Prop
  | .resolverStarted typeName fieldName _ | .resolverReturned typeName fieldName _ =>
    e.Grants i ⟨typeName, fieldName⟩
  | .fetchStarted .. | .fetchReturned .. => True

def Invocation.Granted (e : Engine σ) (i : Identity) (c : Invocation σ) : Prop :=
  e.Grants i ⟨c.call.typeName, c.call.fieldName⟩

def Point.Granted (e : Engine σ) (i : Identity) : Point σ → Prop
  | .resolving _ _ _ calls => ∀ c ∈ calls.map Prod.fst, c.Granted e i
  | _ => True

structure Moment.Granted (e : Engine σ) (i : Identity) (m : Moment σ) : Prop where
  waves : ∀ w ∈ m.waves, ∀ x ∈ w.log, x.Granted e i
  point : m.point.Granted e i

theorem LogEntry.granted_of_isFetch {e : Engine σ} {i : Identity} {x : LogEntry}
    (h : x.isFetch = true) : x.Granted e i := by
  cases x with
  | fetchStarted | fetchReturned => trivial
  | resolverStarted | resolverReturned => cases h

/-- The wave at work goes on, and does more. -/
theorem Moment.Granted.onward {e : Engine σ} {i : Identity} {past : List (Wave σ)}
    {remaining : List (List Task)} {point point' : Point σ} {st st' : OperationState σ}
    (G : Moment.Granted e i ⟨past, remaining, point, st⟩) {w w' : Wave σ}
    {new : List LogEntry} (wave : point.wave? = some w) (wave' : point'.wave? = some w')
    (log : w'.log = w.log ++ new) (granted : ∀ x ∈ new, x.Granted e i)
    (next : point'.Granted e i) : Moment.Granted e i ⟨past, remaining, point', st'⟩ where
  waves v hv x hx := by
    rw [Moment.waves, wave'] at hv
    rcases List.mem_append.mp hv with hv | hv
    · exact G.waves v (List.mem_append_left _ hv) x hx
    · rw [List.mem_singleton.mp hv, log] at hx
      refine (List.mem_append.mp hx).elim (G.waves w (List.mem_append_right _ ?_) x) (granted x)
      rw [wave]
      exact List.mem_singleton_self w
  point := next

namespace Engine

variable {e : Engine σ} {caller : Caller} {rules : Rules σ} {base : Nat} {m m' : Moment σ}

theorem prepare_granted (g : Graph) (tasks : List Task) :
    ∀ c ∈ (e.prepare caller g tasks).2, c.Granted e caller.identity := by
  intro c hc
  obtain ⟨t, -, -, calls⟩ := (prepare_calls g tasks).2.1 c hc
  obtain ⟨d, found, -, access, call⟩ := calls.defined
  rw [Invocation.Granted, call]
  exact ⟨d, found, access⟩

theorem Step.granted (h : e.Step caller rules base m m') (G : m.Granted e caller.identity) :
    m'.Granted e caller.identity := by
  have nothing : ∀ x ∈ ([] : List LogEntry), x.Granted e caller.identity := fun _ h => nomatch h
  cases h with
  | next => exact ⟨G.waves, trivial⟩
  | prepare =>
    refine ⟨fun w hw x hx => ?_, fun c hc => ?_⟩
    · rcases List.mem_append.mp hw with hw | hw
      · exact G.waves w (List.mem_append_left _ hw) x hx
      · rw [List.mem_singleton.mp hw] at hx
        cases hx
    · rw [List.map_map] at hc
      exact prepare_granted _ _ c (by simpa using hc)
  | resolve =>
    refine G.onward rfl rfl rfl (fun x hx => ?_) fun c hc => ?_
    · obtain ⟨c, among, eq⟩ := (Invocation.pollAll_polls _ _).entries x hx
      rcases eq with rfl | rfl
      · exact G.point c among
      · exact G.point c among
    · exact G.point c (Invocation.fst_pollAll _ _ ▸ hc)
  | collect => exact G.onward rfl rfl (List.append_nil _).symm nothing trivial
  | pass => exact G.onward rfl rfl (List.append_nil _).symm nothing trivial
  | take => exact G.onward rfl rfl (List.append_nil _).symm nothing trivial
  | fetch =>
    refine G.onward rfl rfl rfl (fun x hx => ?_) trivial
    exact LogEntry.granted_of_isFetch (since_pollBatches _ _ x hx)
  | fetched => exact G.onward rfl rfl (List.append_nil _).symm nothing trivial
  | complete =>
    refine ⟨fun w hw => G.waves w ?_, trivial⟩
    simpa [Moment.waves, Point.wave?] using hw
  | stop => exact ⟨G.waves, trivial⟩

theorem Pause.granted (h : Pause rules m m') {i : Identity} (G : m.Granted e i) :
    m'.Granted e i := by
  have nothing : ∀ x ∈ ([] : List LogEntry), x.Granted e i := fun _ h => nomatch h
  cases h with
  | resolving rescheduled =>
    refine G.onward rfl rfl (List.append_nil _).symm nothing fun c hc => ?_
    exact G.point c (rescheduled.map_fst ▸ hc)
  | fetching => exact G.onward rfl rfl (List.append_nil _).symm nothing trivial

/-- All that is started is granted, wherever an operation has come to. -/
theorem Reaches.granted (reached : e.Reaches caller rules base m m')
    (G : m.Granted e caller.identity) : m'.Granted e caller.identity := by
  induction reached with
  | refl => exact G
  | tail _ h ih => exact h.elim (fun step => step.granted ih) fun pause => pause.granted ih

/-- The log of an operation names granted resolvers only. -/
theorem Course.granted {g : Graph} {runs : List (List Task)} {st₀ : OperationState σ}
    {log : List LogEntry} {p : Polled σ × OperationState σ}
    (course : e.Course caller rules st₀ (e.begin caller g runs st₀) log p) :
    ∀ x ∈ log, x.Granted e caller.identity := by
  obtain ⟨m, reached, -, own⟩ : ∃ m, e.Reaches caller rules 0 (.initial g runs st₀) m ∧ _ :=
    course.reaches
  intro x hx
  rw [← own] at hx
  obtain ⟨w, hw, hx⟩ := List.mem_flatMap.mp hx
  exact (reached.granted ⟨(fun _ h => nomatch h), trivial⟩).waves w hw x hx

/-- The identity satisfies the access rule of every field whose resolver is invoked for it. -/
theorem Invokes.granted {r : Request} {key : FieldKey} (h : e.Invokes r caller key) :
    e.Grants caller.identity key := by
  have planned : ∀ {plan}, e.planSubscription r caller = .ok plan →
      e.Grants caller.identity ⟨plan.rootType, plan.field.name⟩ := by
    intro plan planned
    obtain ⟨-, -, -, -, granted⟩ := planSubscription_ok planned
    exact granted
  cases h with
  | field starts course mem =>
    obtain ⟨g, runs, -, rfl⟩ := starts.from
    exact course.granted _ mem
  | setUp ok => exact planned ok
  | event streams =>
    obtain ⟨plan, ok, -, root, field, -⟩ := streams.planned
    rw [root, field]
    exact planned ok

end Engine

end GraphQLEngine
