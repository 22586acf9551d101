import GraphQLEngine.Proofs.Graph.Endings
import GraphQLEngine.Proofs.Graph.Tree
import GraphQLEngine.Proofs.Loads.Plans
import GraphQLEngine.Proofs.Requests.Selection
import GraphQLEngine.Proofs.Responses.Streams

/-!
# Depth-first execution

The recursive evaluator resolves a field, follows the plan of its value with the answer of each load
at hand, completes the value by its type, and goes on with the selections of an object in their
order.  None stands for a null that its place excludes, which makes the place above it null.

    evalField e caller plans answers T v f      the field `f` of an object of type `T` on `v`
    Closed.data_eq_eval                         a complete graph holds what the evaluator gives

The engine works wave by wave instead, on a graph in which a null may arrive late and from any depth.
For a node that is nulled the cause of its null is followed downwards to a place where the evaluator
has none too; for one that is not, all of its children are there.
-/

namespace GraphQLEngine

open FieldValue (Outcome)

variable {σ : Type}

/-! ## Engines that follow plans -/

/-- The resolvers of an engine follow plans that depend on the call alone, and its loaders answer
each key alike in every batch. -/
structure Engine.Follows (e : Engine σ) (plans : FieldKey → FieldCall → Plan)
    (answers : Nat → LoadKey → Answer) : Prop where
  resolvers : ∀ {key : FieldKey} {resolver : Resolver σ} (call : FieldCall) (s : Scope σ),
    e.dispatch.resolverFor key = .ok resolver → Realizes (resolver.value call s) (plans key call)
  loaders : ∀ {n : Nat} {loader : Loader σ} {keys : List LoadKey} {key : LoadKey} (store : σ),
    e.loaders.lookup n = some loader → key ∈ keys →
      LoaderState.answerOf loader.name key (loader.fetch keys store).1 = answers n key
  missing : ∀ {n : Nat} (key : LoadKey), e.loaders.lookup n = none →
    answers n key = .error (.internal ("Loader " ++ toString n ++ " is not registered"))

theorem Engine.Follows.answersBy {e : Engine σ} {plans : FieldKey → FieldCall → Plan}
    {answers : Nat → LoadKey → Answer} (h : e.Follows plans answers) :
    e.AnswersBy fun n key a => a = answers n key :=
  ⟨fun store found mem => h.loaders store found mem, fun key none => (h.missing key none).symm⟩

/-! ## The evaluator -/

section

variable (e : Engine σ) (caller : Caller) (plans : FieldKey → FieldCall → Plan)
  (answers : Nat → LoadKey → Answer)

/-- The value of a field before it is completed: the field is refused, or its plan is followed. -/
def resolved (typeName : String) (v : Json) (f : RequestField) (d : FieldDefinition) : Settled :=
  match e.refusal caller typeName f.name d with
  | some fault => .error fault
  | none => (plans ⟨typeName, f.name⟩ (caller.call typeName v f d)).run answers

/-- What is at a place for a value, none being null: none if the place excludes null. -/
def placed (nonNull : Bool) : Option Json → Option Json
  | some v => some v
  | none => if nonNull then none else some .null

mutual

/-- Execute a field of an object. -/
def evalField (typeName : String) (v : Json) (f : RequestField) : Option Json :=
  if f.name = typenameField then some (.str typeName)
  else
    match e.schema.field? typeName f.name with
    | none => some .null
    | some d =>
      placed d.type.isNonNull
        (evalValue f d.type (resolved e caller plans answers typeName v f d))
termination_by (sizeOf f, 1, 0, 0, 0)

/-- Execute the selected fields of an object in their order. -/
def evalFields (typeName : String) (v : Json) :
    List RequestField → Option (List (String × Json))
  | [] => some []
  | f :: fs =>
    match evalField typeName v f, evalFields typeName v fs with
    | some x, some xs => some ((f.outputName, x) :: xs)
    | _, _ => none
termination_by fs => (sizeOf fs, 2, 0, 0, 0)

/-- Complete a value by its type; none if it is null or fails. -/
def evalValue (f : RequestField) (t : TypeRef) (w : Settled) : Option Json :=
  match _h : judge e.schema f.name t w with
  | .leaf v => some v
  | .object typeName v => (evalFields typeName v f.subfields).map .obj
  | .list item items => (evalItems f item items).map .arr
  | _ => none
termination_by (sizeOf f, 0, sizeOf t, 0, 0)
decreasing_by
  · apply Prod.Lex.left
    cases f
    simp only [RequestField.mk.sizeOf_spec]
    omega
  · exact .right _ (.right _ (.left _ _ (sizeOf_lt_of_nullable (judge_eq_list _h).1)))

/-- Complete the items of a list by their type. -/
def evalItems (f : RequestField) (t : TypeRef) : List Settled → Option (List Json)
  | [] => some []
  | w :: ws =>
    match placed t.isNonNull (evalValue f t w), evalItems f t ws with
    | some x, some xs => some (x :: xs)
    | _, _ => none
termination_by ws => (sizeOf f, 0, sizeOf t, 1, ws.length)

end

/-- What the evaluator makes of a verdict on a field. -/
def Verdict.eval (f : RequestField) : Verdict → Option Json
  | .leaf v => some v
  | .object typeName v => (evalFields e caller plans answers typeName v f.subfields).map .obj
  | .list item items => (evalItems e caller plans answers f item items).map .arr
  | .given t w =>
    match f.subfields with
    | [sub] =>
      (placed t.isNonNull (evalValue e caller plans answers sub t w)).map
        fun x => .obj [(sub.outputName, x)]
    | _ => none
  | .failed _ | .null => none

end

section

variable {e : Engine σ} {caller : Caller} {plans : FieldKey → FieldCall → Plan}
  {answers : Nat → LoadKey → Answer}

theorem evalValue_eq (f : RequestField) (t : TypeRef) (w : Settled) :
    evalValue e caller plans answers f t w =
      (judge e.schema f.name t w).eval e caller plans answers f := by
  rw [evalValue]
  split
  · next h => rw [h]; rfl
  · next h => rw [h]; rfl
  · next h => rw [h]; rfl
  · next notLeaf notObject notList =>
    cases h : judge e.schema f.name t w with
    | failed fault => rfl
    | null => rfl
    | leaf v => exact absurd h (notLeaf v)
    | object typeName v => exact absurd h (notObject typeName v)
    | list item items => exact absurd h (notList item items)
    | given u v => exact absurd h judge_ne_given

/-- What resolvers give is what their plans come to. -/
theorem Engine.Follows.gives_eq (F : e.Follows plans answers) {typeName : String} {v : Json}
    {f : RequestField} {d : FieldDefinition} {w : Settled}
    (h : e.gives caller (fun n key a => a = answers n key) typeName v f d w) :
    w = (plans ⟨typeName, f.name⟩ (caller.call typeName v f d)).run answers := by
  obtain ⟨resolver, s, found, outcome⟩ := h
  exact Plan.run_eq id _ (F.resolvers _ s found) outcome

/-- The evaluator executes a field to what it makes of the verdict on it. -/
theorem evalField_eq (F : e.Follows plans answers) {typeName : String} {v : Json}
    {f : RequestField} {W : Verdict}
    (h : Resolved e caller (e.gives caller fun n key a => a = answers n key) typeName v f W) :
    evalField e caller plans answers typeName v f =
      placed (e.schema.excludesNull typeName f) (W.eval e caller plans answers f) := by
  rw [evalField, Schema.excludesNull]
  cases h with
  | typename name => rw [if_pos name]; rfl
  | unknown fault name unknown => rw [if_neg name, if_neg name, unknown]; rfl
  | refused d fault name found refused =>
    rw [if_neg name, if_neg name, found]
    simp only [resolved, refused]
    rw [evalValue_eq]
    rfl
  | given d w name found granted given =>
    rw [if_neg name, if_neg name, found]
    simp only [resolved, granted]
    rw [evalValue_eq, F.gives_eq given]

theorem Resolved.ne_given {gives : Gives} {typeName : String} {v : Json} {f : RequestField}
    {W : Verdict} (h : Resolved e caller gives typeName v f W) {t : TypeRef} {w : Settled} :
    W ≠ .given t w := by
  cases h with
  | given d w => exact judge_ne_given
  | _ => nofun

/-! ## Nulls -/

theorem evalFields_none {typeName : String} {v : Json} {f : RequestField}
    {fields : List RequestField} (mem : f ∈ fields)
    (h : evalField e caller plans answers typeName v f = none) :
    evalFields e caller plans answers typeName v fields = none := by
  induction fields with
  | nil => cases mem
  | cons f' fs ih =>
    rw [evalFields]
    rcases List.mem_cons.mp mem with rfl | mem
    · rw [h]
    · rw [ih mem]
      split
      · next h' => cases h'
      · rfl

theorem evalItems_none {f : RequestField} {t : TypeRef} {w : Settled} {items : List Settled}
    (mem : w ∈ items) (h : placed t.isNonNull (evalValue e caller plans answers f t w) = none) :
    evalItems e caller plans answers f t items = none := by
  induction items with
  | nil => cases mem
  | cons w' ws ih =>
    rw [evalItems]
    rcases List.mem_cons.mp mem with rfl | mem
    · rw [h]
    · rw [ih mem]
      split
      · next h' => cases h'
      · rfl

variable {g : Graph} {pos : Nat → Entry} {due : Nat → List PathSegment} {whole : Entry}

namespace Closed

/-- Where a node is null the evaluator has none. -/
theorem eval_of_null (F : e.Follows plans answers)
    (C : Closed e caller (e.gives caller fun n key a => a = answers n key) whole g pos due)
    {n : Nat} (lt : n < g.size) (isNull : g.content? n = some .null) {V : Verdict}
    (hV : (pos n).verdict = some V) : V.eval e caller plans answers (pos n).field = none := by
  induction hk : g.size - n using Nat.strongRecOn generalizing n V with
  | ind k ih =>
    obtain ⟨x, hx⟩ := Graph.exists_node lt
    rw [Graph.content?_eq, hx, Option.map_some, Option.some.injEq] at isNull
    rcases C.toNulls.cause hx isNull with sole | ⟨c, y, hy, hp, nonNull, isNull'⟩
    · rw [hV] at sole
      cases V with
      | failed fault => rfl
      | null => rfl
      | _ => cases sole
    · obtain ⟨ltc, V', key, allowed, hV', path, -, slot, fits⟩ := C.toPlaced.beneath hy hp
      cases hV.symm.trans hV'
      have size := Graph.lt_size hy
      obtain ⟨W, hW⟩ := Option.ne_none_iff_exists'.mp (C.decided size)
      have null : g.content? c = some .null := by
        rw [Graph.content?_eq, hy, Option.map_some, isNull']
      have none := ih (g.size - c) (by omega) size null hW rfl
      have allowedW := fits W hW
      generalize y.nonNull = b at slot nonNull
      generalize (pos c).field = f at slot none
      cases slot with
      | @field typeName v _ mem =>
        have h : evalField e caller plans answers typeName v f = .none := by
          rw [evalField_eq F allowedW, none, nonNull]
          rfl
        rw [Verdict.eval, evalFields_none mem h]
        rfl
      | @item t items i w hw =>
        have h : placed t.isNonNull
            (evalValue e caller plans answers (pos n).field t w) = .none := by
          rw [evalValue_eq, ← allowedW, none, nonNull]
          rfl
        rw [Verdict.eval, evalItems_none (List.mem_of_getElem? hw) h]
        rfl
      | @given t w _ single =>
        rw [Verdict.eval, single]
        simp only
        rw [evalValue_eq, ← allowedW, none, nonNull]
        rfl

/-- What the evaluator has for the place of a child is its value, if so it is for a child that is
not nulled. -/
theorem eval_of_child (F : e.Follows plans answers)
    (C : Closed e caller (e.gives caller fun n key a => a = answers n key) whole g pos due)
    {n c : Nat} {key : PathSegment} {f : RequestField} {b : Bool} {allowed : Verdict → Prop}
    (up : g.isNulled n = false) (child : Child g pos n c key f b allowed) {W : Verdict}
    (hW : (pos c).verdict = some W)
    (free : g.isNulled c = false → W.eval e caller plans answers f = some (g.toJson c)) :
    placed b (W.eval e caller plans answers f) = some (g.toJson c) := by
  by_cases isNull : g.content? c = some .null
  · rw [← child.field, C.eval_of_null F child.lt_size isNull hW,
      child.nullable C.toNulls up isNull, Graph.toJson_null isNull]
    rfl
  · rw [free (child.free up isNull)]
    rfl

theorem evalFields_of_children {n : Nat} {typeName : String} {v : Json}
    {fields : List RequestField} {entries : OrderedMap Nat} {b : RequestField → Bool}
    {allowed : RequestField → Verdict → Prop}
    (children : List.Forall₂ (fun sub entry => entry.1 = sub.outputName ∧
      Child g pos n entry.2 (.field sub.outputName) sub (b sub) (allowed sub)) fields entries)
    (each : ∀ sub c, Child g pos n c (.field sub.outputName) sub (b sub) (allowed sub) →
      evalField e caller plans answers typeName v sub = some (g.toJson c)) :
    evalFields e caller plans answers typeName v fields =
      some (entries.map fun entry => (entry.1, g.toJson entry.2)) := by
  induction children with
  | nil => rw [evalFields]; rfl
  | cons h _ ih =>
    obtain ⟨name, child⟩ := h
    rw [evalFields, each _ _ child, ih, List.map_cons, name]

theorem evalItems_of_children {n : Nat} {f : RequestField} {t : TypeRef} {items : List Settled}
    {ids : List Nat}
    (children : List.Forall₂ (fun w c => ∃ i, Child g pos n c (.index i) f t.isNonNull
      (· = judge e.schema f.name t w)) items ids)
    (each : ∀ w c i, Child g pos n c (.index i) f t.isNonNull (· = judge e.schema f.name t w) →
      placed t.isNonNull (evalValue e caller plans answers f t w) = some (g.toJson c)) :
    evalItems e caller plans answers f t items = some (ids.map g.toJson) := by
  induction children with
  | nil => rw [evalItems]; rfl
  | cons h _ ih =>
    obtain ⟨i, child⟩ := h
    rw [evalItems, each _ _ _ child, ih, List.map_cons]

/-- For a node that is not nulled the evaluator has its value. -/
theorem eval_of_free (F : e.Follows plans answers)
    (C : Closed e caller (e.gives caller fun n key a => a = answers n key) whole g pos due)
    {n : Nat} (lt : n < g.size) (free : g.isNulled n = false) {V : Verdict}
    (hV : (pos n).verdict = some V) (notGiven : ∀ t w, V ≠ .given t w) :
    V.eval e caller plans answers (pos n).field = some (g.toJson n) := by
  induction hk : g.size - n using Nat.strongRecOn generalizing n V with
  | ind k ih =>
    have below : ∀ {c key f b allowed W}, Child g pos n c key f b allowed →
        (pos c).verdict = some W → (∀ t w, W ≠ .given t w) →
        placed b (W.eval e caller plans answers f) = some (g.toJson c) := by
      intro c key f b allowed W child hW notGiven
      have gt := child.lt
      have size := child.lt_size
      refine C.eval_of_child F free child hW fun freeC => ?_
      rw [← child.field]
      exact ih (g.size - c) (by omega) size freeC hW notGiven rfl
    cases V with
    | failed fault =>
      exact absurd (C.null_of_sole lt (by rw [hV]; trivial)) (C.content?_ne_null lt free)
    | null => exact absurd (C.null_of_sole lt (by rw [hV]; trivial)) (C.content?_ne_null lt free)
    | leaf v => rw [Graph.toJson_leaf (C.leafOf lt free hV)]; rfl
    | object typeName v =>
      obtain ⟨entries, shown, children⟩ := C.object lt free hV
      rw [shown, Verdict.eval, evalFields_of_children children fun sub c child => by
        obtain ⟨W, hW, resolved⟩ := child.verdict
        rw [evalField_eq F resolved]
        exact below child hW fun _ _ => resolved.ne_given]
      rfl
    | list item items =>
      obtain ⟨ids, shown, children⟩ := C.list lt free hV
      rw [shown, Verdict.eval, evalItems_of_children children fun w c i child => by
        obtain ⟨W, hW, rfl⟩ := child.verdict
        rw [evalValue_eq]
        exact below child hW fun _ _ => judge_ne_given]
      rfl
    | given t w => exact absurd rfl (notGiven t w)

/-- The data of an operation's graph is what the evaluator makes of the root fields. -/
theorem data_eq_eval (F : e.Follows plans answers) {rootType : String} {v : Json}
    {fields : List RequestField}
    (C : Closed e caller (e.gives caller fun n key a => a = answers n key)
      ⟨[], .whole fields, some (.object rootType v)⟩ g pos due) :
    g.data = (evalFields e caller plans answers rootType v fields).map .obj := by
  have lt := C.toPlaced.size_pos
  have hV : (pos 0).verdict = some (.object rootType v) := by rw [C.entry]
  by_cases isNull : g.content? 0 = some .null
  · have none := C.eval_of_null F lt isNull hV
    rw [C.entry] at none
    rw [Graph.data_null isNull]
    exact none.symm
  · obtain ⟨free, -⟩ := C.free_of_data (Graph.data_eq isNull)
    have some := C.eval_of_free F lt free hV (fun _ _ => nofun)
    rw [C.entry] at some
    rw [Graph.data_eq isNull]
    exact some.symm

/-- The data of an event's graph is what the evaluator makes of the value of its field. -/
theorem data_eq_eval_event (F : e.Follows plans answers) {f : RequestField} {t : TypeRef}
    {w : Settled}
    (C : Closed e caller (e.gives caller fun n key a => a = answers n key)
      ⟨[], .whole [f], some (.given t w)⟩ g pos due) :
    g.data = (placed t.isNonNull (evalValue e caller plans answers f t w)).map
      fun x => .obj [(f.outputName, x)] := by
  have lt := C.toPlaced.size_pos
  have hV : (pos 0).verdict = some (.given t w) := by rw [C.entry]
  by_cases isNull : g.content? 0 = some .null
  · have none := C.eval_of_null F lt isNull hV
    rw [C.entry] at none
    rw [Graph.data_null isNull]
    exact none.symm
  · obtain ⟨free, -⟩ := C.free_of_data (Graph.data_eq isNull)
    have single : (pos 0).field.subfields = [f] := by rw [C.entry]; rfl
    obtain ⟨c, shown, child⟩ := C.given lt free hV single
    obtain ⟨W, hW, eq⟩ := child.verdict
    have value := C.eval_of_child F free child hW fun freeC => by
      rw [← child.field]
      exact C.eval_of_free F child.lt_size freeC hW fun _ _ => eq ▸ judge_ne_given
    rw [Graph.data_eq isNull, shown, evalValue_eq, ← eq, value]
    rfl

end Closed

end

/-! ## Answers -/

/-- Wave-by-wave execution gives the data of depth-first execution.  When resolvers follow plans and
loaders answer each key alike, every validated query or mutation is executed, its execution ends, and
the data is what the evaluator makes of its root fields; and so it is with the events of a
subscription. -/
theorem data_depthFirst {e : Engine σ} {plans : FieldKey → FieldCall → Plan}
    {answers : Nat → LoadKey → Answer} (follows : e.Follows plans answers) {document : Document}
    {name : Option String} {supplied : OrderedMap Json} {r : Request}
    (validated : Request.ofDocument e.schema (some e.settings.maxQueryDepth) document name supplied =
      .ok r) (caller : Caller) :
    ∃ rootType, e.schema.root? r.kind = some rootType ∧
      (r.kind ≠ .subscription → ∀ operation w, ∃ start,
        e.execute r caller ⟨operation, e.coordinator, w⟩ = .ok start ∧ e.Ends caller start) ∧
      (∀ g, e.Executes r caller g →
        g.data = (evalFields e caller plans answers rootType .null r.fields).map .obj) ∧
      (∀ plan operation w w₀ s event w', e.planSubscription r caller = .ok plan →
        e.register plan operation w = (.ok s, w₀) →
        ∃ start, e.executeEvent s event w' = .ok start ∧ e.Ends caller start) ∧
      ∀ plan event g, e.Handles r caller plan event g →
        ∃ d, e.schema.field? rootType plan.field.name = some d ∧
          g.data = (placed d.type.isNonNull
            (evalValue e caller plans answers plan.field d.type (plan.resolver.value event))).map
              fun x => .obj [(plan.field.outputName, x)] := by
  have valid := Request.ofDocument_valid validated
  obtain ⟨rootType, root, sound⟩ := valid.root
  refine ⟨rootType, root, ?_, ?_, ?_, ?_⟩
  · intro kind operation w
    obtain ⟨rootType', -, checked⟩ := Engine.preflight_of_valid valid
    rw [Engine.execute, if_neg kind, checked]
    exact ⟨_, rfl, Engine.begin_ends _ _ _⟩
  · intro g executed
    obtain ⟨rootType', pos, due, root', C⟩ := executed.closed follows.answersBy sound.distinct
    cases root.symm.trans root'
    exact C.data_eq_eval follows
  · intro plan operation w w₀ s event w' planned registered
    obtain ⟨hcaller, -, -, -, d, found, -⟩ := Engine.planSubscription_ok planned
    obtain ⟨scaller, hroot, field, -⟩ := Engine.register_ok registered
    rw [← hroot, ← field] at found
    rw [Engine.executeEvent, found, ← hcaller, ← scaller]
    exact ⟨_, rfl, Engine.begin_ends _ _ _⟩
  · intro plan event g handled
    obtain ⟨d, pos, due, -, root', found, C⟩ := handled.closed follows.answersBy sound.distinct
    cases root.symm.trans root'
    exact ⟨d, found, C.data_eq_eval_event follows⟩

/-- What the loaders of the engine with one field answer. -/
def Sample.answers (answer : Answer) (n : Nat) (_ : LoadKey) : Answer :=
  if n = 0 then answer
  else .error (.internal ("Loader " ++ toString n ++ " is not registered"))

theorem Sample.follows (answer : Answer) :
    (engine answer).Follows (fun _ _ => .load 0 (.integer 1) .value) (answers answer) where
  resolvers {key resolver} call s found := by
    have only : key = ⟨"Query", "size"⟩ := by
      by_contra other
      have none : (engine answer).dispatch.find? key = none := by
        simp [engine, DispatchTable.find?, List.lookup_cons, beq_eq_false_iff_ne.mpr other]
      rw [DispatchTable.resolverFor, none] at found
      cases found
    subst only
    cases found
    exact .load fun v s => .value v
  loaders {n l keys key} store found mem := by
    cases n with
    | zero =>
      cases found
      have known : ∀ keys : List LoadKey, key ∈ keys →
          (keys.map fun key => (key, answer)).lookup key = some answer := by
        intro keys mem
        induction keys with
        | nil => cases mem
        | cons k rest ih =>
          by_cases same : key = k
          · simp [same]
          · simp [List.lookup_cons, beq_eq_false_iff_ne.mpr same,
              ih ((List.mem_cons.mp mem).resolve_left same)]
      simp [LoaderState.answerOf, loader, known keys mem, answers]
    | succ n => cases found
  missing {n} key none := by
    cases n with
    | zero => cases none
    | succ n => rfl

theorem data_depthFirst_size :
    ∃ e : Engine Unit, e.Follows (fun _ _ => .load 0 (.integer 1) .value)
        (Sample.answers (.ok (.int 2))) ∧
      ∃ g, e.Executes Sample.request Sample.caller g ∧
        g.data = some (.obj [("size", .int 2)]) ∧
        g.data = (evalFields e Sample.caller (fun _ _ => .load 0 (.integer 1) .value)
          (Sample.answers (.ok (.int 2))) "Query" .null Sample.request.fields).map .obj := by
  refine ⟨_, Sample.follows _, ?_⟩
  obtain ⟨rootType, root, -, executed, -⟩ :=
    data_depthFirst (Sample.follows (.ok (.int 2))) (Sample.validated _) Sample.caller
  cases root
  obtain ⟨g, run, eq⟩ := Sample.executes_ok
  exact ⟨g, run, congrArg Response.data eq, executed g run⟩

end GraphQLEngine
