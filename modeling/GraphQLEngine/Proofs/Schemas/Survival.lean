import GraphQLEngine.Engine.Subscribe
import GraphQLEngine.Proofs.Requests.Selection
import GraphQLEngine.Proofs.Schemas.Rereading
import Mathlib

/-!
# What a schema does that was read back

A schema that was read back from its encoding has lost the defaults that are null.  Validation depends
on them where an argument must not be null: there an omitted argument, which the schema supplied with
null, is missing.  Elsewhere they only decide whether a resolver is given null or nothing.

    ofDocument s.reread … = ofDocument s … or error (missingArgument a …), where s forgets a
    prepare e.reread … = prepare e …, the omitted arguments that are null by default left out
-/

namespace GraphQLEngine

/-- A schema declares null for the default of an argument that must not be null. -/
def Schema.Forgets (s : Schema) (argument : String) : Prop :=
  ∃ a, (argument, a) ∈ s.arguments ∧ a.type.isNonNull = true ∧ a.default = some .null

theorem SchemaType.mem_arguments {t : SchemaType} {name : String} {d : FieldDefinition}
    (found : (t.fields?.bind fun fields => fields.lookup name) = some d)
    {entry : String × ArgumentDefinition} (mem : entry ∈ d.arguments) : entry ∈ t.arguments := by
  obtain ⟨fields, object, lookup⟩ := Option.bind_eq_some_iff.mp found
  rw [arguments, object]
  exact List.mem_flatMap.mpr ⟨(name, d), mem_of_lookup lookup, mem⟩

theorem Schema.mem_arguments {s : Schema} {name : String} {t : SchemaType}
    (found : s.type? name = some t) {entry : String × ArgumentDefinition}
    (mem : entry ∈ t.arguments) : entry ∈ s.arguments :=
  List.mem_flatMap.mpr ⟨t, List.mem_map_of_mem (mem_of_lookup found), mem⟩

namespace Request

/-! ## Outcomes of validation -/

/-- The second outcome is the first, or the want of an argument of which the schema forgets the
default. -/
def Stricter {α : Type} (s : Schema) (x x' : Except ValidationError α) : Prop :=
  x' = x ∨ ∃ argument position, s.Forgets argument ∧ x' = .error (.missingArgument argument position)

section

variable {s : Schema} {α β : Type}

theorem Stricter.refl (x : Except ValidationError α) : Stricter s x x := .inl rfl

theorem Stricter.bind {x x' : Except ValidationError α} {f f' : α → Except ValidationError β}
    (first : Stricter s x x') (rest : ∀ a, x = .ok a → Stricter s (f a) (f' a)) :
    Stricter s (x >>= f) (x' >>= f') := by
  rcases first with eq | ⟨argument, position, forgets, rfl⟩
  · rw [eq]
    cases x with
    | error fault => exact .inl rfl
    | ok a => exact rest a rfl
  · exact .inr ⟨argument, position, forgets, rfl⟩

end

/-! ## Arguments -/

theorem acceptsNamed_reread (s : Schema) : s.reread.acceptsNamed = s.acceptsNamed := by
  funext name value
  unfold Schema.acceptsNamed
  rw [Schema.type?_reread]
  cases s.type? name with
  | none => rfl
  | some t =>
    obtain ⟨typeName, kind⟩ := t
    cases kind with
    | scalar kind => cases kind <;> rfl
    | enumeration | object => rfl

theorem checkValue_reread (s : Schema) (argument : String) (position : Position) :
    ∀ type, checkValue s.reread argument position type = checkValue s argument position type
  | .list item | .nonNull (.list item) => by
    have items := checkValue_reread s argument position item
    funext value
    cases value <;> simp only [checkValue, items]
  | .named _ | .nonNull (.named _) | .nonNull (.nonNull _) => by
    funext value
    cases value <;> simp only [checkValue, acceptsNamed_reread]

theorem checkDeclared_reread {s : Schema} (bindings : Variables) (position : Position)
    {definitions : OrderedMap ArgumentDefinition} (declared : ∀ entry ∈ definitions, entry ∈ s.arguments)
    (supplied : OrderedMap Argument) :
    Stricter s (checkDeclared s bindings position definitions supplied)
      (checkDeclared s.reread bindings position
        (definitions.map fun (name, a) => (name, a.reread)) supplied) := by
  induction definitions generalizing supplied with
  | nil => exact .inl rfl
  | cons entry rest ih =>
    obtain ⟨name, a⟩ := entry
    obtain ⟨here, others⟩ := List.forall_mem_cons.mp declared
    rw [List.map_cons]
    unfold checkDeclared
    cases supplied.lookup name with
    | some given =>
      refine .bind (.refl _) fun value _ => ?_
      have same : checkValue s.reread name given.position a.reread.type value =
        checkValue s name given.position a.type value := by
        rw [checkValue_reread]
        rfl
      simp only [same]
      exact .bind (.refl _) fun _ _ => .bind (ih others _) fun _ _ => .refl _
    | none =>
      by_cases forgotten : a.type.isNonNull = true ∧ a.default = some .null
      · obtain ⟨required, null⟩ := forgotten
        refine .inr ⟨name, position, ⟨a, here, required, null⟩, if_pos ?_⟩
        have lost : a.reread.default = none := by rw [ArgumentDefinition.reread, null]; rfl
        rw [lost, Bool.and_eq_true]
        exact ⟨required, rfl⟩
      · have same : (a.reread.type.isNonNull && a.reread.default.isNone) =
            (a.type.isNonNull && a.default.isNone) := by
          by_cases required : a.type.isNonNull = true
          · rw [a.reread_eq_iff.mpr fun null => forgotten ⟨required, null⟩]
          · have : a.reread.type.isNonNull = a.type.isNonNull := rfl
            simp [this, required]
        simp only [same]
        split
        · exact .refl _
        · exact ih others supplied

theorem checkArguments_reread {s : Schema} (bindings : Variables) (head : FieldHead)
    {definitions : OrderedMap ArgumentDefinition}
    (declared : ∀ entry ∈ definitions, entry ∈ s.arguments) :
    Stricter s (checkArguments s bindings head definitions)
      (checkArguments s.reread bindings head (definitions.map fun (name, a) => (name, a.reread))) :=
  .bind (checkDeclared_reread bindings head.position declared _) fun _ _ => .refl _

/-! ## Selections -/

/-- The scope with the schema that was read back. -/
def Scope.reread (scope : Scope) : Scope := { scope with schema := scope.schema.reread }

theorem Scope.resolveField_reread (scope : Scope) (container : SchemaType) (head : FieldHead)
    (selections : List Selection) :
    scope.reread.resolveField container.reread head selections =
      (scope.resolveField container head selections).map fun (d, t) => (d.reread, t.reread) := by
  have field := container.field?_reread head.name
  unfold Scope.resolveField
  rw [field]
  cases container.fields?.bind (·.lookup head.name) with
  | none => rfl
  | some d =>
    have type : scope.reread.schema.type? d.reread.type.innermost =
      (scope.schema.type? d.type.innermost).map SchemaType.reread := scope.schema.type?_reread _
    simp only [Option.map_some, type]
    cases scope.schema.type? d.type.innermost with
    | none => rfl
    | some t =>
      simp only [Option.map_some, t.isLeaf_reread]
      cases t.isLeaf <;> cases selections.isEmpty <;> rfl

/-- What is selected on a type of the schema is selected on what the type is read back as. -/
theorem Scope.compares_reread (scope : Scope) : scope.Compares (fun _ => Stricter scope.schema)
    (fun c c' => c' = c.reread ∧ ∃ typeName, scope.schema.type? typeName = some c)
    scope.reread where
  comparison := ⟨.refl, .bind⟩
  bindings := rfl
  fragments := rfl
  name := fun ⟨same, _⟩ => same ▸ rfl
  field := by
    rintro container _ depth path head selections ⟨rfl, typeName, found⟩ beneath
    rw [Scope.validateField, Scope.validateField]
    have allowed : scope.reread.allowsDepth depth = scope.allowsDepth depth := rfl
    rw [allowed]
    split
    · exact .refl _
    · split
      · exact .refl _
      · rw [Scope.resolveField_reread]
        cases resolved : scope.resolveField container head selections with
        | error fault => exact .refl _
        | ok found' =>
          obtain ⟨d, type⟩ := found'
          obtain ⟨hd, htype⟩ := Scope.resolveField_ok resolved
          have declared : ∀ entry ∈ d.arguments, entry ∈ scope.schema.arguments := fun _ mem =>
            Schema.mem_arguments found (SchemaType.mem_arguments hd mem)
          change Stricter _ (scope.collect type (depth + 1) path [] selections >>= _)
            (scope.reread.collect type.reread (depth + 1) path [] selections >>= _)
          exact .bind (beneath ⟨rfl, _, htype⟩) fun _ _ =>
            .bind (checkArguments_reread scope.bindings head declared) fun _ _ => .refl _

/-! ## Documents -/

theorem ofOperation_reread (s : Schema) (fragments : List Fragment) (limit : Option Nat)
    (supplied : OrderedMap Json) (name : Option String) (o : Operation) :
    Stricter s (ofOperation s fragments limit supplied name o)
      (ofOperation s.reread fragments limit supplied name o) := by
  have root : (s.reread.root? o.kind).bind s.reread.type? =
      ((s.root? o.kind).bind s.type?).map SchemaType.reread := by
    rw [s.root?_reread]
    cases s.root? o.kind with
    | none => rfl
    | some rootType => exact s.type?_reread rootType
  unfold ofOperation
  rw [root]
  cases found : (s.root? o.kind).bind s.type? with
  | none => exact .refl _
  | some container =>
    obtain ⟨rootType, -, typed⟩ := Option.bind_eq_some_iff.mp found
    exact .bind (.refl _) fun bindings _ =>
      .bind ((Scope.compares_reread ⟨s, bindings, fragments, limit⟩).collect ⟨rfl, _, typed⟩ 1 [] []
        o.selections) fun _ _ => .refl _

theorem ofDocument_reread (s : Schema) (limit : Option Nat) (document : Document)
    (name : Option String) (supplied : OrderedMap Json) :
    Stricter s (ofDocument s limit document name supplied)
      (ofDocument s.reread limit document name supplied) :=
  .bind (.refl _) fun (name, o) _ => ofOperation_reread s document.fragments limit supplied name o

end Request

/-! ## Calls -/

/-- The default that stands in for an argument that was not supplied. -/
def ArgumentDefinition.standIn? (supplied : OrderedMap Json) (entry : String × ArgumentDefinition) :
    Option (String × Json) :=
  if supplied.has entry.1 then none else entry.2.default.map fun v => (entry.1, v)

open ArgumentDefinition (standIn?)

theorem standIn_append {supplied : OrderedMap Json} {name : String} {v : Json}
    {entry : String × ArgumentDefinition} (ne : entry.1 ≠ name) :
    standIn? (supplied ++ [(name, v)]) entry = standIn? supplied entry := by
  have : OrderedMap.has (supplied ++ [(name, v)]) entry.1 = OrderedMap.has supplied entry.1 := by
    rw [OrderedMap.has, OrderedMap.has, List.lookup_append, List.lookup_cons,
      beq_eq_false_iff_ne.mpr ne]
    simp
  rw [standIn?, standIn?, this]

/-- The supplied arguments come first, and then the defaults of the others. -/
theorem Caller.arguments_call (caller : Caller) (typeName : String) (parent : Json)
    (field : RequestField) {d : FieldDefinition} (distinct : (d.arguments.map Prod.fst).Nodup) :
    (caller.call typeName parent field d).arguments =
      field.arguments ++ d.arguments.filterMap (standIn? field.arguments) := by
  have fill : ∀ (definitions : OrderedMap ArgumentDefinition) (supplied : OrderedMap Json),
      (definitions.map Prod.fst).Nodup →
      (caller.call typeName parent { field with arguments := supplied }
        { d with arguments := definitions }).arguments =
      supplied ++ definitions.filterMap (standIn? supplied) := by
    intro definitions
    induction definitions with
    | nil => exact fun supplied _ => (List.append_nil supplied).symm
    | cons entry rest ih =>
      intro supplied distinct
      obtain ⟨name, ⟨_, _, default⟩⟩ := entry
      obtain ⟨fresh, others⟩ := List.nodup_cons.mp distinct
      rw [List.filterMap_cons, standIn?]
      cases default with
      | none =>
        refine (ih supplied others).trans ?_
        simp
      | some v =>
        refine (ih (if OrderedMap.has supplied name then supplied else
          OrderedMap.insert supplied name v) others).trans ?_
        by_cases given : OrderedMap.has supplied name = true
        · simp [given]
        · have new : name ∉ supplied.map Prod.fst := by
            rw [OrderedMap.has, Bool.not_eq_true, Option.isSome_eq_false_iff, Option.isNone_iff_eq_none,
              List.lookup_eq_none_iff] at given
            intro mem
            obtain ⟨other, mem, same⟩ := List.mem_map.mp mem
            simpa [same] using given other mem
          have same : rest.filterMap (standIn? (supplied ++ [(name, v)])) =
              rest.filterMap (standIn? supplied) :=
            List.filterMap_congr fun other mem => standIn_append fun same =>
              fresh (same ▸ List.mem_map.mpr ⟨other, mem, rfl⟩)
          simp [given, OrderedMap.insert_of_fresh supplied v new, same]
  exact fill d.arguments field.arguments distinct

/-- An argument that was supplied, or whose default is not null. -/
def RequestField.keeps (field : RequestField) (argument : String × Json) : Bool :=
  OrderedMap.has field.arguments argument.1 || !argument.2.isNull

/-- The call of a field without the arguments that were not supplied and whose default is null. -/
def FieldCall.reread (field : RequestField) (call : FieldCall) : FieldCall :=
  { call with arguments := call.arguments.filter field.keeps }

theorem standIn_reread (field : RequestField) (entry : String × ArgumentDefinition) :
    standIn? field.arguments (entry.1, entry.2.reread) =
      (standIn? field.arguments entry).filter field.keeps := by
  unfold standIn? RequestField.keeps
  cases given : OrderedMap.has field.arguments entry.1 with
  | true => rfl
  | false =>
    unfold ArgumentDefinition.reread
    cases entry.2.default with
    | none => rfl
    | some v => cases null : v.isNull <;> simp [Option.filter, given, null]

theorem RequestField.keeps_supplied {field : RequestField} {argument : String × Json}
    (mem : argument ∈ field.arguments) : field.keeps argument = true := by
  have : OrderedMap.has field.arguments argument.1 = true := by
    rw [OrderedMap.has]
    cases given : field.arguments.lookup argument.1 with
    | some => rfl
    | none => simpa using List.lookup_eq_none_iff.mp given argument mem
  rw [keeps, this, Bool.true_or]

theorem Caller.call_reread (caller : Caller) (typeName : String) (parent : Json)
    (field : RequestField) {d : FieldDefinition} (distinct : (d.arguments.map Prod.fst).Nodup) :
    caller.call typeName parent field d.reread =
      (caller.call typeName parent field d).reread field := by
  have distinct' : (d.reread.arguments.map Prod.fst).Nodup := by
    rw [FieldDefinition.reread, List.map_map]
    exact distinct
  have supplied : field.arguments.filter field.keeps = field.arguments :=
    List.filter_eq_self.mpr fun _ mem => RequestField.keeps_supplied mem
  have standIns : d.reread.arguments.filterMap (standIn? field.arguments) =
      (d.arguments.filterMap (standIn? field.arguments)).filter field.keeps := by
    rw [FieldDefinition.reread, List.filterMap_map, List.filter_filterMap]
    exact List.filterMap_congr fun entry _ => standIn_reread field entry
  have arguments : (caller.call typeName parent field d.reread).arguments =
      ((caller.call typeName parent field d).reread field).arguments := by
    rw [caller.arguments_call typeName parent field distinct', standIns, FieldCall.reread,
      caller.arguments_call typeName parent field distinct, List.filter_append, supplied]
  have same : caller.call typeName parent field d.reread =
      { caller.call typeName parent field d with
        arguments := (caller.call typeName parent field d.reread).arguments } := rfl
  rw [same, arguments]
  rfl

/-! ## Engines -/

/-- In every field of the schema each argument is declared once. -/
def Schema.NamesArgumentsOnce (s : Schema) : Prop :=
  ∀ typeName fieldName d, s.field? typeName fieldName = some d → (d.arguments.map Prod.fst).Nodup

theorem Schema.namesArgumentsOnce {s : Schema}
    (all : ∀ entry ∈ s.types.entries, ∀ field ∈ entry.2.fields?.getD [],
      (field.2.arguments.map Prod.fst).Nodup) : s.NamesArgumentsOnce := by
  intro typeName fieldName d found
  obtain ⟨fields, object, lookup⟩ := Option.bind_eq_some_iff.mp found
  obtain ⟨t, type, isObject⟩ := Option.bind_eq_some_iff.mp object
  have all := all _ (mem_of_lookup type)
  rw [isObject] at all
  exact all _ (mem_of_lookup lookup)

/-- The engine with the schema that was read back. -/
def Engine.reread {σ : Type} (e : Engine σ) : Engine σ := { e with schema := e.schema.reread }

/-- The invocation with the call as it is made for the schema that was read back. -/
def Invocation.reread {σ : Type} (i : Invocation σ) : Invocation σ :=
  { i with call := i.call.reread i.field }

def SubscriptionPlan.reread {σ : Type} (p : SubscriptionPlan σ) : SubscriptionPlan σ :=
  { p with call := p.call.reread p.field }

namespace Engine

variable {σ : Type} {e : Engine σ}

theorem prepareTask_reread (once : e.schema.NamesArgumentsOnce) (caller : Caller) (g : Graph)
    (t : Task) : e.reread.prepareTask caller g t =
      ((e.prepareTask caller g t).1, (e.prepareTask caller g t).2.map Invocation.reread) := by
  have field : e.reread.schema.field? t.parentType t.field.name =
    (e.schema.field? t.parentType t.field.name).map FieldDefinition.reread :=
    e.schema.field?_reread _ _
  unfold prepareTask
  split
  · rfl
  · split
    · rfl
    · rw [field]
      cases found : e.schema.field? t.parentType t.field.name with
      | none => rfl
      | some d =>
        have call := caller.call_reread t.parentType t.parentValue t.field (once _ _ d found)
        have type : d.reread.type = d.type := rfl
        have access : d.reread.access = d.access := rfl
        have dispatch : e.reread.dispatch = e.dispatch := rfl
        simp only [Option.map_some, call, type, access, dispatch]
        split
        · split <;> rfl
        · rfl

theorem prepare_reread (once : e.schema.NamesArgumentsOnce) (caller : Caller) (g : Graph)
    (tasks : List Task) : e.reread.prepare caller g tasks =
      ((e.prepare caller g tasks).1, (e.prepare caller g tasks).2.map Invocation.reread) := by
  induction tasks generalizing g with
  | nil => rfl
  | cons t ts ih =>
    rw [prepare, prepare, prepareTask_reread once, ih, List.map_append]
    cases (e.prepareTask caller g t).2 <;> rfl

mutual

theorem checkField_reread (s : Schema) (typeName : String) :
    ∀ f : RequestField, checkField s.reread typeName f = checkField s typeName f
  | ⟨alias?, name, arguments, subfields⟩ => by
    rw [checkField, checkField, s.field?_reread]
    cases s.field? typeName name with
    | none => rfl
    | some d => simp only [Option.map_some, FieldDefinition.reread, checkFields_reread s _ subfields]

theorem checkFields_reread (s : Schema) (typeName : String) :
    ∀ fs : List RequestField, checkFields s.reread typeName fs = checkFields s typeName fs
  | [] => by rw [checkFields, checkFields]
  | f :: fs => by
    rw [checkFields, checkFields, checkField_reread s typeName f, checkFields_reread s typeName fs]

end

/-- A request is accepted or refused as before. -/
theorem preflight_reread (e : Engine σ) (r : Request) : e.reread.preflight r = e.preflight r := by
  have settings : e.reread.settings = e.settings := rfl
  have schema : e.reread.schema = e.schema.reread := rfl
  simp only [preflight, settings, schema, checkFields_reread, Schema.root?_reread]

theorem planSubscription_reread (once : e.schema.NamesArgumentsOnce) (r : Request) (caller : Caller) :
    e.reread.planSubscription r caller =
      (e.planSubscription r caller).map SubscriptionPlan.reread := by
  unfold planSubscription
  rw [preflight_reread]
  split
  · rfl
  · split
    · rfl
    · next rootType _ =>
      split
      · next field _ =>
        have field' : e.reread.schema.field? rootType field.name =
          (e.schema.field? rootType field.name).map FieldDefinition.reread :=
          e.schema.field?_reread _ _
        rw [field']
        cases found : e.schema.field? rootType field.name with
        | none => rfl
        | some d =>
          have call := caller.call_reread rootType .null field (once _ _ d found)
          have access : d.reread.access = d.access := rfl
          have dispatch : e.reread.dispatch = e.dispatch := rfl
          simp only [Option.map_some, call, access, dispatch]
          split
          · split <;> rfl
          · rfl
      · rfl

end Engine

/-! ## The contract -/

/-- A schema is read back from its encoding with its types in their order, its roots, and all its
fields and arguments, except that a default of null is lost.  So a document is validated with the same
result, unless it omits an argument that must not be null and has null for its default, which is then
missing; every request is accepted as before; and every resolver is called as before, behind the same
access rule, except that no omitted argument is null by default. -/
theorem survives_encoding {σ : Type} (s : Schema) (once : s.NamesArgumentsOnce) :
    Schema.ofJson? s.toJson = some s.reread ∧
    (s.reread = s ↔ ∀ entry ∈ s.arguments, entry.2.default ≠ some .null) ∧
    (∀ limit document name supplied, Request.Stricter s
      (Request.ofDocument s limit document name supplied)
      (Request.ofDocument s.reread limit document name supplied)) ∧
    ∀ e : Engine σ, e.schema = s → ∀ caller,
      (∀ g tasks, e.reread.prepare caller g tasks =
        ((e.prepare caller g tasks).1, (e.prepare caller g tasks).2.map Invocation.reread)) ∧
      ∀ r, e.reread.preflight r = e.preflight r ∧
        e.reread.planSubscription r caller =
          (e.planSubscription r caller).map SubscriptionPlan.reread := by
  refine ⟨s.ofJson_toJson, s.reread_eq_iff, Request.ofDocument_reread s, ?_⟩
  rintro e rfl caller
  exact ⟨Engine.prepare_reread once caller, fun r =>
    ⟨e.preflight_reread r, Engine.planSubscription_reread once r caller⟩⟩

/-! ## A page of null -/

namespace Page

/-- The field `page(size: Int! = null, after: Int = null, order: Int = 1)`. -/
def page : FieldDefinition :=
  (((FieldDefinition.of "page" (.named "Int")).withArgument
      ⟨"size", .nonNull (.named "Int"), some .null⟩).withArgument
    ⟨"after", .named "Int", some .null⟩).withArgument ⟨"order", .named "Int", some (.int 1)⟩

def schema : Schema :=
  ⟨⟨[("Int", ⟨"Int", .scalar .int⟩), ("Query", ⟨"Query", .object [("page", page)]⟩)], by decide⟩,
    "Query", none, none⟩

/-- The selection of `page` with the given arguments. -/
def document (arguments : List Argument) : Document :=
  ⟨.anonymous ⟨.nowhere, .query, [], [], [.field ⟨.nowhere, none, "page", arguments, []⟩ []]⟩, []⟩

def request (arguments : OrderedMap Json) : Request :=
  ⟨none, .query, [⟨none, "page", arguments, []⟩]⟩

def five : Argument := ⟨"size", .nowhere, .number (.int 5)⟩

def engine : Engine Unit :=
  ⟨schema, ⟨[(⟨"Query", "page"⟩, .field .property)]⟩, [], .default⟩

/-- The arguments that the resolver is given for `{ page(size: 5) }`. -/
def handed (e : Engine Unit) : List (OrderedMap Json) :=
  (e.prepare ⟨.anonymous, []⟩ .new
    [⟨Graph.root, "Query", .null, ⟨none, "page", [("size", .int 5)], []⟩, []⟩]).2.map (·.call.arguments)

theorem once : schema.NamesArgumentsOnce := Schema.namesArgumentsOnce (by decide)

theorem survives_encoding_page :
    Schema.ofJson? schema.toJson = some schema.reread ∧ schema.reread ≠ schema ∧
    Request.ofDocument schema none (document []) none [] = .ok (request []) ∧
    Request.ofDocument schema.reread none (document []) none [] =
      .error (.missingArgument "size" .nowhere) ∧
    Request.ofDocument schema.reread none (document [five]) none [] = .ok (request [("size", .int 5)]) ∧
    handed engine = [[("size", .int 5), ("after", .null), ("order", .int 1)]] ∧
    handed engine.reread = [[("size", .int 5), ("order", .int 1)]] := by
  obtain ⟨read, same, -, calls⟩ := survives_encoding (σ := Unit) schema once
  refine ⟨read, fun h => ?_, by cbv, by cbv, by cbv, by cbv, ?_⟩
  · refine same.mp h ("size", ⟨"size", .nonNull (.named "Int"), some .null⟩) ?_ rfl
    exact List.mem_flatMap.mpr ⟨_, List.mem_cons_of_mem _ List.mem_cons_self,
      List.mem_flatMap.mpr ⟨_, List.mem_cons_self, List.mem_cons_self⟩⟩
  · rw [handed, (calls engine rfl ⟨.anonymous, []⟩).1]
    cbv

end Page

end GraphQLEngine
