import GraphQLEngine.Proofs.Requests.Arguments
import GraphQLEngine.Proofs.Requests.Values
import GraphQLEngine.Proofs.Responses.Accounting
import GraphQLEngine.Proofs.Responses.Conformance

/-!
# Answers as arguments

What an engine answers for a field of a scalar or an enum, or of lists of them, is accepted as a
variable for every argument of the same type, and the resolver is given the same value.

    Conforms s f t v  →  checkValue s name position t (Const.ofJson v) = .ok ()

Both sides take a type apart in the same way: null is judged first, then a list item by item, and
all else by the scalar or enum inside.
-/

namespace GraphQLEngine

/-! ## Leaves -/

theorem SchemaType.Holds.isLeaf {T : SchemaType} {v : Json} (h : T.Holds v) : T.isLeaf = true := by
  obtain ⟨_, kind⟩ := T
  cases kind with
  | object fields => exact h.elim
  | scalar | enumeration => rfl

/-- The value of a leaf is one that is accepted for its type. -/
theorem SchemaType.Holds.fits {T : SchemaType} {v : Json} (h : T.Holds v) :
    T.kind.Fits (Const.ofJson v) := by
  obtain ⟨_, kind⟩ := T
  cases kind with
  | object fields => exact h.elim
  | enumeration values =>
    obtain ⟨text, mem, rfl⟩ := h
    exact .text mem
  | scalar kind =>
    cases kind with
    | int =>
      obtain ⟨n, low, high, rfl⟩ := h
      exact .int low high
    | float =>
      obtain ⟨n, rfl⟩ := h
      exact .float n
    | string =>
      obtain ⟨text, rfl⟩ := h
      exact .string text
    | boolean =>
      obtain ⟨b, rfl⟩ := h
      exact .boolean b
    | id =>
      obtain ⟨text, rfl⟩ := h
      exact .idText text
    | custom => exact .custom _

namespace Request

section

variable {s : Schema} {name : String} {position : Position} {t : TypeRef} {c : Const}

theorem checkValue_null (nullable : t.isNonNull = false) :
    checkValue s name position t .null = .ok () := by
  cases t with
  | nonNull => cases nullable
  | named | list => simp only [checkValue]

theorem checkValue_items {item : TypeRef} (list : t.nullable = .list item) (cs : List Const) :
    checkValue s name position t (.list cs) = cs.forM (checkValue s name position item) := by
  cases t with
  | named => cases list
  | list =>
    cases list
    simp only [checkValue]
  | nonNull =>
    cases list
    simp only [checkValue]

theorem checkValue_single (notList : t.nullable.isList = false) (present : c ≠ .null)
    (accepted : s.acceptsNamed t.innermost c = true) : checkValue s name position t c = .ok () := by
  have named {t : TypeRef} (accepted : s.acceptsNamed t.innermost c = true) :
      (if s.acceptsNamed t.innermost c then .ok () else
        .error (.argumentType name t.render c.form position) : Except ValidationError Unit) = .ok () :=
    if_pos accepted
  cases t with
  | list => cases notList
  | named n =>
    cases c with
    | null => exact absurd rfl present
    | _ => exact named accepted
  | nonNull inner =>
    cases inner with
    | list => cases notList
    | named | nonNull =>
      cases c with
      | null => exact absurd rfl present
      | _ => exact named accepted

/-- A value that an answer has for a type of leaves is accepted as an argument of the type. -/
theorem checkValue_of_conforms {f : RequestField} {t : TypeRef} {v : Json} (h : Conforms s f t v)
    {T : SchemaType} (found : s.type? t.innermost = some T) (leaf : T.isLeaf = true) :
    checkValue s name position t (Const.ofJson v) = .ok () := by
  cases h with
  | null nullable => exact checkValue_null nullable
  | leaf notList found' holds notNull =>
    refine checkValue_single notList (fun null => ?_) (acceptsNamed_of_fits found' holds.fits)
    cases v <;> cases null
    exact notNull rfl
  | list isList items =>
    rw [Const.ofJson, checkValue_items isList, Const.itemsOfJson_eq]
    refine forM_ok_iff.mpr fun c mem => ?_
    obtain ⟨w, item, rfl⟩ := List.mem_map.mp mem
    have smaller := sizeOf_lt_of_nullable isList
    exact checkValue_of_conforms (items w item) (TypeRef.innermost_of_nullable isList ▸ found) leaf
  | object _ found' composite =>
    cases found.symm.trans found'
    cases leaf.symm.trans composite
termination_by sizeOf t

end

/-! ## Arguments -/

section

variable {schema : Schema} {bindings : Variables} {head : FieldHead}
  {definitions : OrderedMap ArgumentDefinition} {name : String} {a : ArgumentDefinition}

/-- Where the argument of a name passes, the arguments are accepted exactly if the others pass. -/
theorem checkArguments_iff_others (distinct : (definitions.map Prod.fst).Nodup)
    (declared : (name, a) ∈ definitions)
    (passes : Passes schema bindings name a (lastNamed? head.arguments name)) :
    (∃ args, checkArguments schema bindings head definitions = .ok args) ↔
      (∀ entry ∈ definitions, entry.1 ≠ name →
        Passes schema bindings entry.1 entry.2 (lastNamed? head.arguments entry.1)) ∧
      ∀ b ∈ head.arguments, b.name ∈ definitions.map Prod.fst := by
  simp only [checkArguments_passes_iff distinct]
  constructor
  · rintro ⟨_, all, known, -⟩
    exact ⟨fun entry mem _ => all entry mem, known⟩
  · rintro ⟨others, known⟩
    refine ⟨_, ?_, known, rfl⟩
    rintro ⟨n, d⟩ mem
    by_cases same : n = name
    · subst same
      cases (lookup_of_mem distinct mem).symm.trans (lookup_of_mem distinct declared)
      exact passes
    · exact others (n, d) mem same

/-- A variable that is supplied has the supplied value. -/
theorem lookup_variableValues {supplied : OrderedMap Json} {declared : List VariableDefinition}
    (bound : variableValues supplied declared = .ok bindings) {x : String}
    (there : ∃ w ∈ declared, w.name = x) {v : Json} (given : supplied.lookup x = some v) :
    bindings.lookup x = some (Const.ofJson v) := by
  have key := (mem_variableValues bound).mpr there
  obtain ⟨entries, mapped, eq⟩ := bind_ok bound
  cases eq
  have unique : ∀ c, (x, c) ∈ entries → c = Const.ofJson v := by
    intro c mem
    obtain ⟨d, -, value⟩ := mapM_ok mapped _ mem
    obtain ⟨c', resolved, eq⟩ := bind_ok value
    cases eq
    rw [variableValue, given] at resolved
    exact (Except.ok.inj resolved).symm
  obtain ⟨⟨n, c⟩, mem, same⟩ := List.mem_map.mp (OrderedMap.mem_keys_ofEntries.mp key)
  cases same
  exact OrderedMap.lookup_ofEntries (unique c mem ▸ mem) unique

/-- The argument of a name is a declared variable, which is supplied with the value. -/
def Supplies (supplied : OrderedMap Json) (declared : List VariableDefinition) (head : FieldHead)
    (name : String) (v : Json) : Prop :=
  ∃ position x, lastNamed? head.arguments name = some ⟨name, position, .variable x⟩ ∧
    (∃ w ∈ declared, w.name = x) ∧ supplied.lookup x = some v

/-- A value that an answer has for a type of leaves is given unchanged, and passes. -/
theorem Supplies.passes {supplied : OrderedMap Json} {declared : List VariableDefinition} {v : Json}
    (supplies : Supplies supplied declared head name v)
    (bound : variableValues supplied declared = .ok bindings) {f : RequestField} {T : SchemaType}
    (conforms : GraphQLEngine.Conforms schema f a.type v)
    (found : schema.type? a.type.innermost = some T) (leaf : T.isLeaf = true) :
    ∃ b, lastNamed? head.arguments name = some b ∧ given bindings b = v ∧
      Passes schema bindings name a (some b) := by
  obtain ⟨position, x, last, there, supplied⟩ := supplies
  have value : valueOf bindings x = Const.ofJson v := by
    rw [valueOf, lookup_variableValues bound there supplied, Option.getD_some]
  refine ⟨_, last, ?_, fun y used => ?_, ?_⟩
  · rw [given, Value.substitute, value, Const.toJson_ofJson]
  · cases List.mem_singleton.mp used
    exact (mem_variableValues bound).mpr there
  · rw [Value.substitute, value]
    exact checkValue_of_conforms conforms found leaf

/-- What is given for a supplied argument is what a resolver is given. -/
theorem lookup_call {typeName : String} {d : FieldDefinition}
    (distinct : (d.arguments.map Prod.fst).Nodup) {args : OrderedMap Json}
    (checked : checkArguments schema bindings head d.arguments = .ok args) {b : Argument}
    (last : lastNamed? head.arguments name = some b) (caller : Caller) (parent : Json)
    {field : RequestField} (same : field.arguments = args) :
    (caller.call typeName parent field d).arguments.lookup name = some (given bindings b) := by
  obtain ⟨-, names, eq⟩ := (checkArguments_passes_iff distinct).mp checked
  rw [caller.arguments_call typeName parent field distinct, same]
  exact (received_admitted distinct names eq).supplied name b last

end

end Request

/-! ## Answers -/

variable {σ : Type}

/-- The engine answers a validated request with the data, and the root fields have these types. -/
inductive Engine.Gives (e : Engine σ) : Json → (RequestField → TypeRef → Prop) → Prop
  | returned {limit : Option Nat} {document : Document} {name : Option String}
    {supplied : OrderedMap Json} {r : Request} {caller : Caller} {response : Response} {data : Json}
    {rootType : String} :
    Request.ofDocument e.schema limit document name supplied = .ok r → e.Returns r caller response →
    response.data = some data → e.schema.root? r.kind = some rootType →
    Gives e data (OperationTypes rootType e.schema r.fields)
  | emitted {limit : Option Nat} {document : Document} {name : Option String}
    {supplied : OrderedMap Json} {r : Request} {caller : Caller} {response : Response} {data : Json}
    {rootType : String} {field : RequestField} :
    Request.ofDocument e.schema limit document name supplied = .ok r → e.Emits r caller response →
    response.data = some data → e.schema.root? r.kind = some rootType → r.fields = [field] →
    Gives e data (EventTypes rootType e.schema field)

/-- In the data is the value, for a field at a level of its type. -/
inductive Schema.Fills (s : Schema) (roots : RequestField → TypeRef → Prop) (data : Json) :
    RequestField → TypeRef → Json → Prop
  | root {f : RequestField} {t : TypeRef} {v : Json} :
    roots f t → data.get? f.outputName = some v → Fills s roots data f t v
  | item {f : RequestField} {t item : TypeRef} {vs : List Json} {v : Json} :
    Fills s roots data f t (.arr vs) → t.nullable = .list item → v ∈ vs → Fills s roots data f item v
  | sub {f sub : RequestField} {t u : TypeRef} {T : SchemaType} {members : List (String × Json)}
    {v : Json} :
    Fills s roots data f t (.obj members) → s.type? t.innermost = some T → T.isLeaf = false →
      sub ∈ f.subfields → s.fieldType? T.name sub = some u →
      members.lookup sub.outputName = some v → Fills s roots data sub u v

/-- Somewhere in its data, for a field of the type or for the items of lists, the engine answers the
value. -/
def Engine.Shows (e : Engine σ) (t : TypeRef) (v : Json) : Prop :=
  ∃ data roots f, e.Gives data roots ∧ e.schema.Fills roots data f t v

section

variable {s : Schema}

/-- The value of a selected field conforms to it. -/
theorem ConformsMembers.of_lookup {typeName : String} {fields : List RequestField}
    {members : List (String × Json)} (h : ConformsMembers s typeName fields members)
    (distinct : (members.map Prod.fst).Nodup) {f : RequestField} (mem : f ∈ fields) {v : Json}
    (found : members.lookup f.outputName = some v) : ConformsField s typeName f v := by
  induction fields generalizing members with
  | nil => cases mem
  | cons g rest ih =>
    cases h with
    | @cons _ _ _ w members first others =>
      obtain ⟨fresh, distinct⟩ := List.nodup_cons.mp distinct
      rw [others.names] at fresh
      rcases List.mem_cons.mp mem with rfl | mem
      · rw [List.lookup_cons_self] at found
        cases found
        exact first
      · have other : (f.outputName == g.outputName) = false :=
          beq_eq_false_iff_ne.mpr fun same => fresh (same ▸ List.mem_map_of_mem mem)
        rw [List.lookup_cons, other] at found
        exact ih others distinct mem found

/-- The value of a field of an object is one of the type of the field, the name of a type being a
string. -/
theorem ConformsField.typed (string : s.type? "String" = some ⟨"String", .scalar .string⟩)
    {typeName : String} {f : RequestField} {v : Json} (h : ConformsField s typeName f v) {t : TypeRef}
    (type : s.fieldType? typeName f = some t) : Conforms s f t v := by
  unfold Schema.fieldType? at type
  cases h with
  | typename name =>
    rw [if_pos name] at type
    cases type
    exact .leaf rfl string ⟨typeName, rfl⟩ fun null => Json.noConfusion null
  | declared name found conforms =>
    rw [if_neg name, found] at type
    cases type
    exact conforms

/-- What is in the data is of the type of its level, if the values of the root fields are. -/
theorem conforms_of_fills (string : s.type? "String" = some ⟨"String", .scalar .string⟩)
    {roots : RequestField → TypeRef → Prop} {data : Json}
    (top : ∀ f t v, roots f t → data.get? f.outputName = some v → Conforms s f t v)
    {f : RequestField} {t : TypeRef} {v : Json} (filled : s.Fills roots data f t v) :
    Conforms s f t v := by
  induction filled with
  | root given found => exact top _ _ _ given found
  | item _ list mem above =>
    cases above with
    | leaf notList =>
      rw [list] at notList
      cases notList
    | list list' items =>
      cases list.symm.trans list'
      exact items _ mem
  | sub _ found composite mem type there above =>
    cases above with
    | leaf _ found' holds =>
      cases found.symm.trans found'
      cases composite.symm.trans holds.isLeaf
    | object _ found' _ distinct each =>
      cases found.symm.trans found'
      exact (each.of_lookup distinct mem there).typed string type

end

/-- What an engine answers conforms to the types of its schema. -/
theorem Engine.Shows.conforms {e : Engine σ} {spec : SchemaSpec}
    (built : Schema.build spec = .ok e.schema) {t : TypeRef} {v : Json} (shown : e.Shows t v) :
    ∃ f, Conforms e.schema f t v := by
  obtain ⟨data, roots, f, gives, filled⟩ := shown
  have string := Schema.stringType_of_build built
  have filed : ∀ {name T}, e.schema.type? name = some T → T.name = name :=
    Schema.name_of_build built
  have by_e : e.AnswersBy fun _ _ _ => True := ⟨fun _ _ _ => trivial, fun _ _ => trivial⟩
  refine ⟨f, conforms_of_fills string ?_ filled⟩
  cases gives with
  | returned validated returned answered root =>
    obtain ⟨rootType, root', sound⟩ := (Request.ofDocument_valid validated).root
    cases root.symm.trans root'
    cases returned with
    | refused refused =>
      rw [Engine.data_of_refused refused] at answered
      cases answered
    | completed executed =>
      obtain ⟨rootType, pos, due, root', C⟩ := executed.closed by_e sound.distinct
      cases root.symm.trans root'
      obtain ⟨members, rfl, distinct, each⟩ := C.conforms_operation filed sound answered
      rintro f t v ⟨mem, type⟩ there
      exact (each.of_lookup distinct mem there).typed string type
  | emitted validated emitted answered root fields =>
    obtain ⟨rootType, root', sound⟩ := (Request.ofDocument_valid validated).root
    cases root.symm.trans root'
    rcases emitted.cases with rfl | ⟨plan, event, g, handled, rfl⟩
    · cases answered
    · obtain ⟨d, pos, due, fields', root', found, C⟩ := handled.closed by_e sound.distinct
      cases root.symm.trans root'
      cases fields.symm.trans fields'
      have subs := (sound.sound plan.field (by simp [fields])).subfields found
      obtain ⟨w, rfl, conforms⟩ := C.conforms_event filed subs answered
      rintro f t v ⟨rfl, d', found', rfl⟩ there
      cases found.symm.trans found'
      cases (List.lookup_cons_self.symm.trans there : some w = some v)
      exact conforms

/-- A value that an engine answers for a type is accepted as a variable for an argument of the type,
so that only the others decide, and the resolver is given it unchanged. -/
theorem leaves_are_inputs {e : Engine σ} {spec : SchemaSpec}
    (built : Schema.build spec = .ok e.schema) (once : e.schema.NamesArgumentsOnce)
    {typeName : String} {head : FieldHead} {d : FieldDefinition}
    (found : e.schema.field? typeName head.name = some d) {name : String} {a : ArgumentDefinition}
    (argument : (name, a) ∈ d.arguments) {v : Json} (shown : e.Shows a.type v)
    {supplied : OrderedMap Json} {declared : List VariableDefinition} {bindings : Variables}
    (bound : Request.variableValues supplied declared = .ok bindings)
    (supplies : Request.Supplies supplied declared head name v) :
    ((∃ args, Request.checkArguments e.schema bindings head d.arguments = .ok args) ↔
      (∀ entry ∈ d.arguments, entry.1 ≠ name → Request.Passes e.schema bindings entry.1 entry.2
        (Request.lastNamed? head.arguments entry.1)) ∧
      ∀ b ∈ head.arguments, b.name ∈ d.arguments.map Prod.fst) ∧
    ∀ args, Request.checkArguments e.schema bindings head d.arguments = .ok args →
      (∀ (caller : Caller) (parent : Json) (field : RequestField), field.arguments = args →
        (caller.call typeName parent field d).arguments.lookup name = some v) ∧
      ∀ {τ : Type} (e' : Engine τ) (caller : Caller) (g : Graph) (t : Task) (i : Invocation τ),
        e'.schema = e.schema → t.parentType = typeName → t.field.name = head.name →
        t.field.arguments = args → (e'.prepareTask caller g t).2 = some i →
          i.call.arguments.lookup name = some v := by
  have distinct := once typeName head.name d found
  obtain ⟨f, conforms⟩ := shown.conforms built
  obtain ⟨T, type, leaf⟩ := Schema.argumentType_of_build built found argument
  obtain ⟨b, last, rfl, passes⟩ := supplies.passes bound conforms type leaf
  refine ⟨Request.checkArguments_iff_others distinct argument (last ▸ passes), fun args checked =>
    ⟨fun caller parent field same =>
      Request.lookup_call distinct checked last caller parent same, ?_⟩⟩
  rintro τ e' caller g t i schema rfl field same prepared
  obtain ⟨-, calls⟩ := (prepareTask_cases g t).2 i prepared
  obtain ⟨d', defined, -, -, call⟩ := calls.defined
  rw [schema, field, found] at defined
  cases defined
  rw [call]
  exact Request.lookup_call distinct checked last caller _ same

/-! ## An engine that is asked about its own answer -/

namespace Ranking

/-- Lists of lists of orders, of which whole lists may be null. -/
def orders : TypeRef := (TypeRef.named "Order").toNonNull.listOf.listOf.toNonNull

/-- The field `orders(known: [[Order!]]!): [[Order!]]!`. -/
def field : FieldDefinition :=
  (FieldDefinition.of "orders" orders).withArgument ⟨"known", orders, none⟩

def spec : SchemaSpec :=
  ⟨[.object "Query" [field], .enumeration "Order" ["UP", "DOWN"]], none, none, none⟩

def schema : Schema :=
  ⟨⟨[("Int", ⟨"Int", .scalar .int⟩), ("Float", ⟨"Float", .scalar .float⟩),
      ("String", ⟨"String", .scalar .string⟩), ("Boolean", ⟨"Boolean", .scalar .boolean⟩),
      ("ID", ⟨"ID", .scalar .id⟩), ("Query", ⟨"Query", .object [("orders", field)]⟩),
      ("Order", ⟨"Order", .enumeration ["UP", "DOWN"]⟩)], by decide⟩, "Query", none, none⟩

def value : Json := .arr [.arr [.str "UP", .str "DOWN"], .null, .arr []]

/-- The field always has the same value. -/
def engine : Engine Unit :=
  ⟨schema, ⟨[(⟨"Query", "orders"⟩, .field ⟨fun _ => 0, fun _ s => (.ok (.value value), s)⟩)]⟩, [],
    .default⟩

/-- The selection `orders(known: $known)`. -/
def head : FieldHead := ⟨.nowhere, none, "orders", [⟨"known", .nowhere, .variable "known"⟩], []⟩

def declared : List VariableDefinition := [⟨"known", .nowhere, orders, none⟩]

def document : Document :=
  ⟨.anonymous ⟨.nowhere, .query, declared, [], [.field head []]⟩, []⟩

/-- The selection with an empty list for the variable. -/
def asked : RequestField := ⟨none, "orders", [("known", .arr [])], []⟩

theorem once : schema.NamesArgumentsOnce := Schema.namesArgumentsOnce (by decide)

theorem built : Schema.build spec = .ok engine.schema := by rfl

/-- What the engine answers at once. -/
def data? : Option Json :=
  match engine.execute ⟨none, .query, [asked]⟩ Sample.caller
    ⟨0, engine.coordinator, .start default ()⟩ with
  | .ok (.completed g, _) => g.response.data
  | _ => none

theorem shows : engine.Shows orders value := by
  have validated : Request.ofDocument engine.schema (some 1) document none [("known", .arr [])] =
      .ok ⟨none, .query, [asked]⟩ := by cbv
  have answered : data? = some (.obj [("orders", value)]) := by cbv
  unfold data? at answered
  split at answered
  · next g st started =>
    exact ⟨_, _, asked, .returned validated (.completed (.run started .start)) answered rfl,
      .root ⟨List.mem_singleton_self _, rfl⟩ rfl⟩
  · cases answered

theorem leaves_are_inputs_orders : ∃ args,
    Request.checkArguments schema [("known", Const.ofJson value)] head field.arguments = .ok args ∧
      ∀ parent field', field'.arguments = args →
        (Sample.caller.call "Query" parent field' field).arguments.lookup "known" = some value := by
  have bound : Request.variableValues [("known", value)] declared =
      .ok [("known", Const.ofJson value)] := by cbv
  have supplies : Request.Supplies [("known", value)] declared head "known" value :=
    ⟨.nowhere, "known", by cbv, ⟨_, List.mem_singleton_self _, rfl⟩, by cbv⟩
  have found : engine.schema.field? "Query" head.name = some field := by cbv
  obtain ⟨accepted, received⟩ :=
    leaves_are_inputs built once found (List.mem_singleton_self _) shows bound supplies
  have single : ∀ entry ∈ field.arguments, entry.1 = "known" := by decide
  obtain ⟨args, checked⟩ := accepted.mpr
    ⟨fun entry mem other => absurd (single entry mem) other, by decide⟩
  exact ⟨args, checked, (received args checked).1 Sample.caller⟩

end Ranking

end GraphQLEngine
