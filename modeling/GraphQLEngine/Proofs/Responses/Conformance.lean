import GraphQLEngine.Proofs.Graph.Tree
import GraphQLEngine.Proofs.Requests.Selection
import GraphQLEngine.Proofs.Responses.Streams

/-!
# Answers conform to the schema

Whatever resolvers and loaders give, the data of an answer has the shape of the selection, and each
value in it is one of its type:

    Conforms s f t v              `v` is a value of the type `t`, with the selection of the field `f`
    ConformsMembers s T fs ms     `ms` are the members of an object of the type `T` for the fields

The walk down a complete graph carries that a node which is not nulled was judged by the type of its
place; a null is only met where the type allows it.
-/

namespace GraphQLEngine

/-! ## Conforming values -/

mutual

/-- A value is one of a type, and has what is selected of it by a field. -/
inductive Conforms (s : Schema) : RequestField → TypeRef → Json → Prop
  | null {f : RequestField} {t : TypeRef} : t.isNonNull = false → Conforms s f t .null
  | leaf {f : RequestField} {t : TypeRef} {T : SchemaType} {v : Json} :
    t.nullable.isList = false → s.type? t.innermost = some T → T.Holds v → v ≠ .null →
      Conforms s f t v
  | list {f : RequestField} {t item : TypeRef} {vs : List Json} :
    t.nullable = .list item → (∀ v ∈ vs, Conforms s f item v) → Conforms s f t (.arr vs)
  | object {f : RequestField} {t : TypeRef} {T : SchemaType} {members : List (String × Json)} :
    t.nullable.isList = false → s.type? t.innermost = some T → T.isLeaf = false →
      (members.map Prod.fst).Nodup → ConformsMembers s T.name f.subfields members →
      Conforms s f t (.obj members)

/-- The members of an object are those of the selected fields in their order, each with a value of
its field. -/
inductive ConformsMembers (s : Schema) : String → List RequestField → List (String × Json) → Prop
  | nil {typeName : String} : ConformsMembers s typeName [] []
  | cons {typeName : String} {f : RequestField} {fields : List RequestField} {v : Json}
    {members : List (String × Json)} :
    ConformsField s typeName f v → ConformsMembers s typeName fields members →
      ConformsMembers s typeName (f :: fields) ((f.outputName, v) :: members)

/-- A value is one of a field of an object. -/
inductive ConformsField (s : Schema) : String → RequestField → Json → Prop
  | typename {typeName : String} {f : RequestField} :
    f.name = typenameField → ConformsField s typeName f (.str typeName)
  | declared {typeName : String} {f : RequestField} {d : FieldDefinition} {v : Json} :
    f.name ≠ typenameField → s.field? typeName f.name = some d → Conforms s f d.type v →
      ConformsField s typeName f v

end

theorem ConformsMembers.names {s : Schema} {typeName : String} {fields : List RequestField} :
    ∀ {members : List (String × Json)}, ConformsMembers s typeName fields members →
      members.map Prod.fst = fields.map RequestField.outputName := by
  induction fields with
  | nil => intro members h; cases h; rfl
  | cons f fields ih =>
    intro members h
    cases h with
    | cons _ rest => rw [List.map_cons, List.map_cons, ih rest]

/-! ## The values of nodes -/

section

variable {σ : Type} {e : Engine σ} {caller : Caller} {gives : Gives} {whole : Entry} {g : Graph}
  {pos : Nat → Entry} {due : Nat → List PathSegment}

namespace Closed

/-- Beneath a node that is not nulled, a child that is not null is judged by its type, and its value
conforms to it if that of such a node does. -/
theorem conforms_child {t : TypeRef} {w : Settled} {n c : Nat} {key : PathSegment}
    {f : RequestField} (C : Closed e caller gives whole g pos due) (up : g.isNulled n = false)
    (child : Child g pos n c key f t.isNonNull (· = judge e.schema f.name t w))
    (free : g.isNulled c = false → (pos c).field = f →
      (pos c).verdict = some (judge e.schema f.name t w) → Conforms e.schema f t (g.toJson c)) :
    Conforms e.schema f t (g.toJson c) := by
  by_cases isNull : g.content? c = some .null
  · rw [Graph.toJson_null isNull]
    exact .null (child.nullable C.toNulls up isNull)
  · obtain ⟨W, hW, rfl⟩ := child.verdict
    exact free (child.free up isNull) child.field hW

theorem exists_left_of_forall₂ {α β : Type} {R : α → β → Prop} {l : List α} {l' : List β} {b : β}
    (h : List.Forall₂ R l l') (mem : b ∈ l') : ∃ a, R a b := by
  induction h with
  | nil => cases mem
  | cons h _ ih =>
    rcases List.mem_cons.mp mem with rfl | mem
    · exact ⟨_, h⟩
    · exact ih mem

/-- The values of the children of an object conform to the fields if the value of each does. -/
theorem conforms_members {s : Schema} {typeName : String} {n : Nat} {fields : List RequestField}
    {entries : OrderedMap Nat} {b : RequestField → Bool} {allowed : RequestField → Verdict → Prop}
    (children : List.Forall₂ (fun sub entry => entry.1 = sub.outputName ∧
      Child g pos n entry.2 (.field sub.outputName) sub (b sub) (allowed sub)) fields entries)
    (each : ∀ sub ∈ fields, ∀ c, Child g pos n c (.field sub.outputName) sub (b sub) (allowed sub) →
      ConformsField s typeName sub (g.toJson c)) :
    ConformsMembers s typeName fields (entries.map fun entry => (entry.1, g.toJson entry.2)) := by
  induction children with
  | nil => exact .nil
  | cons h _ ih =>
    obtain ⟨name, child⟩ := h
    rw [List.map_cons, name]
    exact .cons (each _ List.mem_cons_self _ child)
      (ih fun sub mem => each sub (List.mem_cons_of_mem _ mem))

/-- The value of a child that a field is resolved to conforms to the field, if that of each child
that is judged by a type conforms to it. -/
theorem conforms_field (C : Closed e caller gives whole g pos due) {n c : Nat} {key : PathSegment}
    {f : RequestField} {typeName : String} {v : Json} (up : g.isNulled n = false)
    (child : Child g pos n c key f (e.schema.excludesNull typeName f)
      (Resolved e caller gives typeName v f))
    (sound : f.Sound e.schema typeName)
    (below : ∀ {d : FieldDefinition} {w : Settled},
      RequestField.AllSound e.schema d.type.innermost f.subfields →
      Child g pos n c key f d.type.isNonNull (· = judge e.schema f.name d.type w) →
      Conforms e.schema f d.type (g.toJson c)) :
    ConformsField e.schema typeName f (g.toJson c) := by
  obtain ⟨W, hW, resolved⟩ := child.verdict
  by_cases name : f.name = typenameField
  · -- the name of the type is always there
    have excludes : e.schema.excludesNull typeName f = true := by
      rw [Schema.excludesNull, if_pos name]
    have notNull : g.content? c ≠ some .null := by
      intro isNull
      rw [child.nullable C.toNulls up isNull] at excludes
      cases excludes
    cases resolved with
    | typename =>
      rw [Graph.toJson_leaf (C.leafOf child.lt_size (child.free up notNull) hW)]
      exact .typename name
    | unknown fault notName => exact absurd name notName
    | refused d fault notName => exact absurd name notName
    | given d w notName => exact absurd name notName
  · obtain ⟨typename, -⟩ | ⟨d, -, found, subs⟩ := sound.cases
    · exact absurd typename name
    have excludes : e.schema.excludesNull typeName f = d.type.isNonNull := by
      rw [Schema.excludesNull, if_neg name, found]
    have failed : ∀ {fault}, (pos c).verdict = some (.failed fault) →
        Conforms e.schema f d.type (g.toJson c) := by
      intro fault hV
      have isNull := C.null_of_sole child.lt_size (by rw [hV]; trivial)
      rw [Graph.toJson_null isNull]
      exact .null (excludes ▸ child.nullable C.toNulls up isNull)
    refine .declared name found ?_
    cases resolved with
    | typename typename => exact absurd typename name
    | unknown fault => exact failed hW
    | refused d' fault => exact failed hW
    | given d' w _ found' =>
      cases found.symm.trans found'
      exact below subs ⟨excludes ▸ child.node, child.lt, child.path, child.field, _, hW, rfl⟩

/-- A node that is not nulled has a value of the type that it was judged by. -/
theorem conforms (C : Closed e caller gives whole g pos due)
    (filed : ∀ {name T}, e.schema.type? name = some T → T.name = name) {n : Nat}
    (lt : n < g.size) (free : g.isNulled n = false) {f : RequestField} {t : TypeRef} {w : Settled}
    (field : (pos n).field = f) (hV : (pos n).verdict = some (judge e.schema f.name t w))
    (sound : RequestField.AllSound e.schema t.innermost f.subfields) :
    Conforms e.schema f t (g.toJson n) := by
  induction hk : g.size - n using Nat.strongRecOn generalizing n f t w with
  | ind k ih =>
    have below : ∀ {c key f t w},
        Child g pos n c key f t.isNonNull (· = judge e.schema f.name t w) →
        RequestField.AllSound e.schema t.innermost f.subfields →
        Conforms e.schema f t (g.toJson c) := by
      intro c key f t w child sound
      have gt := child.lt
      have size := child.lt_size
      exact C.conforms_child free child fun freeC fieldC hVC =>
        ih (g.size - c) (by omega) size freeC fieldC hVC sound rfl
    have notSole : ¬ Sole (pos n).verdict :=
      fun sole => C.content?_ne_null lt free (C.null_of_sole lt sole)
    have judged := judge_judged e.schema f.name t w
    generalize judge e.schema f.name t w = V at hV judged
    cases judged with
    | failed => exact absurd (by rw [hV]; trivial) notSole
    | null => exact absurd (by rw [hV]; trivial) notSole
    | list ht =>
      obtain ⟨ids, shown, children⟩ := C.list lt free hV
      rw [field] at children
      rw [shown]
      refine .list ht fun v mem => ?_
      obtain ⟨c, hc, rfl⟩ := List.mem_map.mp mem
      obtain ⟨w', i, child⟩ := exists_left_of_forall₂ children hc
      exact below child (TypeRef.innermost_of_nullable ht ▸ sound)
    | leaf notNull notList hT hu =>
      rw [Graph.toJson_leaf (C.leafOf lt free hV)]
      obtain ⟨holds, notNull'⟩ := holds_of_completeLeaf hu notNull
      exact .leaf notList hT holds notNull'
    | object notList hT leaf =>
      obtain ⟨entries, shown, children⟩ := C.object lt free hV
      rw [field] at children
      rw [shown]
      rw [← filed hT] at sound
      have members := conforms_members children fun sub mem c child =>
        C.conforms_field free child (sound.sound sub mem) fun subs child' =>
          below child' subs
      exact .object notList hT leaf (members.names ▸ sound.nodup) members

/-- The data of an operation's graph has the selected fields of the root type. -/
theorem conforms_operation {rootType : String} {fields : List RequestField} {v : Json}
    (C : Closed e caller gives ⟨[], .whole fields, some (.object rootType v)⟩ g pos due)
    (filed : ∀ {name T}, e.schema.type? name = some T → T.name = name)
    (sound : RequestField.AllSound e.schema rootType fields) {data : Json}
    (h : g.data = some data) :
    ∃ members, data = .obj members ∧ (members.map Prod.fst).Nodup ∧
      ConformsMembers e.schema rootType fields members := by
  obtain ⟨free, rfl⟩ := C.free_of_data h
  obtain ⟨entries, shown, children⟩ := C.object C.toPlaced.size_pos free (by rw [C.entry])
  rw [C.entry] at children
  have members := conforms_members children fun sub mem c child =>
    C.conforms_field free child (sound.sound sub mem) fun subs child' =>
      C.conforms_child free child' fun freeC field hV =>
        C.conforms filed child.lt_size freeC field hV subs
  exact ⟨_, shown, members.names ▸ sound.nodup, members⟩

/-- The data of an event's graph has the field of the event, with a value of its type. -/
theorem conforms_event {f : RequestField} {t : TypeRef} {w : Settled}
    (C : Closed e caller gives ⟨[], .whole [f], some (.given t w)⟩ g pos due)
    (filed : ∀ {name T}, e.schema.type? name = some T → T.name = name)
    (sound : RequestField.AllSound e.schema t.innermost f.subfields) {data : Json}
    (h : g.data = some data) :
    ∃ v, data = .obj [(f.outputName, v)] ∧ Conforms e.schema f t v := by
  obtain ⟨free, rfl⟩ := C.free_of_data h
  have single : (pos 0).field.subfields = [f] := by rw [C.entry]; rfl
  obtain ⟨c, shown, child⟩ := C.given C.toPlaced.size_pos free (by rw [C.entry]) single
  exact ⟨_, shown, C.conforms_child free child fun freeC field hV =>
    C.conforms filed child.lt_size freeC field hV sound⟩

end Closed

end

/-! ## Answers -/

/-- Every answer to a validated request conforms to the schema and the selection: that of a query or
mutation, and that of an event, whose field is the one of the subscription.  The field of an event
always has the type that the schema declares for it, even when it goes by the name of the field that
all types have. -/
theorem data_conforms {σ : Type} {spec : SchemaSpec} {e : Engine σ}
    (built : Schema.build spec = .ok e.schema) {limit : Option Nat} {document : Document}
    {name : Option String} {supplied : OrderedMap Json} {r : Request}
    (validated : Request.ofDocument e.schema limit document name supplied = .ok r)
    (caller : Caller) :
    ∃ rootType, e.schema.root? r.kind = some rootType ∧
      (∀ response data, e.Returns r caller response → response.data = some data →
        ∃ members, data = .obj members ∧ (members.map Prod.fst).Nodup ∧
          ConformsMembers e.schema rootType r.fields members) ∧
      (∀ response data, e.Emits r caller response → response.data = some data →
        ∃ f v, r.fields = [f] ∧ data = .obj [(f.outputName, v)] ∧
          (f.name ≠ typenameField → ConformsField e.schema rootType f v) ∧
          (f.name = typenameField → ∃ d, e.schema.field? rootType f.name = some d ∧
            Conforms e.schema f d.type v)) ∧
      ∀ g n, (e.Executes r caller g ∨ ∃ plan event, e.Handles r caller plan event g) →
        g.content? n ≠ some .pending := by
  obtain ⟨rootType, root, sound⟩ := (Request.ofDocument_valid validated).root
  have filed : ∀ {name T}, e.schema.type? name = some T → T.name = name :=
    Schema.name_of_build built
  have by_e : e.AnswersBy fun _ _ _ => True := ⟨fun _ _ _ => trivial, fun _ _ => trivial⟩
  refine ⟨rootType, root, ?_, ?_, ?_⟩
  · intro response data returned h
    cases returned with
    | refused refused => rw [Engine.data_of_refused refused] at h; cases h
    | completed executed =>
      obtain ⟨rootType', pos, due, root', C⟩ := executed.closed by_e sound.distinct
      cases root.symm.trans root'
      exact C.conforms_operation filed sound h
  · intro response data emitted h
    rcases emitted.cases with rfl | ⟨plan, event, g, handled, rfl⟩
    · cases h
    · obtain ⟨d, pos, due, fields, root', found, C⟩ := handled.closed by_e sound.distinct
      cases root.symm.trans root'
      have subs := (sound.sound plan.field (by simp [fields])).subfields found
      obtain ⟨v, hdata, conforms⟩ := C.conforms_event filed subs h
      exact ⟨plan.field, v, fields, hdata, fun name => .declared name found conforms,
        fun _ => ⟨d, found, conforms⟩⟩
  · rintro g n (executed | ⟨plan, event, handled⟩)
    · obtain ⟨_, _, _, -, C⟩ := executed.closed by_e sound.distinct
      exact C.notPending n
    · obtain ⟨_, _, _, -, -, -, C⟩ := handled.closed by_e sound.distinct
      exact C.notPending n

theorem data_conforms_size :
    Schema.build Sample.spec = .ok (Sample.engine (.ok (.int 2))).schema ∧
      ConformsMembers Sample.schema "Query" Sample.request.fields [("size", .int 2)] := by
  refine ⟨Sample.built _, ?_⟩
  obtain ⟨rootType, root, returns, -⟩ :=
    data_conforms (Sample.built (.ok (.int 2))) (Sample.validated _) Sample.caller
  cases root
  obtain ⟨g, executed, eq⟩ := Sample.executes_ok
  obtain ⟨members, hdata, -, conforms⟩ := returns _ _ (.completed executed) (by rw [eq])
  cases hdata
  exact conforms

end GraphQLEngine
