import GraphQLEngine.Execution.Completion

/-!
# What completing a value decides

`judge` tells what becomes of a node whose value has settled, without a graph; `Verdict.write` puts
it into the graph.  Completing a value is the one after the other:

    completeValue s f g n t v path = (judge s f.name t v).write s f g n path
-/

namespace GraphQLEngine

/-- The items of a list have the name that is inside the modifiers of the list. -/
theorem TypeRef.innermost_of_nullable {t item : TypeRef} (h : t.nullable = .list item) :
    item.innermost = t.innermost := by
  cases t with
  | named name => cases h
  | list item' => cases h; rfl
  | nonNull inner =>
    rw [TypeRef.nullable] at h
    rw [h]
    rfl

/-- What becomes of a node. -/
inductive Verdict where
  | failed (e : FieldError)
  | null
  | leaf (v : Json)
  /-- An object of the selected fields, resolved on the value. -/
  | object (typeName : String) (v : Json)
  /-- A list of items that are judged by the type. -/
  | list (item : TypeRef) (items : List Settled)
  /-- An object whose only field is selected and has this type and value. -/
  | given (t : TypeRef) (v : Settled)

def judgeSingle (s : Schema) (typeName : String) (v : Json) : Verdict :=
  match s.type? typeName with
  | none => .failed (.internal ("Type " ++ typeName ++ " is not part of the schema"))
  | some t =>
    if t.isLeaf then
      match completeLeaf t v with
      | .ok v => .leaf v
      | .error e => .failed e
    else if v.isObject then .object t.name v
    else
      .failed (.invalidValue
        ("Expected an object of type " ++ typeName ++ ", found " ++ v.compress))

def judgeList (t : TypeRef) (items : List Settled) : Verdict :=
  match t.nullable with
  | .list item => .list item items
  | _ =>
    .failed (.invalidValue ("Expected a value of type " ++ t.render ++ ", found a list"))

/-- What becomes of a value that is not null. -/
def judgeValue (s : Schema) (t : TypeRef) (v : Json) : Verdict :=
  match t.nullable with
  | .list item =>
    match v with
    | .arr items => .list item (items.map .value)
    | v =>
      .failed (.invalidValue
        ("Expected a list of type " ++ t.render ++ ", found " ++ v.compress))
  | _ => judgeSingle s t.innermost v

/-- What becomes of a node of a type for which a field has this settled value. -/
def judge (s : Schema) (fieldName : String) (t : TypeRef) : Settled → Verdict
  | .error e => .failed e
  | .list items => judgeList t items
  | .value .null => if t.isNonNull then .failed (.nullForNonNull fieldName) else .null
  | .value v => judgeValue s t v

namespace Verdict

/-- Write what was decided at a node. -/
def write (s : Schema) (field : RequestField) (g : Graph) (node : Nat) (path : Path) :
    Verdict → Graph × List Task
  | .failed e => (g.fail node e path, [])
  | .null => (g.nullify node, [])
  | .leaf v => (g.setLeaf node v, [])
  | .object typeName v => (g.setObject node, subfieldTasks node typeName v field path)
  | .list item items => completeItems s field (g.setList node) node item 0 items path
  | .given _ _ => (g, [])

/-- The segments that lead to the children of a node in their order, under a field. -/
def keys (f : RequestField) : Verdict → List PathSegment
  | .object _ _ | .given _ _ => f.subfields.map fun sub => .field sub.outputName
  | .list _ items => (List.range items.length).map .index
  | _ => []

end Verdict

theorem completeSingle_eq (s : Schema) (g : Graph) (node : Nat) (typeName : String)
    (field : RequestField) (v : Json) (path : Path) :
    completeSingle s g node typeName field v path =
      (judgeSingle s typeName v).write s field g node path := by
  unfold completeSingle judgeSingle
  cases s.type? typeName with
  | none => rfl
  | some t =>
    by_cases leaf : t.isLeaf = true
    · simp only [leaf, if_true]
      cases completeLeaf t v <;> rfl
    · by_cases object : v.isObject = true <;> simp [leaf, object, Verdict.write]

theorem completeList_eq (s : Schema) (field : RequestField) (g : Graph) (node : Nat) (t : TypeRef)
    (items : List Settled) (path : Path) :
    completeList s field g node t items path =
      (judgeList t items).write s field g node path := by
  rw [completeList, judgeList]
  cases h : t.nullable <;> simp [Verdict.write]

theorem judge_value {s : Schema} {fieldName : String} {t : TypeRef} {v : Json} (h : v ≠ .null) :
    judge s fieldName t (.value v) = judgeValue s t v := by
  cases v <;> first | rfl | exact absurd rfl h

theorem completeValue_eq (s : Schema) (field : RequestField) (g : Graph) (node : Nat) (t : TypeRef)
    (v : Settled) (path : Path) :
    completeValue s field g node t v path =
      (judge s field.name t v).write s field g node path := by
  rw [completeValue.eq_def]
  split
  · rfl
  · rw [judge]
    split <;> rfl
  · rw [judge, completeList_eq]
  · next v notNull =>
    rw [judge_value notNull, judgeValue]
    split
    · next ht => simp only [ht, completeList_eq, judgeList]
    · next w _ _ _ notArr ht =>
      simp only [ht]
      cases w with
      | arr items => exact absurd rfl (notArr items)
      | _ => rfl
    · next notList _ =>
      rw [completeSingle_eq]
      cases ht : t.nullable with
      | list item => exact absurd ht (notList item)
      | _ => rfl

/-! ## Leaves -/

/-- The values of a leaf type. -/
def SchemaType.Holds (t : SchemaType) (v : Json) : Prop :=
  match t.kind with
  | .scalar .int => ∃ n : Int, -2147483648 ≤ n ∧ n < 2147483648 ∧ v = .int n
  | .scalar .float => ∃ n, v = .num n
  | .scalar .string | .scalar .id => ∃ text, v = .str text
  | .scalar .boolean => ∃ b, v = .bool b
  | .scalar .custom => True
  | .enumeration values => ∃ text ∈ values, v = .str text
  | .object _ => False

theorem holds_of_completeScalar {name : String} {kind : ScalarKind} {v w : Json}
    (h : completeScalar? kind v = some w) (notNull : v ≠ .null) :
    (⟨name, .scalar kind⟩ : SchemaType).Holds w ∧ w ≠ .null := by
  unfold completeScalar? at h
  split at h
  · next n =>
    split at h
    · next fits =>
      cases h
      cases n with
      | int n =>
        simp only [Number.int32?, Option.isSome_ite] at fits
        exact ⟨⟨n, fits.1, fits.2, rfl⟩, nofun⟩
      | float x => cases fits
    · cases h
  · cases h; exact ⟨⟨_, rfl⟩, nofun⟩
  · cases h; exact ⟨⟨_, rfl⟩, nofun⟩
  · cases h; exact ⟨⟨_, rfl⟩, nofun⟩
  · cases h; exact ⟨⟨_, rfl⟩, nofun⟩
  · cases h; exact ⟨⟨_, rfl⟩, nofun⟩
  · cases h; exact ⟨trivial, notNull⟩
  · cases h

/-- The value of a completed leaf is one of its type. -/
theorem holds_of_completeLeaf {t : SchemaType} {v w : Json} (h : completeLeaf t v = .ok w)
    (notNull : v ≠ .null) : t.Holds w ∧ w ≠ .null := by
  unfold completeLeaf at h
  simp only at h
  split at h
  · next found =>
    cases h
    obtain ⟨name, kind⟩ := t
    cases kind with
    | scalar kind => exact holds_of_completeScalar found notNull
    | enumeration values =>
      obtain ⟨text, read, declared⟩ := Option.bind_eq_some_iff.mp found
      split at declared
      · next mem =>
        cases declared
        cases v with
        | str text' =>
          cases read
          exact ⟨⟨text, List.contains_iff_mem.mp mem, rfl⟩, nofun⟩
        | _ => cases read
      · cases declared
    | object fields => cases found
  · cases h

/-! ## Reading a verdict back -/

theorem judgeSingle_cases (s : Schema) (typeName : String) (v : Json) :
    (∃ e, judgeSingle s typeName v = .failed e) ∨
    (∃ T w, s.type? typeName = some T ∧ T.isLeaf = true ∧ completeLeaf T v = .ok w ∧
      judgeSingle s typeName v = .leaf w) ∨
    (∃ T, s.type? typeName = some T ∧ T.isLeaf = false ∧ v.isObject = true ∧
      judgeSingle s typeName v = .object T.name v) := by
  unfold judgeSingle
  cases ht : s.type? typeName with
  | none => exact .inl ⟨_, rfl⟩
  | some T =>
    cases leaf : T.isLeaf with
    | true =>
      cases hv : completeLeaf T v with
      | ok w => exact .inr (.inl ⟨T, w, rfl, leaf, hv, by simp [leaf, hv]⟩)
      | error e => exact .inl ⟨e, by simp [leaf, hv]⟩
    | false =>
      cases object : v.isObject with
      | true => exact .inr (.inr ⟨T, rfl, leaf, rfl, by simp [leaf]⟩)
      | false => exact .inl ⟨_, by simp [leaf]; rfl⟩

/-- The settled values that are lists, with their items. -/
def Settled.items? : Settled → Option (List Settled)
  | .list items => some items
  | .value (.arr items) => some (items.map .value)
  | _ => none

/-- What a value of a type may be judged to be, and when. -/
inductive Judged (s : Schema) (t : TypeRef) : Settled → Verdict → Prop
  | failed (w : Settled) (e : FieldError) : Judged s t w (.failed e)
  | null : t.isNonNull = false → Judged s t (.value .null) .null
  | list {w : Settled} {item : TypeRef} {items : List Settled} :
    t.nullable = .list item → w.items? = some items → Judged s t w (.list item items)
  | leaf {v u : Json} {T : SchemaType} : v ≠ .null → t.nullable.isList = false →
    s.type? t.innermost = some T → completeLeaf T v = .ok u → Judged s t (.value v) (.leaf u)
  | object {v : Json} {T : SchemaType} : t.nullable.isList = false →
    s.type? t.innermost = some T → T.isLeaf = false → Judged s t (.value v) (.object T.name v)

theorem judge_judged (s : Schema) (fieldName : String) (t : TypeRef) (w : Settled) :
    Judged s t w (judge s fieldName t w) := by
  cases w with
  | error e => exact .failed _ e
  | list items =>
    rw [judge, judgeList]
    cases ht : t.nullable with
    | list item => exact .list ht rfl
    | _ => exact .failed _ _
  | value v =>
    by_cases isNull : v = .null
    · subst isNull
      rw [judge]
      cases nonNull : t.isNonNull with
      | true => exact .failed _ _
      | false => exact .null nonNull
    · rw [judge_value isNull, judgeValue]
      by_cases isList : t.nullable.isList = true
      · cases ht : t.nullable with
        | list item =>
          cases v with
          | arr items => exact .list ht rfl
          | _ => exact .failed _ _
        | _ => simp [ht, TypeRef.isList] at isList
      · have single : judgeValue s t v = judgeSingle s t.innermost v := by
          rw [judgeValue]
          cases ht : t.nullable with
          | list item => simp [ht, TypeRef.isList] at isList
          | _ => rfl
        rw [judgeValue] at single
        rw [single]
        simp only [Bool.not_eq_true] at isList
        rcases judgeSingle_cases s t.innermost v with
          ⟨e, h⟩ | ⟨T, u, hT, leaf, hu, h⟩ | ⟨T, hT, leaf, object, h⟩
        all_goals rw [h]
        · exact .failed _ e
        · exact .leaf isNull isList hT hu
        · exact .object isList hT leaf

section

variable {s : Schema} {fieldName : String} {t : TypeRef} {w : Settled}

theorem judge_eq_null (h : judge s fieldName t w = .null) :
    w = .value .null ∧ t.isNonNull = false := by
  cases h ▸ judge_judged s fieldName t w with
  | null nullable => exact ⟨rfl, nullable⟩

theorem judge_eq_leaf {u : Json} (h : judge s fieldName t w = .leaf u) :
    ∃ v T, w = .value v ∧ v ≠ .null ∧ t.nullable.isList = false ∧
      s.type? t.innermost = some T ∧ completeLeaf T v = .ok u := by
  cases h ▸ judge_judged s fieldName t w with
  | leaf notNull notList hT hu => exact ⟨_, _, rfl, notNull, notList, hT, hu⟩

theorem judge_eq_object {typeName : String} {v : Json}
    (h : judge s fieldName t w = .object typeName v) :
    ∃ T, w = .value v ∧ t.nullable.isList = false ∧ s.type? t.innermost = some T ∧
      T.name = typeName := by
  cases h ▸ judge_judged s fieldName t w with
  | object notList hT notLeaf => exact ⟨_, rfl, notList, hT, rfl⟩

theorem judge_eq_list {item : TypeRef} {items : List Settled}
    (h : judge s fieldName t w = .list item items) :
    t.nullable = .list item ∧ w.items? = some items := by
  cases h ▸ judge_judged s fieldName t w with
  | list ht items => exact ⟨ht, items⟩

theorem judge_ne_given {u : TypeRef} {v : Settled} : judge s fieldName t w ≠ .given u v := by
  intro h
  cases h ▸ judge_judged s fieldName t w

end

end GraphQLEngine
