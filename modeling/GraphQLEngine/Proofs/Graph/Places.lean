import GraphQLEngine.Proofs.Graph.Tree
import GraphQLEngine.Proofs.Requests.Selection

/-!
# Places in an answer

A path follows the selection of a request: the output names of the fields, and an index at each
level of a list.  So every place has a field and a type, and at most places a value that a resolver
gave.  The nodes of a complete graph stand at such places.

    Locates s roots path f t        `path` leads to the field `f`, at a level of the type `t`
    Held e caller A given path f t w    the value there is `w`
    Closed.place                    every node but the root stands at a place
-/

namespace GraphQLEngine

/-! ## Paths -/

/-- The member or item of a value that a segment leads to. -/
def Json.step? (v : Json) : PathSegment → Option Json
  | .field name => v.get? name
  | .index i => v.item? i

/-- What is in a value at the end of a path. -/
def Json.at? : Json → Path → Option Json
  | v, [] => some v
  | v, seg :: path => (v.step? seg).bind fun w => w.at? path

theorem Json.at?_append (v : Json) (path path' : Path) :
    v.at? (path ++ path') = (v.at? path).bind fun w => w.at? path' := by
  induction path generalizing v with
  | nil => rfl
  | cons seg path ih =>
    simp only [List.cons_append, Json.at?, Option.bind_assoc]
    congr 1
    funext w
    exact ih w

/-- There is nothing in a null. -/
theorem Json.at?_null {path : Path} {v : Json} (h : Json.null.at? path = some v) : path = [] := by
  cases path with
  | nil => rfl
  | cons seg path => cases seg <;> cases h

/-! ## Places -/

/-- The type of a field of an object type. -/
def Schema.fieldType? (s : Schema) (typeName : String) (f : RequestField) : Option TypeRef :=
  if f.name = typenameField then some (.nonNull (.named "String"))
  else (s.field? typeName f.name).map FieldDefinition.type

/-- A path that follows the selection beneath root fields of these types. -/
inductive Locates (s : Schema) (roots : RequestField → TypeRef → Prop) :
    Path → RequestField → TypeRef → Prop
  | root {f : RequestField} {t : TypeRef} :
    roots f t → Locates s roots [.field f.outputName] f t
  | item {path : Path} {f : RequestField} {t item : TypeRef} (i : Nat) :
    Locates s roots path f t → t.nullable = .list item →
      Locates s roots (path ++ [.index i]) f item
  | sub {path : Path} {f sub : RequestField} {t u : TypeRef} :
    Locates s roots path f t → t.nullable.isList = false → sub ∈ f.subfields →
      s.fieldType? t.innermost sub = some u →
      Locates s roots (path ++ [.field sub.outputName]) sub u

/-- The values at the places of an answer: those given for the root fields, the items of lists, and
what the resolvers of the fields of an object give. -/
inductive Held {σ : Type} (e : Engine σ) (caller : Caller) (gives : Gives)
    (given : RequestField → TypeRef → Settled → Prop) :
    Path → RequestField → TypeRef → Settled → Prop
  | root {f : RequestField} {t : TypeRef} {w : Settled} :
    given f t w → Held e caller gives given [.field f.outputName] f t w
  | item {path : Path} {f : RequestField} {t item : TypeRef} {w w' : Settled}
    {items : List Settled} {i : Nat} :
    Held e caller gives given path f t w → t.nullable = .list item → w.items? = some items →
      items[i]? = some w' → Held e caller gives given (path ++ [.index i]) f item w'
  | sub {path : Path} {f sub : RequestField} {t : TypeRef} {v : Json} {d : FieldDefinition}
    {w : Settled} :
    Held e caller gives given path f t (.value v) → t.nullable.isList = false →
      sub ∈ f.subfields → sub.name ≠ typenameField →
      e.schema.field? t.innermost sub.name = some d → gives t.innermost v sub d w →
      Held e caller gives given (path ++ [.field sub.outputName]) sub d.type w

section

variable {σ : Type} {e : Engine σ} {caller : Caller} {gives : Gives} {g : Graph}
  {pos : Nat → Entry} {due : Nat → List PathSegment}

/-- Why a node is decided about as it is: by its value, because it failed, or as the name of a
type. -/
def Justified (s : Schema) (values : Settled → Prop) (f : RequestField) (t : TypeRef)
    (W : Verdict) : Prop :=
  (∃ w, values w ∧ W = judge s f.name t w) ∨ (∃ fault, W = .failed fault) ∨
    ∃ typeName, W = .leaf (.str typeName)

/-- The fields of an object have a type, which says whether null is excluded. -/
theorem RequestField.Sound.place {typeName : String} {f : RequestField}
    (h : f.Sound e.schema typeName) (caller : Caller) (gives : Gives) (v : Json) :
    ∃ t, e.schema.fieldType? typeName f = some t ∧
      e.schema.excludesNull typeName f = t.isNonNull ∧
      RequestField.AllSound e.schema t.innermost f.subfields ∧
      ∀ W, Resolved e caller gives typeName v f W →
        Justified e.schema (fun w => ∃ d, f.name ≠ typenameField ∧
          e.schema.field? typeName f.name = some d ∧ t = d.type ∧ gives typeName v f d w) f t W := by
  unfold Schema.fieldType? Schema.excludesNull
  obtain ⟨name, none⟩ | ⟨d, name, found, subs⟩ := h.cases
  · refine ⟨_, if_pos name, if_pos name, none ▸ .nil, fun W resolved => ?_⟩
    cases resolved with
    | typename => exact .inr (.inr ⟨typeName, rfl⟩)
    | unknown fault => exact .inr (.inl ⟨fault, rfl⟩)
    | refused d fault => exact .inr (.inl ⟨fault, rfl⟩)
    | given d w notName => exact absurd name notName
  · refine ⟨d.type, by simp [name, found], by simp [name, found], subs, fun W resolved => ?_⟩
    cases resolved with
    | typename typename => exact absurd typename name
    | unknown fault => exact .inr (.inl ⟨fault, rfl⟩)
    | refused d' fault => exact .inr (.inl ⟨fault, rfl⟩)
    | given d' w _ found' _ given =>
      cases found.symm.trans found'
      exact .inl ⟨w, ⟨d, name, found, rfl, given⟩, rfl⟩

/-- A node stands at a place of a type. -/
structure Place (e : Engine σ) (caller : Caller) (gives : Gives)
    (roots : RequestField → TypeRef → Prop) (given : RequestField → TypeRef → Settled → Prop)
    (p : Entry) (nonNull : Bool) (t : TypeRef) : Prop where
  located : Locates e.schema roots p.path p.field t
  nonNull : nonNull = t.isNonNull
  sound : RequestField.AllSound e.schema t.innermost p.field.subfields
  justified : ∃ W, p.verdict = some W ∧
    Justified e.schema (Held e caller gives given p.path p.field t) p.field t W

/-- The places beneath the root of an answer. -/
structure Roots (e : Engine σ) (caller : Caller) (gives : Gives)
    (roots : RequestField → TypeRef → Prop)
    (given : RequestField → TypeRef → Settled → Prop) (whole : Entry) : Prop where
  top : whole.path = []
  composite : (∃ typeName v, whole.verdict = some (.object typeName v)) ∨
    ∃ t w, whole.verdict = some (.given t w)
  beneath : ∀ {V key f b allowed}, whole.verdict = some V →
    Slot e caller gives whole.field V key f b allowed →
    key = .field f.outputName ∧ ∃ t, roots f t ∧ b = t.isNonNull ∧
      RequestField.AllSound e.schema t.innermost f.subfields ∧
      ∀ W, allowed W → Justified e.schema (given f t) f t W

theorem Justified.imp {s : Schema} {values values' : Settled → Prop} {f : RequestField}
    {t : TypeRef} {W : Verdict} (h : Justified s values f t W)
    (imp : ∀ w, values w → values' w) : Justified s values' f t W := by
  rcases h with ⟨w, hw, eq⟩ | failed | name
  · exact .inl ⟨w, imp w hw, eq⟩
  · exact .inr (.inl failed)
  · exact .inr (.inr name)

variable {roots : RequestField → TypeRef → Prop} {given : RequestField → TypeRef → Settled → Prop}

/-- What stands beneath a place stands at a place. -/
theorem Place.beneath {p c : Entry} {rest : List PathSegment} {b b' : Bool} {t : TypeRef}
    (h : Place e caller gives roots given p b t)
    (filed : ∀ {name T}, e.schema.type? name = some T → T.name = name)
    (beneath : Beneath e caller gives p rest c b') (decided : c.verdict ≠ none) :
    ∃ u, Place e caller gives roots given c b' u := by
  obtain ⟨V, key, allowed, hV, path, -, slot, fits⟩ := beneath
  obtain ⟨V', hV', justified⟩ := h.justified
  cases hV.symm.trans hV'
  obtain ⟨W, hW⟩ := Option.ne_none_iff_exists'.mp decided
  obtain ⟨cpath, cfield, cverdict⟩ := c
  simp only at path slot hW fits
  subst path
  cases slot with
  | @field typeName v _ mem =>
    rcases justified with ⟨w, held, eq⟩ | ⟨_, eq⟩ | ⟨_, eq⟩ <;> try cases eq
    obtain ⟨T, rfl, notList, hT, rfl⟩ := judge_eq_object eq.symm
    rw [filed hT] at *
    obtain ⟨u, type, nonNull, sound, resolved⟩ :=
      (h.sound.sound cfield mem).place caller gives v
    refine ⟨u, .sub h.located notList mem type, nonNull, sound, W, hW,
      (resolved W (fits W hW)).imp ?_⟩
    rintro w ⟨d, name, found, rfl, given⟩
    exact .sub held notList mem name found given
  | item hw =>
    rcases justified with ⟨w, held, eq⟩ | ⟨_, eq⟩ | ⟨_, eq⟩ <;> try cases eq
    obtain ⟨list, items⟩ := judge_eq_list eq.symm
    exact ⟨_, .item _ h.located list, rfl, TypeRef.innermost_of_nullable list ▸ h.sound, W, hW,
      .inl ⟨_, .item held list items hw, fits W hW⟩⟩
  | given eq =>
    rcases justified with ⟨w, -, eq⟩ | ⟨_, eq⟩ | ⟨_, eq⟩ <;> try cases eq
    exact absurd eq.symm judge_ne_given

/-- Every node but the root stands at a place. -/
theorem Closed.place {whole : Entry} (C : Closed e caller gives whole g pos due)
    (filed : ∀ {name T}, e.schema.type? name = some T → T.name = name)
    (R : Roots e caller gives roots given whole) {n : Nat} {x : GraphNode}
    (hx : g.node? n = some x) (above : 0 < n) :
    ∃ t, Place e caller gives roots given (pos n) x.nonNull t := by
  induction n using Nat.strongRecOn generalizing x with
  | ind n ih =>
    obtain ⟨p, hp, lt, beneath⟩ := C.toPlaced.child hx above
    have decided := C.decided (Graph.lt_size hx)
    rcases Nat.eq_zero_or_pos p with rfl | above'
    · rw [C.entry] at beneath
      obtain ⟨V, key, allowed, hV, path, -, slot, fits⟩ := beneath
      obtain ⟨W, hW⟩ := Option.ne_none_iff_exists'.mp decided
      obtain ⟨rfl, t, root, nonNull, sound, justified⟩ := R.beneath hV slot
      rw [R.top, List.nil_append] at path
      refine ⟨t, path ▸ .root root, nonNull, sound, W, hW, (justified W (fits W hW)).imp ?_⟩
      intro w hw
      rw [path]
      exact .root hw
    · obtain ⟨y, hy⟩ := Graph.exists_node (Nat.lt_trans lt (Graph.lt_size hx))
      obtain ⟨t, place⟩ := ih p lt hy above'
      exact place.beneath filed beneath decided

end

end GraphQLEngine
