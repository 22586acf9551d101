import GraphQLEngine.Proofs.Graph.Places
import GraphQLEngine.Proofs.Responses.Streams

/-!
# Errors and nulls account for each other

Every error of an answer stands at a place of the selection where the data is null, or has a null
above it; and every null of the data is a value that was given, or comes from an error at its place
or beneath it, from where it was passed on through places that must not be null.

    Accounted s roots held r

The first is the walk from the root down to a failed node, which ends at a null.  The second is the
walk from a null down to its cause.
-/

namespace GraphQLEngine

/-! ## Accounts of answers -/

/-- A null at `q` was passed on from `p`: below `q` all on the way is of types that exclude null. -/
def PassedOn (s : Schema) (roots : RequestField → TypeRef → Prop) (q p : Path) : Prop :=
  q <+: p ∧ ∀ q', q <+: q' → q' <+: p → q' ≠ q →
    ∃ f t, Locates s roots q' f t ∧ t.isNonNull = true

/-- A path leads into the content of a custom scalar. -/
def InCustomScalar (s : Schema) (roots : RequestField → TypeRef → Prop) (q : Path) : Prop :=
  ∃ p rest f t T, q = p ++ rest ∧ rest ≠ [] ∧ Locates s roots p f t ∧
    t.nullable.isList = false ∧ s.type? t.innermost = some T ∧ T.kind = .scalar .custom

/-- The errors and the nulls of an answer account for each other. -/
structure Accounted (s : Schema) (roots : RequestField → TypeRef → Prop)
    (held : Path → RequestField → TypeRef → Settled → Prop) (r : Response) : Prop where
  located : ∀ fault ∈ r.errors, ∃ f t, Locates s roots fault.path f t
  distinct : (r.errors.map ReportedError.path).Nodup
  meets : ∀ fault ∈ r.errors, ∃ q, q <+: fault.path ∧ (r.data.getD .null).at? q = some .null
  caused : ∀ q, (r.data.getD .null).at? q = some .null →
    InCustomScalar s roots q ∨
    (∃ f t, Locates s roots q f t ∧ held q f t (.value .null) ∧ t.isNonNull = false) ∨
    ∃ fault ∈ r.errors, PassedOn s roots q fault.path

theorem PassedOn.refl (s : Schema) (roots : RequestField → TypeRef → Prop) (q : Path) :
    PassedOn s roots q q :=
  ⟨List.prefix_rfl, fun _ h h' ne => absurd (h'.eq_of_length_le h.length_le) ne⟩

/-- What was passed on to a place that excludes null is passed on from there. -/
theorem PassedOn.up {s : Schema} {roots : RequestField → TypeRef → Prop} {q p : Path}
    {seg : PathSegment} {f : RequestField} {t : TypeRef} (h : PassedOn s roots (q ++ [seg]) p)
    (located : Locates s roots (q ++ [seg]) f t) (nonNull : t.isNonNull = true) :
    PassedOn s roots q p := by
  refine ⟨(List.prefix_append _ _).trans h.1, fun q' below above ne => ?_⟩
  rcases List.prefix_or_prefix_of_prefix h.1 above with further | short
  · by_cases eq : q' = q ++ [seg]
    · exact ⟨f, t, eq ▸ located, nonNull⟩
    · exact h.2 q' further above eq
  · -- there is nothing between a path and the path with a segment more
    have eq : q' = q ++ [seg] := by
      apply short.eq_of_length_le
      have := below.length_le
      have : q.length ≠ q'.length := fun eq => ne (below.eq_of_length eq).symm
      rw [List.length_append, List.length_singleton]
      omega
    exact ⟨f, t, eq ▸ located, nonNull⟩

section

variable {σ : Type} {e : Engine σ} {caller : Caller} {gives : Gives} {g : Graph}
  {pos : Nat → Entry} {due : Nat → List PathSegment} {whole : Entry}
  {roots : RequestField → TypeRef → Prop} {given : RequestField → TypeRef → Settled → Prop}

namespace Closed

/-! ## Reading along a path -/

/-- The data that is shown is the value of the root. -/
theorem shown_data (g : Graph) : g.data.getD .null = g.toJson 0 := by
  by_cases isNull : g.content? 0 = some .null
  · rw [Graph.data_null isNull, Graph.toJson_null isNull]
    rfl
  · rw [Graph.data_eq isNull]
    rfl

/-- No segment leads to two children of a node that is not nulled. -/
theorem nodup_children (C : Closed e caller gives whole g pos due) {n : Nat} (lt : n < g.size)
    (free : g.isNulled n = false) {content : NodeContent} (shown : g.content? n = some content) :
    (content.children.map Prod.fst).Nodup := by
  obtain ⟨V, hV⟩ := Option.ne_none_iff_exists'.mp (C.decided lt)
  obtain ⟨c, hc, -, -, keys⟩ := C.shown lt free hV
  cases shown.symm.trans hc
  rw [keys]
  exact nodup_keys (C.toPlaced.distinct lt) V

/-- What a segment leads to in the value of a node that is an object or a list. -/
theorem step_iff (C : Closed e caller gives whole g pos due) {n : Nat} (lt : n < g.size)
    (free : g.isNulled n = false) {content : NodeContent} (shown : g.content? n = some content)
    (notLeaf : ∀ u, content ≠ .leaf u) {seg : PathSegment} {v : Json} :
    (g.toJson n).step? seg = some v ↔ ∃ c, (seg, c) ∈ content.children ∧ v = g.toJson c := by
  have nodup := C.nodup_children lt free shown
  cases content with
  | leaf u => exact absurd rfl (notLeaf u)
  | pending => exact absurd shown (C.notPending n)
  | null => exact absurd shown (C.content?_ne_null lt free)
  | object entries =>
    rw [C.toJson_object shown]
    rw [NodeContent.fst_children_object] at nodup
    have names := nodup.of_map
    cases seg with
    | index i => simp [Json.step?, Json.item?, NodeContent.children]
    | field name =>
      have found : (Json.obj (entries.map fun entry => (entry.1, g.toJson entry.2))).step?
          (.field name) = (entries.lookup name).map g.toJson :=
        lookup_map_snd (fun _ c => g.toJson c) entries name
      rw [found, Option.map_eq_some_iff]
      constructor
      · rintro ⟨c, hc, rfl⟩
        exact ⟨c, List.mem_map_of_mem (mem_of_lookup hc), rfl⟩
      · rintro ⟨c, mem, rfl⟩
        obtain ⟨⟨name', c'⟩, mem', eq⟩ := List.mem_map.mp mem
        rw [Prod.mk.injEq, PathSegment.field.injEq] at eq
        obtain ⟨rfl, rfl⟩ := eq
        exact ⟨c', lookup_of_mem names mem', rfl⟩
  | list ids =>
    rw [C.toJson_list shown]
    cases seg with
    | field name => simp [Json.step?, Json.get?, NodeContent.children]
    | index i =>
      have found : (Json.arr (ids.map g.toJson)).step? (.index i) = (ids[i]?).map g.toJson :=
        List.getElem?_map
      rw [found, Option.map_eq_some_iff]
      constructor
      · rintro ⟨c, hc, rfl⟩
        exact ⟨c, List.mem_map.mpr ⟨(c, i), List.mk_mem_zipIdx_iff_getElem?.mpr hc, rfl⟩, rfl⟩
      · rintro ⟨c, mem, rfl⟩
        obtain ⟨⟨c', i'⟩, mem', eq⟩ := List.mem_map.mp mem
        rw [Prod.mk.injEq, PathSegment.index.injEq] at eq
        obtain ⟨rfl, rfl⟩ := eq
        exact ⟨c', List.mk_mem_zipIdx_iff_getElem?.mp mem', rfl⟩

/-- The root is nulled only if it is null. -/
theorem free_root (C : Closed e caller gives whole g pos due)
    (notNull : g.content? 0 ≠ some .null) : g.isNulled 0 = false := by
  have h := C.free_of_data (Graph.data_eq notNull)
  exact h.1

/-- Reading along the path of a node ends at its value, unless there is a null before. -/
theorem reads (C : Closed e caller gives whole g pos due) {n : Nat} (lt : n < g.size) :
    (∃ q, q <+: (pos n).path ∧ (g.toJson 0).at? q = some .null) ∨
      (g.isNulled n = false ∧ (g.toJson 0).at? (pos n).path = some (g.toJson n)) := by
  induction n using Nat.strongRecOn with
  | ind n ih =>
    obtain ⟨x, hx⟩ := Graph.exists_node lt
    rcases Nat.eq_zero_or_pos n with rfl | above
    · by_cases isNull : g.content? 0 = some .null
      · exact .inl ⟨[], List.nil_prefix, congrArg some (Graph.toJson_null isNull)⟩
      · exact .inr ⟨C.free_root isNull, by rw [C.top]; rfl⟩
    · obtain ⟨p, hp, ltp, V, key, allowed, hV, path, -⟩ := C.toPlaced.child hx above
      have ltp' := Nat.lt_trans ltp lt
      rcases ih p ltp ltp' with ⟨q, hq, meets⟩ | ⟨free, value⟩
      · exact .inl ⟨q, hq.trans (path ▸ List.prefix_append _ _), meets⟩
      · obtain ⟨y, hy⟩ := Graph.exists_node ltp'
        have shown : g.content? p = some y.content := by rw [Graph.content?_eq, hy]; rfl
        -- the node is a child of one that is not null, and the segment is that of its path
        obtain ⟨seg, mem⟩ : ∃ seg, (seg, n) ∈ y.content.children := by
          rcases C.up hx hp hy with isNull | child
          · exact absurd (shown.trans (congrArg some isNull)) (C.content?_ne_null ltp' free)
          · exact child
        obtain ⟨-, -, -, path'⟩ := C.down hy mem
        have step := (C.step_iff ltp' free shown (by rintro u eq; rw [eq] at mem; cases mem)).mpr
          ⟨n, mem, rfl⟩
        have value' : (g.toJson 0).at? (pos n).path = some (g.toJson n) := by
          rw [path', Json.at?_append, value, Option.bind_some, Json.at?, step]
          rfl
        by_cases isNull : g.content? n = some .null
        · exact .inl ⟨_, List.prefix_rfl, value'.trans (congrArg some (Graph.toJson_null isNull))⟩
        · exact .inr ⟨Graph.free_beneath free hx hp isNull, value'⟩

/-! ## Causes -/

/-- A null is one that was judged to be null, or comes from a failure. -/
theorem caused (C : Closed e caller gives whole g pos due)
    (filed : ∀ {name T}, e.schema.type? name = some T → T.name = name)
    (R : Roots e caller gives roots given whole) {n : Nat} (lt : n < g.size)
    (isNull : g.content? n = some .null) :
    (pos n).verdict = some .null ∨ ∃ m fault, m < g.size ∧ (pos m).verdict = some (.failed fault) ∧
      PassedOn e.schema roots (pos n).path (pos m).path := by
  induction hk : g.size - n using Nat.strongRecOn generalizing n with
  | ind k ih =>
    obtain ⟨x, hx⟩ := Graph.exists_node lt
    rw [Graph.content?_eq, hx, Option.map_some, Option.some.injEq] at isNull
    rcases C.toNulls.cause hx isNull with sole | ⟨c, y, hy, hp, nonNull, isNull'⟩
    · cases hV : (pos n).verdict with
      | none => rw [hV] at sole; cases sole
      | some V =>
        rw [hV] at sole
        cases V with
        | null => exact .inl rfl
        | failed fault => exact .inr ⟨n, fault, lt, hV, .refl _ _ _⟩
        | _ => cases sole
    · obtain ⟨ltc, V, key, allowed, -, path, -⟩ := C.toPlaced.beneath hy hp
      obtain ⟨t, place⟩ := C.place filed R hy (Nat.zero_lt_of_lt ltc)
      have size := Graph.lt_size hy
      have null : g.content? c = some .null := by
        rw [Graph.content?_eq, hy, Option.map_some, isNull']
      rcases ih (g.size - c) (by omega) size null rfl with judged | ⟨m, fault, hm, hV, passed⟩
      · -- a null that was judged to be one may be null, but this one must not
        obtain ⟨W, hW, justified⟩ := place.justified
        cases hW.symm.trans judged
        rcases justified with ⟨w, -, eq⟩ | ⟨_, eq⟩ | ⟨_, eq⟩ <;> try cases eq
        have nullable := (judge_eq_null eq.symm).2
        rw [place.nonNull, nullable] at nonNull
        cases nonNull
      · rw [path] at passed
        exact .inr ⟨m, fault, hm, hV,
          passed.up (path ▸ place.located) (place.nonNull ▸ nonNull)⟩

/-- A leaf is not null, and a path leads on into it only if it is a custom scalar. -/
theorem leaf_cases {p : Entry} {b : Bool} {t : TypeRef} {u : Json}
    (place : Place e caller gives roots given p b t) (hV : p.verdict = some (.leaf u)) :
    u ≠ .null ∧ ((∀ seg, u.step? seg = none) ∨ (t.nullable.isList = false ∧
      ∃ T, e.schema.type? t.innermost = some T ∧ T.kind = .scalar .custom)) := by
  obtain ⟨W, hW, justified⟩ := place.justified
  cases hV.symm.trans hW
  rcases justified with ⟨w, -, eq⟩ | ⟨_, eq⟩ | ⟨typeName, eq⟩
  · obtain ⟨v, T, rfl, notNull, notList, hT, completed⟩ := judge_eq_leaf eq.symm
    obtain ⟨holds, notNull'⟩ := holds_of_completeLeaf completed notNull
    refine ⟨notNull', ?_⟩
    unfold SchemaType.Holds at holds
    split at holds
    · obtain ⟨n, -, -, rfl⟩ := holds
      exact .inl fun seg => by cases seg <;> rfl
    · obtain ⟨n, rfl⟩ := holds
      exact .inl fun seg => by cases seg <;> rfl
    · obtain ⟨text, rfl⟩ := holds
      exact .inl fun seg => by cases seg <;> rfl
    · obtain ⟨text, rfl⟩ := holds
      exact .inl fun seg => by cases seg <;> rfl
    · obtain ⟨b, rfl⟩ := holds
      exact .inl fun seg => by cases seg <;> rfl
    · next kind => exact .inr ⟨notList, T, hT, kind⟩
    · obtain ⟨text, -, rfl⟩ := holds
      exact .inl fun seg => by cases seg <;> rfl
    · exact holds.elim
  · cases eq
  · cases eq
    exact ⟨nofun, .inl fun seg => by cases seg <;> rfl⟩

/-- The root is neither a leaf nor judged to be null, so what is stands at a place. -/
theorem place_of_simple (C : Closed e caller gives whole g pos due)
    (filed : ∀ {name T}, e.schema.type? name = some T → T.name = name)
    (R : Roots e caller gives roots given whole) {n : Nat} (lt : n < g.size) {V : Verdict}
    (hV : (pos n).verdict = some V) (simple : V = .null ∨ ∃ u, V = .leaf u) :
    ∃ b t, Place e caller gives roots given (pos n) b t := by
  obtain ⟨x, hx⟩ := Graph.exists_node lt
  rcases Nat.eq_zero_or_pos n with rfl | above
  · rw [C.entry] at hV
    rcases R.composite with ⟨typeName, v, h⟩ | ⟨t, w, h⟩ <;> cases hV.symm.trans h <;>
      rcases simple with eq | ⟨u, eq⟩ <;> cases eq
  · exact ⟨x.nonNull, C.place filed R hx above⟩

/-- The value of a node that is not nulled is not null. -/
theorem toJson_ne_null (C : Closed e caller gives whole g pos due)
    (filed : ∀ {name T}, e.schema.type? name = some T → T.name = name)
    (R : Roots e caller gives roots given whole) {n : Nat} (lt : n < g.size)
    (free : g.isNulled n = false) : g.toJson n ≠ .null := by
  obtain ⟨V, hV⟩ := Option.ne_none_iff_exists'.mp (C.decided lt)
  obtain ⟨content, shown, shows, notNull, -⟩ := C.shown lt free hV
  cases shows with
  | null => exact absurd rfl notNull
  | leaf u =>
    obtain ⟨b, t, place⟩ := C.place_of_simple filed R lt hV (.inr ⟨u, rfl⟩)
    rw [Graph.toJson_leaf shown]
    exact (leaf_cases place hV).1
  | object entries => rw [C.toJson_object shown]; nofun
  | given entries => rw [C.toJson_object shown]; nofun
  | list ids => rw [C.toJson_list shown]; nofun

/-- A null that is met on the way from a node that is not nulled, or is null itself, is accounted
for. -/
theorem accounts (C : Closed e caller gives whole g pos due)
    (filed : ∀ {name T}, e.schema.type? name = some T → T.name = name)
    (R : Roots e caller gives roots given whole) {n : Nat} {rest : Path} (lt : n < g.size)
    (free : g.content? n = some .null ∨ g.isNulled n = false)
    (meets : (g.toJson n).at? rest = some .null) :
    InCustomScalar e.schema roots ((pos n).path ++ rest) ∨
      (∃ f t, Locates e.schema roots ((pos n).path ++ rest) f t ∧
        Held e caller gives given ((pos n).path ++ rest) f t (.value .null) ∧
        t.isNonNull = false) ∨
      ∃ fault ∈ g.errors, PassedOn e.schema roots ((pos n).path ++ rest) fault.path := by
  induction rest generalizing n with
  | nil =>
    rw [List.append_nil]
    rcases free with isNull | free
    · rcases C.caused filed R lt isNull with hV | ⟨m, fault, hm, hV, passed⟩
      · obtain ⟨b, t, place⟩ := C.place_of_simple filed R lt hV (.inl rfl)
        obtain ⟨W, hW, justified⟩ := place.justified
        cases hV.symm.trans hW
        rcases justified with ⟨w, held, eq⟩ | ⟨_, eq⟩ | ⟨_, eq⟩ <;> try cases eq
        obtain ⟨rfl, nullable⟩ := judge_eq_null eq.symm
        exact .inr (.inl ⟨_, t, place.located, held, nullable⟩)
      · exact .inr (.inr ⟨_, C.reported hm hV, passed⟩)
    · exact absurd (Option.some.inj meets) (C.toJson_ne_null filed R lt free)
  | cons seg rest ih =>
    rcases free with isNull | free
    · rw [Graph.toJson_null isNull] at meets
      cases Json.at?_null meets
    · obtain ⟨V, hV⟩ := Option.ne_none_iff_exists'.mp (C.decided lt)
      obtain ⟨content, shown, shows, -⟩ := C.shown lt free hV
      obtain ⟨v, step, meets⟩ := Option.bind_eq_some_iff.mp meets
      by_cases leaf : ∃ u, content = .leaf u
      · obtain ⟨u, rfl⟩ := leaf
        cases shows
        rw [Graph.toJson_leaf shown] at step
        obtain ⟨b, t, place⟩ := C.place_of_simple filed R lt hV (.inr ⟨u, rfl⟩)
        rcases (leaf_cases place hV).2 with blunt | ⟨notList, T, hT, custom⟩
        · rw [blunt seg] at step
          cases step
        · exact .inl ⟨_, seg :: rest, _, t, T, rfl, nofun, place.located, notList, hT, custom⟩
      · obtain ⟨c, mem, rfl⟩ := (C.step_iff lt free shown fun u eq => leaf ⟨u, eq⟩).mp step
        rw [Graph.content?_eq] at shown
        obtain ⟨y, hy, rfl⟩ := Option.map_eq_some_iff.mp shown
        obtain ⟨x, hx, hp, path⟩ := C.down hy mem
        have beneath := ih (Graph.lt_size hx) (by
          by_cases isNull : g.content? c = some .null
          · exact .inl isNull
          · exact .inr (Graph.free_beneath free hx hp isNull)) meets
        rw [path, List.append_assoc] at beneath
        exact beneath

/-- The errors and the nulls of the answer of a complete graph account for each other. -/
theorem accounted (C : Closed e caller gives whole g pos due)
    (filed : ∀ {name T}, e.schema.type? name = some T → T.name = name)
    (R : Roots e caller gives roots given whole) :
    Accounted e.schema roots (Held e caller gives given) g.response where
  located fault mem := by
    obtain ⟨n, fault, lt, hV, rfl⟩ := C.errors mem
    obtain ⟨x, hx⟩ := Graph.exists_node lt
    rcases Nat.eq_zero_or_pos n with rfl | above
    · rw [C.entry] at hV
      rcases R.composite with ⟨typeName, v, h⟩ | ⟨t, w, h⟩ <;> cases hV.symm.trans h
    · obtain ⟨t, place⟩ := C.place filed R hx above
      exact ⟨_, t, place.located⟩
  distinct := C.once
  meets fault mem := by
    obtain ⟨n, fault, lt, hV, rfl⟩ := C.errors mem
    rw [show g.response.data = g.data from rfl, shown_data]
    rcases C.reads lt with meets | ⟨-, value⟩
    · exact meets
    · have isNull := C.null_of_sole lt (by rw [hV]; trivial)
      exact ⟨_, List.prefix_rfl, value.trans (congrArg some (Graph.toJson_null isNull))⟩
  caused q meets := by
    rw [show g.response.data = g.data from rfl, shown_data] at meets
    have free : g.content? 0 = some .null ∨ g.isNulled 0 = false := by
      by_cases isNull : g.content? 0 = some .null
      · exact .inl isNull
      · exact .inr (C.free_root isNull)
    have accounts := C.accounts filed R C.toPlaced.size_pos free meets
    rw [C.top] at accounts
    exact accounts

end Closed

end

/-! ## Roots -/

section

variable {σ : Type} (e : Engine σ) (gives : Gives) (rootType : String)

/-- The types of the root fields of an operation. -/
def OperationTypes (s : Schema) (fields : List RequestField) (f : RequestField) (t : TypeRef) :
    Prop :=
  f ∈ fields ∧ s.fieldType? rootType f = some t

/-- The type of the root field of an event, as it is declared. -/
def EventTypes (s : Schema) (field f : RequestField) (t : TypeRef) : Prop :=
  f = field ∧ ∃ d, s.field? rootType f.name = some d ∧ t = d.type

end

section

variable {σ : Type} {e : Engine σ} {caller : Caller} {gives : Gives} {rootType : String}

end

/-! ## Answers -/

end GraphQLEngine
