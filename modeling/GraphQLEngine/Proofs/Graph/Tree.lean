import GraphQLEngine.Proofs.Graph.Links
import GraphQLEngine.Proofs.Graph.Runs
import Mathlib.Data.List.Forall2

/-!
# The tree of a complete graph

Reading a complete graph goes down from objects and lists to their children, which stand in the
order of the selection and of the items.  A node that is not nulled shows the verdict on it, and
its children are all there:

    Closed.object     an object has a child for each selected field
    Closed.list       a list has a child for each item
    Closed.given      the root of an event has the child of the event's field
-/

namespace GraphQLEngine

variable {σ : Type}

/-! ## Reading -/

namespace Graph

theorem toJson_leaf {g : Graph} {n : Nat} {v : Json} (h : g.content? n = some (.leaf v)) :
    g.toJson n = v := by
  rw [toJson, h]

theorem toJson_null {g : Graph} {n : Nat} (h : g.content? n = some .null) :
    g.toJson n = .null := by
  rw [toJson, h]

/-- Beneath a node that is not nulled only a null itself is nulled. -/
theorem free_beneath {g : Graph} {n c : Nat} {x : GraphNode} (free : g.isNulled n = false)
    (hx : g.node? c = some x) (hp : x.parent = some n) (notNull : g.content? c ≠ some .null) :
    g.isNulled c = false := by
  rw [content?_eq, hx, Option.map_some] at notNull
  cases nulled : g.isNulled c with
  | false => rfl
  | true =>
    rcases (isNulled_iff hx).mp nulled with isNull | ⟨p, hp', -, up⟩
    · exact absurd (congrArg some isNull) notNull
    · rw [hp, Option.some.injEq] at hp'
      rw [← hp', free] at up
      cases up

theorem data_eq {g : Graph} (h : g.content? 0 ≠ some .null) : g.data = some (g.toJson 0) := by
  unfold data
  split
  · next isNull => exact absurd isNull h
  · rfl

theorem data_null {g : Graph} (h : g.content? 0 = some .null) : g.data = none := by
  rw [data, root, h]

end Graph

/-! ## Children -/

theorem Shows.null_of_sole {c : NodeContent} {V : Option Verdict} (h : Shows c V)
    (sole : Sole V) : c = .null := by
  cases h with
  | null => rfl
  | _ => cases sole

/-- The node `c` is beneath the node `p`, for a field; the verdict on it is one of those allowed. -/
structure Child (g : Graph) (pos : Nat → Entry) (p c : Nat) (key : PathSegment)
    (f : RequestField) (nonNull : Bool) (allowed : Verdict → Prop) : Prop where
  node : ∃ x, g.node? c = some x ∧ x.parent = some p ∧ x.nonNull = nonNull
  lt : p < c
  path : (pos c).path = (pos p).path ++ [key]
  field : (pos c).field = f
  verdict : ∃ W, (pos c).verdict = some W ∧ allowed W

namespace Child

variable {g : Graph} {pos : Nat → Entry} {p c : Nat} {key : PathSegment} {f : RequestField}
  {b : Bool} {allowed : Verdict → Prop}

theorem lt_size (h : Child g pos p c key f b allowed) : c < g.size := by
  obtain ⟨x, hx, -⟩ := h.node
  exact Graph.lt_size hx

theorem free (h : Child g pos p c key f b allowed) (up : g.isNulled p = false)
    (notNull : g.content? c ≠ some .null) : g.isNulled c = false := by
  obtain ⟨x, hx, hp, -⟩ := h.node
  exact Graph.free_beneath up hx hp notNull

/-- A null beneath a node that is not null is allowed. -/
theorem nullable (h : Child g pos p c key f b allowed) (N : Nulls g pos)
    (up : g.isNulled p = false) (isNull : g.content? c = some .null) : b = false := by
  obtain ⟨x, hx, hp, rfl⟩ := h.node
  rw [Graph.content?_eq, hx, Option.map_some, Option.some.injEq] at isNull
  cases nonNull : x.nonNull with
  | false => rfl
  | true =>
    obtain ⟨y, hy⟩ := Graph.exists_node (Nat.lt_trans h.lt (Graph.lt_size hx))
    have := (Graph.isNulled_iff hy).mpr (.inl (N.closed hx hp nonNull isNull hy))
    rw [this] at up
    cases up

end Child

namespace Closed

variable {e : Engine σ} {caller : Caller} {gives : Gives} {whole : Entry} {g : Graph}
  {pos : Nat → Entry} {due : Nat → List PathSegment} {n : Nat} {V : Verdict}

/-- A node that is not nulled shows the verdict on it. -/
theorem shown (C : Closed e caller gives whole g pos due) (lt : n < g.size)
    (free : g.isNulled n = false) (hV : (pos n).verdict = some V) :
    ∃ c, g.content? n = some c ∧ Shows c (some V) ∧ c ≠ .null ∧
      c.children.map Prod.fst = V.keys (pos n).field := by
  obtain ⟨x, hx⟩ := Graph.exists_node lt
  have notNull : x.content ≠ .null := by
    intro isNull
    rw [(Graph.isNulled_iff hx).mpr (.inl isNull)] at free
    cases free
  have keys := C.keys hx notNull hV
  rw [C.done lt free, List.append_nil] at keys
  exact ⟨x.content, by rw [Graph.content?_eq, hx]; rfl, hV ▸ C.toLinked.shows hx, notNull, keys⟩

/-- A child in the content of a node stands at the place of its segment. -/
theorem childOf (C : Closed e caller gives whole g pos due) (hV : (pos n).verdict = some V)
    {content : NodeContent} (shown : g.content? n = some content) {seg : PathSegment} {c : Nat}
    (mem : (seg, c) ∈ content.children) :
    ∃ f b allowed, Slot e caller gives (pos n).field V seg f b allowed ∧
      Child g pos n c seg f b allowed := by
  rw [Graph.content?_eq] at shown
  obtain ⟨y, hy, rfl⟩ := Option.map_eq_some_iff.mp shown
  obtain ⟨x, hx, hp, path⟩ := C.down hy mem
  obtain ⟨lt, W, key, allowed, hW, path', -, slot, fits⟩ := C.toPlaced.beneath hx hp
  rw [hV, Option.some.injEq] at hW
  rw [path, ← List.concat_eq_append, ← List.concat_eq_append] at path'
  obtain ⟨-, rfl⟩ := List.concat_inj.mp path'
  obtain ⟨U, hU⟩ := Option.ne_none_iff_exists'.mp (C.decided (Graph.lt_size hx))
  refine ⟨(pos c).field, x.nonNull, allowed, hW ▸ slot, ?_⟩
  exact ⟨⟨x, hx, hp, rfl⟩, lt, path, rfl, U, hU, fits U hU⟩

/-- The data of an answer is the value of a root that is not nulled. -/
theorem free_of_data (C : Closed e caller gives whole g pos due) {data : Json}
    (h : g.data = some data) : g.isNulled 0 = false ∧ data = g.toJson 0 := by
  obtain ⟨x, hx, none, -⟩ := C.root
  have notNull : g.content? 0 ≠ some .null := by
    intro isNull
    rw [Graph.data_null isNull] at h
    cases h
  rw [Graph.data_eq notNull, Option.some.injEq] at h
  refine ⟨?_, h.symm⟩
  cases nulled : g.isNulled 0 with
  | false => rfl
  | true =>
    rcases (Graph.isNulled_iff hx).mp nulled with isNull | ⟨p, hp, -⟩
    · rw [Graph.content?_eq, hx] at notNull
      exact absurd (congrArg some isNull) notNull
    · rw [none] at hp
      cases hp

theorem content?_ne_null (C : Closed e caller gives whole g pos due) (lt : n < g.size)
    (free : g.isNulled n = false) : g.content? n ≠ some .null := by
  obtain ⟨V, hV⟩ := Option.ne_none_iff_exists'.mp (C.decided lt)
  obtain ⟨c, hc, -, notNull, -⟩ := C.shown lt free hV
  rw [hc]
  exact fun h => notNull (Option.some.inj h)

/-- In a graph that is complete nothing waits. -/
theorem notPending (C : Closed e caller gives whole g pos due) (n : Nat) :
    g.content? n ≠ some .pending := by
  intro pending
  rw [Graph.content?_eq] at pending
  obtain ⟨x, hx, isPending⟩ := Option.map_eq_some_iff.mp pending
  have shows := C.toLinked.shows hx
  rw [isPending] at shows
  apply C.decided (Graph.lt_size hx)
  cases h : (pos n).verdict with
  | none => rfl
  | some V => rw [h] at shows; cases shows

/-- A verdict that has no children is shown as a leaf. -/
theorem leafOf (C : Closed e caller gives whole g pos due) (lt : n < g.size)
    (free : g.isNulled n = false) {v : Json} (hV : (pos n).verdict = some (.leaf v)) :
    g.content? n = some (.leaf v) := by
  obtain ⟨c, shown, shows, notNull, -⟩ := C.shown lt free hV
  cases shows with
  | null => exact absurd rfl notNull
  | leaf => exact shown

/-- A null or a failed node is null. -/
theorem null_of_sole (C : Closed e caller gives whole g pos due) (lt : n < g.size)
    (sole : Sole (pos n).verdict) : g.content? n = some .null := by
  obtain ⟨x, hx⟩ := Graph.exists_node lt
  rw [Graph.content?_eq, hx, Option.map_some, (C.toLinked.shows hx).null_of_sole sole]

/-- The children in the content of a node come after it. -/
theorem bounds (C : Closed e caller gives whole g pos due) {content : NodeContent}
    (shown : g.content? n = some content) {seg : PathSegment} {c : Nat}
    (mem : (seg, c) ∈ content.children) : n < c ∧ c < g.size := by
  rw [Graph.content?_eq] at shown
  obtain ⟨y, hy, rfl⟩ := Option.map_eq_some_iff.mp shown
  obtain ⟨x, hx, hp, -⟩ := C.down hy mem
  exact ⟨(C.toPlaced.beneath hx hp).1, Graph.lt_size hx⟩

theorem toJson_object (C : Closed e caller gives whole g pos due) {entries : OrderedMap Nat}
    (shown : g.content? n = some (.object entries)) :
    g.toJson n = .obj (entries.map fun entry => (entry.1, g.toJson entry.2)) :=
  Graph.toJson_object shown fun _ mem => C.bounds shown mem

theorem toJson_list (C : Closed e caller gives whole g pos due) {ids : List Nat}
    (shown : g.content? n = some (.list ids)) : g.toJson n = .arr (ids.map g.toJson) :=
  Graph.toJson_list shown fun _ mem => C.bounds shown mem

/-- The entries of an object of selected fields: one child for each field, in their order. -/
theorem entries (C : Closed e caller gives whole g pos due)
    (lt : n < g.size) (hV : (pos n).verdict = some V) {entries : OrderedMap Nat}
    (content : g.content? n = some (.object entries))
    (names : entries.map Prod.fst = (pos n).field.subfields.map RequestField.outputName)
    (nonNull : RequestField → Bool) (allowed : RequestField → Verdict → Prop)
    (slots : ∀ {key f b A}, Slot e caller gives (pos n).field V key f b A →
      f ∈ (pos n).field.subfields ∧ key = .field f.outputName ∧ b = nonNull f ∧ A = allowed f) :
    List.Forall₂ (fun sub entry => entry.1 = sub.outputName ∧
      Child g pos n entry.2 (.field sub.outputName) sub (nonNull sub) (allowed sub))
      (pos n).field.subfields entries := by
  have nodup := (C.toPlaced.distinct lt).nodup
  have size := congrArg List.length names
  rw [List.length_map, List.length_map] at size
  refine List.forall₂_iff_get.mpr ⟨size.symm, fun i hi hi' => ?_⟩
  simp only [List.get_eq_getElem]
  have name : entries[i].1 = (pos n).field.subfields[i].outputName := by
    have := congrArg (fun l => l[i]?) names
    simpa [hi, hi'] using this
  have mem : (PathSegment.field entries[i].1, entries[i].2) ∈
      (NodeContent.object entries).children :=
    List.mem_map.mpr ⟨entries[i], List.getElem_mem hi', rfl⟩
  obtain ⟨f, b, A, slot, child⟩ := C.childOf hV content mem
  obtain ⟨memf, key, rfl, rfl⟩ := slots slot
  rw [name, PathSegment.field.injEq] at key
  have same : f = (pos n).field.subfields[i] :=
    List.inj_on_of_nodup_map nodup memf (List.getElem_mem hi) key.symm
  subst same
  exact ⟨name, name ▸ child⟩

/-- An object that is not nulled has a child for each selected field. -/
theorem object (C : Closed e caller gives whole g pos due) (lt : n < g.size)
    (free : g.isNulled n = false) {typeName : String} {v : Json}
    (hV : (pos n).verdict = some (.object typeName v)) :
    ∃ entries : OrderedMap Nat,
      g.toJson n = .obj (entries.map fun entry => (entry.1, g.toJson entry.2)) ∧
      List.Forall₂ (fun sub entry => entry.1 = sub.outputName ∧
        Child g pos n entry.2 (.field sub.outputName) sub (e.schema.excludesNull typeName sub)
          (Resolved e caller gives typeName v sub)) (pos n).field.subfields entries := by
  obtain ⟨c, shown, shows, notNull, keys⟩ := C.shown lt free hV
  cases shows with
  | null => exact absurd rfl notNull
  | object entries =>
    rw [NodeContent.fst_children_object, Verdict.keys, ← Function.comp_def,
      ← List.map_map] at keys
    have names := (List.map_injective_iff.mpr fun a b h => PathSegment.field.inj h) keys
    exact ⟨entries, C.toJson_object shown,
      C.entries lt hV shown names _ _ fun slot => Slot.of_object slot⟩

/-- The root of an event that is not nulled has the child of the event's field. -/
theorem given (C : Closed e caller gives whole g pos due) (lt : n < g.size)
    (free : g.isNulled n = false) {t : TypeRef} {w : Settled} {sub : RequestField}
    (hV : (pos n).verdict = some (.given t w)) (single : (pos n).field.subfields = [sub]) :
    ∃ c, g.toJson n = .obj [(sub.outputName, g.toJson c)] ∧
      Child g pos n c (.field sub.outputName) sub t.isNonNull
        (· = judge e.schema sub.name t w) := by
  obtain ⟨c, shown, shows, notNull, keys⟩ := C.shown lt free hV
  cases shows with
  | null => exact absurd rfl notNull
  | given entries =>
    rw [NodeContent.fst_children_object, Verdict.keys, ← Function.comp_def,
      ← List.map_map] at keys
    have names := (List.map_injective_iff.mpr fun a b h => PathSegment.field.inj h) keys
    have fits := C.entries lt hV shown names (fun _ => t.isNonNull)
      (fun f => (· = judge e.schema f.name t w)) fun slot => by
        cases slot with
        | given eq => exact ⟨by simp [eq], rfl, rfl, rfl⟩
    rw [single] at fits
    cases fits with
    | cons h rest =>
      cases rest
      next entry =>
        obtain ⟨name, c⟩ := entry
        obtain ⟨rfl, child⟩ := h
        exact ⟨c, C.toJson_object shown, child⟩

/-- A list that is not nulled has a child for each item. -/
theorem list (C : Closed e caller gives whole g pos due) (lt : n < g.size)
    (free : g.isNulled n = false) {t : TypeRef} {items : List Settled}
    (hV : (pos n).verdict = some (.list t items)) :
    ∃ ids, g.toJson n = .arr (ids.map g.toJson) ∧
      List.Forall₂ (fun w c => ∃ i, Child g pos n c (.index i) (pos n).field t.isNonNull
        (· = judge e.schema (pos n).field.name t w)) items ids := by
  obtain ⟨c, shown, shows, notNull, keys⟩ := C.shown lt free hV
  cases shows with
  | null => exact absurd rfl notNull
  | list ids =>
    refine ⟨ids, C.toJson_list shown, ?_⟩
    have size := congrArg List.length keys
    rw [NodeContent.fst_children_list, Verdict.keys, List.length_map, List.length_map,
      List.length_range, List.length_range] at size
    refine List.forall₂_iff_get.mpr ⟨size.symm, fun i hi hi' => ?_⟩
    simp only [List.get_eq_getElem]
    have mem : (PathSegment.index i, ids[i]) ∈ (NodeContent.list ids).children := by
      refine List.mem_map.mpr ⟨(ids[i], i), ?_, rfl⟩
      exact List.mk_mem_zipIdx_iff_getElem?.mpr (List.getElem?_eq_getElem hi')
    obtain ⟨f, b, A, slot, child⟩ := C.childOf hV shown mem
    cases slot with
    | item hw =>
      rw [List.getElem?_eq_getElem hi, Option.some.injEq] at hw
      subst hw
      exact ⟨i, child⟩

end Closed

end GraphQLEngine
