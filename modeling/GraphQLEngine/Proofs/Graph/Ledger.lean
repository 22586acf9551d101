import GraphQLEngine.Execution.Wave
import GraphQLEngine.Proofs.Graph.Nodes
import GraphQLEngine.Proofs.Graph.Verdict
import GraphQLEngine.Proofs.Requests.Fields
import Mathlib.Data.List.Nodup

/-!
# The ledger of a graph

A ledger says of every node of a graph under construction where in the answer it stands, for which
selected field, and what was decided about it.  From this the graph is known: what a node shows
follows from its verdict, every null has a cause, and the errors are those of the failed nodes.

The executor changes a graph in three ways only, and each keeps the ledger:

    Ledger.attach    a node is added beneath an object or a list
    Ledger.fill      a waiting node gets a content
    Ledger.void      a waiting node becomes null, and those above it that must not be null
-/

namespace GraphQLEngine

/-! ## Selected fields -/

/-- Whether null is excluded for a field selected on an object type. -/
def Schema.excludesNull (s : Schema) (typeName : String) (f : RequestField) : Bool :=
  if f.name = typenameField then true
  else
    match s.field? typeName f.name with
    | none => false
    | some d => d.type.isNonNull

/-- What fails a field before its resolver is called. -/
def Engine.refusal {σ : Type} (e : Engine σ) (caller : Caller) (typeName fieldName : String)
    (d : FieldDefinition) : Option FieldError :=
  if caller.identity.satisfies d.access then
    match e.dispatch.resolverFor ⟨typeName, fieldName⟩ with
    | .error fault => some (.internal fault.message)
    | .ok _ => none
  else some .authorization

/-- Which settled values a field of an object (a type and its value) may get. -/
abbrev Gives := String → Json → RequestField → FieldDefinition → Settled → Prop

section

variable {σ : Type} (e : Engine σ) (caller : Caller) (gives : Gives)

/-- What may become of a selected field of an object. -/
inductive Resolved (typeName : String) (v : Json) (f : RequestField) : Verdict → Prop
  | typename : f.name = typenameField → Resolved typeName v f (.leaf (.str typeName))
  | unknown (fault : FieldError) :
    f.name ≠ typenameField → e.schema.field? typeName f.name = none →
      Resolved typeName v f (.failed fault)
  | refused (d : FieldDefinition) (fault : FieldError) :
    f.name ≠ typenameField → e.schema.field? typeName f.name = some d →
      e.refusal caller typeName f.name d = some fault → Resolved typeName v f (.failed fault)
  | given (d : FieldDefinition) (w : Settled) :
    f.name ≠ typenameField → e.schema.field? typeName f.name = some d →
      e.refusal caller typeName f.name d = none → gives typeName v f d w →
      Resolved typeName v f (judge e.schema f.name d.type w)

/-- The places beneath a verdict on a field: the segment that leads there, the field and the
exclusion of null that go with it, and the verdicts that are possible. -/
inductive Slot (f : RequestField) :
    Verdict → PathSegment → RequestField → Bool → (Verdict → Prop) → Prop
  | field {typeName : String} {v : Json} {sub : RequestField} :
    sub ∈ f.subfields →
      Slot f (.object typeName v) (.field sub.outputName) sub (e.schema.excludesNull typeName sub)
        (Resolved e caller gives typeName v sub)
  | item {t : TypeRef} {items : List Settled} {i : Nat} {w : Settled} :
    items[i]? = some w →
      Slot f (.list t items) (.index i) f t.isNonNull (· = judge e.schema f.name t w)
  | given {t : TypeRef} {w : Settled} {sub : RequestField} :
    f.subfields = [sub] →
      Slot f (.given t w) (.field sub.outputName) sub t.isNonNull
        (· = judge e.schema sub.name t w)

theorem Slot.distinct {e : Engine σ} {caller : Caller} {gives : Gives} {f sub : RequestField}
    {V : Verdict} {key : PathSegment} {b : Bool} {allowed : Verdict → Prop}
    (h : Slot e caller gives f V key sub b allowed) (hf : f.Distinct) : sub.Distinct := by
  cases h with
  | field mem => exact hf.sub mem
  | item => exact hf
  | given eq => exact hf.sub (by simp [eq])

/-- The places beneath an object are those of its selected fields. -/
theorem Slot.of_object {e : Engine σ} {caller : Caller} {gives : Gives} {f sub : RequestField}
    {typeName : String} {v : Json} {key : PathSegment} {b : Bool} {allowed : Verdict → Prop}
    (h : Slot e caller gives f (.object typeName v) key sub b allowed) :
    sub ∈ f.subfields ∧ key = .field sub.outputName ∧ b = e.schema.excludesNull typeName sub ∧
      allowed = Resolved e caller gives typeName v sub := by
  cases h with
  | field mem => exact ⟨mem, rfl, rfl, rfl⟩

/-! ## Ledgers -/

/-- The place of a node in the answer, its field, and what was decided about it; nothing is
decided while the node waits. -/
structure Entry where
  path : Path
  field : RequestField
  verdict : Option Verdict

/-- What a node shows of the verdict on it. -/
inductive Shows : NodeContent → Option Verdict → Prop
  | pending : Shows .pending none
  | null (V : Verdict) : Shows .null (some V)
  | leaf (v : Json) : Shows (.leaf v) (some (.leaf v))
  | object (entries : OrderedMap Nat) (typeName : String) (v : Json) :
    Shows (.object entries) (some (.object typeName v))
  | given (entries : OrderedMap Nat) (t : TypeRef) (w : Settled) :
    Shows (.object entries) (some (.given t w))
  | list (ids : List Nat) (t : TypeRef) (items : List Settled) :
    Shows (.list ids) (some (.list t items))

/-- A node is null for its own sake. -/
def Sole : Option Verdict → Prop
  | some .null | some (.failed _) => True
  | _ => False

/-- A node stands at a place beneath another one, whose segments `due` are still to come. -/
def Beneath (p : Entry) (due : List PathSegment) (c : Entry) (nonNull : Bool) : Prop :=
  ∃ V key allowed, p.verdict = some V ∧ c.path = p.path ++ [key] ∧ key ∉ due ∧
    Slot e caller gives p.field V key c.field nonNull allowed ∧ ∀ W, c.verdict = some W → allowed W

variable (g : Graph) (pos : Nat → Entry) (due : Nat → List PathSegment)

/-- Each node but the root stands at a place of its own beneath another one. -/
structure Placed : Prop where
  root : ∃ x, g.node? 0 = some x ∧ x.parent = none ∧ x.nonNull = false
  top : (pos 0).path = []
  child : ∀ {c x}, g.node? c = some x → 0 < c →
    ∃ p, x.parent = some p ∧ p < c ∧ Beneath e caller gives (pos p) (due p) (pos c) x.nonNull
  rest : ∀ {p V}, p < g.size → (pos p).verdict = some V → due p <:+ V.keys (pos p).field
  distinct : ∀ {n}, n < g.size → (pos n).field.Distinct
  unique : ∀ {m n}, m < g.size → n < g.size → (pos m).path = (pos n).path → m = n

/-- A node shows the verdict on it, and has the nodes beneath it as children unless it is null. -/
structure Linked : Prop where
  shows : ∀ {n x}, g.node? n = some x → Shows x.content (pos n).verdict
  up : ∀ {c x p y}, g.node? c = some x → x.parent = some p → g.node? p = some y →
    y.content = .null ∨ ∃ seg, (seg, c) ∈ y.content.children
  down : ∀ {p y seg c}, g.node? p = some y → (seg, c) ∈ y.content.children →
    ∃ x, g.node? c = some x ∧ x.parent = some p ∧ (pos c).path = (pos p).path ++ [seg]
  keys : ∀ {p y V}, g.node? p = some y → y.content ≠ .null → (pos p).verdict = some V →
    y.content.children.map Prod.fst ++ due p = V.keys (pos p).field

/-- Null is passed on by what must not be null; and each null has a cause, the node itself or a
null beneath it that was passed on. -/
structure Nulls : Prop where
  closed : ∀ {c x p y}, g.node? c = some x → x.parent = some p → x.nonNull = true →
    x.content = .null → g.node? p = some y → y.content = .null
  cause : ∀ {n x}, g.node? n = some x → x.content = .null →
    Sole (pos n).verdict ∨
      ∃ c y, g.node? c = some y ∧ y.parent = some n ∧ y.nonNull = true ∧ y.content = .null

/-- The errors are those of the failed nodes, one for each. -/
structure Reported : Prop where
  reported : ∀ {n fault}, n < g.size → (pos n).verdict = some (.failed fault) →
    ReportedError.ofField fault (pos n).path ∈ g.errors
  errors : ∀ {r}, r ∈ g.errors → ∃ n fault, n < g.size ∧
    (pos n).verdict = some (.failed fault) ∧ r = ReportedError.ofField fault (pos n).path
  once : (g.errors.map ReportedError.path).Nodup

/-- The account of a graph: `pos` are the entries of its nodes, and `due` the segments beneath
each node that are still to come. -/
structure Ledger : Prop extends
  Placed e caller gives g pos due, Linked g pos due, Nulls g pos, Reported g pos

end

theorem nodup_keys {f : RequestField} (h : f.Distinct) (V : Verdict) : (V.keys f).Nodup := by
  have fields : (f.subfields.map fun sub => PathSegment.field sub.outputName).Nodup := by
    have inj : Function.Injective PathSegment.field := fun a b h => by cases h; rfl
    simpa [List.map_map, Function.comp_def] using h.nodup.map inj
  cases V with
  | object => exact fields
  | given => exact fields
  | list t items =>
    have inj : Function.Injective PathSegment.index := fun a b h => by cases h; rfl
    exact List.nodup_range.map inj
  | _ => exact List.nodup_nil

theorem Shows.adopt {c : NodeContent} {V : Option Verdict} (h : Shows c V) (child : Nat)
    (seg : PathSegment) : Shows (c.adopt child seg) V := by
  cases h with
  | pending => cases seg <;> exact .pending
  | null V => cases seg <;> exact .null V
  | leaf v => cases seg <;> exact .leaf v
  | object entries => cases seg <;> exact .object _ _ _
  | given entries => cases seg <;> exact .given _ _ _
  | list ids => cases seg <;> exact .list _ _ _

/-- A content that shows a verdict adopts the child that is due next. -/
theorem Shows.children_adopt {c : NodeContent} {V : Verdict} {f : RequestField}
    {key : PathSegment} {rest : List PathSegment} (h : Shows c (some V)) (notNull : c ≠ .null)
    (nodup : (V.keys f).Nodup)
    (keys : c.children.map Prod.fst ++ key :: rest = V.keys f) (child : Nat) :
    (c.adopt child key).children = c.children ++ [(key, child)] := by
  have field : ∀ entries : OrderedMap Nat,
      (NodeContent.object entries).children.map Prod.fst ++ key :: rest =
        (f.subfields.map fun sub => PathSegment.field sub.outputName) →
      (f.subfields.map fun sub => PathSegment.field sub.outputName).Nodup →
      ((NodeContent.object entries).adopt child key).children =
        (NodeContent.object entries).children ++ [(key, child)] := by
    intro entries keys nodup
    have mem : key ∈ f.subfields.map fun sub => PathSegment.field sub.outputName := by
      rw [← keys]; simp
    obtain ⟨sub, -, rfl⟩ := List.mem_map.mp mem
    apply NodeContent.children_adopt_field
    intro used
    rw [← keys, NodeContent.fst_children_object, List.nodup_append] at nodup
    exact nodup.2.2 _ (List.mem_map_of_mem used) _ List.mem_cons_self rfl
  cases h with
  | null => exact absurd rfl notNull
  | leaf v => simp [NodeContent.children, Verdict.keys] at keys
  | object entries typeName v => exact field entries keys nodup
  | given entries t w => exact field entries keys nodup
  | list ids t items =>
    simp only [Verdict.keys] at keys
    rw [NodeContent.fst_children_list] at keys
    -- the first segment that is due is the number of the items that are there
    have at_length := congrArg (fun l => l[ids.length]?) keys
    simp only [List.getElem?_map] at at_length
    rw [List.getElem?_append_right (by simp)] at at_length
    have : key = .index ids.length := by
      by_cases lt : ids.length < items.length
      · simpa [lt] using at_length
      · simp [lt] at at_length
    rw [this]
    exact NodeContent.children_adopt_index ids child ids.length

section

variable {σ : Type} {e : Engine σ} {caller : Caller} {gives : Gives} {g : Graph}
  {pos : Nat → Entry} {due : Nat → List PathSegment}

namespace Placed

theorem size_pos (P : Placed e caller gives g pos due) : 0 < g.size := by
  obtain ⟨x, hx, -⟩ := P.root
  exact Graph.lt_size hx

/-- A node with a parent stands at a place beneath it. -/
theorem beneath (P : Placed e caller gives g pos due) {c p : Nat} {x : GraphNode}
    (hx : g.node? c = some x) (hp : x.parent = some p) :
    p < c ∧ Beneath e caller gives (pos p) (due p) (pos c) x.nonNull := by
  have pos : 0 < c := by
    rcases Nat.eq_zero_or_pos c with rfl | h
    · obtain ⟨y, hy, none, -⟩ := P.root
      rw [hx, Option.some.injEq] at hy
      rw [hy, none] at hp
      cases hp
    · exact h
  obtain ⟨q, hq, lt, h⟩ := P.child hx pos
  rw [hp, Option.some.injEq] at hq
  exact hq ▸ ⟨lt, h⟩

theorem parent_lt_size (P : Placed e caller gives g pos due) {c p : Nat} {x : GraphNode}
    (hx : g.node? c = some x) (hp : x.parent = some p) : p < g.size :=
  Nat.lt_trans (P.beneath hx hp).1 (Graph.lt_size hx)

/-- No node is at a place beneath another one that is still due. -/
theorem not_due_of_path (P : Placed e caller gives g pos due) {c p : Nat} {key : PathSegment}
    (hc : c < g.size) (hp : p < g.size) (path : (pos c).path = (pos p).path ++ [key]) :
    key ∉ due p := by
  obtain ⟨x, hx⟩ := Graph.exists_node hc
  have above : 0 < c := by
    rcases Nat.eq_zero_or_pos c with rfl | h
    · rw [P.top] at path; simp at path
    · exact h
  obtain ⟨q, hq, lt, V, key', allowed, hV, hpath, notDue, -⟩ := P.child hx above
  rw [path, ← List.concat_eq_append, ← List.concat_eq_append] at hpath
  obtain ⟨same, rfl⟩ := List.concat_inj.mp hpath
  rw [P.unique hp (by omega) same]
  exact notDue

end Placed

/-! ## Adding a node -/

namespace Ledger

section

variable {p : Nat} {V : Verdict} {key : PathSegment} {rest : List PathSegment} {f : RequestField}
  {b : Bool} {allowed : Verdict → Prop}

theorem placed_attach (P : Placed e caller gives g pos due) (lt : p < g.size)
    (hV : (pos p).verdict = some V) (next : due p = key :: rest)
    (slot : Slot e caller gives (pos p).field V key f b allowed) :
    Placed e caller gives (g.attach p key b)
      (Function.update pos g.size ⟨(pos p).path ++ [key], f, none⟩)
      (Function.update due p rest) := by
  obtain ⟨y, hy⟩ := Graph.exists_node lt
  have new := Function.update_self g.size (⟨(pos p).path ++ [key], f, none⟩ : Entry) pos
  have old : ∀ {m}, m < g.size →
      Function.update pos g.size ⟨(pos p).path ++ [key], f, none⟩ m = pos m :=
    fun h => Function.update_of_ne (Nat.ne_of_lt h) _ _
  have suffix := P.rest lt hV
  rw [next] at suffix
  have lower : ∀ {m}, m < (g.attach p key b).size → m = g.size ∨ m < g.size := by
    intro m h
    rw [Graph.size_attach] at h
    omega
  constructor
  case root =>
    obtain ⟨x, hx, none, free⟩ := P.root
    obtain ⟨c, hc, -⟩ := Graph.grows_attach key b 0 x hx
    exact ⟨_, hc, none, free⟩
  case top => rw [old P.size_pos]; exact P.top
  case child =>
    intro c x' h above
    rcases lower (Graph.lt_size h) with rfl | hc
    · rw [Graph.node?_attach_self key b lt, Option.some.injEq] at h
      subst h
      have notRest : key ∉ rest :=
        (List.nodup_cons.mp (suffix.sublist.nodup (nodup_keys (P.distinct lt) V))).1
      refine ⟨p, rfl, lt, V, key, allowed, ?_, ?_, ?_, ?_, ?_⟩
      · rw [old lt, hV]
      · rw [new, old lt]
      · rw [Function.update_self]; exact notRest
      · rw [new, old lt]; exact slot
      · rw [new]; simp
    · obtain ⟨x, hx, hpar, hnn, -⟩ := Graph.node?_of_attach lt h (Nat.ne_of_lt hc)
      obtain ⟨q, hq, ltq, W, key', allowed', hW, path, notDue, slot', fits⟩ := P.child hx above
      have hq' : q < g.size := by omega
      refine ⟨q, hpar ▸ hq, ltq, W, key', allowed', ?_, ?_, ?_, ?_, ?_⟩
      · rw [old hq', hW]
      · rw [old hc, old hq', path]
      · by_cases hqp : q = p
        · subst hqp
          rw [next] at notDue
          rw [Function.update_self]
          exact fun mem => notDue (List.mem_cons_of_mem _ mem)
        · rw [Function.update_of_ne hqp]; exact notDue
      · rw [old hc, old hq', hnn]; exact slot'
      · rw [old hc]; exact fits
  case rest =>
    intro q W hq hW
    rcases lower hq with rfl | hq
    · rw [new] at hW; cases hW
    · rw [old hq] at hW ⊢
      by_cases hp : q = p
      · subst hp
        rw [hV, Option.some.injEq] at hW
        rw [Function.update_self, ← hW]
        exact (List.suffix_cons key rest).trans suffix
      · rw [Function.update_of_ne hp]
        exact P.rest hq hW
  case distinct =>
    intro n hn
    rcases lower hn with rfl | hn
    · rw [new]; exact slot.distinct (P.distinct lt)
    · rw [old hn]; exact P.distinct hn
  case unique =>
    -- a node at the new place would be beneath `p` with a segment that is still due
    have fresh : ∀ {m}, m < g.size → (pos m).path ≠ (pos p).path ++ [key] := by
      intro m hm path
      exact P.not_due_of_path hm lt path (by rw [next]; exact List.mem_cons_self)
    intro m n hm hn same
    rcases lower hm with rfl | hm <;> rcases lower hn with rfl | hn
    · rfl
    · rw [new, old hn] at same
      exact absurd same.symm (fresh hn)
    · rw [new, old hm] at same
      exact absurd same (fresh hm)
    · rw [old hm, old hn] at same
      exact P.unique hm hn same

theorem linked_attach (P : Placed e caller gives g pos due) (K : Linked g pos due)
    (lt : p < g.size) (hV : (pos p).verdict = some V) (next : due p = key :: rest) :
    Linked (g.attach p key b) (Function.update pos g.size ⟨(pos p).path ++ [key], f, none⟩)
      (Function.update due p rest) := by
  obtain ⟨y, hy⟩ := Graph.exists_node lt
  have new := Function.update_self g.size (⟨(pos p).path ++ [key], f, none⟩ : Entry) pos
  have old : ∀ {m}, m < g.size →
      Function.update pos g.size ⟨(pos p).path ++ [key], f, none⟩ m = pos m :=
    fun h => Function.update_of_ne (Nat.ne_of_lt h) _ _
  have children : y.content ≠ .null →
      (y.content.adopt g.size key).children = y.content.children ++ [(key, g.size)] := by
    intro notNull
    have shows := K.shows hy
    rw [hV] at shows
    exact shows.children_adopt notNull (nodup_keys (P.distinct lt) V)
      (next ▸ K.keys hy notNull hV) g.size
  constructor
  case shows =>
    intro n x' h
    rcases Graph.node?_attach_cases hy h with ⟨rfl, rfl⟩ | ⟨hn, -, hx⟩ | ⟨rfl, rfl⟩
    · rw [new]; exact .pending
    · rw [old hn]; exact K.shows hx
    · rw [old lt]; exact (K.shows hy).adopt _ _
  case up =>
    intro c x' q y' hx' hq hy'
    by_cases hc : c = g.size
    · subst hc
      rw [Graph.node?_attach_self key b lt, Option.some.injEq] at hx'
      rw [← hx', Option.some.injEq] at hq
      subst hq
      rw [Graph.node?_attach_parent key b hy, Option.some.injEq] at hy'
      subst hy'
      by_cases isNull : y.content = .null
      · exact .inl (NodeContent.adopt_eq_null.mpr isNull)
      · exact .inr ⟨key, by simp [children isNull]⟩
    · obtain ⟨x, hx, hpar, -, -⟩ := Graph.node?_of_attach lt hx' hc
      rw [hpar] at hq
      have ltq := P.parent_lt_size hx hq
      rcases Graph.node?_attach_cases hy hy' with ⟨rfl, -⟩ | ⟨-, -, hz⟩ | ⟨rfl, rfl⟩
      · omega
      · exact K.up hx hq hz
      · rcases K.up hx hq hy with isNull | ⟨seg, mem⟩
        · exact .inl (NodeContent.adopt_eq_null.mpr isNull)
        · by_cases isNull : y.content = .null
          · exact .inl (NodeContent.adopt_eq_null.mpr isNull)
          · exact .inr ⟨seg, by rw [children isNull]; exact List.mem_append_left _ mem⟩
  case down =>
    have keep : ∀ {q z seg c}, g.node? q = some z → (seg, c) ∈ z.content.children →
        ∃ x, (g.attach p key b).node? c = some x ∧ x.parent = some q ∧
          (Function.update pos g.size ⟨(pos p).path ++ [key], f, none⟩ c).path =
            (Function.update pos g.size ⟨(pos p).path ++ [key], f, none⟩ q).path ++ [seg] := by
      intro q z seg c hz mem
      obtain ⟨x, hx, hpar, path⟩ := K.down hz mem
      obtain ⟨u, hu, -⟩ := Graph.grows_attach key b c x hx
      exact ⟨_, hu, hpar, by rw [old (Graph.lt_size hx), old (Graph.lt_size hz), path]⟩
    intro q y' seg c hy' mem
    rcases Graph.node?_attach_cases hy hy' with ⟨rfl, rfl⟩ | ⟨-, -, hz⟩ | ⟨rfl, rfl⟩
    · cases mem
    · exact keep hz mem
    · by_cases isNull : y.content = .null
      · simp [isNull, NodeContent.children] at mem
      · simp only [children isNull, List.mem_append, List.mem_singleton, Prod.mk.injEq] at mem
        rcases mem with mem | ⟨rfl, rfl⟩
        · exact keep hy mem
        · exact ⟨_, Graph.node?_attach_self _ _ lt, rfl, by rw [new, old lt]⟩
  case keys =>
    intro q y' W hy' notNull hW
    rcases Graph.node?_attach_cases hy hy' with ⟨rfl, rfl⟩ | ⟨hq, hp, hz⟩ | ⟨rfl, rfl⟩
    · rw [new] at hW; cases hW
    · rw [old hq] at hW ⊢
      rw [Function.update_of_ne hp]
      exact K.keys hz notNull hW
    · rw [old lt] at hW ⊢
      have isNull : y.content ≠ .null := fun h => notNull (NodeContent.adopt_eq_null.mpr h)
      have := K.keys hy isNull hW
      rw [next] at this
      simpa [children isNull, Function.update_self] using this

theorem nulls_attach (P : Placed e caller gives g pos due) (N : Nulls g pos) (lt : p < g.size) :
    Nulls (g.attach p key b) (Function.update pos g.size ⟨(pos p).path ++ [key], f, none⟩) := by
  have notNew : ∀ {m x}, (g.attach p key b).node? m = some x → x.content = .null → m ≠ g.size := by
    rintro m x h isNull rfl
    rw [Graph.node?_attach_self key b lt, Option.some.injEq] at h
    rw [← h] at isNull
    cases isNull
  constructor
  case closed =>
    intro c x' q y' hx' hq nonNull isNull hy'
    obtain ⟨x, hx, hpar, hnn, nulls⟩ := Graph.node?_of_attach lt hx' (notNew hx' isNull)
    rw [hpar] at hq
    have ltq := P.parent_lt_size hx hq
    obtain ⟨z, hz, -, -, nulls'⟩ := Graph.node?_of_attach lt hy' (Nat.ne_of_lt ltq)
    exact nulls'.mpr (N.closed hx hq (hnn ▸ nonNull) (nulls.mp isNull) hz)
  case cause =>
    intro n x' hx' isNull
    have hn := notNew hx' isNull
    obtain ⟨x, hx, -, -, nulls⟩ := Graph.node?_of_attach lt hx' hn
    rw [Function.update_of_ne hn]
    rcases N.cause hx (nulls.mp isNull) with sole | ⟨c, z, hz, hpar, hnn, isNull'⟩
    · exact .inl sole
    · obtain ⟨u, hu, null⟩ := Graph.grows_attach key b c z hz
      exact .inr ⟨c, _, hu, hpar, hnn, null isNull'⟩

theorem reported_attach (R : Reported g pos) :
    Reported (g.attach p key b)
      (Function.update pos g.size ⟨(pos p).path ++ [key], f, none⟩) := by
  constructor
  case reported =>
    intro n fault hn hW
    rw [Graph.size_attach] at hn
    by_cases h : n = g.size
    · rw [h, Function.update_self] at hW
      cases hW
    · rw [Function.update_of_ne h] at hW ⊢
      rw [Graph.errors_attach]
      exact R.reported (by omega) hW
  case errors =>
    intro r hr
    rw [Graph.errors_attach] at hr
    obtain ⟨n, fault, hn, hW, eq⟩ := R.errors hr
    refine ⟨n, fault, ?_, ?_, ?_⟩
    · rw [Graph.size_attach]; omega
    · rw [Function.update_of_ne (Nat.ne_of_lt hn), hW]
    · rw [Function.update_of_ne (Nat.ne_of_lt hn), eq]
  case once => rw [Graph.errors_attach]; exact R.once

/-- Add the node that is due next beneath an object or a list. -/
theorem attach (L : Ledger e caller gives g pos due) (lt : p < g.size)
    (hV : (pos p).verdict = some V) (next : due p = key :: rest)
    (slot : Slot e caller gives (pos p).field V key f b allowed) :
    Ledger e caller gives (g.attach p key b)
      (Function.update pos g.size ⟨(pos p).path ++ [key], f, none⟩)
      (Function.update due p rest) where
  toPlaced := placed_attach L.toPlaced lt hV next slot
  toLinked := linked_attach L.toPlaced L.toLinked lt hV next
  toNulls := nulls_attach L.toPlaced L.toNulls lt
  toReported := reported_attach L.toReported

end

/-! ## Deciding about a node -/

section

variable {n : Nat} {V : Verdict} {g' : Graph}

/-- The entries once a verdict on a node was given. -/
def decide (pos : Nat → Entry) (n : Nat) (V : Verdict) : Nat → Entry :=
  Function.update pos n { pos n with verdict := some V }

@[simp] theorem path_decide (m : Nat) : (decide pos n V m).path = (pos m).path := by
  by_cases h : m = n
  · rw [h, decide, Function.update_self]
  · rw [decide, Function.update_of_ne h]

@[simp] theorem field_decide (m : Nat) : (decide pos n V m).field = (pos m).field := by
  by_cases h : m = n
  · rw [h, decide, Function.update_self]
  · rw [decide, Function.update_of_ne h]

@[simp] theorem verdict_decide_self : (decide pos n V n).verdict = some V := by
  rw [decide, Function.update_self]

theorem decide_of_ne {m : Nat} (h : m ≠ n) : decide pos n V m = pos m :=
  Function.update_of_ne h _ _

/-- A node on which there is no verdict has nothing beneath it. -/
theorem parent_ne (P : Placed e caller gives g pos due) (waiting : (pos n).verdict = none)
    {c p : Nat} {x : GraphNode} (hx : g.node? c = some x) (hp : x.parent = some p) : p ≠ n := by
  rintro rfl
  obtain ⟨-, W, -, -, hW, -⟩ := P.beneath hx hp
  rw [waiting] at hW
  cases hW

theorem placed_decide (P : Placed e caller gives g pos due) (grows : Graph.Grows g g')
    (size : g'.size = g.size) (waiting : (pos n).verdict = none)
    (fits : ∀ {x p}, g.node? n = some x → x.parent = some p →
      Beneath e caller gives (pos p) (due p) { pos n with verdict := some V } x.nonNull)
    {ks : List PathSegment} (suffix : ks <:+ V.keys (pos n).field) :
    Placed e caller gives g' (decide pos n V) (Function.update due n ks) := by
  have before : ∀ {m x'}, g'.node? m = some x' →
      ∃ x, g.node? m = some x ∧ x'.parent = x.parent ∧ x'.nonNull = x.nonNull := by
    intro m x' h
    have lt := Graph.lt_size h
    rw [size] at lt
    obtain ⟨x, hx, hpar, hnn, -⟩ := grows.node?_of h lt
    exact ⟨x, hx, hpar, hnn⟩
  constructor
  case root =>
    obtain ⟨x, hx, none, free⟩ := P.root
    obtain ⟨c, hc, -⟩ := grows 0 x hx
    exact ⟨_, hc, none, free⟩
  case top => rw [path_decide, P.top]
  case child =>
    intro c x' hx' above
    obtain ⟨x, hx, hpar, hnn⟩ := before hx'
    obtain ⟨q, hq, ltq, beneath⟩ := P.child hx above
    have hqn := parent_ne P waiting hx hq
    rw [hpar, hnn]
    refine ⟨q, hq, ltq, ?_⟩
    rw [decide_of_ne hqn, Function.update_of_ne hqn]
    by_cases hc : c = n
    · subst hc
      rw [decide, Function.update_self]
      exact fits hx hq
    · rw [decide_of_ne hc]
      exact beneath
  case rest =>
    intro q W hq hW
    rw [field_decide]
    by_cases h : q = n
    · subst h
      rw [verdict_decide_self, Option.some.injEq] at hW
      rw [Function.update_self, ← hW]
      exact suffix
    · rw [decide_of_ne h] at hW
      rw [Function.update_of_ne h]
      exact P.rest (size ▸ hq) hW
  case distinct =>
    intro m hm
    rw [field_decide]
    exact P.distinct (size ▸ hm)
  case unique =>
    intro m m' hm hm' same
    rw [path_decide, path_decide] at same
    exact P.unique (size ▸ hm) (size ▸ hm') same

/-- The content of a node on which there is no verdict yet. -/
theorem content_of_waiting (K : Linked g pos due) {x : GraphNode} (hx : g.node? n = some x)
    (waiting : (pos n).verdict = none) : x.content = .pending := by
  have shows := K.shows hx
  rw [waiting] at shows
  generalize x.content = c at shows
  cases shows
  rfl

theorem linked_fill (P : Placed e caller gives g pos due) (K : Linked g pos due)
    (waiting : (pos n).verdict = none) {c : NodeContent} (shows : Shows c (some V))
    (childless : c.children = []) :
    Linked (g.setContent n c) (decide pos n V)
      (Function.update due n (V.keys (pos n).field)) := by
  have at_n : ∀ {x'}, (g.setContent n c).node? n = some x' → x'.content = c := by
    intro x' h
    rw [Graph.node?_setContent, if_pos rfl] at h
    obtain ⟨x, -, rfl⟩ := Option.map_eq_some_iff.mp h
    rfl
  have before : ∀ {m x'}, (g.setContent n c).node? m = some x' → m ≠ n → g.node? m = some x' := by
    intro m x' h hm
    rwa [Graph.node?_setContent, if_neg hm] at h
  have parents : ∀ {m x'}, (g.setContent n c).node? m = some x' →
      ∃ x, g.node? m = some x ∧ x.parent = x'.parent := by
    intro m x' h
    by_cases hm : m = n
    · rw [Graph.node?_setContent, if_pos hm] at h
      obtain ⟨x, hx, rfl⟩ := Option.map_eq_some_iff.mp h
      exact ⟨x, hx, rfl⟩
    · exact ⟨x', before h hm, rfl⟩
  constructor
  case shows =>
    intro m x' h
    by_cases hm : m = n
    · subst hm
      rw [at_n h, verdict_decide_self]
      exact shows
    · rw [decide_of_ne hm]
      exact K.shows (before h hm)
  case up =>
    intro m x' q y' hx' hq hy'
    obtain ⟨x, hx, hpar⟩ := parents hx'
    exact K.up hx (hpar ▸ hq) (before hy' (parent_ne P waiting hx (hpar ▸ hq)))
  case down =>
    intro q y' seg m hy' mem
    by_cases hq : q = n
    · subst hq
      rw [at_n hy', childless] at mem
      cases mem
    · obtain ⟨x, hx, hpar, path⟩ := K.down (before hy' hq) mem
      rw [path_decide, path_decide]
      by_cases hm : m = n
      · subst hm
        exact ⟨{ x with content := c }, by rw [Graph.node?_setContent, if_pos rfl, hx]; rfl, hpar,
          path⟩
      · exact ⟨x, by rw [Graph.node?_setContent, if_neg hm, hx], hpar, path⟩
  case keys =>
    intro q y' W hy' notNull hW
    rw [field_decide]
    by_cases hq : q = n
    · subst hq
      rw [verdict_decide_self, Option.some.injEq] at hW
      rw [at_n hy', childless, Function.update_self, hW]
      rfl
    · rw [decide_of_ne hq] at hW
      rw [Function.update_of_ne hq]
      exact K.keys (before hy' hq) notNull hW

theorem nulls_fill (K : Linked g pos due) (N : Nulls g pos) (waiting : (pos n).verdict = none)
    {c : NodeContent} (notNull : c ≠ .null) : Nulls (g.setContent n c) (decide pos n V) := by
  have old : ∀ {m x'}, (g.setContent n c).node? m = some x' → x'.content = .null →
      m ≠ n ∧ g.node? m = some x' := by
    intro m x' h isNull
    rw [Graph.node?_setContent] at h
    by_cases hm : m = n
    · rw [if_pos hm] at h
      obtain ⟨x, -, rfl⟩ := Option.map_eq_some_iff.mp h
      exact absurd isNull notNull
    · rw [if_neg hm] at h
      exact ⟨hm, h⟩
  have nulled : ∀ {m x}, g.node? m = some x → x.content = .null →
      m ≠ n ∧ (g.setContent n c).node? m = some x := by
    intro m x h isNull
    have hm : m ≠ n := by
      rintro rfl
      rw [content_of_waiting K h waiting] at isNull
      cases isNull
    exact ⟨hm, by rw [Graph.node?_setContent, if_neg hm, h]⟩
  constructor
  case closed =>
    intro m x' q y' hx' hq nonNull isNull hy'
    obtain ⟨hm, hx⟩ := old hx' isNull
    by_cases hqn : q = n
    · subst hqn
      rw [Graph.node?_setContent, if_pos rfl] at hy'
      obtain ⟨y, hy, rfl⟩ := Option.map_eq_some_iff.mp hy'
      have := N.closed hx hq nonNull isNull hy
      rw [content_of_waiting K hy waiting] at this
      cases this
    · rw [Graph.node?_setContent, if_neg hqn] at hy'
      exact N.closed hx hq nonNull isNull hy'
  case cause =>
    intro m x' hx' isNull
    obtain ⟨hm, hx⟩ := old hx' isNull
    rw [decide_of_ne hm]
    rcases N.cause hx isNull with sole | ⟨m', y, hy, hpar, hnn, isNull'⟩
    · exact .inl sole
    · exact .inr ⟨m', y, (nulled hy isNull').2, hpar, hnn, isNull'⟩

/-- A verdict that is no failure leaves the errors as they are. -/
theorem reported_decide (R : Reported g pos) (size : g'.size = g.size)
    (errors : g'.errors = g.errors) (waiting : (pos n).verdict = none)
    (fine : ∀ fault, V ≠ .failed fault) : Reported g' (decide pos n V) := by
  have failed : ∀ {m fault}, (decide pos n V m).verdict = some (.failed fault) ↔
      (pos m).verdict = some (.failed fault) := by
    intro m fault
    by_cases hm : m = n
    · subst hm
      rw [verdict_decide_self, waiting]
      simpa using fine fault
    · rw [decide_of_ne hm]
  constructor
  case reported =>
    intro m fault hm hW
    rw [errors, path_decide]
    exact R.reported (size ▸ hm) (failed.mp hW)
  case errors =>
    intro r hr
    obtain ⟨m, fault, hm, hW, eq⟩ := R.errors (errors ▸ hr)
    exact ⟨m, fault, size ▸ hm, failed.mpr hW, by rw [path_decide, eq]⟩
  case once => rw [errors]; exact R.once

/-- Give a waiting node a content. -/
theorem fill (L : Ledger e caller gives g pos due) (lt : n < g.size)
    (waiting : (pos n).verdict = none)
    (fits : ∀ {x p}, g.node? n = some x → x.parent = some p →
      Beneath e caller gives (pos p) (due p) { pos n with verdict := some V } x.nonNull)
    {c : NodeContent} (shows : Shows c (some V)) (notNull : c ≠ .null)
    (childless : c.children = []) :
    Ledger e caller gives (g.setContent n c) (decide pos n V)
      (Function.update due n (V.keys (pos n).field)) := by
  obtain ⟨x, hx⟩ := Graph.exists_node lt
  have grows := Graph.grows_setContent c hx (content_of_waiting L.toLinked hx waiting)
  have fine : ∀ fault, V ≠ .failed fault := by
    rintro fault rfl
    cases shows
    exact notNull rfl
  exact {
    toPlaced := placed_decide L.toPlaced grows (by simp) waiting fits (List.suffix_refl _)
    toLinked := linked_fill L.toPlaced L.toLinked waiting shows childless
    toNulls := nulls_fill L.toLinked L.toNulls waiting notNull
    toReported := reported_decide L.toReported (by simp) rfl waiting fine }

/-! ## Null -/

theorem linked_void (P : Placed e caller gives g pos due) (K : Linked g pos due)
    (lt : n < g.size) :
    Linked (g.nullify n) (decide pos n V) (Function.update due n []) := by
  have first := Graph.mem_nullChain_self lt
  have hit : ∀ {m x'}, (g.nullify n).node? m = some x' → m ∈ g.nullChain n →
      x'.content = .null := by
    intro m x' h mem
    rw [Graph.node?_nullify, if_pos mem] at h
    obtain ⟨x, -, rfl⟩ := Option.map_eq_some_iff.mp h
    rfl
  have spared : ∀ {m x'}, (g.nullify n).node? m = some x' → m ∉ g.nullChain n →
      g.node? m = some x' ∧ m ≠ n := by
    intro m x' h mem
    rw [Graph.node?_nullify, if_neg mem] at h
    exact ⟨h, fun e => mem (e ▸ first)⟩
  constructor
  case shows =>
    intro m x' hx'
    by_cases mem : m ∈ g.nullChain n
    · rw [hit hx' mem]
      by_cases hm : m = n
      · rw [hm, verdict_decide_self]
        exact .null V
      · -- a node above `n` has a verdict, since something is beneath it
        obtain ⟨c, x, -, hx, hp, -⟩ := Graph.exists_below_of_mem_nullChain mem hm
        obtain ⟨-, W, -, -, hW, -⟩ := P.beneath hx hp
        rw [decide_of_ne hm, hW]
        exact .null W
    · obtain ⟨hx, hm⟩ := spared hx' mem
      rw [decide_of_ne hm]
      exact K.shows hx
  case up =>
    intro c x' q y' hx' hq hy'
    by_cases mem : q ∈ g.nullChain n
    · exact .inl (hit hy' mem)
    · have size := Graph.lt_size hx'
      rw [Graph.size_nullify] at size
      obtain ⟨x, hx, hpar, -⟩ := (Graph.grows_nullify g n).node?_of hx' size
      exact K.up hx (hpar ▸ hq) (spared hy' mem).1
  case down =>
    intro q y' seg c hy' mem
    by_cases hit' : q ∈ g.nullChain n
    · rw [hit hy' hit'] at mem
      cases mem
    · obtain ⟨x, hx, hpar, path⟩ := K.down (spared hy' hit').1 mem
      obtain ⟨u, hu, -⟩ := Graph.grows_nullify g n c x hx
      exact ⟨_, hu, hpar, by rw [path_decide, path_decide, path]⟩
  case keys =>
    intro q y' W hy' notNull hW
    obtain ⟨hy, hq⟩ := spared hy' fun mem => notNull (hit hy' mem)
    rw [decide_of_ne hq] at hW ⊢
    rw [Function.update_of_ne hq]
    exact K.keys hy notNull hW

theorem nulls_void (P : Placed e caller gives g pos due) (N : Nulls g pos)
    (sole : Sole (some V)) : Nulls (g.nullify n) (decide pos n V) := by
  have grows := Graph.grows_nullify g n
  have before : ∀ {m x'}, (g.nullify n).node? m = some x' →
      ∃ x, g.node? m = some x ∧ x'.parent = x.parent ∧ x'.nonNull = x.nonNull ∧
        (m ∉ g.nullChain n → x' = x) := by
    intro m x' h
    have lt := Graph.lt_size h
    rw [Graph.size_nullify] at lt
    obtain ⟨x, hx, hpar, hnn, -⟩ := grows.node?_of h lt
    refine ⟨x, hx, hpar, hnn, fun mem => ?_⟩
    rw [Graph.node?_nullify, if_neg mem, hx, Option.some.injEq] at h
    exact h.symm
  constructor
  case closed =>
    intro c x' q y' hx' hq nonNull isNull hy'
    obtain ⟨x, hx, hpar, hnn, same⟩ := before hx'
    obtain ⟨y, hy, -, -, same'⟩ := before hy'
    rw [hpar] at hq
    have up : q ∈ g.nullChain n → y'.content = .null := by
      intro mem
      rw [Graph.node?_nullify, if_pos mem] at hy'
      obtain ⟨z, -, rfl⟩ := Option.map_eq_some_iff.mp hy'
      rfl
    by_cases mem : c ∈ g.nullChain n
    · exact up (Graph.mem_nullChain_parent mem hx hq (P.beneath hx hq).1 (hnn ▸ nonNull))
    · by_cases mem' : q ∈ g.nullChain n
      · exact up mem'
      · rw [same' mem']
        exact N.closed hx hq (hnn ▸ nonNull) (same mem ▸ isNull) hy
  case cause =>
    intro m x' hx' isNull
    by_cases hm : m = n
    · exact .inl (by rw [hm, verdict_decide_self]; exact sole)
    · rw [decide_of_ne hm]
      have below : ∀ {c y}, g.node? c = some y → y.parent = some m → y.nonNull = true →
          (c ∈ g.nullChain n ∨ y.content = .null) →
          ∃ c y, (g.nullify n).node? c = some y ∧ y.parent = some m ∧ y.nonNull = true ∧
            y.content = .null := by
        intro c y hy hpar hnn why
        obtain ⟨u, hu, null⟩ := grows c y hy
        refine ⟨c, _, hu, hpar, hnn, ?_⟩
        rcases why with mem | isNull'
        · rw [Graph.node?_nullify, if_pos mem, hy] at hu
          exact (congrArg GraphNode.content (Option.some.inj hu)).symm
        · exact null isNull'
      obtain ⟨x, hx, -, -, same⟩ := before hx'
      by_cases mem : m ∈ g.nullChain n
      · obtain ⟨c, y, hc, hy, hpar, hnn⟩ := Graph.exists_below_of_mem_nullChain mem hm
        exact .inr (below hy hpar hnn (.inl hc))
      · rcases N.cause hx (same mem ▸ isNull) with sole | ⟨c, y, hy, hpar, hnn, isNull'⟩
        · exact .inl sole
        · exact .inr (below hy hpar hnn (.inr isNull'))

/-- Record the error of a waiting node that fails. -/
theorem reported_fail (P : Placed e caller gives g pos due) (R : Reported g pos) (lt : n < g.size)
    (waiting : (pos n).verdict = none) (fault : FieldError) :
    Reported (g.fail n fault (pos n).path) (decide pos n (.failed fault)) := by
  have errors : (g.fail n fault (pos n).path).errors =
      g.errors ++ [.ofField fault (pos n).path] := Graph.errors_nullify _ _
  have size : (g.fail n fault (pos n).path).size = g.size := Graph.size_nullify _ _
  constructor
  case reported =>
    intro m fault' hm hW
    rw [errors, path_decide]
    by_cases h : m = n
    · subst h
      rw [verdict_decide_self, Option.some.injEq, Verdict.failed.injEq] at hW
      rw [hW]
      exact List.mem_append_right _ (List.mem_singleton.mpr rfl)
    · rw [decide_of_ne h] at hW
      exact List.mem_append_left _ (R.reported (size ▸ hm) hW)
  case errors =>
    intro r hr
    rw [errors] at hr
    rcases List.mem_append.mp hr with hr | hr
    · obtain ⟨m, fault', hm, hW, eq⟩ := R.errors hr
      have h : m ≠ n := by
        rintro rfl
        rw [waiting] at hW
        cases hW
      exact ⟨m, fault', size ▸ hm, by rw [decide_of_ne h, hW], by rw [path_decide, eq]⟩
    · exact ⟨n, fault, size ▸ lt, verdict_decide_self, by
        rw [path_decide, List.mem_singleton.mp hr]⟩
  case once =>
    rw [errors, List.map_append, List.nodup_append]
    refine ⟨R.once, List.nodup_cons.mpr ⟨List.not_mem_nil, List.nodup_nil⟩, ?_⟩
    -- an error at the same path would be that of another node, but paths are not shared
    intro path hpath path' hpath' same
    obtain ⟨r, hr, rfl⟩ := List.mem_map.mp hpath
    obtain ⟨m, fault', hm, hW, rfl⟩ := R.errors hr
    rw [List.map_singleton, List.mem_singleton] at hpath'
    have : m = n := P.unique hm lt (same.trans hpath')
    rw [this, waiting] at hW
    cases hW

/-- Make a waiting node null, for its value is. -/
theorem void (L : Ledger e caller gives g pos due) (lt : n < g.size)
    (waiting : (pos n).verdict = none)
    (fits : ∀ {x p}, g.node? n = some x → x.parent = some p →
      Beneath e caller gives (pos p) (due p) { pos n with verdict := some .null } x.nonNull) :
    Ledger e caller gives (g.nullify n) (decide pos n .null) (Function.update due n []) where
  toPlaced := placed_decide L.toPlaced (Graph.grows_nullify g n) (by simp) waiting fits
    (List.nil_suffix)
  toLinked := linked_void L.toPlaced L.toLinked lt
  toNulls := nulls_void L.toPlaced L.toNulls trivial
  toReported := reported_decide L.toReported (by simp) (by simp) waiting (fun _ h => by cases h)

/-- Make a waiting node null, for it failed. -/
theorem fail (L : Ledger e caller gives g pos due) (lt : n < g.size)
    (waiting : (pos n).verdict = none) (fault : FieldError)
    (fits : ∀ {x p}, g.node? n = some x → x.parent = some p →
      Beneath e caller gives (pos p) (due p) { pos n with verdict := some (.failed fault) }
        x.nonNull) :
    Ledger e caller gives (g.fail n fault (pos n).path) (decide pos n (.failed fault))
      (Function.update due n []) := by
  -- recording the error changes no node
  have P : Placed e caller gives (g.recordError fault (pos n).path) pos due :=
    ⟨L.root, L.top, L.child, L.rest, L.distinct, L.unique⟩
  have K : Linked (g.recordError fault (pos n).path) pos due := ⟨L.shows, L.up, L.down, L.keys⟩
  have N : Nulls (g.recordError fault (pos n).path) pos := ⟨L.closed, L.cause⟩
  exact {
    toPlaced := placed_decide P (Graph.grows_nullify _ n) (Graph.size_nullify _ _) waiting fits
      List.nil_suffix
    toLinked := linked_void P K lt
    toNulls := nulls_void P N trivial
    toReported := reported_fail L.toPlaced L.toReported lt waiting fault }

end

end Ledger

end

end GraphQLEngine
