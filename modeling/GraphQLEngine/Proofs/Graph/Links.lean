import GraphQLEngine.Proofs.Graph.Nodes
import Mathlib.Logic.Relation

/-!
# The links of a graph

A graph is made by operations on nodes that there are.  Whatever the operations and their order,
parents come before their children, and a child in the content of a node has that node as its parent,
also where a node has lost its children and they are written on.  So the walks up and down end
without looking at the bounds, and null is passed on as far as it has to be and no further:

    Becomes .new g  →  Rooted g
    Rooted g        →  (Nullifies g n g' ↔ g' = g.nullify n)          and so on for the other walks
    PassesNull g n m    m is made null along with n
-/

namespace GraphQLEngine

/-! ## Operations -/

/-- What is done to a graph under construction. -/
inductive GraphOp where
  | addField (object : Nat) (name : String) (nonNull : Bool)
  | addItem (list : Nat) (nonNull : Bool)
  | setLeaf (node : Nat) (v : Json)
  | setObject (node : Nat)
  | setList (node : Nat)
  | nullify (node : Nat)
  | fail (node : Nat) (e : FieldError) (path : Path)

namespace GraphOp

/-- The node that an operation is on. -/
def node : GraphOp → Nat
  | .addField n _ _ | .addItem n _ | .setLeaf n _ | .setObject n | .setList n | .nullify n
  | .fail n _ _ => n

/-- The content that an operation gives to its node. -/
def content? : GraphOp → Option NodeContent
  | .setLeaf _ v => some (.leaf v)
  | .setObject _ => some (.object [])
  | .setList _ => some (.list [])
  | _ => none

/-- Whether an operation adds a node beneath its own. -/
def adds : GraphOp → Bool
  | .addField .. | .addItem .. => true
  | _ => false

end GraphOp

namespace NodeContent

theorem mem_children_adopt {c : NodeContent} {child m : Nat} {seg seg' : PathSegment}
    (h : (seg', m) ∈ (c.adopt child seg).children) : (seg', m) ∈ c.children ∨ m = child := by
  cases c with
  | object entries =>
    cases seg with
    | field name =>
      obtain ⟨entry, inserted, eq⟩ := List.mem_map.mp h
      rw [Prod.mk.injEq] at eq
      rcases OrderedMap.mem_insert inserted with old | rfl
      · exact .inl (List.mem_map.mpr ⟨entry, old, by rw [← eq.1, ← eq.2]⟩)
      · exact .inr eq.2.symm
    | index i => exact .inl h
  | list items =>
    cases seg with
    | field name => exact .inl h
    | index i =>
      rw [children_adopt_index, List.mem_append] at h
      exact h.imp_right fun new => (Prod.mk.inj (List.mem_singleton.mp new)).2
  | _ => cases seg <;> exact .inl h

theorem mem_children_object {entries : OrderedMap Nat} {e : String × Nat} (mem : e ∈ entries) :
    (PathSegment.field e.1, e.2) ∈ (NodeContent.object entries).children :=
  List.mem_map_of_mem mem

theorem exists_index {items : List Nat} {child : Nat} (mem : child ∈ items) :
    ∃ i, (PathSegment.index i, child) ∈ (NodeContent.list items).children := by
  obtain ⟨i, hi⟩ := List.getElem?_of_mem mem
  exact ⟨i, List.mem_map.mpr ⟨(child, i), List.mk_mem_zipIdx_iff_getElem?.mpr hi, rfl⟩⟩

end NodeContent

namespace Graph

def act (g : Graph) : GraphOp → Graph
  | .addField n name nonNull => g.addField n name nonNull
  | .addItem n nonNull => g.addItem n nonNull
  | .setLeaf n v => g.setLeaf n v
  | .setObject n => g.setObject n
  | .setList n => g.setList n
  | .nullify n => g.nullify n
  | .fail n e path => g.fail n e path

/-- Any operations on nodes that there are lead from a graph to another. -/
def Becomes : Graph → Graph → Prop :=
  Relation.ReflTransGen fun g g' => ∃ op : GraphOp, op.node < g.size ∧ g' = g.act op

/-- A content is given only to the node that is being completed, which waits for it. -/
structure Admits (g : Graph) (op : GraphOp) : Prop where
  has : op.node < g.size
  waits : op.content?.isSome = true → g.content? op.node = some .pending

/-- Operations that give a content only to nodes that wait lead from a graph to another. -/
def Builds : Graph → Graph → Prop :=
  Relation.ReflTransGen fun g g' => ∃ op : GraphOp, g.Admits op ∧ g' = g.act op

theorem Builds.becomes {g g' : Graph} (h : g.Builds g') : g.Becomes g' :=
  Relation.ReflTransGen.mono (fun _ _ ⟨op, admits, eq⟩ => ⟨op, admits.has, eq⟩) _ _ h

/-! ## What an operation does -/

/-- Making a node null does not look at the errors. -/
theorem nullify_withErrors (g : Graph) (es : List ReportedError) (n : Nat) :
    ({ g with errors := es } : Graph).nullify n = { g.nullify n with errors := es } := by
  induction n using Nat.strongRecOn generalizing g with
  | ind n ih =>
    rw [nullify, nullify.eq_def g n]
    cases g.nodes[n]? with
    | none => rfl
    | some x =>
      cases hp : x.parent with
      | none => simp [hp, setContent]
      | some p =>
        by_cases lt : p < n
        · have up := ih p lt (g.setContent n .null)
          by_cases yes : x.nonNull = true <;> simp_all [setContent]
        · simp [hp, lt, setContent]

/-- The node that failed, and not the error, decides what becomes null. -/
theorem fail_eq (g : Graph) (n : Nat) (e : FieldError) (path : Path) :
    g.fail n e path = (g.nullify n).recordError e path := by
  rw [fail, recordError, nullify_withErrors, recordError, errors_nullify]

/-- An operation adds a node beneath its own, gives its own a content, or makes nodes null. -/
theorem act_cases {g : Graph} {op : GraphOp} (has : op.node < g.size) :
    (op.adds = true ∧ ∃ seg b, g.act op = g.attach op.node seg b) ∨
    (∃ c, op.content? = some c ∧ c.children = [] ∧ c ≠ .pending ∧
      g.act op = g.setContent op.node c) ∨
    ∃ es, g.act op = { g.nullify op.node with errors := es } := by
  cases op with
  | addField n name b => exact .inl ⟨rfl, _, _, addField_eq_attach name b has⟩
  | addItem n b => exact .inl ⟨rfl, _, _, addItem_eq_attach 0 b has⟩
  | setLeaf n v => exact .inr (.inl ⟨_, rfl, rfl, by simp, rfl⟩)
  | setObject n => exact .inr (.inl ⟨_, rfl, rfl, by simp, rfl⟩)
  | setList n => exact .inr (.inl ⟨_, rfl, rfl, by simp, rfl⟩)
  | nullify n => exact .inr (.inr ⟨_, rfl⟩)
  | fail n e path => exact .inr (.inr ⟨_, fail_eq g n e path⟩)

/-! ## Parents come first -/

/-- Every node but the root has a parent, which comes before it; children come after their node, and
have it as their parent. -/
structure Rooted (g : Graph) : Prop where
  pos : 0 < g.size
  below : ∀ {n x}, g.node? n = some x → 0 < n → ∃ p, x.parent = some p
  up : ∀ {n x p}, g.node? n = some x → x.parent = some p → p < n
  down : ∀ {n x seg c}, g.node? n = some x → (seg, c) ∈ x.content.children →
    n < c ∧ ∃ y, g.node? c = some y ∧ y.parent = some n

theorem rooted_new : Rooted .new where
  pos := Nat.zero_lt_one
  below {n x} hx pos := by
    have : n < 1 := lt_size hx
    omega
  up {n x p} hx hp := by
    obtain rfl : n = 0 := Nat.lt_one_iff.mp (lt_size hx)
    cases hx
    cases hp
  down {n x seg c} hx mem := by
    obtain rfl : n = 0 := Nat.lt_one_iff.mp (lt_size hx)
    cases hx
    cases mem

theorem Rooted.attach {g : Graph} (R : g.Rooted) {p : Nat} (lt : p < g.size) (seg : PathSegment)
    (b : Bool) : (g.attach p seg b).Rooted := by
  obtain ⟨y, hy⟩ := exists_node lt
  constructor
  case pos => rw [size_attach]; omega
  case below =>
    intro n x hx pos
    rcases node?_attach_cases hy hx with ⟨-, rfl⟩ | ⟨-, -, old⟩ | ⟨rfl, rfl⟩
    · exact ⟨p, rfl⟩
    · exact R.below old pos
    · obtain ⟨q, hq⟩ := R.below hy pos
      exact ⟨q, hq⟩
  case up =>
    intro n x q hx hq
    rcases node?_attach_cases hy hx with ⟨rfl, rfl⟩ | ⟨-, -, old⟩ | ⟨rfl, rfl⟩
    · cases hq
      exact lt
    · exact R.up old hq
    · exact R.up hy hq
  case down =>
    have kept : ∀ {n c}, (n < c ∧ ∃ z, g.node? c = some z ∧ z.parent = some n) →
        n < c ∧ ∃ z, (g.attach p seg b).node? c = some z ∧ z.parent = some n := by
      rintro n c ⟨less, z, hz, parent⟩
      obtain ⟨content, hz', -⟩ := grows_attach seg b c z hz
      exact ⟨less, _, hz', parent⟩
    intro n x seg' c hx mem
    rcases node?_attach_cases hy hx with ⟨rfl, rfl⟩ | ⟨-, -, old⟩ | ⟨rfl, rfl⟩
    · cases mem
    · exact kept (R.down old mem)
    · rcases NodeContent.mem_children_adopt mem with old | rfl
      · exact kept (R.down hy old)
      · exact ⟨lt, _, node?_attach_self seg b lt, rfl⟩

/-- Only contents change, and no node gets children. -/
theorem Rooted.of_contents {g g' : Graph} (R : g.Rooted) (size : g'.size = g.size)
    (nodes : ∀ n, g'.node? n = g.node? n ∨
      ∃ x c, g.node? n = some x ∧ c.children = [] ∧ g'.node? n = some { x with content := c }) :
    g'.Rooted := by
  have same : ∀ {n x'}, g'.node? n = some x' → ∃ x, g.node? n = some x ∧ x'.parent = x.parent ∧
      (x' = x ∨ x'.content.children = []) := by
    intro n x' hx'
    rcases nodes n with eq | ⟨x, c, hx, none, eq⟩
    · exact ⟨x', eq ▸ hx', rfl, .inl rfl⟩
    · rw [hx', Option.some.injEq] at eq
      exact ⟨x, hx, eq ▸ rfl, .inr (eq ▸ none)⟩
  constructor
  case pos => exact size ▸ R.pos
  case below =>
    intro n x' hx' pos
    obtain ⟨x, hx, parent, -⟩ := same hx'
    exact parent ▸ R.below hx pos
  case up =>
    intro n x' p hx' hp
    obtain ⟨x, hx, parent, -⟩ := same hx'
    exact R.up hx (parent ▸ hp)
  case down =>
    intro n x' seg c hx' mem
    obtain ⟨x, hx, -, rfl | none⟩ := same hx'
    · obtain ⟨less, y, hy, parent⟩ := R.down hx mem
      rcases nodes c with eq | ⟨z, content, hz, -, eq⟩
      · exact ⟨less, y, eq ▸ hy, parent⟩
      · rw [hy, Option.some.injEq] at hz
        exact ⟨less, _, eq, hz ▸ parent⟩
    · rw [none] at mem
      cases mem

theorem Rooted.setContent {g : Graph} (R : g.Rooted) (n : Nat) {c : NodeContent}
    (none : c.children = []) : (g.setContent n c).Rooted := by
  refine R.of_contents (size_setContent g n c) fun m => ?_
  rw [node?_setContent]
  split
  · cases hx : g.node? m with
    | none => exact .inl rfl
    | some x => exact .inr ⟨x, c, rfl, none, rfl⟩
  · exact .inl rfl

theorem Rooted.nullify {g : Graph} (R : g.Rooted) (n : Nat) : (g.nullify n).Rooted := by
  refine R.of_contents (size_nullify g n) fun m => ?_
  rw [node?_nullify]
  split
  · cases hx : g.node? m with
    | none => exact .inl rfl
    | some x => exact .inr ⟨x, .null, rfl, rfl, rfl⟩
  · exact .inl rfl

theorem Rooted.act {g : Graph} (R : g.Rooted) {op : GraphOp} (has : op.node < g.size) :
    (g.act op).Rooted := by
  rcases act_cases has with ⟨-, seg, b, eq⟩ | ⟨c, -, none, -, eq⟩ | ⟨es, eq⟩ <;> rw [eq]
  · exact R.attach has seg b
  · exact R.setContent op.node none
  · have := R.nullify op.node
    exact ⟨this.pos, this.below, this.up, this.down⟩

theorem Rooted.becomes {g g' : Graph} (R : g.Rooted) (h : g.Becomes g') : g'.Rooted := by
  induction h with
  | refl => exact R
  | tail _ step ih =>
    obtain ⟨op, has, rfl⟩ := step
    exact ih.act has

/-! ## The walks -/

/-- The walk up that makes nodes null.  Here and below nothing is compared before the walk goes on;
it can only go on to a node that there is. -/
inductive Nullifies : Graph → Nat → Graph → Prop
  | stop {g : Graph} {n : Nat} {x : GraphNode} :
    g.node? n = some x → (∀ p, x.parent = some p → x.nonNull = false) →
      Nullifies g n (g.setContent n .null)
  | pass {g g' : Graph} {n p : Nat} {x : GraphNode} :
    g.node? n = some x → x.parent = some p → x.nonNull = true →
      Nullifies (g.setContent n .null) p g' → Nullifies g n g'

/-- The walk up that looks for a null. -/
inductive Finds (g : Graph) : Nat → Bool → Prop
  | null {n : Nat} {x : GraphNode} : g.node? n = some x → x.content = .null → Finds g n true
  | top {n : Nat} {x : GraphNode} :
    g.node? n = some x → x.content ≠ .null → x.parent = none → Finds g n false
  | up {n p : Nat} {x : GraphNode} {b : Bool} :
    g.node? n = some x → x.content ≠ .null → x.parent = some p → Finds g p b → Finds g n b

/-- The walk down that reads a value. -/
inductive Reads (g : Graph) : Nat → Json → Prop
  | pending {n : Nat} : g.content? n = some .pending → Reads g n .null
  | null {n : Nat} : g.content? n = some .null → Reads g n .null
  | leaf {n : Nat} {v : Json} : g.content? n = some (.leaf v) → Reads g n v
  | object {n : Nat} {entries : OrderedMap Nat} (value : Nat → Json) :
    g.content? n = some (.object entries) → (∀ e ∈ entries, Reads g e.2 (value e.2)) →
      Reads g n (.obj (entries.map fun e => (e.1, value e.2)))
  | list {n : Nat} {items : List Nat} (value : Nat → Json) :
    g.content? n = some (.list items) → (∀ c ∈ items, Reads g c (value c)) →
      Reads g n (.arr (items.map value))

theorem Rooted.nullifies {g : Graph} (R : g.Rooted) {n : Nat} (lt : n < g.size) :
    g.Nullifies n (g.nullify n) := by
  induction n using Nat.strongRecOn generalizing g with
  | ind n ih =>
    rcases g.nullify_cases n with
      ⟨none, -, -⟩ | ⟨x, hx, stop, -, eq⟩ | ⟨x, p, hx, hp, yes, less, -, eq⟩
    · obtain ⟨x, hx⟩ := exists_node lt
      rw [hx] at none
      cases none
    · rw [eq]
      refine .stop hx fun p hp => ?_
      cases yes : x.nonNull with
      | false => rfl
      | true => exact absurd (R.up hx hp) (stop p hp yes)
    · rw [eq]
      refine .pass hx hp yes (ih p less (R.setContent n rfl) ?_)
      rw [size_setContent]
      omega

theorem Nullifies.eq {g g' : Graph} {n : Nat} (h : g.Nullifies n g') (R : g.Rooted) :
    g' = g.nullify n := by
  induction h with
  | @stop g n x hx stop =>
    rcases g.nullify_cases n with
      ⟨none, -, -⟩ | ⟨y, -, -, -, eq⟩ | ⟨y, p, hy, hp, yes, -, -, -⟩
    · rw [hx] at none
      cases none
    · exact eq.symm
    · rw [hx, Option.some.injEq] at hy
      subst hy
      rw [stop p hp] at yes
      cases yes
  | @pass g g' n p x hx hp yes _ ih =>
    rcases g.nullify_cases n with
      ⟨none, -, -⟩ | ⟨y, hy, stop, -, -⟩ | ⟨y, q, hy, hq, -, -, -, eq⟩
    · rw [hx] at none
      cases none
    · rw [hx, Option.some.injEq] at hy
      subst hy
      exact absurd (R.up hx hp) (stop p hp yes)
    · rw [hx, Option.some.injEq] at hy
      subst hy
      rw [hp, Option.some.injEq] at hq
      subst hq
      rw [eq, ih (R.setContent n rfl)]

theorem Rooted.finds {g : Graph} (R : g.Rooted) {n : Nat} (lt : n < g.size) :
    g.Finds n (g.isNulled n) := by
  induction n using Nat.strongRecOn with
  | ind n ih =>
    obtain ⟨x, hx⟩ := exists_node lt
    have iff := isNulled_iff hx
    by_cases isNull : x.content = .null
    · rw [iff.mpr (.inl isNull)]
      exact .null hx isNull
    · cases hp : x.parent with
      | none =>
        have free : g.isNulled n = false := by
          rw [Bool.eq_false_iff, ne_eq, iff]
          simp [isNull, hp]
        rw [free]
        exact .top hx isNull hp
      | some p =>
        have less := R.up hx hp
        have up : g.isNulled n = g.isNulled p := by
          rw [Bool.eq_iff_iff, iff]
          simp [isNull, hp, less]
        rw [up]
        exact .up hx isNull hp (ih p less (by omega))

theorem Finds.eq {g : Graph} {n : Nat} {b : Bool} (h : g.Finds n b) (R : g.Rooted) :
    b = g.isNulled n := by
  induction h with
  | null hx isNull => exact ((isNulled_iff hx).mpr (.inl isNull)).symm
  | top hx notNull hp =>
    rw [eq_comm, Bool.eq_false_iff, ne_eq, isNulled_iff hx]
    simp [notNull, hp]
  | up hx notNull hp _ ih =>
    rw [ih, Bool.eq_iff_iff, isNulled_iff hx]
    simp [notNull, hp, R.up hx hp]

/-- The content of a node may have children; they are nodes that come after it. -/
def Descends (g : Graph) (n : Nat) (c : NodeContent) : Prop :=
  ∀ child ∈ c.children, n < child.2 ∧ child.2 < g.size

theorem toJson_object {g : Graph} {n : Nat} {entries : OrderedMap Nat}
    (hc : g.content? n = some (.object entries)) (down : g.Descends n (.object entries)) :
    g.toJson n = .obj (entries.map fun e => (e.1, g.toJson e.2)) := by
  rw [toJson, hc]
  simp only [Json.obj.injEq]
  apply List.map_congr_left
  intro e mem
  rw [if_pos (down _ (NodeContent.mem_children_object mem))]

theorem toJson_list {g : Graph} {n : Nat} {items : List Nat}
    (hc : g.content? n = some (.list items)) (down : g.Descends n (.list items)) :
    g.toJson n = .arr (items.map g.toJson) := by
  rw [toJson, hc]
  simp only [Json.arr.injEq]
  apply List.map_congr_left
  intro c mem
  obtain ⟨i, child⟩ := NodeContent.exists_index mem
  rw [if_pos (down _ child)]

theorem Rooted.descends {g : Graph} (R : g.Rooted) {n : Nat} {c : NodeContent}
    (hc : g.content? n = some c) : g.Descends n c := by
  intro child mem
  rw [content?_eq] at hc
  obtain ⟨x, hx, rfl⟩ := Option.map_eq_some_iff.mp hc
  obtain ⟨less, y, hy, -⟩ := R.down hx mem
  exact ⟨less, lt_size hy⟩

theorem Rooted.reads {g : Graph} (R : g.Rooted) {n : Nat} (lt : n < g.size) :
    g.Reads n (g.toJson n) := by
  -- the children are nodes with larger numbers
  generalize left : g.size - n = k
  induction k using Nat.strongRecOn generalizing n with
  | ind k ih =>
    subst left
    obtain ⟨x, hx⟩ := exists_node lt
    have hc : g.content? n = some x.content := by rw [content?_eq, hx]; rfl
    have down := R.descends hc
    cases content : x.content with
    | pending =>
      rw [content] at hc
      rw [toJson, hc]
      exact .pending hc
    | null =>
      rw [content] at hc
      rw [toJson, hc]
      exact .null hc
    | leaf v =>
      rw [content] at hc
      rw [toJson, hc]
      exact .leaf hc
    | object entries =>
      rw [content] at hc down
      rw [toJson_object hc down]
      refine .object g.toJson hc fun e mem => ?_
      obtain ⟨less, lt'⟩ := down _ (NodeContent.mem_children_object mem)
      exact ih _ (by omega) lt' rfl
    | list items =>
      rw [content] at hc down
      rw [toJson_list hc down]
      refine .list g.toJson hc fun c mem => ?_
      obtain ⟨i, child⟩ := NodeContent.exists_index mem
      obtain ⟨less, lt'⟩ := down _ child
      exact ih _ (by omega) lt' rfl

theorem Reads.eq {g : Graph} {n : Nat} {v : Json} (h : g.Reads n v) (R : g.Rooted) :
    v = g.toJson n := by
  induction h with
  | pending hc => rw [toJson, hc]
  | null hc => rw [toJson, hc]
  | leaf hc => rw [toJson, hc]
  | object value hc _ ih =>
    rw [toJson_object hc (R.descends hc), Json.obj.injEq]
    exact List.map_congr_left fun e mem => by rw [ih e mem]
  | list value hc _ ih =>
    rw [toJson_list hc (R.descends hc), Json.arr.injEq]
    exact List.map_congr_left fun c mem => ih c mem

/-! ## How far null goes -/

/-- The chain that begins at a node and goes on above every node that must not be null. -/
inductive PassesNull (g : Graph) (n : Nat) : Nat → Prop
  | self : PassesNull g n n
  | up {m p : Nat} {x : GraphNode} :
    PassesNull g n m → g.node? m = some x → x.nonNull = true → x.parent = some p → PassesNull g n p

/-- From a node upwards: the node itself, or one above it. -/
def Above (g : Graph) : Nat → Nat → Prop :=
  Relation.ReflTransGen fun n p => ∃ x, g.node? n = some x ∧ x.parent = some p

theorem PassesNull.of_parent {g : Graph} {n p m : Nat} {x : GraphNode} (hx : g.node? n = some x)
    (yes : x.nonNull = true) (hp : x.parent = some p) (h : g.PassesNull p m) :
    g.PassesNull n m := by
  induction h with
  | self => exact .up .self hx yes hp
  | up _ hy yes' hq ih => exact .up ih hy yes' hq

theorem Rooted.mem_nullChain {g : Graph} (R : g.Rooted) {n m : Nat} (lt : n < g.size) :
    m ∈ g.nullChain n ↔ g.PassesNull n m := by
  constructor
  · intro mem
    induction n using Nat.strongRecOn with
    | ind n ih =>
      rcases g.nullify_cases n with
        ⟨-, chain, -⟩ | ⟨x, -, -, chain, -⟩ | ⟨x, p, hx, hp, yes, less, chain, -⟩ <;>
        rw [chain] at mem
      · cases mem
      · rw [List.mem_singleton.mp mem]
        exact .self
      · rcases List.mem_cons.mp mem with rfl | mem
        · exact .self
        · exact .of_parent hx yes hp (ih p less (by omega) mem)
  · intro passes
    induction passes with
    | self => exact mem_nullChain_self lt
    | up _ hx yes hp ih => exact mem_nullChain_parent ih hx hp (R.up hx hp) yes

/-- Exactly the nodes of the chain are made null. -/
structure NullsChain (g : Graph) (n : Nat) (g' : Graph) : Prop where
  chain : ∀ {m}, g.PassesNull n m →
    ∃ x, g.node? m = some x ∧ g'.node? m = some { x with content := .null }
  others : ∀ {m}, ¬g.PassesNull n m → g'.node? m = g.node? m

theorem Rooted.nullsChain {g : Graph} (R : g.Rooted) {n : Nat} (lt : n < g.size) :
    g.NullsChain n (g.nullify n) where
  chain {m} passes := by
    have within : m < g.size := by
      cases passes with
      | self => exact lt
      | up _ hx _ hp => exact Nat.lt_trans (R.up hx hp) (lt_size hx)
    obtain ⟨x, hx⟩ := exists_node within
    exact ⟨x, hx, by rw [node?_nullify, if_pos ((R.mem_nullChain lt).mpr passes), hx]; rfl⟩
  others passes := by
    rw [node?_nullify, if_neg fun mem => passes ((R.mem_nullChain lt).mp mem)]

/-- A node is nulled exactly if it is null itself, or one above it is. -/
theorem Rooted.isNulled_iff {g : Graph} (R : g.Rooted) {n : Nat} (lt : n < g.size) :
    g.isNulled n = true ↔ ∃ m, g.Above n m ∧ g.content? m = some .null := by
  constructor
  · intro nulled
    induction n using Nat.strongRecOn with
    | ind n ih =>
      obtain ⟨x, hx⟩ := exists_node lt
      rcases (Graph.isNulled_iff hx).mp nulled with isNull | ⟨p, hp, less, up⟩
      · exact ⟨n, .refl, by rw [content?_eq, hx, Option.map_some, isNull]⟩
      · obtain ⟨m, above, isNull⟩ := ih p less (by omega) up
        exact ⟨m, .head ⟨x, hx, hp⟩ above, isNull⟩
  · rintro ⟨m, above, isNull⟩
    induction above using Relation.ReflTransGen.head_induction_on with
    | refl =>
      rw [content?_eq] at isNull
      obtain ⟨x, hx, isNull⟩ := Option.map_eq_some_iff.mp isNull
      exact (Graph.isNulled_iff hx).mpr (.inl isNull)
    | head step _ ih =>
      obtain ⟨x, hx, hp⟩ := step
      have less := R.up hx hp
      exact (Graph.isNulled_iff hx).mpr (.inr ⟨_, hp, less, ih (by omega)⟩)

end Graph

end GraphQLEngine
