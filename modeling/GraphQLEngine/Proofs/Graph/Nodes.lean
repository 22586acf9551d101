import GraphQLEngine.Execution.Graph

/-!
# What the operations on a graph do to its nodes

Each operation adds one node or changes the content of some; parents and the exclusion of null are
never changed.

    (setContent g n c).node? n = some { x with content := c }        if g.node? n = some x
    (attach g p seg b).node? (size g) = some ⟨some p, b, pending⟩
    (nullify g n).node? m = some { x with content := null }          if m ∈ nullChain g n

`nullChain g n` are the nodes from `n` upwards, up to the first that may be null.
-/

namespace GraphQLEngine

namespace NodeContent

/-- The children of an object or a list, each with the segment that leads to it. -/
def children : NodeContent → List (PathSegment × Nat)
  | .object entries => entries.map fun (name, child) => (.field name, child)
  | .list items => items.zipIdx.map fun (child, i) => (.index i, child)
  | _ => []

/-- The content with a further child, if it can have one. -/
def adopt (child : Nat) : NodeContent → PathSegment → NodeContent
  | .object entries, .field name => .object (entries.insert name child)
  | .list items, .index _ => .list (items ++ [child])
  | c, _ => c

@[simp] theorem adopt_null (child : Nat) (seg : PathSegment) : adopt child .null seg = .null := by
  cases seg <;> rfl

theorem adopt_eq_null {child : Nat} {c : NodeContent} {seg : PathSegment} :
    c.adopt child seg = .null ↔ c = .null := by
  cases c <;> cases seg <;> simp [adopt]

theorem children_adopt_field (entries : OrderedMap Nat) (name : String) (child : Nat)
    (fresh : name ∉ entries.map Prod.fst) :
    (adopt child (.object entries) (.field name)).children =
      (NodeContent.object entries).children ++ [(.field name, child)] := by
  simp [adopt, children, OrderedMap.insert_of_fresh entries child fresh]

theorem children_adopt_index (items : List Nat) (child : Nat) (i : Nat) :
    (adopt child (.list items) (.index i)).children =
      (NodeContent.list items).children ++ [(.index items.length, child)] := by
  simp [adopt, children, List.zipIdx_append]

theorem fst_children_object (entries : OrderedMap Nat) :
    (NodeContent.object entries).children.map Prod.fst =
      (entries.map Prod.fst).map PathSegment.field := by
  simp [children]

theorem fst_children_list (items : List Nat) :
    (NodeContent.list items).children.map Prod.fst =
      (List.range items.length).map PathSegment.index := by
  have h : (items.zipIdx.map fun x => PathSegment.index x.2) =
      (items.zipIdx.map Prod.snd).map PathSegment.index := by
    rw [List.map_map]; rfl
  simp only [children, List.map_map, Function.comp_def]
  rw [h, List.zipIdx_map_snd, List.range_eq_range']

end NodeContent

namespace Graph

/-- The node of a number. -/
def node? (g : Graph) (n : Nat) : Option GraphNode := g.nodes[n]?

theorem content?_eq (g : Graph) (n : Nat) : g.content? n = (g.node? n).map (·.content) := rfl

theorem node?_isSome {g : Graph} {n : Nat} : (∃ x, g.node? n = some x) ↔ n < g.size := by
  unfold node? size
  constructor
  · rintro ⟨x, h⟩
    exact (Array.getElem?_eq_some_iff.mp h).1
  · intro h
    exact ⟨_, Array.getElem?_eq_getElem h⟩

theorem lt_size {g : Graph} {n : Nat} {x : GraphNode} (h : g.node? n = some x) : n < g.size :=
  node?_isSome.mp ⟨x, h⟩

theorem exists_node {g : Graph} {n : Nat} (h : n < g.size) : ∃ x, g.node? n = some x :=
  node?_isSome.mpr h

/-! ## Contents -/

@[simp] theorem size_setContent (g : Graph) (n : Nat) (c : NodeContent) :
    (g.setContent n c).size = g.size := by
  simp [size, setContent]

@[simp] theorem errors_setContent (g : Graph) (n : Nat) (c : NodeContent) :
    (g.setContent n c).errors = g.errors := rfl

theorem node?_setContent (g : Graph) (n m : Nat) (c : NodeContent) :
    (g.setContent n c).node? m =
      if m = n then (g.node? m).map fun x => { x with content := c } else g.node? m := by
  simp only [node?, setContent, Array.getElem?_modify]
  by_cases h : n = m
  · subst h; simp
  · have h' : ¬ m = n := fun e => h e.symm
    simp [h, h']

/-! ## New nodes -/

/-- Add a node beneath another one, which adopts it if it can. -/
def attach (g : Graph) (parent : Nat) (seg : PathSegment) (nonNull : Bool) : Graph :=
  let pushed := g.push parent nonNull
  match g.content? parent with
  | some c => pushed.setContent parent (c.adopt g.size seg)
  | none => pushed

theorem size_push (g : Graph) (p : Nat) (b : Bool) : (g.push p b).size = g.size + 1 := by
  simp [size, push]

theorem node?_push (g : Graph) (p m : Nat) (b : Bool) :
    (g.push p b).node? m = if m = g.size then some ⟨some p, b, .pending⟩ else g.node? m := by
  simp only [node?, push, size]
  exact Array.getElem?_push

theorem content?_push_of_lt {g : Graph} {p m : Nat} {b : Bool} (h : m < g.size) :
    (g.push p b).content? m = g.content? m := by
  rw [content?_eq, content?_eq, node?_push, if_neg (by omega)]

theorem setContent_self {g : Graph} {n : Nat} {c : NodeContent} (h : g.content? n = some c) :
    g.setContent n c = g := by
  obtain ⟨nodes, errors⟩ := g
  simp only [setContent, Graph.mk.injEq, and_true]
  simp only [content?] at h
  apply Array.ext_getElem?
  intro m
  rw [Array.getElem?_modify]
  by_cases hm : n = m
  · subst hm
    obtain ⟨x, hx, rfl⟩ := Option.map_eq_some_iff.mp h
    simp [hx]
  · simp [hm]

/-- A new node beneath a node leaves its content. -/
theorem exists_content_push {g : Graph} {p : Nat} (b : Bool) (h : p < g.size) :
    ∃ c, g.content? p = some c ∧ (g.push p b).content? p = some c := by
  obtain ⟨x, hx⟩ := exists_node h
  have hc : g.content? p = some x.content := by rw [content?_eq, hx]; rfl
  exact ⟨x.content, hc, by rw [content?_push_of_lt h, hc]⟩

theorem addField_eq_attach {g : Graph} {p : Nat} (name : String) (b : Bool) (h : p < g.size) :
    g.addField p name b = g.attach p (.field name) b := by
  obtain ⟨c, hc, hp⟩ := exists_content_push b h
  simp only [addField, attach, hc]
  rw [hp]
  cases c with
  | object entries => rfl
  | _ => simp only [NodeContent.adopt]; rw [setContent_self hp]

theorem addItem_eq_attach {g : Graph} {p : Nat} (i : Nat) (b : Bool) (h : p < g.size) :
    g.addItem p b = g.attach p (.index i) b := by
  obtain ⟨c, hc, hp⟩ := exists_content_push b h
  simp only [addItem, attach, hc]
  rw [hp]
  cases c with
  | list items => rfl
  | _ => simp only [NodeContent.adopt]; rw [setContent_self hp]

@[simp] theorem size_attach (g : Graph) (p : Nat) (seg : PathSegment) (b : Bool) :
    (g.attach p seg b).size = g.size + 1 := by
  unfold attach
  split
  · rw [size_setContent, size_push]
  · exact size_push g p b

@[simp] theorem errors_attach (g : Graph) (p : Nat) (seg : PathSegment) (b : Bool) :
    (g.attach p seg b).errors = g.errors := by
  unfold attach; split <;> rfl

theorem node?_attach_self {g : Graph} {p : Nat} (seg : PathSegment) (b : Bool) (h : p < g.size) :
    (g.attach p seg b).node? g.size = some ⟨some p, b, .pending⟩ := by
  have new : (g.push p b).node? g.size = some ⟨some p, b, .pending⟩ := by
    rw [node?_push, if_pos rfl]
  unfold attach
  split
  · rw [node?_setContent, if_neg (by omega), new]
  · exact new

theorem node?_attach_parent {g : Graph} {p : Nat} {x : GraphNode} (seg : PathSegment) (b : Bool)
    (h : g.node? p = some x) :
    (g.attach p seg b).node? p = some { x with content := x.content.adopt g.size seg } := by
  have lt := lt_size h
  have hc : g.content? p = some x.content := by rw [content?_eq, h]; rfl
  simp only [attach, hc]
  rw [node?_setContent, if_pos rfl, node?_push, if_neg (by omega), h]
  rfl

theorem node?_attach_of_ne {g : Graph} {p m : Nat} (seg : PathSegment) (b : Bool)
    (hp : m ≠ p) (hm : m ≠ g.size) : (g.attach p seg b).node? m = g.node? m := by
  unfold attach
  split
  · rw [node?_setContent, if_neg hp, node?_push, if_neg hm]
  · rw [node?_push, if_neg hm]

/-- The nodes once one was attached: the new one, the old ones, and the one that adopts. -/
theorem node?_attach_cases {g : Graph} {p m : Nat} {y x : GraphNode} {seg : PathSegment} {b : Bool}
    (hy : g.node? p = some y) (h : (g.attach p seg b).node? m = some x) :
    (m = g.size ∧ x = ⟨some p, b, .pending⟩) ∨ (m < g.size ∧ m ≠ p ∧ g.node? m = some x) ∨
    (m = p ∧ x = { y with content := y.content.adopt g.size seg }) := by
  have lt := lt_size hy
  have hm := lt_size h
  rw [size_attach] at hm
  by_cases new : m = g.size
  · rw [new, node?_attach_self seg b lt, Option.some.injEq] at h
    exact .inl ⟨new, h.symm⟩
  · by_cases parent : m = p
    · rw [parent, node?_attach_parent seg b hy, Option.some.injEq] at h
      exact .inr (.inr ⟨parent, h.symm⟩)
    · rw [node?_attach_of_ne seg b parent new] at h
      exact .inr (.inl ⟨by omega, parent, h⟩)

/-- What an old node was before one was attached. -/
theorem node?_of_attach {g : Graph} {p m : Nat} {x : GraphNode} {seg : PathSegment} {b : Bool}
    (lt : p < g.size) (h : (g.attach p seg b).node? m = some x) (hm : m ≠ g.size) :
    ∃ y, g.node? m = some y ∧ x.parent = y.parent ∧ x.nonNull = y.nonNull ∧
      (x.content = .null ↔ y.content = .null) := by
  obtain ⟨z, hz⟩ := exists_node lt
  rcases node?_attach_cases hz h with ⟨new, -⟩ | ⟨-, -, hx⟩ | ⟨rfl, rfl⟩
  · exact absurd new hm
  · exact ⟨x, hx, rfl, rfl, Iff.rfl⟩
  · exact ⟨z, hz, rfl, rfl, NodeContent.adopt_eq_null⟩

/-! ## Null -/

/-- The nodes that are null once a node is: those from it upwards, up to the first that may be
null. -/
def nullChain (g : Graph) (node : Nat) : List Nat :=
  match g.node? node with
  | none => []
  | some x =>
    node ::
      match x.parent with
      | none => []
      | some parent => if x.nonNull then (if parent < node then nullChain g parent else []) else []
termination_by node

/-- Null stops at a node, or is passed on to the parent. -/
theorem nullify_cases (g : Graph) (n : Nat) :
    (g.node? n = none ∧ g.nullChain n = [] ∧ g.nullify n = g) ∨
    (∃ x, g.node? n = some x ∧ (∀ p, x.parent = some p → x.nonNull = true → ¬ p < n) ∧
      g.nullChain n = [n] ∧ g.nullify n = g.setContent n .null) ∨
    (∃ x p, g.node? n = some x ∧ x.parent = some p ∧ x.nonNull = true ∧ p < n ∧
      g.nullChain n = n :: g.nullChain p ∧ g.nullify n = (g.setContent n .null).nullify p) := by
  have hn : g.nodes[n]? = g.node? n := rfl
  rw [nullChain, nullify, hn]
  cases hx : g.node? n with
  | none => exact .inl ⟨rfl, rfl, rfl⟩
  | some x =>
    cases hp : x.parent with
    | none => exact .inr (.inl ⟨x, rfl, by simp [hp], by simp [hp], by simp [hp]⟩)
    | some p =>
      by_cases pass : x.nonNull = true ∧ p < n
      · exact .inr (.inr ⟨x, p, rfl, hp, pass.1, pass.2, by simp [hp, pass], by simp [hp, pass]⟩)
      · refine .inr (.inl ⟨x, rfl, ?_, ?_, ?_⟩)
        · intro q hq yes lt
          rw [hp, Option.some.injEq] at hq
          exact pass ⟨yes, hq ▸ lt⟩
        · by_cases yes : x.nonNull = true
          · have : ¬ p < n := fun lt => pass ⟨yes, lt⟩
            simp [hp, this]
          · simp [hp, yes]
        · by_cases yes : x.nonNull = true
          · have : ¬ p < n := fun lt => pass ⟨yes, lt⟩
            simp [hp, this]
          · simp [hp, yes]

theorem nullChain_setContent (g : Graph) (m : Nat) (c : NodeContent) (n : Nat) :
    (g.setContent m c).nullChain n = g.nullChain n := by
  induction n using Nat.strongRecOn with
  | ind n ih =>
    rw [nullChain, nullChain, node?_setContent]
    cases hx : g.node? n with
    | none => simp
    | some x =>
      have up : (if n = m then (some x).map fun x => { x with content := c } else some x) =
          some { x with content := if n = m then c else x.content } := by
        split <;> rfl
      rw [up]
      cases hp : x.parent with
      | none => simp only [hp]
      | some p => by_cases lt : p < n <;> simp [hp, lt, ih p]

theorem mem_nullChain_self {g : Graph} {n : Nat} (h : n < g.size) : n ∈ g.nullChain n := by
  obtain ⟨x, hx⟩ := exists_node h
  rw [nullChain, hx]
  exact List.mem_cons_self

/-- The chain goes on above each of its nodes that must not be null. -/
theorem mem_nullChain_parent {g : Graph} {n m p : Nat} {x : GraphNode} (h : m ∈ g.nullChain n)
    (hx : g.node? m = some x) (hp : x.parent = some p) (lt : p < m) (nonNull : x.nonNull = true) :
    p ∈ g.nullChain n := by
  have ltp : p < g.size := by
    have := lt_size hx
    omega
  induction n using Nat.strongRecOn with
  | ind n ih =>
    rcases g.nullify_cases n with
      ⟨-, hc, -⟩ | ⟨y, hy, stop, hc, -⟩ | ⟨y, q, hy, hq, -, ltq, hc, -⟩ <;> rw [hc] at h
    · cases h
    · rw [List.mem_singleton.mp h] at hx lt
      rw [hx, Option.some.injEq] at hy
      exact absurd lt (stop p (hy ▸ hp) (hy ▸ nonNull))
    · rw [hc]
      rcases List.mem_cons.mp h with rfl | h
      · rw [hx, Option.some.injEq] at hy
        rw [← hy, hp, Option.some.injEq] at hq
        exact List.mem_cons_of_mem _ (hq ▸ mem_nullChain_self ltp)
      · exact List.mem_cons_of_mem _ (ih q ltq h)

/-- The chain gets to each of its nodes but the first from one beneath that must not be null. -/
theorem exists_below_of_mem_nullChain {g : Graph} {n m : Nat} (h : m ∈ g.nullChain n)
    (ne : m ≠ n) :
    ∃ c x, c ∈ g.nullChain n ∧ g.node? c = some x ∧ x.parent = some m ∧ x.nonNull = true := by
  induction n using Nat.strongRecOn with
  | ind n ih =>
    rcases g.nullify_cases n with
      ⟨-, hc, -⟩ | ⟨x, -, -, hc, -⟩ | ⟨x, p, hx, hp, yes, lt, hc, -⟩ <;> rw [hc] at h
    · cases h
    · exact absurd (List.mem_singleton.mp h) ne
    · rw [hc]
      rcases List.mem_cons.mp h with h | h
      · exact absurd h ne
      · by_cases hm : m = p
        · exact ⟨n, x, List.mem_cons_self, hx, hm ▸ hp, yes⟩
        · obtain ⟨c, y, hcy, hy⟩ := ih p lt h hm
          exact ⟨c, y, List.mem_cons_of_mem _ hcy, hy⟩

theorem node?_nullify (g : Graph) (n m : Nat) :
    (g.nullify n).node? m =
      if m ∈ g.nullChain n then (g.node? m).map fun x => { x with content := .null }
      else g.node? m := by
  induction n using Nat.strongRecOn generalizing g with
  | ind n ih =>
    rcases g.nullify_cases n with
      ⟨-, hc, hn⟩ | ⟨x, -, -, hc, hn⟩ | ⟨x, p, -, -, -, lt, hc, hn⟩ <;> rw [hc, hn]
    · simp
    · rw [node?_setContent]; simp
    · rw [ih p lt, nullChain_setContent, node?_setContent]
      by_cases hm : m = n <;> by_cases hq : m ∈ g.nullChain p
      · simp [hm, Option.map_map, Function.comp_def]
      · rw [hm] at hq ⊢; simp [hq]
      · simp [hm, hq]
      · simp [hm, hq]

/-- What setting a node to null keeps, nullifying keeps. -/
theorem nullify_induction {P : Graph → Prop}
    (set : ∀ {g : Graph} (n : Nat), P g → P (g.setContent n .null)) {g : Graph} (n : Nat)
    (h : P g) : P (g.nullify n) := by
  induction n using Nat.strongRecOn generalizing g with
  | ind n ih =>
    rcases g.nullify_cases n with ⟨-, -, hn⟩ | ⟨x, -, -, -, hn⟩ | ⟨x, p, -, -, -, lt, -, hn⟩ <;>
      rw [hn]
    · exact h
    · exact set n h
    · exact ih p lt (set n h)

@[simp] theorem size_nullify (g : Graph) (n : Nat) : (g.nullify n).size = g.size :=
  nullify_induction (P := fun g' => g'.size = g.size) (fun _ => (size_setContent ..).trans) n rfl

@[simp] theorem errors_nullify (g : Graph) (n : Nat) : (g.nullify n).errors = g.errors :=
  nullify_induction (P := fun g' => g'.errors = g.errors) (fun _ => (errors_setContent ..).trans)
    n rfl

/-! ## Graphs that grow -/

/-- Every node stays what it is but for its content, and null stays null. -/
def Grows (g g' : Graph) : Prop :=
  ∀ n x, g.node? n = some x → ∃ c, g'.node? n = some { x with content := c } ∧
    (x.content = .null → c = .null)

theorem Grows.refl (g : Graph) : Grows g g := fun _ x h => ⟨x.content, h, id⟩

theorem Grows.trans {a b c : Graph} (h : Grows a b) (h' : Grows b c) : Grows a c := by
  intro n x hx
  obtain ⟨u, hu, nullU⟩ := h n x hx
  obtain ⟨v, hv, nullV⟩ := h' n _ hu
  exact ⟨v, hv, fun e => nullV (nullU e)⟩

theorem Grows.size_le {g g' : Graph} (h : Grows g g') : g.size ≤ g'.size := by
  rcases Nat.eq_zero_or_pos g.size with e | pos
  · omega
  · obtain ⟨x, hx⟩ := exists_node (g := g) (n := g.size - 1) (by omega)
    obtain ⟨c, hc, -⟩ := h _ x hx
    have := lt_size hc
    omega

/-- What a node was before the graph grew. -/
theorem Grows.node?_of {g g' : Graph} (h : Grows g g') {n : Nat} {x' : GraphNode}
    (hx' : g'.node? n = some x') (lt : n < g.size) :
    ∃ x, g.node? n = some x ∧ x'.parent = x.parent ∧ x'.nonNull = x.nonNull ∧
      (x.content = .null → x'.content = .null) := by
  obtain ⟨x, hx⟩ := exists_node lt
  obtain ⟨c, hc, null⟩ := h n x hx
  rw [hx', Option.some.injEq] at hc
  subst hc
  exact ⟨x, hx, rfl, rfl, null⟩

theorem grows_attach {g : Graph} {p : Nat} (seg : PathSegment) (b : Bool) :
    Grows g (g.attach p seg b) := by
  intro n x hx
  have lt := lt_size hx
  by_cases h : n = p
  · subst h
    refine ⟨_, node?_attach_parent seg b hx, fun e => ?_⟩
    rw [e, NodeContent.adopt_null]
  · exact ⟨x.content, by rw [node?_attach_of_ne seg b h (by omega), hx], id⟩

theorem grows_setContent {g : Graph} {n : Nat} {x : GraphNode} (c : NodeContent)
    (h : g.node? n = some x) (pending : x.content = .pending) : Grows g (g.setContent n c) := by
  intro m y hy
  by_cases e : m = n
  · subst e
    rw [h] at hy
    cases hy
    exact ⟨c, by rw [node?_setContent, if_pos rfl, h]; rfl, fun e => by simp [pending] at e⟩
  · exact ⟨y.content, by rw [node?_setContent, if_neg e, hy], id⟩

theorem grows_nullify (g : Graph) (n : Nat) : Grows g (g.nullify n) := by
  intro m x hx
  by_cases h : m ∈ g.nullChain n
  · exact ⟨.null, by rw [node?_nullify, if_pos h, hx]; rfl, fun _ => rfl⟩
  · exact ⟨x.content, by rw [node?_nullify, if_neg h, hx], id⟩

/-- A node is nulled if it is null itself or the one above it is nulled. -/
theorem isNulled_iff {g : Graph} {n : Nat} {x : GraphNode} (hx : g.node? n = some x) :
    g.isNulled n = true ↔
      x.content = .null ∨ ∃ p, x.parent = some p ∧ p < n ∧ g.isNulled p = true := by
  have hn : g.nodes[n]? = some x := hx
  rw [isNulled, hn]
  simp only
  cases hc : x.content with
  | null => simp
  | _ =>
    cases hp : x.parent with
    | none => simp
    | some p => by_cases lt : p < n <;> simp [lt]

theorem Grows.isNulled {g g' : Graph} (h : Grows g g') {n : Nat} (lt : n < g.size)
    (nulled : g.isNulled n = true) : g'.isNulled n = true := by
  induction n using Nat.strongRecOn with
  | ind n ih =>
    obtain ⟨x, hx⟩ := exists_node lt
    obtain ⟨c, hc, null⟩ := h n x hx
    rw [isNulled_iff hc]
    rcases (isNulled_iff hx).mp nulled with e | ⟨p, hp, ltp, up⟩
    · exact .inl (null e)
    · exact .inr ⟨p, hp, ltp, ih p ltp (by omega) up⟩

/-- What is not nulled was not nulled before. -/
theorem Grows.free {g g' : Graph} (h : Grows g g') {n : Nat} (lt : n < g.size)
    (free : g'.isNulled n = false) : g.isNulled n = false := by
  cases nulled : g.isNulled n with
  | false => rfl
  | true =>
    rw [h.isNulled lt nulled] at free
    cases free

/-- A graph grows if only new nodes change. -/
theorem Grows.setContent_new {g g' : Graph} (h : g.Grows g') {n : Nat} (new : g.size ≤ n)
    (c : NodeContent) : g.Grows (g'.setContent n c) := by
  intro m x hx
  obtain ⟨c', hc', null⟩ := h m x hx
  have := lt_size hx
  exact ⟨c', by rw [node?_setContent, if_neg (by omega), hc'], null⟩

theorem grows_addField (g : Graph) (p : Nat) (name : String) (b : Bool) :
    g.Grows (g.addField p name b) := by
  rcases Nat.lt_or_ge p g.size with lt | ge
  · rw [addField_eq_attach name b lt]
    exact grows_attach _ b
  · have pushed : g.Grows (g.push p b) := by
      intro m x hx
      have := lt_size hx
      exact ⟨x.content, by rw [node?_push, if_neg (by omega), hx], id⟩
    unfold addField
    simp only
    split
    · exact pushed.setContent_new ge _
    · exact pushed

theorem grows_fail (g : Graph) (n : Nat) (fault : FieldError) (path : Path) :
    g.Grows (g.fail n fault path) :=
  grows_nullify (g.recordError fault path) n

/-- What is not nulled was not nulled before, nor was it there as a nulled node. -/
theorem Grows.free' {g g' : Graph} (h : g.Grows g') {n : Nat} (free : g'.isNulled n = false) :
    g.isNulled n = false := by
  rcases Nat.lt_or_ge n g.size with lt | ge
  · exact h.free lt free
  · have none : g.nodes[n]? = .none := Array.getElem?_eq_none ge
    rw [Graph.isNulled, none]

end Graph

end GraphQLEngine
