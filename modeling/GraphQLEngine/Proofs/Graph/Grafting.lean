import GraphQLEngine.Proofs.Graph.Tree
import Mathlib

/-!
# Grafting

A graph is grafted on another one by putting what is beneath its root beneath the root of the other,
after what is there.  The root is null if that of the grafted graph is, and the errors follow.

    graft t (h.nullify n) = (graft t h).nullify (shift base n)
    (graft t h).toJson (shift base n) = h.toJson n                  if n is not the root

All that is done to a graph beneath its root can as well be done once it has been grafted.
-/

namespace GraphQLEngine

/-! ## Shifted nodes -/

/-- The number of a node in a graph that has `base` others beneath the root. -/
def Graph.shift (base n : Nat) : Nat := if n = 0 then 0 else n + base

namespace Graph

@[simp] theorem shift_zero (base : Nat) : shift base 0 = 0 := rfl

theorem shift_inj {base m n : Nat} : shift base m = shift base n ↔ m = n := by
  unfold shift
  split <;> split <;> omega

theorem shift_lt_shift {base m n : Nat} : shift base m < shift base n ↔ m < n := by
  unfold shift
  split <;> split <;> omega

theorem shift_of_pos {base n : Nat} (pos : 0 < n) : shift base n = n + base := by
  rw [shift, if_neg (by omega)]

/-- A number is one of the nodes that were there or of those that are shifted. -/
theorem shift_cases (base n : Nat) : (0 < n ∧ n ≤ base) ∨ ∃ k, n = shift base k := by
  rcases Nat.eq_zero_or_pos n with rfl | pos
  · exact .inr ⟨0, rfl⟩
  · rcases Nat.lt_or_ge base n with lt | le
    · exact .inr ⟨n - base, by rw [shift_of_pos (by omega)]; omega⟩
    · exact .inl ⟨pos, le⟩

theorem shift_ne_of_le {base n k : Nat} (pos : 0 < n) (le : n ≤ base) : n ≠ shift base k := by
  unfold shift
  split <;> omega

end Graph

/-- The content with other numbers for the children. -/
def NodeContent.rename (f : Nat → Nat) : NodeContent → NodeContent
  | .object entries => .object (entries.map fun e => (e.1, f e.2))
  | .list items => .list (items.map f)
  | c => c

namespace Graph

theorem ext_node? {g g' : Graph} (nodes : ∀ n, g.node? n = g'.node? n)
    (errors : g.errors = g'.errors) : g = g' := by
  obtain ⟨_, _⟩ := g
  obtain ⟨_, _⟩ := g'
  cases errors
  rw [Graph.mk.injEq]
  exact ⟨Array.ext_getElem? nodes, rfl⟩

/-- The fields of the root. -/
def entries (g : Graph) : OrderedMap Nat :=
  match g.content? root with
  | some (.object entries) => entries
  | _ => []

/-- What a node holds once it is grafted; the fields of the root follow those that are there. -/
def graftContent (t : Graph) (n : Nat) (c : NodeContent) : NodeContent :=
  match n, c.rename (shift (t.size - 1)) with
  | 0, .object entries => .object (t.entries ++ entries)
  | _, c => c

def graftNode (t : Graph) (n : Nat) (x : GraphNode) : GraphNode :=
  ⟨x.parent.map (shift (t.size - 1)), x.nonNull, t.graftContent n x.content⟩

/-- Put what is beneath the root of a graph beneath the root of another one. -/
def graft (t h : Graph) : Graph where
  nodes := ((h.nodes.toList.take 1).map (t.graftNode 0) ++ t.nodes.toList.drop 1 ++
    (h.nodes.toList.drop 1).map (t.graftNode 1)).toArray
  errors := t.errors ++ h.errors

section

variable {t h : Graph}

@[simp] theorem errors_graft : (t.graft h).errors = t.errors ++ h.errors := rfl

theorem graftContent_of_pos {n : Nat} (pos : 0 < n) (c : NodeContent) :
    t.graftContent n c = c.rename (shift (t.size - 1)) := by
  obtain ⟨n, rfl⟩ := Nat.exists_eq_succ_of_ne_zero (Nat.pos_iff_ne_zero.mp pos)
  unfold graftContent
  split
  · next eq _ => cases eq
  · rfl

theorem graftContent_eq_null {n : Nat} {c : NodeContent} :
    t.graftContent n c = .null ↔ c = .null := by
  cases n <;> cases c <;> simp [graftContent, NodeContent.rename]

theorem graftNode_of_pos {n : Nat} (pos : 0 < n) : t.graftNode n = t.graftNode 1 := by
  funext x
  rw [graftNode, graftNode, graftContent_of_pos pos, graftContent_of_pos Nat.one_pos]

theorem size_graft (pos : 0 < h.size) : (t.graft h).size = h.size + (t.size - 1) := by
  simp only [size, graft, List.size_toArray, List.length_append, List.length_map, List.length_take,
    List.length_drop, Array.length_toList] at *
  omega

theorem length_take_one (pos : 0 < h.size) :
    ((h.nodes.toList.take 1).map (t.graftNode 0)).length = 1 := by
  simp only [List.length_map, List.length_take, Array.length_toList]
  unfold size at pos
  omega

/-- The nodes that were there are left. -/
theorem node?_graft_old (pos : 0 < h.size) {n : Nat} (pos' : 0 < n) (le : n ≤ t.size - 1) :
    (t.graft h).node? n = t.node? n := by
  have one := length_take_one (t := t) pos
  have inside : n < ((h.nodes.toList.take 1).map (t.graftNode 0) ++
      t.nodes.toList.drop 1).length := by
    simp only [List.length_append, one, List.length_drop, Array.length_toList]
    unfold size at le
    omega
  simp only [node?, graft, List.getElem?_toArray]
  rw [List.getElem?_append_left inside, List.getElem?_append_right (by omega), one,
    List.getElem?_drop, Array.getElem?_toList]
  congr 1
  omega

/-- The nodes that are grafted. -/
theorem node?_graft (pos : 0 < h.size) (k : Nat) :
    (t.graft h).node? (shift (t.size - 1) k) = (h.node? k).map (t.graftNode k) := by
  have one := length_take_one (t := t) pos
  have front : ((h.nodes.toList.take 1).map (t.graftNode 0) ++
      t.nodes.toList.drop 1).length = 1 + (t.size - 1) := by
    simp only [List.length_append, one, List.length_drop, Array.length_toList, size]
  simp only [node?, graft, List.getElem?_toArray]
  rcases Nat.eq_zero_or_pos k with rfl | posk
  · rw [shift_zero, List.append_assoc, List.getElem?_append_left (by omega), List.getElem?_map,
      List.getElem?_take_of_lt Nat.one_pos, Array.getElem?_toList]
  · rw [shift_of_pos posk, List.getElem?_append_right (by omega), List.getElem?_map,
      List.getElem?_drop, graftNode_of_pos posk, Array.getElem?_toList, front]
    congr 2
    omega

/-- A graph with the old nodes and the grafted ones is the grafted one. -/
theorem eq_graft {g : Graph} (pos : 0 < h.size)
    (grafted : ∀ k, g.node? (shift (t.size - 1) k) = (h.node? k).map (t.graftNode k))
    (old : ∀ n, 0 < n → n ≤ t.size - 1 → g.node? n = t.node? n)
    (errors : g.errors = t.errors ++ h.errors) : g = t.graft h := by
  refine ext_node? (fun n => ?_) errors
  rcases shift_cases (t.size - 1) n with ⟨pos', le⟩ | ⟨k, rfl⟩
  · rw [old n pos' le, node?_graft_old pos pos' le]
  · rw [grafted k, node?_graft pos k]

theorem content?_graft (pos : 0 < h.size) (k : Nat) :
    (t.graft h).content? (shift (t.size - 1) k) = (h.content? k).map (t.graftContent k) := by
  rw [content?_eq, node?_graft pos, content?_eq, Option.map_map, Option.map_map]
  rfl

/-! ## Operations -/

theorem setContent_graft (pos : 0 < h.size) (k : Nat) (c : NodeContent) :
    (t.graft h).setContent (shift (t.size - 1) k) (t.graftContent k c) =
      t.graft (h.setContent k c) := by
  refine eq_graft (by rwa [size_setContent]) (fun m => ?_) (fun n pos' le => ?_) rfl
  · rw [node?_setContent, node?_setContent, node?_graft pos]
    by_cases same : m = k
    · subst same
      simp only [if_true, Option.map_map]
      rfl
    · rw [if_neg (fun eq => same (shift_inj.mp eq)), if_neg same]
  · rw [node?_setContent, if_neg (shift_ne_of_le pos' le), node?_graft_old pos pos' le]

theorem push_graft (pos : 0 < h.size) (p : Nat) (b : Bool) :
    (t.graft h).push (shift (t.size - 1) p) b = t.graft (h.push p b) := by
  have size : (t.graft h).size = shift (t.size - 1) h.size := by
    rw [size_graft pos, shift_of_pos pos]
  refine eq_graft (by rw [size_push]; omega) (fun m => ?_) (fun n pos' le => ?_) rfl
  · rw [node?_push, node?_push, size, node?_graft pos]
    by_cases same : m = h.size
    · rw [if_pos (congrArg _ same), if_pos same]
      cases m <;> rfl
    · rw [if_neg (fun eq => same (shift_inj.mp eq)), if_neg same]
  · rw [node?_push, size, if_neg (shift_ne_of_le pos' le), node?_graft_old pos pos' le]

/-- An entry that is added to an object is the grafted one in the graft. -/
theorem graftContent_insert {p : Nat} {name : String} (entries : OrderedMap Nat)
    (fresh : p = 0 → name ∉ t.entries.map Prod.fst) (node : Nat) :
    t.graftContent p (.object (entries.insert name node)) =
      match t.graftContent p (.object entries) with
      | .object entries => .object (entries.insert name (shift (t.size - 1) node))
      | c => c := by
  cases p with
  | zero =>
    simp only [graftContent, NodeContent.rename, OrderedMap.map_insert]
    rw [OrderedMap.insert_append _ _ _ (fresh rfl)]
  | succ p => simp only [graftContent, NodeContent.rename, OrderedMap.map_insert]

theorem addField_graft (pos : 0 < h.size) {p : Nat} {name : String} (b : Bool)
    (fresh : p = 0 → name ∉ t.entries.map Prod.fst) :
    (t.graft h).addField (shift (t.size - 1) p) name b = t.graft (h.addField p name b) := by
  have pushed : 0 < (h.push p b).size := by rw [size_push]; omega
  unfold addField
  simp only [push_graft pos, content?_graft pushed, size_graft pos, ← shift_of_pos pos]
  cases content : (h.push p b).content? p with
  | none => rfl
  | some c =>
    cases c with
    | object entries =>
      rw [← setContent_graft pushed, graftContent_insert entries fresh]
      cases p <;> rfl
    | _ => cases p <;> rfl

theorem addItem_graft (pos : 0 < h.size) (p : Nat) (b : Bool) :
    (t.graft h).addItem (shift (t.size - 1) p) b = t.graft (h.addItem p b) := by
  have pushed : 0 < (h.push p b).size := by rw [size_push]; omega
  unfold addItem
  simp only [push_graft pos, content?_graft pushed, size_graft pos, ← shift_of_pos pos]
  cases content : (h.push p b).content? p with
  | none => rfl
  | some c =>
    cases c with
    | list items =>
      rw [← setContent_graft pushed]
      cases p <;> simp [graftContent, NodeContent.rename]
    | _ => cases p <;> rfl

theorem nullify_graft (pos : 0 < h.size) (k : Nat) :
    (t.graft h).nullify (shift (t.size - 1) k) = t.graft (h.nullify k) := by
  induction k using Nat.strongRecOn generalizing h with
  | ind k ih =>
    have null : t.graftContent k .null = .null := by cases k <;> rfl
    have content : (t.graft h).setContent (shift (t.size - 1) k) .null =
        t.graft (h.setContent k .null) := by
      have := setContent_graft (t := t) pos k .null
      rwa [null] at this
    have node : (t.graft h).nodes[shift (t.size - 1) k]? = (h.nodes[k]?).map (t.graftNode k) :=
      node?_graft pos k
    rw [nullify, node]
    conv => rhs; rw [nullify]
    cases h.nodes[k]? with
    | none => rfl
    | some x =>
      simp only [Option.map_some, content]
      obtain ⟨parent, nonNull, c⟩ := x
      cases parent with
      | none => rfl
      | some p =>
        simp only [graftNode, Option.map_some, shift_lt_shift]
        cases nonNull with
        | false => rfl
        | true =>
          simp only [if_true]
          split
          · next lt => exact ih p lt (by rwa [size_setContent])
          · rfl

theorem fail_graft (pos : 0 < h.size) (k : Nat) (fault : FieldError) (path : Path) :
    (t.graft h).fail (shift (t.size - 1) k) fault path = t.graft (h.fail k fault path) := by
  have recorded : (t.graft h).recordError fault path = t.graft (h.recordError fault path) := by
    simp [recordError, graft]
  rw [fail, recorded]
  exact nullify_graft (h := h.recordError fault path) pos k

theorem isNulled_graft (pos : 0 < h.size) (k : Nat) :
    (t.graft h).isNulled (shift (t.size - 1) k) = h.isNulled k := by
  induction k using Nat.strongRecOn with
  | ind k ih =>
    have node := node?_graft (t := t) pos k
    cases hx : h.node? k with
    | none =>
      rw [hx] at node
      have none : h.nodes[k]? = none := hx
      have none' : (t.graft h).nodes[shift (t.size - 1) k]? = .none := node
      rw [isNulled, isNulled, none, none']
    | some x =>
      rw [hx, Option.map_some] at node
      rw [Bool.eq_iff_iff, isNulled_iff node, isNulled_iff hx]
      refine or_congr graftContent_eq_null ⟨?_, ?_⟩
      · rintro ⟨_, up, lt, nulled⟩
        obtain ⟨p, hp, rfl⟩ := Option.map_eq_some_iff.mp up
        have lt := shift_lt_shift.mp lt
        exact ⟨p, hp, lt, ih p lt ▸ nulled⟩
      · rintro ⟨p, hp, lt, nulled⟩
        refine ⟨shift (t.size - 1) p, ?_, shift_lt_shift.mpr lt, (ih p lt).trans nulled⟩
        rw [graftNode, hp]
        rfl

/-! ## Reading -/

/-- What is grafted is read as before. -/
theorem toJson_graft (pos : 0 < h.size) {k : Nat} (posk : 0 < k) :
    (t.graft h).toJson (shift (t.size - 1) k) = h.toJson k := by
  induction hk : h.size - k using Nat.strongRecOn generalizing k with
  | ind m ih =>
    have child : ∀ c, (if shift (t.size - 1) k < shift (t.size - 1) c ∧
        shift (t.size - 1) c < (t.graft h).size then
          (t.graft h).toJson (shift (t.size - 1) c) else .null) =
        if k < c ∧ c < h.size then h.toJson c else .null := by
      intro c
      have size : (t.graft h).size = shift (t.size - 1) h.size := by
        rw [size_graft pos, shift_of_pos pos]
      simp only [size, shift_lt_shift]
      split
      · next inside => exact ih (h.size - c) (by omega) (by omega) rfl
      · rfl
    rw [toJson, content?_graft pos]
    conv => rhs; rw [toJson]
    cases h.content? k with
    | none => rfl
    | some c =>
      rw [Option.map_some, graftContent_of_pos posk]
      cases c with
      | object entries =>
        simp only [NodeContent.rename, List.map_map, Function.comp_def, child]
      | list items => simp only [NodeContent.rename, List.map_map, Function.comp_def, child]
      | _ => rfl

end

/-! ## Tidy graphs -/

/-- The children of a node. -/
def nodesOf : NodeContent → List Nat
  | .object entries => entries.map Prod.snd
  | .list items => items
  | _ => []

/-- The root is null or an object of the fields of these names, and children are nodes. -/
structure Tidy (names : List String) (g : Graph) : Prop where
  root : ∃ c, g.node? 0 = some ⟨none, false, c⟩ ∧
    (c = .null ∨ ∃ entries, c = .object entries ∧ entries.map Prod.fst = names)
  bounds : ∀ {n c}, g.content? n = some c → ∀ child ∈ nodesOf c, child < g.size

namespace Tidy

variable {names : List String} {g : Graph}

theorem new : Tidy [] .new where
  root := ⟨.object [], rfl, .inr ⟨[], rfl, rfl⟩⟩
  bounds {n x} hx c mem := by
    cases n with
    | zero => cases hx; cases mem
    | succ n => cases hx

theorem pos (T : Tidy names g) : 0 < g.size := by
  obtain ⟨c, hc, -⟩ := T.root
  exact lt_size hc

theorem content_root (T : Tidy names g) :
    g.content? 0 = some .null ∨
      ∃ entries, g.content? 0 = some (.object entries) ∧ entries.map Prod.fst = names := by
  obtain ⟨c, hc, rfl | ⟨entries, rfl, named⟩⟩ := T.root
  · exact .inl (by rw [content?_eq, hc]; rfl)
  · exact .inr ⟨entries, by rw [content?_eq, hc]; rfl, named⟩

/-- Nothing is above the root. -/
theorem isNulled_root (T : Tidy names g) : g.isNulled 0 = true ↔ g.content? 0 = some .null := by
  obtain ⟨c, hc, -⟩ := T.root
  rw [isNulled_iff hc, content?_eq, hc]
  simp

theorem entries_named (T : Tidy names g) (object : g.content? 0 ≠ some .null) :
    g.entries.map Prod.fst = names := by
  obtain null | ⟨entries, content, named⟩ := T.content_root
  · exact absurd null object
  · rw [Graph.entries, Graph.root, content]
    exact named

theorem entries_bounds (T : Tidy names g) : ∀ e ∈ g.entries, e.2 < g.size := by
  unfold Graph.entries
  split
  · next entries content => exact fun e mem => T.bounds content _ (List.mem_map_of_mem mem)
  · exact fun _ h => nomatch h

/-- Write at a node; at the root only null or the fields of these names. -/
theorem setContent {names' : List String} (T : Tidy names g) {k : Nat} {c : NodeContent}
    (bound : ∀ child ∈ nodesOf c, child < g.size)
    (root : if k = 0 then c = .null ∨ ∃ entries, c = .object entries ∧ entries.map Prod.fst = names'
      else names' = names) :
    Tidy names' (g.setContent k c) where
  root := by
    obtain ⟨c₀, hc, shape⟩ := T.root
    rw [node?_setContent, hc]
    by_cases zero : k = 0
    · rw [if_pos zero] at root
      exact ⟨c, by rw [if_pos zero.symm]; rfl, root⟩
    · rw [if_neg zero] at root
      exact ⟨c₀, if_neg fun eq => zero eq.symm, root ▸ shape⟩
  bounds {n c'} hc child mem := by
    rw [size_setContent]
    rw [content?_eq, node?_setContent] at hc
    split at hc
    · rw [Option.map_map, Option.map_eq_some_iff] at hc
      obtain ⟨y, -, rfl⟩ := hc
      exact bound child mem
    · exact T.bounds hc child mem

theorem setBelow (T : Tidy names g) {k : Nat} {c : NodeContent} (posk : 0 < k)
    (bound : ∀ child ∈ nodesOf c, child < g.size) : Tidy names (g.setContent k c) :=
  T.setContent bound (by rw [if_neg (by omega)])

theorem setNull (T : Tidy names g) (k : Nat) : Tidy names (g.setContent k .null) :=
  T.setContent (fun _ h => nomatch h) (by split <;> first | exact .inl rfl | rfl)

theorem push (T : Tidy names g) (p : Nat) (b : Bool) : Tidy names (g.push p b) where
  root := by
    have := T.pos
    rw [node?_push, if_neg (by omega)]
    exact T.root
  bounds {n c} hc child mem := by
    rw [size_push]
    rw [content?_eq, node?_push] at hc
    split at hc
    · cases hc
      cases mem
    · exact Nat.lt_succ_of_lt (T.bounds hc child mem)

theorem addField (T : Tidy names g) {p : Nat} {name : String} (b : Bool) (posp : 0 < p) :
    Tidy names (g.addField p name b) := by
  have pushed := T.push p b
  unfold Graph.addField
  simp only
  split
  · next entries content =>
    refine pushed.setBelow posp fun child mem => ?_
    obtain ⟨e, inserted, rfl⟩ := List.mem_map.mp mem
    rcases OrderedMap.mem_insert inserted with old | rfl
    · exact pushed.bounds content _ (List.mem_map_of_mem old)
    · rw [size_push]
      exact Nat.lt_succ_self _
  · exact pushed

/-- A new field of the root is the last. -/
theorem addRoot (T : Tidy names g) {name : String} (b : Bool) (fresh : name ∉ names) :
    Tidy (names ++ [name]) (g.addField 0 name b) := by
  have pushed := T.push 0 b
  obtain null | ⟨entries, content, named⟩ := pushed.content_root
  · have eq : g.addField 0 name b = (g.push 0 b).setContent 0 .null := by
      unfold Graph.addField
      simp only [null]
      exact (setContent_self null).symm
    rw [eq]
    exact pushed.setContent (fun _ h => nomatch h) (.inl rfl)
  · have eq : g.addField 0 name b =
        (g.push 0 b).setContent 0 (.object (entries.insert name g.size)) := by
      unfold Graph.addField
      simp only [content]
    have inserted := OrderedMap.insert_of_fresh entries g.size (named ▸ fresh)
    rw [eq, inserted]
    refine pushed.setContent (fun child mem => ?_) (.inr ⟨_, rfl, by rw [List.map_append, named]; rfl⟩)
    rw [nodesOf, List.map_append, List.mem_append] at mem
    rcases mem with old | new
    · exact pushed.bounds content _ old
    · rw [List.mem_singleton.mp new, size_push]
      exact Nat.lt_succ_self _

theorem addItem (T : Tidy names g) {p : Nat} (b : Bool) (posp : 0 < p) :
    Tidy names (g.addItem p b) := by
  have pushed := T.push p b
  unfold Graph.addItem
  simp only
  split
  · next items content =>
    refine pushed.setBelow posp fun child mem => ?_
    rcases List.mem_append.mp mem with old | new
    · exact pushed.bounds content child old
    · rw [List.mem_singleton.mp new, size_push]
      exact Nat.lt_succ_self _
  · exact pushed

theorem nullify (T : Tidy names g) (k : Nat) : Tidy names (g.nullify k) :=
  nullify_induction (fun n T => T.setNull n) k T

theorem fail (T : Tidy names g) (k : Nat) (fault : FieldError) (path : Path) :
    Tidy names (g.fail k fault path) :=
  (show Tidy names (g.recordError fault path) from ⟨T.root, T.bounds⟩).nullify k

end Tidy

/-! ## Data -/

/-- The members of the data. -/
def members (g : Graph) : List (String × Json) :=
  g.entries.map fun (name, child) =>
    (name, if 0 < child ∧ child < g.size then g.toJson child else .null)

section

variable {names names' : List String} {t h : Graph}

theorem Tidy.data (T : Tidy names h) (object : h.content? 0 ≠ some .null) :
    h.data = some (.obj h.members) := by
  obtain null | ⟨entries, content, -⟩ := T.content_root
  · exact absurd null object
  · rw [data_eq object, toJson, content, members, Graph.entries, Graph.root, content]

theorem Tidy.data_eq_none (T : Tidy names h) : h.data = none ↔ h.content? 0 = some .null := by
  refine ⟨fun none => ?_, data_null⟩
  by_contra object
  rw [T.data object] at none
  cases none

theorem Tidy.fst_members (T : Tidy names h) (object : h.content? 0 ≠ some .null) :
    h.members.map Prod.fst = names := by
  rw [← T.entries_named object, members, List.map_map]
  rfl

/-- The data of a graph with one field beneath the root has it as the only member. -/
theorem Tidy.single {name : String} (T : Tidy [name] h) :
    h.data = none ∨ ∃ v, h.data = some (.obj [(name, v)]) := by
  by_cases null : h.content? 0 = some .null
  · exact .inl (T.data_eq_none.mpr null)
  · refine .inr ?_
    have named := T.fst_members null
    rw [T.data null]
    obtain ⟨⟨name', v⟩, eq, rfl⟩ := List.map_eq_singleton_iff.mp named
    exact ⟨v, by rw [eq]⟩

/-- What was there is read as before. -/
theorem toJson_graft_old (S : Tidy names t) (pos : 0 < h.size) {n : Nat} (posn : 0 < n)
    (lt : n < t.size) : (t.graft h).toJson n = t.toJson n := by
  induction hn : t.size - n using Nat.strongRecOn generalizing n with
  | ind m ih =>
    have content : (t.graft h).content? n = t.content? n := by
      rw [content?_eq, node?_graft_old pos posn (by omega), content?_eq]
    have child : ∀ c < t.size, (if n < c ∧ c < (t.graft h).size then (t.graft h).toJson c
        else .null) = if n < c ∧ c < t.size then t.toJson c else .null := by
      intro c bound
      have := size_graft (t := t) pos
      by_cases below : n < c
      · rw [if_pos ⟨below, by omega⟩, if_pos ⟨below, bound⟩]
        exact ih (t.size - c) (by omega) (by omega) bound rfl
      · rw [if_neg (fun h => below h.1), if_neg (fun h => below h.1)]
    rw [toJson, content]
    conv => rhs; rw [toJson]
    cases hc : t.content? n with
    | none => rfl
    | some c =>
      have bounds := S.bounds hc
      cases c with
      | object entries =>
        simp only [Json.obj.injEq]
        exact List.map_congr_left fun e mem => by
          rw [child e.2 (bounds _ (List.mem_map_of_mem mem))]
      | list items =>
        simp only [Json.arr.injEq]
        exact List.map_congr_left fun c mem => child c (bounds c mem)
      | _ => rfl

theorem content?_graft_root (T : Tidy names h) :
    (t.graft h).content? 0 = (h.content? 0).map (t.graftContent 0) := by
  have := content?_graft (t := t) T.pos 0
  rwa [shift_zero] at this

/-- The root is null if that of the grafted graph is. -/
theorem null_graft (T : Tidy names h) :
    (t.graft h).content? 0 = some .null ↔ h.content? 0 = some .null := by
  rw [content?_graft_root T, Option.map_eq_some_iff]
  constructor
  · rintro ⟨c, hc, eq⟩
    rw [hc, graftContent_eq_null.mp eq]
  · exact fun hc => ⟨_, hc, rfl⟩

/-- Where nothing is grafted nothing changes. -/
theorem Tidy.graft_new (S : Tidy names t) (object : t.content? 0 ≠ some .null) :
    t.graft .new = t := by
  obtain ⟨c, hc, shape⟩ := S.root
  have one : 0 < Graph.new.size := Nat.one_pos
  refine (eq_graft one (fun k => ?_) (fun n _ _ => rfl) ?_).symm
  · cases k with
    | zero =>
      have content : t.content? 0 = some c := by rw [content?_eq, hc]; rfl
      rcases shape with rfl | ⟨entries, rfl, -⟩
      · exact absurd content object
      · have own : t.entries = entries := by rw [Graph.entries, Graph.root, content]
        have same : t.graftNode 0 ⟨none, false, .object []⟩ = ⟨none, false, .object entries⟩ := by
          simp [graftNode, graftContent, NodeContent.rename, own]
        rw [shift_zero, hc, ← same]
        rfl
    | succ k =>
      have none : t.node? (shift (t.size - 1) (k + 1)) = none := by
        have := S.pos
        rw [shift_of_pos (Nat.succ_pos k), Option.eq_none_iff_forall_not_mem]
        intro x hx
        have := lt_size hx
        omega
      rw [none]
      rfl
  · exact (List.append_nil _).symm

theorem entries_graft (T : Tidy names h) (object : h.content? 0 ≠ some .null) :
    (t.graft h).entries =
      t.entries ++ h.entries.map fun e => (e.1, shift (t.size - 1) e.2) := by
  obtain null | ⟨entries, content, -⟩ := T.content_root
  · exact absurd null object
  · have grafted := content?_graft_root (t := t) T
    rw [content] at grafted
    have own : h.entries = entries := by rw [Graph.entries, root, content]
    rw [own, Graph.entries, root, grafted]
    rfl

/-- The members of the grafted graph follow those that are there. -/
theorem members_graft (S : Tidy names t) (T : Tidy names' h)
    (object : h.content? 0 ≠ some .null) : (t.graft h).members = t.members ++ h.members := by
  have size := size_graft (t := t) T.pos
  have pos := T.pos
  rw [members, entries_graft T object, List.map_append, List.map_map]
  congr 1
  · refine List.map_congr_left fun e mem => ?_
    have bound := S.entries_bounds e mem
    by_cases posn : 0 < e.2
    · simp only [posn, true_and, bound, if_true, if_pos (show e.2 < (t.graft h).size by omega),
        toJson_graft_old S T.pos posn bound]
    · simp only [posn, false_and, if_false]
  · refine List.map_congr_left fun e mem => ?_
    have bound := T.entries_bounds e mem
    by_cases posn : 0 < e.2
    · have inside : 0 < shift (t.size - 1) e.2 ∧
          shift (t.size - 1) e.2 < (t.graft h).size := by
        rw [shift_of_pos posn]
        omega
      simp only [Function.comp_apply, posn, true_and, bound, if_true, if_pos inside,
        toJson_graft T.pos posn]
    · have zero : e.2 = 0 := by omega
      simp [zero]

theorem Tidy.graft (S : Tidy names t) (T : Tidy names' h) (object : t.content? 0 ≠ some .null) :
    Tidy (names ++ names') (t.graft h) where
  root := by
    obtain ⟨c, hc, shape⟩ := T.root
    have node := node?_graft (t := t) T.pos 0
    rw [hc, shift_zero] at node
    refine ⟨_, node, ?_⟩
    rcases shape with rfl | ⟨entries, rfl, named⟩
    · exact .inl rfl
    · refine .inr ⟨_, rfl, ?_⟩
      rw [List.map_append, S.entries_named object, ← named, List.map_map]
      rfl
  bounds {n c} hc child mem := by
    have size := size_graft (t := t) T.pos
    have pos := T.pos
    have pos₀ := S.pos
    rcases shift_cases (t.size - 1) n with ⟨posn, le⟩ | ⟨k, rfl⟩
    · rw [content?_eq, node?_graft_old T.pos posn le] at hc
      have := S.bounds hc child mem
      omega
    · rw [content?_graft T.pos] at hc
      obtain ⟨c', hc', rfl⟩ := Option.map_eq_some_iff.mp hc
      have shifted : ∀ child ∈ (nodesOf c').map (shift (t.size - 1)),
          child < (t.graft h).size := by
        intro child shifted
        obtain ⟨old, inside, rfl⟩ := List.mem_map.mp shifted
        have := T.bounds hc' old inside
        unfold shift
        split <;> omega
      cases c' with
      | object entries =>
        have same : (entries.map fun e => (e.1, shift (t.size - 1) e.2)).map Prod.snd =
            (entries.map Prod.snd).map (shift (t.size - 1)) := by
          rw [List.map_map, List.map_map]
          rfl
        cases k with
        | zero =>
          simp only [graftContent, NodeContent.rename, nodesOf, List.map_append, same] at mem
          rcases List.mem_append.mp mem with old | new
          · obtain ⟨e, inside, rfl⟩ := List.mem_map.mp old
            have := S.entries_bounds e inside
            omega
          · exact shifted child new
        | succ k =>
          simp only [graftContent, NodeContent.rename, nodesOf, same] at mem
          exact shifted child mem
      | list items => exact shifted child (by cases k <;> exact mem)
      | _ => cases k <;> cases mem

end

end Graph

end GraphQLEngine
