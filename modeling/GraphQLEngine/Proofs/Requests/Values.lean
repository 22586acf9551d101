import GraphQLEngine.Proofs.Lists
import GraphQLEngine.Proofs.Schemas.Build
import GraphQLEngine.Request.Arguments
import Mathlib.Data.List.Perm.Subperm

/-!
# Equal arguments

Maps of arguments are compared key by key, whatever the order of the keys.  Where no object among
the values names a key twice, which is so for all values that are read from a text, the comparison
is an equivalence; and then it is one for the arguments that validation gives.

    Same xs ys  →  Same ys zs  →  Same xs zs
    ProperMap xs  →  Same xs ys  →  Same ys xs
-/

namespace GraphQLEngine

/-! ## Comparing values -/

theorem Number.sameValue_symm {a b : Number} (h : a.sameValue b = true) :
    b.sameValue a = true := by
  cases a <;> cases b <;>
    simp only [Number.sameValue, Binary64.sameValue, Bool.false_eq_true, beq_iff_eq, Bool.or_eq_true,
      Bool.and_eq_true] at h ⊢
  · exact h.symm
  · exact h.imp Eq.symm And.symm

theorem Number.sameValue_trans {a b c : Number} (h : a.sameValue b = true)
    (h' : b.sameValue c = true) : a.sameValue c = true := by
  cases a <;> cases b <;> cases c <;>
    simp only [Number.sameValue, Binary64.sameValue, Bool.false_eq_true, beq_iff_eq, Bool.or_eq_true,
      Bool.and_eq_true] at h h' ⊢
  · exact h.trans h'
  · rcases h with rfl | ⟨zero, zero'⟩
    · exact h'
    · rcases h' with rfl | ⟨-, zero''⟩
      · exact .inr ⟨zero, zero'⟩
      · exact .inr ⟨zero, zero''⟩

namespace Json

/-- No object names a key twice. -/
inductive Proper : Json → Prop
  | null : Proper .null
  | bool (value : Bool) : Proper (.bool value)
  | num (value : Number) : Proper (.num value)
  | str (value : String) : Proper (.str value)
  | arr {items : List Json} : (∀ j ∈ items, j.Proper) → Proper (.arr items)
  | obj {members : List (String × Json)} : (members.map Prod.fst).Nodup →
    (∀ entry ∈ members, entry.2.Proper) → Proper (.obj members)

/-- No object of the map, itself included, names a key twice. -/
structure ProperMap (m : OrderedMap Json) : Prop where
  nodup : (m.map Prod.fst).Nodup
  values : ∀ entry ∈ m, entry.2.Proper

theorem sameMembers_iff {xs ys : List (String × Json)} :
    sameMembers xs ys = true ↔
      ∀ k x, (k, x) ∈ xs → ∃ y, ys.lookup k = some y ∧ sameValue x y = true := by
  induction xs with
  | nil => simp [sameMembers]
  | cons entry xs ih =>
    obtain ⟨k, x⟩ := entry
    rw [sameMembers, Bool.and_eq_true, ih]
    constructor
    · rintro ⟨first, rest⟩ k' x' mem
      rcases List.mem_cons.mp mem with eq | mem
      · cases eq
        cases found : ys.lookup k with
        | none => rw [found] at first; cases first
        | some y => rw [found] at first; exact ⟨y, rfl, first⟩
      · exact rest k' x' mem
    · intro all
      obtain ⟨y, found, same⟩ := all k x List.mem_cons_self
      exact ⟨by rw [found]; exact same, fun k' x' mem => all k' x' (List.mem_cons_of_mem _ mem)⟩

mutual

theorem sameValue_trans : ∀ (x : Json) {y z : Json}, sameValue x y = true →
    sameValue y z = true → sameValue x z = true
  | .null, y, z, h, h' | .bool _, y, z, h, h' | .str _, y, z, h, h' => by
    cases y <;> simp only [sameValue, Bool.false_eq_true, beq_iff_eq] at h
    all_goals subst_vars; exact h'
  | .num _, y, z, h, h' => by
    cases y <;> simp only [sameValue, Bool.false_eq_true] at h
    cases z <;> simp only [sameValue, Bool.false_eq_true] at h'
    exact Number.sameValue_trans h h'
  | .arr xs, y, z, h, h' => by
    cases y <;> simp only [sameValue, Bool.false_eq_true] at h
    cases z <;> simp only [sameValue, Bool.false_eq_true] at h'
    exact sameItems_trans xs h h'
  | .obj xs, y, z, h, h' => by
    cases y <;> simp only [sameValue, Bool.false_eq_true, Bool.and_eq_true, beq_iff_eq] at h
    cases z <;> simp only [sameValue, Bool.false_eq_true, Bool.and_eq_true, beq_iff_eq] at h'
    simp only [sameValue, Bool.and_eq_true, beq_iff_eq]
    exact ⟨h.1.trans h'.1, sameMembers_trans xs h.2 h'.2⟩

theorem sameItems_trans : ∀ (xs : List Json) {ys zs : List Json}, sameItems xs ys = true →
    sameItems ys zs = true → sameItems xs zs = true
  | [], ys, zs, h, h' => by
    cases ys <;> simp only [sameItems, Bool.false_eq_true] at h
    exact h'
  | x :: xs, ys, zs, h, h' => by
    cases ys <;> simp only [sameItems, Bool.false_eq_true, Bool.and_eq_true] at h
    cases zs <;> simp only [sameItems, Bool.false_eq_true, Bool.and_eq_true] at h'
    rw [sameItems, Bool.and_eq_true]
    exact ⟨sameValue_trans x h.1 h'.1, sameItems_trans xs h.2 h'.2⟩

theorem sameMembers_trans : ∀ (xs : List (String × Json)) {ys zs : List (String × Json)},
    sameMembers xs ys = true → sameMembers ys zs = true → sameMembers xs zs = true
  | [], _, _, _, _ => by rw [sameMembers]
  | (k, x) :: xs, ys, zs, h, h' => by
    obtain ⟨y, found, same⟩ := sameMembers_iff.mp h k x List.mem_cons_self
    obtain ⟨z, found', same'⟩ := sameMembers_iff.mp h' k y (mem_of_lookup found)
    rw [sameMembers, Bool.and_eq_true] at h
    rw [sameMembers, Bool.and_eq_true, found']
    exact ⟨sameValue_trans x same same', sameMembers_trans xs h.2 h'⟩

end

theorem sameItems_symm {xs ys : List Json}
    (each : ∀ x ∈ xs, ∀ y, sameValue x y = true → sameValue y x = true)
    (h : sameItems xs ys = true) : sameItems ys xs = true := by
  induction xs generalizing ys with
  | nil =>
    cases ys <;> simp only [sameItems, Bool.false_eq_true] at h
    rw [sameItems]
  | cons x xs ih =>
    cases ys <;> simp only [sameItems, Bool.false_eq_true, Bool.and_eq_true] at h
    rw [sameItems, Bool.and_eq_true]
    exact ⟨each x List.mem_cons_self _ h.1,
      ih (fun x' mem => each x' (List.mem_cons_of_mem _ mem)) h.2⟩

/-- An object without a repeated key has all keys of one of its size that has all of its keys. -/
theorem sameMembers_symm {xs ys : List (String × Json)} (nodup : (xs.map Prod.fst).Nodup)
    (length : xs.length = ys.length)
    (each : ∀ entry ∈ xs, ∀ y, sameValue entry.2 y = true → sameValue y entry.2 = true)
    (h : sameMembers xs ys = true) : sameMembers ys xs = true := by
  have all := sameMembers_iff.mp h
  have keys : (xs.map Prod.fst).Perm (ys.map Prod.fst) := by
    refine (List.subperm_of_subset nodup fun k mem => ?_).perm_of_length_le (by simp [length])
    obtain ⟨⟨k, x⟩, entry, rfl⟩ := List.mem_map.mp mem
    obtain ⟨y, found, -⟩ := all k x entry
    exact List.mem_map.mpr ⟨(k, y), mem_of_lookup found, rfl⟩
  have nodup' : (ys.map Prod.fst).Nodup := keys.nodup_iff.mp nodup
  refine sameMembers_iff.mpr fun k y mem => ?_
  obtain ⟨⟨k', x⟩, entry, eq⟩ := List.mem_map.mp (keys.mem_iff.mpr (List.mem_map_of_mem mem))
  cases eq
  obtain ⟨y', found, same⟩ := all k x entry
  cases (lookup_of_mem nodup' mem).symm.trans found
  exact ⟨x, lookup_of_mem nodup entry, each (k, x) entry y same⟩

theorem Proper.sameValue_symm {x : Json} (proper : x.Proper) :
    ∀ y, sameValue x y = true → sameValue y x = true := by
  induction proper with
  | null | bool | str =>
    intro y h
    cases y <;> simp only [sameValue, Bool.false_eq_true, beq_iff_eq] at h ⊢
    try exact h.symm
  | num =>
    intro y h
    cases y <;> simp only [sameValue, Bool.false_eq_true] at h ⊢
    exact Number.sameValue_symm h
  | arr _ ih =>
    intro y h
    cases y <;> simp only [sameValue, Bool.false_eq_true] at h ⊢
    exact sameItems_symm ih h
  | obj nodup _ ih =>
    intro y h
    cases y <;> simp only [sameValue, Bool.false_eq_true, Bool.and_eq_true, beq_iff_eq] at h ⊢
    exact ⟨h.1.symm, sameMembers_symm nodup h.1 ih h.2⟩

/-- The maps are one map, or the comparison finds them equal. -/
def Same (xs ys : OrderedMap Json) : Prop := xs = ys ∨ sameMap xs ys = true

theorem Same.trans {xs ys zs : OrderedMap Json} (h : Same xs ys) (h' : Same ys zs) :
    Same xs zs := by
  rcases h with rfl | h
  · exact h'
  · rcases h' with rfl | h'
    · exact .inr h
    · rw [sameMap, Bool.and_eq_true, beq_iff_eq] at h h'
      refine .inr ?_
      rw [sameMap, Bool.and_eq_true, beq_iff_eq]
      exact ⟨h.1.trans h'.1, sameMembers_trans xs h.2 h'.2⟩

theorem Same.symm {xs ys : OrderedMap Json} (proper : ProperMap xs) (h : Same xs ys) :
    Same ys xs := by
  rcases h with rfl | h
  · exact .inl rfl
  · rw [sameMap, Bool.and_eq_true, beq_iff_eq] at h
    refine .inr ?_
    rw [sameMap, Bool.and_eq_true, beq_iff_eq]
    exact ⟨h.1.symm, sameMembers_symm proper.nodup h.1
      (fun entry mem => (proper.values entry mem).sameValue_symm) h.2⟩

end Json

/-! ## Values without repeated keys -/

/-- No object names a key twice. -/
inductive Value.Proper {ν : Type} : Value ν → Prop
  | named (name : ν) : Proper (.variable name)
  | null : Proper .null
  | number (n : Number) : Proper (.number n)
  | string (s : String) : Proper (.string s)
  | boolean (b : Bool) : Proper (.boolean b)
  | enum (name : String) : Proper (.enum name)
  | list {items : List (Value ν)} : (∀ v ∈ items, v.Proper) → Proper (.list items)
  | object {members : List (String × Value ν)} : (members.map Prod.fst).Nodup →
    (∀ entry ∈ members, entry.2.Proper) → Proper (.object members)

section

variable {ν ε : Type} {lookup : ν → Except ε Const}

theorem Value.resolveItems_proper {items : List (Value ν)} {out : List Const}
    (h : Value.resolveItems lookup items = .ok out)
    (each : ∀ v ∈ items, ∀ c, v.resolve lookup = .ok c → c.Proper) : ∀ c ∈ out, c.Proper := by
  induction items generalizing out with
  | nil =>
    cases h
    exact fun _ mem => nomatch mem
  | cons v items ih =>
    rw [Value.resolveItems] at h
    obtain ⟨c, first, h⟩ := bind_ok h
    obtain ⟨cs, rest, h⟩ := bind_ok h
    cases h
    exact List.forall_mem_cons.mpr ⟨each v List.mem_cons_self c first,
      ih rest fun v' mem => each v' (List.mem_cons_of_mem _ mem)⟩

theorem Value.resolveMembers_proper {members : List (String × Value ν)}
    {out : List (String × Const)} (h : Value.resolveMembers lookup members = .ok out)
    (each : ∀ entry ∈ members, ∀ c, entry.2.resolve lookup = .ok c → c.Proper) :
    out.map Prod.fst = members.map Prod.fst ∧ ∀ entry ∈ out, entry.2.Proper := by
  induction members generalizing out with
  | nil =>
    cases h
    exact ⟨rfl, fun _ mem => nomatch mem⟩
  | cons entry members ih =>
    obtain ⟨key, v⟩ := entry
    rw [Value.resolveMembers] at h
    obtain ⟨c, first, h⟩ := bind_ok h
    obtain ⟨cs, rest, h⟩ := bind_ok h
    cases h
    obtain ⟨keys, proper⟩ := ih rest fun entry mem => each entry (List.mem_cons_of_mem _ mem)
    exact ⟨by rw [List.map_cons, List.map_cons, keys],
      List.forall_mem_cons.mpr ⟨each (key, v) List.mem_cons_self c first, proper⟩⟩

/-- Replacing variables by proper values leaves a proper value. -/
theorem Value.Proper.resolve {v : Value ν} (proper : v.Proper)
    (bound : ∀ name c, lookup name = .ok c → c.Proper) :
    ∀ c, v.resolve lookup = .ok c → c.Proper := by
  induction proper with
  | named name =>
    intro c h
    rw [Value.resolve] at h
    exact bound name c h
  | null | number | string | boolean | enum =>
    intro c h
    rw [Value.resolve] at h
    cases h
    constructor
  | @list items _ ih =>
    intro c h
    rw [Value.resolve] at h
    cases resolved : Value.resolveItems lookup items with
    | error fault => rw [resolved] at h; cases h
    | ok out =>
      rw [resolved] at h
      cases h
      exact .list (Value.resolveItems_proper resolved ih)
  | @object members nodup _ ih =>
    intro c h
    rw [Value.resolve] at h
    cases resolved : Value.resolveMembers lookup members with
    | error fault => rw [resolved] at h; cases h
    | ok out =>
      rw [resolved] at h
      cases h
      obtain ⟨keys, proper⟩ := Value.resolveMembers_proper resolved ih
      exact .object (keys ▸ nodup) proper

end

theorem Const.itemsToJson_eq (cs : List Const) : Const.itemsToJson cs = cs.map Const.toJson := by
  induction cs with
  | nil => rfl
  | cons c cs ih => rw [Const.itemsToJson, ih, List.map_cons]

theorem Const.membersToJson_eq (cs : List (String × Const)) :
    Const.membersToJson cs = cs.map fun entry => (entry.1, entry.2.toJson) := by
  induction cs with
  | nil => rfl
  | cons entry cs ih => rw [Const.membersToJson, ih, List.map_cons]

theorem Value.Proper.toJson {c : Const} (proper : c.Proper) : (Const.toJson c).Proper := by
  induction proper with
  | named name => exact nomatch name
  | null | number | string | boolean | enum =>
    rw [Const.toJson]
    constructor
  | list _ ih =>
    rw [Const.toJson, Const.itemsToJson_eq]
    refine .arr fun j mem => ?_
    obtain ⟨c, item, rfl⟩ := List.mem_map.mp mem
    exact ih c item
  | object nodup _ ih =>
    rw [Const.toJson, Const.membersToJson_eq]
    refine .obj (by rwa [List.map_map]) fun entry mem => ?_
    obtain ⟨member, mem', rfl⟩ := List.mem_map.mp mem
    exact ih member mem'

theorem Const.itemsOfJson_eq (js : List Json) : Const.itemsOfJson js = js.map Const.ofJson := by
  induction js with
  | nil => rfl
  | cons j js ih => rw [Const.itemsOfJson, ih, List.map_cons]

theorem Const.membersOfJson_eq (js : List (String × Json)) :
    Const.membersOfJson js = js.map fun entry => (entry.1, Const.ofJson entry.2) := by
  induction js with
  | nil => rfl
  | cons entry js ih => rw [Const.membersOfJson, ih, List.map_cons]

theorem Json.Proper.ofJson {j : Json} (proper : j.Proper) : (Const.ofJson j).Proper := by
  induction proper with
  | null | bool | num | str =>
    rw [Const.ofJson]
    constructor
  | arr _ ih =>
    rw [Const.ofJson, Const.itemsOfJson_eq]
    refine .list fun c mem => ?_
    obtain ⟨j, item, rfl⟩ := List.mem_map.mp mem
    exact ih j item
  | obj nodup _ ih =>
    rw [Const.ofJson, Const.membersOfJson_eq]
    refine .object (by rwa [List.map_map]) fun entry mem => ?_
    obtain ⟨member, mem', rfl⟩ := List.mem_map.mp mem
    exact ih member mem'

/-! ## Checked arguments -/

namespace Request

/-- The values of the variables are proper. -/
def ProperVariables (bindings : Variables) : Prop := ∀ entry ∈ bindings, entry.2.Proper

theorem ProperVariables.resolve {bindings : Variables} (proper : ProperVariables bindings)
    {position : Position} {v : Value String} {c : Const} (hv : v.Proper)
    (h : resolveVariables bindings position v = .ok c) : c.Proper := by
  refine hv.resolve (fun name c' found => ?_) c h
  split at found
  · next c'' bound =>
    cases found
    exact proper (name, c') (mem_of_lookup bound)
  · cases found

/-- An argument that was checked is taken from those that were supplied, so none is there twice. -/
theorem checkDeclared_proper {schema : Schema} {bindings : Variables} {position : Position}
    {definitions : OrderedMap ArgumentDefinition} {supplied left : OrderedMap Argument}
    {checked : OrderedMap Json}
    (h : checkDeclared schema bindings position definitions supplied = .ok (checked, left))
    (proper : ProperVariables bindings) (values : ∀ entry ∈ supplied, entry.2.value.Proper) :
    Json.ProperMap checked ∧ ∀ k ∈ checked.map Prod.fst, k ∈ supplied.map Prod.fst := by
  induction definitions generalizing supplied left checked with
  | nil =>
    cases h
    exact ⟨⟨List.nodup_nil, fun _ mem => nomatch mem⟩, fun _ mem => nomatch mem⟩
  | cons entry rest ih =>
    obtain ⟨name, definition⟩ := entry
    rw [checkDeclared] at h
    split at h
    · next a found =>
      obtain ⟨value, resolved, h⟩ := bind_ok h
      obtain ⟨_, -, h⟩ := bind_ok h
      obtain ⟨⟨checked', left'⟩, others, h⟩ := bind_ok h
      cases h
      obtain ⟨⟨nodup, properValues⟩, keys⟩ := ih others fun entry mem =>
        values entry (List.mem_of_mem_filter mem)
      have fresh : name ∉ checked'.map Prod.fst := fun mem => by
        obtain ⟨entry, mem, eq⟩ := List.mem_map.mp (keys name mem)
        exact absurd eq (by simpa using (List.mem_filter.mp mem).2)
      have properValue := proper.resolve (values (name, a) (mem_of_lookup found)) resolved
      refine ⟨⟨List.nodup_cons.mpr ⟨fresh, nodup⟩,
        List.forall_mem_cons.mpr ⟨properValue.toJson, properValues⟩⟩,
        List.forall_mem_cons.mpr ⟨List.mem_map_of_mem (mem_of_lookup found), fun k mem => ?_⟩⟩
      obtain ⟨entry, mem', rfl⟩ := List.mem_map.mp (keys k mem)
      exact List.mem_map_of_mem (List.mem_of_mem_filter mem')
    · split at h
      · cases h
      · exact ih h values

/-- The values of the arguments of a field are proper. -/
def ProperHead (head : FieldHead) : Prop := ∀ a ∈ head.arguments, a.value.Proper

theorem checkArguments_proper {schema : Schema} {bindings : Variables} {head : FieldHead}
    {definitions : OrderedMap ArgumentDefinition} {checked : OrderedMap Json}
    (h : checkArguments schema bindings head definitions = .ok checked)
    (proper : ProperVariables bindings) (values : ProperHead head) : Json.ProperMap checked := by
  obtain ⟨⟨checked', left⟩, declared, h⟩ := bind_ok h
  simp only at h
  split at h
  · cases h
    refine (checkDeclared_proper declared proper fun entry mem => ?_).1
    obtain ⟨a, written, rfl⟩ := List.mem_map.mp (OrderedMap.mem_of_mem_ofEntries mem)
    exact values a written
  · cases h

end Request

end GraphQLEngine
