/-!
# Maps that keep the order of insertion

A map is the list of its entries.  A key that is written again keeps its place and takes the new
value, so keys stay distinct:

    lookup k (insert m k v) = some v
    lookup j (insert m k v) = lookup j m                 if j ≠ k
    keys (insert m k v) = keys m, or keys m ++ [k] if k is new
-/

namespace GraphQLEngine

abbrev OrderedMap (α : Type u) := List (String × α)

namespace OrderedMap

variable {α : Type u}

def keys (m : OrderedMap α) : List String := m.map Prod.fst

def values (m : OrderedMap α) : List α := m.map Prod.snd

def get? (m : OrderedMap α) (key : String) : Option α := m.lookup key

def has (m : OrderedMap α) (key : String) : Bool := (m.lookup key).isSome

/-- Write `value` under `key`, in the key's old place if it has one and at the end otherwise. -/
def insert : OrderedMap α → String → α → OrderedMap α
  | [], key, value => [(key, value)]
  | (k, v) :: rest, key, value =>
    if k = key then (k, value) :: rest else (k, v) :: insert rest key value

/-- Remove `key` and keep the order of the others. -/
def erase (m : OrderedMap α) (key : String) : OrderedMap α := m.filter (·.1 ≠ key)

/-- The map of a list of entries; of a repeated key the last value counts. -/
def ofEntries (entries : List (String × α)) : OrderedMap α :=
  entries.foldl (fun m (k, v) => m.insert k v) []

/-- Put an entry before the first one whose key is not smaller. -/
def place (key : String) (value : α) : OrderedMap α → OrderedMap α
  | [] => [(key, value)]
  | (k, v) :: rest =>
    if k < key then (k, v) :: place key value rest else (key, value) :: (k, v) :: rest

/-- The entries in the order of their keys. -/
def sorted (m : OrderedMap α) : OrderedMap α := m.foldr (fun (k, v) sorted => place k v sorted) []

/-! ## Lemmas -/

theorem lookup_insert_self (m : OrderedMap α) (k : String) (v : α) :
    (m.insert k v).lookup k = some v := by
  induction m with
  | nil => simp [insert]
  | cons e rest ih =>
    obtain ⟨j, w⟩ := e
    by_cases h : j = k
    · subst h; simp [insert]
    · have hb : (k == j) = false := by simpa using fun e => h e.symm
      simp [insert, h, List.lookup_cons, hb, ih]

theorem lookup_insert_of_ne (m : OrderedMap α) {j k : String} (v : α) (h : j ≠ k) :
    (m.insert k v).lookup j = m.lookup j := by
  induction m with
  | nil =>
    have hb : (j == k) = false := by simpa using h
    simp [insert, List.lookup_cons, hb]
  | cons e rest ih =>
    obtain ⟨i, w⟩ := e
    by_cases hk : i = k
    · subst hk
      have hb : (j == i) = false := by simpa using h
      simp [insert, List.lookup_cons, hb]
    · by_cases hj : j = i
      · subst hj; simp [insert, hk]
      · have hb : (j == i) = false := by simpa using hj
        simp [insert, hk, List.lookup_cons, hb, ih]

theorem keys_insert (m : OrderedMap α) (k : String) (v : α) :
    (m.insert k v).keys = if k ∈ m.keys then m.keys else m.keys ++ [k] := by
  induction m with
  | nil => simp [insert, keys]
  | cons e rest ih =>
    obtain ⟨j, w⟩ := e
    simp only [keys] at ih ⊢
    by_cases h : j = k
    · subst h; simp [insert]
    · have h' : ¬ k = j := fun e => h e.symm
      by_cases hk : k ∈ List.map Prod.fst rest
      · simp only [insert, h, if_false, List.map_cons, ih, hk, if_true, List.mem_cons, or_true]
      · simp only [insert, h, if_false, List.map_cons, ih, hk, List.mem_cons, h', or_self,
          List.cons_append]

theorem insert_append (m m' : OrderedMap α) {k : String} (v : α) (fresh : k ∉ m.map Prod.fst) :
    insert (m ++ m') k v = m ++ insert m' k v := by
  induction m with
  | nil => rfl
  | cons e rest ih =>
    simp only [List.map_cons, List.mem_cons, not_or] at fresh
    have ne : e.1 ≠ k := fun h => fresh.1 h.symm
    simp only [List.cons_append, insert, ne, if_false, ih fresh.2]

theorem insert_of_fresh (m : OrderedMap α) {k : String} (v : α) (fresh : k ∉ m.map Prod.fst) :
    m.insert k v = m ++ [(k, v)] := by
  have := insert_append m [] v fresh
  rwa [List.append_nil] at this

theorem mem_insert {m : OrderedMap α} {k : String} {v : α} {e : String × α}
    (mem : e ∈ m.insert k v) : e ∈ m ∨ e = (k, v) := by
  induction m with
  | nil => exact .inr (List.mem_singleton.mp mem)
  | cons x rest ih =>
    by_cases same : x.1 = k
    · simp only [insert, same, if_true] at mem
      rcases List.mem_cons.mp mem with rfl | mem
      · exact .inr rfl
      · exact .inl (List.mem_cons_of_mem _ mem)
    · simp only [insert, same, if_false] at mem
      rcases List.mem_cons.mp mem with rfl | mem
      · exact .inl List.mem_cons_self
      · exact (ih mem).imp_left (List.mem_cons_of_mem _)

theorem map_insert {β : Type v} (f : α → β) (m : OrderedMap α) (k : String) (v : α) :
    (m.insert k v).map (fun e => (e.1, f e.2)) = insert (m.map fun e => (e.1, f e.2)) k (f v) := by
  induction m with
  | nil => rfl
  | cons e rest ih => by_cases same : e.1 = k <;> simp [insert, same, ih]

theorem lookup_place (m : OrderedMap α) (k j : String) (v : α) :
    (place k v m).lookup j = if j = k then some v else m.lookup j := by
  induction m with
  | nil => by_cases h : j = k <;> simp [place, h]
  | cons e rest ih =>
    obtain ⟨i, w⟩ := e
    rw [place]
    by_cases less : i < k
    · have ne : i ≠ k := fun eq => String.lt_irrefl k (eq ▸ less)
      rw [if_pos less, List.lookup_cons, List.lookup_cons, ih]
      by_cases h : j = i
      · subst h; simp [ne]
      · simp [beq_eq_false_iff_ne.mpr h]
    · rw [if_neg less, List.lookup_cons]
      by_cases h : j = k
      · simp [h]
      · simp [h, beq_eq_false_iff_ne.mpr h]

theorem lookup_sorted (m : OrderedMap α) (j : String) : m.sorted.lookup j = m.lookup j := by
  induction m with
  | nil => rfl
  | cons e rest ih =>
    obtain ⟨k, v⟩ := e
    have := lookup_place (sorted rest) k j v
    rw [sorted, List.foldr_cons, ← sorted, this, ih, List.lookup_cons]
    by_cases h : j = k
    · simp [h]
    · simp [h, beq_eq_false_iff_ne.mpr h]

theorem nodup_insert {m : OrderedMap α} (nodup : (m.map Prod.fst).Nodup) (k : String) (v : α) :
    ((m.insert k v).map Prod.fst).Nodup := by
  have keys := keys_insert m k v
  rw [OrderedMap.keys, OrderedMap.keys] at keys
  rw [keys]
  split
  · exact nodup
  · next fresh =>
    refine List.nodup_append.mpr ⟨nodup, List.nodup_cons.mpr ⟨List.not_mem_nil, List.nodup_nil⟩, ?_⟩
    intro a ha b hb eq
    exact fresh (List.mem_singleton.mp hb ▸ eq ▸ ha)

theorem nodup_ofEntries (entries : List (String × α)) :
    ((ofEntries entries).map Prod.fst).Nodup := by
  have insertAll : ∀ (entries : List (String × α)) (m : OrderedMap α), (m.map Prod.fst).Nodup →
      ((entries.foldl (fun m (k, v) => m.insert k v) m).map Prod.fst).Nodup := by
    intro entries
    induction entries with
    | nil => exact fun _ nodup => nodup
    | cons e rest ih => exact fun m nodup => ih _ (nodup_insert nodup e.1 e.2)
  exact insertAll entries [] List.nodup_nil

theorem mem_of_mem_ofEntries {entries : List (String × α)} {e : String × α}
    (mem : e ∈ ofEntries entries) : e ∈ entries := by
  have insertAll : ∀ (entries : List (String × α)) (m : OrderedMap α),
      e ∈ entries.foldl (fun m (k, v) => m.insert k v) m → e ∈ m ∨ e ∈ entries := by
    intro entries
    induction entries with
    | nil => exact fun _ mem => .inl mem
    | cons x rest ih =>
      intro m mem
      rcases ih _ mem with mem | mem
      · refine (mem_insert mem).imp_right fun eq => ?_
        rw [eq]
        exact List.mem_cons_self
      · exact .inr (List.mem_cons_of_mem _ mem)
  exact (insertAll entries [] mem).resolve_left List.not_mem_nil

/-- A key whose entries all have one value is found with that value. -/
theorem lookup_ofEntries {entries : List (String × α)} {k : String} {v : α}
    (mem : (k, v) ∈ entries) (unique : ∀ w, (k, w) ∈ entries → w = v) :
    (ofEntries entries).lookup k = some v := by
  have insertAll : ∀ (entries : List (String × α)) (m : OrderedMap α),
      (∀ w, (k, w) ∈ entries → w = v) → (k, v) ∈ entries ∨ m.lookup k = some v →
      (entries.foldl (fun m (k, v) => m.insert k v) m).lookup k = some v := by
    intro entries
    induction entries with
    | nil => exact fun m _ h => h.resolve_left List.not_mem_nil
    | cons e rest ih =>
      intro m unique h
      obtain ⟨j, w⟩ := e
      refine ih _ (fun w' mem => unique w' (List.mem_cons_of_mem _ mem)) ?_
      by_cases same : j = k
      · subst same
        exact .inr (unique w List.mem_cons_self ▸ lookup_insert_self m j w)
      · rcases h with mem | h
        · rcases List.mem_cons.mp mem with eq | mem
          · cases eq
            exact absurd rfl same
          · exact .inl mem
        · exact .inr ((lookup_insert_of_ne m w (Ne.symm same)).trans h)
  exact insertAll entries [] unique (.inl mem)

end OrderedMap

end GraphQLEngine
