import GraphQLEngine.Proofs.Lists
import GraphQLEngine.Proofs.Schemas.Build
import GraphQLEngine.Schema.Reachable
import Mathlib

/-!
# The order of the search

A type is reachable if it is a root or the type of a field of a reachable type.  The search for
reachable fields visits each reachable type once, the types that are nearer to the roots first, and
lists its fields.  It ends, as each listed field puts one name on its queue.

    reachableFields = names.flatMap listing      where names = (roots ++ names.flatMap next).eraseDups
    within (n + 1) = (roots ++ (within n).flatMap next).eraseDups      the first types of `names`
    (turn s)^[roots.length + reachableFields.length] ⟨[], roots, []⟩ = ⟨_, [], reachableFields⟩
-/

namespace GraphQLEngine

namespace Schema

variable {s : Schema}

/-- A type that a selection can reach from the roots. -/
inductive Reaches (s : Schema) : String → Prop
  | root {typeName : String} : typeName ∈ s.roots → Reaches s typeName
  | field {typeName fieldName : String} {d : FieldDefinition} : Reaches s typeName →
    s.field? typeName fieldName = some d → Reaches s d.type.innermost

/-! ## What the search lists -/

/-- The fields of an object, each with the name of its type; none of any other type. -/
def listing (s : Schema) (name : String) : List (String × FieldDefinition) :=
  match s.type? name with
  | none => []
  | some t => (OrderedMap.values (t.fields?.getD [])).map fun f => (t.name, f)

/-- The types that the fields of a type lead to. -/
def next (s : Schema) (name : String) : List String :=
  (s.listing name).map fun (_, f) => f.type.innermost

/-- The search takes the first name off its queue.  If it is new, its fields are listed, and their
types are put at the end of the queue. -/
theorem searchFields_cons (s : Schema) (seen queue : List String) (name : String) :
    s.searchFields seen (name :: queue) =
      if name ∈ seen then s.searchFields seen queue
      else s.listing name ++ s.searchFields (name :: seen) (queue ++ s.next name) := by
  rw [searchFields]
  split
  · rfl
  · unfold next listing type?
    cases found : s.types.get? name with
    | none => simp
    | some t =>
      cases object : t.fields? with
      | none => simp [object, OrderedMap.values]
      | some fields => simp [object, List.map_map, Function.comp_def]

/-- Induction along the search. -/
@[elab_as_elim]
theorem search_induction (s : Schema) {motive : List String → List String → Prop}
    (done : ∀ seen, motive seen [])
    (old : ∀ seen name queue, name ∈ seen → motive seen queue → motive seen (name :: queue))
    (new : ∀ seen name queue, name ∉ seen → motive (name :: seen) (queue ++ s.next name) →
      motive seen (name :: queue)) (seen queue : List String) : motive seen queue := by
  -- a name without fields adds nothing to the queue
  have bare : ∀ seen name queue, s.next name = [] → motive (name :: seen) queue →
      motive (name :: seen) (queue ++ s.next name) := by
    intro seen name queue none ih
    rwa [none, List.append_nil]
  induction seen, queue using searchFields.induct (s := s) with
  | case1 seen => exact done seen
  | case2 seen name queue mem ih => exact old seen name queue mem ih
  | case3 seen name queue fresh missing ih =>
    refine new seen name queue fresh (bare seen name queue ?_ ih)
    simp [next, listing, type?, missing]
  | case4 seen name queue fresh t found leaf ih =>
    refine new seen name queue fresh (bare seen name queue ?_ ih)
    simp [next, listing, type?, found, leaf, OrderedMap.values]
  | case5 seen name queue fresh t found fields object values ih =>
    refine new seen name queue fresh ?_
    have step : s.next name = values.map fun f => f.type.innermost := by
      simp [next, listing, type?, found, object, values, List.map_map, Function.comp_def]
    rwa [step]

/-- The names that the search visits: those of the queue and what they lead to, each where it comes
first, without those that were visited before. -/
theorem searchFields_visits (s : Schema) (seen queue : List String) :
    ∃ visited, s.searchFields seen queue = visited.flatMap s.listing ∧
      visited = (queue ++ visited.flatMap s.next).eraseDups.filter (· ∉ seen) ∧
      ∀ P : String → Prop, (∀ name ∈ queue, P name) →
        (∀ name other, P name → other ∈ s.next name → P other) → ∀ name ∈ visited, P name := by
  induction seen, queue using search_induction s with
  | done seen => exact ⟨[], by rw [searchFields]; rfl, by simp, by simp⟩
  | old seen name queue mem ih =>
    obtain ⟨visited, lists, visits, closed⟩ := ih
    refine ⟨visited, ?_, ?_, fun P first => closed P fun x hx => first x (List.mem_cons_of_mem _ hx)⟩
    · rw [searchFields_cons, if_pos mem, lists]
    · have others : ∀ xs : List String,
          (xs.filter fun x => !x == name).filter (· ∉ seen) = xs.filter (· ∉ seen) := by
        intro xs
        rw [List.filter_filter]
        refine List.filter_congr fun x _ => ?_
        by_cases same : x = name
        · simp [same, mem]
        · simp [same]
      rw [List.cons_append, eraseDups_cons_filter, List.filter_cons_of_neg (by simpa using mem),
        others, ← visits]
  | new seen name queue fresh ih =>
    obtain ⟨visited, lists, visits, closed⟩ := ih
    refine ⟨name :: visited, ?_, ?_, ?_⟩
    · rw [searchFields_cons, if_neg fresh, lists, List.flatMap_cons]
    · have others : ∀ xs : List String,
          (xs.filter fun x => !x == name).filter (· ∉ seen) = xs.filter (· ∉ name :: seen) := by
        intro xs
        rw [List.filter_filter]
        refine List.filter_congr fun x _ => ?_
        by_cases same : x = name <;> simp [same]
      rw [List.cons_append, eraseDups_cons_filter, List.filter_cons_of_pos (by simpa using fresh),
        others, List.flatMap_cons, ← List.append_assoc, ← visits]
    · intro P first step x mem
      have here := first name List.mem_cons_self
      rcases List.mem_cons.mp mem with rfl | mem
      · exact here
      · refine closed P (fun y hy => ?_) step x mem
        exact (List.mem_append.mp hy).elim (fun h => first y (List.mem_cons_of_mem _ h)) (step name y here)

/-- How far a search has come. -/
structure Search where
  visited : List String
  queue : List String
  listed : List (String × FieldDefinition)

/-- One turn of a search takes a name off its queue; a new one is visited. -/
def Search.turn (s : Schema) (q : Search) : Search :=
  match q.queue with
  | [] => q
  | name :: queue =>
    if name ∈ q.visited then { q with queue }
    else ⟨name :: q.visited, queue ++ s.next name, q.listed ++ s.listing name⟩

/-- Each turn takes one name off the queue, and each listed field has put one name there. -/
theorem turns_searchFields (s : Schema) (seen queue : List String)
    (listed : List (String × FieldDefinition)) :
    ∃ visited, (Search.turn s)^[queue.length + (s.searchFields seen queue).length]
      ⟨seen, queue, listed⟩ = ⟨visited, [], listed ++ s.searchFields seen queue⟩ := by
  induction seen, queue using search_induction s generalizing listed with
  | done seen => exact ⟨seen, by simp [searchFields]⟩
  | old seen name queue mem ih =>
    obtain ⟨visited, ends⟩ := ih listed
    refine ⟨visited, ?_⟩
    have first : Search.turn s ⟨seen, name :: queue, listed⟩ = ⟨seen, queue, listed⟩ := if_pos mem
    rw [searchFields_cons, if_pos mem, List.length_cons, Nat.add_right_comm, Function.iterate_succ_apply,
      first, ends]
  | new seen name queue fresh ih =>
    obtain ⟨visited, ends⟩ := ih (listed ++ s.listing name)
    refine ⟨visited, ?_⟩
    have first : Search.turn s ⟨seen, name :: queue, listed⟩ =
        ⟨name :: seen, queue ++ s.next name, listed ++ s.listing name⟩ := if_neg fresh
    have count : (name :: queue).length + (s.listing name ++
          s.searchFields (name :: seen) (queue ++ s.next name)).length =
        (queue ++ s.next name).length +
          (s.searchFields (name :: seen) (queue ++ s.next name)).length + 1 := by
      simp only [List.length_cons, List.length_append, next, List.length_map]
      omega
    rw [searchFields_cons, if_neg fresh, count, Function.iterate_succ_apply, first, ends,
      List.append_assoc]

/-! ## Breadth first -/

/-- The roots, and the types that some types lead to, each where it comes first. -/
def expand (s : Schema) (names : List String) : List String :=
  (s.roots ++ names.flatMap s.next).eraseDups

/-- The types that fewer than `n` fields lead to, in the order in which they are come upon. -/
def within (s : Schema) : Nat → List String
  | 0 => []
  | n + 1 => s.expand (s.within n)

theorem expand_mono {xs ys : List String} (first : xs <+: ys) : s.expand xs <+: s.expand ys := by
  obtain ⟨rest, rfl⟩ := first
  rw [expand, expand, List.flatMap_append, ← List.append_assoc]
  exact ⟨_, List.eraseDups_append.symm⟩

theorem within_prefix {names : List String} (fixed : names = s.expand names) (n : Nat) :
    s.within n <+: names := by
  induction n with
  | zero => exact List.nil_prefix
  | succ n ih =>
    rw [fixed]
    exact expand_mono ih

theorem within_mono {m n : Nat} (le : m ≤ n) : s.within m <+: s.within n := by
  induction m generalizing n with
  | zero => exact List.nil_prefix
  | succ m ih =>
    obtain ⟨n, rfl⟩ : ∃ k, n = k + 1 := ⟨n - 1, by omega⟩
    exact expand_mono (ih (by omega))

/-- A type to which a path of `n` fields leads from a root. -/
inductive ReachesIn (s : Schema) : Nat → String → Prop
  | root {typeName : String} : typeName ∈ s.roots → ReachesIn s 0 typeName
  | field {n : Nat} {typeName fieldName : String} {d : FieldDefinition} : ReachesIn s n typeName →
    s.field? typeName fieldName = some d → ReachesIn s (n + 1) d.type.innermost

theorem reaches_iff {name : String} : s.Reaches name ↔ ∃ n, s.ReachesIn n name := by
  constructor
  · intro reached
    induction reached with
    | root root => exact ⟨0, .root root⟩
    | field _ found ih =>
      obtain ⟨n, reached⟩ := ih
      exact ⟨n + 1, .field reached found⟩
  · rintro ⟨n, reached⟩
    induction reached with
    | root root => exact .root root
    | field _ found ih => exact .field ih found

/-- The fields of an object by their keys; none of any other type. -/
def entriesOf (s : Schema) (name : String) : OrderedMap FieldDefinition := (s.object? name).getD []

/-- No object has two fields under one key. -/
def KeysOnce (s : Schema) : Prop := ∀ name, ((s.entriesOf name).map Prod.fst).Nodup

theorem field_iff (once : s.KeysOnce) {name fieldName : String} {d : FieldDefinition} :
    s.field? name fieldName = some d ↔ (fieldName, d) ∈ s.entriesOf name := by
  have once := once name
  unfold field? entriesOf at *
  cases object : s.object? name with
  | none => simp
  | some fields =>
    rw [object] at once
    exact ⟨mem_of_lookup, lookup_of_mem once⟩

theorem mem_next (once : s.KeysOnce) {name other : String} :
    other ∈ s.next name ↔
      ∃ fieldName d, s.field? name fieldName = some d ∧ d.type.innermost = other := by
  have step : s.next name = (s.entriesOf name).map fun (_, d) => d.type.innermost := by
    unfold next listing entriesOf object?
    cases s.type? name with
    | none => rfl
    | some t => simp only [List.map_map, Option.bind_some, OrderedMap.values, Function.comp_def]
  simp only [step, List.mem_map, Prod.exists, field_iff once]

theorem mem_within (once : s.KeysOnce) {n : Nat} {name : String} :
    name ∈ s.within n ↔ ∃ k < n, s.ReachesIn k name := by
  induction n generalizing name with
  | zero => simp [within]
  | succ n ih =>
    rw [within, expand, List.mem_eraseDups, List.mem_append, List.mem_flatMap]
    constructor
    · rintro (root | ⟨before, mem, leads⟩)
      · exact ⟨0, Nat.succ_pos n, .root root⟩
      · obtain ⟨k, lt, reached⟩ := ih.mp mem
        obtain ⟨fieldName, d, found, rfl⟩ := (mem_next once).mp leads
        exact ⟨k + 1, Nat.succ_lt_succ lt, .field reached found⟩
    · rintro ⟨k, lt, reached⟩
      cases reached with
      | root root => exact .inl root
      | @field k before fieldName d reached found =>
        exact .inr ⟨before, ih.mpr ⟨k, Nat.lt_of_succ_lt_succ lt, reached⟩,
          (mem_next once).mpr ⟨fieldName, d, found, rfl⟩⟩

/-- Finitely many types are reached by paths of bounded length. -/
theorem all_within (once : s.KeysOnce) {names : List String}
    (reached : ∀ name ∈ names, s.Reaches name) : ∃ n, ∀ name ∈ names, name ∈ s.within n := by
  induction names with
  | nil => exact ⟨0, by simp⟩
  | cons name names ih =>
    obtain ⟨here, others⟩ := List.forall_mem_cons.mp reached
    obtain ⟨k, path⟩ := reaches_iff.mp here
    obtain ⟨n, all⟩ := ih others
    refine ⟨max (k + 1) n, List.forall_mem_cons.mpr ⟨?_, fun other mem => ?_⟩⟩
    · exact (mem_within once).mpr ⟨k, by omega, path⟩
    · exact (within_mono (Nat.le_max_right (k + 1) n)).subset (all other mem)

/-- The whole search visits what the roots lead to, and lists the fields of one type after the
other. -/
theorem visits (once : s.KeysOnce) :
    ∃ names : List String, s.reachableFields = names.flatMap s.listing ∧ names = s.expand names ∧
      ∀ name, name ∈ names ↔ s.Reaches name := by
  obtain ⟨names, lists, visits, closed⟩ := searchFields_visits s [] s.roots
  have fixed : names = s.expand names := by
    rw [expand]
    simpa using visits
  have leads : ∀ {name}, name ∈ s.roots ∨ (∃ before ∈ names, name ∈ s.next before) → name ∈ names := by
    intro name h
    rw [fixed, expand, List.mem_eraseDups, List.mem_append, List.mem_flatMap]
    exact h
  refine ⟨names, lists, fixed, fun name => ⟨fun mem => ?_, fun reached => ?_⟩⟩
  · refine closed s.Reaches (fun _ => .root) (fun before after reached step => ?_) name mem
    obtain ⟨fieldName, d, found, rfl⟩ := (mem_next once).mp step
    exact .field reached found
  · induction reached with
    | root root => exact leads (.inl root)
    | field _ found ih => exact leads (.inr ⟨_, ih, (mem_next once).mpr ⟨_, _, found, rfl⟩⟩)

/-- Breadth-first order is the limit of the types within more and more fields of the roots. -/
theorem within_ends (once : s.KeysOnce) {names : List String} (fixed : names = s.expand names)
    (reached : ∀ name ∈ names, s.Reaches name) : ∃ n, ∀ m, n ≤ m → s.within m = names := by
  obtain ⟨n, all⟩ := all_within once reached
  refine ⟨n, fun m le => ?_⟩
  obtain ⟨rest, split⟩ := within_prefix fixed m
  have apart : names.Nodup := fixed ▸ nodup_eraseDups _
  cases rest with
  | nil => rwa [List.append_nil] at split
  | cons name rest =>
    -- a name beyond those within `m` would be among them as well
    have early := (within_mono le).subset (all name (by rw [← split]; simp))
    rw [← split] at apart
    exact absurd rfl ((List.nodup_append.mp apart).2.2 name early name List.mem_cons_self)

/-- Types that are nearer to the roots come first. -/
theorem nearest_first (once : s.KeysOnce) {names : List String} (fixed : names = s.expand names) :
    names.Pairwise fun a b => ∀ n, s.ReachesIn n b → ∃ m ≤ n, s.ReachesIn m a := by
  have apart : names.Nodup := fixed ▸ nodup_eraseDups _
  rw [List.pairwise_iff_getElem]
  intro i j hi hj lt n path
  -- the types within `n + 1` fields are the first ones, and the later of the two is among them
  have first := within_prefix fixed (n + 1)
  obtain ⟨k, hk, eq⟩ := List.mem_iff_getElem.mp
    ((mem_within once (n := n + 1)).mpr ⟨n, by omega, path⟩)
  have place : k = j := by
    rw [first.getElem hk] at eq
    exact apart.getElem_inj_iff.mp eq
  have early : names[i] ∈ s.within (n + 1) := by
    rw [← first.getElem (i := i) (by omega)]
    exact List.getElem_mem _
  obtain ⟨m, below, path⟩ := (mem_within once).mp early
  exact ⟨m, Nat.le_of_lt_succ below, path⟩

/-- Where types are listed once, no field of a type is listed twice. -/
theorem nodup_listed (once : s.KeysOnce) {names : List String} (apart : names.Nodup) :
    (names.flatMap fun name => (s.entriesOf name).map fun (key, _) => (name, key)).Nodup := by
  refine List.nodup_flatMap.mpr ⟨fun name _ => ?_, apart.imp fun ne => ?_⟩
  · have own := (once name).map (Prod.mk_right_injective name)
    rwa [List.map_map] at own
  · intro key first second
    obtain ⟨_, -, rfl⟩ := List.mem_map.mp first
    obtain ⟨_, -, eq⟩ := List.mem_map.mp second
    exact ne (congrArg Prod.fst eq).symm

/-! ## Types and fields that are filed under their names -/

namespace Filed

theorem keysOnce (filed : s.Filed) : s.KeysOnce := by
  intro name
  unfold entriesOf
  cases object : s.object? name with
  | none => exact List.nodup_nil
  | some fields => exact (filed.fields object).2

theorem listing (filed : s.Filed) (name : String) :
    s.listing name = (s.entriesOf name).map fun (_, f) => (name, f) := by
  unfold Schema.listing entriesOf object?
  cases found : s.type? name with
  | none => rfl
  | some t =>
    simp only [filed.types found, List.map_map, Option.bind_some, OrderedMap.values,
      Function.comp_def]

/-- The listed pairs are the fields of the reachable types. -/
theorem mem_reachableFields (filed : s.Filed) {typeName : String} {f : FieldDefinition} :
    (typeName, f) ∈ s.reachableFields ↔ s.Reaches typeName ∧ s.field? typeName f.name = some f := by
  obtain ⟨names, lists, -, reached⟩ := visits filed.keysOnce
  rw [lists, List.mem_flatMap, ← reached, field_iff filed.keysOnce]
  simp only [filed.listing]
  constructor
  · rintro ⟨name, mem, listed⟩
    obtain ⟨⟨key, f⟩, own, eq⟩ := List.mem_map.mp listed
    cases eq
    rw [filed.name_of_field ((field_iff filed.keysOnce).mpr own)]
    exact ⟨mem, own⟩
  · rintro ⟨mem, own⟩
    exact ⟨typeName, mem, List.mem_map.mpr ⟨_, own, rfl⟩⟩

theorem nodup_reachableFields (filed : s.Filed) :
    (s.reachableFields.map fun (name, f) => (name, f.name)).Nodup := by
  obtain ⟨names, lists, fixed, -⟩ := visits filed.keysOnce
  have apart : names.Nodup := fixed ▸ nodup_eraseDups _
  have listed := nodup_listed filed.keysOnce apart
  have keys : (s.reachableFields.map fun (name, f) => (name, f.name)) =
      names.flatMap fun name => (s.entriesOf name).map fun (key, _) => (name, key) := by
    rw [lists, List.map_flatMap]
    refine List.flatMap_congr fun name _ => ?_
    rw [filed.listing, List.map_map]
    refine List.map_congr_left fun entry mem => ?_
    exact congrArg (Prod.mk name) (filed.name_of_field ((field_iff filed.keysOnce).mpr mem))
  rwa [keys]

end Filed

/-- The search ends, after one turn for each root and each field that is listed.  It lists the fields
of the types that are reachable from the roots, those of each type together and in the order of their
declaration, and no field twice.  The types are in breadth-first order from the roots: from some `n`
on they are the types within `n` fields, as these are come upon, and a type that is nearer to the
roots comes first.  Where types and fields are filed under their names, the listed pairs are those that
are looked up, each once and no other. -/
theorem reachableFields_exact (s : Schema) (once : s.KeysOnce) :
    (∃ visited, (Search.turn s)^[s.roots.length + s.reachableFields.length] ⟨[], s.roots, []⟩ =
      ⟨visited, [], s.reachableFields⟩) ∧
    (∃ names : List String, (∀ name, name ∈ names ↔ s.Reaches name) ∧
      s.reachableFields = names.flatMap s.listing ∧
      (names.flatMap fun name => (s.entriesOf name).map fun (key, _) => (name, key)).Nodup ∧
      names.Nodup ∧ (∃ n, ∀ m, n ≤ m → s.within m = names) ∧
      names.Pairwise fun a b => ∀ n, s.ReachesIn n b → ∃ m ≤ n, s.ReachesIn m a) ∧
    (s.Filed → (s.reachableFields.map fun (name, f) => (name, f.name)).Nodup ∧
      ∀ typeName f, (typeName, f) ∈ s.reachableFields ↔
        s.Reaches typeName ∧ s.field? typeName f.name = some f) := by
  obtain ⟨names, lists, fixed, reached⟩ := visits once
  have apart : names.Nodup := fixed ▸ nodup_eraseDups _
  refine ⟨turns_searchFields s [] s.roots [], ⟨names, reached, lists, nodup_listed once apart, apart,
    ?_, nearest_first once fixed⟩, fun filed => ⟨filed.nodup_reachableFields, ?_⟩⟩
  · exact within_ends once fixed fun name => (reached name).mp
  · exact fun _ _ => filed.mem_reachableFields

/-! ## A cycle with roots on it -/

namespace Circle

/-- Posts and their authors lead to each other.  Queries and mutations have one root, and what they
lead to is the root of subscriptions. -/
def spec : SchemaSpec where
  declarations := [
    .object "Post" [.of "id" (.nonNull (.named "ID")), .of "author" (.nonNull (.named "User"))],
    .object "User" [.of "name" (.named "String"), .of "posts" (.list (.named "Post"))],
    .object "Query" [.of "posts" (.list (.named "Post")), .of "me" (.named "User")]]
  queryRoot := none
  mutationRoot := some "Query"
  subscriptionRoot := some "User"

/-- The schema that is built from `spec`. -/
def schema : Schema where
  types := ⟨[("Int", ⟨"Int", .scalar .int⟩), ("Float", ⟨"Float", .scalar .float⟩),
    ("String", ⟨"String", .scalar .string⟩), ("Boolean", ⟨"Boolean", .scalar .boolean⟩),
    ("ID", ⟨"ID", .scalar .id⟩),
    ("Post", ⟨"Post", .object [("id", .of "id" (.nonNull (.named "ID"))),
      ("author", .of "author" (.nonNull (.named "User")))]⟩),
    ("User", ⟨"User", .object [("name", .of "name" (.named "String")),
      ("posts", .of "posts" (.list (.named "Post")))]⟩),
    ("Query", ⟨"Query", .object [("posts", .of "posts" (.list (.named "Post"))),
      ("me", .of "me" (.named "User"))]⟩)], by decide⟩
  queryRoot := "Query"
  mutationRoot := some "Query"
  subscriptionRoot := some "User"

theorem built : build spec = .ok schema := by rfl

/-- Three roots and six fields are nine turns, and the last type is come upon in the third round. -/
theorem reachableFields_exact_circle :
    schema.Filed ∧
    (∃ visited, (Search.turn schema)^[9] ⟨[], ["Query", "Query", "User"], []⟩ =
      ⟨visited, [], schema.reachableFields⟩) ∧
    schema.reachableFields.map (fun (name, f) => (name, f.name)) =
      [("Query", "posts"), ("Query", "me"), ("User", "name"), ("User", "posts"), ("Post", "id"),
        ("Post", "author")] ∧
    (∃ n, ∀ m, n ≤ m → schema.within m = ["Query", "User", "Post", "String", "ID"]) ∧
    (∀ name, schema.Reaches name ↔ name ∈ ["Query", "User", "Post", "String", "ID"]) ∧
    ("Post", .of "author" (.nonNull (.named "User"))) ∈ schema.reachableFields := by
  have filed : schema.Filed := filed_of_build built
  have listed : schema.reachableFields.map (fun (name, f) => (name, f.name)) =
      [("Query", "posts"), ("Query", "me"), ("User", "name"), ("User", "posts"), ("Post", "id"),
        ("Post", "author")] := by cbv
  obtain ⟨ends, ⟨names, reached, -, -, -, ⟨n, limit⟩, -⟩, named⟩ :=
    reachableFields_exact schema filed.keysOnce
  have count : schema.roots.length + schema.reachableFields.length = 9 := by
    have length := congrArg List.length listed
    rw [List.length_map] at length
    rw [length]
    rfl
  -- the third round finds all types, so later rounds add none
  have third : schema.within 3 = ["Query", "User", "Post", "String", "ID"] := by cbv
  have fixed : schema.expand ["Query", "User", "Post", "String", "ID"] =
      ["Query", "User", "Post", "String", "ID"] := by cbv
  have rounds : ∀ k, schema.within (3 + k) = ["Query", "User", "Post", "String", "ID"] := by
    intro k
    induction k with
    | zero => exact third
    | succ k ih => rw [← Nat.add_assoc, within, ih, fixed]
  have all : names = ["Query", "User", "Post", "String", "ID"] := by
    rw [← limit (3 + n) (by omega), rounds]
  refine ⟨filed, ?_, listed, ⟨n, fun m le => ?_⟩, fun name => ?_, ?_⟩
  · rwa [count] at ends
  · rw [limit m le, all]
  · rw [← reached, all]
  · refine ((named filed).2 "Post" _).mpr ⟨(reached "Post").mp ?_, by rfl⟩
    rw [all]
    decide

end Circle

end Schema

end GraphQLEngine
