import GraphQLEngine.Proofs.Lists
import GraphQLEngine.Proofs.Schemas.Sealing
import Mathlib

/-!
# Registered resolvers

A table is filled by calls that register resolvers, and is then sealed.  What it answers, and whether
it can be sealed, depends on what was registered and not on the order.

    ofCalls property calls = .ok t   →   t.entries = calls.flatMap (entries property)
    sealFor t s = .error (.unknownField key)   →   `key` is the least of the unknown ones
-/

namespace GraphQLEngine

namespace DispatchTable

variable {F S : Type}

/-! ## Calls -/

/-- A call that registers resolvers. -/
inductive Call (F S : Type) where
  | field (key : FieldKey) (resolver : F)
  | subscription (key : FieldKey) (resolver : S)
  /-- Some fields of a type are properties of what its values hold. -/
  | properties (typeName : String) (names : List String)

/-- What a call registers, where `property` is the resolver of properties. -/
def Call.entries (property : F) : Call F S → List (FieldKey × Handler F S)
  | .field key resolver => [(key, .field resolver)]
  | .subscription key resolver => [(key, .subscription resolver)]
  | .properties typeName names => names.map fun name => (⟨typeName, name⟩, .field property)

def Call.perform (property : F) (t : DispatchTable F S) :
    Call F S → Except DispatchError (DispatchTable F S)
  | .field key resolver => t.register key (.field resolver)
  | .subscription key resolver => t.register key (.subscription resolver)
  | .properties typeName names =>
    match t.registerAll typeName (.field property) names with
    | (t, none) => .ok t
    | (_, some e) => .error e

/-- The table after some calls that all succeed. -/
def ofCalls (property : F) (calls : List (Call F S)) : Except DispatchError (DispatchTable F S) :=
  calls.foldlM (Call.perform property) empty

/-- The entries of a table, and then others, as long as no key is used twice. -/
def Extends (t t' : DispatchTable F S) (others : List (FieldKey × Handler F S)) : Prop :=
  t'.entries = t.entries ++ others ∧ t'.keys.Nodup

theorem register_ok_iff {t t' : DispatchTable F S} (once : t.keys.Nodup) {key : FieldKey}
    {h : Handler F S} : t.register key h = .ok t' ↔ t.Extends t' [(key, h)] := by
  unfold register Extends
  by_cases used : (t.find? key).isSome
  · rw [if_pos used]
    obtain ⟨h', found⟩ := Option.isSome_iff_exists.mp used
    constructor
    · intro ok
      cases ok
    · rintro ⟨entries, once'⟩
      rw [keys, entries, List.map_append, List.nodup_append] at once'
      exact absurd rfl (once'.2.2 key (List.mem_map_of_mem (mem_of_lookup found)) key
        List.mem_cons_self)
  · rw [if_neg used]
    have new : ∀ entry ∈ t.entries, entry.1 ≠ key := by
      intro entry mem eq
      refine used (Option.isSome_iff_exists.mpr ⟨entry.2, lookup_of_mem once ?_⟩)
      rw [← eq]
      exact mem
    constructor
    · intro ok
      cases ok
      refine ⟨rfl, ?_⟩
      rw [keys, List.map_append]
      refine List.nodup_append.mpr ⟨once, List.nodup_singleton key, ?_⟩
      rintro _ mem _ last rfl
      obtain ⟨entry, old, rfl⟩ := List.mem_map.mp mem
      exact new entry old (List.mem_singleton.mp last)
    · rintro ⟨entries, -⟩
      obtain ⟨entries'⟩ := t'
      rw [← entries]

theorem extends_nil {t t' : DispatchTable F S} (once : t.keys.Nodup) : t.Extends t' [] ↔ t = t' := by
  obtain ⟨entries⟩ := t
  obtain ⟨entries'⟩ := t'
  unfold Extends
  rw [List.append_nil]
  constructor
  · rintro ⟨rfl, -⟩
    rfl
  · intro eq
    cases eq
    exact ⟨rfl, once⟩

theorem Extends.trans {t t' t'' : DispatchTable F S} {xs ys : List (FieldKey × Handler F S)}
    (first : t.Extends t' xs) (second : t'.Extends t'' ys) : t.Extends t'' (xs ++ ys) := by
  refine ⟨?_, second.2⟩
  rw [second.1, first.1, List.append_assoc]

/-- What can be added at once can be added one after the other. -/
theorem Extends.split {t t'' : DispatchTable F S} {xs ys : List (FieldKey × Handler F S)}
    (all : t.Extends t'' (xs ++ ys)) : ∃ t', t.Extends t' xs ∧ t'.Extends t'' ys := by
  obtain ⟨entries, once⟩ := all
  rw [← List.append_assoc] at entries
  have once' := once
  rw [keys, entries, List.map_append] at once'
  exact ⟨⟨t.entries ++ xs⟩, ⟨rfl, (List.nodup_append.mp once').1⟩, entries, once⟩

theorem registerAll_ok_iff {t t' : DispatchTable F S} (once : t.keys.Nodup) {typeName : String}
    {h : Handler F S} {names : List String} :
    t.registerAll typeName h names = (t', none) ↔
      t.Extends t' (names.map fun name => (⟨typeName, name⟩, h)) := by
  induction names generalizing t with
  | nil =>
    rw [registerAll, List.map_nil, extends_nil once, Prod.mk.injEq]
    exact and_iff_left rfl
  | cons name names ih =>
    -- the first name is registered, and then the others
    change _ ↔ t.Extends t' ([(⟨typeName, name⟩, h)] ++ names.map fun name => (⟨typeName, name⟩, h))
    rw [registerAll]
    cases first : t.register ⟨typeName, name⟩ h with
    | error e =>
      constructor
      · intro eq
        cases eq
      · intro all
        obtain ⟨t₁, here, -⟩ := all.split
        rw [(register_ok_iff once).mpr here] at first
        cases first
    | ok t₁ =>
      have here := (register_ok_iff once).mp first
      rw [ih here.2]
      refine ⟨here.trans, fun all => ?_⟩
      obtain ⟨t₂, again, rest⟩ := all.split
      rw [(register_ok_iff once).mpr again] at first
      cases first
      exact rest

theorem perform_ok_iff {t t' : DispatchTable F S} (once : t.keys.Nodup) {property : F}
    {call : Call F S} : call.perform property t = .ok t' ↔ t.Extends t' (call.entries property) := by
  cases call with
  | field key resolver => exact register_ok_iff once
  | subscription key resolver => exact register_ok_iff once
  | properties typeName names =>
    rw [Call.entries, ← registerAll_ok_iff once, Call.perform]
    obtain ⟨t₁, fault⟩ := t.registerAll typeName (.field property) names
    cases fault with
    | none => simp
    | some e => simp

/-- Calls succeed where they register each key once, and the table has what they registered. -/
theorem ofCalls_ok_iff {property : F} {calls : List (Call F S)} {t : DispatchTable F S} :
    ofCalls property calls = .ok t ↔
      t.entries = calls.flatMap (Call.entries property) ∧ t.keys.Nodup := by
  -- the calls that follow meet a table that is not empty
  have step : ∀ (calls : List (Call F S)) (t₀ : DispatchTable F S), t₀.keys.Nodup →
      (calls.foldlM (Call.perform property) t₀ = .ok t ↔
        t₀.Extends t (calls.flatMap (Call.entries property))) := by
    intro calls
    induction calls with
    | nil =>
      intro t₀ once
      rw [List.flatMap_nil, extends_nil once]
      exact ⟨Except.ok.inj, congrArg Except.ok⟩
    | cons call calls ih =>
      intro t₀ once
      rw [List.foldlM_cons, List.flatMap_cons]
      constructor
      · intro ok
        obtain ⟨t₁, first, rest⟩ := bind_ok ok
        have first := (perform_ok_iff once).mp first
        exact first.trans ((ih t₁ first.2).mp rest)
      · intro all
        obtain ⟨t₁, first, rest⟩ := all.split
        exact (bind_of_ok ((perform_ok_iff once).mpr first)).trans ((ih t₁ first.2).mpr rest)
  exact step calls empty List.nodup_nil

/-! ## The least unknown field -/

end DispatchTable

namespace FieldKey

/-- Keys are ordered as pairs are. -/
def rank (k : FieldKey) : String ×ₗ String := toLex (k.typeName, k.fieldName)

theorem before_iff {a b : FieldKey} : a.before b = true ↔ a.rank < b.rank := by
  rw [before, rank, rank, Prod.Lex.toLex_lt_toLex]
  simp

theorem rank_injective : Function.Injective rank := by
  intro a b same
  obtain ⟨types, fields⟩ := Prod.mk.inj (toLex.injective same)
  obtain ⟨⟩ := a
  cases types
  cases fields
  rfl

/-- The lesser of two keys. -/
def lesser (least : Option FieldKey) (k : FieldKey) : Option FieldKey :=
  match least with
  | none => some k
  | some l => if k.before l then some k else some l

/-- Among some keys there is a least one. -/
theorem foldl_lesser (l : FieldKey) (ks : List FieldKey) :
    ∃ k ∈ l :: ks, ks.foldl lesser (some l) = some k ∧ ∀ k' ∈ l :: ks, k.rank ≤ k'.rank := by
  induction ks generalizing l with
  | nil => exact ⟨l, List.mem_cons_self, rfl, by simp⟩
  | cons k ks ih =>
    rw [List.foldl_cons, lesser]
    split
    · next less =>
      obtain ⟨least, mem, eq, bound⟩ := ih k
      refine ⟨least, List.mem_cons_of_mem _ mem, eq, List.forall_mem_cons.mpr ⟨?_, bound⟩⟩
      exact (bound k List.mem_cons_self).trans (before_iff.mp less).le
    · next notLess =>
      obtain ⟨least, mem, eq, bound⟩ := ih l
      obtain ⟨first, others⟩ := List.forall_mem_cons.mp bound
      refine ⟨least, ?_, eq, ?_⟩
      · rcases List.mem_cons.mp mem with rfl | mem
        · exact List.mem_cons_self
        · exact List.mem_cons_of_mem _ (List.mem_cons_of_mem _ mem)
      · have next := first.trans (not_lt.mp fun lt => notLess (before_iff.mpr lt))
        exact List.forall_mem_cons.mpr ⟨first, List.forall_mem_cons.mpr ⟨next, others⟩⟩

end FieldKey

namespace DispatchTable

/-- The registered fields that a schema does not have. -/
def unknown (t : DispatchTable F S) (s : Schema) : List FieldKey :=
  t.keys.filter fun k => (s.field? k.typeName k.fieldName).isNone

/-- The search for an unknown field gives the least one, if there is one. -/
theorem firstUnknown_eq_some {t : DispatchTable F S} {s : Schema} {key : FieldKey} :
    t.firstUnknown? s = some key ↔ key ∈ t.unknown s ∧ ∀ k ∈ t.unknown s, key.rank ≤ k.rank := by
  change (t.unknown s).foldl FieldKey.lesser none = some key ↔ _
  cases t.unknown s with
  | nil => simp
  | cons k ks =>
    obtain ⟨least, mem, eq, bound⟩ := FieldKey.foldl_lesser k ks
    rw [List.foldl_cons, FieldKey.lesser, eq, Option.some.injEq]
    constructor
    · rintro rfl
      exact ⟨mem, bound⟩
    · rintro ⟨mem', bound'⟩
      exact FieldKey.rank_injective (le_antisymm (bound key mem') (bound' least mem))

theorem firstUnknown_eq_none {t : DispatchTable F S} {s : Schema} :
    t.firstUnknown? s = none ↔ t.unknown s = [] := by
  change (t.unknown s).foldl FieldKey.lesser none = none ↔ _
  cases t.unknown s with
  | nil => simp
  | cons k ks =>
    obtain ⟨least, -, eq, -⟩ := FieldKey.foldl_lesser k ks
    rw [List.foldl_cons, FieldKey.lesser, eq]
    simp

/-! ## What a table answers -/

/-- Some of the calls register `h` for the field. -/
def Registers (property : F) (calls : List (Call F S)) (key : FieldKey) (h : Handler F S) : Prop :=
  ∃ call ∈ calls, (key, h) ∈ call.entries property

/-- What a table answers for a field, if a field resolver is asked for and if a resolver of
subscriptions is. -/
def answers (t : DispatchTable F S) (key : FieldKey) :
    Except DispatchError F × Except DispatchError S :=
  (t.resolverFor key, t.subscriptionResolverFor key)

theorem answers_of_find {t : DispatchTable F S} {key : FieldKey} : t.answers key =
    match t.find? key with
    | none => (.error (.unresolved key), .error (.unresolved key))
    | some (.field resolver) => (.ok resolver, .error (.wrongKind key .subscription))
    | some (.subscription resolver) => (.error (.wrongKind key .field), .ok resolver) := by
  unfold answers resolverFor subscriptionResolverFor
  cases t.find? key with
  | none => rfl
  | some h => cases h <;> rfl

section

variable {property : F} {calls : List (Call F S)} {t : DispatchTable F S}

theorem find_iff (registered : ofCalls property calls = .ok t) {key : FieldKey} {h : Handler F S} :
    t.find? key = some h ↔ Registers property calls key h := by
  obtain ⟨entries, once⟩ := ofCalls_ok_iff.mp registered
  rw [Registers, ← List.mem_flatMap, ← entries]
  exact ⟨mem_of_lookup, lookup_of_mem once⟩

theorem find_eq_none (registered : ofCalls property calls = .ok t) {key : FieldKey}
    (absent : ∀ h, ¬Registers property calls key h) : t.find? key = none := by
  cases found : t.find? key with
  | none => rfl
  | some h => exact absurd ((find_iff registered).mp found) (absent h)

theorem unknown_eq_nil (registered : ofCalls property calls = .ok t) {s : Schema} :
    t.unknown s = [] ↔ ∀ key h, Registers property calls key h →
      ∃ d, s.field? key.typeName key.fieldName = some d := by
  rw [unknown, List.filter_eq_nil_iff]
  constructor
  · intro all key h given
    have mem := List.mem_map_of_mem (f := Prod.fst) (mem_of_lookup ((find_iff registered).mpr given))
    have known := all key mem
    rwa [Bool.not_eq_true, Option.isNone_eq_false_iff, Option.isSome_iff_exists] at known
  · intro known key mem
    obtain ⟨⟨key, h⟩, entry, rfl⟩ := List.mem_map.mp mem
    have found := lookup_of_mem (ofCalls_ok_iff.mp registered).2 entry
    rw [Bool.not_eq_true, Option.isNone_eq_false_iff, Option.isSome_iff_exists]
    exact known key h ((find_iff registered).mp found)

/-- The same calls in another order succeed as well, and register the same. -/
theorem ofCalls_perm (registered : ofCalls property calls = .ok t) {others : List (Call F S)}
    (perm : others.Perm calls) :
    ∃ t', ofCalls property others = .ok t' ∧ t'.entries.Perm t.entries ∧ t'.keys.Nodup := by
  obtain ⟨entries, once⟩ := ofCalls_ok_iff.mp registered
  have same : (others.flatMap (Call.entries property)).Perm t.entries :=
    entries ▸ perm.flatMap_right _
  have once' := (same.map Prod.fst).nodup_iff.mpr once
  exact ⟨⟨_⟩, ofCalls_ok_iff.mpr ⟨rfl, once'⟩, same, once'⟩

end

section

variable {t t' : DispatchTable F S}

theorem find_perm (perm : t'.entries.Perm t.entries) (once : t'.keys.Nodup) (key : FieldKey) :
    t'.find? key = t.find? key :=
  lookup_perm perm once key

theorem firstUnknown_perm (perm : t'.entries.Perm t.entries) (s : Schema) :
    t'.firstUnknown? s = t.firstUnknown? s := by
  have same : ∀ key, key ∈ t'.unknown s ↔ key ∈ t.unknown s :=
    fun key => ((perm.map Prod.fst).filter _).mem_iff
  apply Option.ext
  intro key
  simp only [firstUnknown_eq_some, same]

/-- Sealing gives the same error for the same entries in another order, or tables that answer the
same. -/
theorem sealFor_perm (perm : t'.entries.Perm t.entries) (once : t'.keys.Nodup) (s : Schema) :
    (t'.sealFor s).map answers = (t.sealFor s).map answers := by
  have find := find_perm perm once
  have fault : ∀ key, t'.fault? s key = t.fault? s key := by
    intro key
    rw [fault?, fault?, find]
  have same : t'.answers = t.answers := by
    funext key
    rw [answers_of_find, answers_of_find, find]
  unfold sealFor
  rw [firstUnknown_perm perm]
  simp only [fault]
  split
  · rfl
  · split
    · rfl
    · exact congrArg Except.ok same

end

/-- A table that was filled by calls that all succeed is sealed exactly if each registered field is one
of the schema and each reachable one is registered, for subscriptions on their root and for fields
elsewhere.  Sealed, it answers for each field with the one resolver that was registered, if that is of
the kind that is asked for.  The order of the calls is all the same, to the error as well. -/
theorem seal_exact (s : Schema) (property : F) (calls : List (Call F S)) (t : DispatchTable F S)
    (registered : ofCalls property calls = .ok t) :
    ((∃ sealed, t.sealFor s = .ok sealed) ↔
      (∀ key h, Registers property calls key h →
        ∃ d, s.field? key.typeName key.fieldName = some d) ∧
      ∀ typeName f, (typeName, f) ∈ s.reachableFields →
        ∃ h, Registers property calls ⟨typeName, f.name⟩ h ∧
          h.kind = if s.subscriptionRoot = some typeName then .subscription else .field) ∧
    (∀ sealed, t.sealFor s = .ok sealed → ∀ key,
      (∀ resolver, Registers property calls key (.field resolver) →
        sealed.resolverFor key = .ok resolver ∧
          sealed.subscriptionResolverFor key = .error (.wrongKind key .subscription)) ∧
      (∀ resolver, Registers property calls key (.subscription resolver) →
        sealed.resolverFor key = .error (.wrongKind key .field) ∧
          sealed.subscriptionResolverFor key = .ok resolver) ∧
      ((∀ h, ¬Registers property calls key h) →
        sealed.resolverFor key = .error (.unresolved key) ∧
          sealed.subscriptionResolverFor key = .error (.unresolved key))) ∧
    ∀ others, others.Perm calls → ∃ t', ofCalls property others = .ok t' ∧
      t'.answers = t.answers ∧ (t'.sealFor s).map answers = (t.sealFor s).map answers := by
  have kind : ∀ typeName, requiredKind s typeName =
      if s.subscriptionRoot = some typeName then .subscription else .field := by
    intro typeName
    simp only [requiredKind, Schema.isSubscriptionRoot, beq_iff_eq]
  refine ⟨?_, fun sealed ok key => ?_, fun others perm => ?_⟩
  · simp only [sealFor_ok_iff, exists_eq_left, firstUnknown_eq_none, unknown_eq_nil registered,
      find_iff registered, kind]
  · obtain ⟨rfl, -⟩ := sealFor_ok_iff.mp ok
    have both : ∀ {x y}, sealed.answers key = (x, y) → sealed.resolverFor key = x ∧
      sealed.subscriptionResolverFor key = y := fun h => Prod.mk.inj h
    refine ⟨fun resolver given => both ?_, fun resolver given => both ?_, fun absent => both ?_⟩
    · rw [answers_of_find, (find_iff registered).mpr given]
    · rw [answers_of_find, (find_iff registered).mpr given]
    · rw [answers_of_find, find_eq_none registered absent]
  · obtain ⟨t', registered', same, once⟩ := ofCalls_perm registered perm
    refine ⟨t', registered', ?_, sealFor_perm same once s⟩
    funext key
    rw [answers_of_find, answers_of_find, find_perm same once]

/-! ## A table for ticks -/

namespace Ticker

/-- Users have properties, ticks are subscribed to, and no field leads to an `Audit`. -/
def spec : SchemaSpec where
  declarations := [
    .object "Query" [.of "user" (.named "User")],
    .object "User" [.of "name" (.named "String"), .of "email" (.named "String")],
    .object "Subscription" [.of "tick" (.named "Int")],
    .object "Audit" [.of "entry" (.named "String")]]
  queryRoot := none
  mutationRoot := none
  subscriptionRoot := none

def schema : Schema where
  types := ⟨[("Int", ⟨"Int", .scalar .int⟩), ("Float", ⟨"Float", .scalar .float⟩),
    ("String", ⟨"String", .scalar .string⟩), ("Boolean", ⟨"Boolean", .scalar .boolean⟩),
    ("ID", ⟨"ID", .scalar .id⟩),
    ("Query", ⟨"Query", .object [("user", .of "user" (.named "User"))]⟩),
    ("User", ⟨"User", .object [("name", .of "name" (.named "String")),
      ("email", .of "email" (.named "String"))]⟩),
    ("Subscription", ⟨"Subscription", .object [("tick", .of "tick" (.named "Int"))]⟩),
    ("Audit", ⟨"Audit", .object [("entry", .of "entry" (.named "String"))]⟩)], by decide⟩
  queryRoot := "Query"
  mutationRoot := none
  subscriptionRoot := some "Subscription"

/-- Resolvers are numbers, and 0 is the resolver of properties. -/
def calls : List (Call Nat Nat) := [
  .properties "User" ["name", "email"],
  .subscription ⟨"Audit", "entry"⟩ 3,
  .field ⟨"Query", "user"⟩ 1,
  .subscription ⟨"Subscription", "tick"⟩ 2]

/-- The field that nothing leads to may have a resolver of the other kind, and answers with an error. -/
theorem seal_exact_ticker :
    Schema.build spec = .ok schema ∧ ∃ t sealed, ofCalls 0 calls = .ok t ∧
      t.sealFor schema = .ok sealed ∧
      sealed.resolverFor ⟨"User", "email"⟩ = .ok 0 ∧
      sealed.resolverFor ⟨"Audit", "entry"⟩ = .error (.wrongKind ⟨"Audit", "entry"⟩ .field) ∧
      sealed.subscriptionResolverFor ⟨"Subscription", "tick"⟩ = .ok 2 ∧
      ∃ t', ofCalls 0 calls.reverse = .ok t' ∧ (t'.sealFor schema).map answers = .ok sealed.answers := by
  obtain ⟨t, registered⟩ : ∃ t, ofCalls 0 calls = .ok t := ⟨_, rfl⟩
  obtain ⟨-, answers, orders⟩ := seal_exact schema 0 calls t registered
  have passes : (ofCalls 0 calls >>= fun t => (t.sealFor schema).map fun _ => ()) = .ok () := by cbv
  rw [bind_of_ok registered] at passes
  obtain ⟨sealed, ok⟩ : ∃ sealed, t.sealFor schema = .ok sealed := by
    cases result : t.sealFor schema with
    | error e =>
      rw [result] at passes
      cases passes
    | ok sealed => exact ⟨sealed, rfl⟩
  have email := (answers sealed ok ⟨"User", "email"⟩).1 0
    ⟨.properties "User" ["name", "email"], by simp [calls], by simp [Call.entries]⟩
  have entry := (answers sealed ok ⟨"Audit", "entry"⟩).2.1 3
    ⟨.subscription ⟨"Audit", "entry"⟩ 3, by simp [calls], List.mem_cons_self⟩
  have tick := (answers sealed ok ⟨"Subscription", "tick"⟩).2.1 2
    ⟨.subscription ⟨"Subscription", "tick"⟩ 2, by simp [calls], List.mem_cons_self⟩
  obtain ⟨t', registered', -, same⟩ := orders calls.reverse (List.reverse_perm calls)
  rw [ok] at same
  exact ⟨by rfl, t, sealed, registered, ok, email.1, entry.1, tick.2, t', registered', same⟩

end Ticker
end DispatchTable

end GraphQLEngine
