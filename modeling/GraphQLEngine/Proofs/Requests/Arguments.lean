import GraphQLEngine.Proofs.Brokers.Registrations
import GraphQLEngine.Proofs.Schemas.Survival
import GraphQLEngine.Proofs.Waves.Tasks

/-!
# Which arguments are accepted, and what resolvers are given

The arguments of a field are accepted exactly if all are declared, all variables in them are declared
by the operation, each value fits its type once its variables are replaced, and none is missing.  Then
a resolver is given the supplied values, and the defaults of what was omitted.

    checkValue schema argument position t c = .ok ()  ↔  schema.Conforms t c
    checkArguments … = .ok _  ↔  ArgumentsFit …
    received.lookup name = the value that was supplied, or else the default
-/

namespace GraphQLEngine

namespace OrderedMap

variable {α β : Type}

theorem ofEntries_concat (entries : List (String × α)) (e : String × α) :
    ofEntries (entries ++ [e]) = (ofEntries entries).insert e.1 e.2 := by
  rw [ofEntries, List.foldl_append]
  rfl

theorem mem_keys_ofEntries {entries : List (String × α)} {k : String} :
    k ∈ (ofEntries entries).map Prod.fst ↔ k ∈ entries.map Prod.fst := by
  induction entries using List.reverseRecOn with
  | nil => rfl
  | append_singleton before e ih =>
    have keys := keys_insert (ofEntries before) e.1 e.2
    rw [OrderedMap.keys, OrderedMap.keys] at keys
    rw [ofEntries_concat, keys, List.map_append, List.mem_append, ← ih]
    split
    · next old =>
      refine ⟨.inl, fun h => h.elim id fun new => ?_⟩
      rw [List.map_singleton, List.mem_singleton] at new
      exact new ▸ old
    · rw [List.mem_append]
      rfl

/-- Entries that are kept under their keys have no other keys. -/
theorem sublist_keys_filterMap {f : String × α → Option (String × β)}
    (kept : ∀ entry out, f entry = some out → out.1 = entry.1) (m : OrderedMap α) :
    ((m.filterMap f).map Prod.fst).Sublist (m.map Prod.fst) := by
  induction m with
  | nil => exact .refl _
  | cons entry rest ih =>
    rw [List.filterMap_cons]
    cases out : f entry with
    | none => exact ih.cons _
    | some out' =>
      rw [List.map_cons, List.map_cons, kept entry out' out]
      exact ih.cons_cons _

end OrderedMap

/-! ## Types -/

/-- The references that are built by naming a type, by lists and by excluding null. -/
inductive TypeRef.Built : TypeRef → Prop
  | named (name : String) : Built (.named name)
  | listOf {t : TypeRef} : Built t → Built t.listOf
  | toNonNull {t : TypeRef} : Built t → Built t.toNonNull

theorem TypeRef.Built.parts {t : TypeRef} (built : t.Built) :
    (∀ item, t = .list item → item.Built) ∧
      ∀ inner, t = .nonNull inner → inner.Built ∧ inner.isNonNull = false := by
  induction built with
  | named name => exact ⟨fun _ eq => TypeRef.noConfusion eq, fun _ eq => TypeRef.noConfusion eq⟩
  | listOf built _ =>
    refine ⟨fun item eq => ?_, fun _ eq => TypeRef.noConfusion eq⟩
    cases eq
    exact built
  | @toNonNull t built ih =>
    cases t with
    | nonNull inner => exact ih
    | named name | list item =>
      refine ⟨fun _ eq => TypeRef.noConfusion eq, fun inner eq => ?_⟩
      cases eq
      exact ⟨built, rfl⟩

/-- The constants of a kind of type. -/
inductive TypeKind.Fits : TypeKind → Const → Prop
  | int {n : Int} : -2 ^ 31 ≤ n → n < 2 ^ 31 → Fits (.scalar .int) (.number (.int n))
  | float (n : Number) : Fits (.scalar .float) (.number n)
  | string (text : String) : Fits (.scalar .string) (.string text)
  | boolean (b : Bool) : Fits (.scalar .boolean) (.boolean b)
  | idText (text : String) : Fits (.scalar .id) (.string text)
  | idNumber (n : Number) : Fits (.scalar .id) (.number n)
  | custom (c : Const) : Fits (.scalar .custom) c
  | literal {values : List String} {name : String} :
    name ∈ values → Fits (.enumeration values) (.enum name)
  | text {values : List String} {name : String} :
    name ∈ values → Fits (.enumeration values) (.string name)

/-- The constants of a type. -/
inductive Schema.Conforms (schema : Schema) : TypeRef → Const → Prop
  | null {t : TypeRef} : t.isNonNull = false → Conforms schema t .null
  | nonNull {t : TypeRef} {c : Const} : c ≠ .null → Conforms schema t c → Conforms schema (.nonNull t) c
  | items {t : TypeRef} {cs : List Const} :
    (∀ c ∈ cs, Conforms schema t c) → Conforms schema (.list t) (.list cs)
  /-- A value that is no list counts as a list of one. -/
  | single {t : TypeRef} {c : Const} : c ≠ .null → (∀ cs, c ≠ .list cs) → Conforms schema t c →
    Conforms schema (.list t) c
  | named {name : String} {type : SchemaType} {c : Const} : c ≠ .null →
    schema.type? name = some type → type.kind.Fits c → Conforms schema (.named name) c

namespace Request

section

variable {schema : Schema} {argument : String} {position : Position}

theorem fits_of_acceptsNamed {name : String} {type : SchemaType} {c : Const}
    (found : schema.type? name = some type) (h : schema.acceptsNamed name c = true) :
    type.kind.Fits c := by
  unfold Schema.acceptsNamed at h
  rw [found] at h
  obtain ⟨_, kind⟩ := type
  cases kind with
  | object fields => cases h
  | enumeration values =>
    cases c <;> first
      | exact .literal (List.contains_iff_mem.mp h)
      | exact .text (List.contains_iff_mem.mp h)
      | cases h
  | scalar kind =>
    cases kind with
    | int =>
      cases c with
      | number n =>
        cases n with
        | int n =>
          simp only [Option.map_some, Number.int32?, Option.isSome_ite] at h
          exact .int h.1 h.2
        | float x => cases h
      | _ => cases h
    | custom => exact .custom c
    | float =>
      cases c with
      | number n => exact .float n
      | _ => cases h
    | string =>
      cases c with
      | string text => exact .string text
      | _ => cases h
    | boolean =>
      cases c with
      | boolean b => exact .boolean b
      | _ => cases h
    | id =>
      cases c with
      | string text => exact .idText text
      | number n => exact .idNumber n
      | _ => cases h

theorem acceptsNamed_of_fits {name : String} {type : SchemaType} {c : Const}
    (found : schema.type? name = some type) (fits : type.kind.Fits c) :
    schema.acceptsNamed name c = true := by
  unfold Schema.acceptsNamed
  rw [found]
  obtain ⟨_, kind⟩ := type
  cases fits with
  | int low high => simp only [Option.map_some, Number.int32?, Option.isSome_ite]; exact ⟨low, high⟩
  | literal mem | text mem => exact List.contains_iff_mem.mpr mem
  | _ => rfl

/-- The values that are accepted for a named type are those of the type. -/
theorem acceptsNamed_iff {name : String} {c : Const} :
    schema.acceptsNamed name c = true ↔
      ∃ type, schema.type? name = some type ∧ type.kind.Fits c := by
  constructor
  · intro h
    cases found : schema.type? name with
    | none =>
      unfold Schema.acceptsNamed at h
      rw [found] at h
      cases h
    | some type => exact ⟨type, rfl, fits_of_acceptsNamed found h⟩
  · rintro ⟨type, found, fits⟩
    exact acceptsNamed_of_fits found fits

theorem ok_of_accepted_iff {accepted : Prop} [Decidable accepted] {fault : ValidationError} :
    (if accepted then .ok () else .error fault : Except ValidationError Unit) = .ok () ↔ accepted := by
  by_cases h : accepted <;> simp [h]

/-- To exclude null changes nothing for other values. -/
theorem checkValue_nonNull {t : TypeRef} (nullable : t.isNonNull = false) {c : Const}
    (present : c ≠ .null) :
    checkValue schema argument position (.nonNull t) c = .ok () ↔
      checkValue schema argument position t c = .ok () := by
  cases t with
  | nonNull inner => cases nullable
  | list item =>
    cases c with
    | null => exact absurd rfl present
    | _ => simp only [checkValue]
  | named name =>
    cases c with
    | null => exact absurd rfl present
    | _ =>
      simp only [checkValue, ok_of_accepted_iff]
      rfl

/-- A value is accepted for a type exactly if it is one of the type. -/
theorem checkValue_iff {t : TypeRef} (built : t.Built) (c : Const) :
    checkValue schema argument position t c = .ok () ↔ schema.Conforms t c := by
  induction t generalizing c with
  | named name =>
    by_cases null : c = .null
    · subst null
      exact iff_of_true (by simp only [checkValue]) (.null rfl)
    · have check : checkValue schema argument position (.named name) c = .ok () ↔
          schema.acceptsNamed name c = true := by
        cases c with
        | null => exact absurd rfl null
        | _ =>
          simp only [checkValue, ok_of_accepted_iff]
          rfl
      rw [check, acceptsNamed_iff]
      constructor
      · rintro ⟨type, found, fits⟩
        exact .named null found fits
      · intro h
        cases h with
        | null => exact absurd rfl null
        | named _ found fits => exact ⟨_, found, fits⟩
  | list item ih =>
    have each := ih (built.parts.1 item rfl)
    by_cases null : c = .null
    · subst null
      exact iff_of_true (by simp only [checkValue]) (.null rfl)
    · by_cases list : ∃ cs, c = .list cs
      · obtain ⟨cs, rfl⟩ := list
        simp only [checkValue, forM_ok_iff, each]
        refine ⟨.items, fun h => ?_⟩
        cases h with
        | items all => exact all
        | single _ bare => exact absurd rfl (bare cs)
      · have bare : ∀ cs, c ≠ .list cs := fun cs eq => list ⟨cs, eq⟩
        have check : checkValue schema argument position (.list item) c =
            checkValue schema argument position item c := by
          cases c with
          | null => exact absurd rfl null
          | list cs => exact absurd rfl (bare cs)
          | _ => simp only [checkValue]
        rw [check, each]
        refine ⟨.single null bare, fun h => ?_⟩
        cases h with
        | null => exact absurd rfl null
        | items => exact absurd rfl (bare _)
        | single _ _ h => exact h
  | nonNull inner ih =>
    obtain ⟨built, nullable⟩ := built.parts.2 inner rfl
    by_cases null : c = .null
    · subst null
      refine iff_of_false (fun h => by simp [checkValue] at h) fun h => ?_
      cases h with
      | null bad => cases bad
      | nonNull present => exact present rfl
    · rw [checkValue_nonNull nullable null, ih built]
      refine ⟨.nonNull null, fun h => ?_⟩
      cases h with
      | null => exact absurd rfl null
      | nonNull _ h => exact h

end

end Request

/-! ## Variables -/

namespace Value

variable {ν ε : Type}

mutual

/-- The names of the variables in a value. -/
def used : Value ν → List ν
  | .variable name => [name]
  | .null | .number _ | .string _ | .boolean _ | .enum _ => []
  | .list items => usedInItems items
  | .object members => usedInMembers members

def usedInItems : List (Value ν) → List ν
  | [] => []
  | v :: vs => used v ++ usedInItems vs

def usedInMembers : List (String × Value ν) → List ν
  | [] => []
  | (_, v) :: vs => used v ++ usedInMembers vs

end

mutual

/-- The value with every variable replaced by its value. -/
def substitute (env : ν → Const) : Value ν → Const
  | .variable name => env name
  | .null => .null
  | .number n => .number n
  | .string text => .string text
  | .boolean b => .boolean b
  | .enum name => .enum name
  | .list items => .list (substituteItems env items)
  | .object members => .object (substituteMembers env members)

def substituteItems (env : ν → Const) : List (Value ν) → List Const
  | [] => []
  | v :: vs => substitute env v :: substituteItems env vs

def substituteMembers (env : ν → Const) : List (String × Value ν) → List (String × Const)
  | [] => []
  | (key, v) :: vs => (key, substitute env v) :: substituteMembers env vs

end

section

variable {lookup : ν → Except ε Const} {env : ν → Const}

mutual

/-- Where all variables have values, the value is resolved by them. -/
theorem resolve_of_bound : ∀ v : Value ν, (∀ x ∈ v.used, lookup x = .ok (env x)) →
    v.resolve lookup = .ok (v.substitute env)
  | .variable name, bound => bound name (List.mem_singleton_self name)
  | .null, _ | .number _, _ | .string _, _ | .boolean _, _ | .enum _, _ => rfl
  | .list items, bound => by
    rw [resolve, resolveItems_of_bound items bound]
    rfl
  | .object members, bound => by
    rw [resolve, resolveMembers_of_bound members bound]
    rfl

theorem resolveItems_of_bound : ∀ vs : List (Value ν),
    (∀ x ∈ usedInItems vs, lookup x = .ok (env x)) →
    resolveItems lookup vs = .ok (substituteItems env vs)
  | [], _ => rfl
  | v :: vs, bound => by
    rw [usedInItems, List.forall_mem_append] at bound
    rw [resolveItems, resolve_of_bound v bound.1, resolveItems_of_bound vs bound.2]
    rfl

theorem resolveMembers_of_bound : ∀ vs : List (String × Value ν),
    (∀ x ∈ usedInMembers vs, lookup x = .ok (env x)) →
    resolveMembers lookup vs = .ok (substituteMembers env vs)
  | [], _ => rfl
  | (key, v) :: vs, bound => by
    rw [usedInMembers, List.forall_mem_append] at bound
    rw [resolveMembers, resolve_of_bound v bound.1, resolveMembers_of_bound vs bound.2]
    rfl

end

mutual

/-- A value is only resolved if all its variables have values. -/
theorem bound_of_resolve : ∀ (v : Value ν) {c : Const}, v.resolve lookup = .ok c →
    ∀ x ∈ v.used, ∃ c, lookup x = .ok c
  | .variable name, c, h => fun x mem => ⟨c, List.mem_singleton.mp mem ▸ h⟩
  | .null, _, _ | .number _, _, _ | .string _, _, _ | .boolean _, _, _ | .enum _, _, _ =>
    fun _ mem => absurd mem List.not_mem_nil
  | .list items, _, h => by
    rw [resolve] at h
    cases each : resolveItems lookup items with
    | error fault => rw [each] at h; cases h
    | ok cs => exact bound_of_resolveItems items each
  | .object members, _, h => by
    rw [resolve] at h
    cases each : resolveMembers lookup members with
    | error fault => rw [each] at h; cases h
    | ok cs => exact bound_of_resolveMembers members each

theorem bound_of_resolveItems : ∀ (vs : List (Value ν)) {cs : List Const},
    resolveItems lookup vs = .ok cs → ∀ x ∈ usedInItems vs, ∃ c, lookup x = .ok c
  | [], _, _ => fun _ mem => absurd mem List.not_mem_nil
  | v :: vs, _, h => by
    rw [resolveItems] at h
    obtain ⟨_, first, h⟩ := bind_ok h
    obtain ⟨_, rest, -⟩ := bind_ok h
    exact List.forall_mem_append.mpr ⟨bound_of_resolve v first, bound_of_resolveItems vs rest⟩

theorem bound_of_resolveMembers : ∀ (vs : List (String × Value ν)) {cs : List (String × Const)},
    resolveMembers lookup vs = .ok cs → ∀ x ∈ usedInMembers vs, ∃ c, lookup x = .ok c
  | [], _, _ => fun _ mem => absurd mem List.not_mem_nil
  | (key, v) :: vs, _, h => by
    rw [resolveMembers] at h
    obtain ⟨_, first, h⟩ := bind_ok h
    obtain ⟨_, rest, -⟩ := bind_ok h
    exact List.forall_mem_append.mpr ⟨bound_of_resolve v first, bound_of_resolveMembers vs rest⟩

end

end

end Value

namespace Request

/-- The value of a variable. -/
def valueOf (bindings : Variables) (name : String) : Const := (bindings.lookup name).getD .null

/-- A value is resolved exactly if all its variables have values, and by these. -/
theorem resolveVariables_iff {bindings : Variables} {position : Position} {v : Value String}
    {c : Const} :
    resolveVariables bindings position v = .ok c ↔
      (∀ x ∈ v.used, x ∈ bindings.map Prod.fst) ∧ c = v.substitute (valueOf bindings) := by
  have found : ∀ x, x ∈ bindings.map Prod.fst → ∃ c, bindings.lookup x = some c := by
    intro x mem
    have : (bindings.lookup x).isSome := by
      obtain ⟨entry, entered, rfl⟩ := List.mem_map.mp mem
      exact List.lookup_isSome_iff.mpr ⟨entry, entered, beq_self_eq_true _⟩
    exact Option.isSome_iff_exists.mp this
  have resolved : (∀ x ∈ v.used, x ∈ bindings.map Prod.fst) →
      resolveVariables bindings position v = .ok (v.substitute (valueOf bindings)) := by
    intro bound
    refine Value.resolve_of_bound v fun x mem => ?_
    obtain ⟨c, found⟩ := found x (bound x mem)
    simp only [found, valueOf, Option.getD_some]
  constructor
  · intro h
    have bound : ∀ x ∈ v.used, x ∈ bindings.map Prod.fst := by
      intro x mem
      obtain ⟨c, value⟩ := Value.bound_of_resolve v h x mem
      cases found : bindings.lookup x with
      | none => simp only [found] at value; cases value
      | some c => exact List.mem_map.mpr ⟨(x, c), mem_of_lookup found, rfl⟩
    exact ⟨bound, Except.ok.inj (h.symm.trans (resolved bound))⟩
  · rintro ⟨bound, rfl⟩
    exact resolved bound

/-! ## The last argument of a name -/

/-- The argument of a name; of several the last. -/
def lastNamed? (arguments : List Argument) (name : String) : Option Argument :=
  arguments.reverse.find? (·.name = name)

theorem lookup_suppliedArguments (arguments : List Argument) (name : String) :
    (suppliedArguments arguments).lookup name = lastNamed? arguments name := by
  induction arguments using List.reverseRecOn with
  | nil => rfl
  | append_singleton before a ih =>
    have last : suppliedArguments (before ++ [a]) =
        OrderedMap.insert (suppliedArguments before) a.name a := by
      rw [suppliedArguments, List.map_append]
      exact OrderedMap.ofEntries_concat _ _
    rw [lastNamed?] at ih ⊢
    rw [last, List.reverse_append, List.reverse_singleton, List.singleton_append, List.find?_cons]
    by_cases same : a.name = name
    · subst same
      rw [OrderedMap.lookup_insert_self]
      simp
    · rw [OrderedMap.lookup_insert_of_ne _ _ (Ne.symm same), ih]
      simp [same]

theorem lastNamed?_eq_none {arguments : List Argument} {name : String} :
    lastNamed? arguments name = none ↔ ∀ a ∈ arguments, a.name ≠ name := by
  simp [lastNamed?]

theorem mem_of_lastNamed? {arguments : List Argument} {name : String} {a : Argument}
    (h : lastNamed? arguments name = some a) : a ∈ arguments ∧ a.name = name :=
  ⟨List.mem_reverse.mp (List.mem_of_find?_eq_some h), by simpa using List.find?_some h⟩

/-! ## Declared arguments -/

/-- The JSON of an argument whose variables are replaced. -/
def given (bindings : Variables) (a : Argument) : Json :=
  Const.toJson (a.value.substitute (valueOf bindings))

/-- What is supplied for a declared argument is accepted: its variables have values and it fits its
type, or it may be omitted. -/
def Admits (schema : Schema) (bindings : Variables) (d : ArgumentDefinition) : Option Argument → Prop
  | some a => (∀ x ∈ a.value.used, x ∈ bindings.map Prod.fst) ∧
    schema.Conforms d.type (a.value.substitute (valueOf bindings))
  | none => d.type.isNonNull = true → d.default.isSome = true

/-- What is supplied for a declared argument passes the check of its type. -/
def Passes (schema : Schema) (bindings : Variables) (name : String) (d : ArgumentDefinition) :
    Option Argument → Prop
  | some a => (∀ x ∈ a.value.used, x ∈ bindings.map Prod.fst) ∧
    checkValue schema name a.position d.type (a.value.substitute (valueOf bindings)) = .ok ()
  | none => d.type.isNonNull = true → d.default.isSome = true

/-- The supplied arguments that are declared, in the order of the declarations. -/
def admitted (bindings : Variables) (definitions : OrderedMap ArgumentDefinition)
    (supplied : OrderedMap Argument) : OrderedMap Json :=
  definitions.filterMap fun entry =>
    (supplied.lookup entry.1).map fun a => (entry.1, given bindings a)

/-- The supplied arguments that are not declared. -/
def strays (definitions : OrderedMap ArgumentDefinition) (supplied : OrderedMap Argument) :
    OrderedMap Argument :=
  supplied.filter fun entry => entry.1 ∉ definitions.map Prod.fst

section

variable {schema : Schema} {bindings : Variables} {position : Position}

/-- Another argument is looked up among the rest as it is among all. -/
theorem lookup_erase_of_mem {α : Type} {rest : OrderedMap ArgumentDefinition} {name : String}
    (fresh : name ∉ rest.map Prod.fst) (supplied : OrderedMap α)
    {entry : String × ArgumentDefinition} (mem : entry ∈ rest) :
    (supplied.erase name).lookup entry.1 = supplied.lookup entry.1 :=
  OrderedMap.lookup_erase_of_ne supplied fun same => fresh (same ▸ List.mem_map_of_mem mem)

theorem admitted_erase {rest : OrderedMap ArgumentDefinition} {name : String}
    (fresh : name ∉ rest.map Prod.fst) (supplied : OrderedMap Argument) :
    admitted bindings rest (supplied.erase name) = admitted bindings rest supplied :=
  List.filterMap_congr fun _ mem => by rw [lookup_erase_of_mem fresh supplied mem]

theorem strays_cons {rest : OrderedMap ArgumentDefinition} (name : String) (d : ArgumentDefinition)
    (supplied : OrderedMap Argument) :
    strays ((name, d) :: rest) supplied = strays rest (supplied.erase name) := by
  rw [strays, strays, OrderedMap.erase, List.filter_filter]
  refine List.filter_congr fun entry _ => ?_
  by_cases same : entry.1 = name <;> simp [same]

theorem strays_of_absent {rest : OrderedMap ArgumentDefinition} {name : String}
    (d : ArgumentDefinition) {supplied : OrderedMap Argument}
    (absent : supplied.lookup name = none) :
    strays ((name, d) :: rest) supplied = strays rest supplied := by
  rw [strays_cons]
  congr 1
  refine List.filter_eq_self.mpr fun entry mem => ?_
  have other := List.lookup_eq_none_iff.mp absent entry mem
  exact decide_eq_true fun same => by simp [same] at other

/-- The declared arguments are checked one by one, each against what is supplied for it. -/
theorem checkDeclared_iff {definitions : OrderedMap ArgumentDefinition}
    {supplied left : OrderedMap Argument} {checked : OrderedMap Json}
    (distinct : (definitions.map Prod.fst).Nodup) :
    checkDeclared schema bindings position definitions supplied = .ok (checked, left) ↔
      (∀ entry ∈ definitions, Passes schema bindings entry.1 entry.2 (supplied.lookup entry.1)) ∧
        checked = admitted bindings definitions supplied ∧ left = strays definitions supplied := by
  induction definitions generalizing supplied left checked with
  | nil => simp [checkDeclared, admitted, strays, eq_comm]
  | cons entry rest ih =>
    obtain ⟨name, d⟩ := entry
    obtain ⟨fresh, distinct⟩ := List.nodup_cons.mp distinct
    rw [checkDeclared, List.forall_mem_cons]
    cases found : supplied.lookup name with
    | some a =>
      have others : (∀ entry ∈ rest, Passes schema bindings entry.1 entry.2
            ((supplied.erase name).lookup entry.1)) ↔
          ∀ entry ∈ rest, Passes schema bindings entry.1 entry.2 (supplied.lookup entry.1) :=
        forall₂_congr fun entry mem => by rw [lookup_erase_of_mem fresh supplied mem]
      have all : admitted bindings ((name, d) :: rest) supplied =
          (name, given bindings a) :: admitted bindings rest (supplied.erase name) := by
        rw [admitted_erase fresh, admitted, List.filterMap_cons, found]
        rfl
      rw [all, strays_cons, ← others]
      constructor
      · intro h
        obtain ⟨value, resolved, h⟩ := bind_ok h
        obtain ⟨_, checkedOne, h⟩ := bind_ok h
        obtain ⟨⟨checked', left'⟩, checkedRest, h⟩ := bind_ok h
        cases h
        obtain ⟨bound, rfl⟩ := resolveVariables_iff.mp resolved
        obtain ⟨pass, rfl, rfl⟩ := (ih distinct).mp checkedRest
        exact ⟨⟨⟨bound, checkedOne⟩, pass⟩, rfl, rfl⟩
      · rintro ⟨⟨⟨bound, checkedOne⟩, pass⟩, rfl, rfl⟩
        have resolved : resolveVariables bindings a.position a.value =
            .ok (a.value.substitute (valueOf bindings)) := resolveVariables_iff.mpr ⟨bound, rfl⟩
        have checkedRest := (ih distinct).mpr ⟨pass, rfl, rfl⟩
        exact (bind_of_ok resolved).trans ((bind_of_ok checkedOne).trans (bind_of_ok checkedRest))
    | none =>
      have all : admitted bindings ((name, d) :: rest) supplied = admitted bindings rest supplied := by
        rw [admitted, List.filterMap_cons, found]
        rfl
      rw [all, strays_of_absent d found]
      simp only
      by_cases missing : (d.type.isNonNull && d.default.isNone) = true
      · rw [if_pos missing]
        refine iff_of_false (fun h => by cases h) fun h => ?_
        rw [Bool.and_eq_true, Option.isNone_iff_eq_none] at missing
        have := h.1.1 missing.1
        rw [missing.2] at this
        cases this
      · rw [if_neg missing, ih distinct]
        have optional : Passes schema bindings name d none := by
          intro nonNull
          by_contra none
          exact missing (by simp [nonNull, Option.not_isSome_iff_eq_none.mp none])
        simp [optional]

/-- The arguments of a field are accepted if each declared one passes its check, and there are no
others. -/
theorem checkArguments_passes_iff {head : FieldHead} {definitions : OrderedMap ArgumentDefinition}
    {args : OrderedMap Json} (distinct : (definitions.map Prod.fst).Nodup) :
    checkArguments schema bindings head definitions = .ok args ↔
      (∀ entry ∈ definitions,
        Passes schema bindings entry.1 entry.2 (lastNamed? head.arguments entry.1)) ∧
      (∀ a ∈ head.arguments, a.name ∈ definitions.map Prod.fst) ∧
      args = admitted bindings definitions (suppliedArguments head.arguments) := by
  have passes : (∀ entry ∈ definitions, Passes schema bindings entry.1 entry.2
        ((suppliedArguments head.arguments).lookup entry.1)) ↔
      ∀ entry ∈ definitions,
        Passes schema bindings entry.1 entry.2 (lastNamed? head.arguments entry.1) :=
    forall₂_congr fun entry _ => by rw [lookup_suppliedArguments]
  have declared : (strays definitions (suppliedArguments head.arguments)).isEmpty = true ↔
      ∀ a ∈ head.arguments, a.name ∈ definitions.map Prod.fst := by
    rw [List.isEmpty_iff, strays, List.filter_eq_nil_iff]
    constructor
    · intro none a mem
      cases last : lastNamed? head.arguments a.name with
      | none => exact absurd rfl (lastNamed?_eq_none.mp last a mem)
      | some b =>
        have entered := mem_of_lookup ((lookup_suppliedArguments head.arguments a.name).trans last)
        simpa using none _ entered
    · intro all entry mem
      obtain ⟨a, supplied, rfl⟩ := List.mem_map.mp (OrderedMap.mem_of_mem_ofEntries mem)
      simpa using all a supplied
  rw [← passes, ← declared]
  constructor
  · intro h
    obtain ⟨⟨checked, left⟩, all, h⟩ := bind_ok h
    obtain ⟨pass, rfl, rfl⟩ := (checkDeclared_iff distinct).mp all
    simp only at h
    split at h
    · next none =>
      cases h
      exact ⟨pass, none, rfl⟩
    · cases h
  · rintro ⟨pass, none, rfl⟩
    refine (bind_of_ok ((checkDeclared_iff distinct).mpr ⟨pass, rfl, rfl⟩)).trans ?_
    simp only
    rw [if_pos none]
    rfl

/-- Where the types are built by the constructors, what passes is what is admitted. -/
theorem checkArguments_iff {head : FieldHead} {definitions : OrderedMap ArgumentDefinition}
    {args : OrderedMap Json} (distinct : (definitions.map Prod.fst).Nodup)
    (built : ∀ entry ∈ definitions, entry.2.type.Built) :
    checkArguments schema bindings head definitions = .ok args ↔
      (∀ entry ∈ definitions,
        Admits schema bindings entry.2 (lastNamed? head.arguments entry.1)) ∧
      (∀ a ∈ head.arguments, a.name ∈ definitions.map Prod.fst) ∧
      args = admitted bindings definitions (suppliedArguments head.arguments) := by
  rw [checkArguments_passes_iff distinct]
  refine and_congr_left fun _ => forall₂_congr fun entry mem => ?_
  cases lastNamed? head.arguments entry.1 with
  | none => exact Iff.rfl
  | some a => exact and_congr_right fun _ => checkValue_iff (built entry mem) _

end

/-! ## Declared variables -/

/-- The variables that have values are those that the operation declares. -/
theorem mem_variableValues {supplied : OrderedMap Json} {definitions : List VariableDefinition}
    {bindings : Variables} (bound : variableValues supplied definitions = .ok bindings)
    {name : String} : name ∈ bindings.map Prod.fst ↔ ∃ v ∈ definitions, v.name = name := by
  obtain ⟨entries, mapped, eq⟩ := bind_ok bound
  cases eq
  rw [OrderedMap.mem_keys_ofEntries]
  have names : entries.map Prod.fst = definitions.map VariableDefinition.name := by
    clear bound
    induction definitions generalizing entries with
    | nil => cases mapped; rfl
    | cons v rest ih =>
      rw [List.mapM_cons] at mapped
      obtain ⟨entry, first, mapped⟩ := bind_ok mapped
      obtain ⟨others, rest, mapped⟩ := bind_ok mapped
      obtain ⟨c, -, first⟩ := bind_ok first
      cases mapped
      cases first
      rw [List.map_cons, List.map_cons, ih others rest]
  rw [names, List.mem_map]

/-! ## What is accepted, and what is received -/

/-- The supplied arguments, of each name the last, fit the declared ones of a field. -/
structure ArgumentsFit (schema : Schema) (declared : List VariableDefinition) (bindings : Variables)
    (definitions : OrderedMap ArgumentDefinition) (arguments : List Argument) : Prop where
  /-- Every supplied name is declared by the field. -/
  names : ∀ a ∈ arguments, a.name ∈ definitions.map Prod.fst
  /-- Every variable in a supplied value is declared by the operation. -/
  bound : ∀ name a, lastNamed? arguments name = some a →
    ∀ x ∈ a.value.used, ∃ v ∈ declared, v.name = x
  /-- Every supplied value is one of the declared type once its variables are replaced. -/
  conforms : ∀ name d, (name, d) ∈ definitions → ∀ a, lastNamed? arguments name = some a →
    schema.Conforms d.type (a.value.substitute (valueOf bindings))
  /-- An argument that must not be null is only omitted if it has a default. -/
  required : ∀ name d, (name, d) ∈ definitions → lastNamed? arguments name = none →
    d.type.isNonNull = true → d.default.isSome = true

/-- What a resolver is given for the supplied arguments. -/
structure Received (bindings : Variables) (definitions : OrderedMap ArgumentDefinition)
    (arguments : List Argument) (received : OrderedMap Json) : Prop where
  once : (received.map Prod.fst).Nodup
  names : ∀ entry ∈ received, entry.1 ∈ definitions.map Prod.fst
  /-- A supplied argument has its value, null included, and not the default. -/
  supplied : ∀ name a, lastNamed? arguments name = some a →
    received.lookup name = some (given bindings a)
  /-- An omitted one has its default, or is absent if it has none. -/
  omitted : ∀ name d, (name, d) ∈ definitions → lastNamed? arguments name = none →
    received.lookup name = d.default

section

variable {schema : Schema} {bindings : Variables} {head : FieldHead}
  {definitions : OrderedMap ArgumentDefinition}

theorem argumentsFit_iff {declared : List VariableDefinition}
    (bound : ∀ x, x ∈ bindings.map Prod.fst ↔ ∃ v ∈ declared, v.name = x) :
    ArgumentsFit schema declared bindings definitions head.arguments ↔
      (∀ entry ∈ definitions,
        Admits schema bindings entry.2 (lastNamed? head.arguments entry.1)) ∧
      ∀ a ∈ head.arguments, a.name ∈ definitions.map Prod.fst := by
  constructor
  · intro fit
    refine ⟨fun ⟨name, d⟩ mem => ?_, fit.names⟩
    simp only
    cases last : lastNamed? head.arguments name with
    | none => exact fit.required name d mem last
    | some a =>
      exact ⟨fun x used => (bound x).mpr (fit.bound name a last x used), fit.conforms name d mem a last⟩
  · rintro ⟨admits, names⟩
    have admitsOf : ∀ name d, (name, d) ∈ definitions → ∀ a, lastNamed? head.arguments name = some a →
        Admits schema bindings d (some a) := fun name d mem a last => last ▸ admits (name, d) mem
    constructor
    case names => exact names
    case bound =>
      intro name a last x used
      obtain ⟨supplied, rfl⟩ := mem_of_lastNamed? last
      obtain ⟨⟨name, d⟩, mem, same⟩ := List.mem_map.mp (names a supplied)
      cases same
      exact (bound x).mp ((admitsOf a.name d mem a last).1 x used)
    case conforms => exact fun name d mem a last => (admitsOf name d mem a last).2
    case required =>
      intro name d mem last
      have admitted := admits (name, d) mem
      rw [last] at admitted
      exact admitted

/-! ### What was checked, and what stands in -/

theorem keys_admitted (supplied : OrderedMap Argument) :
    ((admitted bindings definitions supplied).map Prod.fst).Sublist (definitions.map Prod.fst) := by
  refine OrderedMap.sublist_keys_filterMap (fun entry out kept => ?_) definitions
  obtain ⟨a, -, rfl⟩ := Option.map_eq_some_iff.mp kept
  rfl

theorem mem_admitted {name : String} {v : Json} :
    (name, v) ∈ admitted bindings definitions (suppliedArguments head.arguments) ↔
      name ∈ definitions.map Prod.fst ∧ ∃ a, lastNamed? head.arguments name = some a ∧
        given bindings a = v := by
  rw [admitted, List.mem_filterMap]
  simp only [lookup_suppliedArguments, Option.map_eq_some_iff, Prod.mk.injEq]
  constructor
  · rintro ⟨entry, mem, a, last, rfl, rfl⟩
    exact ⟨List.mem_map_of_mem mem, a, last, rfl⟩
  · rintro ⟨declared, a, last, rfl⟩
    obtain ⟨entry, mem, rfl⟩ := List.mem_map.mp declared
    exact ⟨entry, mem, a, last, rfl, rfl⟩

theorem keys_standIns (checked : OrderedMap Json) :
    ((definitions.filterMap (ArgumentDefinition.standIn? checked)).map Prod.fst).Sublist
      (definitions.map Prod.fst) := by
  refine OrderedMap.sublist_keys_filterMap (fun entry out kept => ?_) definitions
  unfold ArgumentDefinition.standIn? at kept
  split at kept
  · cases kept
  · obtain ⟨v, -, rfl⟩ := Option.map_eq_some_iff.mp kept
    rfl

theorem mem_standIns {checked : OrderedMap Json} {name : String} {v : Json} :
    (name, v) ∈ definitions.filterMap (ArgumentDefinition.standIn? checked) ↔
      checked.lookup name = none ∧ ∃ d, (name, d) ∈ definitions ∧ d.default = some v := by
  rw [List.mem_filterMap]
  unfold ArgumentDefinition.standIn? OrderedMap.has
  constructor
  · rintro ⟨⟨name', d⟩, mem, kept⟩
    split at kept
    · cases kept
    · next absent =>
      obtain ⟨w, default, eq⟩ := Option.map_eq_some_iff.mp kept
      cases eq
      exact ⟨Option.not_isSome_iff_eq_none.mp absent, d, mem, default⟩
  · rintro ⟨absent, d, mem, default⟩
    exact ⟨(name, d), mem, by simp [absent, default]⟩

/-- The arguments that were checked, with the defaults of the others, are what is received. -/
theorem received_admitted (distinct : (definitions.map Prod.fst).Nodup)
    (names : ∀ a ∈ head.arguments, a.name ∈ definitions.map Prod.fst) {checked : OrderedMap Json}
    (eq : checked = admitted bindings definitions (suppliedArguments head.arguments)) :
    Received bindings definitions head.arguments
      (checked ++ definitions.filterMap (ArgumentDefinition.standIn? checked)) := by
  have keys : (checked.map Prod.fst).Sublist (definitions.map Prod.fst) := eq ▸ keys_admitted _
  have keys' : ((definitions.filterMap (ArgumentDefinition.standIn? checked)).map Prod.fst).Sublist
      (definitions.map Prod.fst) := keys_standIns checked
  have found : ∀ name a, lastNamed? head.arguments name = some a →
      checked.lookup name = some (given bindings a) := by
    intro name a last
    obtain ⟨supplied, rfl⟩ := mem_of_lastNamed? last
    refine lookup_of_mem (keys.nodup distinct) ?_
    rw [eq]
    exact mem_admitted.mpr ⟨names a supplied, a, last, rfl⟩
  have absent : ∀ name, lastNamed? head.arguments name = none → checked.lookup name = none := by
    intro name last
    cases there : checked.lookup name with
    | none => rfl
    | some v =>
      have mem := mem_of_lookup there
      rw [eq] at mem
      obtain ⟨-, a, last', -⟩ := mem_admitted.mp mem
      cases last.symm.trans last'
  constructor
  case once =>
    rw [List.map_append, List.nodup_append]
    refine ⟨keys.nodup distinct, keys'.nodup distinct, ?_⟩
    rintro name mem _ mem' rfl
    obtain ⟨⟨name, v⟩, standIn, rfl⟩ := List.mem_map.mp mem'
    obtain ⟨entry, entered, same⟩ := List.mem_map.mp mem
    have other := List.lookup_eq_none_iff.mp (mem_standIns.mp standIn).1 entry entered
    simp [same] at other
  case names =>
    intro entry mem
    rcases List.mem_append.mp mem with mem | mem
    · exact keys.subset (List.mem_map_of_mem mem)
    · exact keys'.subset (List.mem_map_of_mem mem)
  case supplied =>
    intro name a last
    rw [List.lookup_append, found name a last]
    rfl
  case omitted =>
    intro name d mem last
    have none := absent name last
    rw [List.lookup_append, none, Option.none_or]
    cases default : d.default with
    | some v => exact lookup_of_mem (keys'.nodup distinct) (mem_standIns.mpr ⟨none, d, mem, default⟩)
    | none =>
      cases there : (definitions.filterMap (ArgumentDefinition.standIn? checked)).lookup name with
      | none => rfl
      | some v =>
        obtain ⟨-, d', mem', default'⟩ := mem_standIns.mp (mem_of_lookup there)
        cases (lookup_of_mem distinct mem).symm.trans (lookup_of_mem distinct mem')
        cases default.symm.trans default'

end

/-- Arguments are accepted exactly if they fit, and resolvers are given them as declared. -/
theorem arguments_exact {schema : Schema} (once : schema.NamesArgumentsOnce)
    {values : OrderedMap Json} {declared : List VariableDefinition} {bindings : Variables}
    (bound : variableValues values declared = .ok bindings) {typeName : String} {head : FieldHead}
    {d : FieldDefinition} (found : schema.field? typeName head.name = some d)
    (built : ∀ entry ∈ d.arguments, entry.2.type.Built) :
    ((∃ args, checkArguments schema bindings head d.arguments = .ok args) ↔
      ArgumentsFit schema declared bindings d.arguments head.arguments) ∧
    ∀ args, checkArguments schema bindings head d.arguments = .ok args →
      (∀ (caller : Caller) (parent : Json) (field : RequestField), field.arguments = args →
        Received bindings d.arguments head.arguments
          (caller.call typeName parent field d).arguments) ∧
      ∀ {σ : Type} (e : Engine σ) (caller : Caller) (g : Graph) (t : Task) (i : Invocation σ),
        e.schema = schema → t.parentType = typeName → t.field.name = head.name →
        t.field.arguments = args → (e.prepareTask caller g t).2 = some i →
          Received bindings d.arguments head.arguments i.call.arguments := by
  have distinct := once typeName head.name d found
  have fit : ArgumentsFit schema declared bindings d.arguments head.arguments ↔
      (∀ entry ∈ d.arguments, Admits schema bindings entry.2 (lastNamed? head.arguments entry.1)) ∧
        ∀ a ∈ head.arguments, a.name ∈ d.arguments.map Prod.fst :=
    argumentsFit_iff fun _ => mem_variableValues bound
  have received : ∀ args, checkArguments schema bindings head d.arguments = .ok args →
      ∀ (caller : Caller) (parent : Json) (field : RequestField), field.arguments = args →
        Received bindings d.arguments head.arguments
          (caller.call typeName parent field d).arguments := by
    intro args checked caller parent field same
    obtain ⟨-, names, eq⟩ := (checkArguments_iff distinct built).mp checked
    rw [caller.arguments_call typeName parent field distinct, same]
    exact received_admitted distinct names eq
  refine ⟨⟨fun ⟨args, checked⟩ => ?_, fun fits => ?_⟩, fun args checked =>
    ⟨received args checked, ?_⟩⟩
  · obtain ⟨admits, names, -⟩ := (checkArguments_iff distinct built).mp checked
    exact fit.mpr ⟨admits, names⟩
  · obtain ⟨admits, names⟩ := fit.mp fits
    exact ⟨_, (checkArguments_iff distinct built).mpr ⟨admits, names, rfl⟩⟩
  · rintro σ e caller g t i rfl rfl name same prepared
    obtain ⟨-, calls⟩ := (prepareTask_cases g t).2 i prepared
    obtain ⟨d', defined, -, -, call⟩ := calls.defined
    rw [name, found] at defined
    cases defined
    rw [call]
    exact received args checked caller _ t.field same

end Request

/-! ## A search -/

namespace Search

/-- The field `search(sizes: [Int!]!, order: Order! = UP, after: ID = 0, label: Label)`. -/
def search : FieldDefinition :=
  ((((FieldDefinition.of "search" (.named "Int")).withArgument
      ⟨"sizes", (TypeRef.listOf (TypeRef.named "Int").toNonNull).toNonNull, none⟩).withArgument
    ⟨"order", (TypeRef.named "Order").toNonNull, some (.str "UP")⟩).withArgument
    ⟨"after", .named "ID", some (.int 0)⟩).withArgument ⟨"label", .named "Label", none⟩

def schema : Schema :=
  ⟨⟨[("Int", ⟨"Int", .scalar .int⟩), ("ID", ⟨"ID", .scalar .id⟩),
    ("Label", ⟨"Label", .scalar .custom⟩), ("Order", ⟨"Order", .enumeration ["UP", "DOWN"]⟩),
    ("Query", ⟨"Query", .object [("search", search)]⟩)], by decide⟩, "Query", none, none⟩

/-- The variables `$size` and `$label`, of which `label` has no value. -/
def declared : List VariableDefinition :=
  [⟨"size", .nowhere, .named "Int", none⟩, ⟨"label", .nowhere, .named "Label", none⟩]

def bindings : Variables := [("size", .number (.int 5)), ("label", .null)]

/-- The selection `search(sizes: 1, after: null, label: [$label], sizes: [3, $size])`. -/
def head : FieldHead :=
  ⟨.nowhere, none, "search",
    [⟨"sizes", .nowhere, .number (.int 1)⟩, ⟨"after", .nowhere, .null⟩,
      ⟨"label", .nowhere, .list [.variable "label"]⟩,
      ⟨"sizes", .nowhere, .list [.number (.int 3), .variable "size"]⟩], []⟩

theorem once : schema.NamesArgumentsOnce := Schema.namesArgumentsOnce (by decide)

theorem built : ∀ entry ∈ search.arguments, entry.2.type.Built := by
  have all : search.arguments.map (·.2.type) =
      [(TypeRef.listOf (TypeRef.named "Int").toNonNull).toNonNull, (TypeRef.named "Order").toNonNull,
        .named "ID", .named "Label"] := by decide
  have each : ∀ t ∈ search.arguments.map (·.2.type), t.Built := by
    rw [all]
    simp only [List.forall_mem_cons]
    exact ⟨(TypeRef.Built.named _).toNonNull.listOf.toNonNull, (TypeRef.Built.named _).toNonNull,
      .named _, .named _, fun _ mem => absurd mem List.not_mem_nil⟩
  exact fun entry mem => each _ (List.mem_map_of_mem mem)

theorem arguments_exact_search :
    Request.ArgumentsFit schema declared bindings search.arguments head.arguments ∧
      ∀ (caller : Caller) (parent : Json) (field : RequestField),
        Request.checkArguments schema bindings head search.arguments = .ok field.arguments →
        let received := (caller.call "Query" parent field search).arguments
        received.lookup "sizes" = some (.arr [.int 3, .int 5]) ∧
          received.lookup "label" = some (.arr [.null]) ∧ received.lookup "after" = some .null ∧
          received.lookup "order" = some (.str "UP") := by
  have bound : Request.variableValues [("size", .int 5)] declared = .ok bindings := by cbv
  have found : schema.field? "Query" head.name = some search := by cbv
  have exact := Request.arguments_exact once bound found built
  refine ⟨exact.1.mp ⟨_, by cbv⟩, fun caller parent field checked => ?_⟩
  have received := (exact.2 field.arguments checked).1 caller parent field rfl
  refine ⟨?_, ?_, ?_, ?_⟩
  · exact received.supplied "sizes" _ (by cbv)
  · exact received.supplied "label" _ (by cbv)
  · exact received.supplied "after" _ (by cbv)
  · exact received.omitted "order" ⟨"order", (TypeRef.named "Order").toNonNull, some (.str "UP")⟩
      (mem_of_lookup (by cbv)) (by cbv)

end Search

end GraphQLEngine
