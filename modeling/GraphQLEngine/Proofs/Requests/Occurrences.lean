import GraphQLEngine.Proofs.Requests.Values
import GraphQLEngine.Request.Selection

/-!
# The fields that a document selects

An occurrence is a field selection that no directive excludes, reached through the selections, the
inline fragments and the spreads around it.  Its response path are the output names that lead to it.

    scope.Unfolds container selections os    os are the occurrences, in the order of the document
    scope.Occurs container selections o      o is an occurrence; also where fragments spread
                                             themselves, and so no list has them all
-/

namespace GraphQLEngine

namespace Request

/-! ## Occurrences -/

structure Occurrence where
  /-- The output names from the root to the field. -/
  path : List String
  /-- The type that the field is selected on, if there is one. -/
  container : Option SchemaType
  head : FieldHead

/-- The occurrence as seen from outside of a field with this output name. -/
def Occurrence.into (name : String) (o : Occurrence) : Occurrence :=
  { o with path := name :: o.path }

/-- The output name of an occurrence that stands directly beneath the path. -/
def Occurrence.child? (p : List String) (o : Occurrence) : Option String :=
  if o.path.dropLast = p then o.path.getLast? else none

/-- The output names that occur directly beneath the path, in the order of the document. -/
def children (p : List String) (os : List Occurrence) : List String :=
  os.filterMap (Occurrence.child? p)

variable {o : Occurrence} {os os' : List Occurrence} {n m : String} {p : List String}

theorem mem_children : n ∈ children p os ↔ ∃ o ∈ os, o.path = p ++ [n] := by
  unfold children Occurrence.child?
  constructor
  · intro mem
    obtain ⟨o, mem, child⟩ := List.mem_filterMap.mp mem
    split at child
    · next beneath =>
      exact ⟨o, mem, by rw [← beneath, List.dropLast_append_getLast? n child]⟩
    · cases child
  · rintro ⟨o, mem, path⟩
    exact List.mem_filterMap.mpr ⟨o, mem, by simp [path]⟩

theorem children_append : children p (os ++ os') = children p os ++ children p os' :=
  List.filterMap_append

/-- A field does not stand beneath itself. -/
theorem children_own {container : Option SchemaType} {head : FieldHead} :
    children p (⟨[], container, head⟩ :: os) = children p os := by
  unfold children
  rw [List.filterMap_cons_none]
  simp [Occurrence.child?]

theorem Occurrence.child?_into_cons :
    (o.into n).child? (m :: p) = if n = m then o.child? p else none := by
  obtain ⟨path, container, head⟩ := o
  cases path with
  | nil => simp [Occurrence.into, Occurrence.child?]
  | cons x path =>
    by_cases same : n = m
    · simp [Occurrence.into, Occurrence.child?, same]
    · simp [Occurrence.into, Occurrence.child?, same]

theorem children_into_self : children (n :: p) (os.map (Occurrence.into n)) = children p os := by
  unfold children
  rw [List.filterMap_map]
  exact List.filterMap_congr fun o _ => by simp [Occurrence.child?_into_cons]

theorem children_into_of_ne (ne : n ≠ m) : children (m :: p) (os.map (Occurrence.into n)) = [] := by
  unfold children
  rw [List.filterMap_map]
  exact List.filterMap_eq_nil_iff.mpr fun o _ => by simp [Occurrence.child?_into_cons, ne]

theorem children_nil_into (deeper : ∀ o ∈ os, o.path ≠ []) :
    children [] (os.map (Occurrence.into n)) = [] := by
  unfold children
  rw [List.filterMap_map]
  refine List.filterMap_eq_nil_iff.mpr fun o mem => ?_
  obtain ⟨x, path, eq⟩ := List.exists_cons_of_ne_nil (deeper o mem)
  simp [Occurrence.into, Occurrence.child?, eq]

/-! ## Included selections -/

end Request

def Selection.directives : Selection → List Directive
  | .field head _ => head.directives
  | .spread _ _ directives => directives
  | .inlineFragment _ _ directives _ => directives

namespace Request

/-- Every `@skip` has a false condition, and every `@include` a true one. -/
def Scope.Includes (scope : Scope) (directives : List Directive) : Prop :=
  ∀ d ∈ directives, (d.name = "skip" → scope.condition d = .ok false) ∧
    (d.name = "include" → scope.condition d = .ok true)

theorem Scope.includes_iff {scope : Scope} {directives : List Directive} {included : Bool}
    (h : scope.isIncluded directives = .ok included) :
    included = true ↔ scope.Includes directives := by
  induction directives with
  | nil =>
    cases h
    exact ⟨fun _ _ mem => (nomatch mem), fun _ => rfl⟩
  | cons d ds ih =>
    rw [Scope.isIncluded] at h
    have others : ∀ first : (d.name = "skip" → scope.condition d = .ok false) ∧
        (d.name = "include" → scope.condition d = .ok true),
        scope.isIncluded ds = .ok included → (included = true ↔ scope.Includes (d :: ds)) :=
      fun first rest => (ih rest).trans
        ⟨fun all => List.forall_mem_cons.mpr ⟨first, all⟩, fun all => (List.forall_mem_cons.mp all).2⟩
    cases excludes : excludesWhen d with
    | none =>
      rw [excludes] at h
      refine others ⟨fun skip => ?_, fun keep => ?_⟩ h
      · simp [excludesWhen, skip] at excludes
      · simp [excludesWhen, keep] at excludes
    | some excluded =>
      rw [excludes] at h
      obtain ⟨value, condition, h⟩ := bind_ok h
      have named : d.name = (if excluded then "skip" else "include") := by
        unfold excludesWhen at excludes
        split at excludes
        · next skip => cases excludes; exact skip
        · split at excludes
          · next keep => cases excludes; exact keep
          · cases excludes
      split at h
      · next same =>
        cases h
        refine ⟨fun h => (nomatch h), fun all => ?_⟩
        have first := all d List.mem_cons_self
        cases excluded with
        | false => cases (first.2 named).symm.trans condition; cases same
        | true => cases (first.1 named).symm.trans condition; cases same
      · next other =>
        have value_eq : value = !excluded := by cases value <;> cases excluded <;> simp_all
        subst value_eq
        refine others ⟨fun skip => ?_, fun keep => ?_⟩ h
        · cases excluded with
          | false => exact absurd (skip.symm.trans named) (by decide)
          | true => exact condition
        · cases excluded with
          | false => exact condition
          | true => exact absurd (keep.symm.trans named) (by decide)

/-! ## Definitions and arguments -/

/-- The definition of a field that is selected on a type. -/
def definition? (container : Option SchemaType) (head : FieldHead) : Option FieldDefinition :=
  container.bind fun t => t.fields?.bind (·.lookup head.name)

/-- The type that the selections of a field are made on. -/
def Scope.typeOf (scope : Scope) (container : Option SchemaType) (head : FieldHead) :
    Option SchemaType :=
  (definition? container head).bind fun d => scope.schema.type? d.type.innermost

/-- The validated arguments of an occurrence, if they are valid. -/
def Scope.arguments? (scope : Scope) (o : Occurrence) : Option (OrderedMap Json) :=
  if o.head.name = typenameField then
    (typenameSelection o.head []).toOption.map RequestField.arguments
  else
    (definition? o.container o.head).bind fun d =>
      (checkArguments scope.schema scope.bindings o.head d.arguments).toOption

theorem Scope.arguments?_proper {scope : Scope} {args : OrderedMap Json}
    (h : scope.arguments? o = some args) (bound : ProperVariables scope.bindings)
    (values : ProperHead o.head) : Json.ProperMap args := by
  unfold Scope.arguments? at h
  split at h
  · obtain ⟨f, ok, rfl⟩ := Option.map_eq_some_iff.mp h
    unfold typenameSelection at ok
    split at ok
    · cases ok
    · cases ok
      exact ⟨List.nodup_nil, fun _ mem => nomatch mem⟩
  · obtain ⟨d, -, ok⟩ := Option.bind_eq_some_iff.mp h
    cases checked : checkArguments scope.schema scope.bindings o.head d.arguments with
    | error fault => rw [checked] at ok; cases ok
    | ok args' =>
      rw [checked] at ok
      cases ok
      exact checkArguments_proper checked bound values

/-! ## Selections in place of fragments -/

/-- The list has the occurrences of the selections, in their order, with every included fragment
replaced by its contents. -/
inductive Scope.Unfolds (scope : Scope) :
    Option SchemaType → List Selection → List Occurrence → Prop
  | nil {container : Option SchemaType} : Unfolds scope container [] []
  | excluded {container : Option SchemaType} {s : Selection} {rest : List Selection}
      {after : List Occurrence} :
    ¬ scope.Includes s.directives → Unfolds scope container rest after →
      Unfolds scope container (s :: rest) after
  | field {container : Option SchemaType} {head : FieldHead} {selections rest : List Selection}
      {beneath after : List Occurrence} :
    scope.Includes head.directives →
      Unfolds scope (scope.typeOf container head) selections beneath →
      Unfolds scope container rest after →
      Unfolds scope container (.field head selections :: rest)
        ((⟨[], container, head⟩ :: beneath).map (Occurrence.into head.outputName) ++ after)
  | spread {container : Option SchemaType} {position : Position} {name : String}
      {directives : List Directive} {fragment : Fragment} {rest : List Selection}
      {inside after : List Occurrence} :
    scope.Includes directives → Document.fragment? scope.fragments name = some fragment →
      Unfolds scope container fragment.selections inside → Unfolds scope container rest after →
      Unfolds scope container (.spread position name directives :: rest) (inside ++ after)
  | inlineFragment {container : Option SchemaType} {position : Position}
      {condition : Option String} {directives : List Directive}
      {selections rest : List Selection} {inside after : List Occurrence} :
    scope.Includes directives → Unfolds scope container selections inside →
      Unfolds scope container rest after →
      Unfolds scope container (.inlineFragment position condition directives selections :: rest)
        (inside ++ after)

/-- The occurrence is one of the selections, or inside of one that is included. -/
inductive Scope.Occurs (scope : Scope) :
    Option SchemaType → List Selection → Occurrence → Prop
  | field {container : Option SchemaType} {head : FieldHead}
      {selections among : List Selection} :
    .field head selections ∈ among → scope.Includes head.directives →
      Occurs scope container among ⟨[head.outputName], container, head⟩
  | beneath {container : Option SchemaType} {head : FieldHead}
      {selections among : List Selection} {o : Occurrence} :
    .field head selections ∈ among → scope.Includes head.directives →
      Occurs scope (scope.typeOf container head) selections o →
      Occurs scope container among (o.into head.outputName)
  | spread {container : Option SchemaType} {position : Position} {name : String}
      {directives : List Directive} {fragment : Fragment} {among : List Selection}
      {o : Occurrence} :
    .spread position name directives ∈ among → scope.Includes directives →
      Document.fragment? scope.fragments name = some fragment →
      Occurs scope container fragment.selections o → Occurs scope container among o
  | inlineFragment {container : Option SchemaType} {position : Position}
      {condition : Option String} {directives : List Directive}
      {selections among : List Selection} {o : Occurrence} :
    .inlineFragment position condition directives selections ∈ among →
      scope.Includes directives → Occurs scope container selections o →
      Occurs scope container among o

namespace Scope

variable {scope : Scope} {container : Option SchemaType} {s : Selection}
  {selections rest : List Selection}

theorem Occurs.mono {more : List Selection} (h : scope.Occurs container selections o)
    (sub : ∀ s ∈ selections, s ∈ more) : scope.Occurs container more o := by
  cases h with
  | field mem included => exact .field (sub _ mem) included
  | beneath mem included inner => exact .beneath (sub _ mem) included inner
  | spread mem included found inner => exact .spread (sub _ mem) included found inner
  | inlineFragment mem included inner => exact .inlineFragment (sub _ mem) included inner

theorem Unfolds.path_ne_nil (h : scope.Unfolds container selections os) :
    ∀ o ∈ os, o.path ≠ [] := by
  induction h with
  | nil => exact fun _ mem => nomatch mem
  | excluded _ _ ih => exact ih
  | field _ _ _ _ ih =>
    intro o mem
    rcases List.mem_append.mp mem with mem | mem
    · obtain ⟨o', -, rfl⟩ := List.mem_map.mp mem
      exact List.cons_ne_nil _ _
    · exact ih o mem
  | spread _ _ _ _ ih ih' | inlineFragment _ _ _ ih ih' =>
    exact fun o mem => (List.mem_append.mp mem).elim (ih o) (ih' o)

/-- Selections unfold in one way only. -/
theorem Unfolds.unique (h : scope.Unfolds container selections os)
    (h' : scope.Unfolds container selections os') : os = os' := by
  induction h generalizing os' with
  | nil => cases h'; rfl
  | excluded out _ ih =>
    cases h' with
    | excluded _ rest => exact ih rest
    | field included | spread included | inlineFragment included => exact absurd included out
  | field included _ _ ih ih' =>
    cases h' with
    | excluded out => exact absurd included out
    | field _ beneath rest => rw [ih beneath, ih' rest]
  | spread included found _ _ ih ih' =>
    cases h' with
    | excluded out => exact absurd included out
    | spread _ found' inside rest =>
      cases found.symm.trans found'
      rw [ih inside, ih' rest]
  | inlineFragment included _ _ ih ih' =>
    cases h' with
    | excluded out => exact absurd included out
    | inlineFragment _ inside rest => rw [ih inside, ih' rest]

theorem Occurs.cons (h : scope.Occurs container (s :: rest) o) :
    scope.Occurs container [s] o ∨ scope.Occurs container rest o := by
  cases h with
  | field mem included =>
    rcases List.mem_cons.mp mem with rfl | mem
    · exact .inl (.field List.mem_cons_self included)
    · exact .inr (.field mem included)
  | beneath mem included inner =>
    rcases List.mem_cons.mp mem with rfl | mem
    · exact .inl (.beneath List.mem_cons_self included inner)
    · exact .inr (.beneath mem included inner)
  | spread mem included found inner =>
    rcases List.mem_cons.mp mem with rfl | mem
    · exact .inl (.spread List.mem_cons_self included found inner)
    · exact .inr (.spread mem included found inner)
  | inlineFragment mem included inner =>
    rcases List.mem_cons.mp mem with rfl | mem
    · exact .inl (.inlineFragment List.mem_cons_self included inner)
    · exact .inr (.inlineFragment mem included inner)

theorem Occurs.included (h : scope.Occurs container [s] o) : scope.Includes s.directives := by
  cases h with
  | field mem included | beneath mem included | spread mem included
  | inlineFragment mem included =>
    cases List.mem_singleton.mp mem
    exact included

/-- The list of the occurrences has all of them, and no others. -/
theorem Unfolds.mem_iff (h : scope.Unfolds container selections os) :
    o ∈ os ↔ scope.Occurs container selections o := by
  induction h generalizing o with
  | nil =>
    refine ⟨fun mem => (nomatch mem), fun occurs => ?_⟩
    cases occurs with
    | field mem | beneath mem | spread mem | inlineFragment mem => cases mem
  | excluded out _ ih =>
    rw [ih]
    refine ⟨fun occurs => occurs.mono fun _ => List.mem_cons_of_mem _, fun occurs => ?_⟩
    exact occurs.cons.resolve_left fun first => out first.included
  | field included _ _ ih ih' =>
    rw [List.mem_append, ih', List.map_cons, List.mem_cons, List.mem_map]
    constructor
    · rintro ((rfl | ⟨o, mem, rfl⟩) | occurs)
      · exact .field List.mem_cons_self included
      · exact .beneath List.mem_cons_self included (ih.mp mem)
      · exact occurs.mono fun _ => List.mem_cons_of_mem _
    · refine fun occurs => occurs.cons.imp_left fun first => ?_
      cases first with
      | field mem =>
        cases List.mem_singleton.mp mem
        exact .inl rfl
      | beneath mem _ inner =>
        cases List.mem_singleton.mp mem
        exact .inr ⟨_, ih.mpr inner, rfl⟩
      | spread mem | inlineFragment mem => cases List.mem_singleton.mp mem
  | spread included found _ _ ih ih' =>
    rw [List.mem_append, ih, ih']
    constructor
    · rintro (occurs | occurs)
      · exact .spread List.mem_cons_self included found occurs
      · exact occurs.mono fun _ => List.mem_cons_of_mem _
    · refine fun occurs => occurs.cons.imp_left fun first => ?_
      cases first with
      | spread mem _ found' inner =>
        cases List.mem_singleton.mp mem
        cases found.symm.trans found'
        exact inner
      | field mem | beneath mem | inlineFragment mem => cases List.mem_singleton.mp mem
  | inlineFragment included _ _ ih ih' =>
    rw [List.mem_append, ih, ih']
    constructor
    · rintro (occurs | occurs)
      · exact .inlineFragment List.mem_cons_self included occurs
      · exact occurs.mono fun _ => List.mem_cons_of_mem _
    · refine fun occurs => occurs.cons.imp_left fun first => ?_
      cases first with
      | inlineFragment mem _ inner =>
        cases List.mem_singleton.mp mem
        exact inner
      | field mem | beneath mem | spread mem => cases List.mem_singleton.mp mem

end Scope

end Request

end GraphQLEngine
