import GraphQLEngine.Proofs.Requests.Occurrences

/-!
# The rules of collection

What is collected follows from rules in which the fragments that are being spread have no part: a
spread just stands for the contents of its fragment, as an inline fragment does.

    scope.collect container depth path fields selections = .ok out  →
      scope.Expands container depth fields selections out

So what the rules keep holds of everything that is collected.  Two collections are compared call by
call instead, since a comparison also tells of what is refused.

    scope.Compares R C scope' → C c c' → R (scope.collect c …) (scope'.collect c' …)
-/

namespace GraphQLEngine

namespace Request

/-! ## Rules -/

/-- The type that a spread or an inline fragment names, if it names one, and what it contains. -/
def Scope.contents? (scope : Scope) : Selection → Option (Option String × List Selection)
  | .field .. => none
  | .spread _ name _ =>
    (Document.fragment? scope.fragments name).map fun f => (some f.condition, f.selections)
  | .inlineFragment _ condition _ selections => some (condition, selections)

/-- Collecting the selections at a depth into `fields` makes `out` of them. -/
inductive Scope.Expands (scope : Scope) :
    SchemaType → Nat → List RequestField → List Selection → List RequestField → Prop
  | nil {container : SchemaType} {depth : Nat} {fields : List RequestField} :
    Expands scope container depth fields [] fields
  | excluded {container : SchemaType} {depth : Nat} {fields out : List RequestField} {s : Selection}
    {rest : List Selection} :
    scope.isIncluded s.directives = .ok false → Expands scope container depth fields rest out →
    Expands scope container depth fields (s :: rest) out
  | typename {container : SchemaType} {depth : Nat} {fields mid out : List RequestField}
    {head : FieldHead} {rest : List Selection} :
    scope.isIncluded head.directives = .ok true → scope.allowsDepth depth = true →
    head.name = typenameField → head.arguments = [] →
    mergeField head.position fields ⟨head.alias?, head.name, [], []⟩ = .ok mid →
    Expands scope container depth mid rest out →
    Expands scope container depth fields (.field head [] :: rest) out
  | field {container type : SchemaType} {depth : Nat} {fields mid out subfields : List RequestField}
    {head : FieldHead} {selections rest : List Selection} {d : FieldDefinition}
    {arguments : OrderedMap Json} :
    scope.isIncluded head.directives = .ok true → scope.allowsDepth depth = true →
    head.name ≠ typenameField → scope.resolveField container head selections = .ok (d, type) →
    Expands scope type (depth + 1) [] selections subfields →
    checkArguments scope.schema scope.bindings head d.arguments = .ok arguments →
    mergeField head.position fields ⟨head.alias?, head.name, arguments, subfields⟩ = .ok mid →
    Expands scope container depth mid rest out →
    Expands scope container depth fields (.field head selections :: rest) out
  | contents {container : SchemaType} {depth : Nat} {fields mid out : List RequestField}
    {s : Selection} {condition : Option String} {inside rest : List Selection} :
    scope.isIncluded s.directives = .ok true → scope.contents? s = some (condition, inside) →
    (∀ c, condition = some c → c = container.name) →
    Expands scope container depth fields inside mid → Expands scope container depth mid rest out →
    Expands scope container depth fields (s :: rest) out

theorem checkCondition_iff {container : SchemaType} {condition : String} {position : Position} :
    checkCondition container condition position = .ok () ↔ condition = container.name := by
  unfold checkCondition
  split <;> simp [*]

namespace Scope

/-! ## From the collection to the rules -/

mutual

theorem expands_of_collect (scope : Scope) (container : SchemaType) (depth : Nat)
    (path : List String) (fields : List RequestField) (selections : List Selection)
    {out : List RequestField}
    (h : scope.collect container depth path fields selections = .ok out) :
    scope.Expands container depth fields selections out := by
  match selections with
  | [] =>
    rw [collect] at h
    cases h
    exact .nil
  | s :: rest =>
    rw [collect] at h
    obtain ⟨mid, one, others⟩ := bind_ok h
    exact expands_of_collectOne scope container depth path fields s one
      (expands_of_collect scope container depth path mid rest others)
termination_by ((scope.unused path).length, sizeOf selections)
decreasing_by all_goals (apply Prod.Lex.right; rw [List.cons.sizeOf_spec]; omega)

theorem expands_of_collectOne (scope : Scope) (container : SchemaType) (depth : Nat)
    (path : List String) (fields : List RequestField) (selection : Selection)
    {mid out : List RequestField} {rest : List Selection}
    (h : scope.collectOne container depth path fields selection = .ok mid)
    (others : scope.Expands container depth mid rest out) :
    scope.Expands container depth fields (selection :: rest) out := by
  match selection with
  | .field head selections =>
    rw [collectOne] at h
    obtain ⟨included, decided, h⟩ := bind_ok h
    cases included with
    | false =>
      cases h
      exact .excluded decided others
    | true =>
      obtain ⟨f, validated, merged⟩ := bind_ok h
      exact expands_of_validateField scope container depth path head selections validated decided
        merged others
  | .spread position name directives =>
    rw [collectOne] at h
    obtain ⟨included, decided, h⟩ := bind_ok h
    cases included with
    | false =>
      cases h
      exact .excluded decided others
    | true =>
      simp only [if_true] at h
      split at h
      · cases h
      · next fresh =>
        split at h
        · cases h
        · next fragment defined =>
          obtain ⟨⟨⟩, applies, h⟩ := bind_ok h
          have uses_up := unused_cons_lt fresh defined
          have inside := expands_of_collect scope container depth (name :: path) fields
            fragment.selections h
          refine .contents decided (by rw [contents?, defined]; rfl) (fun c eq => ?_) inside others
          cases eq
          exact checkCondition_iff.mp applies
  | .inlineFragment position condition directives selections =>
    rw [collectOne] at h
    obtain ⟨included, decided, h⟩ := bind_ok h
    cases included with
    | false =>
      cases h
      exact .excluded decided others
    | true =>
      simp only [if_true] at h
      have split : (∀ c, condition = some c → c = container.name) ∧
          scope.collect container depth path fields selections = .ok mid := by
        split at h
        · obtain ⟨⟨⟩, applies, h⟩ := bind_ok h
          exact ⟨fun c eq => Option.some.inj eq ▸ checkCondition_iff.mp applies, h⟩
        · exact ⟨fun c eq => (nomatch eq), h⟩
      exact .contents decided rfl split.1
        (expands_of_collect scope container depth path fields selections split.2) others
termination_by ((scope.unused path).length, sizeOf selection)
decreasing_by
  · apply Prod.Lex.right; cases head
    rw [Selection.field.sizeOf_spec, FieldHead.mk.sizeOf_spec]; omega
  · exact Prod.Lex.left _ _ (by assumption)
  · apply Prod.Lex.right; rw [Selection.inlineFragment.sizeOf_spec]; omega

theorem expands_of_validateField (scope : Scope) (container : SchemaType) (depth : Nat)
    (path : List String) (head : FieldHead) (selections : List Selection) {f : RequestField}
    {fields mid out : List RequestField} {rest : List Selection}
    (h : scope.validateField container depth path head selections = .ok f)
    (included : scope.isIncluded head.directives = .ok true)
    (merged : mergeField head.position fields f = .ok mid)
    (others : scope.Expands container depth mid rest out) :
    scope.Expands container depth fields (.field head selections :: rest) out := by
  rw [validateField] at h
  split at h
  · cases h
  · next allowed =>
    have allowed : scope.allowsDepth depth = true := by simpa using allowed
    split at h
    · next typename =>
      unfold typenameSelection at h
      split at h
      · cases h
      · next plain =>
        split at h
        · cases h
        · next bare =>
          cases h
          obtain rfl : selections = [] := by simpa using bare
          exact .typename included allowed typename (by simpa using plain) merged others
    · next declared =>
      obtain ⟨⟨d, type⟩, resolved, h⟩ := bind_ok h
      obtain ⟨subfields, collected, h⟩ := bind_ok h
      obtain ⟨arguments, checked, h⟩ := bind_ok h
      cases h
      exact .field included allowed declared resolved
        (expands_of_collect scope type (depth + 1) path [] selections collected) checked merged others
termination_by ((scope.unused path).length, 1 + sizeOf selections)
decreasing_by all_goals (apply Prod.Lex.right; omega)

end

end Scope

/-! ## Two collections -/

/-- What is included depends on the variables only. -/
theorem isIncluded_of_bindings {scope scope' : Scope} {directives : List Directive}
    (same : scope'.bindings = scope.bindings) :
    scope'.isIncluded directives = scope.isIncluded directives := by
  have conditions (d : Directive) : scope'.condition d = scope.condition d := by
    unfold Scope.condition
    rw [same]
  induction directives with
  | nil => rfl
  | cons d rest ih => simp only [Scope.isIncluded, ih, conditions]

/-- A comparison of outcomes that what comes after them keeps. -/
structure Comparison (R : (α : Type) → Except ValidationError α → Except ValidationError α → Prop) :
    Prop where
  refl : ∀ {α : Type} (x : Except ValidationError α), R α x x
  bind : ∀ {α β : Type} {x y : Except ValidationError α} {f g : α → Except ValidationError β},
    R α x y → (∀ a, x = .ok a → R β (f a) (g a)) → R β (x >>= f) (y >>= g)

/-- Two scopes that say the same of a selection, but for its field: the outcomes for that compare if
those for what is selected beneath it do. -/
structure Scope.Compares (R : (α : Type) → Except ValidationError α → Except ValidationError α → Prop)
    (C : SchemaType → SchemaType → Prop) (scope scope' : Scope) : Prop where
  comparison : Comparison R
  bindings : scope'.bindings = scope.bindings
  fragments : scope'.fragments = scope.fragments
  name : ∀ {c c' : SchemaType}, C c c' → c'.name = c.name
  field : ∀ {c c' : SchemaType} (depth : Nat) (path : List String) (head : FieldHead)
    (selections : List Selection), C c c' →
    (∀ {t t' : SchemaType}, C t t' → R _ (scope.collect t (depth + 1) path [] selections)
      (scope'.collect t' (depth + 1) path [] selections)) →
    R _ (scope.validateField c depth path head selections)
      (scope'.validateField c' depth path head selections)

namespace Scope.Compares

variable {R : (α : Type) → Except ValidationError α → Except ValidationError α → Prop}
  {C : SchemaType → SchemaType → Prop} {scope scope' : Scope} {c c' : SchemaType}

theorem condition (h : Compares R C scope scope') (types : C c c') (condition : String)
    (position : Position) :
    checkCondition c' condition position = checkCondition c condition position := by
  unfold checkCondition
  rw [h.name types]

mutual

/-- What the scopes collect compares. -/
theorem collect (h : Compares R C scope scope') {c c' : SchemaType} (types : C c c') (depth : Nat)
    (path : List String) (fields : List RequestField) (selections : List Selection) :
    R _ (scope.collect c depth path fields selections)
      (scope'.collect c' depth path fields selections) := by
  match selections with
  | [] =>
    rw [Scope.collect, Scope.collect]
    exact h.comparison.refl _
  | s :: rest =>
    rw [Scope.collect, Scope.collect]
    exact h.comparison.bind (h.collectOne types depth path fields s) fun mid _ =>
      h.collect types depth path mid rest
termination_by ((scope.unused path).length, sizeOf selections)
decreasing_by all_goals (apply Prod.Lex.right; rw [List.cons.sizeOf_spec]; omega)

theorem collectOne (h : Compares R C scope scope') {c c' : SchemaType} (types : C c c') (depth : Nat)
    (path : List String) (fields : List RequestField) (selection : Selection) :
    R _ (scope.collectOne c depth path fields selection)
      (scope'.collectOne c' depth path fields selection) := by
  match selection with
  | .field head selections =>
    rw [Scope.collectOne, Scope.collectOne, isIncluded_of_bindings h.bindings]
    refine h.comparison.bind (h.comparison.refl _) fun included _ => ?_
    cases included with
    | false => exact h.comparison.refl _
    | true =>
      exact h.comparison.bind (h.field depth path head selections types fun types =>
        h.collect types (depth + 1) path [] selections) fun _ _ => h.comparison.refl _
  | .spread position name directives =>
    rw [Scope.collectOne, Scope.collectOne, isIncluded_of_bindings h.bindings]
    refine h.comparison.bind (h.comparison.refl _) fun included _ => ?_
    cases included with
    | false => exact h.comparison.refl _
    | true =>
      simp only [if_true]
      split
      · exact h.comparison.refl _
      · next fresh =>
        split
        · next missing =>
          split
          · exact h.comparison.refl _
          · next defined => cases missing.symm.trans (h.fragments ▸ defined)
        · next fragment defined =>
          split
          · next missing => cases defined.symm.trans (h.fragments ▸ missing)
          · next fragment' defined' =>
            cases defined.symm.trans (h.fragments ▸ defined')
            have uses_up := unused_cons_lt fresh defined
            rw [h.condition types]
            exact h.comparison.bind (h.comparison.refl _) fun _ _ =>
              h.collect types depth (name :: path) fields fragment.selections
  | .inlineFragment position condition directives selections =>
    rw [Scope.collectOne, Scope.collectOne, isIncluded_of_bindings h.bindings]
    refine h.comparison.bind (h.comparison.refl _) fun included _ => ?_
    cases included with
    | false => exact h.comparison.refl _
    | true =>
      have inside := h.collect types depth path fields selections
      cases condition with
      | none => exact inside
      | some condition =>
        simp only [if_true, h.condition types]
        exact h.comparison.bind (h.comparison.refl _) fun _ _ => inside
termination_by ((scope.unused path).length, sizeOf selection)
decreasing_by
  · apply Prod.Lex.right; cases head
    rw [Selection.field.sizeOf_spec, FieldHead.mk.sizeOf_spec]; omega
  · exact Prod.Lex.left _ _ (by assumption)
  · apply Prod.Lex.right; rw [Selection.inlineFragment.sizeOf_spec]; omega

end

end Scope.Compares

end Request

end GraphQLEngine
