import GraphQLEngine.Proofs.Requests.Collection

/-!
# Spreading fragments

Collecting calls itself for smaller parts of a document, or for a fragment that is not being spread
yet; so it ends for every document, with or without a limit of the depth.  A document whose included
selections lead into a fragment from inside is refused, and no other one is refused for a cycle.

    scope.Makes call call'             working out `call`, the collection makes the call `call'`
    scope.Leads start names call       the fragments `names` are entered on the way to `call`
    scope.Reenters names selections    the selections lead to a spread of one of `names`, or of a
                                       fragment that is entered on the way
-/

namespace GraphQLEngine

/-! ## Levels -/

mutual

/-- The number of levels of fields, without those of the fragments that are spread. -/
def Selection.levels : Selection → Nat
  | .field _ selections => 1 + levelsOf selections
  | .spread .. => 0
  | .inlineFragment _ _ _ selections => levelsOf selections

def Selection.levelsOf : List Selection → Nat
  | [] => 0
  | s :: rest => max (levels s) (levelsOf rest)

end

namespace Request

open Selection (levels levelsOf)

/-- The levels of the fragments that are not being spread, one beneath the other. -/
def spareOf (path : List String) : List Fragment → Nat
  | [] => 0
  | f :: rest => (if f.name ∈ path then 0 else levelsOf f.selections) + spareOf path rest

theorem spareOf_cons_le (path : List String) (name : String) (fragments : List Fragment) :
    spareOf (name :: path) fragments ≤ spareOf path fragments := by
  induction fragments with
  | nil => exact Nat.le_refl _
  | cons g rest ih =>
    rw [spareOf, spareOf]
    by_cases kept : g.name ∈ path
    · simp only [kept, List.mem_cons, or_true, if_true]
      omega
    · rw [if_neg kept]
      split <;> omega

/-- A fragment that is spread takes its levels from what is left. -/
theorem levels_add_spareOf_le {path : List String} {name : String} {f : Fragment}
    {fragments : List Fragment} (fresh : name ∉ path)
    (found : Document.fragment? fragments name = some f) :
    levelsOf f.selections + spareOf (name :: path) fragments ≤ spareOf path fragments := by
  induction fragments with
  | nil => cases found
  | cons g rest ih =>
    rw [spareOf, spareOf]
    by_cases same : g.name = name
    · have : g = f := by simpa [Document.fragment?, same] using found
      subst this
      have := spareOf_cons_le path name rest
      rw [same, if_pos List.mem_cons_self, if_neg fresh]
      omega
    · have := ih (by simpa [Document.fragment?, same] using found)
      by_cases kept : g.name ∈ path
      · rw [if_pos kept, if_pos (List.mem_cons_of_mem _ kept)]
        omega
      · rw [if_neg kept, if_neg (by simp [same, kept])]
        omega

/-! ## Refusals of cycles -/

section

variable {α β : Type} {x : Except ValidationError α}

/-- The computation does not refuse a fragment that spreads itself. -/
def Acyclic (x : Except ValidationError α) : Prop :=
  ∀ name position, x ≠ .error (.fragmentCycle name position)

theorem Acyclic.ok (a : α) : Acyclic (.ok a) := fun _ _ h => by cases h

theorem Acyclic.bind {f : α → Except ValidationError β} (first : Acyclic x)
    (rest : ∀ a, x = .ok a → Acyclic (f a)) : Acyclic (x >>= f) := by
  cases x with
  | error fault => exact fun name position h => first name position (congrArg _ (Except.error.inj h))
  | ok a => exact rest a rfl

theorem Acyclic.map {f : α → β} (h : Acyclic x) : Acyclic (x.map f) := by
  cases x with
  | error fault => exact fun name position eq => h name position (congrArg _ (Except.error.inj eq))
  | ok a => exact .ok _

theorem Acyclic.forM {f : α → Except ValidationError Unit} {as : List α}
    (each : ∀ a ∈ as, Acyclic (f a)) : Acyclic (as.forM f) := by
  induction as with
  | nil => exact .ok ()
  | cons a as ih =>
    obtain ⟨first, others⟩ := List.forall_mem_cons.mp each
    exact .bind first fun _ _ => ih others

theorem Acyclic.mapM {f : α → Except ValidationError β} {as : List α}
    (each : ∀ a ∈ as, Acyclic (f a)) : Acyclic (as.mapM f) := by
  induction as with
  | nil => exact .ok []
  | cons a as ih =>
    obtain ⟨first, others⟩ := List.forall_mem_cons.mp each
    rw [List.mapM_cons]
    exact .bind first fun _ _ => .bind (ih others) fun _ _ => .ok _

/-- A computation that fails has failed in its first step or in what comes after. -/
theorem bind_error {f : α → Except ValidationError β} {fault : ValidationError}
    (h : x >>= f = .error fault) : x = .error fault ∨ ∃ a, x = .ok a ∧ f a = .error fault := by
  cases x with
  | error fault' => exact .inl (congrArg _ (Except.error.inj h))
  | ok a => exact .inr ⟨a, rfl, h⟩

end

/-! ### Arguments -/

section

variable {ν : Type} {lookup : ν → Except ValidationError Const}

mutual

theorem acyclic_resolve (bound : ∀ x, Acyclic (lookup x)) : ∀ v : Value ν, Acyclic (v.resolve lookup)
  | .variable name => bound name
  | .null | .number _ | .string _ | .boolean _ | .enum _ => .ok _
  | .list items => by
    rw [Value.resolve]
    exact (acyclic_resolveItems bound items).map
  | .object members => by
    rw [Value.resolve]
    exact (acyclic_resolveMembers bound members).map

theorem acyclic_resolveItems (bound : ∀ x, Acyclic (lookup x)) :
    ∀ vs : List (Value ν), Acyclic (Value.resolveItems lookup vs)
  | [] => .ok _
  | v :: vs => by
    rw [Value.resolveItems]
    exact .bind (acyclic_resolve bound v) fun _ _ =>
      .bind (acyclic_resolveItems bound vs) fun _ _ => .ok _

theorem acyclic_resolveMembers (bound : ∀ x, Acyclic (lookup x)) :
    ∀ vs : List (String × Value ν), Acyclic (Value.resolveMembers lookup vs)
  | [] => .ok _
  | (key, v) :: vs => by
    rw [Value.resolveMembers]
    exact .bind (acyclic_resolve bound v) fun _ _ =>
      .bind (acyclic_resolveMembers bound vs) fun _ _ => .ok _

end

end

theorem acyclic_resolveVariables (bindings : Variables) (position : Position) (v : Value String) :
    Acyclic (resolveVariables bindings position v) := by
  refine acyclic_resolve (fun name => ?_) v
  split
  · exact .ok _
  · exact fun _ _ h => by cases h

theorem acyclic_checkValue (schema : Schema) (argument : String) (position : Position) (t : TypeRef)
    (c : Const) : Acyclic (checkValue schema argument position t c) := by
  have checked (accepted : Bool) (expected actual : String) :
      Acyclic (if accepted = true then .ok () else
        .error (.argumentType argument expected actual position)) := by
    cases accepted with
    | false => exact fun _ _ h => by cases h
    | true => exact .ok ()
  induction t generalizing c with
  | named name =>
    cases c with
    | null => exact .ok ()
    | _ => exact checked _ _ _
  | list item ih =>
    cases c with
    | null => exact .ok ()
    | list items => exact .forM fun c _ => ih c
    | _ => exact ih _
  | nonNull inner ih =>
    have without := ih c
    cases c with
    | null => exact fun _ _ h => by cases inner <;> cases h
    | _ =>
      cases inner with
      | list item => exact without
      | named name | nonNull inner => exact checked _ _ _

theorem acyclic_checkDeclared (schema : Schema) (bindings : Variables) (position : Position)
    (definitions : OrderedMap ArgumentDefinition) (supplied : OrderedMap Argument) :
    Acyclic (checkDeclared schema bindings position definitions supplied) := by
  induction definitions generalizing supplied with
  | nil => exact .ok _
  | cons entry rest ih =>
    obtain ⟨name, d⟩ := entry
    rw [checkDeclared]
    split
    · exact .bind (acyclic_resolveVariables _ _ _) fun _ _ =>
        .bind (acyclic_checkValue _ _ _ _ _) fun _ _ => .bind (ih _) fun _ _ => .ok _
    · split
      · exact fun _ _ h => by cases h
      · exact ih _

theorem acyclic_checkArguments (schema : Schema) (bindings : Variables) (head : FieldHead)
    (definitions : OrderedMap ArgumentDefinition) :
    Acyclic (checkArguments schema bindings head definitions) := by
  refine .bind (acyclic_checkDeclared _ _ _ _ _) fun (checked, left) _ => ?_
  simp only
  split
  · exact .ok _
  · exact fun _ _ h => by cases h

/-! ### Fields -/

mutual

theorem acyclic_mergeField (position : Position) (fields : List RequestField) :
    ∀ f : RequestField, Acyclic (mergeField position fields f)
  | ⟨alias?, name, arguments, subfields⟩ => by
    have update (outputName : String) (existing : List RequestField) :
        Acyclic (updateField outputName
          (fun existing =>
            if existing.name = name ∧ Json.sameMap existing.arguments arguments then do
              let merged ← mergeFields position existing.subfields subfields
              pure { existing with subfields := merged }
            else .error (.conflictingFields outputName position)) existing) := by
      induction existing with
      | nil => exact .ok _
      | cons g rest ih =>
        rw [updateField]
        split
        · refine .map ?_
          split
          · exact .bind (acyclic_mergeFields position g.subfields subfields) fun _ _ => .ok _
          · exact fun _ _ h => by cases h
        · exact ih.map
    rw [mergeField]
    split
    · exact update _ fields
    · exact .ok _

theorem acyclic_mergeFields (position : Position) (fields : List RequestField) :
    ∀ fs : List RequestField, Acyclic (mergeFields position fields fs)
  | [] => .ok _
  | f :: fs => by
    rw [mergeFields]
    exact .bind (acyclic_mergeField position fields f) fun fields' _ =>
      acyclic_mergeFields position fields' fs

end

theorem acyclic_condition (scope : Scope) (d : Directive) : Acyclic (scope.condition d) := by
  unfold Scope.condition
  split
  · simp only
    split
    · split
      · refine .bind (.ok _) fun value _ => ?_
        split
        · exact .ok _
        · exact fun _ _ h => by cases h
      · exact fun _ _ h => by cases h
    · refine .bind (.ok _) fun value _ => ?_
      split
      · exact .ok _
      · exact fun _ _ h => by cases h
  · exact fun _ _ h => by cases h

theorem acyclic_isIncluded (scope : Scope) (directives : List Directive) :
    Acyclic (scope.isIncluded directives) := by
  induction directives with
  | nil => exact .ok _
  | cons d ds ih =>
    rw [Scope.isIncluded]
    split
    · exact ih
    · refine .bind (acyclic_condition scope d) fun value _ => ?_
      split
      · exact .ok _
      · exact ih

theorem acyclic_checkCondition (container : SchemaType) (condition : String) (position : Position) :
    Acyclic (checkCondition container condition position) := by
  unfold checkCondition
  split
  · exact .ok _
  · exact fun _ _ h => by cases h

theorem acyclic_typenameSelection (head : FieldHead) (selections : List Selection) :
    Acyclic (typenameSelection head selections) := by
  unfold typenameSelection
  split
  · exact fun _ _ h => by cases h
  · split
    · exact fun _ _ h => by cases h
    · exact .ok _

theorem acyclic_resolveField (scope : Scope) (container : SchemaType) (head : FieldHead)
    (selections : List Selection) : Acyclic (scope.resolveField container head selections) := by
  have refused {fault : ValidationError} {α : Type} {rest : Unit → Except ValidationError α}
      (other : ∀ name position, fault ≠ .fragmentCycle name position) :
      Acyclic ((throw fault : Except ValidationError Unit) >>= rest) :=
    fun name position h => other name position (Except.error.inj h)
  unfold Scope.resolveField
  split
  · split
    · simp only
      split
      · exact refused fun _ _ h => by cases h
      · split
        · exact refused fun _ _ h => by cases h
        · exact .ok _
    · exact fun _ _ h => by cases h
  · exact fun _ _ h => by cases h

/-! ### Operations -/

theorem acyclic_chooseOperation (operations : Operations) (name : Option String) :
    Acyclic (chooseOperation operations name) := by
  unfold chooseOperation
  split
  · exact .ok _
  · exact fun _ _ h => by cases h
  · exact .ok _
  · exact fun _ _ h => by cases h
  · split
    · exact .ok _
    · exact fun _ _ h => by cases h

theorem acyclic_variableValues (supplied : OrderedMap Json) (definitions : List VariableDefinition) :
    Acyclic (variableValues supplied definitions) := by
  refine .bind (.mapM fun d _ => .bind ?_ fun _ _ => .ok _) fun _ _ => .ok _
  unfold variableValue
  split
  · exact .ok _
  · exact .ok _
  · split
    · exact fun _ _ h => by cases h
    · exact .ok _

/-! ## Calls -/

namespace Scope

/-- A call of one of the functions that collect and merge fields. -/
inductive Call where
  | collect (container : SchemaType) (depth : Nat) (path : List String)
    (fields : List RequestField) (selections : List Selection)
  | collectOne (container : SchemaType) (depth : Nat) (path : List String)
    (fields : List RequestField) (selection : Selection)
  | validateField (container : SchemaType) (depth : Nat) (path : List String) (head : FieldHead)
    (selections : List Selection)
  | mergeField (position : Position) (fields : List RequestField) (field : RequestField)
  | mergeFields (position : Position) (fields fs : List RequestField)

/-- The calls that are made while a call is worked out. -/
inductive Makes (scope : Scope) : Call → Call → Prop
  | first {container : SchemaType} {depth : Nat} {path : List String} {fields : List RequestField}
    {s : Selection} {rest : List Selection} :
    Makes scope (.collect container depth path fields (s :: rest))
      (.collectOne container depth path fields s)
  | others {container : SchemaType} {depth : Nat} {path : List String}
    {fields fields' : List RequestField} {s : Selection} {rest : List Selection} :
    scope.collectOne container depth path fields s = .ok fields' →
    Makes scope (.collect container depth path fields (s :: rest))
      (.collect container depth path fields' rest)
  | field {container : SchemaType} {depth : Nat} {path : List String} {fields : List RequestField}
    {head : FieldHead} {selections : List Selection} :
    scope.isIncluded head.directives = .ok true →
    Makes scope (.collectOne container depth path fields (.field head selections))
      (.validateField container depth path head selections)
  | merge {container : SchemaType} {depth : Nat} {path : List String} {fields : List RequestField}
    {head : FieldHead} {selections : List Selection} {f : RequestField} :
    scope.isIncluded head.directives = .ok true →
    scope.validateField container depth path head selections = .ok f →
    Makes scope (.collectOne container depth path fields (.field head selections))
      (.mergeField head.position fields f)
  /-- A fragment is expanded. -/
  | expand {container : SchemaType} {depth : Nat} {path : List String} {fields : List RequestField}
    {position : Position} {name : String} {directives : List Directive} {fragment : Fragment} :
    scope.isIncluded directives = .ok true → name ∉ path →
    Document.fragment? scope.fragments name = some fragment →
    checkCondition container fragment.condition position = .ok () →
    Makes scope (.collectOne container depth path fields (.spread position name directives))
      (.collect container depth (name :: path) fields fragment.selections)
  | inlineFragment {container : SchemaType} {depth : Nat} {path : List String}
    {fields : List RequestField} {position : Position} {condition : Option String}
    {directives : List Directive} {selections : List Selection} :
    scope.isIncluded directives = .ok true →
    (∀ c, condition = some c → checkCondition container c position = .ok ()) →
    Makes scope
      (.collectOne container depth path fields
        (.inlineFragment position condition directives selections))
      (.collect container depth path fields selections)
  | subfields {container : SchemaType} {depth : Nat} {path : List String} {head : FieldHead}
    {selections : List Selection} {definition : FieldDefinition} {type : SchemaType} :
    scope.allowsDepth depth = true → head.name ≠ typenameField →
    scope.resolveField container head selections = .ok (definition, type) →
    Makes scope (.validateField container depth path head selections)
      (.collect type (depth + 1) path [] selections)
  | mergeBeneath {position : Position} {fields : List RequestField} {existing f : RequestField} :
    fields.find? (·.outputName = f.outputName) = some existing → existing.name = f.name →
    Json.sameMap existing.arguments f.arguments = true →
    Makes scope (.mergeField position fields f)
      (.mergeFields position existing.subfields f.subfields)
  | mergeFirst {position : Position} {fields fs : List RequestField} {f : RequestField} :
    Makes scope (.mergeFields position fields (f :: fs)) (.mergeField position fields f)
  | mergeOthers {position : Position} {fields fields' fs : List RequestField} {f : RequestField} :
    Request.mergeField position fields f = .ok fields' →
    Makes scope (.mergeFields position fields (f :: fs)) (.mergeFields position fields' fs)

namespace Call

/-- What a call uses up: fragments that are not being spread, and then parts of the document; to merge
comes last. -/
noncomputable def weight (scope : Scope) : Call → Nat × Nat × Nat
  | .collect _ _ path _ selections => (1, (scope.unused path).length, sizeOf selections)
  | .collectOne _ _ path _ selection => (1, (scope.unused path).length, sizeOf selection)
  | .validateField _ _ path _ selections => (1, (scope.unused path).length, 1 + sizeOf selections)
  | .mergeField _ _ f => (0, 0, sizeOf f)
  | .mergeFields _ _ fs => (0, 0, sizeOf fs)

/-- The depth of the fields that a call collects. -/
def depth : Call → Nat
  | .collect _ depth .. | .collectOne _ depth .. | .validateField _ depth .. => depth
  | .mergeField .. | .mergeFields .. => 0

/-- The deepest level that a call may get to. -/
def reach (scope : Scope) : Call → Nat
  | .collect _ depth path _ selections => depth + levelsOf selections + spareOf path scope.fragments
  | .collectOne _ depth path _ selection => depth + levels selection + spareOf path scope.fragments
  | .validateField _ depth path _ selections =>
    depth + (1 + levelsOf selections) + spareOf path scope.fragments
  | .mergeField .. | .mergeFields .. => 0

/-- The fragments that are being spread, if the call is to collect fields. -/
def path? : Call → Option (List String)
  | .collect _ _ path .. | .collectOne _ _ path .. | .validateField _ _ path .. => some path
  | .mergeField .. | .mergeFields .. => none

/-- The fragment whose contents the call has collected. -/
def expanded : Call → List String
  | .collectOne _ _ _ _ (.spread _ name _) => [name]
  | _ => []

theorem depth_le_reach (scope : Scope) (call : Call) : call.depth ≤ call.reach scope := by
  cases call <;> simp only [depth, reach] <;> omega

end Call

variable {scope : Scope} {a b start : Call}

/-- A call only makes calls of less weight. -/
theorem Makes.weight_lt (h : scope.Makes a b) :
    Prod.Lex (· < ·) (Prod.Lex (· < ·) (· < ·)) (b.weight scope) (a.weight scope) := by
  cases h with
  | first | others =>
    refine .right _ (.right _ ?_)
    rw [List.cons.sizeOf_spec]
    omega
  | @field _ _ _ _ head =>
    refine .right _ (.right _ ?_)
    cases head
    rw [Selection.field.sizeOf_spec, FieldHead.mk.sizeOf_spec]
    omega
  | merge => exact .left _ _ Nat.one_pos
  | expand _ fresh found => exact .right _ (.left _ _ (unused_cons_lt fresh found))
  | inlineFragment =>
    refine .right _ (.right _ ?_)
    rw [Selection.inlineFragment.sizeOf_spec]
    omega
  | subfields => exact .right _ (.right _ (by omega))
  | @mergeBeneath _ _ _ f =>
    refine .right _ (.right _ ?_)
    cases f
    simp only [RequestField.mk.sizeOf_spec]
    omega
  | mergeFirst | mergeOthers =>
    refine .right _ (.right _ ?_)
    rw [List.cons.sizeOf_spec]
    omega

/-- No call leads to calls without an end. -/
theorem makes_wellFounded (scope : Scope) :
    WellFounded fun callee caller => scope.Makes caller callee :=
  Subrelation.wf (fun h => h.weight_lt)
    (InvImage.wf (Call.weight scope) (WellFounded.prod_lex Nat.lt_wfRel.wf
      (WellFounded.prod_lex Nat.lt_wfRel.wf Nat.lt_wfRel.wf)))

/-- A call does not get deeper than the call that makes it. -/
theorem Makes.reach_le (h : scope.Makes a b) : b.reach scope ≤ a.reach scope := by
  cases h with
  | first | others | field | inlineFragment =>
    simp only [Call.reach, levelsOf, levels]
    omega
  | expand _ fresh found =>
    have := levels_add_spareOf_le fresh found
    simp only [Call.reach, levels]
    omega
  | subfields =>
    simp only [Call.reach]
    omega
  | merge | mergeBeneath | mergeFirst | mergeOthers => exact Nat.zero_le _

/-! ## Expansions -/

/-- Calls that are made by calls lead from one to another; on the way fragments are entered, the last of
which is named first. -/
inductive Leads (scope : Scope) (start : Call) : List String → Call → Prop
  | start : Leads scope start [] start
  | makes {names : List String} {a b : Call} : Leads scope start names a → scope.Makes a b →
    Leads scope start (a.expanded ++ names) b

/-- A fragment is entered only if it is not one of those that are being spread. -/
theorem Makes.path (h : scope.Makes a b) {names : List String} (nodup : names.Nodup)
    (path : ∀ p, a.path? = some p → p = names) :
    (a.expanded ++ names).Nodup ∧ ∀ p, b.path? = some p → p = a.expanded ++ names := by
  cases h with
  | @expand _ _ _ _ _ name _ _ _ fresh =>
    cases path _ rfl
    exact ⟨List.nodup_cons.mpr ⟨fresh, nodup⟩, fun p same => (Option.some.inj same).symm⟩
  | first | others | field | inlineFragment | subfields =>
    exact ⟨nodup, fun p same => path p same⟩
  | merge | mergeBeneath | mergeFirst | mergeOthers =>
    exact ⟨nodup, fun p same => absurd same (Option.some_ne_none p).symm⟩

theorem Leads.nodup (h : scope.Leads start names a) (first : ∀ p, start.path? = some p → p = []) :
    names.Nodup ∧ ∀ p, a.path? = some p → p = names := by
  induction h with
  | start => exact ⟨List.nodup_nil, first⟩
  | makes _ step ih => exact step.path ih.1 ih.2

theorem Leads.reach_le (h : scope.Leads start names a) : a.reach scope ≤ start.reach scope := by
  induction h with
  | start => exact Nat.le_refl _
  | makes _ step ih => exact step.reach_le.trans ih

/-! ## Entering a fragment from inside -/

/-- Following the included selections, while the fragments of `names` are being expanded, leads to a
spread of a fragment that is being expanded. -/
inductive Reenters (scope : Scope) : List String → List Selection → Prop
  | again {names : List String} {among : List Selection} {position : Position} {name : String}
    {directives : List Directive} :
    .spread position name directives ∈ among → scope.Includes directives → name ∈ names →
    Reenters scope names among
  | field {names : List String} {among selections : List Selection} {head : FieldHead} :
    .field head selections ∈ among → scope.Includes head.directives →
    Reenters scope names selections → Reenters scope names among
  | inlineFragment {names : List String} {among selections : List Selection} {position : Position}
    {condition : Option String} {directives : List Directive} :
    .inlineFragment position condition directives selections ∈ among →
    scope.Includes directives → Reenters scope names selections → Reenters scope names among
  | spread {names : List String} {among : List Selection} {position : Position} {name : String}
    {directives : List Directive} {fragment : Fragment} :
    .spread position name directives ∈ among → scope.Includes directives →
    Document.fragment? scope.fragments name = some fragment →
    Reenters scope (name :: names) fragment.selections → Reenters scope names among

theorem Reenters.mono {names : List String} {some all : List Selection}
    (h : scope.Reenters names some) (sub : ∀ s ∈ some, s ∈ all) : scope.Reenters names all := by
  cases h with
  | again mem included entered => exact .again (sub _ mem) included entered
  | field mem included inner => exact .field (sub _ mem) included inner
  | inlineFragment mem included inner => exact .inlineFragment (sub _ mem) included inner
  | spread mem included found inner => exact .spread (sub _ mem) included found inner

theorem not_reenters_nil {names : List String} : ¬ scope.Reenters names [] := fun h => by
  cases h <;> exact absurd ‹_ ∈ []› List.not_mem_nil

/-! ## What is collected -/

section

variable {container : SchemaType} {depth : Nat} {path : List String}
  {fields out : List RequestField}

/-- Each of the selections that are collected is. -/
theorem collectOne_of_collect {selections : List Selection} {s : Selection}
    (h : scope.collect container depth path fields selections = .ok out) (mem : s ∈ selections) :
    ∃ fields' out', scope.collectOne container depth path fields' s = .ok out' := by
  induction selections generalizing fields with
  | nil => cases mem
  | cons first rest ih =>
    rw [collect] at h
    obtain ⟨fields', one, h⟩ := bind_ok h
    rcases List.mem_cons.mp mem with rfl | mem
    · exact ⟨fields, fields', one⟩
    · exact ih h mem

theorem included_of_includes {directives : List Directive} {included : Bool}
    (h : scope.isIncluded directives = .ok included) (all : scope.Includes directives) :
    included = true := (includes_iff h).mpr all

theorem collect_of_field {head : FieldHead} {selections : List Selection}
    (included : scope.Includes head.directives)
    (h : scope.collectOne container depth path fields (.field head selections) = .ok out) :
    selections = [] ∨ ∃ type out',
      scope.collect type (depth + 1) path [] selections = .ok out' := by
  rw [collectOne] at h
  obtain ⟨b, decided, h⟩ := bind_ok h
  cases included_of_includes decided included
  obtain ⟨f, validated, -⟩ := bind_ok h
  rw [validateField] at validated
  split at validated
  · cases validated
  · split at validated
    · unfold typenameSelection at validated
      split at validated
      · cases validated
      · split at validated
        · cases validated
        · next bare => exact .inl (by simpa using bare)
    · obtain ⟨⟨d, type⟩, -, validated⟩ := bind_ok validated
      obtain ⟨subfields, collected, -⟩ := bind_ok validated
      exact .inr ⟨type, subfields, collected⟩

theorem collect_of_inlineFragment {position : Position} {condition : Option String}
    {directives : List Directive} {selections : List Selection}
    (included : scope.Includes directives)
    (h : scope.collectOne container depth path fields
      (.inlineFragment position condition directives selections) = .ok out) :
    scope.collect container depth path fields selections = .ok out := by
  rw [collectOne] at h
  obtain ⟨b, decided, h⟩ := bind_ok h
  cases included_of_includes decided included
  simp only [if_true] at h
  split at h
  · obtain ⟨-, -, h⟩ := bind_ok h
    exact h
  · exact h

theorem collect_of_spread {position : Position} {name : String} {directives : List Directive}
    (included : scope.Includes directives)
    (h : scope.collectOne container depth path fields (.spread position name directives) = .ok out) :
    name ∉ path ∧ ∀ fragment, Document.fragment? scope.fragments name = some fragment →
      scope.collect container depth (name :: path) fields fragment.selections = .ok out := by
  rw [collectOne] at h
  obtain ⟨b, decided, h⟩ := bind_ok h
  cases included_of_includes decided included
  simp only [if_true] at h
  split at h
  · cases h
  · next fresh =>
    refine ⟨fresh, fun fragment found => ?_⟩
    split at h
    · cases h
    · next fragment' found' =>
      cases found.symm.trans found'
      obtain ⟨-, -, h⟩ := bind_ok h
      exact h

/-- Selections that are collected do not lead into a fragment from inside. -/
theorem Reenters.not_collected {names : List String} {selections : List Selection}
    (reenters : scope.Reenters names selections) :
    scope.collect container depth names fields selections ≠ .ok out := by
  induction reenters generalizing container depth fields out with
  | again mem included entered =>
    intro h
    obtain ⟨_, _, one⟩ := collectOne_of_collect h mem
    exact (collect_of_spread included one).1 entered
  | field mem included inner ih =>
    intro h
    obtain ⟨_, _, one⟩ := collectOne_of_collect h mem
    rcases collect_of_field included one with rfl | ⟨type, _, collected⟩
    · exact not_reenters_nil inner
    · exact ih collected
  | inlineFragment mem included _ ih =>
    intro h
    obtain ⟨_, _, one⟩ := collectOne_of_collect h mem
    exact ih (collect_of_inlineFragment included one)
  | spread mem included found _ ih =>
    intro h
    obtain ⟨_, _, one⟩ := collectOne_of_collect h mem
    exact ih ((collect_of_spread included one).2 _ found)

end

/-! ## What is refused -/

section

variable {name : String} {position : Position}

theorem includes_of_included {directives : List Directive} (h : scope.isIncluded directives = .ok true) :
    scope.Includes directives := (includes_iff h).mp rfl

mutual

/-- A cycle is refused where the selections lead into a fragment from inside. -/
theorem reenters_of_collect (scope : Scope) (container : SchemaType) (depth : Nat)
    (path : List String) (fields : List RequestField) (selections : List Selection)
    (h : scope.collect container depth path fields selections =
      .error (.fragmentCycle name position)) : scope.Reenters path selections := by
  match selections with
  | [] =>
    rw [collect] at h
    cases h
  | s :: rest =>
    rw [collect] at h
    rcases bind_error h with h | ⟨fields', -, h⟩
    · exact (reenters_of_collectOne scope container depth path fields s h).mono fun _ mem =>
        List.mem_singleton.mp mem ▸ List.mem_cons_self
    · exact (reenters_of_collect scope container depth path fields' rest h).mono fun _ mem =>
        List.mem_cons_of_mem _ mem
termination_by ((scope.unused path).length, sizeOf selections)
decreasing_by all_goals (apply Prod.Lex.right; rw [List.cons.sizeOf_spec]; omega)

theorem reenters_of_collectOne (scope : Scope) (container : SchemaType) (depth : Nat)
    (path : List String) (fields : List RequestField) (selection : Selection)
    (h : scope.collectOne container depth path fields selection =
      .error (.fragmentCycle name position)) : scope.Reenters path [selection] := by
  match selection with
  | .field head selections =>
    rw [collectOne] at h
    rcases bind_error h with h | ⟨included, decided, h⟩
    · exact absurd h (acyclic_isIncluded _ _ _ _)
    · cases included with
      | false => cases h
      | true =>
        rcases bind_error h with h | ⟨f, -, h⟩
        · exact .field (List.mem_singleton_self _) (includes_of_included decided)
            (reenters_of_validateField scope container depth path head selections h)
        · exact absurd h (acyclic_mergeField _ _ _ _ _)
  | .spread position' name' directives =>
    rw [collectOne] at h
    rcases bind_error h with h | ⟨included, decided, h⟩
    · exact absurd h (acyclic_isIncluded _ _ _ _)
    · cases included with
      | false => cases h
      | true =>
        have includes := includes_of_included decided
        simp only [if_true] at h
        split at h
        · next entered => exact .again (List.mem_singleton_self _) includes entered
        · next fresh =>
          split at h
          · cases h
          · next fragment defined =>
            rcases bind_error h with h | ⟨-, -, h⟩
            · exact absurd h (acyclic_checkCondition _ _ _ _ _)
            · have uses_up := unused_cons_lt fresh defined
              exact .spread (List.mem_singleton_self _) includes defined
                (reenters_of_collect scope container depth (name' :: path) fields
                  fragment.selections h)
  | .inlineFragment position' condition directives selections =>
    rw [collectOne] at h
    rcases bind_error h with h | ⟨included, decided, h⟩
    · exact absurd h (acyclic_isIncluded _ _ _ _)
    · cases included with
      | false => cases h
      | true =>
        simp only [if_true] at h
        have inside : scope.collect container depth path fields selections =
            .error (.fragmentCycle name position) := by
          split at h
          · rcases bind_error h with h | ⟨-, -, h⟩
            · exact absurd h (acyclic_checkCondition _ _ _ _ _)
            · exact h
          · exact h
        exact .inlineFragment (List.mem_singleton_self _) (includes_of_included decided)
          (reenters_of_collect scope container depth path fields selections inside)
termination_by ((scope.unused path).length, sizeOf selection)
decreasing_by
  · apply Prod.Lex.right; cases head
    rw [Selection.field.sizeOf_spec, FieldHead.mk.sizeOf_spec]; omega
  · exact Prod.Lex.left _ _ (by assumption)
  · apply Prod.Lex.right; rw [Selection.inlineFragment.sizeOf_spec]; omega

theorem reenters_of_validateField (scope : Scope) (container : SchemaType) (depth : Nat)
    (path : List String) (head : FieldHead) (selections : List Selection)
    (h : scope.validateField container depth path head selections =
      .error (.fragmentCycle name position)) : scope.Reenters path selections := by
  rw [validateField] at h
  split at h
  · cases h
  · split at h
    · exact absurd h (acyclic_typenameSelection _ _ _ _)
    · rcases bind_error h with h | ⟨⟨d, type⟩, -, h⟩
      · exact absurd h (acyclic_resolveField _ _ _ _ _ _)
      · rcases bind_error h with h | ⟨subfields, -, h⟩
        · exact reenters_of_collect scope type (depth + 1) path [] selections h
        · rcases bind_error h with h | ⟨arguments, -, h⟩
          · exact absurd h (acyclic_checkArguments _ _ _ _ _ _)
          · cases h
termination_by ((scope.unused path).length, 1 + sizeOf selections)
decreasing_by all_goals (apply Prod.Lex.right; omega)

end

end

end Scope

/-! ## Documents -/

section

variable {schema : Schema} {limit : Option Nat} {document : Document} {name : Option String}
  {supplied : OrderedMap Json} {o : Operation} {scope : Scope}

/-- A document that leads into a fragment from inside is refused. -/
theorem Chooses.refused (chosen : Chooses schema limit document name supplied o scope)
    (reenters : scope.Reenters [] o.selections) :
    ∃ fault, ofDocument schema limit document name supplied = .error fault := by
  obtain ⟨operation, bound⟩ := chosen
  cases h : ofDocument schema limit document name supplied with
  | error fault => exact ⟨fault, rfl⟩
  | ok r =>
    obtain ⟨⟨chosen, o'⟩, operation', h⟩ := bind_ok h
    cases operation.symm.trans operation'
    simp only [ofOperation] at h
    split at h
    · obtain ⟨bindings, bound', h⟩ := bind_ok h
      cases bound.symm.trans bound'
      obtain ⟨fields, collected, -⟩ := bind_ok h
      exact absurd collected reenters.not_collected
    · cases h

/-- A document is only refused for a cycle if it leads into a fragment from inside. -/
theorem Chooses.reenters (chosen : Chooses schema limit document name supplied o scope)
    {fragment : String} {position : Position}
    (h : ofDocument schema limit document name supplied = .error (.fragmentCycle fragment position)) :
    scope.Reenters [] o.selections := by
  obtain ⟨operation, bound⟩ := chosen
  rcases bind_error h with h | ⟨⟨chosen, o'⟩, operation', h⟩
  · exact absurd h (acyclic_chooseOperation _ _ _ _)
  · cases operation.symm.trans operation'
    simp only [ofOperation] at h
    split at h
    · next container found =>
      rcases bind_error h with h | ⟨bindings, bound', h⟩
      · exact absurd h (acyclic_variableValues _ _ _ _)
      · cases bound.symm.trans bound'
        rcases bind_error h with h | ⟨fields, -, h⟩
        · exact Scope.reenters_of_collect _ container 1 [] [] o.selections h
        · split at h
          · cases h
          · cases h
    · cases h

end

/-- The collection of a document ends, expands no fragment inside of itself, and refuses a cycle exactly
where the document has one; with every limit of the depth, and without one. -/
theorem fragments_expand_once (schema : Schema) (limit : Option Nat) (document : Document)
    (name : Option String) (supplied : OrderedMap Json) :
    (∀ scope : Scope, WellFounded fun callee caller => scope.Makes caller callee) ∧
    ∀ o scope, Chooses schema limit document name supplied o scope →
      (∀ container names call,
        scope.Leads (.collect container 1 [] [] o.selections) names call →
          names.Nodup ∧ call.depth ≤ 1 + levelsOf o.selections + spareOf [] document.fragments) ∧
      (scope.Reenters [] o.selections →
        ∃ fault, ofDocument schema limit document name supplied = .error fault) ∧
      (¬ scope.Reenters [] o.selections → ∀ fragment position,
        ofDocument schema limit document name supplied ≠ .error (.fragmentCycle fragment position)) := by
  refine ⟨Scope.makes_wellFounded, fun o scope chosen => ⟨fun container names call leads => ?_,
    chosen.refused, fun acyclic fragment position h => acyclic (chosen.reenters h)⟩⟩
  have fragments : scope.fragments = document.fragments := by
    cases chosen
    rfl
  refine ⟨(leads.nodup fun p same => (Option.some.inj same).symm).1, ?_⟩
  rw [← fragments]
  exact (call.depth_le_reach scope).trans leads.reach_le

end Request

/-! ## A linked list -/

namespace Linked

/-- The type `Node` has an `id` and the field `next`, which is a node. -/
def schema : Schema :=
  ⟨⟨[("ID", ⟨"ID", .scalar .id⟩),
    ("Node", ⟨"Node", .object [("id", .of "id" (.named "ID")), ("next", .of "next" (.named "Node"))]⟩)],
    by decide⟩, "Node", none, none⟩

def field (name : String) (selections : List Selection) : Selection :=
  .field ⟨.nowhere, none, name, [], []⟩ selections

def spread (name : String) : Selection := .spread .nowhere name []

def operation (selections : List Selection) : Operation := ⟨.nowhere, .query, [], [], selections⟩

def scope (fragments : List Fragment) (limit : Option Nat) : Request.Scope :=
  ⟨schema, [], fragments, limit⟩

/-- The fragment `tail`, which spreads itself in an inline fragment beneath `next`. -/
def cyclic : Fragment :=
  ⟨.nowhere, "tail", "Node", [field "next" [.inlineFragment .nowhere none [] [spread "tail"]]]⟩

/-- The fragment `own`, and selections that spread it at two depths. -/
def own : Fragment := ⟨.nowhere, "own", "Node", [field "id" []]⟩

def twice : List Selection := [spread "own", field "next" [spread "own", field "next" [spread "own"]]]

theorem includes_nil (scope : Request.Scope) : scope.Includes [] :=
  fun _ mem => absurd mem List.not_mem_nil

theorem reenters : (scope [cyclic] none).Reenters [] [spread "tail"] :=
  .spread (List.mem_singleton_self _) (includes_nil _) rfl <|
    .field (List.mem_singleton_self _) (includes_nil _) <|
      .inlineFragment (List.mem_singleton_self _) (includes_nil _) <|
        .again (List.mem_singleton_self _) (includes_nil _) List.mem_cons_self

theorem fragments_expand_once_linked :
    (∃ fault, Request.ofDocument schema none
      ⟨.anonymous (operation [spread "tail"]), [cyclic]⟩ none [] = .error fault) ∧
    (Request.ofDocument schema (some (2 ^ 64 - 1)) ⟨.anonymous (operation twice), [own]⟩ none [] ≠
      .error (.fragmentCycle "own" .nowhere)) ∧
    ∀ container names call, (scope [own] (some (2 ^ 64 - 1))).Leads
      (.collect container 1 [] [] twice) names call → names.Nodup ∧ call.depth ≤ 5 := by
  obtain ⟨-, cycle⟩ := Request.fragments_expand_once schema none
    ⟨.anonymous (operation [spread "tail"]), [cyclic]⟩ none []
  obtain ⟨-, again⟩ := Request.fragments_expand_once schema (some (2 ^ 64 - 1))
    ⟨.anonymous (operation twice), [own]⟩ none []
  obtain ⟨leads, refused, never⟩ := again (operation twice) (scope [own] (some (2 ^ 64 - 1)))
    (.intro rfl rfl)
  refine ⟨(cycle (operation [spread "tail"]) (scope [cyclic] none) (.intro rfl rfl)).2.1 reenters,
    never (fun h => ?_) _ _, fun container names call led =>
      (leads container names call led).imp_right fun le => le.trans (by decide)⟩
  obtain ⟨fault, h⟩ := refused h
  have accepted : (Request.ofDocument schema (some (2 ^ 64 - 1))
      ⟨.anonymous (operation twice), [own]⟩ none []).toOption.isSome = true := by cbv
  rw [h] at accepted
  cases accepted

end Linked

end GraphQLEngine
