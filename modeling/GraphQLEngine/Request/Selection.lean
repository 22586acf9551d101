import GraphQLEngine.Request.Arguments
import GraphQLEngine.Request.Basic
import GraphQLEngine.Schema.Reachable

/-!
# Collecting selections

`Scope.collect` turns a selection set into request fields: selections that are excluded by `@skip`
or `@include` are left out, fragments are replaced by their contents, and fields with the same
output name are merged.

A fragment is never spread inside itself: the names of the fragments that are being spread are
kept, and a spread of one of them is an error.  So the collection ends: each spread uses up a
fragment, and all else goes on with a smaller part of the document.
-/

namespace GraphQLEngine

namespace Request

/-! ## Merging -/

/-- Replace the first field of an output name by what `change` makes of it. -/
def updateField (outputName : String)
    (change : RequestField → Except ValidationError RequestField) :
    List RequestField → Except ValidationError (List RequestField)
  | [] => .ok []
  | f :: fs =>
    if f.outputName = outputName then (change f).map (· :: fs)
    else (updateField outputName change fs).map (f :: ·)

mutual

/-- Add a field; one with the same output name has to select the same field with the same
arguments, and takes over the subfields. -/
def mergeField (position : Position) (fields : List RequestField) :
    RequestField → Except ValidationError (List RequestField)
  | ⟨alias?, name, arguments, subfields⟩ =>
    let outputName := alias?.getD name
    if fields.any (·.outputName = outputName) then
      updateField outputName
        (fun existing =>
          if existing.name = name ∧ Json.sameMap existing.arguments arguments then do
            let merged ← mergeFields position existing.subfields subfields
            pure { existing with subfields := merged }
          else .error (.conflictingFields outputName position))
        fields
    else .ok (fields ++ [⟨alias?, name, arguments, subfields⟩])

def mergeFields (position : Position) (fields : List RequestField) :
    List RequestField → Except ValidationError (List RequestField)
  | [] => .ok fields
  | f :: fs => do
    let fields ← mergeField position fields f
    mergeFields position fields fs

end

/-! ## Conditions -/

/-- What collection depends on besides the selections. -/
structure Scope where
  schema : Schema
  bindings : Variables
  fragments : List Fragment
  /-- The deepest selection that is accepted; without a limit every depth is. -/
  maxDepth : Option Nat

/-- The condition of `@skip` or `@include`. -/
def Scope.condition (scope : Scope) (d : Directive) : Except ValidationError Bool := do
  let some argument := d.arguments.find? (·.name = "if")
    | throw (.missingArgument "if" d.position)
  let value ←
    match argument.value with
    | .variable name =>
      match scope.bindings.lookup name with
      | some c => pure c
      | none => throw (.variableNotFound name argument.position)
    | value => pure (value.closed?.getD .null)
  match value with
  | .boolean b => pure b
  | other => throw (.argumentType "if" "Boolean!" (Const.render other) argument.position)

/-- The value of its condition with which a directive excludes a selection. -/
def excludesWhen (d : Directive) : Option Bool :=
  if d.name = "skip" then some true
  else if d.name = "include" then some false
  else none

/-- Whether no directive excludes the selection; the first that does ends the question. -/
def Scope.isIncluded (scope : Scope) : List Directive → Except ValidationError Bool
  | [] => .ok true
  | d :: ds =>
    match excludesWhen d with
    | none => scope.isIncluded ds
    | some excluded => do
      if (← scope.condition d) = excluded then pure false else scope.isIncluded ds

/-! ## Fields -/

/-- A selection of the name of the object's type. -/
def typenameSelection (head : FieldHead) (selections : List Selection) :
    Except ValidationError RequestField :=
  if !head.arguments.isEmpty then
    .error (.strayArguments (head.arguments.map Argument.name) head.name head.position)
  else if !selections.isEmpty then .error (.leafWithSelection head.name head.position)
  else .ok ⟨head.alias?, head.name, [], []⟩

/-- The definition of a selected field and its type; a leaf must not have selections, and an object
must have some. -/
def Scope.resolveField (scope : Scope) (container : SchemaType) (head : FieldHead)
    (selections : List Selection) : Except ValidationError (FieldDefinition × SchemaType) := do
  let some definition := container.fields?.bind (·.lookup head.name)
    | throw (.unknownField head.name container.name head.position)
  let some type := scope.schema.type? definition.type.innermost
    | throw (.unknownFieldType definition.type.innermost head.position)
  if type.isLeaf && !selections.isEmpty then
    throw (.leafWithSelection head.name head.position)
  if !type.isLeaf && selections.isEmpty then
    throw (.missingSelection head.name definition.type.render head.position)
  pure (definition, type)

/-- Whether a field at this depth is within the limit. -/
def Scope.allowsDepth (scope : Scope) (depth : Nat) : Bool :=
  match scope.maxDepth with
  | none => true
  | some limit => depth ≤ limit

/-- Without abstract types a fragment applies only to the type that it names. -/
def checkCondition (container : SchemaType) (condition : String) (position : Position) :
    Except ValidationError Unit :=
  if condition = container.name then .ok ()
  else .error (.fragmentMismatch condition container.name position)

/-- The names of the fragments that are not being spread. -/
def Scope.unused (scope : Scope) (path : List String) : List String :=
  (scope.fragments.map Fragment.name).filter (· ∉ path)

theorem Scope.unused_cons_lt {scope : Scope} {path : List String} {name : String} {f : Fragment}
    (fresh : name ∉ path) (found : Document.fragment? scope.fragments name = some f) :
    (scope.unused (name :: path)).length < (scope.unused path).length := by
  apply length_filter_cons_lt _ fresh
  have hm := List.mem_of_find?_eq_some found
  have hn := List.find?_some found
  simp only [decide_eq_true_eq] at hn
  exact hn ▸ List.mem_map_of_mem hm

mutual

/-- Collect the selections into `fields`, which are at `depth`, while the fragments of `path` are
being spread. -/
def Scope.collect (scope : Scope) (container : SchemaType) (depth : Nat) (path : List String)
    (fields : List RequestField) (selections : List Selection) :
    Except ValidationError (List RequestField) :=
  match selections with
  | [] => .ok fields
  | s :: rest => do
    let fields ← scope.collectOne container depth path fields s
    scope.collect container depth path fields rest
termination_by ((scope.unused path).length, sizeOf selections)
decreasing_by all_goals (apply Prod.Lex.right; rw [List.cons.sizeOf_spec]; omega)

def Scope.collectOne (scope : Scope) (container : SchemaType) (depth : Nat) (path : List String)
    (fields : List RequestField) (selection : Selection) :
    Except ValidationError (List RequestField) :=
  match selection with
  | .field head selections => do
    if ← scope.isIncluded head.directives then
      let field ← scope.validateField container depth path head selections
      mergeField head.position fields field
    else pure fields
  | .spread position name directives => do
    if ← scope.isIncluded directives then
      if _fresh : name ∈ path then throw (.fragmentCycle name position)
      else
        match _found : Document.fragment? scope.fragments name with
        | none => throw (.fragmentNotFound name position)
        | some fragment =>
          checkCondition container fragment.condition position
          scope.collect container depth (name :: path) fields fragment.selections
    else pure fields
  | .inlineFragment position condition directives selections => do
    if ← scope.isIncluded directives then
      match condition with
      | some condition => checkCondition container condition position
      | none => pure ()
      scope.collect container depth path fields selections
    else pure fields
termination_by ((scope.unused path).length, sizeOf selection)
decreasing_by
  · apply Prod.Lex.right; cases head
    rw [Selection.field.sizeOf_spec, FieldHead.mk.sizeOf_spec]; omega
  · exact Prod.Lex.left _ _ (Scope.unused_cons_lt _fresh _found)
  · apply Prod.Lex.right; rw [Selection.inlineFragment.sizeOf_spec]; omega

def Scope.validateField (scope : Scope) (container : SchemaType) (depth : Nat)
    (path : List String) (head : FieldHead) (selections : List Selection) :
    Except ValidationError RequestField :=
  if !scope.allowsDepth depth then .error (.tooDeep head.position)
  else if head.name = typenameField then typenameSelection head selections
  else do
    let (definition, type) ← scope.resolveField container head selections
    let subfields ← scope.collect type (depth + 1) path [] selections
    let arguments ← checkArguments scope.schema scope.bindings head definition.arguments
    pure ⟨head.alias?, head.name, arguments, subfields⟩
termination_by ((scope.unused path).length, 1 + sizeOf selections)
decreasing_by all_goals (apply Prod.Lex.right; omega)

end

end Request

end GraphQLEngine
