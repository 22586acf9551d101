import GraphQLEngine.Proofs.Requests.Simulation

/-!
# Variables and their values

A document is validated as if the values of its variables were written out in it: in the arguments of
fields, in lists and objects as well, and in the conditions of directives.

    v.graft f                  `v` with `f x` in the place of each variable `x`
    document.fill bindings     the document with the values of the variables written out

Arguments and conditions are judged by what they resolve to, and a value resolves as it does when it is
written out.
-/

namespace GraphQLEngine

/-! ## Values -/

namespace Value

variable {ν μ ε : Type}

mutual

/-- The value with other values in the places of its variables. -/
def graft (f : ν → Value μ) : Value ν → Value μ
  | .variable name => f name
  | .null => .null
  | .number n => .number n
  | .string text => .string text
  | .boolean b => .boolean b
  | .enum name => .enum name
  | .list items => .list (graftItems f items)
  | .object members => .object (graftMembers f members)

def graftItems (f : ν → Value μ) : List (Value ν) → List (Value μ)
  | [] => []
  | v :: vs => graft f v :: graftItems f vs

def graftMembers (f : ν → Value μ) : List (String × Value ν) → List (String × Value μ)
  | [] => []
  | (key, v) :: vs => (key, graft f v) :: graftMembers f vs

end

section

variable (lookup : μ → Except ε Const) (f : ν → Value μ)

mutual

theorem resolve_graft : ∀ v : Value ν,
    (v.graft f).resolve lookup = v.resolve fun x => (f x).resolve lookup
  | .variable _ | .null | .number _ | .string _ | .boolean _ | .enum _ => rfl
  | .list items => by rw [graft, resolve, resolve, resolveItems_graft items]
  | .object members => by rw [graft, resolve, resolve, resolveMembers_graft members]

theorem resolveItems_graft : ∀ vs : List (Value ν),
    resolveItems lookup (graftItems f vs) = resolveItems (fun x => (f x).resolve lookup) vs
  | [] => rfl
  | v :: vs => by
    rw [graftItems, resolveItems, resolveItems, resolve_graft v, resolveItems_graft vs]

theorem resolveMembers_graft : ∀ vs : List (String × Value ν),
    resolveMembers lookup (graftMembers f vs) = resolveMembers (fun x => (f x).resolve lookup) vs
  | [] => rfl
  | (key, v) :: vs => by
    rw [graftMembers, resolveMembers, resolveMembers, resolve_graft v, resolveMembers_graft vs]

end

mutual

/-- What is used is used in the place of a variable. -/
theorem mem_used_graft {x : μ} : ∀ v : Value ν, x ∈ (v.graft f).used → ∃ y ∈ v.used, x ∈ (f y).used
  | .variable y, mem => ⟨y, List.mem_singleton_self y, mem⟩
  | .null, mem | .number _, mem | .string _, mem | .boolean _, mem | .enum _, mem =>
    absurd mem List.not_mem_nil
  | .list items, mem => mem_usedInItems_graft items mem
  | .object members, mem => mem_usedInMembers_graft members mem

theorem mem_usedInItems_graft {x : μ} : ∀ vs : List (Value ν),
    x ∈ usedInItems (graftItems f vs) → ∃ y ∈ usedInItems vs, x ∈ (f y).used
  | [], mem => absurd mem List.not_mem_nil
  | v :: vs, mem => by
    rcases List.mem_append.mp mem with mem | mem
    · exact (mem_used_graft v mem).imp fun _ => .imp_left (List.mem_append_left _)
    · exact (mem_usedInItems_graft vs mem).imp fun _ => .imp_left (List.mem_append_right _)

theorem mem_usedInMembers_graft {x : μ} : ∀ vs : List (String × Value ν),
    x ∈ usedInMembers (graftMembers f vs) → ∃ y ∈ usedInMembers vs, x ∈ (f y).used
  | [], mem => absurd mem List.not_mem_nil
  | (_, v) :: vs, mem => by
    rcases List.mem_append.mp mem with mem | mem
    · exact (mem_used_graft v mem).imp fun _ => .imp_left (List.mem_append_left _)
    · exact (mem_usedInMembers_graft vs mem).imp fun _ => .imp_left (List.mem_append_right _)

end

end

mutual

theorem resolve_const (lookup : Empty → Except ε Const) : ∀ c : Const, c.resolve lookup = .ok c
  | .variable x => nomatch x
  | .null | .number _ | .string _ | .boolean _ | .enum _ => rfl
  | .list items => by rw [resolve, resolveItems_const lookup items]; rfl
  | .object members => by rw [resolve, resolveMembers_const lookup members]; rfl

theorem resolveItems_const (lookup : Empty → Except ε Const) : ∀ cs : List Const,
    resolveItems lookup cs = .ok cs
  | [] => rfl
  | c :: cs => by rw [resolveItems, resolve_const lookup c, resolveItems_const lookup cs]; rfl

theorem resolveMembers_const (lookup : Empty → Except ε Const) : ∀ cs : List (String × Const),
    resolveMembers lookup cs = .ok cs
  | [] => rfl
  | (key, c) :: cs => by
    rw [resolveMembers, resolve_const lookup c, resolveMembers_const lookup cs]; rfl

end

/-- A constant, written where variables are allowed. -/
def literal (c : Const) : Value ν := c.graft fun x => nomatch x

theorem resolve_literal (lookup : ν → Except ε Const) (c : Const) :
    (literal c).resolve lookup = .ok c := by
  rw [literal, resolve_graft, resolve_const]

/-- The value with those of its variables written out; a variable without one is left as it is. -/
def fill (bindings : Variables) (v : Value String) : Value String :=
  v.graft fun name => ((bindings.lookup name).map literal).getD (.variable name)

/-- A variable that is left has no value. -/
theorem lookup_of_used_fill {bindings : Variables} {v : Value String} {x : String}
    (mem : x ∈ (v.fill bindings).used) : bindings.lookup x = none := by
  obtain ⟨y, -, mem⟩ := mem_used_graft _ v mem
  cases value : bindings.lookup y with
  | none =>
    rw [value] at mem
    exact List.mem_singleton.mp mem ▸ value
  | some c =>
    rw [value] at mem
    obtain ⟨z, -⟩ := mem_used_graft _ c mem
    exact nomatch z

/-- A value resolves to a truth value if it is one, or a variable that has one. -/
theorem resolve_eq_boolean {lookup : ν → Except ε Const} {v : Value ν} {b : Bool} :
    v.resolve lookup = .ok (.boolean b) ↔
      v = .boolean b ∨ ∃ x, v = .variable x ∧ lookup x = .ok (.boolean b) := by
  match v with
  | .variable _ | .null | .number _ | .string _ | .boolean _ | .enum _ => simp [resolve]
  | .list items =>
    rw [resolve]
    cases resolveItems lookup items <;> simp [Except.map]
  | .object members =>
    rw [resolve]
    cases resolveMembers lookup members <;> simp [Except.map]

theorem closed?_eq_boolean {v : Value ν} {b : Bool} :
    v.closed?.getD .null = .boolean b ↔ v = .boolean b := by
  have resolved := @resolve_eq_boolean ν Unit (fun _ => .error ()) v b
  simp only [reduceCtorEq, and_false, exists_false, or_false] at resolved
  rw [← resolved, closed?]
  cases v.resolve fun _ => Except.error () <;> simp

end Value

/-! ## Documents -/

section

variable (bindings : Variables)

def Argument.fill (a : Argument) : Argument := { a with value := a.value.fill bindings }

def Directive.fill (d : Directive) : Directive :=
  { d with arguments := d.arguments.map (·.fill bindings) }

def FieldHead.fill (head : FieldHead) : FieldHead :=
  { head with
    arguments := head.arguments.map (·.fill bindings)
    directives := head.directives.map (·.fill bindings) }

mutual

def Selection.fill : Selection → Selection
  | .field head selections => .field (head.fill bindings) (fillAll selections)
  | .spread position name directives => .spread position name (directives.map (·.fill bindings))
  | .inlineFragment position condition directives selections =>
    .inlineFragment position condition (directives.map (·.fill bindings)) (fillAll selections)

def Selection.fillAll : List Selection → List Selection
  | [] => []
  | s :: rest => fill s :: fillAll rest

end

def Operation.fill (o : Operation) : Operation :=
  { o with selections := Selection.fillAll bindings o.selections }

def Operations.fill : Operations → Operations
  | .anonymous o => .anonymous (o.fill bindings)
  | .named os => .named (os.map fun entry => (entry.1, entry.2.fill bindings))

def Fragment.fill (f : Fragment) : Fragment :=
  { f with selections := Selection.fillAll bindings f.selections }

/-- The document with the values of its variables written out, in arguments and in directives. -/
def Document.fill (document : Document) : Document :=
  ⟨document.operations.fill bindings, document.fragments.map (·.fill bindings)⟩

end

section

variable {bindings : Variables}

theorem Selection.directives_fill (s : Selection) :
    (s.fill bindings).directives = s.directives.map (·.fill bindings) := by
  cases s <;> rfl

/-- The selections are those of a filled document. -/
abbrev Selection.Filled (bindings : Variables) (s s' : Selection) : Prop := s' = s.fill bindings

theorem Selection.filled_fillAll (selections : List Selection) :
    List.Forall₂ (Filled bindings) selections (fillAll bindings selections) := by
  induction selections with
  | nil => exact .nil
  | cons s rest ih => exact .cons rfl ih

theorem Fragment.follow_fill (fragments : List Fragment) :
    List.Forall₂ (Follows (Selection.Filled bindings)) fragments (fragments.map (·.fill bindings)) :=
  List.forall₂_map_right_iff.mpr
    (List.forall₂_same.mpr fun f _ => ⟨rfl, rfl, Selection.filled_fillAll f.selections⟩)

theorem Document.follows_fill (document : Document) :
    document.Follows (Selection.Filled bindings) (document.fill bindings) := by
  have operation (o : Operation) : o.Follows (Selection.Filled bindings) (o.fill bindings) :=
    ⟨rfl, rfl, Selection.filled_fillAll _⟩
  have named (os : OrderedMap Operation) :
      (Operations.named os).Follows (Selection.Filled bindings) ((Operations.named os).fill bindings) :=
    .named (List.forall₂_map_right_iff.mpr
      (List.forall₂_same.mpr fun entry _ => ⟨rfl, operation entry.2⟩))
  obtain ⟨operations, fragments⟩ := document
  constructor
  case operations =>
    cases operations with
    | anonymous o => exact .anonymous (operation o)
    | named os => exact named os
  case fragments => exact Fragment.follow_fill fragments

end

/-! ## Arguments -/

namespace Request

section

variable {bindings : Variables}

theorem resolveVariables_fill (position : Position) (v : Value String) :
    resolveVariables bindings position (v.fill bindings) = resolveVariables bindings position v := by
  unfold resolveVariables Value.fill
  rw [Value.resolve_graft]
  congr
  funext name
  cases value : bindings.lookup name with
  | none => simp only [Option.map_none, Option.getD_none, Value.resolve, value]
  | some c => simp only [Option.map_some, Option.getD_some, Value.resolve_literal]

/-- The supplied arguments with the values of their variables written out. -/
def fillSupplied (bindings : Variables) (supplied : OrderedMap Argument) : OrderedMap Argument :=
  supplied.map fun entry => (entry.1, entry.2.fill bindings)

theorem suppliedArguments_fill (arguments : List Argument) :
    suppliedArguments (arguments.map (·.fill bindings)) =
      fillSupplied bindings (suppliedArguments arguments) := by
  induction arguments using List.reverseRecOn with
  | nil => rfl
  | append_singleton before a ih =>
    unfold suppliedArguments at ih ⊢
    simp only [List.map_append, List.map_singleton, OrderedMap.ofEntries_concat, ih]
    exact (OrderedMap.map_insert (Argument.fill bindings) _ _ _).symm

theorem lookup_fillSupplied (supplied : OrderedMap Argument) (name : String) :
    (fillSupplied bindings supplied).lookup name =
      (supplied.lookup name).map (Argument.fill bindings) :=
  lookup_map_snd (fun _ => Argument.fill bindings) supplied name

theorem erase_fillSupplied (supplied : OrderedMap Argument) (name : String) :
    OrderedMap.erase (fillSupplied bindings supplied) name =
      fillSupplied bindings (supplied.erase name) :=
  List.filter_map

theorem keys_fillSupplied (supplied : OrderedMap Argument) :
    OrderedMap.keys (fillSupplied bindings supplied) = supplied.keys :=
  List.map_map

/-- Whether the values are written out makes no difference to the declared arguments. -/
theorem checkDeclared_fill (schema : Schema) (position : Position)
    (definitions : OrderedMap ArgumentDefinition) (supplied : OrderedMap Argument) :
    checkDeclared schema bindings position definitions (fillSupplied bindings supplied) =
      (checkDeclared schema bindings position definitions supplied).map
        fun out => (out.1, fillSupplied bindings out.2) := by
  induction definitions generalizing supplied with
  | nil => rfl
  | cons entry rest ih =>
    obtain ⟨name, d⟩ := entry
    rw [checkDeclared, checkDeclared, lookup_fillSupplied]
    cases supplied.lookup name with
    | none =>
      simp only [Option.map_none]
      split
      · rfl
      · exact ih supplied
    | some a =>
      have resolved : resolveVariables bindings a.position (a.fill bindings).value =
          resolveVariables bindings a.position a.value := resolveVariables_fill a.position a.value
      have same : (a.fill bindings).position = a.position := rfl
      simp only [Option.map_some, same, resolved, erase_fillSupplied, ih, bind, Except.bind]
      cases resolveVariables bindings a.position a.value with
      | error fault => rfl
      | ok value =>
        simp only
        cases checkValue schema name a.position d.type value with
        | error fault => rfl
        | ok _ => cases checkDeclared schema bindings position rest (supplied.erase name) <;> rfl

theorem checkArguments_fill (schema : Schema) (head : FieldHead)
    (definitions : OrderedMap ArgumentDefinition) :
    checkArguments schema bindings (head.fill bindings) definitions =
      checkArguments schema bindings head definitions := by
  unfold checkArguments
  have supplied : suppliedArguments (head.fill bindings).arguments =
      fillSupplied bindings (suppliedArguments head.arguments) := suppliedArguments_fill _
  have position : (head.fill bindings).position = head.position := rfl
  have name : (head.fill bindings).name = head.name := rfl
  rw [supplied, position, checkDeclared_fill, name]
  cases checkDeclared schema bindings head.position definitions
      (suppliedArguments head.arguments) with
  | error fault => rfl
  | ok out =>
    obtain ⟨checked, left⟩ := out
    have empty : (fillSupplied bindings left).isEmpty = left.isEmpty := by cases left <;> rfl
    simp only [Except.map, bind, Except.bind, empty, keys_fillSupplied]

end

/-- The scope of the document with the values written out. -/
def Scope.fill (scope : Scope) : Scope :=
  { scope with fragments := scope.fragments.map (·.fill scope.bindings) }

/-! ## Directives -/

section

variable {scope : Scope}

/-- What a condition with the value comes to. -/
def truthOf (position : Position) : Const → Except ValidationError Bool
  | .boolean b => .ok b
  | other => .error (.argumentType "if" "Boolean!" (Const.render other) position)

theorem truthOf_iff (position : Position) (c : Const) {b : Bool} :
    truthOf position c = .ok b ↔ c = .boolean b := by
  cases c <;> simp [truthOf]

/-- A condition is decided by what the argument `if` resolves to. -/
theorem condition_iff {d : Directive} {b : Bool} :
    scope.condition d = .ok b ↔ ∃ a, d.arguments.find? (·.name = "if") = some a ∧
      resolveVariables scope.bindings a.position a.value = .ok (.boolean b) := by
  unfold Scope.condition
  cases d.arguments.find? (·.name = "if") with
  | none => simp [throw, throwThe, MonadExceptOf.throw]
  | some a =>
    simp only [Option.some.injEq, exists_eq_left', resolveVariables, Value.resolve_eq_boolean]
    split
    · next x eq =>
      rw [eq]
      split
      · next c found =>
        refine (truthOf_iff a.position c).trans ?_
        simp [found]
      · next unknown => simp [bind, Except.bind, throw, throwThe, MonadExceptOf.throw, unknown]
    · next other =>
      refine (truthOf_iff a.position _).trans (Value.closed?_eq_boolean.trans ⟨.inl, ?_⟩)
      rintro (eq | ⟨x, eq, -⟩)
      · exact eq
      · exact absurd eq (other x)

theorem condition_fill (d : Directive) {b : Bool} :
    scope.fill.condition (d.fill scope.bindings) = .ok b ↔ scope.condition d = .ok b := by
  rw [condition_iff, condition_iff, Directive.fill, List.find?_map]
  simp only [Option.map_eq_some_iff]
  constructor
  · rintro ⟨_, ⟨a, found, rfl⟩, resolved⟩
    exact ⟨a, found, (resolveVariables_fill a.position a.value).symm.trans resolved⟩
  · rintro ⟨a, found, resolved⟩
    exact ⟨_, ⟨a, found, rfl⟩, (resolveVariables_fill a.position a.value).trans resolved⟩

theorem isIncluded_fill (directives : List Directive) {b : Bool} :
    scope.fill.isIncluded (directives.map (·.fill scope.bindings)) = .ok b ↔
      scope.isIncluded directives = .ok b := by
  have related : List.Forall₂ (fun d d' : Directive => d' = d.fill scope.bindings) directives
      (directives.map (·.fill scope.bindings)) :=
    List.forall₂_map_right_iff.mpr (List.forall₂_same.mpr fun _ _ => rfl)
  constructor
  · refine isIncluded_of_conditions (related.flip.imp ?_)
    rintro _ d rfl
    exact ⟨rfl, fun _ => (condition_fill d).mp⟩
  · refine isIncluded_of_conditions (related.imp ?_)
    rintro d _ rfl
    exact ⟨rfl, fun _ => (condition_fill d).mpr⟩

end

/-! ## Collection -/

section

variable (scope : Scope)

/-- What is collected is also collected with the values written out. -/
theorem simulates_fill : Simulates (Selection.Filled scope.bindings) scope scope.fill where
  schema := rfl
  depth _ allowed := allowed
  included := by
    rintro s _ b rfl decided
    rw [Selection.directives_fill]
    exact (isIncluded_fill s.directives).mpr decided
  field := by
    rintro head selections _ rfl
    refine ⟨head.fill scope.bindings, _, by rw [Selection.fill], ⟨rfl, rfl, rfl, ?_, ?_⟩,
      Selection.filled_fillAll selections⟩
    · exact fun bare => List.map_eq_nil_iff.mpr bare
    · exact fun definitions args checked => (checkArguments_fill _ head definitions).trans checked
  contents := by
    rintro s _ condition inside rfl found
    cases s with
    | field => cases found
    | spread =>
      rw [Selection.fill]
      exact contents?_of_follows (Fragment.follow_fill scope.fragments) found
    | inlineFragment =>
      cases found
      rw [Selection.fill]
      exact ⟨_, rfl, Selection.filled_fillAll _⟩

/-- What is collected with the values written out was collected before. -/
theorem simulates_unfilled :
    Simulates (flip (Selection.Filled scope.bindings)) scope.fill scope where
  schema := rfl
  depth _ allowed := allowed
  included := by
    rintro _ s b rfl decided
    rw [Selection.directives_fill] at decided
    exact (isIncluded_fill s.directives).mp decided
  field := by
    rintro head' selections' s eq
    cases s with
    | field head selections =>
      rw [flip, Selection.Filled, Selection.fill] at eq
      cases eq
      refine ⟨head, selections, rfl, ⟨rfl, rfl, rfl, ?_, ?_⟩, (Selection.filled_fillAll selections).flip⟩
      · exact fun bare => List.map_eq_nil_iff.mp bare
      · exact fun definitions args checked => (checkArguments_fill _ head definitions).symm.trans checked
    | spread | inlineFragment =>
      rw [flip, Selection.Filled, Selection.fill] at eq
      cases eq
  contents := by
    rintro _ s condition inside rfl found
    cases s with
    | field =>
      rw [Selection.fill] at found
      cases found
    | spread =>
      rw [Selection.fill] at found
      exact contents?_of_follows (Fragment.follow_flip (Fragment.follow_fill scope.fragments)) found
    | inlineFragment =>
      rw [Selection.fill] at found
      cases found
      exact ⟨_, rfl, (Selection.filled_fillAll _).flip⟩

end

/-! ## Validation -/

section

variable {schema : Schema} {limit : Option Nat} {document : Document} {name : Option String}
  {supplied : OrderedMap Json} {o : Operation} {scope : Scope}

/-- With the values written out the same operation is run, with the same values. -/
theorem Chooses.fill (chosen : Chooses schema limit document name supplied o scope) :
    ∃ o', Chooses schema limit (document.fill scope.bindings) name supplied o' scope.fill := by
  obtain ⟨chosen, bound⟩ := chosen
  obtain ⟨o', chosen', follows⟩ := chooseOperation_of_follows document.follows_fill.operations chosen
  rw [← follows.definitions] at bound
  exact ⟨o', .intro chosen' bound⟩

/-- A document is validated as it is with the values of the variables written out, by which no use of
a declared variable is left. -/
theorem variables_mean_values (chosen : Chooses schema limit document name supplied o scope) :
    (∀ r, ofDocument schema limit document name supplied = .ok r ↔
      ofDocument schema limit (document.fill scope.bindings) name supplied = .ok r) ∧
    ∀ (v : Value String), ∀ x ∈ (v.fill scope.bindings).used, ∀ d ∈ o.variableDefinitions,
      d.name ≠ x := by
  refine ⟨fun r => ⟨?forth, ?back⟩, ?left⟩
  case forth =>
    refine ofDocument_of_simulates document.follows_fill fun o' scope' chosen' => ?_
    obtain ⟨-, rfl⟩ := chosen.unique chosen'
    obtain ⟨-, -⟩ := chosen
    exact simulates_fill _
  case back =>
    refine ofDocument_of_simulates document.follows_fill.flip fun o' scope' chosen' => ?_
    obtain ⟨_, filled⟩ := chosen.fill
    obtain ⟨-, rfl⟩ := filled.unique chosen'
    obtain ⟨-, -⟩ := chosen
    exact simulates_unfilled _
  case left =>
    rintro v x used d declared rfl
    obtain ⟨-, bound⟩ := chosen
    obtain ⟨entry, mem, same⟩ := List.mem_map.mp ((mem_variableValues bound).mpr ⟨d, declared, rfl⟩)
    have unknown := List.lookup_eq_none_iff.mp (Value.lookup_of_used_fill used) entry mem
    simp [same] at unknown

end

end Request

namespace Search

/-- The selections `__typename @include(if: quiet)` and
`search(sizes: [3, size], order: order, after: after, label: {tags: [label]}) @skip(if: quiet)`. -/
def selections (size order after label quiet : Value String) : List Selection :=
  [.field ⟨.nowhere, none, typenameField, [], [⟨.nowhere, "include", [⟨"if", .nowhere, quiet⟩]⟩]⟩ [],
    .field ⟨.nowhere, none, "search",
      [⟨"sizes", .nowhere, .list [.number (.int 3), size]⟩, ⟨"order", .nowhere, order⟩,
        ⟨"after", .nowhere, after⟩, ⟨"label", .nowhere, .object [("tags", .list [label])]⟩],
      [⟨.nowhere, "skip", [⟨"if", .nowhere, quiet⟩]⟩]⟩ []]

/-- The variables `$size: Int = 5`, `$order: Order`, `$after: ID = "a"`, `$label: Label` and
`$quiet: Boolean!`. -/
def definitions : List VariableDefinition :=
  [⟨"size", .nowhere, .named "Int", some (.number (.int 5))⟩, ⟨"order", .nowhere, .named "Order", none⟩,
    ⟨"after", .nowhere, .named "ID", some (.string "a")⟩, ⟨"label", .nowhere, .named "Label", none⟩,
    ⟨"quiet", .nowhere, (TypeRef.named "Boolean").toNonNull, none⟩]

def document (selections : List Selection) : Document :=
  ⟨.anonymous ⟨.nowhere, .query, definitions, [], selections⟩, []⟩

/-- The enum value is a text, `after` is null, and `label` is omitted. -/
def supplied : OrderedMap Json :=
  [("quiet", .bool false), ("order", .str "DOWN"), ("after", .null)]

def values : Variables :=
  [("size", .number (.int 5)), ("order", .string "DOWN"), ("after", .null), ("label", .null),
    ("quiet", .boolean false)]

def withVariables : Document :=
  document (selections (.variable "size") (.variable "order") (.variable "after") (.variable "label")
    (.variable "quiet"))

def withValues : Document :=
  document (selections (.number (.int 5)) (.string "DOWN") .null .null (.boolean false))

theorem variables_mean_values_search :
    ∃ r, Request.ofDocument schema (some 1) withVariables none supplied = .ok r ∧
      Request.ofDocument schema (some 1) withValues none supplied = .ok r := by
  have bound : Request.variableValues supplied definitions = .ok values := by cbv
  have accepted : (Request.ofDocument schema (some 1) withVariables none
      supplied).toOption.isSome = true := by cbv
  cases validated : Request.ofDocument schema (some 1) withVariables none supplied with
  | error fault =>
    rw [validated] at accepted
    cases accepted
  | ok r =>
    have chosen : Request.Chooses schema (some 1) withVariables none supplied _ _ := .intro rfl bound
    obtain ⟨same, -⟩ := Request.variables_mean_values chosen
    exact ⟨r, rfl, (same r).mp validated⟩

end Search

end GraphQLEngine
