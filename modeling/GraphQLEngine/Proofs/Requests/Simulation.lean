import GraphQLEngine.Proofs.Requests.Arguments
import GraphQLEngine.Proofs.Requests.Expansion

/-!
# Selections that follow each other

The names of the fragments that are being spread serve to refuse cycles, and for nothing else.
Selections that expand by the rules in finitely many steps have no cycle, so what the rules give is
what is collected.

    scope.collect container depth [] fields selections = .ok out  ↔
      scope.Expands container depth fields selections out

So two documents are collected alike if their selections follow each other rule by rule:

    Simulates R scope scope' → List.Forall₂ R selections selections' →
      scope.Expands … selections out → scope'.Expands … selections' out
-/

namespace GraphQLEngine

namespace Request

namespace Scope

variable {scope : Scope} {container : SchemaType} {depth : Nat} {path : List String}
  {fields mid out : List RequestField}

/-! ## From the rules to the collection -/

theorem collect_cons {s : Selection} {rest : List Selection}
    (one : scope.collectOne container depth path fields s = .ok mid)
    (others : scope.collect container depth path mid rest = .ok out) :
    scope.collect container depth path fields (s :: rest) = .ok out := by
  rw [collect]
  exact (bind_of_ok one).trans others

theorem not_reenters_rest {s : Selection} {rest : List Selection}
    (fresh : ¬ scope.Reenters path (s :: rest)) : ¬ scope.Reenters path rest :=
  fun again => fresh (again.mono fun _ => List.mem_cons_of_mem _)

/-- What expands is collected, unless it leads to a fragment that is being spread. -/
theorem Expands.collect {selections : List Selection}
    (h : scope.Expands container depth fields selections out)
    (fresh : ¬ scope.Reenters path selections) :
    scope.collect container depth path fields selections = .ok out := by
  induction h generalizing path with
  | nil => rw [Scope.collect]
  | @excluded container depth fields out s rest decided _ ih =>
    have one : scope.collectOne container depth path fields s = .ok fields := by
      cases s with
      | field | spread | inlineFragment =>
        rw [collectOne]
        exact bind_of_ok decided
    exact collect_cons one (ih (not_reenters_rest fresh))
  | @typename container depth fields mid out head rest included allowed typename plain merged _ ih =>
    have validated : scope.validateField container depth path head [] =
        .ok ⟨head.alias?, head.name, [], []⟩ := by
      rw [validateField, allowed, if_pos typename, typenameSelection, plain]
      rfl
    have one : scope.collectOne container depth path fields (.field head []) = .ok mid := by
      rw [collectOne]
      exact (bind_of_ok included).trans ((bind_of_ok validated).trans merged)
    exact collect_cons one (ih (not_reenters_rest fresh))
  | @field container type depth fields mid out subfields head selections rest d arguments included
      allowed declared resolved _ checked merged _ ih ih' =>
    have beneath := ih fun again =>
      fresh (.field List.mem_cons_self (includes_of_included included) again)
    have validated : scope.validateField container depth path head selections =
        .ok ⟨head.alias?, head.name, arguments, subfields⟩ := by
      rw [validateField, allowed, if_neg declared]
      exact (bind_of_ok resolved).trans ((bind_of_ok beneath).trans (bind_of_ok checked))
    have one : scope.collectOne container depth path fields (.field head selections) = .ok mid := by
      rw [collectOne]
      exact (bind_of_ok included).trans ((bind_of_ok validated).trans merged)
    exact collect_cons one (ih' (not_reenters_rest fresh))
  | @contents container depth fields mid out s condition inside rest included found applies _ _ ih
      ih' =>
    have includes := includes_of_included included
    have one : scope.collectOne container depth path fields s = .ok mid := by
      cases s with
      | field => cases found
      | spread position name directives =>
        obtain ⟨fragment, defined, eq⟩ := Option.map_eq_some_iff.mp found
        cases eq
        have entered : name ∉ path := fun again =>
          fresh (.again List.mem_cons_self includes again)
        have beneath := ih fun again => fresh (.spread List.mem_cons_self includes defined again)
        rw [collectOne]
        refine (bind_of_ok included).trans ?_
        simp only [if_true, dif_neg entered]
        split
        · next missing => cases missing.symm.trans defined
        · next fragment' defined' =>
          cases defined'.symm.trans defined
          exact (bind_of_ok (checkCondition_iff.mpr (applies _ rfl))).trans beneath
      | inlineFragment position condition' directives selections =>
        cases found
        have beneath := ih fun again =>
          fresh (.inlineFragment List.mem_cons_self includes again)
        rw [collectOne]
        refine (bind_of_ok included).trans ?_
        cases condition with
        | none => exact beneath
        | some c => exact (bind_of_ok (checkCondition_iff.mpr (applies c rfl))).trans beneath
    exact collect_cons one (ih' (not_reenters_rest fresh))

/-! ## Cycles -/

/-- The selections `inside` are those of an included field among `among`, or the contents of an
included fragment. -/
def Beneath (scope : Scope) (among inside : List Selection) : Prop :=
  ∃ s ∈ among, scope.Includes s.directives ∧
    ((∃ head, s = .field head inside) ∨ ∃ condition, scope.contents? s = some (condition, inside))

theorem not_beneath_nil {inside : List Selection} : ¬ scope.Beneath [] inside := by
  rintro ⟨_, mem, -⟩
  cases mem

/-- Somewhere beneath the selections there is an included spread of the fragment. -/
def LeadsTo (scope : Scope) (selections : List Selection) (name : String) : Prop :=
  ∃ among, Relation.ReflTransGen scope.Beneath selections among ∧
    ∃ position directives, .spread position name directives ∈ among ∧ scope.Includes directives

theorem LeadsTo.up {selections inside : List Selection} {name : String}
    (h : scope.LeadsTo inside name) (down : scope.Beneath selections inside) :
    scope.LeadsTo selections name :=
  h.imp fun _ found => found.imp_left (.head down)

/-- A fragment whose contents lead to it lies beneath its own contents. -/
theorem LeadsTo.cycle {fragment : Fragment} {name : String}
    (h : scope.LeadsTo fragment.selections name)
    (defined : Document.fragment? scope.fragments name = some fragment) :
    Relation.TransGen scope.Beneath fragment.selections fragment.selections := by
  obtain ⟨among, down, position, directives, mem, includes⟩ := h
  have back : scope.Beneath among fragment.selections :=
    ⟨_, mem, includes, .inr ⟨some fragment.condition, by rw [contents?, defined]; rfl⟩⟩
  exact Relation.TransGen.tail' down back

/-- Selections that lead into a fragment from inside lead to one of the fragments that are being spread,
or to selections that lie beneath themselves. -/
theorem Reenters.cases_cycle {names : List String} {selections : List Selection}
    (h : scope.Reenters names selections) :
    (∃ name ∈ names, scope.LeadsTo selections name) ∨
      ∃ body, Relation.ReflTransGen scope.Beneath selections body ∧
        Relation.TransGen scope.Beneath body body := by
  have lift : ∀ {names : List String} {selections inside : List Selection},
      scope.Beneath selections inside →
      ((∃ name ∈ names, scope.LeadsTo inside name) ∨
        ∃ body, Relation.ReflTransGen scope.Beneath inside body ∧
          Relation.TransGen scope.Beneath body body) →
      (∃ name ∈ names, scope.LeadsTo selections name) ∨
        ∃ body, Relation.ReflTransGen scope.Beneath selections body ∧
          Relation.TransGen scope.Beneath body body :=
    fun down => Or.imp (fun ⟨name, mem, leads⟩ => ⟨name, mem, leads.up down⟩)
      fun ⟨body, reached, cycle⟩ => ⟨body, .head down reached, cycle⟩
  induction h with
  | @again names among position name directives mem includes entered =>
    exact .inl ⟨name, entered, among, .refl, position, directives, mem, includes⟩
  | @field names among selections head mem includes _ ih =>
    exact lift ⟨_, mem, includes, .inl ⟨head, rfl⟩⟩ ih
  | @inlineFragment names among selections position condition directives mem includes _ ih =>
    exact lift ⟨_, mem, includes, .inr ⟨condition, rfl⟩⟩ ih
  | @spread names among position name directives fragment mem includes defined _ ih =>
    have down : scope.Beneath among fragment.selections :=
      ⟨_, mem, includes, .inr ⟨some fragment.condition, by rw [contents?, defined]; rfl⟩⟩
    rcases ih with ⟨n, entered, leads⟩ | cycle
    · rcases List.mem_cons.mp entered with rfl | entered
      · exact .inr ⟨fragment.selections, .single down, leads.cycle defined⟩
      · exact .inl ⟨n, entered, leads.up down⟩
    · exact lift down (.inr cycle)

/-- Selections that expand have finitely many levels beneath them. -/
theorem Expands.acc {selections : List Selection}
    (h : scope.Expands container depth fields selections out) :
    Acc (fun inside among => scope.Beneath among inside) selections := by
  have cons : ∀ {s : Selection} {rest : List Selection},
      (∀ inside, scope.Includes s.directives → ((∃ head, s = .field head inside) ∨
        ∃ condition, scope.contents? s = some (condition, inside)) →
        Acc (fun inside among => scope.Beneath among inside) inside) →
      Acc (fun inside among => scope.Beneath among inside) rest →
      Acc (fun inside among => scope.Beneath among inside) (s :: rest) := by
    intro s rest first others
    refine .intro _ ?_
    rintro inside ⟨s', mem, includes, shape⟩
    rcases List.mem_cons.mp mem with rfl | mem
    · exact first inside includes shape
    · exact others.inv ⟨s', mem, includes, shape⟩
  induction h with
  | nil => exact .intro _ fun _ down => absurd down not_beneath_nil
  | excluded decided _ ih =>
    refine cons (fun _ includes _ => ?_) ih
    cases (includes_iff decided).mpr includes
  | typename _ _ _ _ _ _ ih =>
    refine cons (fun inside _ shape => ?_) ih
    rcases shape with ⟨head, eq⟩ | ⟨_, found⟩
    · cases eq
      exact .intro _ fun _ down => absurd down not_beneath_nil
    · cases found
  | field _ _ _ _ _ _ _ _ ih ih' =>
    refine cons (fun inside _ shape => ?_) ih'
    rcases shape with ⟨head, eq⟩ | ⟨_, found⟩
    · cases eq
      exact ih
    · cases found
  | contents _ found _ _ _ ih ih' =>
    refine cons (fun inside _ shape => ?_) ih'
    rcases shape with ⟨head, rfl⟩ | ⟨_, found'⟩
    · cases found
    · cases found.symm.trans found'
      exact ih

/-- What has finitely many levels beneath it does not lie beneath itself. -/
theorem not_cycle_of_acc {α : Type} {r : α → α → Prop} {a : α} (acc : Acc (fun b a => r a b) a) :
    ¬ Relation.TransGen r a a := by
  induction acc with
  | intro a _ ih =>
    intro cycle
    obtain ⟨b, first, back⟩ := Relation.TransGen.head'_iff.mp cycle
    exact ih b first (Relation.TransGen.tail' back first)

/-- Selections that expand do not lead into a fragment from inside. -/
theorem Expands.not_reenters {selections : List Selection}
    (h : scope.Expands container depth fields selections out) : ¬ scope.Reenters [] selections := by
  intro again
  rcases again.cases_cycle with ⟨_, mem, -⟩ | ⟨body, reached, cycle⟩
  · cases mem
  · have acc : Acc (fun inside among => scope.Beneath among inside) body := by
      clear cycle
      induction reached with
      | refl => exact h.acc
      | tail _ down ih => exact ih.inv down
    exact not_cycle_of_acc acc cycle

/-- What is collected is what the rules give. -/
theorem collect_iff {selections : List Selection} :
    scope.collect container depth [] fields selections = .ok out ↔
      scope.Expands container depth fields selections out :=
  ⟨expands_of_collect scope container depth [] fields selections, fun h => h.collect h.not_reenters⟩

end Scope

/-! ## Selections that follow each other -/

/-- A field is selected under the same name in two scopes, and its arguments are accepted in the second
as they are in the first. -/
structure SameField (scope scope' : Scope) (head head' : FieldHead) : Prop where
  position : head'.position = head.position
  alias? : head'.alias? = head.alias?
  name : head'.name = head.name
  bare : head.arguments = [] → head'.arguments = []
  arguments : ∀ definitions args,
    checkArguments scope.schema scope.bindings head definitions = .ok args →
    checkArguments scope'.schema scope'.bindings head' definitions = .ok args

/-- Whatever a rule says of a selection in the first scope, it says of the selections that are related
to it in the second. -/
structure Simulates (R : Selection → Selection → Prop) (scope scope' : Scope) : Prop where
  schema : scope'.schema = scope.schema
  depth : ∀ depth, scope.allowsDepth depth = true → scope'.allowsDepth depth = true
  included : ∀ {s s' : Selection} {b : Bool}, R s s' → scope.isIncluded s.directives = .ok b →
    scope'.isIncluded s'.directives = .ok b
  field : ∀ {head : FieldHead} {selections : List Selection} {s' : Selection},
    R (.field head selections) s' → ∃ head' selections', s' = .field head' selections' ∧
      SameField scope scope' head head' ∧ List.Forall₂ R selections selections'
  contents : ∀ {s s' : Selection} {condition : Option String} {inside : List Selection}, R s s' →
    scope.contents? s = some (condition, inside) →
    ∃ inside', scope'.contents? s' = some (condition, inside') ∧ List.Forall₂ R inside inside'

theorem Scope.resolveField_congr {scope scope' : Scope} {container : SchemaType}
    {head head' : FieldHead} {selections selections' : List Selection}
    (schema : scope'.schema = scope.schema) (name : head'.name = head.name)
    (position : head'.position = head.position)
    (empty : selections'.isEmpty = selections.isEmpty) :
    scope'.resolveField container head' selections' = scope.resolveField container head selections := by
  unfold Scope.resolveField
  rw [schema, name, position, empty]

namespace Simulates

variable {R : Selection → Selection → Prop} {scope scope' : Scope}

/-- Selections that are related to others expand as these do. -/
theorem expands (sim : Simulates R scope scope') {container : SchemaType} {depth : Nat}
    {fields out : List RequestField} {selections selections' : List Selection}
    (h : scope.Expands container depth fields selections out)
    (related : List.Forall₂ R selections selections') :
    scope'.Expands container depth fields selections' out := by
  induction h generalizing selections' with
  | nil =>
    cases related
    exact .nil
  | excluded decided _ ih =>
    cases related with
    | cons first others => exact .excluded (sim.included first decided) (ih others)
  | @typename _ _ _ _ _ head _ included allowed typename plain merged _ ih =>
    cases related with
    | cons first others =>
      have decided := sim.included first included
      obtain ⟨head', selections', rfl, same, beneath⟩ := sim.field first
      cases beneath
      rw [← same.position, ← same.alias?, ← same.name] at merged
      exact .typename decided (sim.depth _ allowed) (same.name.trans typename) (same.bare plain) merged
        (ih others)
  | @field _ _ _ _ _ _ _ _ selections _ _ _ included allowed declared resolved _ checked merged _ ih ih' =>
    cases related with
    | cons first others =>
      have decided := sim.included first included
      obtain ⟨head', selections', rfl, same, beneath⟩ := sim.field first
      have empty : selections'.isEmpty = selections.isEmpty := by cases beneath <;> rfl
      rw [← Scope.resolveField_congr sim.schema same.name same.position empty] at resolved
      rw [← same.position, ← same.alias?, ← same.name] at merged
      exact .field decided (sim.depth _ allowed) (same.name ▸ declared) resolved (ih beneath)
        (same.arguments _ _ checked) merged (ih' others)
  | contents included found applies _ _ ih ih' =>
    cases related with
    | cons first others =>
      obtain ⟨inside', found', beneath⟩ := sim.contents first found
      exact .contents (sim.included first included) found' applies (ih beneath) (ih' others)

end Simulates

/-! ## Documents -/

/-- The request that a document is validated as. -/
theorem ofDocument_iff {schema : Schema} {limit : Option Nat} {document : Document}
    {name : Option String} {supplied : OrderedMap Json} {r : Request} :
    ofDocument schema limit document name supplied = .ok r ↔
      ∃ n o container bindings fields, chooseOperation document.operations name = .ok (n, o) ∧
        (schema.root? o.kind).bind schema.type? = some container ∧
        variableValues supplied o.variableDefinitions = .ok bindings ∧
        Scope.Expands ⟨schema, bindings, document.fragments, limit⟩ container 1 [] o.selections fields ∧
        (o.kind = .subscription → fields.length = 1) ∧ r = ⟨n, o.kind, fields⟩ := by
  constructor
  · intro h
    obtain ⟨⟨n, o⟩, chosen, h⟩ := bind_ok h
    simp only [ofOperation] at h
    split at h
    · next container found =>
      obtain ⟨bindings, bound, h⟩ := bind_ok h
      obtain ⟨fields, collected, h⟩ := bind_ok h
      split at h
      · obtain ⟨_, refused, -⟩ := bind_ok h
        cases refused
      · next single =>
        cases h
        exact ⟨n, o, container, bindings, fields, chosen, found, bound, Scope.collect_iff.mp collected,
          fun kind => by_contra fun several => single ⟨kind, several⟩, rfl⟩
    · cases h
  · rintro ⟨n, o, container, bindings, fields, chosen, found, bound, expands, single, rfl⟩
    refine (bind_of_ok chosen).trans ?_
    simp only [ofOperation, found]
    refine (bind_of_ok bound).trans ((bind_of_ok (Scope.collect_iff.mpr expands)).trans ?_)
    rw [if_neg fun several => several.2 (single several.1)]
    rfl

end Request

/-! ### Documents that follow each other -/

/-- The operations have one kind and the same variables, and their selections are related. -/
structure Operation.Follows (R : Selection → Selection → Prop) (o o' : Operation) : Prop where
  kind : o'.kind = o.kind
  definitions : o'.variableDefinitions = o.variableDefinitions
  selections : List.Forall₂ R o.selections o'.selections

/-- Both have operations of the same names, and their selections are related. -/
inductive Operations.Follows (R : Selection → Selection → Prop) : Operations → Operations → Prop
  | anonymous {o o' : Operation} : o.Follows R o' → Follows R (.anonymous o) (.anonymous o')
  | named {os os' : OrderedMap Operation} :
    List.Forall₂ (fun entry entry' => entry'.1 = entry.1 ∧ entry.2.Follows R entry'.2) os os' →
    Follows R (.named os) (.named os')

/-- The fragments have one name and one type, and their selections are related. -/
structure Fragment.Follows (R : Selection → Selection → Prop) (f f' : Fragment) : Prop where
  name : f'.name = f.name
  condition : f'.condition = f.condition
  selections : List.Forall₂ R f.selections f'.selections

/-- The documents have the same operations and fragments, but for selections that are related. -/
structure Document.Follows (R : Selection → Selection → Prop) (document document' : Document) :
    Prop where
  operations : document.operations.Follows R document'.operations
  fragments : List.Forall₂ (Fragment.Follows R) document.fragments document'.fragments

section

variable {R : Selection → Selection → Prop}

theorem Operation.Follows.flip {o o' : Operation} (h : o.Follows R o') : o'.Follows (flip R) o :=
  ⟨h.kind.symm, h.definitions.symm, h.selections.flip⟩

theorem Operations.Follows.flip {os os' : Operations} (h : os.Follows R os') :
    os'.Follows (flip R) os := by
  cases h with
  | anonymous follows => exact .anonymous follows.flip
  | named follows =>
    exact .named (follows.flip.imp fun _ _ ⟨name, follows⟩ => ⟨name.symm, follows.flip⟩)

theorem Fragment.Follows.flip {f f' : Fragment} (h : f.Follows R f') : f'.Follows (flip R) f :=
  ⟨h.name.symm, h.condition.symm, h.selections.flip⟩

theorem Fragment.follow_flip {fragments fragments' : List Fragment}
    (follow : List.Forall₂ (Follows R) fragments fragments') :
    List.Forall₂ (Follows (flip R)) fragments' fragments :=
  follow.flip.imp fun _ _ follows => follows.flip

theorem Document.Follows.flip {document document' : Document} (h : document.Follows R document') :
    document'.Follows (flip R) document :=
  ⟨h.operations.flip, Fragment.follow_flip h.fragments⟩

/-- A fragment of the first document has one of the same name in the second. -/
theorem Document.fragment?_of_follows {fragments fragments' : List Fragment}
    (follow : List.Forall₂ (Fragment.Follows R) fragments fragments') {name : String} {f : Fragment}
    (found : fragment? fragments name = some f) :
    ∃ f', fragment? fragments' name = some f' ∧ f.Follows R f' := by
  unfold fragment? at found ⊢
  induction follow with
  | nil => cases found
  | @cons g g' _ _ first _ ih =>
    rw [List.find?_cons] at found ⊢
    rw [first.name]
    split at found
    · next same =>
      cases found
      exact ⟨g', rfl, first⟩
    · next other => exact ih found

end

namespace Request

variable {R : Selection → Selection → Prop}

theorem lookup_of_follows {os os' : OrderedMap Operation}
    (follow : List.Forall₂ (fun entry entry' => entry'.1 = entry.1 ∧ entry.2.Follows R entry'.2) os os')
    {name : String} {o : Operation} (found : os.lookup name = some o) :
    ∃ o', os'.lookup name = some o' ∧ o.Follows R o' := by
  induction follow with
  | nil => cases found
  | @cons entry entry' _ _ first _ ih =>
    obtain ⟨key, o₁⟩ := entry
    obtain ⟨key', o₁'⟩ := entry'
    obtain ⟨rfl, follows⟩ := first
    rw [List.lookup_cons] at found ⊢
    cases same : name == key' with
    | true =>
      rw [same] at found
      cases found
      exact ⟨o₁', rfl, follows⟩
    | false =>
      rw [same] at found
      exact ih found

/-- The operation of the same name is chosen. -/
theorem chooseOperation_of_follows {operations operations' : Operations}
    (follows : operations.Follows R operations') {name n : Option String} {o : Operation}
    (chosen : chooseOperation operations name = .ok (n, o)) :
    ∃ o', chooseOperation operations' name = .ok (n, o') ∧ o.Follows R o' := by
  cases follows with
  | anonymous follows =>
    cases chosen
    exact ⟨_, rfl, follows⟩
  | @named os os' follow =>
    cases name with
    | none =>
      cases follow with
      | nil => cases chosen
      | @cons entry entry' _ _ first others =>
        cases others with
        | nil =>
          obtain ⟨key, o₁⟩ := entry
          obtain ⟨key', o₁'⟩ := entry'
          obtain ⟨rfl, follows⟩ := first
          cases chosen
          exact ⟨o₁', rfl, follows⟩
        | cons => cases chosen
    | some name =>
      rw [chooseOperation] at chosen
      cases found : os.lookup name with
      | none =>
        rw [found] at chosen
        cases chosen
      | some o₁ =>
        rw [found] at chosen
        cases chosen
        obtain ⟨o', found', follows⟩ := lookup_of_follows follow found
        refine ⟨o', ?_, follows⟩
        rw [chooseOperation, found']

/-- A spread has the contents that follow those of its fragment in the first scope. -/
theorem contents?_of_follows {scope scope' : Scope}
    (follow : List.Forall₂ (Fragment.Follows R) scope.fragments scope'.fragments)
    {position position' : Position} {name : String} {directives directives' : List Directive}
    {condition : Option String} {inside : List Selection}
    (found : scope.contents? (.spread position name directives) = some (condition, inside)) :
    ∃ inside', scope'.contents? (.spread position' name directives') = some (condition, inside') ∧
      List.Forall₂ R inside inside' := by
  obtain ⟨f, defined, eq⟩ := Option.map_eq_some_iff.mp found
  cases eq
  obtain ⟨f', defined', follows⟩ := Document.fragment?_of_follows follow defined
  refine ⟨f'.selections, ?_, follows.selections⟩
  rw [Scope.contents?, defined', ← follows.condition]
  rfl

theorem excludesWhen_congr {d d' : Directive} (name : d'.name = d.name) :
    excludesWhen d' = excludesWhen d := by
  unfold excludesWhen
  rw [name]

/-- Directives exclude alike if their conditions are decided alike. -/
theorem isIncluded_of_conditions {scope scope' : Scope} {directives directives' : List Directive}
    (alike : List.Forall₂ (fun d d' : Directive => d'.name = d.name ∧
      ∀ b, scope.condition d = .ok b → scope'.condition d' = .ok b) directives directives')
    {b : Bool} (h : scope.isIncluded directives = .ok b) : scope'.isIncluded directives' = .ok b := by
  induction alike with
  | nil => exact h
  | cons first _ ih =>
    obtain ⟨name, decided⟩ := first
    rw [Scope.isIncluded] at h ⊢
    rw [excludesWhen_congr name]
    split at h
    · exact ih h
    · obtain ⟨value, condition, h⟩ := bind_ok h
      refine (bind_of_ok (decided value condition)).trans ?_
      split at h
      · next same =>
        rw [if_pos same]
        exact h
      · next other =>
        rw [if_neg other]
        exact ih h

/-- A request that a document is validated as is that of a document that follows it. -/
theorem ofDocument_of_simulates {schema : Schema} {limit : Option Nat}
    {document document' : Document} {name : Option String} {supplied : OrderedMap Json} {r : Request}
    (follows : document.Follows R document')
    (sim : ∀ o scope, Chooses schema limit document name supplied o scope →
      Simulates R scope { scope with fragments := document'.fragments })
    (h : ofDocument schema limit document name supplied = .ok r) :
    ofDocument schema limit document' name supplied = .ok r := by
  obtain ⟨n, o, container, bindings, fields, chosen, found, bound, expands, single, rfl⟩ :=
    ofDocument_iff.mp h
  obtain ⟨o', chosen', related⟩ := chooseOperation_of_follows follows.operations chosen
  have expands' := (sim o _ (.intro chosen bound)).expands expands related.selections
  rw [← related.kind] at found single ⊢
  rw [← related.definitions] at bound
  exact ofDocument_iff.mpr
    ⟨n, o', container, bindings, fields, chosen', found, bound, expands', single, rfl⟩

end Request

end GraphQLEngine
