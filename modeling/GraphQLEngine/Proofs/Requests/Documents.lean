import GraphQLEngine.Document.Parse
import GraphQLEngine.Json.Parser
import GraphQLEngine.Proofs.Requests.Occurrences
import GraphQLEngine.Request.Validate

/-!
# Documents without repeated keys

In a document or a JSON value that was read from a text no object names a key twice.  So it is for
the arguments of the occurrences of the document and for the values of its variables.

    Json.parse? text = some j    →  j.Proper
    Document.parse text = .ok d  →  d.Proper
-/

namespace GraphQLEngine

/-! ## Proper documents -/

/-- No object among the arguments of the selected fields names a key twice. -/
inductive Selection.Proper : Selection → Prop
  | field {head : FieldHead} {selections : List Selection} : Request.ProperHead head →
    (∀ s ∈ selections, s.Proper) → Proper (.field head selections)
  | spread (position : Position) (name : String) (directives : List Directive) :
    Proper (.spread position name directives)
  | inlineFragment (position : Position) (condition : Option String)
      (directives : List Directive) {selections : List Selection} :
    (∀ s ∈ selections, s.Proper) → Proper (.inlineFragment position condition directives selections)

def VariableDefinition.Proper (v : VariableDefinition) : Prop := ∀ c, v.default = some c → c.Proper

structure Operation.Proper (o : Operation) : Prop where
  variableDefinitions : ∀ v ∈ o.variableDefinitions, v.Proper
  selections : ∀ s ∈ o.selections, s.Proper

def Fragment.Proper (f : Fragment) : Prop := ∀ s ∈ f.selections, s.Proper

def Operations.Proper : Operations → Prop
  | .anonymous o => o.Proper
  | .named os => ∀ entry ∈ os, entry.2.Proper

structure Document.Proper (d : Document) : Prop where
  operations : d.operations.Proper
  fragments : ∀ f ∈ d.fragments, f.Proper

namespace Request

variable {name : Option String} {supplied : OrderedMap Json}

theorem chooseOperation_proper {operations : Operations} {chosen : Option String} {o : Operation}
    (h : chooseOperation operations name = .ok (chosen, o)) (proper : operations.Proper) :
    o.Proper := by
  unfold chooseOperation at h
  split at h
  · cases h
    exact proper
  · cases h
  · cases h
    exact proper _ List.mem_cons_self
  · cases h
  · split at h
    · next found =>
      cases h
      exact proper (_, o) (mem_of_lookup found)
    · cases h

/-- The arguments of an occurrence are written in the document. -/
theorem Scope.Occurs.proper {scope : Scope} {container : Option SchemaType}
    {selections : List Selection} {o : Occurrence} (h : scope.Occurs container selections o)
    (fragments : ∀ f ∈ scope.fragments, f.Proper) (proper : ∀ s ∈ selections, s.Proper) :
    ProperHead o.head := by
  induction h with
  | field mem _ =>
    cases proper _ mem with
    | field head _ => exact head
  | beneath mem _ _ ih =>
    cases proper _ mem with
    | field _ beneath => exact ih beneath
  | spread _ _ found _ ih => exact ih (fragments _ (List.mem_of_find?_eq_some found))
  | inlineFragment mem _ _ ih =>
    cases proper _ mem with
    | inlineFragment _ _ _ inside => exact ih inside

theorem variableValue_proper {v : VariableDefinition} {c : Const}
    (h : variableValue supplied v = .ok c) (values : ∀ entry ∈ supplied, entry.2.Proper)
    (proper : v.Proper) : c.Proper := by
  unfold variableValue at h
  split at h
  · next j found =>
    cases h
    exact (values (_, j) (mem_of_lookup found)).ofJson
  · next default =>
    cases h
    exact proper _ default
  · split at h
    · cases h
    · cases h
      exact .null

theorem variableValues_proper {definitions : List VariableDefinition} {bindings : Variables}
    (h : variableValues supplied definitions = .ok bindings)
    (values : ∀ entry ∈ supplied, entry.2.Proper) (proper : ∀ v ∈ definitions, v.Proper) :
    ProperVariables bindings := by
  obtain ⟨entries, mapped, eq⟩ := bind_ok h
  cases eq
  intro entry mem
  obtain ⟨v, declared, computed⟩ := mapM_ok mapped entry (OrderedMap.mem_of_mem_ofEntries mem)
  obtain ⟨c, value, eq⟩ := bind_ok computed
  cases eq
  exact variableValue_proper value values (proper v declared)

end Request

/-! ## JSON texts -/

namespace Json

namespace Reader

theorem literal_proper {word : String} {value j : Json} {cs rest : List Char}
    (h : literal word value cs = some (j, rest)) (proper : value.Proper) : j.Proper := by
  unfold literal at h
  split at h
  · cases h
    exact proper
  · cases h

mutual

theorem value_proper (fuel depth : Nat) (cs : List Char) {j : Json} {rest : List Char}
    (h : value fuel depth cs = some (j, rest)) : j.Proper := by
  match fuel with
  | 0 => cases h
  | fuel + 1 =>
    rw [value] at h
    split at h
    · cases h
    · exact literal_proper h .null
    · exact literal_proper h (.bool true)
    · exact literal_proper h (.bool false)
    · obtain ⟨⟨s, _⟩, -, eq⟩ := Option.map_eq_some_iff.mp h
      cases eq
      exact .str s
    · split at h
      · cases h
      · split at h
        · cases h
          exact .arr fun _ mem => absurd mem List.not_mem_nil
        · exact items_proper fuel _ [] _ h fun _ mem => absurd mem List.not_mem_nil
    · split at h
      · cases h
      · split at h
        · cases h
          exact .obj List.nodup_nil fun _ mem => absurd mem List.not_mem_nil
        · exact members_proper fuel _ [] _ h
            ⟨List.nodup_nil, fun _ mem => absurd mem List.not_mem_nil⟩
    · obtain ⟨⟨n, _⟩, -, eq⟩ := Option.map_eq_some_iff.mp h
      cases eq
      exact .num n

theorem items_proper (fuel depth : Nat) (seen : List Json) (cs : List Char) {j : Json}
    {rest : List Char} (h : items fuel depth seen cs = some (j, rest))
    (proper : ∀ x ∈ seen, x.Proper) : j.Proper := by
  match fuel with
  | 0 => cases h
  | fuel + 1 =>
    rw [items] at h
    split at h
    · cases h
    · next x _ read =>
      have all : ∀ y ∈ x :: seen, y.Proper :=
        List.forall_mem_cons.mpr ⟨value_proper fuel depth cs read, proper⟩
      split at h
      · exact items_proper fuel depth (x :: seen) _ h all
      · cases h
        exact .arr fun y mem => all y (List.mem_reverse.mp mem)
      · cases h

theorem members_proper (fuel depth : Nat) (seen : List (String × Json)) (cs : List Char) {j : Json}
    {rest : List Char} (h : members fuel depth seen cs = some (j, rest))
    (proper : ProperMap seen) : j.Proper := by
  match fuel with
  | 0 => cases h
  | fuel + 1 =>
    rw [members] at h
    split at h
    · split at h
      · cases h
      · next key _ _ =>
        split at h
        · split at h
          · cases h
          · next x _ read =>
            have all : ProperMap (OrderedMap.insert seen key x) := by
              refine ⟨OrderedMap.nodup_insert proper.nodup key x, fun entry mem => ?_⟩
              rcases OrderedMap.mem_insert mem with mem | rfl
              · exact proper.values entry mem
              · exact value_proper fuel depth _ read
            simp only at h
            split at h
            · exact members_proper fuel depth _ _ h all
            · cases h
              exact .obj all.nodup all.values
            · cases h
        · cases h
    · cases h

end

end Reader

/-- What is read from a text is proper. -/
theorem parse?_proper {text : String} {j : Json} (h : parse? text = some j) : j.Proper := by
  unfold parse? at h
  simp only at h
  split at h
  · next read =>
    split at h
    · cases h
      exact Reader.value_proper _ _ _ read
    · cases h
  · cases h

end Json

/-! ## What rules give -/

namespace Grammar

variable {α β : Type} {P : α → Prop} {Q : β → Prop}

/-- What the rule gives has the property. -/
def Yields (P : α → Prop) (r : Rule α) : Prop := ∀ i a j, r i = some (a, j) → P a

theorem yields_true (r : Rule α) : Yields (fun _ => True) r := fun _ _ _ _ => trivial

theorem yields_succeed {a : α} (h : P a) : Yields P (succeed a) := by
  intro i b j eq
  cases eq
  exact h

theorem yields_fail : Yields P fail := nofun

theorem Yields.andThen {r : Rule β} {f : β → Rule α} (h : Yields Q r)
    (hf : ∀ b, Q b → Yields P (f b)) : Yields P (andThen r f) := by
  intro i a j eq
  unfold Grammar.andThen at eq
  split at eq
  · cases eq
  · next b i' first => exact hf b (h i b i' first) i' a j eq

theorem Yields.next {r : Rule β} {f : β → Rule α} (h : Yields Q r)
    (hf : ∀ b, Q b → Yields P (f b)) : Yields P (next r f) :=
  h.andThen fun b hb => (yields_true skip).andThen fun _ _ => hf b hb

theorem Yields.mapRule {r : Rule β} {f : β → α} (h : Yields Q r) (hf : ∀ b, Q b → P (f b)) :
    Yields P (mapRule f r) :=
  h.andThen fun b hb => yields_succeed (hf b hb)

theorem yields_choice {rs : List (Rule α)} (h : ∀ r ∈ rs, Yields P r) : Yields P (choice rs) := by
  induction rs with
  | nil => exact nofun
  | cons r rs ih =>
    intro i a j eq
    unfold choice at eq
    split at eq
    · next result first =>
      cases eq
      exact h r List.mem_cons_self i a j first
    · exact ih (fun r' mem => h r' (List.mem_cons_of_mem _ mem)) i a j eq

theorem Yields.optional {r : Rule α} (h : Yields P r) :
    Yields (fun o => ∀ a, o = some a → P a) (optional r) := by
  intro i o j eq a some
  unfold Grammar.optional at eq
  split at eq
  · next b i' first =>
    cases eq
    cases some
    exact h i a j first
  · cases eq
    cases some

theorem Yields.repeated {r : Rule α} (h : Yields P r) (fuel : Nat) :
    Yields (fun as => ∀ a ∈ as, P a) (repeated r fuel) := by
  induction fuel with
  | zero => exact yields_succeed fun _ mem => nomatch mem
  | succ fuel ih =>
    intro i as j eq
    unfold Grammar.repeated at eq
    split at eq
    · cases eq
      exact fun _ mem => nomatch mem
    · next a i' first =>
      split at eq
      · cases eq
        exact List.forall_mem_singleton.mpr (h i a j first)
      · next rest j' others =>
        cases eq
        exact List.forall_mem_cons.mpr ⟨h i a i' first, ih i' rest j others⟩

theorem Yields.manyApart {r : Rule α} (h : Yields P r) :
    Yields (fun as => ∀ a ∈ as, P a) (manyApart r) := by
  intro i as j eq
  unfold Grammar.manyApart at eq
  split at eq
  · cases eq
    exact fun _ mem => nomatch mem
  · next a i' first =>
    split at eq
    · cases eq
      exact List.forall_mem_singleton.mpr (h i a j first)
    · next rest j' others =>
      cases eq
      exact List.forall_mem_cons.mpr ⟨h i a i' first,
        ((yields_true skip).andThen fun _ _ => h).repeated _ i' rest j others⟩

theorem Yields.someApart {r : Rule α} (h : Yields P r) :
    Yields (fun as => ∀ a ∈ as, P a) (someApart r) := by
  intro i as j eq
  unfold Grammar.someApart at eq
  split at eq
  · cases eq
  · exact h.manyApart i as j eq

theorem Yields.byLength {r : Nat → Rule α} (h : ∀ fuel, Yields P (r fuel)) :
    Yields P (byLength r) := fun i => h (i.rest.length + 1) i

theorem Yields.located {r : Rule α} (h : Yields P r) :
    Yields (fun entry => P entry.2) (located r) := fun i =>
  h.mapRule (f := fun a => (i.position, a)) (fun _ ha => ha) i

/-! ## What the grammar gives -/

theorem yields_value {ν : Type} (variableName : Rule ν) (fuel : Nat) :
    Yields Value.Proper (value variableName fuel) := by
  induction fuel with
  | zero => exact yields_fail
  | succ fuel ih =>
    have member : Yields (fun entry : String × Value ν => entry.2.Proper)
        (next name fun key => next (word ":") fun _ =>
          mapRule (fun v => (key, v)) (value variableName fuel)) := by
      refine (yields_true _).next fun key _ => (yields_true _).next fun _ _ => ?_
      exact ih.mapRule fun _ proper => proper
    refine yields_choice ?_
    simp only [List.forall_mem_cons, List.not_mem_nil, false_imp_iff, implies_true, and_true]
    refine ⟨?named, ?number, ?string, ?boolean, ?null, ?enum, ?list, ?object⟩
    case named => exact (yields_true _).mapRule fun v _ => .named v
    case number => exact (yields_true _).mapRule fun n _ => .number n
    case string => exact (yields_true _).mapRule fun s _ => .string s
    case boolean => exact (yields_true _).mapRule fun b _ => .boolean b
    case null => exact (yields_true _).mapRule fun _ _ => .null
    case enum => exact (yields_true _).mapRule fun n _ => .enum n
    case list =>
      refine (yields_true _).next fun _ _ => ih.manyApart.next fun _ all => ?_
      exact (yields_true _).mapRule fun _ _ => .list all
    case object =>
      refine (yields_true _).next fun _ _ => member.manyApart.next fun _ all => ?_
      exact (yields_true _).mapRule fun _ _ => .object (OrderedMap.nodup_ofEntries _)
        fun entry mem => all entry (OrderedMap.mem_of_mem_ofEntries mem)

theorem yields_arguments : Yields (fun as => ∀ a ∈ as, a.value.Proper) arguments := by
  have value : Yields (fun entry => entry.2.Proper) (located anyValue) :=
    (Yields.byLength (yields_value variableName)).located
  have argument : Yields (fun a => a.value.Proper) argument := by
    refine (yields_true _).next fun _ _ => (yields_true _).next fun _ _ => ?_
    exact value.mapRule fun _ proper => proper
  refine (yields_true _).next fun _ _ => argument.someApart.next fun _ all => ?_
  exact (yields_true _).mapRule fun _ _ => all

section

variable {nested : Rule (List Selection)}

-- A selection holds where it begins; the place is generalised, so that the rule is one of `next`.

theorem yields_field (h : Yields (fun ss => ∀ s ∈ ss, s.Proper) nested) :
    Yields Selection.Proper (field nested) := by
  intro i
  dsimp only [field]
  generalize i.position = start
  revert i
  change Yields Selection.Proper _
  refine (yields_true _).next fun _ _ => (yields_true _).next fun _ _ => ?_
  refine yields_arguments.optional.next fun as arguments => (yields_true _).next fun _ _ => ?_
  refine h.optional.mapRule fun ss selections => .field ?_ ?_
  · cases as with
    | none => exact fun _ mem => nomatch mem
    | some as => exact arguments as rfl
  · cases ss with
    | none => exact fun _ mem => nomatch mem
    | some ss => exact selections ss rfl

theorem yields_inlineFragment (h : Yields (fun ss => ∀ s ∈ ss, s.Proper) nested) :
    Yields Selection.Proper (inlineFragment nested) := by
  intro i
  dsimp only [inlineFragment]
  generalize i.position = start
  revert i
  change Yields Selection.Proper _
  refine (yields_true _).next fun _ _ => (yields_true _).next fun _ _ => ?_
  exact (yields_true _).next fun _ _ => h.mapRule fun _ selections => .inlineFragment _ _ _ selections

theorem yields_fragmentSpread : Yields Selection.Proper fragmentSpread := by
  intro i
  dsimp only [fragmentSpread]
  generalize i.position = start
  revert i
  change Yields Selection.Proper _
  refine (yields_true _).next fun _ _ => (yields_true _).next fun _ _ => ?_
  exact (yields_true _).next fun _ _ => (yields_true _).mapRule fun _ _ => .spread _ _ _

end

theorem yields_selectionSet (depth fuel : Nat) :
    Yields (fun ss => ∀ s ∈ ss, s.Proper) (selectionSet depth fuel) := by
  induction fuel generalizing depth with
  | zero => exact yields_fail
  | succ fuel ih =>
    have selection : Yields Selection.Proper (choice [field (selectionSet (depth + 1) fuel),
        inlineFragment (selectionSet (depth + 1) fuel), fragmentSpread]) := by
      refine yields_choice ?_
      simp only [List.forall_mem_cons, List.not_mem_nil, false_imp_iff, implies_true, and_true]
      exact ⟨yields_field (ih _), yields_inlineFragment (ih _), yields_fragmentSpread⟩
    intro i
    dsimp only [selectionSet]
    generalize (if maxNesting < depth then i.withFault .nestedTooDeep else i) = start
    revert start
    change Yields (fun ss : List Selection => ∀ s ∈ ss, s.Proper) _
    refine (yields_true _).next fun _ _ => selection.someApart.next fun _ all => ?_
    exact (yields_true _).mapRule fun _ _ => all

theorem yields_outerSelectionSet :
    Yields (fun ss => ∀ s ∈ ss, s.Proper) outerSelectionSet :=
  .byLength (yields_selectionSet 0)

theorem yields_variableDefinitions :
    Yields (fun vs => ∀ v ∈ vs, v.Proper) variableDefinitions := by
  have default : Yields Value.Proper (next (word "=") fun _ => constValue) :=
    (yields_true _).next fun _ _ => .byLength (yields_value fail)
  have definition : Yields VariableDefinition.Proper variableDefinition := by
    refine (yields_true _).next fun _ _ => (yields_true _).next fun _ _ => ?_
    refine (yields_true _).next fun _ _ => (yields_true _).next fun _ _ => ?_
    exact default.optional.mapRule fun _ proper => proper
  refine (yields_true _).next fun _ _ => definition.manyApart.next fun _ all => ?_
  exact (yields_true _).mapRule fun _ _ => all

theorem yields_operation : Yields (fun entry => entry.2.Proper) operation := by
  intro i
  dsimp only [operation]
  generalize i.position = start
  revert i
  change Yields (fun entry : Option String × Operation => entry.2.Proper) _
  refine yields_choice ?_
  simp only [List.forall_mem_cons, List.not_mem_nil, false_imp_iff, implies_true, and_true]
  constructor
  · refine (yields_true _).next fun _ _ => (yields_true _).next fun _ _ => ?_
    refine yields_variableDefinitions.optional.next fun vs all => (yields_true _).next fun _ _ => ?_
    refine yields_outerSelectionSet.mapRule fun _ selections => ⟨?_, selections⟩
    cases vs with
    | none => exact fun _ mem => nomatch mem
    | some vs => exact all vs rfl
  · exact yields_outerSelectionSet.mapRule fun _ selections =>
      ⟨fun _ mem => (nomatch mem), selections⟩

theorem yields_fragment : Yields Fragment.Proper fragment := by
  intro i
  dsimp only [fragment]
  generalize i.position = start
  revert i
  change Yields Fragment.Proper _
  refine (yields_true _).next fun _ _ => (yields_true _).next fun _ _ => ?_
  refine (yields_true _).next fun _ _ => (yields_true _).next fun _ _ => ?_
  exact yields_outerSelectionSet.mapRule fun _ selections => selections

def Definition.Proper : Definition → Prop
  | .operation _ o => o.Proper
  | .fragment f => f.Proper

theorem yields_definitions : Yields (fun ds => ∀ d ∈ ds, d.Proper) definitions := by
  have definition : Yields Definition.Proper definition := by
    refine yields_choice ?_
    simp only [List.forall_mem_cons, List.not_mem_nil, false_imp_iff, implies_true, and_true]
    exact ⟨yields_operation.mapRule fun _ proper => proper,
      yields_fragment.mapRule fun _ proper => proper⟩
  refine (yields_true _).andThen fun _ _ => definition.someApart.next fun ds all i ds' j eq => ?_
  split at eq
  · cases eq
    exact all
  · cases eq

end Grammar

namespace Document

theorem addOperation_proper {seen : Option Operations} {name : Option String} {o : Operation}
    {out : Operations} (h : addOperation seen name o = .ok out)
    (before : ∀ os, seen = some os → os.Proper) (proper : o.Proper) : out.Proper := by
  unfold addOperation at h
  split at h
  · cases h
    exact proper
  · cases h
    exact List.forall_mem_singleton.mpr proper
  · cases h
  · cases h
  · cases h
    exact proper
  · cases h
  · split at h
    · cases h
    · cases h
      exact List.forall_mem_append.mpr ⟨before _ rfl, List.forall_mem_singleton.mpr proper⟩

theorem assemble_proper {operations : Option Operations} {fragments : List Fragment}
    {ds : List Grammar.Definition} {d : Document} (h : assemble operations fragments ds = .ok d)
    (proper : ∀ d ∈ ds, d.Proper) (before : ∀ os, operations = some os → os.Proper)
    (before' : ∀ f ∈ fragments, f.Proper) : d.Proper := by
  induction ds generalizing operations fragments with
  | nil =>
    unfold assemble at h
    split at h
    · cases h
      exact ⟨before _ rfl, before'⟩
    · cases h
  | cons first rest ih =>
    obtain ⟨properFirst, properRest⟩ := List.forall_mem_cons.mp proper
    cases first with
    | operation name o =>
      unfold assemble at h
      obtain ⟨os, added, h⟩ := bind_ok h
      refine ih h properRest (fun os' eq => ?_) before'
      cases eq
      exact addOperation_proper added before properFirst
    | fragment f =>
      unfold assemble at h
      obtain ⟨fs, added, h⟩ := bind_ok h
      unfold addFragment at added
      split at added
      · cases added
      · cases added
        exact ih h properRest before
          (List.forall_mem_append.mpr ⟨before', List.forall_mem_singleton.mpr properFirst⟩)

/-- What is read from a text is proper. -/
theorem parse_proper {text : String} {d : Document} (h : parse text = .ok d) : d.Proper := by
  unfold parse at h
  split at h
  · cases h
  · next ds rest matched =>
    split at h
    · cases h
    · exact assemble_proper h (Grammar.yields_definitions _ _ _ matched) nofun
        fun _ mem => nomatch mem

end Document

end GraphQLEngine
