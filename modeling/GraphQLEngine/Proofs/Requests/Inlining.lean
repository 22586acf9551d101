import GraphQLEngine.Proofs.Requests.Simulation

/-!
# Inlining fragments

A spread may be replaced by an inline fragment with the same directives, the type of the fragment and
its contents, in an operation or in the body of a fragment, that of the same fragment included: the
document is validated as the same request, or still refused.

    Document.Inlines document document'    one spread of `document` is replaced in `document'`

While the contents are collected the name of the fragment is no longer among those that are being
spread.  That makes no difference, since the rules of collection do not speak of these names.
-/

namespace GraphQLEngine

/-! ## Replacements -/

/-- Among the selections, or anywhere beneath them, one spread of a defined fragment is replaced by an
inline fragment. -/
inductive Selection.Inlines (fragments : List Fragment) : List Selection → List Selection → Prop
  | here {before after : List Selection} {position position' : Position} {name : String}
    {directives : List Directive} {fragment : Fragment} :
    Document.fragment? fragments name = some fragment →
    Inlines fragments (before ++ .spread position name directives :: after)
      (before ++ .inlineFragment position' (some fragment.condition) directives fragment.selections ::
        after)
  | field {before after selections selections' : List Selection} {head : FieldHead} :
    Inlines fragments selections selections' →
    Inlines fragments (before ++ .field head selections :: after)
      (before ++ .field head selections' :: after)
  | inlineFragment {before after selections selections' : List Selection} {position : Position}
    {condition : Option String} {directives : List Directive} :
    Inlines fragments selections selections' →
    Inlines fragments (before ++ .inlineFragment position condition directives selections :: after)
      (before ++ .inlineFragment position condition directives selections' :: after)

/-- One spread is replaced in an operation or in a fragment. -/
inductive Document.Inlines : Document → Document → Prop
  | anonymous {o : Operation} {fragments : List Fragment} {selections : List Selection} :
    Selection.Inlines fragments o.selections selections →
    Document.Inlines ⟨.anonymous o, fragments⟩ ⟨.anonymous { o with selections }, fragments⟩
  | named {before after : OrderedMap Operation} {name : String} {o : Operation}
    {fragments : List Fragment} {selections : List Selection} :
    Selection.Inlines fragments o.selections selections →
    Document.Inlines ⟨.named (before ++ (name, o) :: after), fragments⟩
      ⟨.named (before ++ (name, { o with selections }) :: after), fragments⟩
  | fragment {operations : Operations} {before after : List Fragment} {f : Fragment}
    {selections : List Selection} :
    Selection.Inlines (before ++ f :: after) f.selections selections →
    Document.Inlines ⟨operations, before ++ f :: after⟩
      ⟨operations, before ++ { f with selections } :: after⟩

/-- A selection in which any spreads are replaced. -/
inductive Selection.Inlined (fragments : List Fragment) : Selection → Selection → Prop
  | same (s : Selection) : Inlined fragments s s
  | replaced {position position' : Position} {name : String} {directives : List Directive}
    {fragment : Fragment} :
    Document.fragment? fragments name = some fragment →
    Inlined fragments (.spread position name directives)
      (.inlineFragment position' (some fragment.condition) directives fragment.selections)
  | field {head : FieldHead} {selections selections' : List Selection} :
    List.Forall₂ (Inlined fragments) selections selections' →
    Inlined fragments (.field head selections) (.field head selections')
  | inlineFragment {position : Position} {condition : Option String} {directives : List Directive}
    {selections selections' : List Selection} :
    List.Forall₂ (Inlined fragments) selections selections' →
    Inlined fragments (.inlineFragment position condition directives selections)
      (.inlineFragment position condition directives selections')

/-- Lists are related if they differ in one place, where their items are. -/
theorem forall₂_of_one {α : Type} {R : α → α → Prop} (refl : ∀ a, R a a) {before after : List α}
    {a a' : α} (h : R a a') : List.Forall₂ R (before ++ a :: after) (before ++ a' :: after) :=
  List.rel_append (List.forall₂_same.mpr fun b _ => refl b)
    (.cons h (List.forall₂_same.mpr fun b _ => refl b))

namespace Selection

variable {fragments : List Fragment}

theorem forall₂_same (selections : List Selection) :
    List.Forall₂ (Inlined fragments) selections selections :=
  List.forall₂_same.mpr fun s _ => .same s

theorem Inlines.inlined {selections selections' : List Selection}
    (h : Inlines fragments selections selections') :
    List.Forall₂ (Inlined fragments) selections selections' := by
  induction h with
  | here defined => exact forall₂_of_one .same (.replaced defined)
  | field _ ih => exact forall₂_of_one .same (.field ih)
  | inlineFragment _ ih => exact forall₂_of_one .same (.inlineFragment ih)

theorem Inlined.directives {s s' : Selection} (h : Inlined fragments s s') :
    s'.directives = s.directives := by
  cases h <;> rfl

end Selection

namespace Document

open Selection (Inlined)

theorem Inlines.follows {document document' : Document} (h : document.Inlines document') :
    document.Follows (Inlined document.fragments) document' := by
  have operation (fragments : List Fragment) (o : Operation) : o.Follows (Inlined fragments) o :=
    ⟨rfl, rfl, Selection.forall₂_same _⟩
  have fragment (fragments : List Fragment) (f : Fragment) : f.Follows (Inlined fragments) f :=
    ⟨rfl, rfl, Selection.forall₂_same _⟩
  have all (fragments : List Fragment) :
      List.Forall₂ (Fragment.Follows (Inlined fragments)) fragments fragments :=
    List.forall₂_same.mpr fun f _ => fragment fragments f
  cases h with
  | anonymous inlines => exact ⟨.anonymous ⟨rfl, rfl, inlines.inlined⟩, all _⟩
  | named inlines =>
    exact ⟨.named (forall₂_of_one (fun _ => ⟨rfl, operation _ _⟩) ⟨rfl, rfl, rfl, inlines.inlined⟩),
      all _⟩
  | @fragment operations before after f selections inlines =>
    refine ⟨?_, forall₂_of_one (fragment _) ⟨rfl, rfl, inlines.inlined⟩⟩
    cases operations with
    | anonymous o => exact .anonymous (operation _ o)
    | named os => exact .named (List.forall₂_same.mpr fun _ _ => ⟨rfl, operation _ _⟩)

end Document

/-! ## Collection -/

namespace Request

open Selection (Inlined)

section

variable (scope : Scope) {fragments : List Fragment}

/-- Fields are selected alike where only the fragments are others. -/
theorem sameField_withFragments {fragments' : List Fragment} (head : FieldHead) :
    SameField { scope with fragments } { scope with fragments := fragments' } head head :=
  ⟨rfl, rfl, rfl, id, fun _ _ checked => checked⟩

/-- With spreads replaced by what they stand for, the same is collected. -/
theorem simulates_inlined
    (follow : List.Forall₂ (Fragment.Follows (Inlined scope.fragments)) scope.fragments fragments) :
    Simulates (Inlined scope.fragments) scope { scope with fragments } where
  schema := rfl
  depth _ allowed := allowed
  included related decided := by
    rw [related.directives, ← decided]
    exact isIncluded_of_bindings rfl
  field {head selections _} related := by
    cases related with
    | same => exact ⟨head, selections, rfl, sameField_withFragments scope head, Selection.forall₂_same _⟩
    | field beneath => exact ⟨head, _, rfl, sameField_withFragments scope head, beneath⟩
  contents {s _ _ _} related found := by
    cases related with
    | same =>
      cases s with
      | field => cases found
      | spread => exact contents?_of_follows follow found
      | inlineFragment =>
        cases found
        exact ⟨_, rfl, Selection.forall₂_same _⟩
    | replaced defined =>
      rw [Scope.contents?, defined] at found
      cases found
      exact ⟨_, rfl, Selection.forall₂_same _⟩
    | field => cases found
    | inlineFragment beneath =>
      cases found
      exact ⟨_, rfl, beneath⟩

/-- What is collected with spreads replaced was collected before. -/
theorem simulates_original
    (follow : List.Forall₂ (Fragment.Follows (Inlined scope.fragments)) scope.fragments fragments) :
    Simulates (flip (Inlined scope.fragments)) { scope with fragments } scope where
  schema := rfl
  depth _ allowed := allowed
  included related decided := by
    rw [Inlined.directives related] at decided
    rw [← decided]
    exact isIncluded_of_bindings rfl
  field {head selections _} related := by
    cases related with
    | same =>
      exact ⟨head, selections, rfl, sameField_withFragments scope head, (Selection.forall₂_same _).flip⟩
    | field beneath => exact ⟨head, _, rfl, sameField_withFragments scope head, beneath.flip⟩
  contents {s s' _ _} related found := by
    cases related with
    | same =>
      cases s with
      | field => cases found
      | spread => exact contents?_of_follows (Fragment.follow_flip follow) found
      | inlineFragment =>
        cases found
        exact ⟨_, rfl, (Selection.forall₂_same _).flip⟩
    | replaced defined =>
      cases found
      exact ⟨_, by rw [Scope.contents?, defined]; rfl, (Selection.forall₂_same _).flip⟩
    | field => cases found
    | inlineFragment beneath =>
      cases found
      exact ⟨_, rfl, beneath.flip⟩

end

/-! ## Validation -/

section

variable {document document' : Document}

/-- One replacement leaves the request as it is. -/
theorem ofDocument_of_inlines (h : document.Inlines document') {schema : Schema} {limit : Option Nat}
    {name : Option String} {supplied : OrderedMap Json} {r : Request} :
    ofDocument schema limit document' name supplied = .ok r ↔
      ofDocument schema limit document name supplied = .ok r := by
  have follows := h.follows
  constructor
  · refine ofDocument_of_simulates follows.flip fun o scope chosen => ?_
    cases chosen with
    | @intro _ _ bindings =>
      exact simulates_original ⟨schema, bindings, document.fragments, limit⟩ follows.fragments
  · refine ofDocument_of_simulates follows fun o scope chosen => ?_
    cases chosen with
    | @intro _ _ bindings =>
      exact simulates_inlined ⟨schema, bindings, document.fragments, limit⟩ follows.fragments

/-- However many spreads are replaced by inline fragments, one after the other, the document is validated
as the same request; and one that leads into a fragment from inside is refused. -/
theorem inlining_changes_nothing (inlined : Relation.ReflTransGen Document.Inlines document document')
    (schema : Schema) (limit : Option Nat) (name : Option String) (supplied : OrderedMap Json) :
    (∀ r, ofDocument schema limit document' name supplied = .ok r ↔
      ofDocument schema limit document name supplied = .ok r) ∧
    ∀ o scope, Chooses schema limit document name supplied o scope →
      scope.Reenters [] o.selections →
      ∃ fault, ofDocument schema limit document' name supplied = .error fault := by
  have same : ∀ r, ofDocument schema limit document' name supplied = .ok r ↔
      ofDocument schema limit document name supplied = .ok r := by
    intro r
    induction inlined with
    | refl => exact Iff.rfl
    | tail _ step ih => exact (ofDocument_of_inlines step).trans ih
  refine ⟨same, fun o scope chosen reenters => ?_⟩
  obtain ⟨fault, refused⟩ := chosen.refused reenters
  cases result : ofDocument schema limit document' name supplied with
  | error fault' => exact ⟨fault', rfl⟩
  | ok r =>
    cases refused.symm.trans ((same r).mp result)

end

end Request

namespace Linked

/-- The selections `twice` with the first spread of `own` replaced. -/
def once : List Selection :=
  [.inlineFragment .nowhere (some "Node") [] own.selections,
    field "next" [spread "own", field "next" [spread "own"]]]

/-- The fragment `cyclic` with its own contents in place of the spread in them. -/
def unrolled : Fragment :=
  { cyclic with
    selections := [field "next" [.inlineFragment .nowhere none []
      [.inlineFragment .nowhere (some "Node") [] cyclic.selections]]] }

theorem inlines_once : Document.Inlines ⟨.anonymous (operation twice), [own]⟩
    ⟨.anonymous (operation once), [own]⟩ :=
  .anonymous (@Selection.Inlines.here _ [] _ _ _ _ _ own rfl)

theorem inlines_unrolled : Document.Inlines ⟨.anonymous (operation [spread "tail"]), [cyclic]⟩
    ⟨.anonymous (operation [spread "tail"]), [unrolled]⟩ :=
  @Document.Inlines.fragment _ [] [] cyclic _ <| @Selection.Inlines.field _ [] [] _ _ _ <|
    @Selection.Inlines.inlineFragment _ [] [] _ _ _ _ _ (@Selection.Inlines.here _ [] [] _ _ _ _ cyclic rfl)

theorem inlining_changes_nothing_linked :
    (∃ r, Request.ofDocument schema none ⟨.anonymous (operation twice), [own]⟩ none [] = .ok r ∧
      Request.ofDocument schema none ⟨.anonymous (operation once), [own]⟩ none [] = .ok r) ∧
    ∃ fault, Request.ofDocument schema none ⟨.anonymous (operation [spread "tail"]), [unrolled]⟩ none
      [] = .error fault := by
  obtain ⟨same, -⟩ := Request.inlining_changes_nothing (.single inlines_once) schema none none []
  obtain ⟨-, refused⟩ :=
    Request.inlining_changes_nothing (.single inlines_unrolled) schema none none []
  constructor
  · have accepted : (Request.ofDocument schema none ⟨.anonymous (operation twice), [own]⟩ none
        []).toOption.isSome = true := by cbv
    cases validated : Request.ofDocument schema none ⟨.anonymous (operation twice), [own]⟩ none [] with
    | error fault =>
      rw [validated] at accepted
      cases accepted
    | ok r => exact ⟨r, rfl, (same r).mpr validated⟩
  · exact refused (operation [spread "tail"]) (scope [cyclic] none) (.intro rfl rfl) reenters

end Linked

end GraphQLEngine
