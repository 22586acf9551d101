import GraphQLEngine.Proofs.Requests.Simulation

/-!
# The limit of the depth

With a limit a document is validated as without, or refused because a selection is too deep; and it is
refused exactly if the request is deeper than the limit.  So the levels that are counted on the way down,
through fields and fragments and before anything is merged, are those of the merged fields.

    CutOff x y                        `x` is `y`, or refuses a selection that is too deep
    ofDocument … (some d) … = .ok r  ↔  ofDocument … none … = .ok r ∧ r.depth ≤ d
    r.depth ≤ d  ↔  every path of an occurrence has at most `d` names
-/

namespace GraphQLEngine

open RequestField (depths whole)

/-! ## Depths -/

namespace Request

/-- A change that deepens each field, and makes one as deep as `m`, deepens the deepest. -/
theorem updateField_deepens {name : String}
    {change : RequestField → Except ValidationError RequestField} {fields out : List RequestField}
    {m : Nat} (h : updateField name change fields = .ok out)
    (there : ∃ g ∈ fields, g.outputName = name)
    (deepens : ∀ g g', change g = .ok g' → g.depth ≤ g'.depth ∧ m ≤ g'.depth) :
    depths fields ≤ depths out ∧ m ≤ depths out := by
  induction fields generalizing out with
  | nil =>
    obtain ⟨g, mem, -⟩ := there
    cases mem
  | cons f fs ih =>
    rw [updateField] at h
    split at h
    · cases changed : change f with
      | error fault => rw [changed] at h; cases h
      | ok f' =>
        rw [changed] at h
        cases h
        obtain ⟨deeper, deep⟩ := deepens f f' changed
        simp only [depths]
        omega
    · next other =>
      cases rest : updateField name change fs with
      | error fault => rw [rest] at h; cases h
      | ok fs' =>
        rw [rest] at h
        cases h
        obtain ⟨g, mem, same⟩ := there
        have among : g ∈ fs := (List.mem_cons.mp mem).resolve_left fun eq => other (eq ▸ same)
        obtain ⟨deeper, deep⟩ := ih rest ⟨g, among, same⟩
        simp only [depths]
        omega

theorem depths_append (fields gs : List RequestField) :
    depths (fields ++ gs) = max (depths fields) (depths gs) := by
  induction fields with
  | nil => simp [depths]
  | cons f fs ih => rw [List.cons_append, depths, depths, ih, Nat.max_assoc]

section

variable {position : Position}

mutual

/-- Merged fields are as deep as what they are made of. -/
theorem mergeField_deepens {fields out : List RequestField} :
    ∀ f : RequestField, mergeField position fields f = .ok out →
      depths fields ≤ depths out ∧ f.depth ≤ depths out
  | ⟨alias?, name, arguments, subfields⟩, h => by
    rw [mergeField] at h
    split at h
    · next there =>
      obtain ⟨g, mem, same⟩ := List.any_eq_true.mp there
      refine updateField_deepens h ⟨g, mem, of_decide_eq_true same⟩ fun g g' changed => ?_
      split at changed
      · obtain ⟨merged, all, eq⟩ := bind_ok changed
        cases eq
        obtain ⟨old, new⟩ := mergeFields_deepens subfields all
        rw [RequestField.depth_eq, RequestField.depth_eq, RequestField.depth_eq]
        simp only
        omega
      · cases changed
    · cases h
      rw [depths_append]
      simp only [depths]
      omega

theorem mergeFields_deepens {fields out : List RequestField} :
    ∀ fs : List RequestField, mergeFields position fields fs = .ok out →
      depths fields ≤ depths out ∧ depths fs ≤ depths out
  | [], h => by
    cases h
    exact ⟨Nat.le_refl _, Nat.zero_le _⟩
  | f :: fs, h => by
    rw [mergeFields] at h
    obtain ⟨mid, first, rest⟩ := bind_ok h
    have := mergeField_deepens f first
    have := mergeFields_deepens fs rest
    rw [depths]
    omega

end

end

theorem Scope.Expands.deepens {scope : Scope} {container : SchemaType} {depth : Nat}
    {fields out : List RequestField} {selections : List Selection}
    (h : scope.Expands container depth fields selections out) : depths fields ≤ depths out := by
  induction h with
  | nil => exact Nat.le_refl _
  | excluded _ _ ih => exact ih
  | typename _ _ _ _ merged _ ih => exact (mergeField_deepens _ merged).1.trans ih
  | field _ _ _ _ _ _ merged _ _ ih => exact (mergeField_deepens _ merged).1.trans ih
  | contents _ _ _ _ _ ih ih' => exact ih.trans ih'

end Request

/-! ## Depths and paths -/

namespace RequestField

theorem length_of_at? {f g : RequestField} {p : List String} (found : f.at? p = some g) :
    p.length + 1 ≤ f.depth := by
  induction p generalizing f with
  | nil =>
    rw [f.depth_eq, List.length_nil]
    omega
  | cons n p ih =>
    rw [at?] at found
    obtain ⟨sub, first, rest⟩ := Option.bind_eq_some_iff.mp found
    have := ih rest
    have := depth_lt (List.mem_of_find?_eq_some first)
    rw [List.length_cons]
    omega

/-- Under its output name a field is found. -/
theorem Distinct.found {f sub : RequestField} (distinct : f.Distinct) (mem : sub ∈ f.subfields) :
    f.subfields.find? (·.outputName = sub.outputName) = some sub := by
  have some : (f.subfields.find? (·.outputName = sub.outputName)).isSome :=
    List.find?_isSome.mpr ⟨sub, mem, by simp⟩
  obtain ⟨g, found⟩ := Option.isSome_iff_exists.mp some
  have same : g.outputName = sub.outputName := by simpa using List.find?_some found
  rwa [List.inj_on_of_nodup_map distinct.nodup (List.mem_of_find?_eq_some found) mem same] at found

/-- A field is as deep as the longest path beneath it is long. -/
theorem Distinct.depth_le_iff {f : RequestField} (distinct : f.Distinct) {n : Nat} :
    f.depth ≤ n + 1 ↔ ∀ p, (f.at? p).isSome → p.length ≤ n := by
  constructor
  · intro shallow p there
    obtain ⟨g, found⟩ := Option.isSome_iff_exists.mp there
    have := length_of_at? found
    omega
  · induction distinct generalizing n with
    | @intro f nodup subs ih =>
      intro short
      have beneath {sub : RequestField} (mem : sub ∈ f.subfields) {p : List String}
          (there : (sub.at? p).isSome) : p.length + 1 ≤ n := by
        refine short (sub.outputName :: p) ?_
        rw [at?, (Distinct.intro nodup subs).found mem]
        exact there
      have shallow : ∀ sub ∈ f.subfields, sub.depth ≤ n := by
        intro sub mem
        have : 1 ≤ n := @beneath sub mem [] rfl
        have := @ih sub mem (n - 1) fun p there => Nat.le_sub_one_of_lt (beneath mem there)
        omega
      have := depths_le shallow
      rw [f.depth_eq]
      omega

end RequestField

/-! ## Limited collection -/

namespace Request

section

variable {α β : Type} {x y : Except ValidationError α}

/-- The first is the second, or refuses a selection that is too deep. -/
def CutOff (x y : Except ValidationError α) : Prop :=
  x = y ∨ ∃ position, x = .error (.tooDeep position)

theorem CutOff.refl (x : Except ValidationError α) : CutOff x x := .inl rfl

theorem CutOff.bind {f g : α → Except ValidationError β} (first : CutOff x y)
    (rest : ∀ a, x = .ok a → CutOff (f a) (g a)) : CutOff (x >>= f) (y >>= g) := by
  rcases first with rfl | ⟨position, rfl⟩
  · cases x with
    | error fault => exact .refl _
    | ok a => exact rest a rfl
  · exact .inr ⟨position, rfl⟩

end

/-- The scope with a limit of its own. -/
def Scope.limited (scope : Scope) (d : Nat) : Scope := { scope with maxDepth := some d }

/-- A limit of `d` is not the wider one. -/
def Narrows (d : Nat) (limit : Option Nat) : Prop := ∀ n, limit = some n → d ≤ n

theorem narrows_none (d : Nat) : Narrows d none := by
  intro n eq
  cases eq

section

variable {scope : Scope} {d : Nat}

theorem isIncluded_limited {directives : List Directive} :
    (scope.limited d).isIncluded directives = scope.isIncluded directives :=
  isIncluded_of_bindings rfl

theorem allowsDepth_limited {depth : Nat} : (scope.limited d).allowsDepth depth = true ↔ depth ≤ d := by
  simp [Scope.limited, Scope.allowsDepth]

theorem Narrows.allowsDepth (narrows : Narrows d scope.maxDepth) {depth : Nat} (le : depth ≤ d) :
    scope.allowsDepth depth = true := by
  unfold Scope.allowsDepth
  split
  · rfl
  · next n limit => exact decide_eq_true (le.trans (narrows n limit))

/-- What is selected within a stricter limit is selected within the wider one. -/
theorem Narrows.compares (narrows : Narrows d scope.maxDepth) :
    (scope.limited d).Compares (fun _ => CutOff) Eq scope where
  comparison := ⟨.refl, .bind⟩
  bindings := rfl
  fragments := rfl
  name same := same ▸ rfl
  field := by
    rintro container _ depth path head selections rfl beneath
    rw [Scope.validateField, Scope.validateField]
    by_cases shallow : (scope.limited d).allowsDepth depth = true
    · rw [shallow, narrows.allowsDepth (allowsDepth_limited.mp shallow)]
      simp only [Bool.not_true, Bool.false_eq_true, if_false]
      split
      · exact .refl _
      · exact .bind (.refl _) fun _ _ => .bind (beneath rfl) fun _ _ => .refl _
    · rw [Bool.eq_false_of_not_eq_true shallow]
      exact .inr ⟨head.position, rfl⟩

/-- What expands to no more levels than the limit leaves expands within the limit. -/
theorem Scope.Expands.limited {container : SchemaType} {depth : Nat} {fields out : List RequestField}
    {selections : List Selection} (h : scope.Expands container depth fields selections out)
    (shallow : depths out + depth ≤ d + 1) :
    (scope.limited d).Expands container depth fields selections out := by
  induction h with
  | nil => exact .nil
  | excluded decided _ ih => exact .excluded (isIncluded_limited.trans decided) (ih shallow)
  | typename included _ typename plain merged rest ih =>
    have := (mergeField_deepens _ merged).2
    have := rest.deepens
    rw [RequestField.depth, depths] at *
    exact .typename (isIncluded_limited.trans included) (allowsDepth_limited.mpr (by omega))
      typename plain merged (ih shallow)
  | field included _ declared resolved _ checked merged rest ih ih' =>
    have := (mergeField_deepens _ merged).2
    have := rest.deepens
    rw [RequestField.depth] at *
    exact .field (isIncluded_limited.trans included) (allowsDepth_limited.mpr (by omega)) declared
      resolved (ih (by omega)) checked merged (ih' shallow)
  | contents included found applies _ rest ih ih' =>
    have := rest.deepens
    exact .contents (isIncluded_limited.trans included) found applies (ih (by omega))
      (ih' shallow)

end

/-! ## Limited validation -/

section

variable {schema : Schema} {limit : Option Nat} {document : Document} {name : Option String}
  {supplied : OrderedMap Json} {r : Request} {d : Nat}

theorem Narrows.ofDocument (narrows : Narrows d limit) :
    CutOff (ofDocument schema (some d) document name supplied)
      (ofDocument schema limit document name supplied) := by
  refine .bind (.refl _) fun (n, o) _ => ?_
  simp only [ofOperation]
  split
  · next container found =>
    refine .bind (.refl _) fun bindings _ => .bind ?_ fun _ _ => .refl _
    exact (@Narrows.compares ⟨schema, bindings, document.fragments, limit⟩ d narrows).collect rfl 1 []
      [] o.selections
  · exact .refl _

/-- A narrower limit leaves the requests that are within it. -/
theorem ofDocument_limited_iff (narrows : Narrows d limit) :
    ofDocument schema (some d) document name supplied = .ok r ↔
      ofDocument schema limit document name supplied = .ok r ∧ r.depth ≤ d := by
  constructor
  · intro h
    rcases narrows.ofDocument with same | ⟨position, refused⟩
    · exact ⟨same.symm.trans h, (ofDocument_valid h).within d rfl⟩
    · cases refused.symm.trans h
  · rintro ⟨h, shallow⟩
    obtain ⟨n, o, container, bindings, fields, chosen, found, bound, expands, single, rfl⟩ :=
      ofDocument_iff.mp h
    have expands' := expands.limited (Nat.add_le_add_right shallow 1)
    exact ofDocument_iff.mpr
      ⟨n, o, container, bindings, fields, chosen, found, bound, expands', single, rfl⟩

/-- The other requests are refused as too deep. -/
theorem ofDocument_too_deep (narrows : Narrows d limit)
    (h : ofDocument schema limit document name supplied = .ok r) (deep : d < r.depth) :
    ∃ position, ofDocument schema (some d) document name supplied = .error (.tooDeep position) := by
  refine narrows.ofDocument.resolve_left fun same => ?_
  have := (ofDocument_limited_iff narrows).mp (same.trans h)
  omega

/-- A request is as deep as the longest path of an occurrence is long. -/
theorem Scope.Gathers.depth_le_iff {scope : Scope} {fields : List RequestField} {os : List Occurrence}
    (gathers : scope.Gathers fields os) {n : Nat} :
    depths fields ≤ n ↔ ∀ a ∈ os, a.path.length ≤ n := by
  have all : depths fields ≤ n ↔ ∀ p, ((whole fields).at? p).isSome → p.length ≤ n := by
    rw [← gathers.tidy.distinct.depth_le_iff, RequestField.depth_eq, Nat.add_comm]
    exact Nat.add_le_add_iff_right.symm
  rw [all]
  constructor
  · intro short a mem
    cases path : a.path with
    | nil => exact Nat.zero_le n
    | cons m p =>
      exact short (m :: p) ((gathers.isSome_iff (List.cons_ne_nil m p)).mpr ⟨a, mem, path⟩)
  · intro short p there
    cases p with
    | nil => exact Nat.zero_le n
    | cons m p =>
      obtain ⟨a, mem, path⟩ := (gathers.isSome_iff (List.cons_ne_nil m p)).mp there
      exact path ▸ short a mem

end

end Request

/-- An engine refuses a valid request that is deeper than its limit. -/
theorem Engine.preflight_too_deep {σ : Type} {e : Engine σ} {limit : Option Nat} {r : Request}
    (valid : r.Valid e.schema limit) (deep : e.settings.maxQueryDepth < r.depth) :
    e.preflight r = .error (.tooDeep e.settings.maxQueryDepth) := by
  obtain ⟨rootType, root, -⟩ := valid.root
  rw [preflight, root]
  exact if_pos deep

namespace Request

/-- A limit accepts the requests that are accepted with a wider one, or with none, and are within it.
A request is as deep as the longest path to an included field is long; and an engine judges its depth as
the validation does with the limit of the engine. -/
theorem depth_limit_exact (schema : Schema) (document : Document) (name : Option String)
    (supplied : OrderedMap Json) :
    (∀ d limit, (∀ n, limit = some n → d ≤ n) →
      ∀ r, ofDocument schema (some d) document name supplied = .ok r ↔
        ofDocument schema limit document name supplied = .ok r ∧ r.depth ≤ d) ∧
    (∀ limit r, ofDocument schema limit document name supplied = .ok r →
      ∃ o scope, Chooses schema limit document name supplied o scope ∧
        ∀ d, r.depth ≤ d ↔
          ∀ a, scope.Occurs (scope.rootOf o) o.selections a → a.path.length ≤ d) ∧
    ∀ r, ofDocument schema none document name supplied = .ok r →
      ∀ {σ : Type} (e : Engine σ), e.schema = schema →
        (ofDocument schema (some e.settings.maxQueryDepth) document name supplied = .ok r ∧
          ∃ rootType, e.preflight r = .ok rootType) ∨
        ((∃ position, ofDocument schema (some e.settings.maxQueryDepth) document name supplied =
            .error (.tooDeep position)) ∧
          e.preflight r = .error (.tooDeep e.settings.maxQueryDepth)) := by
  refine ⟨fun d limit narrows r => ofDocument_limited_iff narrows, fun limit r ok => ?_, ?_⟩
  · obtain ⟨o, scope, os, chosen, unfolds, gathers⟩ := ofDocument_gathers ok
    refine ⟨o, scope, chosen, fun d => ?_⟩
    simp only [← unfolds.mem_iff]
    exact gathers.depth_le_iff
  · rintro r ok σ e rfl
    have narrows := narrows_none e.settings.maxQueryDepth
    rcases Nat.lt_or_ge e.settings.maxQueryDepth r.depth with deep | shallow
    · exact .inr ⟨ofDocument_too_deep narrows ok deep,
        Engine.preflight_too_deep (ofDocument_valid ok) deep⟩
    · have limited := (ofDocument_limited_iff narrows).mpr ⟨ok, shallow⟩
      obtain ⟨rootType, -, accepted⟩ := Engine.preflight_of_valid (ofDocument_valid limited)
      exact .inl ⟨limited, rootType, accepted⟩

end Request

namespace Linked

/-- A selection of four levels that is left out. -/
def skipped : Selection :=
  .field ⟨.nowhere, some "far", "next", [],
    [⟨.nowhere, "skip", [⟨"if", .nowhere, .boolean true⟩]⟩]⟩ [field "next" [field "next" [field "id" []]]]

def document : Document := ⟨.anonymous (operation (skipped :: twice)), [own]⟩

def engine (maxQueryDepth : Nat) : Engine Unit :=
  ⟨schema, .empty, [], { Settings.default with maxQueryDepth }⟩

theorem depth_limit_exact_linked :
    ∃ r, Request.ofDocument schema none document none [] = .ok r ∧
      Request.ofDocument schema (some 3) document none [] = .ok r ∧
      (∃ rootType, (engine 3).preflight r = .ok rootType) ∧
      (∃ position, Request.ofDocument schema (some 2) document none [] = .error (.tooDeep position)) ∧
      (engine 2).preflight r = .error (.tooDeep 2) := by
  obtain ⟨narrower, -, agrees⟩ := Request.depth_limit_exact schema document none []
  have depth : (Request.ofDocument schema none document none []).toOption.map Request.depth = some 3 := by
    cbv
  cases validated : Request.ofDocument schema none document none [] with
  | error fault =>
    rw [validated] at depth
    cases depth
  | ok r =>
    rw [validated] at depth
    have three : r.depth = 3 := Option.some.inj depth
    have within := (narrower 3 none (Request.narrows_none 3) r).mpr ⟨validated, three.le⟩
    refine ⟨r, rfl, within, ?_⟩
    rcases agrees r validated (engine 3) rfl with ⟨-, accepted⟩ | ⟨⟨_, refused⟩, -⟩
    · rcases agrees r validated (engine 2) rfl with ⟨below, -⟩ | refused
      · have := ((narrower 2 none (Request.narrows_none 2) r).mp below).2
        omega
      · exact ⟨accepted, refused⟩
    · cases within.symm.trans refused

end Linked

end GraphQLEngine
