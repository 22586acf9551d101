import GraphQLEngine.Engine.Execute
import GraphQLEngine.Proofs.Requests.Fields
import GraphQLEngine.Proofs.Requests.Rules
import GraphQLEngine.Proofs.Schemas.Build

/-!
# What validation guarantees

The fields that validation collects exist on the types that they are selected on, at every level;
no output name is used twice beside itself; and the selection is within the limit.  An engine
accepts such a request.

    Request.ofDocument s limit d name supplied = .ok r  →  r.Valid s limit
    r.Valid e.schema e.settings.maxQueryDepth  →  e.preflight r = .ok rootType
-/

namespace GraphQLEngine

/-! ## Sound selections -/

/-- The field exists on a type, and so do the fields selected beneath it. -/
inductive RequestField.Sound (s : Schema) : String → RequestField → Prop
  | typename {typeName : String} {f : RequestField} :
    f.name = typenameField → f.subfields = [] → Sound s typeName f
  | field {typeName : String} {f : RequestField} {d : FieldDefinition} :
    f.name ≠ typenameField → s.field? typeName f.name = some d →
      (f.subfields.map RequestField.outputName).Nodup →
      (∀ sub ∈ f.subfields, Sound s d.type.innermost sub) → Sound s typeName f

/-- The fields exist on a type, and their output names are distinct. -/
structure RequestField.AllSound (s : Schema) (typeName : String) (fields : List RequestField) :
    Prop where
  nodup : (fields.map RequestField.outputName).Nodup
  sound : ∀ f ∈ fields, f.Sound s typeName

namespace RequestField

variable {s : Schema} {typeName : String}

theorem Sound.distinct {f : RequestField} (h : f.Sound s typeName) : f.Distinct := by
  induction h with
  | typename _ none =>
    refine .intro ?_ fun sub mem => ?_
    · rw [none]; exact List.nodup_nil
    · rw [none] at mem; cases mem
  | field _ _ nodup _ ih => exact .intro nodup ih

theorem AllSound.distinct {fields : List RequestField} (h : AllSound s typeName fields) :
    (RequestField.whole fields).Distinct :=
  .intro h.nodup fun f hf => (h.sound f hf).distinct

theorem AllSound.nil : AllSound s typeName [] := ⟨List.nodup_nil, fun _ h => nomatch h⟩

/-- What a sound field is defined as, unless it is the name of the type. -/
theorem Sound.cases {f : RequestField} (h : f.Sound s typeName) :
    (f.name = typenameField ∧ f.subfields = []) ∨
    ∃ d, f.name ≠ typenameField ∧ s.field? typeName f.name = some d ∧
      AllSound s d.type.innermost f.subfields := by
  cases h with
  | typename name none => exact .inl ⟨name, none⟩
  | field name found nodup subs => exact .inr ⟨_, name, found, nodup, subs⟩

/-- What is selected beneath a sound field is sound. -/
theorem Sound.subfields {f : RequestField} (h : f.Sound s typeName) {d : FieldDefinition}
    (found : s.field? typeName f.name = some d) :
    AllSound s d.type.innermost f.subfields := by
  rcases h.cases with ⟨-, none⟩ | ⟨d', -, found', subs⟩
  · rw [none]
    exact .nil
  · cases found.symm.trans found'
    exact subs

end RequestField

/-! ## Merging -/

namespace Request

/-- Changing a field in place keeps the output names, and what holds of all fields. -/
theorem updateField_keeps {P : RequestField → Prop} {name : String}
    {change : RequestField → Except ValidationError RequestField}
    {fields out : List RequestField} (h : updateField name change fields = .ok out)
    (all : ∀ f ∈ fields, P f)
    (keeps : ∀ f f', f ∈ fields → change f = .ok f' → f'.outputName = f.outputName ∧ P f') :
    out.map RequestField.outputName = fields.map RequestField.outputName ∧ ∀ f ∈ out, P f := by
  induction fields generalizing out with
  | nil =>
    cases h
    exact ⟨rfl, all⟩
  | cons f fs ih =>
    rw [updateField] at h
    split at h
    · cases hf : change f with
      | error fault => rw [hf] at h; cases h
      | ok f' =>
        rw [hf] at h
        cases h
        obtain ⟨name, hP⟩ := keeps f f' List.mem_cons_self hf
        refine ⟨by simp [name], fun g hg => ?_⟩
        rcases List.mem_cons.mp hg with rfl | hg
        · exact hP
        · exact all g (List.mem_cons_of_mem _ hg)
    · cases hfs : updateField name change fs with
      | error fault => rw [hfs] at h; cases h
      | ok fs' =>
        rw [hfs] at h
        cases h
        obtain ⟨names, hP⟩ := ih hfs (fun g hg => all g (List.mem_cons_of_mem _ hg))
          fun g g' hg => keeps g g' (List.mem_cons_of_mem _ hg)
        refine ⟨by simp [names], fun g hg => ?_⟩
        rcases List.mem_cons.mp hg with rfl | hg
        · exact all g List.mem_cons_self
        · exact hP g hg

section

variable {s : Schema} {position : Position}

mutual

/-- Adding a sound field to sound fields leaves sound fields. -/
theorem mergeField_sound {typeName : String} {fields out : List RequestField} :
    ∀ f : RequestField, mergeField position fields f = .ok out →
      RequestField.AllSound s typeName fields → f.Sound s typeName →
      RequestField.AllSound s typeName out
  | ⟨alias?, name, arguments, subfields⟩, h, all, sound => by
    rw [mergeField] at h
    split at h
    · obtain ⟨names, sounds⟩ := updateField_keeps h all.sound (by
        intro g g' hg hchange
        split at hchange
        · next same =>
          obtain ⟨merged, hm, eq⟩ := bind_ok hchange
          cases eq
          refine ⟨rfl, ?_⟩
          rcases (all.sound g hg).cases with ⟨typename, none⟩ | ⟨d, notTypename, found, subs⟩
          · rcases sound.cases with ⟨-, none'⟩ | ⟨-, notTypename, -⟩
            · cases none'
              rw [none] at hm
              cases hm
              exact .typename typename rfl
            · exact absurd (same.1 ▸ typename) notTypename
          · rcases sound.cases with ⟨typename, -⟩ | ⟨d', -, found', subs'⟩
            · exact absurd (same.1.trans typename) notTypename
            · have : d' = d := by
                rw [same.1] at found
                exact Option.some.inj (found'.symm.trans found)
              subst this
              have merged_sound := mergeFields_sound subfields hm subs subs'.sound
              exact .field notTypename found merged_sound.nodup merged_sound.sound
        · cases hchange)
      exact ⟨names ▸ all.nodup, sounds⟩
    · next fresh =>
      cases h
      refine ⟨?_, fun g hg => ?_⟩
      · rw [List.map_append, List.nodup_append]
        refine ⟨all.nodup, List.nodup_cons.mpr ⟨List.not_mem_nil, List.nodup_nil⟩, ?_⟩
        intro a ha b hb eq
        obtain ⟨g, hg, rfl⟩ := List.mem_map.mp ha
        rw [List.map_singleton, List.mem_singleton] at hb
        exact fresh (List.any_eq_true.mpr ⟨g, hg, decide_eq_true (eq.trans hb)⟩)
      · rcases List.mem_append.mp hg with hg | hg
        · exact all.sound g hg
        · rw [List.mem_singleton.mp hg]
          exact sound

theorem mergeFields_sound {typeName : String} {fields out : List RequestField} :
    ∀ fs : List RequestField, mergeFields position fields fs = .ok out →
      RequestField.AllSound s typeName fields → (∀ f ∈ fs, f.Sound s typeName) →
      RequestField.AllSound s typeName out
  | [], h, all, _ => by
    cases h
    exact all
  | f :: fs, h, all, sound => by
    rw [mergeFields] at h
    obtain ⟨mid, hf, hfs⟩ := bind_ok h
    exact mergeFields_sound fs hfs (mergeField_sound f hf all (sound f List.mem_cons_self))
      fun g hg => sound g (List.mem_cons_of_mem _ hg)

end

mutual

/-- Merging does not make fields deeper than the deepest. -/
theorem mergeField_depth {n : Nat} {fields out : List RequestField} :
    ∀ f : RequestField, mergeField position fields f = .ok out →
      (∀ g ∈ fields, g.depth ≤ n) → f.depth ≤ n → ∀ g ∈ out, g.depth ≤ n
  | ⟨alias?, name, arguments, subfields⟩, h, all, bound => by
    rw [mergeField] at h
    rw [RequestField.depth] at bound
    split at h
    · refine (updateField_keeps h all ?_).2
      intro g g' hg hchange
      split at hchange
      · obtain ⟨merged, hm, eq⟩ := bind_ok hchange
        cases eq
        refine ⟨rfl, ?_⟩
        have old := all g hg
        rw [g.depth_eq] at old
        have deep := RequestField.depths_le (mergeFields_depth (n := n - 1) subfields hm
          (fun sub hsub => by
            have := RequestField.depth_le_depths hsub
            omega)
          (fun sub hsub => by
            have := RequestField.depth_le_depths hsub
            omega))
        rw [RequestField.depth_eq]
        simp only
        omega
      · cases hchange
    · cases h
      intro g hg
      rcases List.mem_append.mp hg with hg | hg
      · exact all g hg
      · rw [List.mem_singleton.mp hg, RequestField.depth]
        exact bound

theorem mergeFields_depth {n : Nat} {fields out : List RequestField} :
    ∀ fs : List RequestField, mergeFields position fields fs = .ok out →
      (∀ g ∈ fields, g.depth ≤ n) → (∀ f ∈ fs, f.depth ≤ n) → ∀ g ∈ out, g.depth ≤ n
  | [], h, all, _ => by
    cases h
    exact all
  | f :: fs, h, all, bound => by
    rw [mergeFields] at h
    obtain ⟨mid, hf, hfs⟩ := bind_ok h
    exact mergeFields_depth fs hfs (mergeField_depth f hf all (bound f List.mem_cons_self))
      fun g hg => bound g (List.mem_cons_of_mem _ hg)

end

end

/-! ## Collecting -/

/-- What is collected at a depth: sound fields, none of which reaches below the limit. -/
structure Collected (scope : Scope) (typeName : String) (depth : Nat)
    (fields : List RequestField) : Prop where
  sound : RequestField.AllSound scope.schema typeName fields
  within : ∀ n, scope.maxDepth = some n → ∀ f ∈ fields, f.depth + depth ≤ n + 1

theorem Collected.nil (scope : Scope) (typeName : String) (depth : Nat) :
    Collected scope typeName depth [] := ⟨.nil, fun _ _ _ h => nomatch h⟩

/-- A field that may be collected at a depth. -/
structure Collectable (scope : Scope) (typeName : String) (depth : Nat) (f : RequestField) :
    Prop where
  sound : f.Sound scope.schema typeName
  within : ∀ n, scope.maxDepth = some n → f.depth + depth ≤ n + 1

theorem Collected.merge {scope : Scope} {typeName : String} {depth : Nat} {position : Position}
    {fields out : List RequestField} {f : RequestField} (h : Collected scope typeName depth fields)
    (hf : Collectable scope typeName depth f) (merged : mergeField position fields f = .ok out) :
    Collected scope typeName depth out where
  sound := mergeField_sound f merged h.sound hf.sound
  within n limit g hg := by
    have bound := mergeField_depth (n := n + 1 - depth) f merged
      (fun f' hf' => by
        have := h.within n limit f' hf'
        omega)
      (by
        have := hf.within n limit
        omega) g hg
    have deep := hf.within n limit
    have : 1 ≤ f.depth := by rw [f.depth_eq]; omega
    omega

theorem Scope.le_of_allowsDepth {scope : Scope} {depth n : Nat}
    (allowed : scope.allowsDepth depth = true) (limit : scope.maxDepth = some n) : depth ≤ n := by
  simpa [Scope.allowsDepth, limit] using allowed

theorem Scope.resolveField_ok {scope : Scope} {container type : SchemaType} {head : FieldHead}
    {selections : List Selection} {d : FieldDefinition}
    (h : scope.resolveField container head selections = .ok (d, type)) :
    container.fields?.bind (·.lookup head.name) = some d ∧
      scope.schema.type? d.type.innermost = some type := by
  unfold Scope.resolveField at h
  cases found : container.fields?.bind (·.lookup head.name) with
  | none => rw [found] at h; cases h
  | some d' =>
    rw [found] at h
    simp only at h
    cases htype : scope.schema.type? d'.type.innermost with
    | none => rw [htype] at h; cases h
    | some type' =>
      rw [htype] at h
      simp only at h
      split at h
      · obtain ⟨_, refused, -⟩ := bind_ok h
        cases refused
      · split at h
        · obtain ⟨_, refused, -⟩ := bind_ok h
          cases refused
        · cases h
          exact ⟨rfl, htype⟩

/-- What expands adds sound fields to sound fields. -/
theorem Scope.Expands.collected {scope : Scope} {typeName : String} {container : SchemaType}
    {depth : Nat} {fields out : List RequestField} {selections : List Selection}
    (h : scope.Expands container depth fields selections out)
    (found : scope.schema.type? typeName = some container)
    (before : Collected scope typeName depth fields) : Collected scope typeName depth out := by
  induction h generalizing typeName with
  | nil => exact before
  | excluded _ _ ih => exact ih found before
  | typename _ allowed typename _ merged _ ih =>
    refine ih found (before.merge ⟨.typename typename rfl, fun n limit => ?_⟩ merged)
    have shallow := Scope.le_of_allowsDepth allowed limit
    rw [RequestField.depth_eq, RequestField.depths]
    omega
  | @field _ _ depth _ _ _ _ _ _ _ _ _ _ allowed declared resolved _ _ merged _ ih ih' =>
    obtain ⟨hd, htype⟩ := Scope.resolveField_ok resolved
    have subs := ih htype (.nil scope _ _)
    refine ih' found (before.merge ⟨.field declared ?_ subs.sound.nodup subs.sound.sound,
      fun n limit => ?_⟩ merged)
    · rw [Schema.field?, Schema.object?, found]
      exact hd
    · have shallow := Scope.le_of_allowsDepth allowed limit
      have deep := RequestField.depths_le (n := n - depth) fun sub hsub => by
        have := subs.within n limit sub hsub
        omega
      rw [RequestField.depth_eq]
      simp only
      omega
  | contents _ _ _ _ _ ih ih' => exact ih' found (ih found before)

/-! ## Requests -/

/-- What holds of a request that passed validation. -/
structure Valid (s : Schema) (limit : Option Nat) (r : Request) : Prop where
  root : ∃ rootType, s.root? r.kind = some rootType ∧ RequestField.AllSound s rootType r.fields
  within : ∀ n, limit = some n → r.depth ≤ n
  single : r.kind = .subscription → r.fields.length = 1

theorem ofOperation_valid {s : Schema} {fragments : List Fragment} {limit : Option Nat}
    {supplied : OrderedMap Json} {name : Option String} {o : Operation} {r : Request}
    (h : ofOperation s fragments limit supplied name o = .ok r) : r.Valid s limit := by
  unfold ofOperation at h
  split at h
  · next container found =>
    obtain ⟨rootType, hroot, hcontainer⟩ := Option.bind_eq_some_iff.mp found
    obtain ⟨bindings, -, h⟩ := bind_ok h
    obtain ⟨fields, collected, h⟩ := bind_ok h
    have all := (Scope.expands_of_collect _ container 1 [] [] o.selections collected).collected
      hcontainer (.nil _ _ _)
    have depth : ∀ n, limit = some n → RequestField.depths fields ≤ n := fun n hn =>
      RequestField.depths_le fun f hf => by
        have := all.within n hn f hf
        omega
    split at h
    · obtain ⟨_, refused, -⟩ := bind_ok h
      cases refused
    · next single =>
      cases h
      exact ⟨⟨rootType, hroot, all.sound⟩, depth,
        fun kind => Decidable.byContradiction fun several => single ⟨kind, several⟩⟩
  · cases h

/-- What validation guarantees. -/
theorem ofDocument_valid {s : Schema} {limit : Option Nat} {document : Document}
    {name : Option String} {supplied : OrderedMap Json} {r : Request}
    (h : ofDocument s limit document name supplied = .ok r) : r.Valid s limit := by
  obtain ⟨⟨name, o⟩, -, h⟩ := bind_ok h
  exact ofOperation_valid h

end Request

/-! ## The checks of the engine -/

namespace Engine

variable {σ : Type}

theorem checkFields_ok {s : Schema} {typeName : String} {fields : List RequestField}
    (each : ∀ f ∈ fields, checkField s typeName f = .ok ()) :
    checkFields s typeName fields = .ok () := by
  induction fields with
  | nil => rw [checkFields]
  | cons f fs ih =>
    rw [checkFields, each f List.mem_cons_self]
    exact ih fun g hg => each g (List.mem_cons_of_mem _ hg)

theorem checkField_of_sound {s : Schema} {typeName : String} {f : RequestField}
    (h : f.Sound s typeName) : checkField s typeName f = .ok () := by
  induction h with
  | @typename typeName f name _ =>
    obtain ⟨_, _, _, _⟩ := f
    rw [checkField, if_pos name]
  | @field typeName f d name found _ _ ih =>
    obtain ⟨_, _, _, _⟩ := f
    rw [checkField, if_neg name, found]
    exact checkFields_ok ih

/-- An engine accepts what its own validation accepts. -/
theorem preflight_of_valid {e : Engine σ} {r : Request}
    (h : r.Valid e.schema (some e.settings.maxQueryDepth)) :
    ∃ rootType, e.schema.root? r.kind = some rootType ∧ e.preflight r = .ok rootType := by
  obtain ⟨rootType, root, all⟩ := h.root
  refine ⟨rootType, root, ?_⟩
  have shallow : ¬ e.settings.maxQueryDepth < r.depth := Nat.not_lt.mpr (h.within _ rfl)
  rw [preflight, root]
  simp only [shallow, if_false]
  rw [checkFields_ok fun f hf => checkField_of_sound (all.sound f hf)]

end Engine

end GraphQLEngine
