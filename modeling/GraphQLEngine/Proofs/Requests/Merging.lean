import GraphQLEngine.Proofs.Lists
import GraphQLEngine.Proofs.Requests.Fields
import GraphQLEngine.Proofs.Schemas.Build
import GraphQLEngine.Request.Selection

/-!
# Merging, path by path

A tree of fields is described by what stands at each response path: a field with its name and its
arguments, and the output names that are selected beneath it.  Merging two trees keeps, at each path,
the field of the first where both have one, and adds the names of the second that are new behind
those of the first.

    out.names p = (e.names p ++ g.names p).eraseDups
    (out.at? p).map label = ((e.at? p).map label).or ((g.at? p).map label)

It fails unless the fields at every common path have one name and equal arguments.
-/

namespace GraphQLEngine

namespace RequestField

/-- The field at a response path beneath a field; the empty path leads to the field itself. -/
def at? : RequestField → List String → Option RequestField
  | f, [] => some f
  | f, n :: p => (f.subfields.find? (·.outputName = n)).bind (·.at? p)

/-- The output names that are selected at a path. -/
def names (f : RequestField) (p : List String) : List String :=
  ((f.at? p).map fun g => g.subfields.map outputName).getD []

/-- What the fields of one path have to agree on. -/
def label (f : RequestField) : String × OrderedMap Json := (f.name, f.arguments)

/-- The fields have one name and equal arguments. -/
def Alike (f g : RequestField) : Prop :=
  f.name = g.name ∧ Json.sameMap f.arguments g.arguments = true

/-- No output name is selected twice at any path. -/
def Tidy (f : RequestField) : Prop := ∀ p, (f.names p).Nodup

variable {e f g : RequestField} {fields gs : List RequestField} {n : String} {p : List String}

/-! ## Fields by path -/

theorem at?_whole_cons :
    (whole fields).at? (n :: p) = (fields.find? (·.outputName = n)).bind (·.at? p) := rfl

theorem names_whole : (whole f.subfields).names p = f.names p := by cases p <;> rfl

theorem names_whole_cons_of_found (found : fields.find? (·.outputName = n) = some f) :
    (whole fields).names (n :: p) = f.names p := by
  rw [names, at?_whole_cons, found]
  rfl

theorem at?_whole_cons_of_none (missing : fields.find? (·.outputName = n) = none) :
    (whole fields).at? (n :: p) = none := by
  rw [at?_whole_cons, missing]
  rfl

theorem names_whole_cons_of_none (missing : fields.find? (·.outputName = n) = none) :
    (whole fields).names (n :: p) = [] := by
  rw [names, at?_whole_cons_of_none missing]
  rfl

theorem find?_outputName_eq_none :
    fields.find? (·.outputName = n) = none ↔ n ∉ fields.map outputName := by
  simp [List.find?_eq_none]

theorem mem_outputName_of_found (found : fields.find? (·.outputName = n) = some f) :
    n ∈ fields.map outputName :=
  List.mem_map.mpr ⟨f, List.mem_of_find?_eq_some found, by simpa using List.find?_some found⟩

theorem at?_whole_nil : (whole []).at? (n :: p) = none := rfl

theorem names_whole_nil : (whole []).names p = [] := by cases p <;> rfl

theorem find?_singleton_self : [f].find? (·.outputName = f.outputName) = some f := by simp

theorem find?_singleton_of_ne (ne : f.outputName ≠ n) : [f].find? (·.outputName = n) = none := by
  simp [ne]

theorem names_singleton_self : (whole [f]).names (f.outputName :: p) = f.names p :=
  names_whole_cons_of_found find?_singleton_self

/-- Fields without a common output name stand beside each other. -/
theorem at?_whole_append (apart : ∀ n ∈ fields.map outputName, n ∉ gs.map outputName) :
    (whole (fields ++ gs)).at? (n :: p) =
      ((whole fields).at? (n :: p)).or ((whole gs).at? (n :: p)) := by
  rw [at?_whole_cons, at?_whole_cons, at?_whole_cons, List.find?_append]
  cases found : fields.find? (·.outputName = n) with
  | none => rfl
  | some f =>
    rw [find?_outputName_eq_none.mpr (apart n (mem_outputName_of_found found)), Option.some_or,
      Option.bind_none, Option.or_none]

theorem names_whole_append (apart : ∀ n ∈ fields.map outputName, n ∉ gs.map outputName) :
    (whole (fields ++ gs)).names p = (whole fields).names p ++ (whole gs).names p := by
  cases p with
  | nil => exact List.map_append
  | cons n p =>
    by_cases mem : n ∈ fields.map outputName
    · have none := find?_outputName_eq_none.mpr (apart n mem)
      rw [names_whole_cons_of_none none, List.append_nil, names, at?_whole_append apart,
        at?_whole_cons_of_none none, Option.or_none, names]
    · have none := find?_outputName_eq_none.mpr mem
      rw [names_whole_cons_of_none none, List.nil_append, names, at?_whole_append apart,
        at?_whole_cons_of_none none, Option.none_or, names]

theorem alike_whole : (whole fields).Alike (whole gs) := ⟨rfl, rfl⟩

/-- Fields that are alike are so at the empty path. -/
theorem Alike.here {e' g' : RequestField} (h : e.Alike g) (he : e.at? [] = some e')
    (hg : g.at? [] = some g') : e'.Alike g' := by
  cases he
  cases hg
  exact h

/-! ## Distinct names -/

theorem Tidy.found (tidy : (whole fields).Tidy)
    (found : fields.find? (·.outputName = n) = some f) : f.Tidy := fun p =>
  names_whole_cons_of_found found ▸ tidy (n :: p)

theorem Tidy.subfields (tidy : f.Tidy) : (whole f.subfields).Tidy := fun p =>
  names_whole.symm ▸ tidy p

theorem Tidy.cons (tidy : (whole (f :: fields)).Tidy) :
    f.outputName ∉ fields.map outputName ∧ (whole [f]).Tidy ∧ (whole fields).Tidy := by
  have fresh : f.outputName ∉ fields.map outputName := (List.nodup_cons.mp (tidy [])).1
  have apart : ∀ n ∈ [f].map outputName, n ∉ fields.map outputName := by simpa using fresh
  have both : ∀ p, ((whole [f]).names p ++ (whole fields).names p).Nodup := fun p =>
    names_whole_append apart ▸ tidy p
  exact ⟨fresh, fun p => (List.nodup_append.mp (both p)).1,
    fun p => (List.nodup_append.mp (both p)).2.1⟩

/-- Output names that are distinct at every path are distinct at every level. -/
theorem Tidy.distinct {f : RequestField} (tidy : f.Tidy) : f.Distinct := by
  refine .intro (tidy []) fun sub mem => ?_
  have found : f.subfields.find? (·.outputName = sub.outputName) = some sub := by
    obtain ⟨before, after, split⟩ := List.append_of_mem mem
    have nodup : (f.subfields.map outputName).Nodup := tidy []
    rw [split, List.map_append, List.map_cons, List.nodup_append] at nodup
    have fresh : sub.outputName ∉ before.map outputName := fun mem' =>
      nodup.2.2 _ mem' _ List.mem_cons_self rfl
    rw [split, List.find?_append, find?_outputName_eq_none.mpr fresh, Option.none_or]
    simp
  exact Tidy.distinct (tidy.subfields.found found)
termination_by f.depth
decreasing_by exact RequestField.depth_lt mem

/-! ## Merged trees -/

/-- The tree that comes of merging the second into the first. -/
structure Merged (e g out : RequestField) : Prop where
  names : ∀ p, out.names p = (e.names p ++ g.names p).eraseDups
  label : ∀ p, (out.at? p).map label = ((e.at? p).map label).or ((g.at? p).map label)
  alike : ∀ p e' g', e.at? p = some e' → g.at? p = some g' → e'.Alike g'

namespace Merged

theorem tidy {out : RequestField} (h : Merged e g out) : out.Tidy := fun p =>
  h.names p ▸ nodup_eraseDups _

/-- What is merged beneath two fields that are alike. -/
theorem node {merged : List RequestField} (alike : e.Alike g)
    (h : Merged (whole e.subfields) (whole g.subfields) (whole merged)) :
    Merged e g { e with subfields := merged } where
  names p := by
    rw [← names_whole (f := e), ← names_whole (f := g), ← h.names]
    exact names_whole.symm
  label p := by
    cases p with
    | nil => rfl
    | cons n p => exact h.label (n :: p)
  alike p e' g' he hg := by
    cases p with
    | nil => exact alike.here he hg
    | cons n p => exact h.alike (n :: p) e' g' he hg

theorem nil (tidy : (whole fields).Tidy) : Merged (whole fields) (whole []) (whole fields) where
  names p := by rw [names_whole_nil, List.append_nil, eraseDups_of_nodup (tidy p)]
  label p := by
    cases p with
    | nil => rfl
    | cons n p => rw [at?_whole_nil, Option.map_none, Option.or_none]
  alike p e' g' he hg := by
    cases p with
    | nil => exact alike_whole.here he hg
    | cons n p => cases hg

/-- Fields without a common output name are put behind each other. -/
theorem append (apart : ∀ n ∈ fields.map outputName, n ∉ gs.map outputName)
    (tidy : (whole fields).Tidy) (tidy' : (whole gs).Tidy) :
    Merged (whole fields) (whole gs) (whole (fields ++ gs)) where
  names p := by
    have nodup : ((whole fields).names p ++ (whole gs).names p).Nodup := by
      refine List.nodup_append.mpr ⟨tidy p, tidy' p, fun a ha b hb eq => ?_⟩
      cases p with
      | nil => exact apart a ha (eq ▸ hb)
      | cons n p =>
        by_cases mem : n ∈ fields.map outputName
        · rw [names_whole_cons_of_none (find?_outputName_eq_none.mpr (apart n mem))] at hb
          cases hb
        · rw [names_whole_cons_of_none (find?_outputName_eq_none.mpr mem)] at ha
          cases ha
    rw [names_whole_append apart, eraseDups_of_nodup nodup]
  label p := by
    cases p with
    | nil => rfl
    | cons n p => rw [at?_whole_append apart, Option.map_or]
  alike p e' g' he hg := by
    cases p with
    | nil => exact alike_whole.here he hg
    | cons n p =>
      obtain ⟨f, found, -⟩ := Option.bind_eq_some_iff.mp he
      obtain ⟨f', found', -⟩ := Option.bind_eq_some_iff.mp hg
      exact absurd (mem_outputName_of_found found') (apart n (mem_outputName_of_found found))

/-- A field is merged into the one of its output name. -/
theorem updated {e' : RequestField} {out : List RequestField} (tidy : (whole fields).Tidy)
    (found : fields.find? (·.outputName = g.outputName) = some e) (h : Merged e g e')
    (names : out.map outputName = fields.map outputName)
    (here : out.find? (·.outputName = g.outputName) = some e')
    (others : ∀ n ≠ g.outputName,
      out.find? (·.outputName = n) = fields.find? (·.outputName = n)) :
    Merged (whole fields) (whole [g]) (whole out) where
  names p := by
    cases p with
    | nil =>
      have mem : g.outputName ∈ fields.map outputName := mem_outputName_of_found found
      have distinct : (fields.map outputName).Nodup := tidy []
      have absorbed : [g.outputName].removeAll (fields.map outputName) = [] := by
        simpa [List.removeAll] using mem
      have rest : (fields.map outputName ++ [g.outputName]).eraseDups = fields.map outputName := by
        rw [List.eraseDups_append, absorbed, eraseDups_of_nodup distinct, List.eraseDups_nil,
          List.append_nil]
      exact names.trans rest.symm
    | cons n p =>
      by_cases same : n = g.outputName
      · subst same
        rw [names_whole_cons_of_found here, names_whole_cons_of_found found,
          names_singleton_self, h.names]
      · rw [names_whole_cons_of_none (find?_singleton_of_ne (Ne.symm same)), List.append_nil,
          RequestField.names, at?_whole_cons, others n same, ← at?_whole_cons,
          ← RequestField.names, eraseDups_of_nodup (tidy _)]
  label p := by
    cases p with
    | nil => rfl
    | cons n p =>
      by_cases same : n = g.outputName
      · subst same
        rw [at?_whole_cons, at?_whole_cons, at?_whole_cons, here, found, find?_singleton_self]
        exact h.label p
      · rw [at?_whole_cons_of_none (find?_singleton_of_ne (Ne.symm same)), Option.map_none,
          Option.or_none, at?_whole_cons, others n same, at?_whole_cons]
  alike p a b ha hb := by
    cases p with
    | nil => exact alike_whole.here ha hb
    | cons n p =>
      by_cases same : n = g.outputName
      · subst same
        rw [at?_whole_cons, found] at ha
        rw [at?_whole_cons, find?_singleton_self] at hb
        exact h.alike p a b ha hb
      · rw [at?_whole_cons_of_none (find?_singleton_of_ne (Ne.symm same))] at hb
        cases hb

/-- Merging one field and then others is merging all of them. -/
theorem cons {mid out : RequestField} (fresh : g.outputName ∉ gs.map outputName)
    (first : Merged e (whole [g]) mid) (rest : Merged mid (whole gs) out)
    (top : e.Alike (whole (g :: gs))) : Merged e (whole (g :: gs)) out := by
  have apart : ∀ n ∈ [g].map outputName, n ∉ gs.map outputName := by simpa using fresh
  refine ⟨fun p => ?_, fun p => ?_, fun p a b ha hb => ?_⟩
  · rw [rest.names, first.names, eraseDups_append_left, List.append_assoc,
      ← names_whole_append apart]
    rfl
  · cases p with
    | nil => exact (rest.label []).trans (by rw [first.label]; rfl)
    | cons n p =>
      have split := at?_whole_append (n := n) (p := p) apart
      rw [rest.label, first.label, Option.or_assoc, ← Option.map_or, ← split]
      rfl
  · cases p with
    | nil => exact top.here ha hb
    | cons n p =>
      have split : (whole (g :: gs)).at? (n :: p) = _ := at?_whole_append apart
      rw [split, Option.or_eq_some_iff] at hb
      rcases hb with hb | ⟨-, hb⟩
      · exact first.alike _ a b ha hb
      · have same := first.label (n :: p)
        rw [ha, Option.map_some, Option.some_or, Option.map_eq_some_iff] at same
        obtain ⟨m, hm, eq⟩ := same
        have alike := rest.alike _ m b hm hb
        rw [Alike, show m.name = a.name from congrArg Prod.fst eq,
          show m.arguments = a.arguments from congrArg Prod.snd eq] at alike
        exact alike

end Merged

end RequestField

/-! ## The merges of validation -/

namespace Request

open RequestField

theorem updateField_found {name : String}
    {change : RequestField → Except ValidationError RequestField} {fields out : List RequestField}
    {e : RequestField} (h : updateField name change fields = .ok out)
    (found : fields.find? (·.outputName = name) = some e) :
    ∃ e', change e = .ok e' ∧ (e'.outputName = e.outputName →
      out.map outputName = fields.map outputName ∧
      out.find? (·.outputName = name) = some e' ∧
      ∀ n ≠ name, out.find? (·.outputName = n) = fields.find? (·.outputName = n)) := by
  induction fields generalizing out with
  | nil => cases found
  | cons f fs ih =>
    rw [updateField] at h
    rw [List.find?_cons] at found
    split at h
    · next same =>
      simp only [same, decide_true, Option.some.injEq] at found
      subst found
      cases changed : change f with
      | error fault => rw [changed] at h; cases h
      | ok e' =>
        rw [changed] at h
        cases h
        refine ⟨e', rfl, fun kept => ⟨by rw [List.map_cons, List.map_cons, kept], ?_, ?_⟩⟩
        · rw [List.find?_cons_of_pos (by simpa using kept.trans same)]
        · intro n ne
          have others : ¬ f.outputName = n := fun eq => ne (eq.symm.trans same)
          rw [List.find?_cons_of_neg (by simpa [kept] using others),
            List.find?_cons_of_neg (by simpa using others)]
    · next other =>
      simp only [other, decide_false] at found
      cases updated : updateField name change fs with
      | error fault => rw [updated] at h; cases h
      | ok fs' =>
        rw [updated] at h
        cases h
        obtain ⟨e', changed, keeps⟩ := ih updated found
        refine ⟨e', changed, fun kept => ?_⟩
        obtain ⟨names, here, others⟩ := keeps kept
        refine ⟨by rw [List.map_cons, List.map_cons, names], ?_, fun n ne => ?_⟩
        · rw [List.find?_cons_of_neg (by simpa using other), here]
        · rw [List.find?_cons, List.find?_cons, others n ne]

section

variable {position : Position}

mutual

/-- Adding a field merges it into the fields. -/
theorem mergeField_merged {fields out : List RequestField} :
    ∀ f : RequestField, mergeField position fields f = .ok out →
      (whole fields).Tidy → (whole [f]).Tidy → Merged (whole fields) (whole [f]) (whole out)
  | ⟨alias?, name, arguments, subfields⟩, h, tidy, tidy' => by
    rw [mergeField] at h
    split at h
    · next some =>
      cases found : fields.find? (·.outputName = alias?.getD name) with
      | none =>
        rw [find?_outputName_eq_none] at found
        exact absurd (by simpa using some) found
      | some e =>
        obtain ⟨e', changed, keeps⟩ := updateField_found h found
        split at changed
        · next same =>
          obtain ⟨merged, beneath, eq⟩ := bind_ok changed
          cases eq
          obtain ⟨names, here, others⟩ := keeps rfl
          have tidy'' := tidy'.found find?_singleton_self
          have all := mergeFields_merged subfields beneath (tidy.found found).subfields
            tidy''.subfields
          exact Merged.updated tidy found (Merged.node same all) names here others
        · cases changed
    · next fresh =>
      cases h
      refine Merged.append (fun n mem mem' => ?_) tidy tidy'
      rw [List.map_singleton, List.mem_singleton] at mem'
      obtain ⟨g, hg, eq⟩ := List.mem_map.mp mem
      exact fresh (List.any_eq_true.mpr ⟨g, hg, decide_eq_true (eq.trans mem')⟩)

/-- Adding fields one by one merges them into the fields. -/
theorem mergeFields_merged {fields out : List RequestField} :
    ∀ fs : List RequestField, mergeFields position fields fs = .ok out →
      (whole fields).Tidy → (whole fs).Tidy → Merged (whole fields) (whole fs) (whole out)
  | [], h, tidy, _ => by
    cases h
    exact .nil tidy
  | f :: fs, h, tidy, tidy' => by
    rw [mergeFields] at h
    obtain ⟨mid, hf, hfs⟩ := bind_ok h
    obtain ⟨fresh, first, rest⟩ := tidy'.cons
    have merged := mergeField_merged f hf tidy first
    exact merged.cons fresh (mergeFields_merged fs hfs merged.tidy rest) alike_whole

end

end

end Request

end GraphQLEngine
