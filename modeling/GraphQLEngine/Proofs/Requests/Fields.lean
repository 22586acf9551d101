import GraphQLEngine.Request.Basic

/-!
# Selected fields

What holds of the fields of a request at every level: how deep they are, and that none of them has
the output name of another one beside it.
-/

namespace GraphQLEngine

/-! ## Levels -/

theorem RequestField.depth_le_depths {f : RequestField} {fs : List RequestField} (mem : f ∈ fs) :
    f.depth ≤ RequestField.depths fs := by
  induction fs with
  | nil => cases mem
  | cons f' fs ih =>
    rw [RequestField.depths]
    rcases List.mem_cons.mp mem with rfl | mem
    · exact Nat.le_max_left _ _
    · exact Nat.le_trans (ih mem) (Nat.le_max_right _ _)

theorem RequestField.depths_le {fs : List RequestField} {n : Nat}
    (h : ∀ f ∈ fs, f.depth ≤ n) : RequestField.depths fs ≤ n := by
  induction fs with
  | nil => exact Nat.zero_le _
  | cons f fs ih =>
    rw [RequestField.depths]
    exact Nat.max_le.mpr
      ⟨h f List.mem_cons_self, ih fun f' hf' => h f' (List.mem_cons_of_mem _ hf')⟩

theorem RequestField.depth_eq (f : RequestField) :
    f.depth = 1 + RequestField.depths f.subfields := by
  obtain ⟨_, _, _, _⟩ := f
  rw [RequestField.depth]

theorem RequestField.depth_lt {f sub : RequestField} (mem : sub ∈ f.subfields) :
    sub.depth < f.depth := by
  have := RequestField.depth_le_depths mem
  rw [f.depth_eq]
  omega

/-! ## Output names -/

/-- No output name is used twice in a selection, at any level. -/
inductive RequestField.Distinct : RequestField → Prop
  | intro {f : RequestField} :
    (f.subfields.map RequestField.outputName).Nodup →
      (∀ sub ∈ f.subfields, sub.Distinct) → f.Distinct

theorem RequestField.Distinct.nodup {f : RequestField} (h : f.Distinct) :
    (f.subfields.map RequestField.outputName).Nodup := by
  cases h; assumption

theorem RequestField.Distinct.sub {f sub : RequestField} (h : f.Distinct)
    (mem : sub ∈ f.subfields) : sub.Distinct := by
  cases h with
  | intro _ subs => exact subs sub mem

/-- The field that stands for the whole of a selection. -/
def RequestField.whole (fields : List RequestField) : RequestField := ⟨none, "", [], fields⟩

end GraphQLEngine
