import GraphQLEngine.Schema.Basic

/-!
# Reachable fields

`Schema.reachableFields` lists the fields of the object types that are reachable from the roots:
the types in breadth-first order from the query, mutation and subscription roots, each once, its
fields in the order of their declaration.

The search keeps the names it has visited.  It ends because each step either takes a name off the
queue or visits a type that was not visited before.
-/

namespace GraphQLEngine

theorem length_filter_cons_lt {l : List String} {x : String} {seen : List String}
    (hx : x ∈ l) (hs : x ∉ seen) :
    (l.filter (· ∉ x :: seen)).length < (l.filter (· ∉ seen)).length := by
  induction l with
  | nil => simp at hx
  | cons y ys ih =>
    have mono : (ys.filter (· ∉ x :: seen)).length ≤ (ys.filter (· ∉ seen)).length := by
      rw [← List.countP_eq_length_filter, ← List.countP_eq_length_filter]
      apply List.countP_mono_left
      intro z _ hz
      simp only [List.mem_cons, not_or, decide_eq_true_eq] at hz ⊢
      exact hz.2
    by_cases hy : y = x
    · subst hy
      have dropped : (y :: ys).filter (· ∉ y :: seen) = ys.filter (· ∉ y :: seen) := by
        simp
      have kept : (y :: ys).filter (· ∉ seen) = y :: ys.filter (· ∉ seen) := by
        simp [hs]
      rw [dropped, kept, List.length_cons]
      omega
    · have hx' : x ∈ ys := by
        rcases List.mem_cons.1 hx with h | h
        · exact absurd h.symm hy
        · exact h
      have := ih hx'
      by_cases hys : y ∈ seen
      · have dropped : (y :: ys).filter (· ∉ x :: seen) = ys.filter (· ∉ x :: seen) := by
          simp [hys]
        have dropped' : (y :: ys).filter (· ∉ seen) = ys.filter (· ∉ seen) := by
          simp [hys]
        rw [dropped, dropped']
        exact this
      · have kept : (y :: ys).filter (· ∉ x :: seen) = y :: ys.filter (· ∉ x :: seen) := by
          simp [hys, hy]
        have kept' : (y :: ys).filter (· ∉ seen) = y :: ys.filter (· ∉ seen) := by
          simp [hys]
        rw [kept, kept', List.length_cons, List.length_cons]
        omega

namespace Schema

/-- Continue the search with the names of `queue`, having visited those of `seen`. -/
def searchFields (s : Schema) (seen queue : List String) : List (String × FieldDefinition) :=
  match queue with
  | [] => []
  | name :: queue =>
    if name ∈ seen then searchFields s seen queue
    else
      match _found : s.types.get? name with
      | none => searchFields s (name :: seen) queue
      | some t =>
        match t.fields? with
        | none => searchFields s (name :: seen) queue
        | some fields =>
          let found := OrderedMap.values fields
          found.map (fun f => (t.name, f)) ++
            searchFields s (name :: seen) (queue ++ found.map fun f => f.type.innermost)
termination_by ((s.types.keys.filter (· ∉ seen)).length, queue.length)
decreasing_by
  · exact Prod.Lex.right _ (by simp)
  · by_cases hk : name ∈ s.types.keys
    · exact Prod.Lex.left _ _ (length_filter_cons_lt hk ‹_›)
    · have : s.types.keys.filter (· ∉ name :: seen) = s.types.keys.filter (· ∉ seen) := by
        apply List.filter_congr
        intro x hx
        have : x ≠ name := fun e => hk (e ▸ hx)
        simp [this]
      rw [this]
      exact Prod.Lex.right _ (by simp)
  · exact Prod.Lex.left _ _ (length_filter_cons_lt (Arena.mem_keys_of_get? _found) ‹_›)
  · exact Prod.Lex.left _ _ (length_filter_cons_lt (Arena.mem_keys_of_get? _found) ‹_›)

/-- Every pair of an object type and a field that a selection can reach from the roots. -/
def reachableFields (s : Schema) : List (String × FieldDefinition) := searchFields s [] s.roots

end Schema

end GraphQLEngine
