/-!
# Lists

Look-ups in lists of pairs, and lists without repetitions: `eraseDups` keeps the first of equal items
where it stands.
-/

namespace GraphQLEngine

/-! ## Look-ups -/

section

variable {κ α β : Type} [BEq κ] [LawfulBEq κ]

theorem lookup_map_snd (f : κ → α → β) (l : List (κ × α)) (n : κ) :
    (l.map fun (m, a) => (m, f m a)).lookup n = (l.lookup n).map (f n) := by
  induction l with
  | nil => rfl
  | cons x rest ih =>
    obtain ⟨m, a⟩ := x
    rw [List.map_cons, List.lookup_cons, List.lookup_cons, ih]
    by_cases h : n = m
    · subst h; simp
    · simp [beq_eq_false_iff_ne.mpr h]

/-- When no key is used twice, what is under a key is found. -/
theorem lookup_of_mem {l : List (κ × α)} {k : κ} {a : α} (nodup : (l.map Prod.fst).Nodup)
    (mem : (k, a) ∈ l) : l.lookup k = some a := by
  induction l with
  | nil => cases mem
  | cons x rest ih =>
    obtain ⟨k', a'⟩ := x
    rw [List.map_cons, List.nodup_cons] at nodup
    rw [List.lookup_cons]
    rcases List.mem_cons.mp mem with eq | mem
    · cases eq
      simp
    · have ne : k ≠ k' := fun eq => nodup.1 (List.mem_map.mpr ⟨(k, a), mem, eq⟩)
      simp [beq_eq_false_iff_ne.mpr ne, ih nodup.2 mem]

theorem mem_of_lookup {l : List (κ × α)} {k : κ} {a : α} (h : l.lookup k = some a) :
    (k, a) ∈ l := by
  obtain ⟨l₁, l₂, rfl, -⟩ := List.lookup_eq_some_iff.mp h
  simp

/-- When no key is used twice, the order of the pairs is all the same. -/
theorem lookup_perm {l l' : List (κ × α)} (perm : l.Perm l') (nodup : (l.map Prod.fst).Nodup)
    (k : κ) : l.lookup k = l'.lookup k := by
  have nodup' := (perm.map Prod.fst).nodup_iff.mp nodup
  apply Option.ext
  intro a
  exact ⟨fun found => lookup_of_mem nodup' (perm.mem_iff.mp (mem_of_lookup found)),
    fun found => lookup_of_mem nodup (perm.mem_iff.mpr (mem_of_lookup found))⟩

end

/-! ## Repetitions -/

section

variable {α : Type} [BEq α] [LawfulBEq α]

theorem nodup_eraseDups (xs : List α) : xs.eraseDups.Nodup := by
  induction hk : xs.length using Nat.strongRecOn generalizing xs with
  | ind k ih =>
    cases xs with
    | nil => exact List.nodup_nil
    | cons x xs =>
      have shorter := List.length_filter_le (fun y => !y == x) xs
      rw [List.eraseDups_cons, List.nodup_cons, List.mem_eraseDups]
      refine ⟨by simp, ih _ ?_ _ rfl⟩
      rw [List.length_cons] at hk
      omega

theorem eraseDups_of_nodup {xs : List α} (nodup : xs.Nodup) : xs.eraseDups = xs := by
  induction xs with
  | nil => rfl
  | cons x xs ih =>
    obtain ⟨fresh, nodup⟩ := List.nodup_cons.mp nodup
    have others : xs.filter (fun y => !y == x) = xs := by
      refine List.filter_eq_self.mpr fun y mem => ?_
      have ne : y ≠ x := fun eq => fresh (eq ▸ mem)
      simp [ne]
    rw [List.eraseDups_cons, others, ih nodup]

/-- Leaving out some of the items commutes with leaving out repetitions. -/
theorem eraseDups_filter (p : α → Bool) (xs : List α) :
    (xs.filter p).eraseDups = xs.eraseDups.filter p := by
  induction hk : xs.length using Nat.strongRecOn generalizing xs with
  | ind k ih =>
    cases xs with
    | nil => rfl
    | cons x xs =>
      have shorter := List.length_filter_le (fun y => !y == x) xs
      rw [List.length_cons] at hk
      have rest := ih _ (by omega) (xs.filter fun y => !y == x) rfl
      rw [List.eraseDups_cons, List.filter_cons, List.filter_cons, ← rest]
      by_cases keep : p x
      · rw [if_pos keep, if_pos keep, List.eraseDups_cons, List.filter_filter, List.filter_filter]
        simp only [Bool.and_comm]
      · have others : (xs.filter fun y => !y == x).filter p = xs.filter p := by
          rw [List.filter_filter]
          refine List.filter_congr fun y _ => ?_
          by_cases eq : y = x
          · subst eq; simp [keep]
          · simp [eq]
        rw [if_neg keep, if_neg keep, others]

/-- An item, and then the others where they come first. -/
theorem eraseDups_cons_filter (x : α) (xs : List α) :
    (x :: xs).eraseDups = x :: xs.eraseDups.filter (fun y => !y == x) := by
  rw [List.eraseDups_cons, eraseDups_filter]

theorem eraseDups_append_left (xs ys : List α) :
    (xs.eraseDups ++ ys).eraseDups = (xs ++ ys).eraseDups := by
  have same : ys.removeAll xs.eraseDups = ys.removeAll xs :=
    List.filter_congr fun y _ => by simp
  rw [List.eraseDups_append, List.eraseDups_append, same,
    eraseDups_of_nodup (nodup_eraseDups xs)]

theorem eraseDups_append_right (xs ys : List α) :
    (xs ++ ys.eraseDups).eraseDups = (xs ++ ys).eraseDups := by
  have same : (ys.eraseDups.removeAll xs).eraseDups = (ys.removeAll xs).eraseDups := by
    unfold List.removeAll
    rw [eraseDups_filter, eraseDups_filter, eraseDups_of_nodup (nodup_eraseDups ys)]
  rw [List.eraseDups_append, List.eraseDups_append, same]

end

/-! ## Images -/

/-- Lists of the same images are the same, where a function is injective. -/
theorem eq_of_map_eq {α β : Type} {f : α → β} {xs ys : List α}
    (injective : ∀ x ∈ xs, ∀ y ∈ ys, f x = f y → x = y) (same : xs.map f = ys.map f) : xs = ys := by
  induction xs generalizing ys with
  | nil => exact (List.map_eq_nil_iff.mp same.symm).symm
  | cons x xs ih =>
    cases ys with
    | nil => cases same
    | cons y ys =>
      obtain ⟨first, rest⟩ := List.cons_eq_cons.mp same
      rw [injective x List.mem_cons_self y List.mem_cons_self first, ih (fun x mem y mem' =>
        injective x (List.mem_cons_of_mem _ mem) y (List.mem_cons_of_mem _ mem')) rest]

end GraphQLEngine
