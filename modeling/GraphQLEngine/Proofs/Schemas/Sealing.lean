import GraphQLEngine.Dispatch.Table
import GraphQLEngine.Proofs.Schemas.Traversal

/-!
# Sealed tables

The search for reachable fields finds every field of every reachable type, so a sealed table has a
resolver for each of them.  Its kind goes by the type alone: of the subscription kind on the
subscription root, and of the field kind elsewhere.

    resolverFor ⟨typeName, f⟩ = ok _                  if `typeName` is not the subscription root
    resolverFor ⟨typeName, f⟩ = error (wrongKind …)   if it is
-/

namespace GraphQLEngine

namespace DispatchTable

variable {F S : Type}

/-- Nothing is wrong with the entry of a field exactly if it is there and of the kind of its type. -/
theorem fault_eq_none {t : DispatchTable F S} {s : Schema} {key : FieldKey} :
    t.fault? s key = none ↔
      ∃ h, t.find? key = some h ∧ h.kind = requiredKind s key.typeName := by
  unfold fault?
  cases found : t.find? key with
  | none => simp
  | some h => simp

/-- Sealing gives the table as it is.  It succeeds if each registered field is one of the schema, and
each field that is reachable has an entry of the kind of its type. -/
theorem sealFor_ok_iff {t t' : DispatchTable F S} {s : Schema} :
    t.sealFor s = .ok t' ↔ t' = t ∧ t.firstUnknown? s = none ∧
      ∀ typeName f, (typeName, f) ∈ s.reachableFields →
        ∃ h, t.find? ⟨typeName, f.name⟩ = some h ∧ h.kind = requiredKind s typeName := by
  have sound : (∀ typeName f, (typeName, f) ∈ s.reachableFields →
        ∃ h, t.find? ⟨typeName, f.name⟩ = some h ∧ h.kind = requiredKind s typeName) ↔
      ∀ entry ∈ s.reachableFields, t.fault? s ⟨entry.1, entry.2.name⟩ = none := by
    simp only [Prod.forall, fault_eq_none]
  rw [sound]
  unfold sealFor
  split
  · next key unknown =>
    rw [unknown]
    constructor
    · intro ok
      cases ok
    · rintro ⟨-, none, -⟩
      cases none
  · next known =>
    split
    · next e faulty =>
      constructor
      · intro ok
        cases ok
      · rintro ⟨-, -, fine⟩
        cases faulty.symm.trans (List.findSome?_eq_none_iff.mpr fine)
    · next noFault =>
      constructor
      · intro ok
        exact ⟨(Except.ok.inj ok).symm, known, List.findSome?_eq_none_iff.mp noFault⟩
      · rintro ⟨rfl, -, -⟩
        rfl

/-- A sealed table has an entry of the kind of its type for each field of a reachable type. -/
theorem find_of_sealed {t t' : DispatchTable F S} {spec : SchemaSpec} {s : Schema}
    (built : Schema.build spec = .ok s) (ok : t.sealFor s = .ok t') {typeName fieldName : String}
    (reached : s.Reaches typeName) {d : FieldDefinition}
    (found : s.field? typeName fieldName = some d) :
    ∃ h, t'.find? ⟨typeName, fieldName⟩ = some h ∧ h.kind = requiredKind s typeName := by
  obtain ⟨rfl, -, entries⟩ := sealFor_ok_iff.mp ok
  have filed := Schema.filed_of_build built
  obtain rfl := filed.name_of_field found
  exact entries typeName d (filed.mem_reachableFields.mpr ⟨reached, found⟩)

/-- A field of a reachable type has a field resolver, unless its type is the subscription root. -/
theorem resolverFor_of_sealed {t t' : DispatchTable F S} {spec : SchemaSpec} {s : Schema}
    (built : Schema.build spec = .ok s) (ok : t.sealFor s = .ok t') {typeName fieldName : String}
    (reached : s.Reaches typeName) {d : FieldDefinition}
    (found : s.field? typeName fieldName = some d) :
    if s.isSubscriptionRoot typeName then
      t'.resolverFor ⟨typeName, fieldName⟩ = .error (.wrongKind ⟨typeName, fieldName⟩ .field) ∧
        ∃ resolver, t'.subscriptionResolverFor ⟨typeName, fieldName⟩ = .ok resolver
    else ∃ resolver, t'.resolverFor ⟨typeName, fieldName⟩ = .ok resolver := by
  obtain ⟨h, hfind, kind⟩ := find_of_sealed built ok reached found
  rw [requiredKind] at kind
  split
  · next root =>
    rw [if_pos root] at kind
    cases h with
    | field resolver => cases kind
    | subscription resolver =>
      rw [resolverFor, subscriptionResolverFor, hfind]
      exact ⟨rfl, resolver, rfl⟩
  · next root =>
    rw [if_neg root] at kind
    cases h with
    | field resolver =>
      rw [resolverFor, hfind]
      exact ⟨resolver, rfl⟩
    | subscription resolver => cases kind

end DispatchTable

end GraphQLEngine
