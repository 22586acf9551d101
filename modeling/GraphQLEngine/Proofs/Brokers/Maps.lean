import GraphQLEngine.Proofs.Brokers.Registrations
import GraphQLEngine.Proofs.Lists
import Mathlib.Data.List.Perm.Basic
import Mathlib.Data.List.Nodup

/-!
# The maps of a broker

A broker files a registration twice: under its number, and in the group of its topic.  Neither map
has a key twice, a group with nobody in it is taken out, and the numbers are those of the sinks,
which are never removed.  With the agreement of both maps, a group has as many members as there are
registrations under its topic.

    lookup id topics = some topic ↔ id ∈ (subscribers topic).map id
    count topic = (topics.filter (·.2 = topic)).length
-/

namespace GraphQLEngine

namespace OrderedMap

variable {α : Type}

theorem nodup_erase {m : OrderedMap α} (nodup : (m.map Prod.fst).Nodup) (k : String) :
    ((m.erase k).map Prod.fst).Nodup :=
  nodup.sublist (List.filter_sublist.map _)

end OrderedMap

namespace InProcessBroker

variable {b b' : InProcessBroker} {id : Nat} {topic : String} {filter : EventFilter}
  {policy : DeliveryPolicy}

/-- No key is used twice, and there is a subscriber in each group. -/
structure Filed (b : InProcessBroker) : Prop where
  topics : (b.topics.map Prod.fst).Nodup
  groups : (b.groups.map Prod.fst).Nodup
  inhabited : ∀ group ∈ b.groups, group.2 ≠ []

/-! ## What keeps the maps in order -/

theorem Filed.congr (f : Filed b) (groups : b'.groups = b.groups) (topics : b'.topics = b.topics) :
    Filed b' := by
  constructor
  · rw [topics]
    exact f.topics
  · rw [groups]
    exact f.groups
  · rw [groups]
    exact f.inhabited

theorem filed_new : Filed .new := by
  constructor
  · exact List.nodup_nil
  · exact List.nodup_nil
  · intro group mem
    cases mem

theorem Filed.unsubscribe (f : Filed b) (id : Nat) : Filed (b.unsubscribe id) := by
  cases found : b.topics.lookup id with
  | none => rwa [unsubscribe_none found]
  | some topic =>
    simp only [InProcessBroker.unsubscribe, found]
    constructor
    · exact f.topics.sublist (List.filter_sublist.map _)
    · show (List.map Prod.fst (if _ then _ else _)).Nodup
      split
      · exact OrderedMap.nodup_erase f.groups topic
      · exact OrderedMap.nodup_insert f.groups topic _
    · intro group mem
      dsimp only at mem
      split at mem
      · exact f.inhabited group (List.mem_filter.mp mem).1
      · next some_ =>
        rcases OrderedMap.mem_insert mem with old | rfl
        · exact f.inhabited group old
        · simpa using some_

theorem Filed.unsubscribeAll (f : Filed b) (ids : List Nat) : Filed (b.unsubscribeAll ids) := by
  induction ids generalizing b with
  | nil => exact f
  | cons id ids ih => exact ih (f.unsubscribe id)

theorem Filed.subscribe (f : Filed b) (h : Consistent b)
    (ok : b.subscribe topic filter policy = .ok (b', id)) : Filed b' := by
  obtain ⟨-, -, fresh, rfl⟩ := subscribe_ok ok
  constructor
  · show ((b.topics ++ [(id, topic)]).map Prod.fst).Nodup
    rw [List.map_append, List.nodup_append]
    refine ⟨f.topics, List.nodup_singleton id, ?_⟩
    rintro old mem new one rfl
    obtain ⟨⟨i, t⟩, at', rfl⟩ := List.mem_map.mp mem
    have found := h.known i t (lookup_of_mem f.topics at')
    have last : i = id := List.mem_singleton.mp one
    omega
  · exact OrderedMap.nodup_insert f.groups topic _
  · intro group mem
    rcases OrderedMap.mem_insert mem with old | rfl
    · exact f.inhabited group old
    · simp

theorem Filed.publish (f : Filed b) (topic : String) (event : Json) :
    Filed (b.publish topic event) := by
  unfold InProcessBroker.publish
  split
  · exact f
  · apply Filed.unsubscribeAll
    exact f.congr rfl rfl

theorem Filed.receive (f : Filed b) (id : Nat) : Filed (b.receive id).1 := by
  obtain ⟨groups, topics, -⟩ := b.receive_frame id
  exact f.congr groups topics

theorem Filed.shutdown (f : Filed b) : Filed b.shutdown := by
  apply Filed.unsubscribeAll
  exact f.congr rfl rfl

/-! ## The number of the sinks -/

theorem length_unsubscribe (b : InProcessBroker) (id : Nat) :
    (b.unsubscribe id).sinks.length = b.sinks.length := by
  cases found : b.topics.lookup id with
  | none => rw [unsubscribe_none found]
  | some topic => rw [sinks_unsubscribe found, List.length_modify]

theorem length_unsubscribeAll (ids : List Nat) (b : InProcessBroker) :
    (b.unsubscribeAll ids).sinks.length = b.sinks.length := by
  induction ids generalizing b with
  | nil => rfl
  | cons id ids ih => exact (ih (b.unsubscribe id)).trans (length_unsubscribe b id)

theorem length_publish (b : InProcessBroker) (topic : String) (event : Json) :
    (b.publish topic event).sinks.length = b.sinks.length := by
  unfold publish
  split
  · rfl
  · exact (length_unsubscribeAll _ _).trans (length_offerAll event _ _)

theorem length_receive (b : InProcessBroker) (id : Nat) :
    (b.receive id).1.sinks.length = b.sinks.length := by
  unfold receive
  split
  · rfl
  · exact List.length_set

theorem length_shutdown (b : InProcessBroker) : b.shutdown.sinks.length = b.sinks.length :=
  length_unsubscribeAll _ _

/-! ## Looking up -/

theorem shutDown_shutdown (b : InProcessBroker) : b.shutdown.shutDown = true := by
  unfold shutdown
  rw [unsubscribeAll_shutDown]

/-- Why a subscriber is not registered: the first reason that applies. -/
def refusal? (b : InProcessBroker) (topic : String) (policy : DeliveryPolicy) :
    Option BrokerError :=
  if Text.isBlankText topic then some (.invalidTopic topic)
  else if policy.capacity = 0 then some .invalidCapacity
  else if b.shutDown then some .shutDown
  else none

theorem subscribe_error_iff {e : BrokerError} :
    b.subscribe topic filter policy = .error e ↔ b.refusal? topic policy = some e := by
  unfold subscribe refusal?
  split
  · simp
  · split
    · simp
    · split <;> simp

/-- The groups are looked up by their topics. -/
theorem Filed.subscribers_eq (f : Filed b) {group : List Subscriber}
    (mem : (topic, group) ∈ b.groups) : b.subscribers topic = group := by
  rw [subscribers, lookup_of_mem f.groups mem]
  rfl

/-- Where both maps have the same registrations, the members of a group can be counted in either. -/
theorem Filed.count_eq (f : Filed b) (distinct : ((b.subscribers topic).map (·.id)).Nodup)
    (same : ∀ id, b.topics.lookup id = some topic ↔ id ∈ (b.subscribers topic).map (·.id)) :
    b.count topic = (b.topics.filter (·.2 = topic)).length := by
  have perm : ((b.subscribers topic).map (·.id)).Perm
      ((b.topics.filter (·.2 = topic)).map Prod.fst) := by
    refine (List.perm_ext_iff_of_nodup distinct (f.topics.sublist (List.filter_sublist.map _))).mpr
      fun id => ?_
    rw [← same id, List.mem_map]
    constructor
    · intro found
      exact ⟨(id, topic), by simp [mem_of_lookup found], rfl⟩
    · rintro ⟨⟨i, t⟩, mem, rfl⟩
      obtain ⟨found, at'⟩ := List.mem_filter.mp mem
      obtain rfl : t = topic := by simpa using at'
      exact lookup_of_mem f.topics found
  have lengths := perm.length_eq
  rwa [List.length_map, List.length_map] at lengths

end InProcessBroker

end GraphQLEngine
