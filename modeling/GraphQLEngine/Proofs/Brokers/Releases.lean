import GraphQLEngine.Proofs.Brokers.Calls
import GraphQLEngine.Proofs.Brokers.Maps
import GraphQLEngine.Proofs.Brokers.Turns

/-!
# Who is registered

A registration is in a broker if either of its maps knows it.  Only to subscribe adds one, which has a
number that was never given out; to release one takes no other away; all else that is done adds none.

    (unsubscribe b id).Files other  ↔  other ≠ id ∧ b.Files other
    subscribe b … = ok (b', id)  →  (b'.Files other ↔ b.Files other ∨ other = id)
    Sheds b (publish b topic event)
-/

namespace GraphQLEngine

namespace InProcessBroker

variable {b b' b'' : InProcessBroker} {id other : Nat}

/-- One of the maps of the broker has the registration. -/
def Files (b : InProcessBroker) (id : Nat) : Prop :=
  b.topics.lookup id ≠ none ∨ ∃ topic, id ∈ b.members topic

/-- The maps agree. -/
structure InOrder (b : InProcessBroker) : Prop where
  consistent : Consistent b
  grouped : Grouped b

theorem inOrder_new : InOrder .new :=
  ⟨consistent_new, fun _ _ found => by cases found⟩

theorem InOrder.congr (o : InOrder b) (groups : b'.groups = b.groups) (topics : b'.topics = b.topics)
    (length : b'.sinks.length = b.sinks.length) : InOrder b' := by
  have subscribers : ∀ topic, b'.subscribers topic = b.subscribers topic := by
    intro topic
    rw [InProcessBroker.subscribers, InProcessBroker.subscribers, groups]
  refine ⟨⟨fun topic s mem => ?_, fun topic => ?_, fun id topic found => ?_⟩, fun id topic found => ?_⟩
  · rw [topics]
    exact o.consistent.filed topic s (subscribers topic ▸ mem)
  · rw [subscribers]
    exact o.consistent.distinct topic
  · rw [length]
    exact o.consistent.known id topic (topics ▸ found)
  · rw [members, subscribers]
    exact o.grouped id topic (topics ▸ found)

/-- What one map has, the other has too. -/
theorem InOrder.files_iff (o : InOrder b) : b.Files id ↔ b.topics.lookup id ≠ none := by
  refine ⟨?_, .inl⟩
  rintro (listed | ⟨topic, mem⟩)
  · exact listed
  · obtain ⟨s, at', rfl⟩ := List.mem_map.mp mem
    rw [o.consistent.filed topic s at']
    exact nofun

theorem InOrder.below (o : InOrder b) (files : b.Files id) : id < b.sinks.length := by
  obtain ⟨topic, found⟩ := Option.ne_none_iff_exists'.mp (o.files_iff.mp files)
  exact o.consistent.known id topic found

/-! ## Releasing -/

theorem InOrder.unsubscribe (o : InOrder b) (id : Nat) : InOrder (b.unsubscribe id) :=
  ⟨consistent_unsubscribe o.consistent id, o.grouped.unsubscribe id⟩

/-- To release a registration takes no other away. -/
theorem InOrder.files_unsubscribe (o : InOrder b) :
    (b.unsubscribe id).Files other ↔ other ≠ id ∧ b.Files other := by
  rw [(o.unsubscribe id).files_iff, o.files_iff, topics_unsubscribe]
  split
  · next same => simp [same]
  · next ne => simp [ne]

/-! ## Registering -/

section

variable {topic : String} {filter : EventFilter} {policy : DeliveryPolicy}

theorem InOrder.subscribe (o : InOrder b) (ok : b.subscribe topic filter policy = .ok (b', id)) :
    InOrder b' := by
  refine ⟨consistent_subscribe o.consistent ok, fun other t found => ?_⟩
  rw [topics_subscribe ok] at found
  rw [members, subscribers_subscribe ok]
  cases old : b.topics.lookup other with
  | some t' =>
    rw [old] at found
    cases found
    have mem := o.grouped other t old
    split
    · next same =>
      rw [List.map_append]
      exact List.mem_append_left _ (same ▸ mem)
    · exact mem
  | none =>
    rw [old, Option.none_or] at found
    split at found
    · next same =>
      cases found
      rw [if_pos rfl, List.map_append]
      exact List.mem_append_right _ (List.mem_singleton.mpr same)
    · cases found

/-- To subscribe adds one registration, with a number that no one had before. -/
theorem InOrder.files_subscribe (o : InOrder b) (ok : b.subscribe topic filter policy = .ok (b', id)) :
    ¬ b.Files id ∧ ∀ other, b'.Files other ↔ b.Files other ∨ other = id := by
  obtain ⟨-, -, fresh, -⟩ := subscribe_ok ok
  refine ⟨fun files => absurd (o.below files) (by omega), fun other => ?_⟩
  rw [(o.subscribe ok).files_iff, o.files_iff, topics_subscribe ok]
  by_cases same : other = id
  · simp [same]
  · simp [same]

end

/-! ## All else -/

/-- The maps stay in order, no number is given out, and nobody new is registered. -/
structure Sheds (b b' : InProcessBroker) : Prop where
  inOrder : InOrder b → InOrder b'
  length : b'.sinks.length = b.sinks.length
  fewer : ∀ id topic, b'.topics.lookup id = some topic → b.topics.lookup id = some topic

namespace Sheds

theorem refl (b : InProcessBroker) : Sheds b b := ⟨id, rfl, fun _ _ => id⟩

theorem trans (s : Sheds b b') (s' : Sheds b' b'') : Sheds b b'' :=
  ⟨fun o => s'.inOrder (s.inOrder o), s'.length.trans s.length,
    fun id topic found => s.fewer id topic (s'.fewer id topic found)⟩

/-- The maps are left alone. -/
theorem of_maps (groups : b'.groups = b.groups) (topics : b'.topics = b.topics)
    (length : b'.sinks.length = b.sinks.length) : Sheds b b' :=
  ⟨fun o => o.congr groups topics length, length, fun _ _ found => topics ▸ found⟩

theorem unsubscribe (b : InProcessBroker) (id : Nat) : Sheds b (b.unsubscribe id) where
  inOrder o := o.unsubscribe id
  length := length_unsubscribe b id
  fewer other topic found := by
    rw [topics_unsubscribe] at found
    split at found
    · cases found
    · exact found

theorem unsubscribeAll (ids : List Nat) (b : InProcessBroker) : Sheds b (b.unsubscribeAll ids) := by
  induction ids generalizing b with
  | nil => exact .refl b
  | cons id ids ih => exact (Sheds.unsubscribe b id).trans (ih _)

/-- Registrations are released after the sinks have changed. -/
theorem releasing {b₁ : InProcessBroker} (groups : b₁.groups = b.groups)
    (topics : b₁.topics = b.topics) (length : b₁.sinks.length = b.sinks.length) (ids : List Nat) :
    Sheds b (b₁.unsubscribeAll ids) :=
  (of_maps groups topics length).trans (unsubscribeAll ids b₁)

theorem publish (b : InProcessBroker) (topic : String) (event : Json) :
    Sheds b (b.publish topic event) := by
  cases down : b.shutDown with
  | true =>
    rw [InProcessBroker.publish, if_pos down]
    exact .refl b
  | false =>
    rw [publish_running down]
    exact releasing (by rfl) (by rfl) (by exact length_offerAll event _ _) _

theorem overflowAll (b : InProcessBroker) (ids : List Nat) : Sheds b (b.overflowAll ids) := by
  obtain ⟨hit, -, eq⟩ := b.overflowAll_hit ids
  rw [eq]
  exact releasing (by rfl) (by rfl) (by exact length_foldl_overflow hit b.sinks) hit

theorem shutdown (b : InProcessBroker) : Sheds b b.shutdown :=
  (of_maps rfl rfl rfl : Sheds b { b with shutDown := true }).trans (unsubscribeAll _ _)

theorem receive (b : InProcessBroker) (id : Nat) : Sheds b (b.receive id).1 :=
  of_maps (b.receive_frame id).1 (b.receive_frame id).2.1 (length_receive b id)

theorem endures : Endures Sheds := ⟨refl, trans, unsubscribe, publish, overflowAll, shutdown⟩

/-- Nobody new is registered. -/
theorem files (s : Sheds b b') (o : InOrder b) (files : b'.Files id) : b.Files id := by
  obtain ⟨topic, found⟩ := Option.ne_none_iff_exists'.mp ((s.inOrder o).files_iff.mp files)
  exact .inl (by rw [s.fewer id topic found]; exact nofun)

end Sheds

/-- To receive takes nobody off the broker. -/
theorem files_receive (b : InProcessBroker) (id : Nat) :
    (b.receive id).1.Files other ↔ b.Files other := by
  obtain ⟨groups, topics, -⟩ := b.receive_frame id
  simp only [Files, members, subscribers, groups, topics]

end InProcessBroker

end GraphQLEngine
