import GraphQLEngine.Broker.InProcess

/-!
# One registration of a broker

The topics and the groups of a broker agree in every state that its operations lead to.  Then each
operation can be read from the side of one registration: it is held, with its subscriber in the
group of its topic, until it is released, and from then on only its receiver touches its sink.

    Holds b id topic filter s  →  Released (unsubscribe b id) id s.close
    Holds b id topic filter s  →  t ≠ topic ∨ ¬ filter e  →  Holds (publish b t e) id topic filter s
-/

namespace GraphQLEngine

namespace OrderedMap

variable {α : Type}

theorem lookup_erase_self (m : OrderedMap α) (k : String) : (m.erase k).lookup k = none := by
  rw [List.lookup_eq_none_iff]
  rintro ⟨j, v⟩ h
  have hj : j ≠ k := by simpa using (List.mem_filter.mp h).2
  simpa using fun e : k = j => hj e.symm

theorem lookup_erase_of_ne (m : OrderedMap α) {j k : String} (h : j ≠ k) :
    (m.erase k).lookup j = m.lookup j := by
  induction m with
  | nil => rfl
  | cons e rest ih =>
    obtain ⟨i, w⟩ := e
    simp only [erase] at ih ⊢
    by_cases hi : i = k
    · subst hi
      have hb : (j == i) = false := by simpa using h
      simpa [List.lookup_cons, hb] using ih
    · rw [List.filter_cons_of_pos (by simpa using hi)]
      by_cases hj : j = i
      · subst hj
        simp
      · have hb : (j == i) = false := by simpa using hj
        simpa [List.lookup_cons, hb] using ih

end OrderedMap

/-- The topics of the registrations that are left after one is released. -/
theorem lookup_filter_ne (topics : List (Nat × String)) (id other : Nat) :
    (topics.filter (·.1 ≠ id)).lookup other = if other = id then none else topics.lookup other := by
  induction topics with
  | nil => simp
  | cons e rest ih =>
    obtain ⟨i, t⟩ := e
    by_cases hi : i = id
    · subst hi
      rw [List.filter_cons_of_neg (by simp), ih]
      by_cases ho : other = i
      · rw [if_pos ho, if_pos ho]
      · have hb : (other == i) = false := by simpa using ho
        rw [if_neg ho, if_neg ho, List.lookup_cons, hb]
    · rw [List.filter_cons_of_pos (by simpa using hi)]
      by_cases ho : other = i
      · subst ho
        rw [if_neg hi]
        simp
      · have hb : (other == i) = false := by simpa using ho
        simpa only [List.lookup_cons, hb] using ih

/-- The subscriber of a sink with such an outcome is to be released. -/
def PushOutcome.Ends (outcome : PushOutcome) : Prop := outcome = .overflowed ∨ outcome = .closed

namespace InProcessBroker

/-- The topics, the groups and the sinks of a broker agree. -/
structure Consistent (b : InProcessBroker) : Prop where
  filed : ∀ topic, ∀ s ∈ b.subscribers topic, b.topics.lookup s.id = some topic
  distinct : ∀ topic, ((b.subscribers topic).map (·.id)).Nodup
  known : ∀ id topic, b.topics.lookup id = some topic → id < b.sinks.length

/-- A registration that has not been released. -/
structure Holds (b : InProcessBroker) (id : Nat) (topic : String) (filter : EventFilter)
    (sink : Sink) : Prop where
  running : b.shutDown = false
  listed : b.topics.lookup id = some topic
  member : ⟨id, filter⟩ ∈ b.subscribers topic
  kept : b.sinks[id]? = some sink

/-- A registration that has been released. -/
structure Released (b : InProcessBroker) (id : Nat) (sink : Sink) : Prop where
  unlisted : b.topics.lookup id = none
  kept : b.sinks[id]? = some sink

variable {b : InProcessBroker} {id other : Nat} {topic t : String} {filter : EventFilter}
  {sink : Sink} {event : Json}

theorem consistent_new : Consistent .new where
  filed := fun _ _ h => nomatch h
  distinct := fun _ => .nil
  known := fun _ _ h => nomatch h

/-- Only the number of the sinks matters to their broker. -/
theorem Consistent.withSinks (h : Consistent b) {sinks : List Sink}
    (length : sinks.length = b.sinks.length) : Consistent { b with sinks } where
  filed := h.filed
  distinct := h.distinct
  known := fun id topic found => length ▸ h.known id topic found

theorem Released.not_mem (r : Released b id sink) (h : Consistent b) (topic : String) :
    id ∉ (b.subscribers topic).map (·.id) := by
  rintro mem
  obtain ⟨s, hs, rfl⟩ := List.mem_map.mp mem
  have found := h.filed topic s hs
  rw [r.unlisted] at found
  cases found

theorem Holds.not_mem (r : Holds b id topic filter sink) (h : Consistent b) (ne : t ≠ topic) :
    id ∉ (b.subscribers t).map (·.id) := by
  rintro mem
  obtain ⟨s, hs, rfl⟩ := List.mem_map.mp mem
  have found := h.filed t s hs
  rw [r.listed] at found
  exact ne (Option.some.inj found).symm

/-! ## Releasing -/

theorem subscribers_unsubscribe (found : b.topics.lookup id = some topic) (t : String) :
    (b.unsubscribe id).subscribers t =
      if t = topic then (b.subscribers topic).filter (·.id ≠ id) else b.subscribers t := by
  simp only [unsubscribe, found]
  by_cases ht : t = topic
  · subst ht
    rw [if_pos rfl]
    show (List.lookup t (if _ then _ else _)).getD [] = _
    split
    · next none =>
      rw [OrderedMap.lookup_erase_self, List.isEmpty_iff.mp none]
      rfl
    · rw [OrderedMap.lookup_insert_self]
      rfl
  · rw [if_neg ht]
    show (List.lookup t (if _ then _ else _)).getD [] = (List.lookup t b.groups).getD []
    split
    · rw [OrderedMap.lookup_erase_of_ne _ ht]
    · rw [OrderedMap.lookup_insert_of_ne _ _ ht]

theorem topics_unsubscribe (b : InProcessBroker) (id other : Nat) :
    (b.unsubscribe id).topics.lookup other =
      if other = id then none else b.topics.lookup other := by
  unfold unsubscribe
  cases found : b.topics.lookup id with
  | none =>
    by_cases ho : other = id
    · rw [if_pos ho, ho]
      exact found
    · rw [if_neg ho]
  | some topic => exact lookup_filter_ne _ _ _

theorem sinks_unsubscribe (found : b.topics.lookup id = some topic) :
    (b.unsubscribe id).sinks = b.sinks.modify id Sink.close := by
  simp only [unsubscribe, found]

theorem unsubscribe_none (found : b.topics.lookup id = none) : b.unsubscribe id = b := by
  simp only [unsubscribe, found]

theorem shutDown_unsubscribe (b : InProcessBroker) (id : Nat) :
    (b.unsubscribe id).shutDown = b.shutDown := by
  unfold unsubscribe
  cases b.topics.lookup id <;> rfl

theorem consistent_unsubscribe (h : Consistent b) (id : Nat) : Consistent (b.unsubscribe id) := by
  cases found : b.topics.lookup id with
  | none => rwa [unsubscribe_none found]
  | some topic =>
    constructor
    · intro t s hs
      rw [subscribers_unsubscribe found] at hs
      rw [topics_unsubscribe]
      split at hs
      · next ht =>
        obtain ⟨hs, ne⟩ := List.mem_filter.mp hs
        rw [if_neg (by simpa using ne), ht]
        exact h.filed topic s hs
      · next ht =>
        have at' := h.filed t s hs
        rw [if_neg, at']
        rintro rfl
        exact ht (Option.some.inj (at'.symm.trans found))
    · intro t
      rw [subscribers_unsubscribe found]
      split
      · exact (h.distinct topic).sublist (List.filter_sublist.map _)
      · exact h.distinct t
    · intro i t at'
      rw [topics_unsubscribe] at at'
      rw [sinks_unsubscribe found, List.length_modify]
      split at at'
      · cases at'
      · exact h.known i t at'

theorem Holds.unsubscribe_ne (r : Holds b id topic filter sink) (ne : id ≠ other) :
    Holds (b.unsubscribe other) id topic filter sink := by
  cases found : b.topics.lookup other with
  | none => rwa [unsubscribe_none found]
  | some t =>
    constructor
    · rw [shutDown_unsubscribe]
      exact r.running
    · rw [topics_unsubscribe, if_neg ne]
      exact r.listed
    · rw [subscribers_unsubscribe found]
      split
      · next same => exact List.mem_filter.mpr ⟨same ▸ r.member, by simpa using ne⟩
      · exact r.member
    · rw [sinks_unsubscribe found, List.getElem?_modify_ne _ _ fun e => ne e.symm]
      exact r.kept

theorem Holds.unsubscribe (r : Holds b id topic filter sink) :
    Released (b.unsubscribe id) id sink.close := by
  constructor
  · rw [topics_unsubscribe, if_pos rfl]
  · rw [sinks_unsubscribe r.listed, List.getElem?_modify_eq, r.kept]
    rfl

theorem Released.unsubscribe (r : Released b id sink) (other : Nat) :
    Released (b.unsubscribe other) id sink := by
  cases found : b.topics.lookup other with
  | none => rwa [unsubscribe_none found]
  | some t =>
    have ne : other ≠ id := by
      rintro rfl
      rw [r.unlisted] at found
      cases found
    constructor
    · rw [topics_unsubscribe, if_neg ne.symm]
      exact r.unlisted
    · rw [sinks_unsubscribe found, List.getElem?_modify_ne _ _ ne]
      exact r.kept

theorem consistent_unsubscribeAll :
    ∀ (ids : List Nat) {b : InProcessBroker}, Consistent b → Consistent (b.unsubscribeAll ids)
  | [], _, h => h
  | id :: ids, _, h => consistent_unsubscribeAll ids (consistent_unsubscribe h id)

theorem Released.unsubscribeAll :
    ∀ (ids : List Nat) {b : InProcessBroker}, Released b id sink →
      Released (b.unsubscribeAll ids) id sink
  | [], _, r => r
  | other :: ids, _, r => Released.unsubscribeAll ids (r.unsubscribe other)

theorem Holds.unsubscribeAll_notMem :
    ∀ (ids : List Nat) {b : InProcessBroker}, Holds b id topic filter sink → id ∉ ids →
      Holds (b.unsubscribeAll ids) id topic filter sink
  | [], _, r, _ => r
  | _ :: ids, _, r, out =>
    Holds.unsubscribeAll_notMem ids (r.unsubscribe_ne fun e => out (e ▸ List.mem_cons_self))
      fun mem => out (List.mem_cons_of_mem _ mem)

theorem Holds.unsubscribeAll_mem :
    ∀ (ids : List Nat) {b : InProcessBroker}, Holds b id topic filter sink → id ∈ ids →
      Released (b.unsubscribeAll ids) id sink.close
  | other :: ids, _, r, mem => by
    by_cases same : id = other
    · subst same
      exact Released.unsubscribeAll ids r.unsubscribe
    · have rest : id ∈ ids := (List.mem_cons.mp mem).resolve_left same
      exact Holds.unsubscribeAll_mem ids (r.unsubscribe_ne same) rest

/-! ## Registering -/

theorem subscribe_ok {policy : DeliveryPolicy} {b' : InProcessBroker}
    (ok : b.subscribe topic filter policy = .ok (b', id)) :
    b.shutDown = false ∧ 0 < policy.capacity ∧ id = b.sinks.length ∧
      b' = { b with
        groups := OrderedMap.insert b.groups topic (b.subscribers topic ++ [⟨id, filter⟩])
        topics := b.topics ++ [(id, topic)]
        sinks := b.sinks ++ [.new policy] } := by
  unfold subscribe at ok
  split at ok
  · cases ok
  · split at ok
    · cases ok
    · next positive =>
      split at ok
      · cases ok
      · next open' =>
        cases ok
        exact ⟨by simpa using open', by omega, rfl, rfl⟩

section Subscribe

variable {policy : DeliveryPolicy} {b' : InProcessBroker}

theorem subscribers_subscribe (ok : b.subscribe topic filter policy = .ok (b', id)) (t : String) :
    b'.subscribers t =
      if t = topic then b.subscribers topic ++ [⟨id, filter⟩] else b.subscribers t := by
  obtain ⟨-, -, -, rfl⟩ := subscribe_ok ok
  show (List.lookup t (OrderedMap.insert b.groups topic _)).getD [] = _
  split
  · next same => rw [same, OrderedMap.lookup_insert_self, Option.getD_some]
  · next ne =>
    rw [OrderedMap.lookup_insert_of_ne _ _ ne]
    rfl

theorem topics_subscribe (ok : b.subscribe topic filter policy = .ok (b', id)) (other : Nat) :
    b'.topics.lookup other =
      (b.topics.lookup other).or (if other = id then some topic else none) := by
  obtain ⟨-, -, -, rfl⟩ := subscribe_ok ok
  rw [List.lookup_append]
  congr 1
  by_cases same : other = id
  · subst same
    simp
  · have hb : (other == id) = false := by simpa using same
    simp [List.lookup_cons, hb, same]

theorem sinks_subscribe (ok : b.subscribe topic filter policy = .ok (b', id)) :
    b'.sinks = b.sinks ++ [.new policy] := by
  obtain ⟨-, -, -, rfl⟩ := subscribe_ok ok
  rfl

/-- The number of a new registration is not taken. -/
theorem lookup_fresh (h : Consistent b) : b.topics.lookup b.sinks.length = none := by
  cases found : b.topics.lookup b.sinks.length with
  | none => rfl
  | some topic => exact absurd (h.known _ _ found) (by omega)

theorem consistent_subscribe (h : Consistent b)
    (ok : b.subscribe topic filter policy = .ok (b', id)) : Consistent b' := by
  obtain ⟨-, -, fresh, -⟩ := subscribe_ok ok
  have none : b.topics.lookup id = none := fresh ▸ lookup_fresh h
  constructor
  · intro t s hs
    rw [subscribers_subscribe ok] at hs
    rw [topics_subscribe ok]
    split at hs
    · next same =>
      rcases List.mem_append.mp hs with old | new
      · rw [h.filed topic s old, same]
        rfl
      · obtain rfl := List.mem_singleton.mp new
        rw [none, same]
        simp
    · rw [h.filed t s hs]
      rfl
  · intro t
    rw [subscribers_subscribe ok]
    split
    · rw [List.map_append, List.nodup_append]
      refine ⟨h.distinct topic, by simp, ?_⟩
      rintro i mem j new rfl
      obtain rfl : i = id := by simpa using new
      obtain ⟨s, hs, rfl⟩ := List.mem_map.mp mem
      have found := h.filed topic s hs
      rw [none] at found
      cases found
    · exact h.distinct t
  · intro i t found
    rw [topics_subscribe ok] at found
    rw [sinks_subscribe ok, List.length_append, List.length_singleton]
    cases old : b.topics.lookup i with
    | some t' =>
      have := h.known i t' old
      omega
    | none =>
      by_cases new : i = id
      · omega
      · rw [old, if_neg new] at found
        cases found

/-- What a registration starts with. -/
theorem holds_subscribe (h : Consistent b) (ok : b.subscribe topic filter policy = .ok (b', id)) :
    Holds b' id topic filter (.new policy) := by
  obtain ⟨running, -, fresh, eq⟩ := subscribe_ok ok
  have none : b.topics.lookup id = none := fresh ▸ lookup_fresh h
  constructor
  · rw [eq]
    exact running
  · rw [topics_subscribe ok, none]
    simp
  · rw [subscribers_subscribe ok, if_pos rfl]
    exact List.mem_append_right _ List.mem_cons_self
  · rw [sinks_subscribe ok, fresh, List.getElem?_concat_length]

theorem Holds.subscribe {filter' : EventFilter} (r : Holds b other t filter' sink)
    (ok : b.subscribe topic filter policy = .ok (b', id)) : Holds b' other t filter' sink := by
  obtain ⟨running, -, -, eq⟩ := subscribe_ok ok
  constructor
  · rw [eq]
    exact running
  · rw [topics_subscribe ok, r.listed]
    rfl
  · rw [subscribers_subscribe ok]
    split
    · next same => exact List.mem_append_left _ (same ▸ r.member)
    · exact r.member
  · rw [sinks_subscribe ok]
    exact (List.getElem?_append_left (List.getElem?_eq_some_iff.mp r.kept).1).trans r.kept

theorem Released.subscribe (r : Released b other sink)
    (ok : b.subscribe topic filter policy = .ok (b', id)) : Released b' other sink := by
  obtain ⟨-, -, fresh, -⟩ := subscribe_ok ok
  have below : other < b.sinks.length := (List.getElem?_eq_some_iff.mp r.kept).1
  constructor
  · rw [topics_subscribe ok, r.unlisted, if_neg (by omega)]
    rfl
  · rw [sinks_subscribe ok]
    exact (List.getElem?_append_left below).trans r.kept

end Subscribe

/-! ## Publishing -/

theorem length_offer (event : Json) (sinks : List Sink) (s : Subscriber) :
    (offer event sinks s).1.length = sinks.length := by
  unfold offer
  split
  · exact List.length_set
  · rfl

theorem length_offerAll (event : Json) (subs : List Subscriber) (sinks : List Sink) :
    (offerAll event sinks subs).1.length = sinks.length := by
  induction subs generalizing sinks with
  | nil => rfl
  | cons s rest ih => exact (ih _).trans (length_offer event sinks s)

/-- An offer leaves the sinks of the other subscribers alone. -/
theorem getElem_offer_ne (event : Json) {s : Subscriber} (sinks : List Sink) (ne : id ≠ s.id) :
    (offer event sinks s).1[id]? = sinks[id]? := by
  unfold offer
  split
  · exact List.getElem?_set_ne fun e => ne e.symm
  · rfl

theorem behind_offerAll (event : Json) (subs : List Subscriber) (sinks : List Sink) :
    (offerAll event sinks subs).2 ⊆ subs.map (·.id) := by
  induction subs generalizing sinks with
  | nil => exact fun _ h => h
  | cons s rest ih =>
    intro i mem
    simp only [offerAll] at mem
    split at mem
    · rcases List.mem_cons.mp mem with rfl | mem
      · exact List.mem_cons_self
      · exact List.mem_cons_of_mem _ (ih _ mem)
    · exact List.mem_cons_of_mem _ (ih _ mem)

theorem getElem_offerAll_notMem (subs : List Subscriber) (sinks : List Sink)
    (out : id ∉ subs.map (·.id)) : (offerAll event sinks subs).1[id]? = sinks[id]? := by
  induction subs generalizing sinks with
  | nil => rfl
  | cons s rest ih =>
    have ne : id ≠ s.id := fun e => out (e ▸ List.mem_cons_self)
    exact (ih _ fun mem => out (List.mem_cons_of_mem _ mem)).trans (getElem_offer_ne event sinks ne)

theorem offer_self (event : Json) (filter : EventFilter) {sinks : List Sink}
    (kept : sinks[id]? = some sink) :
    (offer event sinks ⟨id, filter⟩).1[id]? =
        some (if filter event then (sink.push event).1 else sink) ∧
      ((offer event sinks ⟨id, filter⟩).2 = true ↔
        filter event = true ∧ (sink.push event).2.Ends) := by
  have below : id < sinks.length := (List.getElem?_eq_some_iff.mp kept).1
  unfold offer
  cases accepted : filter event with
  | true =>
    simp only [accepted, kept]
    refine ⟨List.getElem?_set_self below, ?_⟩
    simp [PushOutcome.Ends]
  | false =>
    simp only [accepted, kept]
    exact ⟨rfl, by simp⟩

/-- What a subscriber of the group finds in its sink, and whether it is to be released. -/
theorem offerAll_mem (event : Json) (subs : List Subscriber) (sinks : List Sink)
    (distinct : (subs.map (·.id)).Nodup) (mem : ⟨id, filter⟩ ∈ subs)
    (kept : sinks[id]? = some sink) :
    (offerAll event sinks subs).1[id]? =
        some (if filter event then (sink.push event).1 else sink) ∧
      (id ∈ (offerAll event sinks subs).2 ↔
        filter event = true ∧ (sink.push event).2.Ends) := by
  induction subs generalizing sinks with
  | nil => cases mem
  | cons s rest ih =>
    rw [List.map_cons, List.nodup_cons] at distinct
    have first : (offerAll event sinks (s :: rest)).1 =
        (offerAll event (offer event sinks s).1 rest).1 := rfl
    have second : (offerAll event sinks (s :: rest)).2 =
        if (offer event sinks s).2 then s.id :: (offerAll event (offer event sinks s).1 rest).2
        else (offerAll event (offer event sinks s).1 rest).2 := rfl
    rw [first, second]
    rcases List.mem_cons.mp mem with rfl | mem
    · obtain ⟨pushed, behind⟩ := offer_self event filter kept
      have out : id ∉ (offerAll event (offer event sinks ⟨id, filter⟩).1 rest).2 :=
        fun m => distinct.1 (behind_offerAll event rest _ m)
      refine ⟨(getElem_offerAll_notMem rest _ distinct.1).trans pushed, ?_⟩
      rw [← behind]
      split
      · next yes => exact ⟨fun _ => yes, fun _ => List.mem_cons_self⟩
      · next no => exact ⟨fun m => absurd m out, fun yes => absurd yes no⟩
    · have ne : id ≠ s.id := fun e => distinct.1 (e ▸ List.mem_map_of_mem (f := (·.id)) mem)
      have kept' := (getElem_offer_ne event sinks ne).trans kept
      obtain ⟨pushed, behind⟩ := ih (offer event sinks s).1 distinct.2 mem kept'
      refine ⟨pushed, ?_⟩
      rw [← behind]
      split
      · rw [List.mem_cons, or_iff_right ne]
      · rfl

theorem publish_running (running : b.shutDown = false) (t : String) (event : Json) :
    b.publish t event =
      unsubscribeAll { b with sinks := (offerAll event b.sinks (b.subscribers t)).1 }
        (offerAll event b.sinks (b.subscribers t)).2 := by
  unfold publish
  rw [running]
  rfl

theorem consistent_publish (h : Consistent b) (t : String) (event : Json) :
    Consistent (b.publish t event) := by
  unfold publish
  split
  · exact h
  · exact consistent_unsubscribeAll _ (h.withSinks (length_offerAll event _ _))

/-- An event of another topic, or one that the filter rejects, changes nothing. -/
theorem Holds.publish_other (r : Holds b id topic filter sink) (h : Consistent b)
    (skipped : ¬ (t = topic ∧ filter event = true)) :
    Holds (b.publish t event) id topic filter sink := by
  rw [publish_running r.running]
  have kept_out : (offerAll event b.sinks (b.subscribers t)).1[id]? = some sink ∧
      id ∉ (offerAll event b.sinks (b.subscribers t)).2 := by
    by_cases same : t = topic
    · subst same
      have rejected : ¬ filter event = true := fun yes => skipped ⟨rfl, yes⟩
      obtain ⟨pushed, behind⟩ := offerAll_mem event _ _ (h.distinct t) r.member r.kept
      exact ⟨by rw [pushed, if_neg rejected], fun m => rejected (behind.mp m).1⟩
    · have out := r.not_mem h same
      exact ⟨(getElem_offerAll_notMem _ _ out).trans r.kept,
        fun m => out (behind_offerAll event _ _ m)⟩
  exact Holds.unsubscribeAll_notMem _ ⟨r.running, r.listed, r.member, kept_out.1⟩ kept_out.2

/-- An event for which there is room. -/
theorem Holds.publish_taken (r : Holds b id topic filter sink) (h : Consistent b) (event : Json)
    (accepted : filter event = true) (taken : ¬ (sink.push event).2.Ends) :
    Holds (b.publish topic event) id topic filter (sink.push event).1 := by
  rw [publish_running r.running]
  obtain ⟨pushed, behind⟩ := offerAll_mem event _ _ (h.distinct topic) r.member r.kept
  rw [if_pos accepted] at pushed
  exact Holds.unsubscribeAll_notMem _ ⟨r.running, r.listed, r.member, pushed⟩
    fun m => taken (behind.mp m).2

/-- An event that the sink does not take any more. -/
theorem Holds.publish_refused (r : Holds b id topic filter sink) (h : Consistent b) (event : Json)
    (accepted : filter event = true) (full : (sink.push event).2.Ends) :
    Released (b.publish topic event) id (sink.push event).1.close := by
  rw [publish_running r.running]
  obtain ⟨pushed, behind⟩ := offerAll_mem event _ _ (h.distinct topic) r.member r.kept
  rw [if_pos accepted] at pushed
  exact Holds.unsubscribeAll_mem _ ⟨r.running, r.listed, r.member, pushed⟩
    (behind.mpr ⟨accepted, full⟩)

theorem Released.publish (r : Released b id sink) (h : Consistent b) (t : String) (event : Json) :
    Released (b.publish t event) id sink := by
  unfold InProcessBroker.publish
  split
  · exact r
  · exact Released.unsubscribeAll _
      ⟨r.unlisted, (getElem_offerAll_notMem _ _ (r.not_mem h t)).trans r.kept⟩

/-! ## Receiving -/

theorem consistent_receive (h : Consistent b) (id : Nat) : Consistent (b.receive id).1 := by
  unfold receive
  split
  · exact h
  · exact h.withSinks List.length_set

theorem receive_kept (kept : b.sinks[id]? = some sink) :
    b.receive id = ({ b with sinks := b.sinks.set id sink.receive.1 }, sink.receive.2) := by
  unfold receive
  rw [kept]

theorem getElem_receive_ne (b : InProcessBroker) (ne : id ≠ other) :
    (b.receive other).1.sinks[id]? = b.sinks[id]? := by
  unfold receive
  split
  · rfl
  · exact List.getElem?_set_ne fun e => ne e.symm

theorem receive_frame (b : InProcessBroker) (id : Nat) :
    (b.receive id).1.groups = b.groups ∧ (b.receive id).1.topics = b.topics ∧
      (b.receive id).1.shutDown = b.shutDown := by
  unfold receive
  split <;> exact ⟨rfl, rfl, rfl⟩

theorem Holds.receive (r : Holds b id topic filter sink) :
    Holds (b.receive id).1 id topic filter sink.receive.1 := by
  have below : id < b.sinks.length := (List.getElem?_eq_some_iff.mp r.kept).1
  rw [receive_kept r.kept]
  exact ⟨r.running, r.listed, r.member, List.getElem?_set_self below⟩

theorem Holds.receive_ne (r : Holds b id topic filter sink) (ne : id ≠ other) :
    Holds (b.receive other).1 id topic filter sink := by
  obtain ⟨groups, topics, shutDown⟩ := receive_frame b other
  constructor
  · rw [shutDown]
    exact r.running
  · rw [topics]
    exact r.listed
  · rw [subscribers, groups]
    exact r.member
  · rw [getElem_receive_ne b ne]
    exact r.kept

theorem Released.receive (r : Released b id sink) :
    Released (b.receive id).1 id sink.receive.1 := by
  have below : id < b.sinks.length := (List.getElem?_eq_some_iff.mp r.kept).1
  rw [receive_kept r.kept]
  exact ⟨r.unlisted, List.getElem?_set_self below⟩

theorem Released.receive_ne (r : Released b id sink) (ne : id ≠ other) :
    Released (b.receive other).1 id sink := by
  obtain ⟨-, topics, -⟩ := receive_frame b other
  constructor
  · rw [topics]
    exact r.unlisted
  · rw [getElem_receive_ne b ne]
    exact r.kept

/-! ## Losses -/

theorem length_foldl_overflow (hit : List Nat) (sinks : List Sink) :
    (hit.foldl (fun sinks id => sinks.modify id Sink.overflow) sinks).length = sinks.length :=
  List.foldlRecOn hit _ (motive := fun sinks' : List Sink => sinks'.length = sinks.length) rfl
    fun _ same _ _ => (List.length_modify _ _ _).trans same

theorem getElem_foldl_overflow_notMem (hit : List Nat) (sinks : List Sink) (out : id ∉ hit) :
    (hit.foldl (fun sinks id => sinks.modify id Sink.overflow) sinks)[id]? = sinks[id]? := by
  induction hit generalizing sinks with
  | nil => rfl
  | cons i hit ih =>
    have ne : i ≠ id := fun e => out (e ▸ List.mem_cons_self)
    exact (ih _ fun m => out (List.mem_cons_of_mem _ m)).trans (List.getElem?_modify_ne _ _ ne)

theorem overflow_overflow (s : Sink) : s.overflow.overflow = s.overflow := by
  unfold Sink.overflow
  split
  · exact if_neg (by simp)
  · rfl

theorem getElem_foldl_overflow_mem (hit : List Nat) (sinks : List Sink)
    (kept : sinks[id]? = some sink) (mem : id ∈ hit) :
    (hit.foldl (fun sinks id => sinks.modify id Sink.overflow) sinks)[id]? =
      some sink.overflow := by
  induction hit generalizing sinks sink with
  | nil => cases mem
  | cons i hit ih =>
    by_cases later : id ∈ hit
    · by_cases same : i = id
      · subst same
        have kept' : (sinks.modify i Sink.overflow)[i]? = some sink.overflow := by
          rw [List.getElem?_modify_eq, kept]
          rfl
        exact (ih _ kept' later).trans (congrArg some (overflow_overflow sink))
      · exact ih _ ((List.getElem?_modify_ne _ _ same).trans kept) later
    · obtain rfl : id = i := (List.mem_cons.mp mem).resolve_right later
      refine (getElem_foldl_overflow_notMem hit _ later).trans ?_
      rw [List.getElem?_modify_eq, kept]
      rfl

/-- A loss ends those of the given registrations whose sinks are open and buffer their events. -/
theorem overflowAll_hit (b : InProcessBroker) (ids : List Nat) :
    ∃ hit : List Nat,
      (∀ id, id ∈ hit ↔ id ∈ ids ∧
        ∃ sink, b.sinks[id]? = some sink ∧ sink.status = .active ∧ sink.policy.mode = .buffer) ∧
      b.overflowAll ids = unsubscribeAll
        { b with sinks := hit.foldl (fun sinks id => sinks.modify id Sink.overflow) b.sinks } hit := by
  refine ⟨_, fun id => ?_, rfl⟩
  rw [List.mem_filter]
  cases b.sinks[id]? <;> simp [Sink.isOpen]

theorem consistent_overflowAll (h : Consistent b) (ids : List Nat) :
    Consistent (b.overflowAll ids) := by
  obtain ⟨hit, -, eq⟩ := b.overflowAll_hit ids
  rw [eq]
  exact consistent_unsubscribeAll _ (h.withSinks (length_foldl_overflow _ _))

/-- A loss leaves a registration alone that is not concerned, or may miss an event. -/
theorem Holds.overflowAll_spared (r : Holds b id topic filter sink) {ids : List Nat}
    (out : id ∉ ids ∨ sink.policy.mode ≠ .buffer) :
    Holds (b.overflowAll ids) id topic filter sink := by
  obtain ⟨hit, mem_hit, eq⟩ := b.overflowAll_hit ids
  have spared : id ∉ hit := by
    intro mem
    obtain ⟨concerned, s, found, -, buffer⟩ := (mem_hit id).mp mem
    obtain rfl : sink = s := Option.some.inj (r.kept.symm.trans found)
    exact out.elim (· concerned) (· buffer)
  rw [eq]
  exact Holds.unsubscribeAll_notMem _
    ⟨r.running, r.listed, r.member, (getElem_foldl_overflow_notMem _ _ spared).trans r.kept⟩ spared

theorem Holds.overflowAll_notMem (r : Holds b id topic filter sink) {ids : List Nat}
    (out : id ∉ ids) : Holds (b.overflowAll ids) id topic filter sink :=
  r.overflowAll_spared (.inl out)

/-- A registration that must not miss an event ends at a loss. -/
theorem Holds.overflowAll_mem (r : Holds b id topic filter sink) {ids : List Nat}
    (mem : id ∈ ids) (buffer : sink.policy.mode = .buffer) (active : sink.status = .active) :
    Released (b.overflowAll ids) id { sink with status := .overflowed } := by
  obtain ⟨hit, mem_hit, eq⟩ := b.overflowAll_hit ids
  have struck : id ∈ hit := (mem_hit id).mpr ⟨mem, sink, r.kept, active, buffer⟩
  have kept := getElem_foldl_overflow_mem _ _ r.kept struck
  rw [show sink.overflow = { sink with status := .overflowed } from if_pos ⟨buffer, active⟩] at kept
  rw [eq]
  show Released _ id (Sink.close { sink with status := .overflowed })
  exact Holds.unsubscribeAll_mem _ ⟨r.running, r.listed, r.member, kept⟩ struck

theorem Released.overflowAll (r : Released b id sink) (ended : sink.status ≠ .active)
    (ids : List Nat) : Released (b.overflowAll ids) id sink := by
  obtain ⟨hit, mem_hit, eq⟩ := b.overflowAll_hit ids
  have spared : id ∉ hit := by
    intro mem
    obtain ⟨-, s, found, active, -⟩ := (mem_hit id).mp mem
    obtain rfl : sink = s := Option.some.inj (r.kept.symm.trans found)
    exact ended active
  rw [eq]
  exact Released.unsubscribeAll _
    ⟨r.unlisted, (getElem_foldl_overflow_notMem _ _ spared).trans r.kept⟩

theorem Holds.mem_everywhere (r : Holds b id topic filter sink) :
    id ∈ b.groups.flatMap fun (_, group) => group.map (·.id) := by
  have member := r.member
  unfold subscribers at member
  cases found : List.lookup topic b.groups with
  | none =>
    rw [found] at member
    cases member
  | some group =>
    rw [found] at member
    obtain ⟨l, r, split, -⟩ := List.lookup_eq_some_iff.mp found
    exact List.mem_flatMap.mpr ⟨(topic, group), by simp [split], List.mem_map_of_mem member⟩

/-! ## Shutting down -/

theorem unsubscribe_shutDown (b : InProcessBroker) (id : Nat) (down : Bool) :
    unsubscribe { b with shutDown := down } id = { b.unsubscribe id with shutDown := down } := by
  cases found : b.topics.lookup id with
  | none =>
    rw [unsubscribe_none found]
    exact unsubscribe_none found
  | some topic =>
    simp only [unsubscribe, found]
    rfl

theorem unsubscribeAll_shutDown (ids : List Nat) (b : InProcessBroker) (down : Bool) :
    unsubscribeAll { b with shutDown := down } ids =
      { b.unsubscribeAll ids with shutDown := down } := by
  induction ids generalizing b with
  | nil => rfl
  | cons id ids ih =>
    show unsubscribeAll (unsubscribe { b with shutDown := down } id) ids = _
    rw [unsubscribe_shutDown, ih]
    rfl

theorem consistent_shutdown (h : Consistent b) : Consistent b.shutdown := by
  unfold shutdown
  rw [unsubscribeAll_shutDown]
  obtain ⟨filed, distinct, known⟩ := consistent_unsubscribeAll (b.topics.map Prod.fst) h
  exact ⟨filed, distinct, known⟩

theorem Holds.shutdown (r : Holds b id topic filter sink) :
    Released b.shutdown id sink.close := by
  obtain ⟨l, rest, split, -⟩ := List.lookup_eq_some_iff.mp r.listed
  have mem : id ∈ b.topics.map Prod.fst := by simp [split]
  obtain ⟨unlisted, kept⟩ := Holds.unsubscribeAll_mem _ r mem
  unfold InProcessBroker.shutdown
  rw [unsubscribeAll_shutDown]
  exact ⟨unlisted, kept⟩

theorem Released.shutdown (r : Released b id sink) : Released b.shutdown id sink := by
  obtain ⟨unlisted, kept⟩ := Released.unsubscribeAll (b.topics.map Prod.fst) r
  unfold InProcessBroker.shutdown
  rw [unsubscribeAll_shutDown]
  exact ⟨unlisted, kept⟩

end InProcessBroker

end GraphQLEngine
