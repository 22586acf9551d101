import GraphQLEngine.Proofs.Brokers.Registrations

/-!
# The stream of a registration

A receiver is given the queued events of its sink and then, if the sink overflowed, one report of
that.  As long as a registration that buffers its events is open, its stream is all the events that
it was offered; once it overflows, the stream is the first of these events and then the report.

    taken ++ sink.rest = offered.map .event                            while it is open
    taken ++ sink.rest = events.map .event ++ [.overflow capacity]     after that, events <+: offered
-/

namespace GraphQLEngine

/-- An event, or the report that some were lost. -/
def Received.isItem : Received → Bool
  | .event _ => true
  | .overflow _ => true
  | .ended => false
  | .nothing => false

namespace Sink

/-- What a receiver is still given if nothing more is pushed. -/
def rest (s : Sink) : List Received :=
  s.queue.map .event ++ if s.status = .overflowed then [.overflow s.policy.capacity] else []

/-- To receive is to take the first of what is left. -/
theorem rest_receive (s : Sink) : [s.receive.2].filter (·.isItem) ++ s.receive.1.rest = s.rest := by
  obtain ⟨policy, queue, status⟩ := s
  cases queue with
  | nil => cases status <;> rfl
  | cons e queue => rfl

theorem active_receive {s : Sink} (h : s.status = .active) : s.receive.1.status = .active := by
  unfold receive
  split
  · exact h
  · rw [h]
    exact h

theorem ended_receive {s : Sink} (h : s.status ≠ .active) : s.receive.1.status ≠ .active := by
  obtain ⟨policy, queue, status⟩ := s
  cases queue with
  | cons e queue => exact h
  | nil =>
    cases status with
    | active => exact absurd rfl h
    | closed => exact h
    | overflowed => simp [receive]

theorem policy_receive (s : Sink) : s.receive.1.policy = s.policy := by
  unfold receive
  split
  · rfl
  · split <;> rfl

theorem push_room {s : Sink} (active : s.status = .active)
    (room : s.queue.length < s.policy.capacity) (e : Json) :
    s.push e = ({ s with queue := s.queue ++ [e] }, .queued) := by
  simp [push, active, room]

theorem push_full {s : Sink} (active : s.status = .active)
    (full : ¬ s.queue.length < s.policy.capacity) (buffer : s.policy.mode = .buffer) (e : Json) :
    s.push e = ({ s with status := .overflowed }, .overflowed) := by
  simp [push, active, full, buffer]

theorem rest_active {s : Sink} (active : s.status = .active) : s.rest = s.queue.map .event := by
  simp [rest, active]

theorem rest_overflowed (s : Sink) :
    rest { s with status := .overflowed } =
      s.queue.map .event ++ [.overflow s.policy.capacity] := by
  simp [rest]

end Sink

namespace InProcessBroker

/-- A registration that has been offered the events, and buffers them. -/
structure Opened (b : InProcessBroker) (id : Nat) (topic : String) (filter : EventFilter)
    (policy : DeliveryPolicy) (offered : List Json) (taken : List Received) : Prop where
  held : ∃ sink, Holds b id topic filter sink ∧ sink.status = .active ∧ sink.policy = policy ∧
    taken ++ sink.rest = offered.map .event

/-- A registration that overflowed after some of the events that it was offered. -/
structure Overflowed (b : InProcessBroker) (id : Nat) (policy : DeliveryPolicy)
    (offered : List Json) (taken : List Received) : Prop where
  left : ∃ sink, Released b id sink ∧ sink.status ≠ .active ∧
    ∃ events, events <+: offered ∧
      taken ++ sink.rest = events.map .event ++ [.overflow policy.capacity]

variable {b b' : InProcessBroker} {id other : Nat} {topic t : String} {filter f : EventFilter}
  {policy q : DeliveryPolicy} {offered : List Json} {taken : List Received} {event : Json}

/-! ## Open registrations -/

theorem opened_subscribe (h : Consistent b)
    (ok : b.subscribe topic filter policy = .ok (b', id)) :
    Opened b' id topic filter policy [] [] :=
  ⟨.new policy, holds_subscribe h ok, rfl, rfl, rfl⟩

theorem Opened.subscribe (r : Opened b id topic filter policy offered taken)
    (ok : b.subscribe t f q = .ok (b', other)) :
    Opened b' id topic filter policy offered taken := by
  obtain ⟨sink, holds, rest⟩ := r.held
  exact ⟨sink, holds.subscribe ok, rest⟩

theorem Opened.unsubscribe_ne (r : Opened b id topic filter policy offered taken)
    (ne : id ≠ other) : Opened (b.unsubscribe other) id topic filter policy offered taken := by
  obtain ⟨sink, holds, rest⟩ := r.held
  exact ⟨sink, holds.unsubscribe_ne ne, rest⟩

theorem Opened.receive_ne (r : Opened b id topic filter policy offered taken) (ne : id ≠ other) :
    Opened (b.receive other).1 id topic filter policy offered taken := by
  obtain ⟨sink, holds, rest⟩ := r.held
  exact ⟨sink, holds.receive_ne ne, rest⟩

theorem Opened.receive (r : Opened b id topic filter policy offered taken) :
    Opened (b.receive id).1 id topic filter policy offered
      (taken ++ [(b.receive id).2].filter (·.isItem)) := by
  obtain ⟨sink, holds, active, eq, stream⟩ := r.held
  refine ⟨sink.receive.1, holds.receive, Sink.active_receive active,
    (Sink.policy_receive sink).trans eq, ?_⟩
  rw [receive_kept holds.kept, List.append_assoc, Sink.rest_receive, stream]

/-- A loss that concerns a registration ends it after what it was offered before. -/
theorem Opened.overflowAll_mem (r : Opened b id topic filter policy offered taken)
    (buffer : policy.mode = .buffer) {ids : List Nat} (mem : id ∈ ids) :
    Overflowed (b.overflowAll ids) id policy offered taken := by
  obtain ⟨sink, holds, active, rfl, stream⟩ := r.held
  refine ⟨_, holds.overflowAll_mem mem buffer active, by simp, offered, List.prefix_rfl, ?_⟩
  rw [Sink.rest_overflowed, ← List.append_assoc, ← Sink.rest_active active, stream]

theorem Opened.overflowAll_notMem (r : Opened b id topic filter policy offered taken)
    {ids : List Nat} (out : id ∉ ids) :
    Opened (b.overflowAll ids) id topic filter policy offered taken := by
  obtain ⟨sink, holds, rest⟩ := r.held
  exact ⟨sink, holds.overflowAll_notMem out, rest⟩

/-- The events that a subscriber is offered of those published. -/
def picked (topic : String) (filter : EventFilter) (t : String) (event : Json) : List Json :=
  if t = topic ∧ filter event then [event] else []

/-- An event that is offered is queued, or it ends the registration. -/
theorem Opened.publish (r : Opened b id topic filter policy offered taken) (h : Consistent b)
    (buffer : policy.mode = .buffer) (t : String) (event : Json) :
    Opened (b.publish t event) id topic filter policy (offered ++ picked topic filter t event)
        taken ∨
      Overflowed (b.publish t event) id policy (offered ++ picked topic filter t event) taken := by
  obtain ⟨sink, holds, active, rfl, stream⟩ := r.held
  unfold picked
  split
  · next accepted =>
    obtain ⟨rfl, accepted⟩ := accepted
    by_cases room : sink.queue.length < sink.policy.capacity
    · left
      have pushed := Sink.push_room active room event
      have next := holds.publish_taken h event accepted
        (by rw [pushed]; simp [PushOutcome.Ends])
      rw [pushed] at next
      refine ⟨_, next, active, rfl, ?_⟩
      rw [Sink.rest_active active] at stream
      rw [Sink.rest_active (by exact active), List.map_append, List.map_append, ← List.append_assoc,
        stream]
    · right
      have pushed := Sink.push_full active room buffer event
      have next := holds.publish_refused h event accepted
        (by rw [pushed]; exact .inl rfl)
      rw [pushed] at next
      refine ⟨_, next, by simp [Sink.close], offered, List.prefix_append _ _, ?_⟩
      show taken ++ Sink.rest { sink with status := .overflowed } = _
      rw [Sink.rest_overflowed, ← List.append_assoc, ← Sink.rest_active active, stream]
  · next skipped =>
    left
    rw [List.append_nil]
    exact ⟨sink, holds.publish_other h skipped, active, rfl, stream⟩

/-! ## Registrations that overflowed -/

theorem Overflowed.subscribe (r : Overflowed b id policy offered taken)
    (ok : b.subscribe t f q = .ok (b', other)) : Overflowed b' id policy offered taken := by
  obtain ⟨sink, released, rest⟩ := r.left
  exact ⟨sink, released.subscribe ok, rest⟩

theorem Overflowed.unsubscribe (r : Overflowed b id policy offered taken) (other : Nat) :
    Overflowed (b.unsubscribe other) id policy offered taken := by
  obtain ⟨sink, released, rest⟩ := r.left
  exact ⟨sink, released.unsubscribe other, rest⟩

theorem Overflowed.receive_ne (r : Overflowed b id policy offered taken) (ne : id ≠ other) :
    Overflowed (b.receive other).1 id policy offered taken := by
  obtain ⟨sink, released, rest⟩ := r.left
  exact ⟨sink, released.receive_ne ne, rest⟩

theorem Overflowed.receive (r : Overflowed b id policy offered taken) :
    Overflowed (b.receive id).1 id policy offered
      (taken ++ [(b.receive id).2].filter (·.isItem)) := by
  obtain ⟨sink, released, ended, events, before, stream⟩ := r.left
  refine ⟨sink.receive.1, released.receive, Sink.ended_receive ended, events, before, ?_⟩
  rw [receive_kept released.kept, List.append_assoc, Sink.rest_receive, stream]

theorem Overflowed.publish (r : Overflowed b id policy offered taken) (h : Consistent b)
    (t : String) (event : Json) (more : List Json) :
    Overflowed (b.publish t event) id policy (offered ++ more) taken := by
  obtain ⟨sink, released, ended, events, before, stream⟩ := r.left
  exact ⟨sink, released.publish h t event, ended, events,
    before.trans (List.prefix_append _ _), stream⟩

theorem Overflowed.overflowAll (r : Overflowed b id policy offered taken) (ids : List Nat) :
    Overflowed (b.overflowAll ids) id policy offered taken := by
  obtain ⟨sink, released, ended, rest⟩ := r.left
  exact ⟨sink, released.overflowAll ended ids, ended, rest⟩

end InProcessBroker

end GraphQLEngine
