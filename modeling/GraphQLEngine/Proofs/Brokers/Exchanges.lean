import GraphQLEngine.Proofs.Brokers.Maps
import GraphQLEngine.Proofs.Brokers.Sinks

/-!
# Exchanges

A broker is used by many at once: subscribers come and go, fall behind or forget their receivers,
and events are published on any topic.  To the sink of one registration all this is a run of its
own, which the other registrations have no part in: the events of its topic that its filter accepts
are pushed, it is closed when it is released or the broker is shut down, and its receiver asks.

    Serves b id topic filter sink  →  Serves (act b m) id topic filter (sink.run (toSink m))
    pushes id m = due id topic filter m                            the events of one move
-/

namespace GraphQLEngine

/-- An open sink ends with a push where it has to buffer an event without room for it. -/
theorem Sink.status_push_iff {s : Sink} (active : s.status = .active)
    (le : s.queue.length ≤ s.policy.capacity) (e : Json) :
    (s.push e).1.status ≠ .active ↔
      s.policy.mode = .buffer ∧ s.queue.length = s.policy.capacity := by
  by_cases room : s.queue.length < s.policy.capacity
  · rw [push_room active room]
    constructor
    · intro ended
      exact absurd active ended
    · rintro ⟨-, full⟩
      omega
  · have full : s.queue.length = s.policy.capacity := by omega
    cases mode : s.policy.mode <;> simp [push, active, full, mode]

/-- What the broker is told of a push is whether the sink has ended. -/
theorem Sink.ends_push_iff {s : Sink} (active : s.status = .active) (e : Json) :
    (s.push e).2.Ends ↔ (s.push e).1.status ≠ .active := by
  by_cases room : s.queue.length < s.policy.capacity
  · rw [push_room active room]
    simp [PushOutcome.Ends, active]
  · cases mode : s.policy.mode <;> simp [push, active, room, mode, PushOutcome.Ends]

namespace InProcessBroker

variable {b b' : InProcessBroker} {id other : Nat} {topic t : String} {filter f : EventFilter}
  {policy : DeliveryPolicy} {sink : Sink}

/-! ## One registration -/

/-- A registration is held for as long as its sink is open. -/
def Serves (b : InProcessBroker) (id : Nat) (topic : String) (filter : EventFilter) (sink : Sink) :
    Prop :=
  Holds b id topic filter sink ∧ sink.status = .active ∨ Released b id sink ∧ sink.status ≠ .active

theorem Serves.kept (r : Serves b id topic filter sink) : b.sinks[id]? = some sink := by
  rcases r with ⟨holds, -⟩ | ⟨released, -⟩
  · exact holds.kept
  · exact released.kept

theorem Serves.below (r : Serves b id topic filter sink) : id < b.sinks.length :=
  (List.getElem?_eq_some_iff.mp r.kept).1

theorem Serves.listed (r : Serves b id topic filter sink) :
    b.topics.lookup id = if sink.status = .active then some topic else none := by
  rcases r with ⟨holds, active⟩ | ⟨released, ended⟩
  · rw [if_pos active]
    exact holds.listed
  · rw [if_neg ended]
    exact released.unlisted

/-- After the shutdown no registration is held. -/
theorem Serves.ended (r : Serves b id topic filter sink) (down : b.shutDown = true) :
    b.topics.lookup id = none ∧ sink.status ≠ .active := by
  rcases r with ⟨holds, -⟩ | ⟨released, ended⟩
  · rw [holds.running] at down
    cases down
  · exact ⟨released.unlisted, ended⟩

theorem Serves.subscribe (r : Serves b id topic filter sink)
    (ok : b.subscribe t f policy = .ok (b', other)) : Serves b' id topic filter sink := by
  rcases r with ⟨holds, active⟩ | ⟨released, ended⟩
  · exact .inl ⟨holds.subscribe ok, active⟩
  · exact .inr ⟨released.subscribe ok, ended⟩

theorem Serves.unsubscribe (r : Serves b id topic filter sink) :
    Serves (b.unsubscribe id) id topic filter sink.close := by
  right
  rcases r with ⟨holds, active⟩ | ⟨released, ended⟩
  · refine ⟨holds.unsubscribe, ?_⟩
    rw [Sink.close_active active]
    simp
  · rw [Sink.close_ended ended]
    exact ⟨released.unsubscribe id, ended⟩

theorem Serves.unsubscribe_ne (r : Serves b id topic filter sink) (ne : id ≠ other) :
    Serves (b.unsubscribe other) id topic filter sink := by
  rcases r with ⟨holds, active⟩ | ⟨released, ended⟩
  · exact .inl ⟨holds.unsubscribe_ne ne, active⟩
  · exact .inr ⟨released.unsubscribe other, ended⟩

/-- An event is pushed on the sink if it is of the topic and accepted, whoever else is given it. -/
theorem Serves.publish (r : Serves b id topic filter sink) (h : Consistent b) (t : String)
    (event : Json) :
    Serves (b.publish t event) id topic filter
      (if t = topic ∧ filter event then (sink.push event).1 else sink) := by
  rcases r with ⟨holds, active⟩ | ⟨released, ended⟩
  · by_cases meant : t = topic ∧ filter event = true
    · rw [if_pos meant]
      obtain ⟨rfl, accepted⟩ := meant
      by_cases full : (sink.push event).2.Ends
      · have ended := (Sink.ends_push_iff active event).mp full
        have refused := holds.publish_refused h event accepted full
        rw [Sink.close_ended ended] at refused
        exact .inr ⟨refused, ended⟩
      · have stays : (sink.push event).1.status = .active := by
          by_contra ended
          exact full ((Sink.ends_push_iff active event).mpr ended)
        exact .inl ⟨holds.publish_taken h event accepted full, stays⟩
    · rw [if_neg meant]
      exact .inl ⟨holds.publish_other h meant, active⟩
  · rw [Sink.push_ended ended, ite_self]
    exact .inr ⟨released.publish h t event, ended⟩

theorem Serves.receive (r : Serves b id topic filter sink) :
    Serves (b.receive id).1 id topic filter sink.receive.1 := by
  rcases r with ⟨holds, active⟩ | ⟨released, ended⟩
  · exact .inl ⟨holds.receive, Sink.active_receive active⟩
  · exact .inr ⟨released.receive, Sink.ended_receive ended⟩

theorem Serves.receive_ne (r : Serves b id topic filter sink) (ne : id ≠ other) :
    Serves (b.receive other).1 id topic filter sink := by
  rcases r with ⟨holds, active⟩ | ⟨released, ended⟩
  · exact .inl ⟨holds.receive_ne ne, active⟩
  · exact .inr ⟨released.receive_ne ne, ended⟩

theorem Serves.shutdown (r : Serves b id topic filter sink) :
    Serves b.shutdown id topic filter sink.close := by
  right
  rcases r with ⟨holds, active⟩ | ⟨released, ended⟩
  · refine ⟨holds.shutdown, ?_⟩
    rw [Sink.close_active active]
    simp
  · rw [Sink.close_ended ended]
    exact ⟨released.shutdown, ended⟩

/-- The subscribers of a group with one number: the registration if it is filed there. -/
theorem Serves.filter_subscribers (r : Serves b id topic filter sink) (h : Consistent b)
    (t : String) :
    (b.subscribers t).filter (·.id = id) =
      if t = topic ∧ b.topics.lookup id = some topic then [⟨id, filter⟩] else [] := by
  by_cases at' : t = topic ∧ b.topics.lookup id = some topic
  · obtain ⟨rfl, found⟩ := at'
    rw [if_pos ⟨rfl, found⟩]
    rcases r with ⟨holds, -⟩ | ⟨released, -⟩
    · have distinct : (b.subscribers t).Pairwise (·.id ≠ ·.id) :=
        List.pairwise_map.mp (h.distinct t)
      obtain ⟨l, r, split⟩ := List.append_of_mem holds.member
      rw [split, List.pairwise_append, List.pairwise_cons] at distinct
      obtain ⟨-, ⟨right, -⟩, left⟩ := distinct
      have none_left : l.filter (·.id = id) = [] := by
        apply List.filter_eq_nil_iff.mpr
        intro s mem
        simpa using left s mem ⟨id, filter⟩ List.mem_cons_self
      have none_right : r.filter (·.id = id) = [] := by
        apply List.filter_eq_nil_iff.mpr
        intro s mem
        simpa using fun same : s.id = id => right s mem same.symm
      rw [split, List.filter_append, none_left, List.filter_cons_of_pos (by simp), none_right]
      rfl
    · rw [released.unlisted] at found
      cases found
  · rw [if_neg at']
    apply List.filter_eq_nil_iff.mpr
    intro s mem same
    obtain rfl : s.id = id := by simpa using same
    have found := h.filed t s mem
    rw [r.listed] at found at'
    split at found
    · next active =>
      rw [if_pos active] at at'
      exact at' ⟨(Option.some.inj found).symm, rfl⟩
    · cases found

end InProcessBroker

open InProcessBroker (Consistent Filed Serves)

/-! ## Runs -/

/-- What is done with a broker.  A receiver can be dropped without releasing its registration. -/
inductive BrokerMove where
  | subscribe (topic : String) (filter : EventFilter) (policy : DeliveryPolicy)
  | publish (topic : String) (event : Json)
  | unsubscribe (id : Nat)
  | drop (id : Nat)
  | receive (id : Nat)
  | shutdown

/-- A broker, and the registrations whose receivers were dropped. -/
structure Exchange where
  broker : InProcessBroker
  dropped : List Nat

namespace BrokerMove

variable (id : Nat) (topic : String) (filter : EventFilter)

/-- What a move is to the sink of one registration, whose receiver is held or was dropped. -/
def toSink (held : Bool) : BrokerMove → List SinkMove
  | .publish t e => if t = topic ∧ filter e then [.push e] else []
  | .unsubscribe i => if i = id then [.close] else []
  | .receive i => if i = id ∧ held then [.receive] else []
  | .shutdown => [.close]
  | _ => []

def drops : BrokerMove → Bool
  | .drop i => i = id
  | _ => false

/-- What a run is to the sink of one registration. -/
def seenBy : Bool → List BrokerMove → List SinkMove
  | _, [] => []
  | held, m :: ms => m.toSink id topic filter held ++ seenBy (held && !m.drops id) ms

end BrokerMove

open BrokerMove (seenBy)

namespace Exchange

def new : Exchange := ⟨.new, []⟩

def act (x : Exchange) : BrokerMove → Exchange
  | .subscribe topic filter policy =>
    match x.broker.subscribe topic filter policy with
    | .ok (b, _) => { x with broker := b }
    | .error _ => x
  | .publish topic event => { x with broker := x.broker.publish topic event }
  | .unsubscribe id => { x with broker := x.broker.unsubscribe id }
  | .drop id => if id < x.broker.sinks.length then { x with dropped := id :: x.dropped } else x
  | .receive id => if id ∈ x.dropped then x else { x with broker := (x.broker.receive id).1 }
  | .shutdown => { x with broker := x.broker.shutdown }

def run (x : Exchange) (moves : List BrokerMove) : Exchange := moves.foldl act x

/-- The number that is given out. -/
def registers (x : Exchange) : BrokerMove → List Nat
  | .subscribe topic filter policy =>
    match x.broker.subscribe topic filter policy with
    | .ok (_, id) => [id]
    | .error _ => []
  | _ => []

/-- What the receiver of a registration is told. -/
def found (id : Nat) (x : Exchange) : BrokerMove → List Received
  | .receive i =>
    if i = id ∧ id < x.broker.sinks.length ∧ id ∉ x.dropped then [(x.broker.receive id).2] else []
  | _ => []

/-- The events that a move pushes on the sink of a registration. -/
def pushes (id : Nat) (x : Exchange) : BrokerMove → List Json
  | .publish t e =>
    if x.broker.shutDown then []
    else ((x.broker.subscribers t).filter fun s => s.id = id ∧ s.filter e).map fun _ => e
  | _ => []

/-- The events of its topic that a registration accepts while it is filed. -/
def due (id : Nat) (topic : String) (filter : EventFilter) (x : Exchange) : BrokerMove → List Json
  | .publish t e =>
    if t = topic ∧ filter e ∧ x.broker.topics.lookup id = some topic then [e] else []
  | _ => []

variable {x : Exchange} {id : Nat} {topic : String} {filter : EventFilter} {policy : DeliveryPolicy}
  {sink : Sink} {held : Bool}

theorem run_cons (x : Exchange) (m : BrokerMove) (ms : List BrokerMove) :
    x.run (m :: ms) = (x.act m).run ms := rfl

/-! ## One move -/

theorem act_subscribe {t : String} {f : EventFilter} {p : DeliveryPolicy} {b : InProcessBroker}
    (made : x.broker.subscribe t f p = .ok (b, id)) :
    x.act (.subscribe t f p) = { x with broker := b } := by
  simp only [act, made]

theorem act_refused {t : String} {p : DeliveryPolicy} {e : BrokerError}
    (refused : x.broker.refusal? t p = some e) (f : EventFilter) :
    x.act (.subscribe t f p) = x := by
  have error : x.broker.subscribe t f p = .error e :=
    InProcessBroker.subscribe_error_iff.mpr refused
  simp only [act, error]

theorem broker_drop (x : Exchange) (id : Nat) : (x.act (.drop id)).broker = x.broker := by
  simp only [act]
  split <;> rfl

theorem act_receive (x : Exchange) (id : Nat) :
    x.act (.receive id) =
      if id ∈ x.dropped then x else { x with broker := (x.broker.receive id).1 } := rfl

/-- What a move does to the broker. -/
inductive Change (b : InProcessBroker) : InProcessBroker → Prop
  | same : Change b b
  | subscribe {t : String} {f : EventFilter} {p : DeliveryPolicy} {b' : InProcessBroker} {id : Nat}
      (made : b.subscribe t f p = .ok (b', id)) : Change b b'
  | publish (t : String) (e : Json) : Change b (b.publish t e)
  | unsubscribe (id : Nat) : Change b (b.unsubscribe id)
  | receive (id : Nat) : Change b (b.receive id).1
  | shutdown : Change b b.shutdown

theorem change_act (x : Exchange) (m : BrokerMove) : Change x.broker (x.act m).broker := by
  cases m with
  | subscribe t f p =>
    cases made : x.broker.subscribe t f p with
    | error e =>
      rw [act_refused (InProcessBroker.subscribe_error_iff.mp made)]
      exact .same
    | ok done =>
      rw [act_subscribe made]
      exact .subscribe made
  | publish t e => exact .publish t e
  | unsubscribe i => exact .unsubscribe i
  | drop i =>
    rw [broker_drop]
    exact .same
  | receive i =>
    rw [act_receive]
    split
    · exact .same
    · exact .receive i
  | shutdown => exact .shutdown

theorem Change.consistent {b b' : InProcessBroker} (c : Change b b') (h : Consistent b) :
    Consistent b' := by
  cases c with
  | same => exact h
  | subscribe made => exact InProcessBroker.consistent_subscribe h made
  | publish t e => exact InProcessBroker.consistent_publish h t e
  | unsubscribe id => exact InProcessBroker.consistent_unsubscribe h id
  | receive id => exact InProcessBroker.consistent_receive h id
  | shutdown => exact InProcessBroker.consistent_shutdown h

theorem Change.filed {b b' : InProcessBroker} (c : Change b b') (h : Consistent b)
    (f : Filed b) : Filed b' := by
  cases c with
  | same => exact f
  | subscribe made => exact f.subscribe h made
  | publish t e => exact f.publish t e
  | unsubscribe id => exact f.unsubscribe id
  | receive id => exact f.receive id
  | shutdown => exact f.shutdown

/-- There is no way back from the shutdown. -/
theorem Change.shutDown {b b' : InProcessBroker} (c : Change b b') (down : b.shutDown = true) :
    b'.shutDown = true := by
  cases c with
  | same => exact down
  | subscribe made =>
    obtain ⟨running, -⟩ := InProcessBroker.subscribe_ok made
    rw [running] at down
    cases down
  | publish t e =>
    unfold InProcessBroker.publish
    rwa [if_pos down]
  | unsubscribe id => rwa [InProcessBroker.shutDown_unsubscribe]
  | receive id =>
    obtain ⟨-, -, same⟩ := b.receive_frame id
    rwa [same]
  | shutdown => exact InProcessBroker.shutDown_shutdown b

/-- The sink of a registration makes the moves that are meant for it. -/
theorem serves_act (h : Consistent x.broker) (r : Serves x.broker id topic filter sink)
    (receiver : held = true ↔ id ∉ x.dropped) (m : BrokerMove) :
    Serves (x.act m).broker id topic filter (sink.run (m.toSink id topic filter held)) := by
  cases m with
  | subscribe t f p =>
    show Serves (x.act (.subscribe t f p)).broker id topic filter sink
    cases made : x.broker.subscribe t f p with
    | error e => rwa [act_refused (InProcessBroker.subscribe_error_iff.mp made)]
    | ok done =>
      rw [act_subscribe made]
      exact r.subscribe made
  | publish t event =>
    have next := r.publish h t event
    show Serves (x.broker.publish t event) id topic filter
      (sink.run (if t = topic ∧ filter event then [.push event] else []))
    by_cases meant : t = topic ∧ filter event = true
    · rw [if_pos meant] at next ⊢
      exact next
    · rw [if_neg meant] at next ⊢
      exact next
  | unsubscribe i =>
    show Serves (x.broker.unsubscribe i) id topic filter
      (sink.run (if i = id then [.close] else []))
    by_cases own : i = id
    · rw [if_pos own, own]
      exact r.unsubscribe
    · rw [if_neg own]
      exact r.unsubscribe_ne (Ne.symm own)
  | drop i =>
    show Serves (x.act (.drop i)).broker id topic filter sink
    rwa [broker_drop]
  | receive i =>
    show Serves (x.act (.receive i)).broker id topic filter
      (sink.run (if i = id ∧ held = true then [.receive] else []))
    rw [act_receive]
    by_cases gone : i ∈ x.dropped
    · rw [if_pos gone, if_neg (by rintro ⟨rfl, has⟩; exact receiver.mp has gone)]
      exact r
    · rw [if_neg gone]
      by_cases own : i = id
      · subst own
        rw [if_pos ⟨rfl, receiver.mpr gone⟩]
        exact r.receive
      · rw [if_neg fun both => own both.1]
        exact r.receive_ne (Ne.symm own)
  | shutdown => exact r.shutdown

theorem found_act (r : Serves x.broker id topic filter sink)
    (receiver : held = true ↔ id ∉ x.dropped) (m : BrokerMove) :
    x.found id m = sink.answers (m.toSink id topic filter held) := by
  cases m with
  | publish t event =>
    show [] = sink.answers (if t = topic ∧ filter event then [.push event] else [])
    split <;> rfl
  | unsubscribe i =>
    show [] = sink.answers (if i = id then [.close] else [])
    split <;> rfl
  | receive i =>
    show (if i = id ∧ id < x.broker.sinks.length ∧ id ∉ x.dropped then _ else _) =
      sink.answers (if i = id ∧ held = true then [.receive] else [])
    by_cases asked : i = id ∧ id ∉ x.dropped
    · obtain ⟨rfl, free⟩ := asked
      rw [if_pos ⟨rfl, r.below, free⟩, if_pos ⟨rfl, receiver.mpr free⟩,
        InProcessBroker.receive_kept r.kept]
      rfl
    · rw [if_neg fun all => asked ⟨all.1, all.2.2⟩,
        if_neg fun both => asked ⟨both.1, receiver.mp both.2⟩]
      rfl
  | _ => rfl

/-- What is pushed on the sink of a registration is what is due to it, once each. -/
theorem pushes_act (h : Consistent x.broker) (r : Serves x.broker id topic filter sink)
    (m : BrokerMove) : x.pushes id m = x.due id topic filter m := by
  cases m with
  | publish t e =>
    have group := congrArg (List.filter (·.filter e)) (r.filter_subscribers h t)
    rw [List.filter_filter] at group
    have both : (x.broker.subscribers t).filter (fun s => s.id = id ∧ s.filter e) =
        (x.broker.subscribers t).filter (fun s => s.filter e && decide (s.id = id)) := by
      apply List.filter_congr
      intro s _
      rw [Bool.decide_and, Bool.and_comm, Bool.decide_eq_true]
    show (if x.broker.shutDown then [] else _) = if _ then _ else _
    cases down : x.broker.shutDown with
    | true =>
      obtain ⟨unlisted, -⟩ := r.ended down
      simp [unlisted]
    | false =>
      rw [if_neg (by simp), both, group]
      by_cases filed : t = topic ∧ x.broker.topics.lookup id = some topic
      · rw [if_pos filed]
        cases accepted : filter e <;> simp [accepted, filed]
      · rw [if_neg filed, if_neg fun all => filed ⟨all.1, all.2.2⟩]
        rfl
  | _ => rfl

/-- What is due to a registration is what its sink is offered while it is open. -/
theorem due_act (r : Serves x.broker id topic filter sink) (held : Bool) (m : BrokerMove) :
    x.due id topic filter m = sink.offers (m.toSink id topic filter held) := by
  cases m with
  | publish t e =>
    show (if t = topic ∧ filter e = true ∧ x.broker.topics.lookup id = some topic then _ else _) =
      sink.offers (if t = topic ∧ filter e then [.push e] else [])
    rw [r.listed]
    by_cases meant : t = topic ∧ filter e = true
    · rw [if_pos meant]
      show _ = (if sink.status = .active then [e] else []) ++ []
      by_cases active : sink.status = .active <;> simp [active, meant]
    · rw [if_neg meant, if_neg fun all => meant ⟨all.1, all.2.1⟩]
      rfl
  | unsubscribe i =>
    show [] = sink.offers (if i = id then [.close] else [])
    split <;> rfl
  | receive i =>
    show [] = sink.offers (if i = id ∧ held = true then [.receive] else [])
    split <;> rfl
  | _ => rfl

theorem mem_dropped_act (x : Exchange) (m : BrokerMove) (id : Nat) :
    id ∈ (x.act m).dropped ↔
      id ∈ x.dropped ∨ m.drops id = true ∧ id < x.broker.sinks.length := by
  cases m with
  | subscribe t f p =>
    cases made : x.broker.subscribe t f p with
    | error e =>
      rw [act_refused (InProcessBroker.subscribe_error_iff.mp made)]
      simp [BrokerMove.drops]
    | ok done =>
      rw [act_subscribe made]
      simp [BrokerMove.drops]
  | drop i =>
    simp only [act, BrokerMove.drops]
    by_cases known : i < x.broker.sinks.length
    · rw [if_pos known]
      by_cases own : i = id
      · subst own
        simp [known]
      · simp [own, Ne.symm own]
    · rw [if_neg known]
      have unknown : ¬ (i = id ∧ id < x.broker.sinks.length) := by
        rintro ⟨rfl, lt⟩
        exact known lt
      simp [unknown]
  | receive i =>
    rw [act_receive]
    split <;> simp [BrokerMove.drops]
  | _ => simp [act, BrokerMove.drops]

/-- Whether the receiver of a registration is held. -/
theorem receiver_decide (x : Exchange) (id : Nat) :
    decide (id ∉ x.dropped) = true ↔ id ∉ x.dropped := decide_eq_true_iff

theorem receiver_act (below : id < x.broker.sinks.length)
    (receiver : held = true ↔ id ∉ x.dropped) (m : BrokerMove) :
    (held && !m.drops id) = true ↔ id ∉ (x.act m).dropped := by
  rw [Bool.and_eq_true, receiver, mem_dropped_act, not_or]
  simp [below]

/-- A move gives out the next number, or none. -/
theorem registers_act (x : Exchange) (m : BrokerMove) :
    x.registers m = [] ∧ (x.act m).broker.sinks.length = x.broker.sinks.length ∨
      x.registers m = [x.broker.sinks.length] ∧
        (x.act m).broker.sinks.length = x.broker.sinks.length + 1 := by
  cases m with
  | subscribe t f p =>
    cases made : x.broker.subscribe t f p with
    | error e =>
      left
      rw [act_refused (InProcessBroker.subscribe_error_iff.mp made)]
      simp [registers, made]
    | ok done =>
      obtain ⟨b, id⟩ := done
      obtain ⟨-, -, fresh, -⟩ := InProcessBroker.subscribe_ok made
      right
      rw [act_subscribe made]
      simp [registers, made, fresh, InProcessBroker.sinks_subscribe made]
  | publish topic event => exact .inl ⟨rfl, InProcessBroker.length_publish _ _ _⟩
  | unsubscribe id => exact .inl ⟨rfl, InProcessBroker.length_unsubscribe _ _⟩
  | drop id => exact .inl ⟨rfl, by rw [broker_drop]⟩
  | receive id =>
    refine .inl ⟨rfl, ?_⟩
    rw [act_receive]
    split
    · rfl
    · exact InProcessBroker.length_receive _ _
  | shutdown => exact .inl ⟨rfl, InProcessBroker.length_shutdown _⟩

theorem registers_some {m : BrokerMove} (made : x.registers m = [id]) :
    ∃ t f p b, m = .subscribe t f p ∧ x.broker.subscribe t f p = .ok (b, id) := by
  cases m with
  | subscribe t f p =>
    simp only [registers] at made
    split at made
    · next b i ok =>
      obtain rfl : i = id := List.singleton_inj.mp made
      exact ⟨t, f, p, b, rfl, ok⟩
    · cases made
  | _ => cases made

/-- The moves that end a registration whose sink is open. -/
def Removes (id : Nat) (topic : String) (filter : EventFilter) (sink : Sink) : BrokerMove → Prop
  | .publish t e =>
    t = topic ∧ filter e = true ∧ sink.policy.mode = .buffer ∧
      sink.queue.length = sink.policy.capacity
  | .unsubscribe i => i = id
  | .shutdown => True
  | _ => False

theorem status_toSink (active : sink.status = .active)
    (le : sink.queue.length ≤ sink.policy.capacity) (held : Bool) (m : BrokerMove) :
    (sink.run (m.toSink id topic filter held)).status ≠ .active ↔
      Removes id topic filter sink m := by
  have closed : sink.close.status ≠ .active := by
    rw [Sink.close_active active]
    simp
  cases m with
  | publish t e =>
    show (sink.run (if t = topic ∧ filter e then [.push e] else [])).status ≠ .active ↔
      t = topic ∧ filter e = true ∧ _
    by_cases meant : t = topic ∧ filter e = true
    · rw [if_pos meant]
      show (sink.push e).1.status ≠ .active ↔ _
      rw [Sink.status_push_iff active le, ← and_assoc, and_iff_right meant]
    · rw [if_neg meant]
      exact iff_of_false (fun ended => ended active) fun all => meant ⟨all.1, all.2.1⟩
  | unsubscribe i =>
    show (sink.run (if i = id then [.close] else [])).status ≠ .active ↔ i = id
    by_cases own : i = id
    · rw [if_pos own]
      exact iff_of_true closed own
    · rw [if_neg own]
      exact iff_of_false (fun ended => ended active) own
  | receive i =>
    show (sink.run (if i = id ∧ held = true then [.receive] else [])).status ≠ .active ↔ False
    split
    · exact iff_of_false (fun ended => ended (Sink.active_receive active)) not_false
    · exact iff_of_false (fun ended => ended active) not_false
  | shutdown => exact iff_of_true closed trivial
  | subscribe t f p => exact iff_of_false (fun ended => ended active) not_false
  | drop i => exact iff_of_false (fun ended => ended active) not_false

end Exchange

end GraphQLEngine
