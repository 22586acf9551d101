import GraphQLEngine.Proofs.Brokers.Exchanges

/-!
# Routing

Whatever is done with a broker, its maps stay in order, and each registration is filed exactly as
long as its sink is open.  Between its making and its end the sink is offered the events of its
topic that its filter accepts, each one once and in the order in which they are published; it ends
with its own release, its own overflow or the shutdown, and whatever the others do, its state is
that of a sink with which nothing else was done.

    sinks[id] = (Sink.new policy).run (seenBy id topic filter true later)
    lookup id topics = some topic   while that sink is open, and none after that
-/

namespace GraphQLEngine

open InProcessBroker (Consistent Filed Serves)
open BrokerMove (seenBy)

namespace Exchange

variable {x : Exchange} {id : Nat} {topic : String} {filter : EventFilter} {policy : DeliveryPolicy}
  {sink : Sink} {held : Bool}

/-! ## The invariant -/

/-- The maps are in order, and every registration ever made is filed as long as its sink is open. -/
structure Sound (x : Exchange) : Prop where
  consistent : Consistent x.broker
  filed : Filed x.broker
  serves : ∀ id, id < x.broker.sinks.length →
    ∃ topic filter sink, Serves x.broker id topic filter sink
  known : ∀ id ∈ x.dropped, id < x.broker.sinks.length

theorem sound_new : Sound .new where
  consistent := InProcessBroker.consistent_new
  filed := InProcessBroker.filed_new
  serves := fun id below => absurd below (Nat.not_lt_zero id)
  known := fun _ mem => absurd mem List.not_mem_nil

/-- A registration starts with an empty sink and a receiver. -/
theorem Sound.registers (S : Sound x)
    (made : x.registers (.subscribe topic filter policy) = [id]) :
    0 < policy.capacity ∧ id ∉ (x.act (.subscribe topic filter policy)).dropped ∧
      Serves (x.act (.subscribe topic filter policy)).broker id topic filter (Sink.new policy) := by
  obtain ⟨t, f, p, b, same, ok⟩ := registers_some made
  cases same
  obtain ⟨-, positive, fresh, -⟩ := InProcessBroker.subscribe_ok ok
  refine ⟨positive, ?_, ?_⟩
  · rw [act_subscribe ok]
    intro mem
    have := S.known id mem
    omega
  · rw [act_subscribe ok]
    exact .inl ⟨InProcessBroker.holds_subscribe S.consistent ok, rfl⟩

theorem Sound.act (S : Sound x) (m : BrokerMove) : Sound (x.act m) := by
  have change := x.change_act m
  constructor
  · exact change.consistent S.consistent
  · exact change.filed S.consistent S.filed
  · intro id below
    by_cases old : id < x.broker.sinks.length
    · obtain ⟨topic, filter, sink, r⟩ := S.serves id old
      exact ⟨topic, filter, _, serves_act S.consistent r (x.receiver_decide id) m⟩
    · rcases x.registers_act m with ⟨-, length⟩ | ⟨made, length⟩
      · omega
      · obtain rfl : id = x.broker.sinks.length := by omega
        obtain ⟨topic, filter, policy, b, rfl, -⟩ := registers_some made
        exact ⟨topic, filter, _, (S.registers made).2.2⟩
  · intro id mem
    have grows : x.broker.sinks.length ≤ (x.act m).broker.sinks.length := by
      rcases x.registers_act m with ⟨-, length⟩ | ⟨-, length⟩ <;> omega
    rcases (x.mem_dropped_act m id).mp mem with old | ⟨-, below⟩
    · have := S.known id old
      omega
    · omega

theorem Sound.run (S : Sound x) (moves : List BrokerMove) : Sound (x.run moves) := by
  induction moves generalizing x with
  | nil => exact S
  | cons m ms ih => exact ih (S.act m)

/-! ## Runs -/

/-- The numbers that are given out follow each other. -/
theorem registers_run (x : Exchange) (moves : List BrokerMove) :
    List.range x.broker.sinks.length ++ observe act registers x moves =
      List.range (x.run moves).broker.sinks.length := by
  induction moves generalizing x with
  | nil => exact List.append_nil _
  | cons m ms ih =>
    show List.range x.broker.sinks.length ++ (x.registers m ++ observe act registers (x.act m) ms) =
      List.range ((x.act m).run ms).broker.sinks.length
    rw [← ih (x.act m), ← List.append_assoc]
    rcases x.registers_act m with ⟨none, length⟩ | ⟨made, length⟩
    · rw [none, length, List.append_nil]
    · rw [made, length, List.range_succ]

/-- In a run the sink of a registration goes through the moves that are meant for it. -/
theorem serves_run (S : Sound x) (r : Serves x.broker id topic filter sink)
    (receiver : held = true ↔ id ∉ x.dropped) (moves : List BrokerMove) :
    Serves (x.run moves).broker id topic filter (sink.run (seenBy id topic filter held moves)) ∧
      observe act (found id) x moves = sink.answers (seenBy id topic filter held moves) ∧
      observe act (pushes id) x moves = observe act (due id topic filter) x moves ∧
      observe act (due id topic filter) x moves =
        sink.offers (seenBy id topic filter held moves) := by
  induction moves generalizing x sink held with
  | nil => exact ⟨r, rfl, rfl, rfl⟩
  | cons m ms ih =>
    obtain ⟨serves, answers, pushed, offers⟩ := ih (S.act m)
      (serves_act S.consistent r receiver m) (receiver_act r.below receiver m)
    have own : seenBy id topic filter held (m :: ms) = m.toSink id topic filter held ++
        seenBy id topic filter (held && !m.drops id) ms := rfl
    refine ⟨?_, ?_, ?_, ?_⟩
    · rw [own, Sink.run_append]
      exact serves
    · show x.found id m ++ observe act (found id) (x.act m) ms = _
      rw [answers, found_act r receiver m, own]
      exact (observe_append _ _ _ _ _).symm
    · show x.pushes id m ++ observe act (pushes id) (x.act m) ms =
        x.due id topic filter m ++ observe act (due id topic filter) (x.act m) ms
      rw [pushed, pushes_act S.consistent r m]
    · show x.due id topic filter m ++ observe act (due id topic filter) (x.act m) ms = _
      rw [offers, due_act r held m, own]
      exact (Sink.offers_append _ _ _).symm

theorem shutDown_run (moves : List BrokerMove)
    (down : .shutdown ∈ moves ∨ x.broker.shutDown = true) :
    (x.run moves).broker.shutDown = true := by
  induction moves generalizing x with
  | nil => exact down.resolve_left List.not_mem_nil
  | cons m ms ih =>
    apply ih
    rcases down with mem | down
    · rcases List.mem_cons.mp mem with rfl | later
      · exact .inr x.broker.shutDown_shutdown
      · exact .inl later
    · exact .inr ((x.change_act m).shutDown down)

/-! ## What a broker looks like -/

/-- The two maps of a broker agree with each other and with its sinks. -/
structure Agrees (b : InProcessBroker) : Prop where
  topics : (b.topics.map Prod.fst).Nodup
  groups : (b.groups.map Prod.fst).Nodup
  listed : ∀ id topic,
    b.topics.lookup id = some topic ↔ id ∈ (b.subscribers topic).map (·.id)
  distinct : ∀ topic, ((b.subscribers topic).map (·.id)).Nodup
  inhabited : ∀ group ∈ b.groups, group.2 ≠ []
  opened : ∀ topic, ∀ s ∈ b.subscribers topic,
    ∃ sink, b.sinks[s.id]? = some sink ∧ sink.status = .active
  counted : ∀ topic, b.count topic = (b.topics.filter (·.2 = topic)).length

/-- What is filed is held, and its sink is open. -/
theorem Sound.holds (S : Sound x) (listed : x.broker.topics.lookup id = some topic) :
    ∃ filter sink, InProcessBroker.Holds x.broker id topic filter sink ∧ sink.status = .active := by
  obtain ⟨t, filter, sink, r⟩ := S.serves id (S.consistent.known id topic listed)
  rcases r with ⟨holds, active⟩ | ⟨released, -⟩
  · obtain rfl : t = topic := Option.some.inj (holds.listed.symm.trans listed)
    exact ⟨filter, sink, holds, active⟩
  · rw [released.unlisted] at listed
    cases listed

theorem Sound.agrees (S : Sound x) : Agrees x.broker := by
  have listed : ∀ id topic, x.broker.topics.lookup id = some topic ↔
      id ∈ (x.broker.subscribers topic).map (·.id) := by
    intro id topic
    constructor
    · intro found
      obtain ⟨filter, sink, holds, -⟩ := S.holds found
      exact List.mem_map_of_mem (f := (·.id)) holds.member
    · intro mem
      obtain ⟨s, hs, rfl⟩ := List.mem_map.mp mem
      exact S.consistent.filed topic s hs
  refine ⟨S.filed.topics, S.filed.groups, listed, S.consistent.distinct, S.filed.inhabited, ?_, ?_⟩
  · intro topic s hs
    obtain ⟨filter, sink, holds, active⟩ := S.holds (S.consistent.filed topic s hs)
    exact ⟨sink, holds.kept, active⟩
  · intro topic
    exact S.filed.count_eq (S.consistent.distinct topic) fun id => listed id topic

/-- What is left of a broker after its shutdown: nobody is filed, nothing can be done, and the
receivers drain their sinks and then find the end. -/
structure Finished (x : Exchange) : Prop where
  topics : x.broker.topics = []
  groups : x.broker.groups = []
  counted : ∀ topic, x.broker.count topic = 0
  publish : ∀ topic event, x.broker.publish topic event = x.broker
  refused : ∀ topic policy, x.broker.refusal? topic policy ≠ none
  drained : ∀ id sink, x.broker.sinks[id]? = some sink → ∀ later,
    observe act (found id) x later =
      ending sink.rest (observe act (found id) x later).length

theorem Sound.finished (S : Sound x) (down : x.broker.shutDown = true) : Finished x := by
  have unlisted : ∀ id, x.broker.topics.lookup id = none := by
    intro id
    cases found : x.broker.topics.lookup id with
    | none => rfl
    | some topic =>
      obtain ⟨t, filter, sink, r⟩ := S.serves id (S.consistent.known id topic found)
      rw [(r.ended down).1] at found
      cases found
  have alone : ∀ topic, x.broker.subscribers topic = [] := by
    intro topic
    apply List.eq_nil_iff_forall_not_mem.mpr
    intro s mem
    have found := S.consistent.filed topic s mem
    rw [unlisted] at found
    cases found
  constructor
  · apply List.eq_nil_iff_forall_not_mem.mpr
    rintro ⟨id, topic⟩ mem
    have found := lookup_of_mem S.filed.topics mem
    rw [unlisted] at found
    cases found
  · apply List.eq_nil_iff_forall_not_mem.mpr
    rintro ⟨topic, group⟩ mem
    have nobody := S.filed.subscribers_eq mem
    exact S.filed.inhabited _ mem (nobody.symm.trans (alone topic))
  · intro topic
    rw [InProcessBroker.count, alone]
    rfl
  · intro topic event
    unfold InProcessBroker.publish
    rw [if_pos down]
  · intro topic policy
    unfold InProcessBroker.refusal?
    simp only [down, if_true]
    split
    · simp
    · split <;> simp
  · intro id sink kept later
    obtain ⟨topic, filter, sink', r⟩ := S.serves id (List.getElem?_eq_some_iff.mp kept).1
    obtain rfl : sink' = sink := Option.some.inj (r.kept.symm.trans kept)
    obtain ⟨-, ended⟩ := r.ended down
    obtain ⟨-, answers, -⟩ := serves_run S r (x.receiver_decide id) later
    rw [answers, Sink.answers_ended ended, length_ending]

/-! ## Registrations -/

/-- A registration after the moves that followed its making.  Its sink is as if nothing else had
been done, the events that were pushed on it are those that were due, and it is filed as long as
that sink is open; then each move that removes it is its own release, the shutdown or an event of
its own for which there is no room, and no move brings it back. -/
structure Routed (x : Exchange) (id : Nat) (topic : String) (filter : EventFilter) (sink : Sink)
    (later : List BrokerMove) : Prop where
  kept : (x.run later).broker.sinks[id]? = some (sink.run (seenBy id topic filter true later))
  answers : observe act (found id) x later = sink.answers (seenBy id topic filter true later)
  pushed : observe act (pushes id) x later = observe act (due id topic filter) x later
  offers : observe act (due id topic filter) x later =
    sink.offers (seenBy id topic filter true later)
  listed : (x.run later).broker.topics.lookup id =
    if (sink.run (seenBy id topic filter true later)).status = .active then some topic else none
  removed : (x.run later).broker.topics.lookup id = some topic → ∀ m,
    (((x.run later).act m).broker.topics.lookup id = none ↔
      Removes id topic filter (sink.run (seenBy id topic filter true later)) m)
  gone : (x.run later).broker.topics.lookup id = none → ∀ m,
    ((x.run later).act m).broker.topics.lookup id = none

theorem Sound.routed (S : Sound x)
    (made : x.registers (.subscribe topic filter policy) = [id]) (later : List BrokerMove) :
    Routed (x.act (.subscribe topic filter policy)) id topic filter (Sink.new policy) later := by
  obtain ⟨positive, free, start⟩ := S.registers made
  have S' := S.act (.subscribe topic filter policy)
  have receiver : true = true ↔ id ∉ (x.act (.subscribe topic filter policy)).dropped :=
    iff_of_true rfl free
  obtain ⟨serves, answers, pushed, offers⟩ := serves_run S' start receiver later
  -- the sink cannot tell whether its receiver is held, so any answer will do for the next move
  have next : ∀ m, ∃ held, Serves
      (((x.act (.subscribe topic filter policy)).run later).act m).broker id topic filter
      (((Sink.new policy).run (seenBy id topic filter true later)).run
        (m.toSink id topic filter held)) := by
    intro m
    exact ⟨_, serves_act (S'.run later).consistent serves (receiver_decide _ id) m⟩
  refine ⟨serves.kept, answers, pushed, offers, serves.listed, fun filed m => ?_, fun out m => ?_⟩
  · have active : ((Sink.new policy).run (seenBy id topic filter true later)).status = .active := by
      by_contra ended
      rw [serves.listed, if_neg ended] at filed
      cases filed
    have le := Sink.length_queue_run (s := Sink.new policy) positive (Nat.zero_le _)
      (seenBy id topic filter true later)
    obtain ⟨held, after⟩ := next m
    rw [after.listed, ← status_toSink active (by rwa [Sink.policy_run]) held m]
    simp
  · have ended : ((Sink.new policy).run (seenBy id topic filter true later)).status ≠ .active := by
      intro active
      rw [serves.listed, if_pos active] at out
      cases out
    obtain ⟨held, after⟩ := next m
    rw [after.listed, if_neg (Sink.ended_run ended _)]

/-- Routing is exact.  After any run of a broker that starts with nothing: its maps agree; the
numbers that were given out are all those below the next one, in order; each registration that was
made on the way is routed as it should be, whatever else happened; to release what is not registered
changes nothing; a subscription is refused for a reason, which leaves all as it is, or made; and
after a shutdown the broker is finished. -/
theorem routing_exact (moves : List BrokerMove) :
    let x := Exchange.new.run moves
    Agrees x.broker ∧
      observe act registers .new moves = List.range x.broker.sinks.length ∧
      (∀ before topic filter policy later id,
        moves = before ++ .subscribe topic filter policy :: later →
        (Exchange.new.run before).registers (.subscribe topic filter policy) = [id] →
        Routed ((Exchange.new.run before).act (.subscribe topic filter policy)) id topic filter
          (Sink.new policy) later) ∧
      (∀ id, x.broker.topics.lookup id = none → x.act (.unsubscribe id) = x) ∧
      (∀ topic filter policy,
        (∃ e, x.broker.refusal? topic policy = some e ∧
          x.broker.subscribe topic filter policy = .error e ∧
          x.act (.subscribe topic filter policy) = x) ∨
        x.broker.refusal? topic policy = none ∧
          x.registers (.subscribe topic filter policy) = [x.broker.sinks.length]) ∧
      (.shutdown ∈ moves → Finished x) := by
  intro x
  have S : ∀ ms, Sound (Exchange.new.run ms) := fun ms => sound_new.run ms
  refine ⟨(S moves).agrees, registers_run .new moves, ?_, ?_, ?_, ?_⟩
  · intro before topic filter policy later id _ made
    exact (S before).routed made later
  · intro id out
    show ({ x with broker := x.broker.unsubscribe id } : Exchange) = x
    rw [InProcessBroker.unsubscribe_none out]
  · intro topic filter policy
    cases refused : x.broker.refusal? topic policy with
    | some e =>
      exact .inl ⟨e, rfl, InProcessBroker.subscribe_error_iff.mpr refused,
        act_refused refused filter⟩
    | none =>
      right
      refine ⟨rfl, ?_⟩
      rcases x.registers_act (.subscribe topic filter policy) with ⟨none_, -⟩ | ⟨made, -⟩
      · simp only [registers] at none_
        split at none_
        · cases none_
        · next e error =>
          rw [InProcessBroker.subscribe_error_iff, refused] at error
          cases error
      · exact made
  · intro down
    exact (S moves).finished (shutDown_run moves (.inl down))

/-- Two subscribers of a topic, of whom only the first must not miss an event: the second event ends
its registration and leaves the other alone, and its receiver is told after the shutdown. -/
theorem routing_exact_overflow :
    let all : EventFilter := fun _ => true
    let later : List BrokerMove := [.subscribe "t" all ⟨.dropOldest, 1⟩, .publish "t" (.str "a"),
      .publish "u" (.str "b"), .publish "t" (.str "c"), .unsubscribe 0, .publish "t" (.str "d"),
      .drop 1, .receive 1, .shutdown, .receive 0, .receive 0, .receive 0]
    let x := Exchange.new.act (.subscribe "t" all ⟨.buffer, 1⟩)
    Exchange.new.registers (.subscribe "t" all ⟨.buffer, 1⟩) = [0] ∧
      observe act (found 0) x later = [.event (.str "a"), .overflow 1, .ended] ∧
      observe act (due 0 "t" all) x later = [.str "a", .str "c"] ∧
      (x.run later).broker.topics = [] := by
  intro all later x
  have made : Exchange.new.registers (.subscribe "t" all ⟨.buffer, 1⟩) = [0] := by decide
  have seen : seenBy 0 "t" all true later = [.push (.str "a"), .push (.str "c"), .close,
      .push (.str "d"), .close, .receive, .receive, .receive] := by rfl
  obtain ⟨-, -, routed, -, -, finished⟩ := routing_exact (.subscribe "t" all ⟨.buffer, 1⟩ :: later)
  have first := routed [] "t" all ⟨.buffer, 1⟩ later 0 rfl made
  rw [run_cons] at finished
  have done : Finished (x.run later) := finished (by simp [later])
  refine ⟨made, ?_, ?_, done.topics⟩
  · rw [show observe act (found 0) x later = _ from first.answers, seen]
    rfl
  · rw [show observe act (due 0 "t" all) x later = _ from first.offers, seen]
    rfl

end Exchange

end GraphQLEngine
