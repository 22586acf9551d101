import GraphQLEngine.Proofs.Brokers.Streams
import GraphQLEngine.Proofs.Brokers.Ledger
import Mathlib.Data.List.Perm.Subperm

/-!
# Delivery to subscribers that must not miss an event

A registration that buffers its events and is neither released nor shut down is open or has
overflowed after every move.  While it is open, its stream holds all that its station heard for it,
and whatever else was asked for is on its way or lost without notice; and a move that loses an event
on the way ends the registration if it can tell.

    Idle w  →  the stream holds all events asked for but the lost ones, or it ends with the report
-/

namespace GraphQLEngine

/-- The events that a subscriber is offered of the messages heard. -/
def offered (topic : String) (filter : EventFilter) (ms : List BusMessage) : List Json :=
  ms.flatMap fun m => InProcessBroker.picked topic filter m.topic m.payload

namespace InProcessBroker

/-- What a move of others does to the broker of a registration: the messages that it is handed, and
what the receiver of the registration finds. -/
inductive Change (id : Nat) (b : InProcessBroker) :
    List BusMessage → List Received → InProcessBroker → Prop
  | same : Change id b [] [] b
  | subscribe {topic : String} {filter : EventFilter} {policy : DeliveryPolicy} {new : Nat}
    {b' : InProcessBroker} : b.subscribe topic filter policy = .ok (b', new) → Change id b [] [] b'
  | unsubscribe {other : Nat} : id ≠ other → Change id b [] [] (b.unsubscribe other)
  | receive : Change id b [] [(b.receive id).2] (b.receive id).1
  | receiveOther {other : Nat} : id ≠ other → Change id b [] [] (b.receive other).1
  | publish (m : BusMessage) : Change id b [m] [] (b.publish m.topic m.payload)
  | overflow (ids : List Nat) : Change id b [] [] (b.overflowAll ids)

variable {b b' : InProcessBroker} {id : Nat} {topic : String} {filter : EventFilter}
  {policy : DeliveryPolicy} {heard ms : List BusMessage} {taken found : List Received}

theorem Change.consistent (c : Change id b ms found b') (h : Consistent b) : Consistent b' := by
  cases c with
  | same => exact h
  | subscribe ok => exact consistent_subscribe h ok
  | unsubscribe => exact consistent_unsubscribe h _
  | receive => exact consistent_receive h _
  | receiveOther => exact consistent_receive h _
  | publish m => exact consistent_publish h _ _
  | overflow ids => exact consistent_overflowAll h ids

theorem offered_append (topic : String) (filter : EventFilter) (ms ns : List BusMessage) :
    offered topic filter (ms ++ ns) = offered topic filter ms ++ offered topic filter ns :=
  List.flatMap_append

theorem Change.opened (c : Change id b ms found b') (h : Consistent b)
    (buffer : policy.mode = .buffer)
    (r : Opened b id topic filter policy (offered topic filter heard) taken) :
    Opened b' id topic filter policy (offered topic filter (heard ++ ms))
        (taken ++ found.filter (·.isItem)) ∨
      Overflowed b' id policy (offered topic filter (heard ++ ms))
        (taken ++ found.filter (·.isItem)) := by
  cases c with
  | same => exact .inl (by simpa using r)
  | subscribe ok => exact .inl (by simpa using r.subscribe ok)
  | unsubscribe ne => exact .inl (by simpa using r.unsubscribe_ne ne)
  | receive => exact .inl (by simpa only [List.append_nil] using r.receive)
  | receiveOther ne => exact .inl (by simpa using r.receive_ne ne)
  | publish m =>
    have one : offered topic filter [m] = picked topic filter m.topic m.payload :=
      List.flatMap_singleton _ _
    rw [offered_append, one, List.filter_nil, List.append_nil]
    exact r.publish h buffer m.topic m.payload
  | overflow ids =>
    rw [List.append_nil, List.filter_nil, List.append_nil]
    by_cases mem : id ∈ ids
    · exact .inr (r.overflowAll_mem buffer mem)
    · exact .inl (r.overflowAll_notMem mem)

theorem Change.overflowed (c : Change id b ms found b') (h : Consistent b)
    (r : Overflowed b id policy (offered topic filter heard) taken) :
    Overflowed b' id policy (offered topic filter (heard ++ ms))
      (taken ++ found.filter (·.isItem)) := by
  cases c with
  | same => simpa using r
  | subscribe ok => simpa using r.subscribe ok
  | unsubscribe => simpa using r.unsubscribe _
  | receive => simpa only [List.append_nil] using r.receive
  | receiveOther ne => simpa using r.receive_ne ne
  | publish m =>
    rw [offered_append, List.filter_nil, List.append_nil]
    exact r.publish h m.topic m.payload _
  | overflow ids => simpa using r.overflowAll ids

end InProcessBroker

open InProcessBroker

variable {k id : Nat} {topic : String} {filter : EventFilter} {policy : DeliveryPolicy}

/-! ## What a move does at one station -/

theorem Node.change_publish (id : Nat) (n : Node) (m : BusMessage) :
    Change id n.broker [] [] (n.publish m).broker := by
  unfold Node.publish
  split
  · exact .same
  · split
    · exact .same
    · exact .overflow _

theorem Station.change_subscribe (id : Nat) (s : Station) (topic : String) (filter : EventFilter)
    (policy : DeliveryPolicy) :
    Change id s.node.broker [] [] (s.subscribe topic filter policy).node.broker := by
  simp only [subscribe, onBroker, onNode]
  split
  · next ok => exact .subscribe ok
  · exact .same

theorem Station.change_listen (id : Nat) (s : Station) :
    Change id s.node.broker
      (if s.node.listening then ((s.node.feed.next?.map Prod.fst).bind FeedItem.message?).toList
        else [])
      [] s.listen.node.broker := by
  unfold listen
  cases first : s.node.feed.next? with
  | none =>
    split <;> exact .same
  | some entry =>
    obtain ⟨item, feed⟩ := entry
    cases listens : s.node.listening with
    | false => simpa [onNode, Node.receive, listens] using .same
    | true =>
      cases item with
      | message m => simpa [onNode, Node.receive, listens] using .publish m
      | loss => simpa [onNode, Node.receive, listens] using .overflow _
      | finish => simpa [onNode, Node.receive, listens] using .same

namespace Cluster

variable {w : Cluster} {s : Station}

/-- A move of one station, seen from station `k`. -/
theorem change_modify (h : w[k]? = some s) {i : Nat} {f : Station → Station}
    {ms : List BusMessage} {rs : List Received}
    (own : i = k → Change id s.node.broker ms rs (f s).node.broker)
    (other : i ≠ k → ms = [] ∧ rs = []) :
    ∃ s', (w.modify i f)[k]? = some s' ∧ Change id s.node.broker ms rs s'.node.broker := by
  by_cases same : i = k
  · refine ⟨f s, ?_, own same⟩
    rw [same, List.getElem?_modify_eq, h]
    rfl
  · obtain ⟨rfl, rfl⟩ := other same
    exact ⟨s, (List.getElem?_modify_ne _ _ same).trans h, .same⟩

theorem change_act (h : w[k]? = some s) (id : Nat) (move : Move) (kept : move ≠ .unsubscribe k id)
    (up : move ≠ .shutdown k) :
    ∃ s', (w.act move)[k]? = some s' ∧
      Change id s.node.broker (w.heard k move) (w.found k id move) s'.node.broker := by
  cases move with
  | subscribe i topic filter policy =>
    exact change_modify h (fun _ => s.change_subscribe id topic filter policy)
      fun _ => ⟨rfl, rfl⟩
  | unsubscribe i j =>
    refine change_modify h (fun own => ?_) fun _ => ⟨rfl, rfl⟩
    subst own
    exact .unsubscribe fun same => kept (by rw [same])
  | publish i m => exact change_modify h (fun _ => s.node.change_publish id m) fun _ => ⟨rfl, rfl⟩
  | receive i j =>
    refine change_modify h (fun own => ?_) fun other => ⟨rfl, ?_⟩
    · subst own
      simp only [Cluster.heard, Cluster.found, h, true_and]
      by_cases same : j = id
      · subst same
        rw [if_pos rfl]
        exact .receive
      · rw [if_neg same]
        exact .receiveOther fun e => same e.symm
    · simp only [Cluster.found, other, false_and, if_false]
      split <;> rfl
  | shutdown i => exact change_modify h (fun own => absurd (own ▸ rfl) up) fun _ => ⟨rfl, rfl⟩
  | take i =>
    refine change_modify h (fun _ => ?_) fun _ => ⟨rfl, rfl⟩
    unfold Station.take
    split <;> exact .same
  | answer i handling =>
    simp only [act]
    split
    · exact ⟨s, h, .same⟩
    · next m _ =>
      have cleared : ∃ s', (w.modify i ({ · with sending := none }))[k]? = some s' ∧
          s'.node = s.node := by
        rw [List.getElem?_modify, h]
        exact ⟨_, rfl, by split <;> rfl⟩
      obtain ⟨s', cleared, node⟩ := cleared
      refine ⟨s'.carry m (handling k), ?_, ?_⟩
      · rw [carry, List.getElem?_mapIdx, cleared]
        rfl
      · have same : (s'.carry m (handling k)).node.broker = s.node.broker := by
          rw [← node]
          unfold Station.carry
          split <;> rfl
        rw [same]
        exact .same
  | hear i kept item => exact change_modify h (fun _ => .same) fun _ => ⟨rfl, rfl⟩
  | listen i =>
    refine change_modify h (fun own => ?_) fun other => ⟨?_, rfl⟩
    · subst own
      simp only [Cluster.heard, Cluster.found, h, true_and]
      exact s.change_listen id
    · simp only [Cluster.heard, other, false_and, if_false]
      split <;> rfl

/-! ## Brokers stay consistent -/

theorem length_act (w : Cluster) (move : Move) : (w.act move).length = w.length := by
  cases move with
  | answer i handling =>
    simp only [act]
    split
    · rfl
    · rw [carry, List.length_mapIdx, List.length_modify]
  | _ => exact List.length_modify _ _ _

theorem consistent_act (h : w[k]? = some s) (c : Consistent s.node.broker) (move : Move) :
    ∃ s', (w.act move)[k]? = some s' ∧ Consistent s'.node.broker := by
  have changed : ∀ id, move ≠ .unsubscribe k id → move ≠ .shutdown k →
      ∃ s', (w.act move)[k]? = some s' ∧ Consistent s'.node.broker := by
    intro id kept up
    obtain ⟨s', at', change⟩ := change_act h id move kept up
    exact ⟨s', at', change.consistent c⟩
  cases move with
  | unsubscribe i j => exact changed (j + 1) (by simp) (by simp)
  | shutdown i =>
    by_cases own : i = k
    · refine ⟨s.shutdown, ?_, consistent_shutdown c⟩
      rw [act, own, List.getElem?_modify_eq, h]
      rfl
    · exact changed 0 (by simp) (by simp [own])
  | _ => exact changed 0 (by simp) (by simp)

theorem consistent_run (moves : List Move) {w : Cluster} {s : Station} (h : w[k]? = some s)
    (c : Consistent s.node.broker) :
    ∃ s', (w.run moves)[k]? = some s' ∧ Consistent s'.node.broker := by
  induction moves generalizing w s with
  | nil => exact ⟨s, h, c⟩
  | cons move moves ih =>
    obtain ⟨s', at', c'⟩ := consistent_act h c move
    exact ih at' c'

theorem length_run (w : Cluster) (moves : List Move) : (w.run moves).length = w.length := by
  induction moves generalizing w with
  | nil => rfl
  | cons move moves ih => exact (ih _).trans (length_act w move)

/-- The brokers of a network are consistent after every run. -/
theorem consistent_run_new (capacities : List Nat) (moves : List Move)
    (h : (run (new capacities) moves)[k]? = some s) : Consistent s.node.broker := by
  have below : k < (new capacities).length := by
    rw [← length_run (new capacities) moves]
    exact (List.getElem?_eq_some_iff.mp h).1
  have first : ∃ c, (new capacities)[k]? = some (.new c) := by
    rw [new, List.length_map] at below
    exact ⟨capacities[k], by rw [new, List.getElem?_map, List.getElem?_eq_getElem below]; rfl⟩
  obtain ⟨c, first⟩ := first
  obtain ⟨s', at', consistent⟩ := consistent_run moves first consistent_new
  obtain rfl : s = s' := Option.some.inj (h.symm.trans at')
  exact consistent

/-! ## Losses that a station can tell -/

/-- The station learns that its subscribers of a topic miss an event. -/
def Tells (k : Nat) (topic : String) (s : Station) : Move → Prop
  | .publish i m => i = k ∧ m.topic = topic ∧ s.node.running = true ∧
    ¬ s.node.outbound.length < s.node.outboundCapacity
  | .listen i => i = k ∧ s.node.listening = true ∧ ∃ feed, s.node.feed.next? = some (.loss, feed)
  | _ => False

variable {asked heard lost : List BusMessage} {taken : List Received} {move : Move}

/-- A loss that a station can tell ends the registration. -/
theorem overflowed_act (h : w[k]? = some s) (told : Tells k topic s move)
    (buffer : policy.mode = .buffer)
    (r : Opened s.node.broker id topic filter policy (offered topic filter heard) taken) :
    ∃ s', (w.act move)[k]? = some s' ∧
      Overflowed s'.node.broker id policy (offered topic filter (heard ++ w.heard k move))
        (taken ++ (w.found k id move).filter (·.isItem)) := by
  obtain ⟨sink, holds, -⟩ := r.held
  cases move with
  | publish i m =>
    obtain ⟨own, same, running, full⟩ := told
    refine ⟨s.onNode (·.publish m), ?_, ?_⟩
    · rw [act, own, List.getElem?_modify_eq, h]
      rfl
    · have spilled : (s.node.publish m).broker = s.node.broker.overflowTopic m.topic := by
        simp [Node.publish, running, full]
      show Overflowed (s.node.publish m).broker id policy (offered topic filter (heard ++ []))
        (taken ++ [])
      rw [spilled, same, List.append_nil, List.append_nil]
      exact r.overflowAll_mem buffer (List.mem_map_of_mem (f := (·.id)) holds.member)
  | listen i =>
    obtain ⟨own, listens, feed, first⟩ := told
    subst own
    refine ⟨s.listen, ?_, ?_⟩
    · rw [act, List.getElem?_modify_eq, h]
      rfl
    · have spilled : s.listen.node.broker = s.node.broker.overflowEverywhere := by
        simp [Station.listen, first, Station.onNode, Node.receive, listens]
      have none : w.heard i (.listen i) = [] := by simp [Cluster.heard, h, first, FeedItem.message?]
      show Overflowed s.listen.node.broker id policy _ (taken ++ [])
      rw [spilled, none, List.append_nil, List.append_nil]
      exact r.overflowAll_mem buffer holds.mem_everywhere
  | _ => exact told.elim

/-- Any other move keeps account of the messages of the topic. -/
theorem owed_act {p : BusMessage → Bool} (h : w[k]? = some s) (silent : ¬ Tells k topic s move)
    (up : move ≠ .shutdown k) (onTopic : ∀ m, p m = true → m.topic = topic)
    (o : w.Owed p k asked heard lost) :
    (w.act move).Owed p k (asked ++ w.asked move) (heard ++ w.heard k move)
      (lost ++ w.lost k move) := by
  cases move with
  | subscribe i topic filter policy =>
    simp only [Cluster.asked, Cluster.heard, Cluster.lost, List.append_nil]
    exact o.onBroker _
  | unsubscribe i j =>
    simp only [Cluster.asked, Cluster.heard, Cluster.lost, List.append_nil]
    exact o.onBroker _
  | publish i m =>
    rw [show w.heard k (.publish i m) = [] from rfl, List.append_nil]
    refine o.publish i m fun s' own at' running full => ?_
    subst own
    obtain rfl : s = s' := Option.some.inj (h.symm.trans at')
    cases counted : p m with
    | false => rfl
    | true => exact absurd ⟨rfl, onTopic m counted, running, full⟩ silent
  | receive i j =>
    simp only [Cluster.asked, Cluster.heard, Cluster.lost, List.append_nil]
    exact o.onBroker _
  | shutdown i =>
    simpa [Cluster.asked, Cluster.heard] using o.shutdown fun own => up (own ▸ rfl)
  | take i => simpa [Cluster.asked, Cluster.heard, Cluster.lost] using o.take i
  | answer i handling => simpa [Cluster.asked, Cluster.heard] using o.answer i handling h
  | hear i kept item =>
    simpa [Cluster.asked, Cluster.heard, Cluster.lost] using o.hear i kept item
  | listen i =>
    simpa [Cluster.asked, Cluster.lost] using
      o.listen i h fun own listens feed first => silent ⟨own, listens, feed, first⟩

/-! ## Runs -/

/-- A registration that is open, with account kept of the messages of its topic, or that has
overflowed. -/
def Tracked (k id : Nat) (topic : String) (filter : EventFilter) (policy : DeliveryPolicy)
    (w : Cluster) (asked heard lost : List BusMessage) (taken : List Received) : Prop :=
  ∃ s, w[k]? = some s ∧ Consistent s.node.broker ∧
    (Opened s.node.broker id topic filter policy (offered topic filter heard) taken ∧
        (∀ p : BusMessage → Bool, (∀ m, p m = true → m.topic = topic) →
          w.Owed p k asked heard lost) ∨
      Overflowed s.node.broker id policy (offered topic filter heard) taken)

theorem tracked_act (buffer : policy.mode = .buffer)
    (t : Tracked k id topic filter policy w asked heard lost taken) (move : Move)
    (kept : move ≠ .unsubscribe k id) (up : move ≠ .shutdown k) :
    Tracked k id topic filter policy (w.act move) (asked ++ w.asked move)
      (heard ++ w.heard k move) (lost ++ w.lost k move)
      (taken ++ (w.found k id move).filter (·.isItem)) := by
  obtain ⟨s, h, consistent, ⟨opened, owed⟩ | spilled⟩ := t
  · by_cases told : Tells k topic s move
    · obtain ⟨s', at', spilled⟩ := overflowed_act h told buffer opened
      obtain ⟨s'', at'', consistent⟩ := consistent_act h consistent move
      obtain rfl : s' = s'' := Option.some.inj (at'.symm.trans at'')
      exact ⟨s', at', consistent, .inr spilled⟩
    · obtain ⟨s', at', change⟩ := change_act h id move kept up
      refine ⟨s', at', change.consistent consistent, ?_⟩
      have owed' := fun p onTopic => owed_act h told up onTopic (owed p onTopic)
      rcases change.opened consistent buffer opened with opened | spilled
      · exact .inl ⟨opened, owed'⟩
      · exact .inr spilled
  · obtain ⟨s', at', change⟩ := change_act h id move kept up
    exact ⟨s', at', change.consistent consistent, .inr (change.overflowed consistent spilled)⟩

theorem tracked_run (buffer : policy.mode = .buffer) (moves : List Move)
    (kept : .unsubscribe k id ∉ moves) (up : .shutdown k ∉ moves) {w : Cluster}
    {asked heard lost : List BusMessage} {taken : List Received}
    (t : Tracked k id topic filter policy w asked heard lost taken) :
    Tracked k id topic filter policy (w.run moves) (asked ++ gather Cluster.asked w moves)
      (heard ++ gather (Cluster.heard k) w moves) (lost ++ gather (Cluster.lost k) w moves)
      (taken ++ (gather (Cluster.found k id) w moves).filter (·.isItem)) := by
  induction moves generalizing w asked heard lost taken with
  | nil => simpa [gather, run] using t
  | cons move moves ih =>
    have next := tracked_act buffer t move
      (fun e => kept (e ▸ List.mem_cons_self)) fun e => up (e ▸ List.mem_cons_self)
    have rest := ih (fun m => kept (List.mem_cons_of_mem _ m))
      (fun m => up (List.mem_cons_of_mem _ m)) next
    simpa only [run, List.foldl_cons, gather, List.filter_append, List.append_assoc] using rest

/-- The sink of a registration of station `k`. -/
def sinkOf (k id : Nat) (w : Cluster) : Option Sink := w[k]?.bind fun s => s.node.broker.sinks[id]?

/-- What the receiver of a registration is given in a run, and then if nothing more is pushed. -/
def stream (k id : Nat) (w : Cluster) (moves : List Move) : List Received :=
  (gather (found k id) w moves).filter (·.isItem) ++
    ((sinkOf k id (w.run moves)).map Sink.rest).getD []

theorem countP_offered (q : Json → Bool) (ms : List BusMessage) :
    (offered topic filter ms).countP q =
      ms.countP fun m => decide (m.topic = topic) && filter m.payload && q m.payload := by
  induction ms with
  | nil => rfl
  | cons m ms ih =>
    have first : offered topic filter (m :: ms) =
        picked topic filter m.topic m.payload ++ offered topic filter ms := rfl
    rw [first, List.countP_append, ih, List.countP_cons, picked, Nat.add_comm]
    congr 1
    by_cases same : m.topic = topic <;> cases accepted : filter m.payload <;>
      cases counted : q m.payload <;> simp [same, counted]

/-- Where no more messages are on their way, each is heard or lost. -/
theorem subperm_of_idle (idle : w.Idle) (h : w[k]? = some s) {asked heard lost : List BusMessage}
    (owed : ∀ p : BusMessage → Bool, (∀ m, p m = true → m.topic = topic) →
      w.Owed p k asked heard lost) :
    (offered topic filter asked).Subperm
      (offered topic filter heard ++ offered topic filter lost) := by
  classical
  rw [List.subperm_ext_iff]
  intro e _
  have onTopic : ∀ m : BusMessage,
      (decide (m.topic = topic) && filter m.payload && (m.payload == e)) = true →
      m.topic = topic := by
    intro m counted
    simp only [Bool.and_eq_true, decide_eq_true_eq] at counted
    exact counted.1.1
  have nothing : live k w = [] := by
    rw [live_eq h]
    exact Node.live_nil_of_items (idle s (List.mem_of_getElem? h)).2.2
  have still (p : BusMessage → Bool) : transit p w = 0 := by
    have none : w.flatMap Station.pending = [] := by
      rw [List.flatMap_eq_nil_iff]
      intro s mem
      rw [Station.pending, (idle s mem).1, (idle s mem).2.1]
      rfl
    rw [transit, none, List.countP_nil]
  rcases owed _ onTopic with loss | le
  · rw [nothing] at loss
    cases loss
  · rw [nothing, still] at le
    simp only [List.count_eq_countP, List.countP_append, countP_offered]
    exact le

/-- The stream of a registration ends with the report of an overflow, behind the first of the events
that its station heard for it; or it is open and holds every event that any station was asked to
publish for it since, as often as it was asked for, but for the `missing` ones. -/
def Accounted (k id : Nat) (topic : String) (filter : EventFilter) (policy : DeliveryPolicy)
    (w : Cluster) (moves : List Move) (missing : List BusMessage) : Prop :=
  ∃ sink, sinkOf k id (w.run moves) = some sink ∧
    (sink.status ≠ .active ∧
        (∃ events, events <+: offered topic filter (gather (Cluster.heard k) w moves) ∧
          stream k id w moves = events.map .event ++ [.overflow policy.capacity]) ∨
      sink.status = .active ∧
        ∃ events, stream k id w moves = events.map .event ∧
          (offered topic filter (gather Cluster.asked w moves)).Subperm
            (events ++ offered topic filter missing))

/-- A registration that buffers its events is accounted for once nothing is on its way any more,
unless it was released or its station shut down: while it is open, only events that are lost without
notice are missing from its stream. -/
theorem stream_accounted (capacities : List Nat) (before after : List Move) (k id : Nat)
    (topic : String) (filter : EventFilter) (policy : DeliveryPolicy) (s : Station)
    (b : InProcessBroker) (station : (run (new capacities) before)[k]? = some s)
    (registered : s.node.broker.subscribe topic filter policy = .ok (b, id))
    (buffer : policy.mode = .buffer)
    (idle : (run (new capacities) (before ++ .subscribe k topic filter policy :: after)).Idle) :
    let w := (run (new capacities) before).act (.subscribe k topic filter policy)
    .unsubscribe k id ∈ after ∨ .shutdown k ∈ after ∨
      Accounted k id topic filter policy w after (gather (Cluster.lost k) w after) := by
  intro w
  by_cases kept : .unsubscribe k id ∈ after
  · exact .inl kept
  by_cases up : .shutdown k ∈ after
  · exact .inr (.inl up)
  right; right
  have first : Tracked k id topic filter policy w [] [] [] [] := by
    have consistent := consistent_run_new capacities before station
    have at' : w[k]? = some (s.subscribe topic filter policy) := by
      rw [show w = List.modify _ k _ from rfl, List.getElem?_modify_eq, station]
      rfl
    have broker : (s.subscribe topic filter policy).node.broker = b := by
      simp [Station.subscribe, Station.onBroker, Station.onNode, registered]
    refine ⟨_, at', ?_, .inl ⟨?_, fun p _ => .inr (Nat.zero_le _)⟩⟩
    · rw [broker]
      exact consistent_subscribe consistent registered
    · rw [broker]
      exact opened_subscribe consistent registered
  have split : run (new capacities) (before ++ .subscribe k topic filter policy :: after) =
      w.run after := run_append _ _ _
  rw [split] at idle
  obtain ⟨s', at', -, last⟩ := tracked_run buffer after kept up first
  simp only [List.nil_append] at last
  have sinkAt : ∀ sink, s'.node.broker.sinks[id]? = some sink →
      sinkOf k id (w.run after) = some sink := by
    intro sink found
    rw [sinkOf, at']
    exact found
  rcases last with ⟨⟨sink, holds, active, -, taken⟩, owed⟩ | spilled
  · have found := sinkAt sink holds.kept
    refine ⟨sink, found, .inr ⟨active, _, ?_, subperm_of_idle idle at' owed⟩⟩
    rw [stream, found]
    exact taken
  · obtain ⟨sink, released, ended, events, before, taken⟩ := spilled.left
    have found := sinkAt sink released.kept
    refine ⟨sink, found, .inl ⟨ended, events, before, ?_⟩⟩
    rw [stream, found]
    exact taken

/-! ## A loss that only its own station is told of -/

/-- Two events in a row on a station whose outbound queue has room for one. -/
def burst : List Move :=
  [.publish 0 ⟨"t", .null⟩, .publish 0 ⟨"t", .bool true⟩, .take 0,
    .answer 0 fun _ => ⟨16, .deliver⟩, .listen 0, .listen 1]

/-- The broker of the other station, with one subscriber. -/
def burstBroker : InProcessBroker :=
  ⟨[("t", [⟨0, fun _ => true⟩])], [(0, "t")], [.new ⟨.buffer, 4⟩], false⟩

theorem idle_burst :
    (run (new [1, 1]) ([] ++ .subscribe 1 "t" (fun _ => true) ⟨.buffer, 4⟩ :: burst)).Idle := by
  rintro s (_ | ⟨_, _ | ⟨_, mem⟩⟩)
  · exact ⟨rfl, rfl, fun _ => rfl⟩
  · exact ⟨rfl, rfl, fun _ => rfl⟩
  · cases mem

/-- The second event is lost, and the first is all that the subscriber is given. -/
theorem stream_accounted_burst :
    let w := (run (new [1, 1]) []).act (.subscribe 1 "t" (fun _ => true) ⟨.buffer, 4⟩)
    (run (new [1, 1]) [])[1]? = some (.new 1) ∧
      (Station.new 1).node.broker.subscribe "t" (fun _ => true) ⟨.buffer, 4⟩ =
        .ok (burstBroker, 0) ∧
      (run (new [1, 1]) ([] ++ .subscribe 1 "t" (fun _ => true) ⟨.buffer, 4⟩ :: burst)).Idle ∧
      stream 1 0 w burst = [.event .null] ∧
      gather (Cluster.lost 1) w burst = [⟨"t", .bool true⟩] ∧
      (.unsubscribe 1 0 ∈ burst ∨ .shutdown 1 ∈ burst ∨
        Accounted 1 0 "t" (fun _ => true) ⟨.buffer, 4⟩ w burst (gather (Cluster.lost 1) w burst)) :=
  ⟨rfl, rfl, idle_burst, rfl, rfl,
    stream_accounted [1, 1] [] burst 1 0 "t" (fun _ => true) ⟨.buffer, 4⟩ (.new 1) burstBroker rfl
      rfl rfl idle_burst⟩

/-- No station is shut down and nothing is released, and yet a subscriber misses an event while its
stream stays open. -/
theorem not_always_accounted :
    ¬ ∀ (capacities : List Nat) (before after : List Move) (k id : Nat) (topic : String)
      (filter : EventFilter) (policy : DeliveryPolicy) (s : Station) (b : InProcessBroker),
      (run (new capacities) before)[k]? = some s →
      s.node.broker.subscribe topic filter policy = .ok (b, id) →
      policy.mode = .buffer →
      (run (new capacities) (before ++ .subscribe k topic filter policy :: after)).Idle →
      .unsubscribe k id ∈ after ∨ (∃ j, .shutdown j ∈ before ++ after) ∨
        Accounted k id topic filter policy
          ((run (new capacities) before).act (.subscribe k topic filter policy)) after [] := by
  intro always
  have claimed := always [1, 1] [] burst 1 0 "t" (fun _ => true) ⟨.buffer, 4⟩ (.new 1) burstBroker
    rfl rfl rfl idle_burst
  rcases claimed with released | ⟨j, down⟩ | ⟨sink, at', ⟨ended, -⟩ | ⟨-, events, given, all⟩⟩
  · simp [burst] at released
  · simp [burst] at down
  · obtain rfl : sink = ⟨⟨.buffer, 4⟩, [.null], .active⟩ := Option.some.inj (at'.symm.trans rfl)
    exact ended rfl
  · have one : [Received.event .null] = events.map .event := given
    have two : 2 ≤ (events ++ []).length := all.length_le
    have length := congrArg List.length one
    rw [List.length_singleton, List.length_map] at length
    rw [List.append_nil] at two
    omega

end Cluster

end GraphQLEngine
