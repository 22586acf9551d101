import GraphQLEngine.Proofs.Brokers.Registrations
import GraphQLEngine.Proofs.Brokers.Sessions
import GraphQLEngine.Proofs.Brokers.Sinks

/-!
# Sinks while their receivers wait

Whatever is done with the brokers of a hub, the sink of a registration makes a run of moves: it is
pushed to, closed or forced to overflow.  Only its own receiver takes from it.

    Turns id sinks sinks'
    Hub.Turns node id h (publish h i topic event)          and so for all that is done with a hub
-/

namespace GraphQLEngine

namespace Sink

/-- A sink comes to be another one while its receiver waits. -/
def Turns (s s' : Sink) : Prop :=
  ∃ moves : List SinkMove, (∀ m ∈ moves, m.isReceive = false) ∧ s' = s.run moves

variable {s s' s'' : Sink}

theorem Turns.refl (s : Sink) : Turns s s := ⟨[], by simp, rfl⟩

theorem Turns.trans (t : Turns s s') (t' : Turns s' s'') : Turns s s'' := by
  obtain ⟨ms, waits, rfl⟩ := t
  obtain ⟨ns, waits', rfl⟩ := t'
  refine ⟨ms ++ ns, fun m mem => ?_, (run_append s ms ns).symm⟩
  exact (List.mem_append.mp mem).elim (waits m) (waits' m)

theorem turns_push (s : Sink) (e : Json) : Turns s (s.push e).1 :=
  ⟨[.push e], by simp [SinkMove.isReceive], rfl⟩

theorem turns_close (s : Sink) : Turns s s.close := ⟨[.close], by simp [SinkMove.isReceive], rfl⟩

theorem turns_overflow (s : Sink) : Turns s s.overflow :=
  ⟨[.overflow], by simp [SinkMove.isReceive], rfl⟩

/-- Nobody opens a sink that is not open. -/
theorem Turns.ended (t : Turns s s') (ended : s.status ≠ .active) : s' = s := by
  obtain ⟨ms, waits, rfl⟩ := t
  induction ms with
  | nil => rfl
  | cons m ms ih =>
    have still : s.act m = s := by
      have kept := waits m List.mem_cons_self
      cases m with
      | push e =>
        show (s.push e).1 = s
        rw [push_ended ended]
      | close => exact close_ended ended
      | overflow => exact overflow_ended ended
      | receive => cases kept
    show (s.act m).run ms = s
    rw [still]
    exact ih fun m' mem => waits m' (List.mem_cons_of_mem _ mem)

end Sink

/-- The sink of a registration while its receiver waits, among the sinks of a broker. -/
def Turns (id : Nat) (sinks sinks' : List Sink) : Prop :=
  ∀ s, sinks[id]? = some s → ∃ s', sinks'[id]? = some s' ∧ s.Turns s'

section

variable {id : Nat} {sinks sinks' sinks'' : List Sink}

theorem Turns.refl (id : Nat) (sinks : List Sink) : Turns id sinks sinks :=
  fun s kept => ⟨s, kept, .refl s⟩

theorem Turns.trans (t : Turns id sinks sinks') (t' : Turns id sinks' sinks'') :
    Turns id sinks sinks'' := by
  intro s kept
  obtain ⟨s', kept', first⟩ := t s kept
  obtain ⟨s'', kept'', second⟩ := t' s' kept'
  exact ⟨s'', kept'', first.trans second⟩

theorem turns_modify {f : Sink → Sink} (turns : ∀ s : Sink, s.Turns (f s)) (id i : Nat)
    (sinks : List Sink) : Turns id sinks (sinks.modify i f) := by
  intro s kept
  rw [List.getElem?_modify, kept]
  refine ⟨_, rfl, ?_⟩
  split
  · exact turns s
  · exact .refl s

end

namespace InProcessBroker

variable {id : Nat} {b b' : InProcessBroker}

theorem turns_unsubscribe (id : Nat) (b : InProcessBroker) (other : Nat) :
    Turns id b.sinks (b.unsubscribe other).sinks := by
  unfold unsubscribe
  split
  · exact .refl id _
  · exact turns_modify Sink.turns_close id other _

theorem turns_unsubscribeAll (ids : List Nat) (b : InProcessBroker) :
    Turns id b.sinks (b.unsubscribeAll ids).sinks := by
  induction ids generalizing b with
  | nil => exact .refl id _
  | cons other ids ih => exact (turns_unsubscribe id b other).trans (ih _)

theorem turns_subscribe {topic : String} {filter : EventFilter} {policy : DeliveryPolicy}
    {new : Nat} (id : Nat) (ok : b.subscribe topic filter policy = .ok (b', new)) :
    Turns id b.sinks b'.sinks := by
  intro s kept
  rw [sinks_subscribe ok, List.getElem?_append_left (List.getElem?_eq_some_iff.mp kept).1]
  exact ⟨s, kept, .refl s⟩

theorem turns_offerAll (event : Json) (subs : List Subscriber) (sinks : List Sink) :
    Turns id sinks (offerAll event sinks subs).1 := by
  induction subs generalizing sinks with
  | nil => exact .refl id _
  | cons s rest ih =>
    have first : Turns id sinks (offer event sinks s).1 := by
      unfold offer
      split
      · next sink _ kept =>
        intro sink' kept'
        by_cases own : s.id = id
        · subst own
          obtain rfl : sink = sink' := Option.some.inj (kept.symm.trans kept')
          have below := (List.getElem?_eq_some_iff.mp kept).1
          exact ⟨_, List.getElem?_set_self below, sink.turns_push event⟩
        · exact ⟨sink', (List.getElem?_set_ne own).trans kept', .refl sink'⟩
      · exact .refl id _
    exact first.trans (ih _)

theorem turns_publish (id : Nat) (b : InProcessBroker) (topic : String) (event : Json) :
    Turns id b.sinks (b.publish topic event).sinks := by
  cases down : b.shutDown with
  | true =>
    rw [publish, if_pos down]
    exact .refl id _
  | false =>
    rw [publish_running down]
    exact (turns_offerAll event _ b.sinks).trans (turns_unsubscribeAll _ { b with sinks := _ })

theorem turns_overflowAll (id : Nat) (b : InProcessBroker) (ids : List Nat) :
    Turns id b.sinks (b.overflowAll ids).sinks := by
  obtain ⟨hit, -, eq⟩ := b.overflowAll_hit ids
  have overflows : Turns id b.sinks
      (hit.foldl (fun sinks i => sinks.modify i Sink.overflow) b.sinks) :=
    List.foldlRecOn hit _ (.refl id b.sinks) fun sinks turns i _ =>
      turns.trans (turns_modify Sink.turns_overflow id i sinks)
  rw [eq]
  exact overflows.trans (turns_unsubscribeAll _ { b with sinks := _ })

theorem turns_shutdown (id : Nat) (b : InProcessBroker) : Turns id b.sinks b.shutdown.sinks :=
  turns_unsubscribeAll _ { b with shutDown := true }

/-- The receivers of others take from other sinks. -/
theorem turns_receive {other : Nat} (b : InProcessBroker) (ne : id ≠ other) :
    Turns id b.sinks (b.receive other).1.sinks := by
  intro s kept
  exact ⟨s, (b.getElem_receive_ne ne).trans kept, .refl s⟩

/-- How a broker and what it becomes are related, whatever is done but to register and to receive. -/
structure Endures (R : InProcessBroker → InProcessBroker → Prop) : Prop where
  refl : ∀ b, R b b
  trans : ∀ {a b c}, R a b → R b c → R a c
  unsubscribe : ∀ b id, R b (b.unsubscribe id)
  publish : ∀ b topic event, R b (b.publish topic event)
  overflowAll : ∀ b ids, R b (b.overflowAll ids)
  shutdown : ∀ b, R b b.shutdown

theorem turns_endures (id : Nat) : Endures fun b b' => Turns id b.sinks b'.sinks where
  refl b := .refl id b.sinks
  trans t t' := t.trans t'
  unsubscribe b := b.turns_unsubscribe id
  publish := turns_publish id
  overflowAll := turns_overflowAll id
  shutdown := turns_shutdown id

end InProcessBroker

namespace Network

/-- To hand events to the bus leaves all brokers alone. -/
theorem brokers_send (w : Network) (m : BusMessage) :
    (w.send m).nodes.map (·.broker) = w.nodes.map (·.broker) := by
  unfold send
  cases (w.bus.transmit m).item? m with
  | none => rfl
  | some item =>
    show (w.nodes.map (·.hear w.bus.capacity item)).map (·.broker) = _
    rw [List.map_map]
    rfl

theorem brokers_forward (w : Network) (i : Nat) :
    (w.forward i).nodes.map (·.broker) = w.nodes.map (·.broker) := by
  have sendAll (ms : List BusMessage) (w : Network) :
      (ms.foldl send w).nodes.map (·.broker) = w.nodes.map (·.broker) :=
    List.foldlRecOn ms send (motive := fun w' => w'.nodes.map (·.broker) = w.nodes.map (·.broker))
      rfl fun w' same m _ => (w'.brokers_send m).trans same
  unfold forward
  split
  · rfl
  · rw [sendAll]
    refine List.ext_getElem? fun k => ?_
    simp only [modifyNode, List.getElem?_map, List.getElem?_modify]
    cases w.nodes[k]? with
    | none => rfl
    | some n =>
      show some (Node.broker (if i = k then { n with outbound := [] } else n)) = some n.broker
      split <;> rfl

theorem brokers_forwardAll (is : List Nat) (w : Network) :
    (is.foldl forward w).nodes.map (·.broker) = w.nodes.map (·.broker) :=
  List.foldlRecOn is forward (motive := fun w' => w'.nodes.map (·.broker) = w.nodes.map (·.broker))
    rfl fun w' same i _ => (w'.brokers_forward i).trans same

end Network

namespace Hub

theorem broker_network (w : Network) (node : Nat) :
    (Hub.network w).broker node = ((w.nodes.map (·.broker))[node]?).getD .new := by
  rw [broker, List.getElem?_map]
  cases w.nodes[node]? <;> rfl

end Hub

/-! ## What a hub makes of its brokers -/

namespace InProcessBroker.Endures

variable {R : InProcessBroker → InProcessBroker → Prop} {h : Hub} {node i : Nat}

theorem node_publish (k : Endures R) (n : Node) (m : BusMessage) :
    R n.broker (n.publish m).broker := by
  unfold Node.publish
  split
  · exact k.refl _
  · split
    · exact k.refl _
    · exact k.overflowAll _ _

theorem node_receive (k : Endures R) (n : Node) (item : FeedItem) :
    R n.broker (n.receive item).broker := by
  unfold Node.receive
  split
  · exact k.refl _
  · cases item with
    | message m => exact k.publish _ _ _
    | loss => exact k.overflowAll _ _
    | finish => exact k.refl _

theorem node_listen (k : Endures R) (n : Node) : R n.broker n.listen.broker := by
  refine List.foldlRecOn n.feed.items Node.receive (motive := fun n' => R n.broker n'.broker)
    ?_ fun n' read item _ => k.trans read (k.node_receive n' item)
  exact k.refl n.broker

theorem hub_modify (k : Endures R) (node : Nat) {w w' : Network} {f : Node → Node}
    (nodes : w'.nodes = w.nodes.modify i f) (each : ∀ n : Node, R n.broker (f n).broker) :
    R ((Hub.network w).broker node) ((Hub.network w').broker node) := by
  unfold Hub.broker
  simp only [nodes, List.getElem?_modify]
  cases w.nodes[node]? with
  | none => exact k.refl _
  | some n =>
    show R n.broker (Node.broker (if i = node then f n else n))
    split
    · exact each n
    · exact k.refl _

/-- What is done with the broker of one node. -/
theorem hub_setBroker (k : Endures R) {b : InProcessBroker} (own : i = node → R (h.broker i) b)
    (single : ∀ b', h = .single b' → R b' b) :
    R (h.broker node) ((h.setBroker i b).broker node) := by
  cases h with
  | single b' => exact single b' rfl
  | network w =>
    unfold Hub.setBroker
    simp only [Hub.broker, Network.modifyNode, List.getElem?_modify]
    cases at' : w.nodes[node]? with
    | none => exact k.refl _
    | some n =>
      show R n.broker (Node.broker (if i = node then { n with broker := b } else n))
      split
      · next same =>
        have related := own same
        rw [same] at related
        simpa only [Hub.broker, at'] using related
      · exact k.refl _

theorem hub_publish (k : Endures R) (node i : Nat) (h : Hub) (topic : String) (event : Json) :
    R (h.broker node) ((h.publish i topic event).broker node) := by
  cases h with
  | single b => exact k.publish b topic event
  | network w => exact k.hub_modify node (w.nodes_publish i _) fun n => k.node_publish n _

theorem hub_unsubscribe (k : Endures R) (node i other : Nat) (h : Hub) :
    R (h.broker node) ((h.unsubscribe i other).broker node) := by
  refine k.hub_setBroker (fun _ => k.unsubscribe _ other) fun b is => ?_
  subst is
  exact k.unsubscribe b other

theorem hub_shutdown (k : Endures R) (node i : Nat) (h : Hub) :
    R (h.broker node) ((h.shutdown i).broker node) := by
  cases h with
  | single b => exact k.shutdown b
  | network w => exact k.hub_modify (f := Node.shutdown) node rfl fun n => k.shutdown n.broker

theorem hub_settle (k : Endures R) (node : Nat) (h : Hub) :
    R (h.broker node) (h.settle.broker node) := by
  cases h with
  | single b => exact k.refl b
  | network w =>
    have listen : ∀ sent : Network, R ((Hub.network sent).broker node)
        ((Hub.network { sent with nodes := sent.nodes.map Node.listen }).broker node) := by
      intro sent
      simp only [Hub.broker, List.getElem?_map]
      cases sent.nodes[node]? with
      | none => exact k.refl _
      | some n => exact k.node_listen n
    have same := Network.brokers_forwardAll w.waiting { w with waiting := [] }
    rw [Hub.broker_network, ← same, ← Hub.broker_network]
    exact listen _

end InProcessBroker.Endures

namespace Hub

/-- The sink of a registration of a node while its receiver waits. -/
def Turns (node id : Nat) (h h' : Hub) : Prop :=
  GraphQLEngine.Turns id (h.broker node).sinks (h'.broker node).sinks

variable {node id i : Nat} {h h' h'' : Hub}

theorem Turns.refl (node id : Nat) (h : Hub) : Turns node id h h := GraphQLEngine.Turns.refl id _

theorem Turns.trans (t : Turns node id h h') (t' : Turns node id h' h'') : Turns node id h h'' :=
  GraphQLEngine.Turns.trans t t'

theorem turns_subscribe {topic : String} {filter : EventFilter} {policy : DeliveryPolicy}
    {new : Nat} (node id : Nat) (ok : h.subscribe i topic filter policy = .ok (h', new)) :
    Turns node id h h' := by
  unfold subscribe at ok
  split at ok
  · cases ok
  · next made =>
    cases ok
    have turns := InProcessBroker.turns_subscribe id made
    refine (InProcessBroker.turns_endures id).hub_setBroker (fun _ => turns) fun b' is => ?_
    subst is
    exact turns

theorem turns_publish (node id i : Nat) (h : Hub) (topic : String) (event : Json) :
    Turns node id h (h.publish i topic event) :=
  (InProcessBroker.turns_endures id).hub_publish node i h topic event

theorem turns_unsubscribe (node id i other : Nat) (h : Hub) :
    Turns node id h (h.unsubscribe i other) :=
  (InProcessBroker.turns_endures id).hub_unsubscribe node i other h

theorem turns_shutdown (node id i : Nat) (h : Hub) : Turns node id h (h.shutdown i) :=
  (InProcessBroker.turns_endures id).hub_shutdown node i h

/-- The receivers of others take from other sinks. -/
theorem turns_receive {other : Nat} (i : Nat) (h : Hub) (ne : id ≠ other) :
    Turns node id h (h.receive i other).1 := by
  refine (InProcessBroker.turns_endures id).hub_setBroker
    (fun _ => InProcessBroker.turns_receive _ ne) fun b is => ?_
  subst is
  exact b.turns_receive ne

/-- The registrations of other nodes have sinks of their own. -/
theorem turns_receive_elsewhere {other : Nat} (w : Network) (ne : i ≠ node) :
    Turns node id (.network w) ((Hub.network w).receive i other).1 :=
  (InProcessBroker.turns_endures id).hub_setBroker (fun same => absurd same ne) nofun

theorem turns_settle (node id : Nat) (h : Hub) : Turns node id h h.settle :=
  (InProcessBroker.turns_endures id).hub_settle node h

end Hub

end GraphQLEngine
