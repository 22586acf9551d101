import GraphQLEngine.Proofs.Brokers.Moves

/-!
# Sessions are runs

What a network does in one go, when it forwards all that waits or lets every node read its feed, is
a run of moves, and so is all that the calls of a session do.  After the background work the network
is idle.

    stations (settle w) = run (stations w) moves
    Queued w  →  Idle (stations (settle w))
-/

namespace GraphQLEngine

/-- A node whose forwarder has nothing in hand. -/
def Station.resting (n : Node) : Station := ⟨n, none⟩

namespace Network

def stations (w : Network) : Cluster := w.nodes.map Station.resting

/-- How the bus of a network treats a message, for every listener. -/
def handling (w : Network) (m : BusMessage) : Nat → Handling :=
  fun _ => ⟨w.bus.capacity, w.bus.transmit m⟩

variable {w : Network} {i : Nat} {n : Node} {m : BusMessage}

theorem stations_modifyNode (w : Network) (i : Nat) (f : Node → Node) :
    stations (w.modifyNode i f) = (stations w).modify i (·.onNode f) := by
  apply List.ext_getElem?
  intro j
  simp only [stations, modifyNode, List.getElem?_map, List.getElem?_modify]
  cases w.nodes[j]? with
  | none => rfl
  | some n => by_cases same : i = j <;> simp [same, Station.resting, Station.onNode]

theorem nodes_publish (w : Network) (i : Nat) (m : BusMessage) :
    (w.publish i m).nodes = (w.modifyNode i (·.publish m)).nodes := by
  simp only [publish]
  split
  · rfl
  · split <;> rfl

theorem bus_publish (w : Network) (i : Nat) (m : BusMessage) : (w.publish i m).bus = w.bus := by
  simp only [publish]
  split
  · rfl
  · split <;> rfl

theorem stations_publish (w : Network) (i : Nat) (m : BusMessage) :
    stations (w.publish i m) = (stations w).act (.publish i m) := by
  rw [stations, nodes_publish]
  exact stations_modifyNode w i _

theorem stations_shutdown (w : Network) (i : Nat) :
    stations (w.shutdown i) = (stations w).act (.shutdown i) := by
  apply List.ext_getElem?
  intro j
  show ((w.nodes.modify i Node.shutdown).map Station.resting)[j]? = (w.stations.modify i _)[j]?
  simp only [stations, List.getElem?_map, List.getElem?_modify]
  cases w.nodes[j]? with
  | none => rfl
  | some n => by_cases same : i = j <;> simp [same, Station.resting, Station.shutdown]

/-- What a node has left to do when its forwarder has taken the first event. -/
def leave (rest : List BusMessage) (n : Node) : Node := { n with outbound := rest }

theorem nodes_send (w : Network) (m : BusMessage) :
    (w.send m).nodes = w.nodes.map fun n =>
      match (w.bus.transmit m).item? m with
      | none => n
      | some item => n.hear w.bus.capacity item := by
  unfold send
  cases (w.bus.transmit m).item? m with
  | none => exact (List.map_id _).symm
  | some item => rfl

theorem carry_resting (m : BusMessage) (h : Handling) (n : Node) :
    (Station.resting n).carry m h =
      .resting (match h.how.item? m with | none => n | some item => n.hear h.kept item) := by
  unfold Station.carry
  cases h.how.item? m <;> rfl

/-- The first event goes to the bus in two moves. -/
theorem stations_send {rest : List BusMessage} (h : w.nodes[i]? = some n)
    (first : n.outbound = m :: rest) :
    stations ((w.modifyNode i (leave rest)).send m) =
      ((stations w).act (.take i)).act (.answer i (w.handling m)) := by
  have hand : ((stations w).act (.take i)).inHand i = some m := by
    simp [Cluster.inHand, Cluster.act, stations, h, Station.resting, Station.take, first]
  have cleared : ((stations w).act (.take i)).modify i ({ · with sending := none }) =
      stations (w.modifyNode i (leave rest)) := by
    apply List.ext_getElem?
    intro j
    simp only [Cluster.act, stations, modifyNode, List.getElem?_modify, List.getElem?_map]
    by_cases own : i = j
    · subst own
      simp [h, Station.resting, Station.take, first, leave]
    · cases w.nodes[j]? <;> simp [own]
  rw [Cluster.act_answer hand, cleared]
  apply List.ext_getElem?
  intro j
  rw [stations, nodes_send, Cluster.carry, stations, List.getElem?_map, List.getElem?_map,
    List.getElem?_mapIdx, List.getElem?_map]
  cases (w.modifyNode i (leave rest)).nodes[j]? with
  | none => rfl
  | some n => exact congrArg some (carry_resting m (w.handling m j) n).symm

theorem modifyNode_send (w : Network) (i : Nat) (rest : List BusMessage) (m : BusMessage) :
    (w.modifyNode i (leave [])).send m =
      ((w.modifyNode i (leave rest)).send m).modifyNode i (leave []) := by
  unfold send
  show (match (w.bus.transmit m).item? m with | none => _ | some item => _) =
    modifyNode (match (w.bus.transmit m).item? m with | none => _ | some item => _) i _
  cases (w.bus.transmit m).item? m with
  | none =>
    have same := List.modify_modify_eq (leave rest) (leave []) i w.nodes
    exact congrArg (Network.mk w.bus · w.waiting) same.symm
  | some item =>
    refine congrArg (Network.mk w.bus · w.waiting) (List.ext_getElem? fun j => ?_)
    simp only [modifyNode, List.getElem?_modify, List.getElem?_map]
    cases w.nodes[j]? with
    | none => rfl
    | some n => by_cases own : i = j <;> simp [own, leave, Node.hear]

/-- All that waits on a node goes to the bus, event by event. -/
theorem stations_sendAll (ms : List BusMessage) (h : w.nodes[i]? = some n)
    (waits : n.outbound = ms) :
    stations (ms.foldl send (w.modifyNode i (leave []))) =
      (stations w).run (ms.flatMap fun m => [.take i, .answer i (w.handling m)]) := by
  induction ms generalizing w n with
  | nil =>
    show stations (w.modifyNode i (leave [])) = stations w
    refine (stations_modifyNode w i _).trans (List.ext_getElem? fun j => ?_)
    simp only [stations, List.getElem?_modify, List.getElem?_map]
    by_cases own : i = j
    · subst own
      simp [h, Station.resting, Station.onNode, leave, ← waits]
    · simp [own]
  | cons m rest ih =>
    have next : ∃ n', ((w.modifyNode i (leave rest)).send m).nodes[i]? = some n' ∧
        n'.outbound = rest := by
      rw [nodes_send, List.getElem?_map, modifyNode, List.getElem?_modify_eq, h]
      refine ⟨_, rfl, ?_⟩
      split <;> rfl
    obtain ⟨n', at', waits'⟩ := next
    have sameBus : ((w.modifyNode i (leave rest)).send m).handling = w.handling := by
      unfold handling send
      split <;> rfl
    rw [List.foldl_cons, modifyNode_send w i rest m, ih at' waits', stations_send h waits, sameBus]
    rfl

end Network

namespace Node

def withFeed (feed : Feed) (n : Node) : Node := { n with feed }

/-- A listener does not look back at its feed when it acts on an item. -/
theorem receive_withFeed (n : Node) (feed : Feed) (item : FeedItem) :
    (n.withFeed feed).receive item = (n.receive item).withFeed feed := by
  obtain ⟨broker, capacity, outbound, _, listening, running⟩ := n
  cases listening with
  | false => rfl
  | true => cases item <;> rfl

end Node

namespace Cluster

/-- A cluster comes to be another one by some moves. -/
def Reaches (w w' : Cluster) : Prop := ∃ moves, w' = w.run moves

/-- A cluster comes to be another one by some background moves. -/
def Works (bus : Bus) (w w' : Cluster) : Prop :=
  ∃ moves : List Move, (∀ m ∈ moves, m.Background bus) ∧ w' = w.run moves

variable {w w' w'' : Cluster} {bus : Bus} {j : Nat}

theorem Reaches.refl (w : Cluster) : Reaches w w := ⟨[], rfl⟩

theorem Reaches.trans (r : Reaches w w') (r' : Reaches w' w'') : Reaches w w'' := by
  obtain ⟨ms, rfl⟩ := r
  obtain ⟨ns, rfl⟩ := r'
  exact ⟨ms ++ ns, (run_append w ms ns).symm⟩

theorem Reaches.move (w : Cluster) (move : Move) : Reaches w (w.act move) := ⟨[move], rfl⟩

theorem Works.refl (w : Cluster) : Works bus w w := ⟨[], by simp, rfl⟩

theorem Works.trans (r : Works bus w w') (r' : Works bus w' w'') : Works bus w w'' := by
  obtain ⟨ms, all, rfl⟩ := r
  obtain ⟨ns, all', rfl⟩ := r'
  refine ⟨ms ++ ns, fun m mem => ?_, (run_append w ms ns).symm⟩
  exact (List.mem_append.mp mem).elim (all m) (all' m)

theorem Works.reaches (r : Works bus w w') : Reaches w w' := by
  obtain ⟨ms, -, rfl⟩ := r
  exact ⟨ms, rfl⟩

theorem works_listen (w : Cluster) (j : Nat) : Works bus w (w.act (.listen j)) :=
  ⟨[.listen j], by simp [Move.Background], rfl⟩

/-- A station that reads all of its feed. -/
def drained (s : Station) : Station := s.onNode Node.listen

theorem modify_congr {s : Station} (h : w[j]? = some s) {f g : Station → Station}
    (same : f s = g s) : w.modify j f = w.modify j g := by
  apply List.ext_getElem?
  intro i
  rw [List.getElem?_modify, List.getElem?_modify]
  by_cases own : j = i
  · subst own
    simp [h, same]
  · simp [own]

theorem listen_next {s : Station} {item : FeedItem} {feed : Feed}
    (first : s.node.feed.next? = some (item, feed)) :
    s.listen = s.onNode fun n => (n.receive item).withFeed feed := by
  unfold Station.listen
  rw [first]
  exact congrArg (Station.mk · s.sending) (Node.receive_withFeed s.node feed item)

theorem drained_listen {s : Station} {item : FeedItem} {feed : Feed}
    (first : s.node.feed.next? = some (item, feed)) : drained s.listen = drained s := by
  rw [listen_next first]
  refine congrArg (Station.mk · s.sending) ?_
  show feed.items.foldl Node.receive (((s.node.receive item).withFeed feed).withFeed .empty) =
    s.node.feed.items.foldl Node.receive (s.node.withFeed .empty)
  rw [Feed.items_next? first, List.foldl_cons, Node.receive_withFeed]
  rfl

/-- A listener reads its feed item by item. -/
theorem works_drained (items : List FeedItem) {w : Cluster} {s : Station} (h : w[j]? = some s)
    (length : s.node.feed.items = items) : Works bus w (w.modify j drained) := by
  induction items generalizing w s with
  | nil =>
    have still : drained s = s := by
      obtain ⟨⟨broker, capacity, outbound, ⟨behind, backlog⟩, listening, running⟩, sending⟩ := s
      cases behind with
      | true => cases length
      | false =>
        obtain rfl : backlog = [] := length
        rfl
    rw [modify_congr h (f := drained) (g := id) still, List.modify_id]
    exact .refl w
  | cons item rest ih =>
    cases first : s.node.feed.next? with
    | none =>
      rw [Feed.items_of_next?_none first] at length
      cases length
    | some entry =>
      obtain ⟨item', feed⟩ := entry
      have at' : (w.act (.listen j))[j]? = some s.listen := by
        rw [act, List.getElem?_modify_eq, h]
        rfl
      have shorter : s.listen.node.feed.items = rest := by
        have items := Feed.items_next? first
        rw [length] at items
        rw [listen_next first]
        exact (List.cons.inj items).2.symm
      have rest := ih at' shorter
      rw [act, List.modify_modify_eq, modify_congr h (f := drained ∘ Station.listen) (g := drained)
        (drained_listen first)] at rest
      exact (works_listen w j).trans rest

theorem works_map_drained (w : Cluster) : Works bus w (w.map drained) := by
  have upTo : ∀ j ≤ w.length, Works bus w (w.mapIdx fun i s => if i < j then drained s else s) := by
    intro j
    induction j with
    | zero =>
      intro _
      have same : (w.mapIdx fun i s => if i < 0 then drained s else s) = w := by
        apply List.ext_getElem?
        intro i
        rw [List.getElem?_mapIdx]
        cases w[i]? <;> simp
      rw [same]
      exact .refl w
    | succ j ih =>
      intro below
      have before := ih (by omega)
      have at' : (w.mapIdx fun i s => if i < j then drained s else s)[j]? = some w[j] := by
        rw [List.getElem?_mapIdx, List.getElem?_eq_getElem (by omega)]
        simp
      have next : Works bus _ _ := works_drained _ at' rfl
      have same : (w.mapIdx fun i s => if i < j then drained s else s).modify j drained =
          w.mapIdx fun i s => if i < j + 1 then drained s else s := by
        apply List.ext_getElem?
        intro i
        rw [List.getElem?_modify, List.getElem?_mapIdx, List.getElem?_mapIdx]
        cases w[i]? with
        | none => simp
        | some s =>
          by_cases own : j = i
          · simp [own]
          · have : i < j ↔ i < j + 1 := by omega
            simp [own, this]
      rw [same] at next
      exact before.trans next
  have all := upTo w.length (Nat.le_refl _)
  have same : (w.mapIdx fun i s => if i < w.length then drained s else s) = w.map drained := by
    apply List.ext_getElem?
    intro i
    rw [List.getElem?_mapIdx, List.getElem?_map]
    cases h : w[i]? with
    | none => rfl
    | some s => simp [(List.getElem?_eq_some_iff.mp h).1]
  rwa [same] at all

end Cluster

namespace Network

variable {w : Network}

theorem bus_send (w : Network) (m : BusMessage) : (w.send m).bus = w.bus := by
  unfold send
  split <;> rfl

theorem bus_forward (w : Network) (i : Nat) : (w.forward i).bus = w.bus := by
  unfold forward
  split
  · rfl
  · refine List.foldlRecOn _ send (motive := fun w' => w'.bus = w.bus) ?_
      fun w' same m _ => (w'.bus_send m).trans same
    rfl

theorem works_forward (w : Network) (i : Nat) :
    (stations w).Works w.bus (stations (w.forward i)) := by
  unfold forward
  split
  · exact .refl _
  · next n h =>
    refine ⟨_, fun move mem => ?_, stations_sendAll _ h rfl⟩
    obtain ⟨m, -, mem⟩ := List.mem_flatMap.mp mem
    obtain rfl | rfl : move = .take i ∨ move = .answer i (w.handling m) := by simpa using mem
    · trivial
    · exact ⟨m, rfl⟩

theorem works_forwardAll (is : List Nat) (w : Network) :
    (stations w).Works w.bus (stations (is.foldl forward w)) := by
  induction is generalizing w with
  | nil => exact .refl _
  | cons i is ih =>
    have rest := ih (w.forward i)
    rw [bus_forward] at rest
    exact (works_forward w i).trans rest

theorem works_listen (w : Network) (bus : Bus) :
    (stations w).Works bus (stations { w with nodes := w.nodes.map Node.listen }) := by
  have listened : (stations w).Works bus _ := Cluster.works_map_drained (stations w)
  have same : (stations w).map Cluster.drained =
      stations { w with nodes := w.nodes.map Node.listen } := by
    rw [stations, stations, List.map_map, List.map_map]
    rfl
  rwa [same] at listened

theorem bus_settle (w : Network) : w.settle.bus = w.bus := by
  refine List.foldlRecOn w.waiting forward (motive := fun w' => w'.bus = w.bus) ?_
    fun w' same i _ => (w'.bus_forward i).trans same
  rfl

/-- The background work of a network is a run of the moves of its tasks. -/
theorem works_settle (w : Network) : (stations w).Works w.bus (stations w.settle) :=
  (works_forwardAll w.waiting { w with waiting := [] }).trans (works_listen _ w.bus)

/-! ## The background work leaves nothing -/

/-- Nothing waits on a node. -/
def Vacant (i : Nat) (w : Network) : Prop := ∀ n, w.nodes[i]? = some n → n.outbound = []

/-- The nodes on which something waits are known. -/
def Queued (w : Network) : Prop := ∀ i, i ∉ w.waiting → Vacant i w

variable {i j : Nat}

theorem vacant_modifyNode {f : Node → Node} (v : Vacant i w)
    (same : ∀ n : Node, n.outbound = [] → (f n).outbound = []) : Vacant i (w.modifyNode j f) := by
  intro n found
  rw [modifyNode, List.getElem?_modify] at found
  cases at' : w.nodes[i]? with
  | none => simp [at'] at found
  | some n' =>
    rw [at'] at found
    obtain rfl := Option.some.inj found
    show (if j = i then f n' else n').outbound = []
    split
    · exact same n' (v n' at')
    · exact v n' at'

theorem vacant_send (v : Vacant i w) (m : BusMessage) : Vacant i (w.send m) := by
  intro n found
  rw [nodes_send, List.getElem?_map, Option.map_eq_some_iff] at found
  obtain ⟨n', at', rfl⟩ := found
  split
  · exact v n' at'
  · exact v n' at'

theorem vacant_sendAll (ms : List BusMessage) (v : Vacant i w) : Vacant i (ms.foldl send w) :=
  List.foldlRecOn ms send v fun _ v m _ => vacant_send v m

theorem vacant_forward (v : Vacant i w) (j : Nat) : Vacant i (w.forward j) := by
  unfold forward
  split
  · exact v
  · exact vacant_sendAll _ (vacant_modifyNode v fun _ _ => rfl)

theorem vacant_forward_self (w : Network) (i : Nat) : Vacant i (w.forward i) := by
  unfold forward
  split
  · next none =>
    intro n found
    rw [none] at found
    cases found
  · refine vacant_sendAll _ fun n found => ?_
    rw [modifyNode, List.getElem?_modify_eq] at found
    obtain ⟨n', -, rfl⟩ := Option.map_eq_some_iff.mp found
    rfl

theorem vacant_forwardAll (is : List Nat) {w : Network} (v : i ∉ is → Vacant i w) :
    Vacant i (is.foldl forward w) := by
  induction is generalizing w with
  | nil => exact v List.not_mem_nil
  | cons j is ih =>
    refine ih fun out => ?_
    by_cases own : i = j
    · subst own
      exact vacant_forward_self w i
    · exact vacant_forward (v fun mem => (List.mem_cons.mp mem).elim own out) j

theorem outbound_listen (n : Node) : n.listen.outbound = n.outbound := by
  refine List.foldlRecOn n.feed.items Node.receive (motive := fun n' => n'.outbound = n.outbound)
    ?_ fun n' same item _ => (n'.outbound_receive item).trans same
  rfl

theorem feed_listen (n : Node) : n.listen.feed = .empty := by
  refine List.foldlRecOn n.feed.items Node.receive (motive := fun n' => n'.feed = .empty)
    ?_ fun n' same item _ => (congrArg Node.feed (n'.receive_withFeed n'.feed item)).trans same
  rfl

theorem vacant_settle (h : Queued w) (i : Nat) : Vacant i w.settle := by
  intro n found
  obtain ⟨n', at', rfl⟩ := Option.map_eq_some_iff.mp ((List.getElem?_map ..).symm.trans found)
  rw [outbound_listen]
  exact vacant_forwardAll (w := { w with waiting := [] }) w.waiting (h i) n' at'

/-- After its background work a network is idle. -/
theorem idle_settle (h : Queued w) : (stations w.settle).Idle := by
  intro s mem
  obtain ⟨n, settled, rfl⟩ := List.mem_map.mp mem
  obtain ⟨i, at'⟩ := List.getElem?_of_mem settled
  refine ⟨vacant_settle h i n at', rfl, fun _ => ?_⟩
  obtain ⟨n', -, rfl⟩ := List.mem_map.mp settled
  show n'.listen.feed.items = []
  rw [feed_listen]
  rfl

/-! ## What callers do -/

theorem queued_new (bus : Bus) (capacities : List Nat) : Queued (.new bus capacities) := by
  intro i _ n found
  obtain ⟨c, -, rfl⟩ := Option.map_eq_some_iff.mp ((List.getElem?_map ..).symm.trans found)
  rfl

theorem queued_settle (h : Queued w) : Queued w.settle := fun i _ => vacant_settle h i

theorem queued_publish (h : Queued w) (i : Nat) (m : BusMessage) : Queued (w.publish i m) := by
  intro j out n found
  rw [nodes_publish] at found
  simp only [publish] at out
  have known : j ∉ w.waiting ∧ (j = i → n.outbound = []) := by
    cases at' : (w.modifyNode i (·.publish m)).nodes[i]? with
    | none =>
      rw [at'] at out
      refine ⟨out, fun own => ?_⟩
      rw [own, at'] at found
      cases found
    | some n' =>
      simp only [at'] at out
      split at out
      · next quiet =>
        refine ⟨out, fun own => ?_⟩
        rw [own, at'] at found
        obtain rfl := Option.some.inj found
        rw [Bool.or_eq_true, List.isEmpty_iff, List.contains_iff_mem] at quiet
        exact quiet.resolve_right fun mem => out (own ▸ mem)
      · have apart := fun mem => out (List.mem_append.mpr mem)
        exact ⟨fun mem => apart (.inl mem),
          fun own => absurd (.inr (List.mem_singleton.mpr own)) apart⟩
  by_cases own : j = i
  · exact known.2 own
  · rw [modifyNode, List.getElem?_modify_ne _ _ fun e => own e.symm] at found
    exact h j known.1 n found

theorem queued_shutdown (h : Queued w) (i : Nat) : Queued (w.shutdown i) := by
  intro j out n found
  have nodes : (w.shutdown i).nodes = w.nodes.modify i Node.shutdown := rfl
  rw [nodes] at found
  by_cases own : i = j
  · subst own
    rw [List.getElem?_modify_eq] at found
    obtain ⟨n', -, rfl⟩ := Option.map_eq_some_iff.mp found
    rfl
  · rw [List.getElem?_modify_ne _ _ own] at found
    refine h j (fun mem => out ?_) n found
    exact List.mem_filter.mpr ⟨mem, by simpa using fun e => own e.symm⟩

theorem queued_onBroker (h : Queued w) (i : Nat) (b : InProcessBroker) :
    Queued (w.modifyNode i fun n => { n with broker := b }) :=
  fun j out => vacant_modifyNode (h j out) fun _ none => none

/-- A hub works on the broker of one node. -/
theorem stations_setBroker (w : Network) (i : Nat) (f : InProcessBroker → InProcessBroker) :
    stations (w.modifyNode i fun n => { n with broker := f ((Hub.network w).broker i) }) =
      (stations w).modify i (·.onBroker f) := by
  cases found : w.nodes[i]? with
  | none =>
    have beyond : w.nodes.length ≤ i := List.getElem?_eq_none_iff.mp found
    have beyond' : (stations w).length ≤ i := by rwa [stations, List.length_map]
    rw [modifyNode, List.modify_eq_self beyond, List.modify_eq_self beyond']
  | some n =>
    have broker : (Hub.network w).broker i = n.broker := by simp only [Hub.broker, found]
    have at' : (stations w)[i]? = some (.resting n) := by
      rw [stations, List.getElem?_map, found]
      rfl
    rw [stations_modifyNode, broker]
    exact Cluster.modify_congr at' rfl

end Network

namespace BrokerSession

/-- The session after some calls, each with whether it is one of a burst. -/
def after (s : BrokerSession) : List (BrokerCall × Bool) → BrokerSession
  | [] => s
  | (call, burst) :: rest =>
    after (if burst then (s.call call).1 else (s.call call).1.settle) rest

/-- The nodes of a session, which have come about by moves, and of which those are known on which
something waits. -/
def Follows (w : Cluster) (s : BrokerSession) : Prop :=
  ∃ net, s.hub = .network net ∧ w.Reaches net.stations ∧ net.Queued

variable {w : Cluster} {s : BrokerSession}

theorem follows_settle (h : Follows w s) : Follows w s.settle := by
  obtain ⟨net, hub, reached, queued⟩ := h
  refine ⟨net.settle, ?_, reached.trans net.works_settle.reaches, Network.queued_settle queued⟩
  rw [settle, hub]
  rfl

/-- A move that works on the broker of one node, as a call of a hub does it. -/
theorem follows_setBroker (h : Follows w s) {i : Nat} (move : Move)
    {f : InProcessBroker → InProcessBroker}
    (acts : ∀ c : Cluster, c.act move = c.modify i (·.onBroker f))
    (labels : OrderedMap LabelledRegistration) :
    Follows w ⟨s.hub.setBroker i (f (s.hub.broker i)), labels⟩ := by
  obtain ⟨net, hub, reached, queued⟩ := h
  refine ⟨_, by rw [hub]; rfl, reached.trans ⟨[move], ?_⟩, Network.queued_onBroker queued i _⟩
  show _ = net.stations.act move
  rw [acts, Network.stations_setBroker]

theorem follows_receive (h : Follows w s) (r : LabelledRegistration) :
    Follows w (s.receive r).1 := by
  have step : ∀ s, Follows w s → Follows w ⟨(s.hub.receive r.node r.id).1, s.labels⟩ :=
    fun s h => follows_setBroker h (.receive r.node r.id) (fun _ => rfl) s.labels
  unfold receive
  split
  · exact step _ (follows_settle h)
  · next hub received _ eq =>
    have next := step s h
    rw [eq] at next
    exact next

theorem follows_call (h : Follows w s) (c : BrokerCall) : Follows w (s.call c).1 := by
  cases c with
  | subscribe i label topic filter policy =>
    have next := fun labels => follows_setBroker h
      (.subscribe i topic filter policy) (fun _ => rfl) labels
    simp only [call, Hub.subscribe]
    cases eq : (s.hub.broker i).subscribe topic filter policy with
    | error e => exact h
    | ok entry =>
      obtain ⟨b, id⟩ := entry
      simp only [eq] at next
      exact next _
  | publish i topic event =>
    obtain ⟨net, hub, reached, queued⟩ := h
    refine ⟨net.publish i ⟨topic, event⟩, ?_, ?_, Network.queued_publish queued i _⟩
    · simp only [call, hub, Hub.publish]
    · rw [Network.stations_publish]
      exact reached.trans (.move _ _)
  | receive label =>
    simp only [call]
    split
    · split
      · exact follows_receive h _
      · exact h
    · exact h
  | unsubscribe label =>
    simp only [call]
    split
    · next r _ =>
      exact follows_setBroker h (.unsubscribe r.node r.id) (fun _ => rfl) s.labels
    · exact h
  | forget label =>
    simp only [call]
    split <;> exact h
  | count i topic => exact h
  | shutdown i =>
    obtain ⟨net, hub, reached, queued⟩ := h
    refine ⟨net.shutdown i, ?_, ?_, Network.queued_shutdown queued i⟩
    · simp only [call, hub, Hub.shutdown]
    · rw [Network.stations_shutdown]
      exact reached.trans (.move _ _)

theorem follows_after (calls : List (BrokerCall × Bool)) {s : BrokerSession} (h : Follows w s) :
    Follows w (s.after calls) := by
  induction calls generalizing s with
  | nil => exact h
  | cons entry calls ih =>
    obtain ⟨c, burst⟩ := entry
    cases burst with
    | true => exact ih (follows_call h c)
    | false => exact ih (follows_settle (follows_call h c))

/-- All that the calls of a session do to the nodes of a network is a run of moves. -/
theorem session_run (bus : Bus) (capacities : List Nat) (calls : List (BrokerCall × Bool)) :
    Follows (.new capacities) ((start (.network (.new bus capacities))).after calls) := by
  refine follows_after calls ⟨_, rfl, ?_, ?_⟩
  · have same : (Network.new bus capacities).stations = .new capacities := List.map_map
    rw [same]
    exact .refl _
  · exact Network.queued_new bus capacities

theorem after_append (xs ys : List (BrokerCall × Bool)) (s : BrokerSession) :
    s.after (xs ++ ys) = (s.after xs).after ys := by
  induction xs generalizing s with
  | nil => rfl
  | cons x xs ih => exact ih _

/-- A call that is not one of a burst leaves the network idle. -/
theorem session_idle (bus : Bus) (capacities : List Nat) (calls : List (BrokerCall × Bool))
    (c : BrokerCall) :
    ∃ net, ((start (.network (.new bus capacities))).after (calls ++ [(c, false)])).hub =
        .network net ∧
      (Cluster.new capacities).Reaches net.stations ∧ net.stations.Idle := by
  obtain ⟨net, hub, reached, queued⟩ := follows_call (session_run bus capacities calls) c
  refine ⟨net.settle, ?_, reached.trans net.works_settle.reaches, Network.idle_settle queued⟩
  rw [after_append]
  show (settle _).hub = _
  rw [settle, hub]
  rfl

end BrokerSession

end GraphQLEngine
