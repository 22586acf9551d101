import GraphQLEngine.Broker.Hub
import GraphQLEngine.Proofs.Brokers.Delivery
import GraphQLEngine.Proofs.Brokers.Maps
import GraphQLEngine.Proofs.Brokers.Sessions

/-!
# Bridged brokers are in-process brokers

While the tasks of a network keep up, the bridge is not seen.  An event that is published on a node
waits for its forwarder, is in the forwarder's hand, and is then unread on the feeds of all nodes;
when nothing is left to do, every broker has been given it.  So each node answers its callers as a
broker of its own would, on which all events of the network are published.

    Spreads bs i m w  →  Idle w  →  Settled (publish m ∘ bs) w
    Plays bus w steps said  →  said of k = replies (bs k) (standIn k steps)
-/

namespace GraphQLEngine

/-! ## Calls of one broker -/

inductive NodeCall where
  | subscribe (topic : String) (filter : EventFilter) (policy : DeliveryPolicy)
  | publish (topic : String) (event : Json)
  | unsubscribe (id : Nat)
  | receive (id : Nat)
  | count (topic : String)
  | shutdown

def NodeCall.stops : NodeCall → Bool
  | .shutdown => true
  | _ => false

inductive NodeAnswer where
  | registered (r : Except BrokerError Nat)
  | received (r : Received)
  | counted (n : Nat)

namespace InProcessBroker

def call (b : InProcessBroker) : NodeCall → InProcessBroker
  | .subscribe topic filter policy =>
    match b.subscribe topic filter policy with
    | .ok (b, _) => b
    | .error _ => b
  | .publish topic event => b.publish topic event
  | .unsubscribe id => b.unsubscribe id
  | .receive id => (b.receive id).1
  | .count _ => b
  | .shutdown => b.shutdown

/-- What the caller is told, if anything. -/
def reply (b : InProcessBroker) : NodeCall → List NodeAnswer
  | .subscribe topic filter policy => [.registered ((b.subscribe topic filter policy).map Prod.snd)]
  | .receive id => [.received (b.receive id).2]
  | .count topic => [.counted (b.count topic)]
  | _ => []

def replies (b : InProcessBroker) : List NodeCall → List NodeAnswer
  | [] => []
  | c :: rest => b.reply c ++ (b.call c).replies rest

variable {b : InProcessBroker}

theorem shutDown_unsubscribeAll (ids : List Nat) (b : InProcessBroker) :
    (b.unsubscribeAll ids).shutDown = b.shutDown := by
  induction ids generalizing b with
  | nil => rfl
  | cons id ids ih => exact (ih _).trans (b.shutDown_unsubscribe id)

theorem publish_down (down : b.shutDown = true) (topic : String) (event : Json) :
    b.publish topic event = b := if_pos down

theorem shutDown_publish (b : InProcessBroker) (topic : String) (event : Json) :
    (b.publish topic event).shutDown = b.shutDown := by
  unfold publish
  split
  · rfl
  · exact shutDown_unsubscribeAll _ _

/-- Only a shutdown shuts a broker down. -/
theorem shutDown_call (b : InProcessBroker) (c : NodeCall) :
    (b.call c).shutDown = (b.shutDown || c.stops) := by
  cases c with
  | subscribe topic filter policy =>
    simp only [call]
    split
    · next made =>
      obtain ⟨up, -, -, rfl⟩ := subscribe_ok made
      simp [NodeCall.stops]
    · simp [NodeCall.stops]
  | publish topic event => simp [call, NodeCall.stops, shutDown_publish]
  | unsubscribe id => simp [call, NodeCall.stops, shutDown_unsubscribe]
  | receive id => simp [call, NodeCall.stops, (b.receive_frame id).2.2]
  | count topic => simp [call, NodeCall.stops]
  | shutdown => simp [call, NodeCall.stops, shutDown_shutdown]

end InProcessBroker

/-! ## Sessions of a network that settles -/

/-- The moves of a caller. -/
def NodeCall.moves (i : Nat) : NodeCall → List Move
  | .subscribe topic filter policy => [.subscribe i topic filter policy]
  | .publish topic event => [.publish i ⟨topic, event⟩]
  | .unsubscribe id => [.unsubscribe i id]
  | .receive id => [.receive i id]
  | .count _ => []
  | .shutdown => [.shutdown i]

/-- Whether a call of node `i` is one for the broker in the place of node `k`: a publish is, unless
node `i` is down, and so are all the calls of its own callers. -/
def NodeCall.concerns (k : Nat) (down : List Nat) (i : Nat) : NodeCall → Bool
  | .publish _ _ => i ∉ down
  | _ => i = k

/-- The calls of all nodes, as those of the broker in the place of node `k`. -/
def standIn (k : Nat) : List Nat → List (Nat × NodeCall) → List NodeCall
  | _, [] => []
  | down, (i, c) :: rest =>
    let later := standIn k (if c.stops then i :: down else down) rest
    if c.concerns k down i then c :: later else later

/-- What the callers of node `k` are told. -/
def toldBy (k : Nat) (said : List (Nat × NodeAnswer)) : List NodeAnswer :=
  said.filterMap fun a => if a.1 = k then some a.2 else none

namespace Cluster

/-- What the caller of a node is told. -/
def reply (w : Cluster) (i : Nat) (c : NodeCall) : List NodeAnswer :=
  match w[i]? with
  | some s => s.node.broker.reply c
  | none => []

/-- Calls with what the callers are told, where the background tasks run until idle after each. -/
inductive Plays (bus : Bus) : Cluster → List (Nat × NodeCall) → List (Nat × NodeAnswer) → Prop
  | done {w : Cluster} : Plays bus w [] []
  | call {w w' : Cluster} {i : Nat} {c : NodeCall} {rest : List (Nat × NodeCall)}
      {said : List (Nat × NodeAnswer)} (works : Works bus (w.run (c.moves i)) w') (idle : w'.Idle)
      (next : Plays bus w' rest said) :
      Plays bus w ((i, c) :: rest) ((w.reply i c).map (i, ·) ++ said)

end Cluster

/-! ## One message on its way -/

/-- What a station holds: its broker, the events that wait, the one in its forwarder's hand, and
what its listener has yet to read. -/
structure Station.Has (b : InProcessBroker) (queue : List BusMessage) (hand : Option BusMessage)
    (unread : List FeedItem) (s : Station) : Prop where
  broker : s.node.broker = b
  outbound : s.node.outbound = queue
  sending : s.sending = hand
  running : s.node.running = !b.shutDown
  listening : s.node.listening = !b.shutDown
  feed : s.node.listening = true → s.node.feed.items = unread
  room : 0 < s.node.outboundCapacity

namespace Station

variable {b : InProcessBroker} {s : Station} {m : BusMessage} {queue : List BusMessage}
  {hand : Option BusMessage}

theorem has_new (capacity : Nat) : (Station.new capacity).Has .new [] none [] where
  broker := rfl
  outbound := rfl
  sending := rfl
  running := rfl
  listening := rfl
  feed := fun _ => rfl
  room := by
    show 0 < max 1 capacity
    omega

theorem Has.withBroker (h : s.Has b [] none []) {b' : InProcessBroker}
    (same : b'.shutDown = b.shutDown) : (s.onBroker fun _ => b').Has b' [] none [] :=
  { h with
    broker := rfl
    running := by rw [same]; exact h.running
    listening := by rw [same]; exact h.listening }

theorem Has.shutdown (h : s.Has b queue hand []) : s.shutdown.Has b.shutdown [] none [] where
  broker := congrArg InProcessBroker.shutdown h.broker
  outbound := rfl
  sending := rfl
  running := by rw [b.shutDown_shutdown]; rfl
  listening := by rw [b.shutDown_shutdown]; rfl
  feed := nofun
  room := h.room

/-- A listener that has nothing to read, or is gone, does nothing. -/
theorem Has.listen (h : s.Has b queue hand []) : s.listen.Has b queue hand [] := by
  cases first : s.node.feed.next? with
  | none =>
    unfold Station.listen
    rwa [first]
  | some entry =>
    obtain ⟨item, feed⟩ := entry
    have gone : s.node.listening = false := by
      by_contra reads
      have items := Feed.items_next? first
      rw [h.feed (by simpa using reads)] at items
      cases items
    have same : s.node.receive item = s.node := by simp [Node.receive, gone]
    rw [Cluster.listen_next first, onNode, same]
    refine { h with feed := fun reads => ?_ }
    exact absurd (reads.symm.trans gone) (by simp)

/-- A listener that has read the message has handed it to its broker. -/
theorem Has.read (h : s.Has b [] none [.message m]) (up : b.shutDown = false) :
    s.listen.Has (b.publish m.topic m.payload) [] none [] := by
  have reads : s.node.listening = true := by rw [h.listening, up]; rfl
  cases first : s.node.feed.next? with
  | none =>
    have items := Feed.items_of_next?_none first
    rw [h.feed reads] at items
    cases items
  | some entry =>
    obtain ⟨item, feed⟩ := entry
    have items := Feed.items_next? first
    rw [h.feed reads, List.cons.injEq] at items
    obtain ⟨rfl, rest⟩ := items
    have same : s.node.receive (.message m) =
        { s.node with broker := b.publish m.topic m.payload } := by
      simp [Node.receive, reads, h.broker]
    rw [Cluster.listen_next first, onNode, same]
    exact
      { h with
        broker := rfl
        running := by rw [b.shutDown_publish]; exact h.running
        listening := by rw [b.shutDown_publish]; exact h.listening
        feed := fun _ => rest.symm }

/-- A forwarder takes the event that waits. -/
theorem Has.take (h : s.Has b [m] none []) : s.take.Has b [] (some m) [] := by
  obtain ⟨⟨broker, capacity, outbound, feed, listening, running⟩, sending⟩ := s
  obtain ⟨rfl, rfl, rfl, running, listening, read, room⟩ := h
  exact ⟨rfl, rfl, rfl, running, listening, read, room⟩

theorem Has.take_none {unread : List FeedItem} (h : s.Has b [] hand unread) : s.take = s := by
  unfold Station.take
  split
  · next waits =>
    rw [h.outbound] at waits
    cases waits
  · rfl

/-- An event that reaches a feed without a backlog is the next one to be read. -/
theorem Has.carry {kept : Nat} (h : s.Has b [] none []) (holds : 0 < kept) :
    (s.carry m ⟨kept, .deliver⟩).Has b [] none [.message m] := by
  refine { h with feed := fun reads => ?_ }
  have empty := h.feed reads
  show (s.node.feed.push kept (.message m)).items = [.message m]
  obtain ⟨⟨_, _, _, ⟨behind, backlog⟩, _, _⟩, _⟩ := s
  cases behind with
  | true => cases empty
  | false =>
    obtain rfl : backlog = [] := empty
    have fits : ¬ kept < 1 := by omega
    simp [Feed.push, fits, Feed.items]

/-- A node that is down reads nothing. -/
theorem Has.of_down {unread other : List FeedItem} (h : s.Has b queue hand unread)
    (down : b.shutDown = true) : s.Has b queue hand other := by
  refine { h with feed := fun reads => ?_ }
  rw [h.listening, down] at reads
  cases reads

theorem Has.publish (h : s.Has b [] none []) (up : b.shutDown = false) :
    (s.onNode (·.publish m)).Has b [m] none [] := by
  have running : s.node.running = true := by rw [h.running, up]; rfl
  have accepts : s.node.publish m = { s.node with outbound := [m] } := by
    simp [Node.publish, running, h.outbound, h.room]
  rw [onNode, accepts]
  exact { h with outbound := rfl }

theorem Has.publish_down (h : s.Has b [] none []) (down : b.shutDown = true) :
    s.onNode (·.publish m) = s := by
  have stopped : s.node.running = false := by rw [h.running, down]; rfl
  rw [onNode, show s.node.publish m = s.node by simp [Node.publish, stopped]]

end Station

namespace Cluster

variable {w w' : Cluster} {bus : Bus} {i : Nat} {m : BusMessage} {bs : Nat → InProcessBroker}
  {P Q : Nat → Station → Prop}

/-- All stations are as they should be. -/
def Each (P : Nat → Station → Prop) (w : Cluster) : Prop := ∀ k s, w[k]? = some s → P k s

theorem Each.modify {f : Station → Station} (h : w.Each P) (own : ∀ s, P i s → Q i (f s))
    (others : ∀ k s, k ≠ i → P k s → Q k s) : Each Q (w.modify i f) := by
  intro k s found
  rw [List.getElem?_modify] at found
  obtain ⟨s', at', rfl⟩ := Option.map_eq_some_iff.mp found
  have before := h k s' at'
  split
  · next same =>
    subst same
    exact own s' before
  · next apart => exact others k s' (Ne.symm apart) before

/-- Every node has its broker, and nothing is to be done but for what one node has in its queue or
in its forwarder's hand. -/
def Holding (bs : Nat → InProcessBroker) (i : Nat) (queue : List BusMessage)
    (hand : Option BusMessage) (w : Cluster) : Prop :=
  w.Each fun k s => s.Has (bs k) (if k = i then queue else []) (if k = i then hand else none) []

/-- Every node has its broker, and nothing is to be done. -/
def Settled (bs : Nat → InProcessBroker) (w : Cluster) : Prop :=
  w.Each fun k s => s.Has (bs k) [] none []

/-- Some nodes have read the message, and the others have it yet to read. -/
def Heard (bs : Nat → InProcessBroker) (m : BusMessage) (w : Cluster) : Prop :=
  w.Each fun k s => s.Has ((bs k).publish m.topic m.payload) [] none [] ∨
    s.Has (bs k) [] none [.message m] ∧ (bs k).shutDown = false

/-- A message that was published on node `i` is on its way to all brokers. -/
def Spreads (bs : Nat → InProcessBroker) (i : Nat) (m : BusMessage) (w : Cluster) : Prop :=
  Holding bs i [m] none w ∨ Holding bs i [] (some m) w ∨ Heard bs m w

/-- When nobody has anything in hand, no answer of the bus is expected. -/
theorem act_answer_none (none_ : ∀ s, w[i]? = some s → s.sending = none)
    (handling : Nat → Handling) : w.act (.answer i handling) = w := by
  have hand : w.inHand i = none := by
    unfold inHand
    cases at' : w[i]? with
    | none => rfl
    | some s => exact none_ s at'
  simp only [act, hand]

/-- A bus that loses nothing puts what a forwarder has in hand on all feeds. -/
theorem Holding.answer {kept : Nat} (h : Holding bs i [] (some m) w) (holds : 0 < kept)
    {s : Station} (station : w[i]? = some s) :
    Heard bs m (w.act (.answer i fun _ => ⟨kept, .deliver⟩)) := by
  have hand : w.inHand i = some m := by
    have sending := (h i s station).sending
    rw [if_pos rfl] at sending
    rw [inHand, station]
    exact sending
  rw [act_answer hand]
  have cleared : Settled bs (w.modify i ({ · with sending := none })) := by
    refine Each.modify h (fun s before => ?_) fun k s ne before => ?_
    · simp only [if_true] at before
      exact { before with sending := rfl }
    · simpa only [if_neg ne] using before
  intro k s found
  rw [carry, List.getElem?_mapIdx] at found
  obtain ⟨s', at', rfl⟩ := Option.map_eq_some_iff.mp found
  have reached := (cleared k s' at').carry (m := m) holds
  cases up : (bs k).shutDown with
  | false => exact .inr ⟨reached, rfl⟩
  | true =>
    left
    rw [InProcessBroker.publish_down up]
    exact reached.of_down up

/-- The message goes from the queue into the forwarder's hand, from there on all feeds, and from
each feed to its broker. -/
theorem Spreads.act {capacity : Nat} (kept : 0 < keptItems capacity) {move : Move}
    (background : move.Background (.reliable capacity)) (h : Spreads bs i m w) :
    Spreads bs i m (w.act move) := by
  cases move with
  | take j =>
    rcases h with queued | inHand | heard
    · by_cases own : j = i
      · subst own
        refine .inr (.inl (queued.modify (fun s before => ?_) fun k s ne before => ?_))
        · simp only [if_true] at before ⊢
          exact before.take
        · simpa only [if_neg ne] using before
      · refine .inl (queued.modify (fun s before => ?_) fun k s _ before => before)
        simp only [if_neg own] at before ⊢
        rwa [before.take_none]
    · refine .inr (.inl (inHand.modify (fun s before => ?_) fun k s _ before => before))
      have before' := before
      rw [ite_self] at before'
      rwa [before'.take_none]
    · refine .inr (.inr (heard.modify (fun s before => ?_) fun k s _ before => before))
      rcases before with done | unread
      · rw [done.take_none]
        exact .inl done
      · rw [unread.1.take_none]
        exact .inr unread
  | listen j =>
    rcases h with queued | inHand | heard
    · exact .inl (queued.modify (fun s before => before.listen) fun k s _ before => before)
    · exact .inr (.inl (inHand.modify (fun s before => before.listen) fun k s _ before => before))
    · refine .inr (.inr (heard.modify (fun s before => .inl ?_) fun k s _ before => before))
      rcases before with done | ⟨unread, up⟩
      · exact done.listen
      · exact unread.read up
  | answer j handling =>
    obtain ⟨m', rfl⟩ := background
    rcases h with queued | inHand | heard
    · rw [act_answer_none fun s at' => ?_]
      · exact .inl queued
      · exact (queued j s at').sending.trans (ite_self _)
    · cases station : w[j]? with
      | none =>
        rw [act_answer_none fun s at' => absurd (at'.symm.trans station) nofun]
        exact .inr (.inl inHand)
      | some s =>
        by_cases own : j = i
        · subst own
          exact .inr (.inr (inHand.answer kept station))
        · rw [act_answer_none fun s at' => (inHand j s at').sending.trans (if_neg own)]
          exact .inr (.inl inHand)
    · rw [act_answer_none fun s at' => ?_]
      · exact .inr (.inr heard)
      · exact (heard j s at').elim (·.sending) (·.1.sending)
  | _ => exact absurd background not_false

theorem Spreads.works {capacity : Nat} (kept : 0 < keptItems capacity)
    (works : Works (.reliable capacity) w w') (h : Spreads bs i m w) : Spreads bs i m w' := by
  obtain ⟨moves, all, rfl⟩ := works
  induction moves generalizing w with
  | nil => exact h
  | cons move moves ih =>
    refine ih (h.act kept (all move List.mem_cons_self)) fun move' mem => ?_
    exact all move' (List.mem_cons_of_mem _ mem)

/-- When nothing is left to do, every broker has been given the message. -/
theorem Spreads.settled (h : Spreads bs i m w) (station : i < w.length) (idle : w.Idle) :
    Settled (fun k => (bs k).publish m.topic m.payload) w := by
  have at' : w[i]? = some w[i] := List.getElem?_eq_getElem station
  obtain ⟨empty, free, -⟩ := idle w[i] (List.getElem_mem station)
  rcases h with queued | inHand | heard
  · have waits := (queued i _ at').outbound
    rw [if_pos rfl, empty] at waits
    cases waits
  · have sending := (inHand i _ at').sending
    rw [if_pos rfl, free] at sending
    cases sending
  · intro k s found
    rcases heard k s found with done | ⟨unread, up⟩
    · exact done
    · have reads : s.node.listening = true := by rw [unread.listening, up]; rfl
      have items := (idle s (List.mem_of_getElem? found)).2.2 reads
      rw [unread.feed reads] at items
      cases items

/-- There is nothing for the background tasks to do. -/
theorem Settled.works {capacity : Nat} (works : Works (.reliable capacity) w w')
    (h : Settled bs w) : Settled bs w' := by
  obtain ⟨moves, all, rfl⟩ := works
  induction moves generalizing w with
  | nil => exact h
  | cons move moves ih =>
    refine ih ?_ fun move' mem => all move' (List.mem_cons_of_mem _ mem)
    have background := all move List.mem_cons_self
    cases move with
    | take j =>
      refine h.modify (fun s before => ?_) fun k s _ before => before
      rwa [before.take_none]
    | listen j => exact h.modify (fun s before => before.listen) fun k s _ before => before
    | answer j handling => rwa [act_answer_none fun s at' => (h j s at').sending]
    | _ => exact absurd background not_false

/-! ## One call -/

/-- What the brokers are after a call of node `i`. -/
def after (bs : Nat → InProcessBroker) (i : Nat) (c : NodeCall) (k : Nat) : InProcessBroker :=
  match c with
  | .publish topic event => if (bs i).shutDown then bs k else (bs k).publish topic event
  | c => if k = i then (bs i).call c else bs k

/-- A call that concerns the broker of its own node only. -/
theorem Settled.onBroker (h : Settled bs w) {b : InProcessBroker}
    {f : InProcessBroker → InProcessBroker} (is : f (bs i) = b)
    (same : b.shutDown = (bs i).shutDown) :
    Settled (fun k => if k = i then b else bs k) (w.modify i (·.onBroker f)) := by
  refine Each.modify h (fun s before => ?_) fun k s ne before => ?_
  · have broker : s.onBroker f = s.onBroker fun _ => b := by
      simp only [Station.onBroker, Station.onNode, before.broker, is]
    show (s.onBroker f).Has (if i = i then b else bs i) [] none []
    rw [if_pos rfl, broker]
    exact before.withBroker same
  · show s.Has (if k = i then b else bs k) [] none []
    rwa [if_neg ne]

/-- After a call and the background work all nodes have their brokers. -/
theorem Settled.call {capacity : Nat} (kept : 0 < keptItems capacity) (h : Settled bs w)
    (c : NodeCall) (node : i < w.length) (works : Works (.reliable capacity) (w.run (c.moves i)) w')
    (idle : w'.Idle) : Settled (after bs i c) w' := by
  cases c with
  | publish topic event =>
    show Settled (fun k => if (bs i).shutDown then bs k else (bs k).publish topic event) w'
    cases down : (bs i).shutDown with
    | true =>
      refine Settled.works works ?_
      refine Each.modify h (fun s before => ?_) fun k s _ before => before
      rwa [before.publish_down down]
    | false =>
      have queued : Holding bs i [⟨topic, event⟩] none (w.run [.publish i ⟨topic, event⟩]) := by
        refine Each.modify h (fun s before => ?_) fun k s ne before => ?_
        · simp only [if_true]
          exact before.publish down
        · simpa only [if_neg ne] using before
      refine (Spreads.works kept works (.inl queued)).settled ?_ idle
      obtain ⟨moves, -, rfl⟩ := works
      rwa [length_run, length_run]
  | subscribe topic filter policy =>
    have same := (bs i).shutDown_call (.subscribe topic filter policy)
    exact (h.onBroker rfl (same.trans (Bool.or_false _))).works works
  | unsubscribe id =>
    exact (h.onBroker rfl ((bs i).shutDown_unsubscribe id)).works works
  | receive id => exact (h.onBroker rfl ((bs i).receive_frame id).2.2).works works
  | count topic =>
    refine Settled.works works ?_
    have same : after bs i (.count topic) = bs := by
      funext k
      show (if k = i then bs i else bs k) = bs k
      split
      · next own => rw [own]
      · rfl
    rwa [same]
  | shutdown =>
    refine Settled.works works (Each.modify h (fun s before => ?_) fun k s ne before => ?_)
    · show s.shutdown.Has (if i = i then (bs i).shutdown else bs i) [] none []
      rw [if_pos rfl]
      exact before.shutdown
    · show s.Has (if k = i then (bs i).shutdown else bs k) [] none []
      rwa [if_neg ne]

/-! ## All calls -/

theorem standIn_cons (k : Nat) (down : List Nat) (i : Nat) (c : NodeCall)
    (rest : List (Nat × NodeCall)) :
    standIn k down ((i, c) :: rest) =
      (if c.concerns k down i then [c] else []) ++
        standIn k (if c.stops then i :: down else down) rest := by
  rw [standIn]
  split <;> rfl

/-- The broker in the place of a node makes the calls that concern it. -/
theorem after_eq {down : List Nat} (listed : i ∈ down ↔ (bs i).shutDown = true) (c : NodeCall)
    (k : Nat) : after bs i c k = if c.concerns k down i then (bs k).call c else bs k := by
  cases c with
  | publish topic event =>
    show (if (bs i).shutDown then bs k else (bs k).publish topic event) =
      if (decide (i ∉ down)) = true then (bs k).publish topic event else bs k
    by_cases gone : i ∈ down
    · rw [if_pos (listed.mp gone), if_neg (by simpa using gone)]
    · rw [if_neg fun is => gone (listed.mpr is), if_pos (by simpa using gone)]
  | _ =>
    show (if k = i then (bs i).call _ else bs k) =
      if decide (i = k) = true then (bs k).call _ else bs k
    by_cases own : k = i
    · simp [own]
    · simp [own, Ne.symm own]

/-- What a call of node `i` tells the callers of node `k`. -/
theorem toldBy_reply {s : Station} (h : Settled bs w) (station : w[i]? = some s) (down : List Nat)
    (c : NodeCall) (k : Nat) :
    toldBy k ((w.reply i c).map (i, ·)) =
      if c.concerns k down i then (bs k).reply c else [] := by
  have reply : w.reply i c = (bs i).reply c := by
    rw [Cluster.reply, station]
    exact congrArg (InProcessBroker.reply · c) (h i s station).broker
  rw [reply]
  by_cases own : i = k
  · subst own
    cases c <;> simp [toldBy, NodeCall.concerns, InProcessBroker.reply]
  · cases c <;> simp [toldBy, NodeCall.concerns, InProcessBroker.reply, own]

theorem shutDown_after (bs : Nat → InProcessBroker) (i : Nat) (c : NodeCall) (k : Nat) :
    (after bs i c k).shutDown = ((bs k).shutDown || c.stops && decide (k = i)) := by
  cases c with
  | publish topic event =>
    show (if (bs i).shutDown then bs k else (bs k).publish topic event).shutDown = _
    split <;> simp [NodeCall.stops, InProcessBroker.shutDown_publish]
  | _ =>
    show (if k = i then (bs i).call _ else bs k).shutDown = _
    by_cases own : k = i
    · rw [if_pos own, InProcessBroker.shutDown_call, own]
      simp
    · simp [own]

/-- Nodes that settle after each call answer as their brokers would. -/
theorem Plays.toldBy_eq {capacity : Nat} (kept : 0 < keptItems capacity)
    {steps : List (Nat × NodeCall)} {said : List (Nat × NodeAnswer)}
    (plays : Plays (.reliable capacity) w steps said) (settled : Settled bs w)
    (nodes : ∀ step ∈ steps, step.1 < w.length) {down : List Nat}
    (listed : ∀ i, i ∈ down ↔ (bs i).shutDown = true) (k : Nat) :
    toldBy k said = (bs k).replies (standIn k down steps) := by
  induction plays generalizing bs down with
  | done => rfl
  | @call w w' i c rest said works idle next ih =>
    have node : i < w.length := nodes (i, c) List.mem_cons_self
    have same : w'.length = w.length := by
      obtain ⟨moves, -, rfl⟩ := works
      rw [length_run, length_run]
    have listed' : ∀ j, j ∈ (if c.stops then i :: down else down) ↔
        (after bs i c j).shutDown = true := by
      intro j
      rw [shutDown_after, Bool.or_eq_true, ← listed j]
      cases c.stops <;> simp [or_comm]
    have later := ih (settled.call kept c node works idle)
      (fun step mem => same ▸ nodes step (List.mem_cons_of_mem _ mem)) listed'
    have told := toldBy_reply settled (List.getElem?_eq_getElem node) down c k
    rw [standIn_cons, toldBy, List.filterMap_append, ← toldBy, ← toldBy, told, later,
      after_eq (listed i)]
    split <;> rfl

end Cluster

/-! ## Hubs that settle -/

namespace Hub

def call (h : Hub) (i : Nat) : NodeCall → Hub
  | .subscribe topic filter policy =>
    match h.subscribe i topic filter policy with
    | .ok (h, _) => h
    | .error _ => h
  | .publish topic event => h.publish i topic event
  | .unsubscribe id => h.unsubscribe i id
  | .receive id => (h.receive i id).1
  | .count _ => h
  | .shutdown => h.shutdown i

def reply (h : Hub) (i : Nat) : NodeCall → List NodeAnswer
  | .subscribe topic filter policy =>
    [.registered ((h.subscribe i topic filter policy).map Prod.snd)]
  | .receive id => [.received (h.receive i id).2]
  | .count topic => [.counted (h.count i topic)]
  | _ => []

/-- What the callers are told if the background work is done after each call. -/
def replies (h : Hub) : List (Nat × NodeCall) → List (Nat × NodeAnswer)
  | [] => []
  | (i, c) :: rest => (h.reply i c).map (i, ·) ++ (h.call i c).settle.replies rest

variable {net : Network} {i : Nat}

/-- A call of a hub makes the moves of the call. -/
theorem call_moves (queued : net.Queued) (i : Nat) (c : NodeCall) :
    ∃ net', (network net).call i c = .network net' ∧
      net'.stations = net.stations.run (c.moves i) ∧ net'.Queued ∧ net'.bus = net.bus := by
  have onBroker := fun f => net.stations_setBroker i f
  cases c with
  | subscribe topic filter policy =>
    have made := onBroker fun b =>
      match b.subscribe topic filter policy with
      | .ok (b, _) => b
      | .error _ => b
    simp only [call, subscribe]
    cases eq : ((network net).broker i).subscribe topic filter policy with
    | error e =>
      simp only [eq] at made
      have still := made.symm.trans (onBroker id)
      rw [show (fun s : Station => s.onBroker id) = id from rfl, List.modify_id] at still
      exact ⟨net, rfl, still.symm, queued, rfl⟩
    | ok entry =>
      simp only [eq] at made
      exact ⟨_, rfl, made, Network.queued_onBroker queued i _, rfl⟩
  | publish topic event =>
    refine ⟨net.publish i ⟨topic, event⟩, rfl, net.stations_publish i _,
      Network.queued_publish queued i _, net.bus_publish i _⟩
  | unsubscribe id =>
    exact ⟨_, rfl, onBroker (·.unsubscribe id), Network.queued_onBroker queued i _, rfl⟩
  | receive id =>
    exact ⟨_, rfl, onBroker fun b => (b.receive id).1, Network.queued_onBroker queued i _, rfl⟩
  | count topic => exact ⟨net, rfl, rfl, queued, rfl⟩
  | shutdown =>
    exact ⟨net.shutdown i, rfl, net.stations_shutdown i, Network.queued_shutdown queued i, rfl⟩

theorem reply_eq (node : i < net.nodes.length) (c : NodeCall) :
    (network net).reply i c = net.stations.reply i c := by
  have broker : (network net).broker i = net.nodes[i].broker := by
    simp only [Hub.broker, List.getElem?_eq_getElem node]
  have station : net.stations[i]? = some (.resting net.nodes[i]) := by
    rw [Network.stations, List.getElem?_map, List.getElem?_eq_getElem node]
    rfl
  rw [Cluster.reply, station]
  cases c with
  | subscribe topic filter policy =>
    show [NodeAnswer.registered (((network net).subscribe i topic filter policy).map Prod.snd)] =
      [.registered ((net.nodes[i].broker.subscribe topic filter policy).map Prod.snd)]
    rw [subscribe, broker]
    cases net.nodes[i].broker.subscribe topic filter policy <;> rfl
  | receive id =>
    show [NodeAnswer.received (((network net).broker i).receive id).2] = [.received _]
    rw [broker]
    rfl
  | count topic =>
    show [NodeAnswer.counted (((network net).broker i).count topic)] = [.counted _]
    rw [broker]
    rfl
  | _ => rfl

/-- A hub that settles after each call is a network that does. -/
theorem plays_replies {steps : List (Nat × NodeCall)} (queued : net.Queued)
    (nodes : ∀ step ∈ steps, step.1 < net.nodes.length) :
    Cluster.Plays net.bus net.stations steps ((network net).replies steps) := by
  induction steps generalizing net with
  | nil => exact .done
  | cons step rest ih =>
    obtain ⟨i, c⟩ := step
    have node : i < net.nodes.length := nodes (i, c) List.mem_cons_self
    obtain ⟨net', called, moved, queued', bus⟩ := call_moves queued i c
    have works : Cluster.Works net.bus (net.stations.run (c.moves i)) net'.settle.stations := by
      rw [← moved, ← bus]
      exact net'.works_settle
    have length : net'.settle.nodes.length = net.nodes.length := by
      have same : net'.settle.stations.length = net.stations.length := by
        obtain ⟨moves, -, stations⟩ := works
        rw [stations, Cluster.length_run, Cluster.length_run]
      rwa [Network.stations, Network.stations, List.length_map, List.length_map] at same
    have later := ih (Network.queued_settle queued') fun step mem =>
      length ▸ nodes step (List.mem_cons_of_mem _ mem)
    rw [net'.bus_settle, bus] at later
    rw [replies, reply_eq node, called]
    exact .call works (Network.idle_settle queued') later

end Hub

theorem settled_new (capacities : List Nat) :
    Cluster.Settled (fun _ => .new) (Cluster.new capacities) := by
  intro k s found
  obtain ⟨capacity, -, rfl⟩ := Option.map_eq_some_iff.mp ((List.getElem?_map ..).symm.trans found)
  exact Station.has_new capacity

theorem le_doubleUntil (n p steps : Nat) : p ≤ doubleUntil n p steps := by
  induction steps generalizing p with
  | zero => exact Nat.le_refl p
  | succ steps ih =>
    unfold doubleUntil
    split
    · exact Nat.le_refl p
    · have next := ih (2 * p)
      omega

/-- Bridged brokers are in-process brokers.  On any number of nodes over one bus that loses nothing,
with any capacities, let the background tasks run until idle after each call, in any order.  Then
the callers of every node are told what the callers of an in-process broker are told that is given
the node's own calls and all publishes of nodes that are not shut down.  The hub that runs the tasks
in its own order is one of these cases. -/
theorem bridged_refines (capacity : Nat) (capacities : List Nat) (steps : List (Nat × NodeCall))
    (nodes : ∀ step ∈ steps, step.1 < capacities.length) :
    (∀ said, Cluster.Plays (.reliable capacity) (.new capacities) steps said →
      ∀ k, toldBy k said = InProcessBroker.new.replies (standIn k [] steps)) ∧
    Cluster.Plays (.reliable capacity) (.new capacities) steps
      ((Hub.network (.new (.reliable capacity) capacities)).replies steps) := by
  constructor
  · intro said plays k
    refine plays.toldBy_eq (le_doubleUntil capacity 1 capacity) (settled_new capacities) ?_ ?_ k
    · intro step mem
      rw [Cluster.new, List.length_map]
      exact nodes step mem
    · simp [InProcessBroker.new]
  · have same : (Network.new (.reliable capacity) capacities).stations = .new capacities :=
      List.map_map
    rw [← same]
    refine Hub.plays_replies (Network.queued_new _ _) fun step mem => ?_
    rw [Network.new, List.length_map]
    exact nodes step mem

/-- Two nodes: the second is shut down after the first event, what is published on it then reaches
nobody, and the next event on the first node ends a subscriber there that has no room for it. -/
theorem bridged_refines_pair :
    let all : EventFilter := fun _ => true
    let steps : List (Nat × NodeCall) := [(0, .subscribe "t" all ⟨.buffer, 1⟩),
      (1, .subscribe "t" all ⟨.dropOldest, 2⟩), (0, .publish "t" (.str "a")), (1, .shutdown),
      (1, .publish "t" (.str "b")), (0, .publish "t" (.str "c")), (1, .receive 0), (1, .receive 0),
      (0, .receive 0), (0, .receive 0), (0, .count "t"), (1, .subscribe "t" all ⟨.buffer, 1⟩)]
    let said := (Hub.network (.new (.reliable 1) [1, 2])).replies steps
    (∀ step ∈ steps, step.1 < [1, 2].length) ∧
      toldBy 0 said = [.registered (.ok 0), .received (.event (.str "a")), .received (.overflow 1),
        .counted 0] ∧
      toldBy 1 said = [.registered (.ok 0), .received (.event (.str "a")), .received .ended,
        .registered (.error .shutDown)] := by
  intro all steps said
  have nodes : ∀ step ∈ steps, step.1 < [1, 2].length := by simp [steps]
  obtain ⟨refines, plays⟩ := bridged_refines 1 [1, 2] steps nodes
  refine ⟨nodes, ?_, ?_⟩
  · rw [refines said plays 0]
    rfl
  · rw [refines said plays 1]
    rfl

end GraphQLEngine
