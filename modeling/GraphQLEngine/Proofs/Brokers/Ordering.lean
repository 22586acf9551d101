import GraphQLEngine.Proofs.Brokers.Delivery
import GraphQLEngine.Proofs.Brokers.Exchanges
import GraphQLEngine.Proofs.Brokers.Sessions

/-!
# One order for all

The bus carries the events one after the other, those of one node in the order in which they were
published there.  What any listener hears is some of what the bus has carried, in that order, for
events are lost but never overtaken; and what a registration is given is some of what its listener
heard.

    (heard k ++ messages of the feed of k).Sublist sent
    (received id).Sublist (offered topic filter (heard k))
-/

namespace GraphQLEngine

/-! ## What a registration is given -/

/-- Of what is pushed on a sink, it is offered what comes while it is open. -/
theorem Sink.sublist_pushed (s : Sink) (moves : List SinkMove) :
    (s.offers moves).Sublist (moves.flatMap SinkMove.pushed) := by
  induction moves generalizing s with
  | nil => exact .refl _
  | cons m ms ih =>
    refine List.Sublist.append ?_ (ih (s.act m))
    cases m with
    | push e =>
      show (if s.status = .active then [e] else []).Sublist [e]
      split
      · exact .refl _
      · exact List.nil_sublist _
    | _ => exact .refl _

namespace InProcessBroker

variable {b b' : InProcessBroker} {id : Nat} {topic : String} {filter : EventFilter} {sink : Sink}

/-- A loss overflows the sink of a registration that it concerns. -/
theorem Serves.overflowAll (r : Serves b id topic filter sink) (ids : List Nat) :
    Serves (b.overflowAll ids) id topic filter (if id ∈ ids then sink.overflow else sink) := by
  rcases r with ⟨holds, active⟩ | ⟨released, ended⟩
  · by_cases hit : id ∈ ids ∧ sink.policy.mode = .buffer
    · obtain ⟨mem, buffer⟩ := hit
      rw [if_pos mem, Sink.overflow, if_pos ⟨buffer, active⟩]
      exact .inr ⟨holds.overflowAll_mem mem buffer active, by simp⟩
    · have same : (if id ∈ ids then sink.overflow else sink) = sink := by
        split
        · next mem => exact if_neg fun both => hit ⟨mem, both.1⟩
        · rfl
      rw [same]
      exact .inl ⟨holds.overflowAll_spared (not_and_or.mp hit), active⟩
  · rw [Sink.overflow_ended ended, ite_self]
    exact .inr ⟨released.overflowAll ended ids, ended⟩

/-- The sink of a registration has made some moves: its receiver found what is said, and the events
that are said were pushed. -/
def Runs (id : Nat) (topic : String) (filter : EventFilter) (sink : Sink) (events : List Json)
    (found : List Received) (b : InProcessBroker) : Prop :=
  ∃ moves, Serves b id topic filter (sink.run moves) ∧ sink.answers moves = found ∧
    moves.flatMap SinkMove.pushed = events

theorem Change.runs {ms : List BusMessage} {found : List Received} (c : Change id b ms found b')
    (h : Consistent b) (r : Serves b id topic filter sink) :
    Runs id topic filter sink (offered topic filter ms) found b' := by
  cases c with
  | same => exact ⟨[], r, rfl, rfl⟩
  | subscribe ok => exact ⟨[], r.subscribe ok, rfl, rfl⟩
  | unsubscribe ne => exact ⟨[], r.unsubscribe_ne ne, rfl, rfl⟩
  | receive =>
    refine ⟨[.receive], r.receive, ?_, rfl⟩
    rw [receive_kept r.kept]
    rfl
  | receiveOther ne => exact ⟨[], r.receive_ne ne, rfl, rfl⟩
  | publish m =>
    have next := r.publish h m.topic m.payload
    have one : offered topic filter [m] = picked topic filter m.topic m.payload :=
      List.flatMap_singleton _ _
    rw [one, picked]
    by_cases meant : m.topic = topic ∧ filter m.payload = true
    · rw [if_pos meant] at next ⊢
      exact ⟨[.push m.payload], next, rfl, rfl⟩
    · rw [if_neg meant] at next ⊢
      exact ⟨[], next, rfl, rfl⟩
  | overflow ids =>
    have next := r.overflowAll ids
    split at next
    · exact ⟨[.overflow], next, rfl, rfl⟩
    · exact ⟨[], next, rfl, rfl⟩

end InProcessBroker

open InProcessBroker

namespace Cluster

variable {w : Cluster} {s : Station} {k id : Nat} {topic : String} {filter : EventFilter}
  {sink : Sink}

/-- A move of a network is a run of the sink of a registration. -/
theorem runs_act (h : w[k]? = some s) (c : Consistent s.node.broker)
    (r : Serves s.node.broker id topic filter sink) (move : Move) :
    ∃ s', (w.act move)[k]? = some s' ∧ Consistent s'.node.broker ∧
      Runs id topic filter sink (offered topic filter (w.heard k move)) (w.found k id move)
        s'.node.broker := by
  by_cases released : move = .unsubscribe k id
  · subst released
    refine ⟨s.onBroker (·.unsubscribe id), ?_, consistent_unsubscribe c id, [.close],
      r.unsubscribe, rfl, rfl⟩
    rw [act, List.getElem?_modify_eq, h]
    rfl
  by_cases down : move = .shutdown k
  · subst down
    refine ⟨s.shutdown, ?_, consistent_shutdown c, [.close], r.shutdown, rfl, rfl⟩
    rw [act, List.getElem?_modify_eq, h]
    rfl
  obtain ⟨s', at', change⟩ := change_act h id move released down
  exact ⟨s', at', change.consistent c, change.runs c r⟩

theorem runs_run (moves : List Move) (h : w[k]? = some s) (c : Consistent s.node.broker)
    (r : Serves s.node.broker id topic filter sink) :
    ∃ s', (w.run moves)[k]? = some s' ∧ Runs id topic filter sink
      (offered topic filter (gather (heard k) w moves)) (gather (found k id) w moves)
      s'.node.broker := by
  induction moves generalizing w s sink with
  | nil => exact ⟨s, h, [], r, rfl, rfl⟩
  | cons move moves ih =>
    obtain ⟨s', at', c', ms, r', answers, pushed⟩ := runs_act h c r move
    obtain ⟨last, final, ns, r'', answers', pushed'⟩ := ih at' c' r'
    refine ⟨last, final, ms ++ ns, ?_, ?_, ?_⟩
    · rw [Sink.run_append]
      exact r''
    · rw [Sink.answers, observe_append]
      exact congr_arg₂ _ answers answers'
    · rw [List.flatMap_append, pushed, pushed', ← offered_append]
      rfl

/-- What a new registration is given are events that its listener heard, in that order. -/
theorem received_sublist (moves : List Move) (h : w[k]? = some s) (c : Consistent s.node.broker)
    {policy : DeliveryPolicy} (r : Serves s.node.broker id topic filter (.new policy)) :
    ((gather (found k id) w moves).filterMap Received.event?).Sublist
      (offered topic filter (gather (heard k) w moves)) := by
  obtain ⟨s', -, ms, -, answers, pushed⟩ := runs_run moves h c r
  rw [← answers, ← pushed]
  refine List.Sublist.trans ?_ (Sink.sublist_pushed (.new policy) ms)
  exact (List.sublist_append_left _ _).trans (Sink.sublist_offers (.new policy) ms)

end Cluster

/-! ## What the bus carries -/

/-- A move over a bus that loses nothing, adds nothing, and keeps some items for each listener. -/
def Move.Faithful (kept : Nat) : Move → Prop
  | .hear _ _ _ => False
  | .answer _ handling => handling = fun _ => ⟨kept, .deliver⟩
  | _ => True

theorem Feed.messages_items (f : Feed) : messages f.items = messages f.backlog := by
  unfold items
  split <;> rfl

/-- Items are dropped from the front, so those that are left keep their order. -/
theorem Feed.messages_push (f : Feed) (kept : Nat) (item : FeedItem) :
    (messages (f.push kept item).items).Sublist (messages f.items ++ messages [item]) := by
  have suffix : (f.push kept item).backlog.Sublist (f.backlog ++ [item]) := by
    simp only [push]
    split
    · exact List.drop_sublist _ _
    · exact .refl _
  rw [messages_items, messages_items, ← messages_append]
  exact suffix.filterMap FeedItem.message?

namespace Station

/-- Of an event that is carried to a listener, nothing overtakes what it has yet to read. -/
theorem messages_carry (m : BusMessage) (kept : Nat) (s : Station) :
    (messages (s.carry m ⟨kept, .deliver⟩).node.feed.items).Sublist
      (messages s.node.feed.items ++ [m]) :=
  Feed.messages_push s.node.feed kept (.message m)

/-- What a listener hears is what it has first to read. -/
theorem messages_listen (s : Station) :
    ((if s.node.listening then
        ((s.node.feed.next?.map Prod.fst).bind FeedItem.message?).toList
      else []) ++ messages s.listen.node.feed.items).Sublist (messages s.node.feed.items) := by
  cases first : s.node.feed.next? with
  | none =>
    unfold listen
    rw [first]
    simp
  | some entry =>
    obtain ⟨item, feed⟩ := entry
    have same : s.listen.node.feed = feed := by
      rw [Cluster.listen_next first]
      rfl
    rw [same, Feed.items_next? first]
    cases item with
    | message m =>
      split
      · exact .refl _
      · exact List.sublist_cons_self _ _
    | loss =>
      show ((if _ then [] else []) ++ _).Sublist (messages feed.items)
      rw [ite_self]
      exact .refl _
    | finish =>
      show ((if _ then [] else []) ++ _).Sublist (messages feed.items)
      rw [ite_self]
      exact .refl _

end Station

namespace Cluster

variable {w : Cluster} {k i n : Nat} {s : Station} {sent : List Nat} {moves : List Move}
  {heard' : Nat → List BusMessage} {topic : String} {filter : EventFilter}

/-- The node and the event of the call at a place of a run. -/
def callAt (moves : List Move) (p : Nat) : Nat × BusMessage :=
  match moves[p]? with
  | some (.publish i m) => (i, m)
  | _ => default

/-- Calls of one node come in the order in which they were made. -/
def InTurn (moves : List Move) (p q : Nat) : Prop :=
  (callAt moves p).1 = (callAt moves q).1 → p < q

/-- One of the first `n` moves of a run that is a call of a node. -/
structure CalledOn (moves : List Move) (n i p : Nat) : Prop where
  before : p < n
  is : moves[p]? = some (.publish i (callAt moves p).2)

/-- After `n` moves of a run the bus has carried the events of some calls, which are in turn with
those that wait on each node; and what each listener has heard, and has yet to read, are some of
these, in that order. -/
structure Ordered (moves : List Move) (n : Nat) (sent : List Nat) (heard : Nat → List BusMessage)
    (w : Cluster) : Prop where
  called : ∀ p ∈ sent, ∃ i < w.length, CalledOn moves n i p
  inTurn : sent.Pairwise (InTurn moves)
  waits : ∀ i s, w[i]? = some s → ∃ ps : List Nat,
    s.pending = ps.map (fun p => (callAt moves p).2) ∧
    (∀ p ∈ ps, CalledOn moves n i p) ∧ (sent ++ ps).Pairwise (InTurn moves)
  reads : ∀ k s, w[k]? = some s →
    (heard k ++ messages s.node.feed.items).Sublist (sent.map fun p => (callAt moves p).2)

theorem CalledOn.node {p : Nat} (c : CalledOn moves n i p) : (callAt moves p).1 = i := by
  rw [callAt, c.is]

theorem CalledOn.mono {p : Nat} (c : CalledOn moves n i p) : CalledOn moves (n + 1) i p :=
  ⟨Nat.lt_succ_of_lt c.before, c.is⟩

/-- A move of one station that hands nothing to the bus. -/
theorem Ordered.modify (h : Ordered moves n sent heard' w) {f : Station → Station}
    {heard'' : Nat → List BusMessage}
    (pending : ∀ s, w[i]? = some s → (f s).pending.Sublist s.pending ∨
      ∃ m, (f s).pending = s.pending ++ [m] ∧ moves[n]? = some (.publish i m))
    (reads : ∀ s, w[i]? = some s → (heard'' i ++ messages (f s).node.feed.items).Sublist
      (heard' i ++ messages s.node.feed.items))
    (others : ∀ k, k ≠ i → heard'' k = heard' k) :
    Ordered moves (n + 1) sent heard'' (w.modify i f) where
  called p mem := by
    obtain ⟨j, below, c⟩ := h.called p mem
    rw [List.length_modify]
    exact ⟨j, below, c.mono⟩
  inTurn := h.inTurn
  waits j s found := by
    rw [List.getElem?_modify] at found
    obtain ⟨s', at', rfl⟩ := Option.map_eq_some_iff.mp found
    obtain ⟨ps, is, calls, inTurn⟩ := h.waits j s' at'
    have before : ∀ p ∈ ps, CalledOn moves (n + 1) j p := fun p mem => (calls p mem).mono
    split
    · next own =>
      subst own
      rcases pending s' at' with less | ⟨m, more, call⟩
      · rw [is] at less
        obtain ⟨qs, sub, eq⟩ := List.sublist_map_iff.mp less
        refine ⟨qs, eq, fun q mem => before q (sub.subset mem), inTurn.sublist ?_⟩
        exact (List.Sublist.refl _).append sub
      · have event : callAt moves n = (i, m) := by rw [callAt, call]
        have new : CalledOn moves (n + 1) i n := ⟨Nat.lt_succ_self n, by rw [event]; exact call⟩
        refine ⟨ps ++ [n], ?_, ?_, ?_⟩
        · rw [more, is, List.map_append, List.map_singleton, event]
        · intro p mem
          rcases List.mem_append.mp mem with old | last
          · exact before p old
          · rw [List.mem_singleton.mp last]
            exact new
        · rw [← List.append_assoc, List.pairwise_append]
          refine ⟨inTurn, List.pairwise_singleton _ _, fun p mem q last _ => ?_⟩
          rw [List.mem_singleton.mp last]
          rcases List.mem_append.mp mem with carried | waits
          · obtain ⟨_, _, c⟩ := h.called p carried
            exact c.before
          · exact (calls p waits).before
    · exact ⟨ps, is, before, inTurn⟩
  reads j s found := by
    rw [List.getElem?_modify] at found
    obtain ⟨s', at', rfl⟩ := Option.map_eq_some_iff.mp found
    split
    · next own =>
      subst own
      exact (reads s' at').trans (h.reads i s' at')
    · next apart =>
      rw [others j (Ne.symm apart)]
      exact h.reads j s' at'

/-- What a forwarder has in hand is the oldest that waits there, and the bus carries it next. -/
theorem Ordered.answer {kept : Nat} {m : BusMessage} (h : Ordered moves n sent heard' w)
    (hand : w.inHand i = some m) :
    ∃ p, Ordered moves (n + 1) (sent ++ [p]) heard'
      (w.act (.answer i fun _ => ⟨kept, .deliver⟩)) := by
  have at' : ∃ s, w[i]? = some s ∧ s.sending = some m := Option.bind_eq_some_iff.mp hand
  obtain ⟨s, at', sending⟩ := at'
  obtain ⟨ps, is, calls, inTurn⟩ := h.waits i s at'
  have pending : s.pending = m :: s.node.outbound := by rw [Station.pending, sending]; rfl
  rw [pending] at is
  obtain ⟨p, rest, rfl, event, later⟩ := List.map_eq_cons_iff.mp is.symm
  have first := calls p List.mem_cons_self
  have carried : ∀ (j : Nat) (s' : Station),
      (w.act (.answer i fun _ => ⟨kept, .deliver⟩))[j]? = some s' →
      ∃ s₀, w[j]? = some s₀ ∧
        s' = (if i = j then { s₀ with sending := none } else s₀).carry m ⟨kept, .deliver⟩ := by
    intro j s' found
    rw [act_answer hand, carry, List.getElem?_mapIdx, List.getElem?_modify] at found
    obtain ⟨s₁, at₁, rfl⟩ := Option.map_eq_some_iff.mp found
    obtain ⟨s₀, at₀, rfl⟩ := Option.map_eq_some_iff.mp at₁
    refine ⟨s₀, at₀, ?_⟩
    split <;> rfl
  have split : (sent ++ p :: rest) = (sent ++ [p]) ++ rest := by simp
  rw [split] at inTurn
  have inTurn' := List.pairwise_append.mp inTurn
  refine ⟨p, ⟨?_, inTurn'.1, ?_, ?_⟩⟩
  · intro q mem
    rw [length_act]
    rcases List.mem_append.mp mem with old | new
    · obtain ⟨j, below, c⟩ := h.called q old
      exact ⟨j, below, c.mono⟩
    · rw [List.mem_singleton.mp new]
      exact ⟨i, (List.getElem?_eq_some_iff.mp at').1, first.mono⟩
  · intro j s' found
    obtain ⟨s₀, at₀, rfl⟩ := carried j s' found
    rw [Station.pending_carry]
    by_cases own : i = j
    · subst own
      obtain rfl : s = s₀ := Option.some.inj (at'.symm.trans at₀)
      rw [if_pos rfl]
      exact ⟨rest, later.symm, fun q mem => (calls q (List.mem_cons_of_mem _ mem)).mono, inTurn⟩
    · rw [if_neg own]
      obtain ⟨qs, is', calls', turn'⟩ := h.waits j s₀ at₀
      refine ⟨qs, is', fun q mem => (calls' q mem).mono, ?_⟩
      rw [List.append_assoc, List.pairwise_append]
      have apart := List.pairwise_append.mp turn'
      refine ⟨apart.1, ?_, ?_⟩
      · refine List.pairwise_cons.mpr ⟨fun q mem same => ?_, apart.2.1⟩
        rw [first.node, (calls' q mem).node] at same
        exact absurd same own
      · intro a mem b mem'
        rcases List.mem_cons.mp mem' with rfl | old
        · exact (List.pairwise_append.mp inTurn'.1).2.2 a mem b List.mem_cons_self
        · exact apart.2.2 a mem b old
  · intro j s' found
    obtain ⟨s₀, at₀, rfl⟩ := carried j s' found
    have same : (if i = j then { s₀ with sending := none } else s₀).node = s₀.node := by
      split <;> rfl
    have heard := (if i = j then { s₀ with sending := none } else s₀).messages_carry m kept
    rw [same] at heard
    rw [List.map_append, List.map_singleton, event]
    refine ((List.Sublist.refl _).append heard).trans ?_
    rw [← List.append_assoc]
    exact (h.reads j s₀ at₀).append (.refl _)

/-- One move of a run. -/
theorem Ordered.act {kept : Nat} (h : Ordered moves n sent heard' w) {move : Move}
    (faithful : move.Faithful kept) (is : moves[n]? = some move) :
    ∃ sent', Ordered moves (n + 1) sent' (fun k => heard' k ++ w.heard k move) (w.act move) := by
  have quiet : ∀ {f : Station → Station} {i : Nat}, (∀ s, (f s).pending.Sublist s.pending) →
      (∀ s, (f s).node.feed = s.node.feed) → (∀ k, w.heard k move = []) →
      Ordered moves (n + 1) sent (fun k => heard' k ++ w.heard k move) (w.modify i f) := by
    intro f i pending feed nothing
    refine h.modify (fun s _ => .inl (pending s)) (fun s _ => ?_) fun k _ => ?_
    · rw [nothing, List.append_nil, feed]
    · rw [nothing, List.append_nil]
  have onBroker : ∀ (f : InProcessBroker → InProcessBroker) (s : Station),
      (s.onBroker f).pending.Sublist s.pending := fun _ _ => .refl _
  cases move with
  | subscribe i topic filter policy =>
    exact ⟨sent, quiet (onBroker _) (fun _ => rfl) fun _ => rfl⟩
  | unsubscribe i id => exact ⟨sent, quiet (onBroker _) (fun _ => rfl) fun _ => rfl⟩
  | receive i id => exact ⟨sent, quiet (onBroker _) (fun _ => rfl) fun _ => rfl⟩
  | shutdown i => exact ⟨sent, quiet (fun _ => List.nil_sublist _) (fun _ => rfl) fun _ => rfl⟩
  | take i =>
    refine ⟨sent, quiet (fun s => by rw [s.pending_take]) (fun s => ?_) fun _ => rfl⟩
    unfold Station.take
    split <;> rfl
  | publish i m =>
    refine ⟨sent, h.modify (fun s _ => ?_) (fun s _ => ?_) fun k _ => List.append_nil _⟩
    · rw [s.pending_publish]
      split
      · exact .inr ⟨m, rfl, is⟩
      · exact .inl (by simp)
    · have same : (s.node.publish m).feed = s.node.feed := by
        unfold Node.publish
        split
        · rfl
        · split <;> rfl
      show ((heard' i ++ []) ++ messages (s.node.publish m).feed.items).Sublist _
      rw [same, List.append_nil]
  | hear i kept item => exact absurd faithful not_false
  | answer i handling =>
    obtain rfl := faithful
    have still : (fun k => heard' k ++ w.heard k (.answer i fun _ => ⟨kept, .deliver⟩)) = heard' :=
      funext fun k => List.append_nil _
    rw [still]
    cases hand : w.inHand i with
    | some m =>
      obtain ⟨p, next⟩ := h.answer hand
      exact ⟨_, next⟩
    | none =>
      have same : w.act (.answer i fun _ => ⟨kept, .deliver⟩) = w.modify i id := by
        rw [List.modify_id]
        simp only [Cluster.act, hand]
      rw [same]
      exact ⟨sent, h.modify (fun s _ => .inl (.refl _)) (fun s _ => .refl _) fun k _ => rfl⟩
  | listen i =>
    refine ⟨sent, h.modify (fun s _ => .inl ?_) (fun s at' => ?_) fun k apart => ?_⟩
    · rw [s.pending_listen]
    · have hears : w.heard i (.listen i) = if s.node.listening then
          ((s.node.feed.next?.map Prod.fst).bind FeedItem.message?).toList else [] := by
        simp [Cluster.heard, at']
      rw [hears, List.append_assoc]
      exact (List.Sublist.refl _).append s.messages_listen
    · have nothing : w.heard k (.listen i) = [] := by
        simp only [Cluster.heard, Ne.symm apart, false_and, if_false]
        split <;> rfl
      rw [nothing, List.append_nil]

/-- All moves of a run. -/
theorem Ordered.run {kept : Nat} {rest : List Move} (h : Ordered moves n sent heard' w)
    (faithful : ∀ move ∈ rest, move.Faithful kept) (is : moves.drop n = rest) :
    ∃ sent', Ordered moves (n + rest.length) sent'
      (fun k => heard' k ++ gather (heard k) w rest) (w.run rest) := by
  induction rest generalizing n sent heard' w with
  | nil =>
    have same : (fun k => heard' k ++ gather (heard k) w []) = heard' :=
      funext fun k => List.append_nil _
    rw [same]
    exact ⟨sent, h⟩
  | cons move rest ih =>
    have at' : moves[n]? = some move := by
      rw [← List.head?_drop, is]
      rfl
    have later : moves.drop (n + 1) = rest := by
      rw [← List.drop_drop, is]
      rfl
    obtain ⟨next, h'⟩ := h.act (faithful move List.mem_cons_self) at'
    obtain ⟨last, final⟩ := ih h' (fun m mem => faithful m (List.mem_cons_of_mem _ mem)) later
    refine ⟨last, ?_⟩
    have count : n + 1 + rest.length = n + (move :: rest).length := by
      rw [List.length_cons]
      omega
    rw [← count]
    simp only [List.append_assoc] at final
    exact final

theorem ordered_new (capacities : List Nat) (moves : List Move) :
    Ordered moves 0 [] (fun _ => []) (new capacities) where
  called _ mem := by cases mem
  inTurn := .nil
  waits i s found := by
    obtain ⟨c, -, rfl⟩ := Option.map_eq_some_iff.mp ((List.getElem?_map ..).symm.trans found)
    exact ⟨[], rfl, by simp, .nil⟩
  reads k s found := by
    obtain ⟨c, -, rfl⟩ := Option.map_eq_some_iff.mp ((List.getElem?_map ..).symm.trans found)
    exact .refl _

theorem gather_append {α : Type} (see : Cluster → Move → List α) (w : Cluster)
    (ms ns : List Move) :
    gather see w (ms ++ ns) = gather see w ms ++ gather see (w.run ms) ns := by
  induction ms generalizing w with
  | nil => rfl
  | cons m ms ih =>
    rw [List.cons_append, gather, gather, ih, List.append_assoc]
    rfl

/-! ## One order -/

/-- Calls of a run that publish events on the nodes of a network: no call comes twice, and those of
one node come in the order in which they were made. -/
structure BusOrder (moves : List Move) (nodes : Nat) (order : List Nat) : Prop where
  once : order.Nodup
  called : ∀ p ∈ order, ∃ i < nodes, ∃ m, moves[p]? = some (.publish i m)
  inTurn : order.Pairwise fun p q => ∀ i m m',
    moves[p]? = some (.publish i m) → moves[q]? = some (.publish i m') → p < q

/-- The events are those of some calls, in that order, each of which published to the topic an event
that is accepted. -/
def Delivers (moves : List Move) (order : List Nat) (topic : String) (filter : EventFilter)
    (events : List Json) : Prop :=
  ∃ calls : List Nat, calls.Sublist order ∧
    calls.Forall₂
      (fun p e => (∃ i, moves[p]? = some (.publish i ⟨topic, e⟩)) ∧ filter e = true) events

theorem Ordered.busOrder (h : Ordered moves n sent heard' w) : BusOrder moves w.length sent where
  once := h.inTurn.imp fun turn same => by
    subst same
    exact Nat.lt_irrefl _ (turn rfl)
  called p mem := by
    obtain ⟨i, below, c⟩ := h.called p mem
    exact ⟨i, below, _, c.is⟩
  inTurn := by
    refine h.inTurn.imp fun turn i m m' first second => turn ?_
    rw [callAt, callAt, first, second]

theorem offered_calls (topic : String) (filter : EventFilter) (calls : List Nat) :
    offered topic filter (calls.map fun p => (callAt moves p).2) =
      (calls.filter fun p =>
        (callAt moves p).2.topic = topic ∧ filter (callAt moves p).2.payload).map
          fun p => (callAt moves p).2.payload := by
  induction calls with
  | nil => rfl
  | cons p calls ih =>
    rw [List.map_cons, offered, List.flatMap_cons, ← offered, ih, picked]
    by_cases meant : (callAt moves p).2.topic = topic ∧ filter (callAt moves p).2.payload = true
    · rw [if_pos meant, List.filter_cons_of_pos (by simpa using meant)]
      rfl
    · rw [if_neg meant, List.filter_cons_of_neg (by simpa using meant)]
      rfl

/-- Events that are offered of what the bus has carried are those of calls. -/
theorem Ordered.delivers (h : Ordered moves n sent heard' w) {ms : List BusMessage}
    {events : List Json} (carried : ms.Sublist (sent.map fun p => (callAt moves p).2))
    (given : events.Sublist (offered topic filter ms)) :
    Delivers moves sent topic filter events := by
  obtain ⟨heard, sub, rfl⟩ := List.sublist_map_iff.mp carried
  rw [offered_calls] at given
  obtain ⟨calls, sub', rfl⟩ := List.sublist_map_iff.mp given
  refine ⟨calls, sub'.trans ((List.filter_sublist).trans sub), ?_⟩
  rw [List.forall₂_map_right_iff, List.forall₂_same]
  intro p mem
  obtain ⟨mem, meant⟩ := List.mem_filter.mp (sub'.subset mem)
  obtain ⟨onTopic, accepted⟩ : (callAt moves p).2.topic = topic ∧
      filter (callAt moves p).2.payload = true := by simpa using meant
  obtain ⟨i, -, c⟩ := h.called p (sub.subset mem)
  refine ⟨⟨i, ?_⟩, accepted⟩
  rw [← onTopic]
  exact c.is

/-- Delivery over a bridge is at most once and in one order.  For any run of any network, with any
capacities, there is one order of calls, no call twice and those of each node in the order in which
they were made, such that each registration on any node is given the events of some of these calls,
in this order: calls that published to its topic an event that its filter accepts. -/
theorem delivery_one_order (capacity : Nat) (capacities : List Nat) (moves : List Move)
    (faithful : ∀ move ∈ moves, move.Faithful (keptItems capacity)) :
    ∃ order, BusOrder moves capacities.length order ∧
      ∀ before k topic filter policy after s b id,
        moves = before ++ .subscribe k topic filter policy :: after →
        (run (new capacities) before)[k]? = some s →
        s.node.broker.subscribe topic filter policy = .ok (b, id) →
        Delivers moves order topic filter
          ((gather (found k id) ((run (new capacities) before).act
            (.subscribe k topic filter policy)) after).filterMap Received.event?) := by
  obtain ⟨order, h⟩ := (ordered_new capacities moves).run faithful rfl
  refine ⟨order, ?_, ?_⟩
  · have bus := h.busOrder
    rwa [length_run, new, List.length_map] at bus
  · rintro before k topic filter policy after s b id is station registered
    have consistent := consistent_run_new capacities before station
    have broker : (s.subscribe topic filter policy).node.broker = b := by
      simp [Station.subscribe, Station.onBroker, Station.onNode, registered]
    have at' : ((run (new capacities) before).act (.subscribe k topic filter policy))[k]? =
        some (s.subscribe topic filter policy) := by
      rw [act, List.getElem?_modify_eq, station]
      rfl
    have consistent' := consistent_subscribe consistent registered
    have serves : Serves b id topic filter (.new policy) :=
      .inl ⟨holds_subscribe consistent registered, rfl⟩
    rw [← broker] at consistent' serves
    have given := received_sublist after at' consistent' serves
    obtain ⟨last, final, -⟩ := runs_run after at' consistent' serves
    have split : run (new capacities) moves =
        ((run (new capacities) before).act (.subscribe k topic filter policy)).run after := by
      rw [is]
      exact run_append _ _ _
    have parts : gather (heard k) (new capacities) moves =
        gather (heard k) (new capacities) before ++ gather (heard k)
          ((run (new capacities) before).act (.subscribe k topic filter policy)) after := by
      rw [is, gather_append]
      rfl
    have carried := h.reads k last (split ▸ final)
    rw [List.nil_append, parts, List.append_assoc] at carried
    refine h.delivers (List.Sublist.trans ?_ carried) given
    exact (List.sublist_append_left _ _).trans (List.sublist_append_right _ _)

/-- The second of two nodes is the first to have its event on the bus, but falls behind and loses
it; its subscriber and that of the other node agree on the rest. -/
def race : List Move :=
  let deliver : Nat → Handling := fun _ => ⟨1, .deliver⟩
  [.subscribe 0 "t" (fun _ => true) ⟨.buffer, 2⟩, .subscribe 1 "t" (fun _ => true) ⟨.dropNewest, 2⟩,
    .publish 0 ⟨"t", .str "a"⟩, .publish 1 ⟨"t", .str "b"⟩, .take 0, .take 1, .answer 1 deliver,
    .listen 0, .answer 0 deliver, .listen 1, .listen 1, .listen 0, .receive 0 0, .receive 1 0,
    .receive 0 0, .receive 1 0]

theorem delivery_one_order_race :
    (∀ move ∈ race, move.Faithful (keptItems 1)) ∧
      ∃ order, BusOrder race 2 order ∧
        Delivers race order "t" (fun _ => true) [.str "b", .str "a"] ∧
        Delivers race order "t" (fun _ => true) [.str "a"] := by
  have faithful : ∀ move ∈ race, move.Faithful (keptItems 1) := by
    have one : keptItems 1 = 1 := rfl
    simp [race, Move.Faithful, one]
  obtain ⟨order, bus, given⟩ := delivery_one_order 1 [1, 1] race faithful
  refine ⟨faithful, order, bus, ?_, ?_⟩
  · exact given [] 0 "t" (fun _ => true) ⟨.buffer, 2⟩ race.tail _ _ 0 rfl rfl rfl
  · exact given (race.take 1) 1 "t" (fun _ => true) ⟨.dropNewest, 2⟩ (race.drop 2) _ _ 0 rfl rfl rfl

end Cluster

end GraphQLEngine
