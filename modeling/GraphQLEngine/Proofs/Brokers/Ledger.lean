import GraphQLEngine.Proofs.Brokers.Moves

/-!
# Where the messages are

Fix a station, and count the messages with some property `p`.  Of those that any station was asked
to publish, each was heard by the station, or is on its way to it, or is lost without notice; unless
the report of a loss waits on the feed of the station.

    count asked ≤ count heard + count lost + transit + count (messages live)
-/

namespace GraphQLEngine

/-- The messages among the items of a feed. -/
def messages (items : List FeedItem) : List BusMessage := items.filterMap FeedItem.message?

theorem messages_append (is js : List FeedItem) :
    messages (is ++ js) = messages is ++ messages js := List.filterMap_append

/-- The messages that a station has not handed to the bus. -/
def Station.pending (s : Station) : List BusMessage := s.sending.toList ++ s.node.outbound

theorem Station.pending_carry (m : BusMessage) (h : Handling) (s : Station) :
    (s.carry m h).pending = s.pending := by
  unfold carry
  split <;> rfl

theorem Station.pending_take (s : Station) : s.take.pending = s.pending := by
  unfold take
  split
  · next none first => simp [pending, none, first]
  · rfl

theorem Station.pending_listen (s : Station) : s.listen.pending = s.pending := by
  unfold listen
  split
  · rfl
  · exact congrArg (s.sending.toList ++ ·) (Node.outbound_receive _ _)

/-- A message that the bus treats for a listener will be read, or its loss is reported, or neither
as the stream has ended or the bus says so. -/
theorem Station.live_carry (m : BusMessage) (h : Handling) (s : Station) :
    .loss ∈ (s.carry m h).node.live ∨
      ∃ extra, (s.carry m h).node.live = s.node.live ++ extra ∧
        (messages extra = [m] ∨ s.node.deaf = true ∨ h.how = .refuse ∨ h.how = .close) := by
  obtain ⟨kept, how⟩ := h
  have heard := fun item => s.node.live_hear kept item
  cases deaf : s.node.deaf with
  | true =>
    cases how with
    | refuse => exact .inr ⟨[], (List.append_nil _).symm, .inr (.inl rfl)⟩
    | deliver =>
      exact (heard (.message m)).imp id fun eq => ⟨_, eq, .inr (.inl rfl)⟩
    | lose => exact (heard .loss).imp id fun eq => ⟨_, eq, .inr (.inl rfl)⟩
    | close => exact (heard .finish).imp id fun eq => ⟨_, eq, .inr (.inl rfl)⟩
  | false =>
    cases how with
    | refuse => exact .inr ⟨[], (List.append_nil _).symm, .inr (.inr (.inl rfl))⟩
    | deliver =>
      refine (heard (.message m)).imp id fun eq => ⟨_, eq, .inl ?_⟩
      simp [Node.fresh, deaf, messages, FeedItem.isFinish, FeedItem.message?]
    | lose =>
      left
      rcases heard .loss with loss | eq
      · exact loss
      · show .loss ∈ (s.node.hear kept .loss).live
        rw [eq]
        simp [Node.fresh, deaf, FeedItem.isFinish]
    | close => exact (heard .finish).imp id fun eq => ⟨_, eq, .inr (.inr (.inr rfl))⟩

theorem Station.loss_carry {s : Station} (loss : .loss ∈ s.node.live) (m : BusMessage)
    (h : Handling) : .loss ∈ (s.carry m h).node.live := by
  unfold carry
  split
  · exact loss
  · exact Node.loss_hear loss _ _

/-- The listener takes the first of what it will read, or there is nothing to be read any more. -/
theorem Station.live_listen (s : Station) :
    (s.node.listening = true ∧ ∃ item feed, s.node.feed.next? = some (item, feed) ∧
        item.isFinish = false ∧ s.node.live = item :: s.listen.node.live) ∨
      s.node.live = [] ∧ s.listen.node.live = [] := by
  unfold listen Node.live
  cases found : s.node.feed.next? with
  | none =>
    right
    simp [Feed.live, Feed.items_of_next?_none found]
  | some entry =>
    obtain ⟨item, feed⟩ := entry
    have items := Feed.items_next? found
    cases listens : s.node.listening with
    | false => simp [onNode, Node.receive, listens]
    | true =>
      cases item with
      | finish =>
        right
        simp [Feed.live, items, FeedItem.isFinish, onNode, Node.receive, listens]
      | loss =>
        left
        simp [Feed.live, items, FeedItem.isFinish, onNode, Node.receive, listens]
      | message m =>
        left
        simp [Feed.live, items, FeedItem.isFinish, onNode, Node.receive, listens]

/-- A station that is shut down, and one whose queue is full, do not queue what they are given. -/
theorem Station.pending_publish (s : Station) (m : BusMessage) :
    (s.onNode (·.publish m)).pending =
      s.pending ++
        if s.node.running ∧ s.node.outbound.length < s.node.outboundCapacity then [m] else [] := by
  show s.sending.toList ++ (s.node.publish m).outbound = _
  unfold Node.publish
  cases running : s.node.running with
  | false => simp [pending]
  | true =>
    by_cases room : s.node.outbound.length < s.node.outboundCapacity <;> simp [room, pending]

namespace Cluster

/-- The number of the messages that wait to be handed to the bus. -/
def transit (p : BusMessage → Bool) (w : Cluster) : Nat := (w.flatMap Station.pending).countP p

variable {p : BusMessage → Bool} {w : Cluster} {i k : Nat} {s : Station}

theorem transit_cons (p : BusMessage → Bool) (s : Station) (w : Cluster) :
    transit p (s :: w) = s.pending.countP p + transit p w := by
  rw [transit, List.flatMap_cons, List.countP_append]
  rfl

/-- A move of one station changes only what waits there. -/
theorem transit_modify (h : w[i]? = some s) (f : Station → Station) :
    transit p (w.modify i f) + s.pending.countP p = transit p w + (f s).pending.countP p := by
  induction w generalizing i with
  | nil => cases h
  | cons first w ih =>
    cases i with
    | zero =>
      obtain rfl : first = s := Option.some.inj h
      rw [List.modify_zero_cons, transit_cons, transit_cons]
      omega
    | succ i =>
      have := ih (i := i) h
      rw [List.modify_succ_cons, transit_cons, transit_cons]
      omega

theorem transit_modify_eq {f : Station → Station} (same : ∀ s, (f s).pending = s.pending) :
    transit p (w.modify i f) = transit p w := by
  cases h : w[i]? with
  | none => rw [List.modify_eq_self (List.getElem?_eq_none_iff.mp h)]
  | some s =>
    have := transit_modify (p := p) h f
    rw [same] at this
    omega

theorem transit_carry (w : Cluster) (m : BusMessage) (handling : Nat → Handling) :
    transit p (w.carry m handling) = transit p w := by
  have same : (w.carry m handling).map Station.pending = w.map Station.pending := by
    apply List.ext_getElem?
    intro i
    rw [List.getElem?_map, List.getElem?_map, carry, List.getElem?_mapIdx]
    cases w[i]? with
    | none => rfl
    | some s => exact congrArg some (s.pending_carry m (handling i))
  unfold transit
  rw [List.flatMap_def, same, List.flatMap_def]

/-- What the listener of a station will read. -/
def live (k : Nat) (w : Cluster) : List FeedItem := (w[k]?.map fun s => s.node.live).getD []

theorem live_eq (h : w[k]? = some s) : live k w = s.node.live := by
  rw [live, h]
  rfl

theorem live_modify_ne (f : Station → Station) (ne : i ≠ k) :
    live k (w.modify i f) = live k w := by
  rw [live, live, List.getElem?_modify_ne _ _ ne]

theorem live_modify_eq {f : Station → Station} (same : ∀ s, (f s).node.live = s.node.live) :
    live k (w.modify i f) = live k w := by
  by_cases ne : i = k
  · subst ne
    rw [live, live, List.getElem?_modify_eq]
    cases w[i]? with
    | none => rfl
    | some s => exact same s
  · exact live_modify_ne f ne

/-- The messages asked for are heard, on their way or lost; or a report waits for station `k`. -/
def Owed (p : BusMessage → Bool) (k : Nat) (w : Cluster) (asked heard lost : List BusMessage) :
    Prop :=
  .loss ∈ live k w ∨
    asked.countP p ≤
      heard.countP p + lost.countP p + transit p w + (messages (live k w)).countP p

variable {asked heard lost : List BusMessage}

/-- A move that leaves the messages of every station where they are. -/
theorem Owed.modify {f : Station → Station} (o : Owed p k w asked heard lost)
    (pending : ∀ s, (f s).pending = s.pending) (live : ∀ s, (f s).node.live = s.node.live) :
    Owed p k (w.modify i f) asked heard lost := by
  unfold Owed
  rw [transit_modify_eq pending, live_modify_eq live]
  exact o

theorem Owed.onBroker (o : Owed p k w asked heard lost) (f : InProcessBroker → InProcessBroker) :
    Owed p k (w.modify i (·.onBroker f)) asked heard lost :=
  o.modify (fun _ => rfl) fun _ => rfl

/-! ## What each move does to the count -/

/-- An event that is asked for is queued, or lost, or its own station is told. -/
theorem Owed.publish (o : Owed p k w asked heard lost) (i : Nat) (m : BusMessage)
    (told : ∀ s, i = k → w[i]? = some s → s.node.running = true →
      ¬ s.node.outbound.length < s.node.outboundCapacity → p m = false) :
    Owed p k (w.act (.publish i m)) (asked ++ w.asked (.publish i m)) heard
      (lost ++ w.lost k (.publish i m)) := by
  cases h : w[i]? with
  | none =>
    have out : w.length ≤ i := List.getElem?_eq_none_iff.mp h
    have none' : w.asked (.publish i m) = [] := if_neg (by omega)
    have none'' : w.lost k (.publish i m) = [] := by simp only [Cluster.lost, h]
    rw [none', none'', act, List.modify_eq_self out, List.append_nil, List.append_nil]
    exact o
  | some s =>
    have valid : i < w.length := (List.getElem?_eq_some_iff.mp h).1
    have one : w.asked (.publish i m) = [m] := if_pos valid
    have gone : w.lost k (.publish i m) =
        if s.node.running ∧ (i = k ∨ s.node.outbound.length < s.node.outboundCapacity) then []
        else [m] := by simp only [Cluster.lost, h]
    have sameLive : ∀ s : Station, (s.onNode (·.publish m)).node.live = s.node.live := by
      intro s
      show (s.node.publish m).live = _
      unfold Node.publish
      split
      · rfl
      · split <;> rfl
    have moved := transit_modify (p := p) h (·.onNode (·.publish m))
    rw [Station.pending_publish, List.countP_append] at moved
    unfold Owed at o ⊢
    rw [one, gone, act, live_modify_eq sameLive, List.countP_append, List.countP_append]
    refine o.imp id fun le => ?_
    by_cases running : s.node.running = true
    · by_cases room : s.node.outbound.length < s.node.outboundCapacity
      · rw [if_pos ⟨running, room⟩] at moved
        rw [if_pos ⟨running, .inr room⟩, List.countP_nil]
        omega
      · rw [if_neg fun both => room both.2, List.countP_nil] at moved
        by_cases own : i = k
        · have uncounted : [m].countP p = 0 := by simp [told s own h running room]
          omega
        · rw [if_neg fun both => both.2.elim own room]
          omega
    · rw [if_neg fun both => running both.1, List.countP_nil] at moved
      rw [if_neg fun both => running both.1]
      omega

/-- What a station drops as it is shut down is lost to the others. -/
theorem Owed.shutdown (o : Owed p k w asked heard lost) (ne : i ≠ k) :
    Owed p k (w.act (.shutdown i)) asked heard (lost ++ w.lost k (.shutdown i)) := by
  unfold Owed at o ⊢
  rw [act, live_modify_ne _ ne, List.countP_append]
  refine o.imp id fun le => ?_
  cases h : w[i]? with
  | none =>
    rw [List.modify_eq_self (List.getElem?_eq_none_iff.mp h)]
    omega
  | some s =>
    have gone : w.lost k (.shutdown i) = s.pending := by
      simp only [Cluster.lost, h]
      rfl
    have moved := transit_modify (p := p) h Station.shutdown
    have none : s.shutdown.pending = [] := rfl
    rw [none, List.countP_nil] at moved
    rw [gone]
    omega

theorem Owed.take (o : Owed p k w asked heard lost) (i : Nat) :
    Owed p k (w.act (.take i)) asked heard lost := by
  refine o.modify Station.pending_take fun s => ?_
  unfold Station.take
  split <;> rfl

/-- An item that the bus makes up adds to what will be read, or reports a loss. -/
theorem Owed.hear (o : Owed p k w asked heard lost) (i kept : Nat) (item : FeedItem) :
    Owed p k (w.act (.hear i kept item)) asked heard lost := by
  have sameTransit : transit p (w.act (.hear i kept item)) = transit p w :=
    transit_modify_eq fun _ => rfl
  by_cases own : i = k
  · subst own
    cases h : w[i]? with
    | none =>
      rw [act, List.modify_eq_self (List.getElem?_eq_none_iff.mp h)]
      exact o
    | some s =>
      have after : (w.act (.hear i kept item))[i]? = some (s.onNode (·.hear kept item)) := by
        rw [act, List.getElem?_modify_eq, h]
        rfl
      unfold Owed at o ⊢
      rw [live_eq h] at o
      rw [live_eq after, sameTransit]
      rcases s.node.live_hear kept item with loss | eq
      · exact .inl loss
      · rcases o with loss | le
        · exact .inl (Node.loss_hear loss kept item)
        · right
          rw [show (s.onNode (·.hear kept item)).node.live = _ from eq, messages_append,
            List.countP_append]
          omega
  · unfold Owed at o ⊢
    rw [sameTransit, act, live_modify_ne _ own]
    exact o

/-- What the bus answers for is to be read, or reported, or lost. -/
theorem Owed.answer (o : Owed p k w asked heard lost) (i : Nat) (handling : Nat → Handling)
    (h : w[k]? = some s) :
    Owed p k (w.act (.answer i handling)) asked heard (lost ++ w.lost k (.answer i handling)) := by
  cases hand : w.inHand i with
  | none =>
    have none' : w.lost k (.answer i handling) = [] := by simp only [Cluster.lost, hand]
    have none'' : w.act (.answer i handling) = w := by simp only [act, hand]
    rw [none', none'', List.append_nil]
    exact o
  | some m =>
    obtain ⟨sender, at', sending⟩ := Option.bind_eq_some_iff.mp hand
    have moved := transit_modify (p := p) at' ({ · with sending := none })
    rw [show sender.pending = [m] ++ sender.node.outbound by rw [Station.pending, sending]; rfl,
      show Station.pending { sender with sending := none } = sender.node.outbound from rfl,
      List.countP_append] at moved
    have cleared : ∃ s', (w.modify i ({ · with sending := none }))[k]? = some s' ∧
        s'.node = s.node := by
      rw [List.getElem?_modify, h]
      exact ⟨_, rfl, by split <;> rfl⟩
    obtain ⟨s', cleared, node⟩ := cleared
    have after : (w.act (.answer i handling))[k]? = some (s'.carry m (handling k)) := by
      simp only [act, hand]
      rw [carry, List.getElem?_mapIdx, cleared]
      rfl
    have sameTransit : transit p (w.act (.answer i handling)) =
        transit p (w.modify i ({ · with sending := none })) := by
      simp only [act, hand, transit_carry]
    have gone : w.lost k (.answer i handling) =
        if s.node.deaf ∨ (handling k).how = .refuse ∨ (handling k).how = .close then [m]
        else [] := by simp only [Cluster.lost, hand, h]
    unfold Owed at o ⊢
    rw [live_eq h, ← node] at o
    rw [live_eq after, sameTransit, gone, List.countP_append, ← node]
    rcases s'.live_carry m (handling k) with loss | ⟨extra, eq, read⟩
    · exact .inl loss
    · rcases o with loss | le
      · exact .inl (Station.loss_carry loss m (handling k))
      · right
        rw [eq, messages_append, List.countP_append]
        rcases read with read | missed
        · rw [read]
          omega
        · rw [if_pos missed]
          omega

/-- What the listener of station `k` takes off its feed it hands to its broker. -/
theorem Owed.listen (o : Owed p k w asked heard lost) (i : Nat) (h : w[k]? = some s)
    (told : i = k → s.node.listening = true → ∀ feed, s.node.feed.next? ≠ some (.loss, feed)) :
    Owed p k (w.act (.listen i)) asked (heard ++ w.heard k (.listen i)) lost := by
  have sameTransit : transit p (w.act (.listen i)) = transit p w :=
    transit_modify_eq Station.pending_listen
  unfold Owed at o ⊢
  by_cases own : i = k
  · subst own
    have after : (w.act (.listen i))[i]? = some s.listen := by
      rw [act, List.getElem?_modify_eq, h]
      rfl
    have handed : w.heard i (.listen i) =
        if s.node.listening then
          ((s.node.feed.next?.map Prod.fst).bind FeedItem.message?).toList
        else [] := by simp only [Cluster.heard, h, true_and]
    rw [live_eq h] at o
    rw [live_eq after, sameTransit, handed, List.countP_append]
    rcases s.live_listen with ⟨listens, item, feed, first, unfinished, live⟩ | ⟨before, after⟩
    · cases item with
      | finish => cases unfinished
      | loss => exact absurd first (told rfl listens feed)
      | message m =>
        have one : ((s.node.feed.next?.map Prod.fst).bind FeedItem.message?).toList = [m] := by
          rw [first]
          rfl
        have split : messages (.message m :: s.listen.node.live) =
            [m] ++ messages s.listen.node.live := rfl
        rw [if_pos listens, one]
        rw [live, split, List.countP_append] at o
        rcases o with loss | le
        · left
          rcases List.mem_cons.mp loss with same | loss
          · cases same
          · exact loss
        · right
          omega
    · rw [before] at o
      rw [after]
      exact o.imp id fun le => by omega
  · have handed : w.heard k (.listen i) = [] := by
      simp only [Cluster.heard, own, false_and, if_false]
      split <;> rfl
    rw [sameTransit, handed, act, live_modify_ne _ own, List.append_nil]
    exact o

end Cluster

end GraphQLEngine
