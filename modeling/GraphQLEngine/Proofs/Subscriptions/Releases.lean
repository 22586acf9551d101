import GraphQLEngine.Proofs.Brokers.Releases
import GraphQLEngine.Proofs.Responses.Dealings
import GraphQLEngine.Proofs.Subscriptions.Images

/-!
# Registrations and their streams

A subscription that succeeds adds one registration to the broker, and nothing else that callers do adds
any.  The stream owns the registration: once it ended, was dropped, or was cancelled and the background
has run, the registration is gone for good, and no other stream's is taken away with it.

    d.Kept old  →  d.world.hub.Files id  →  old.Files id ∨ a stream of d that has not ended owns id
    d.stream? place = some s  →  (e.act d (.drop place)).2.Gone e s.registration
-/

namespace GraphQLEngine

variable {σ : Type}

/-! ## The hub -/

namespace Hub

/-- The broker that operations subscribe on has the registration. -/
def Files (h : Hub) (id : Nat) : Prop := (h.broker World.node).Files id

/-- There is such a broker, and its maps agree. -/
structure InOrder (h : Hub) : Prop where
  hosts : h.Hosts World.node
  broker : (h.broker World.node).InOrder

/-- Nobody new is registered. -/
structure Sheds (h h' : Hub) : Prop where
  hosts : h.Hosts World.node → h'.Hosts World.node
  broker : (h.broker World.node).Sheds (h'.broker World.node)

variable {h h' h'' : Hub} {id other : Nat}

theorem Hosts.setBroker {node : Nat} (hosts : h.Hosts node) (i : Nat) (b : InProcessBroker) :
    (h.setBroker i b).Hosts node := by
  cases h with
  | single => exact nofun
  | network w =>
    rintro _ ⟨⟩
    rw [Network.modifyNode, List.length_modify]
    exact hosts w rfl

namespace Sheds

theorem refl (h : Hub) : Sheds h h := ⟨id, .refl _⟩

theorem trans (s : Sheds h h') (s' : Sheds h' h'') : Sheds h h'' :=
  ⟨fun hosts => s'.hosts (s.hosts hosts), s.broker.trans s'.broker⟩

theorem inOrder (s : Sheds h h') (o : InOrder h) : InOrder h' :=
  ⟨s.hosts o.hosts, s.broker.inOrder o.broker⟩

theorem files (s : Sheds h h') (o : InOrder h) (files : h'.Files id) : h.Files id :=
  s.broker.files o.broker files

theorem publish (h : Hub) (i : Nat) (topic : String) (event : Json) :
    Sheds h (h.publish i topic event) :=
  ⟨fun hosts => hosts.publish i topic event, InProcessBroker.Sheds.endures.hub_publish _ i h topic event⟩

theorem unsubscribe (h : Hub) (i id : Nat) : Sheds h (h.unsubscribe i id) :=
  ⟨fun hosts => hosts.setBroker i _, InProcessBroker.Sheds.endures.hub_unsubscribe _ i id h⟩

theorem receive (h : Hub) (i id : Nat) : Sheds h (h.receive i id).1 := by
  refine ⟨fun hosts => hosts.setBroker i _, InProcessBroker.Sheds.endures.hub_setBroker
    (fun _ => .receive _ id) fun b is => ?_⟩
  subst is
  exact .receive b id

theorem shutdown (h : Hub) (i : Nat) : Sheds h (h.shutdown i) := by
  refine ⟨fun hosts => ?_, InProcessBroker.Sheds.endures.hub_shutdown _ i h⟩
  cases h with
  | single => exact nofun
  | network w =>
    rintro _ ⟨⟩
    show World.node < (w.nodes.modify i Node.shutdown).length
    rw [List.length_modify]
    exact hosts w rfl

theorem settle (h : Hub) : Sheds h h.settle := by
  refine ⟨fun hosts => ?_, InProcessBroker.Sheds.endures.hub_settle _ h⟩
  cases h with
  | single => exact nofun
  | network w =>
    rintro _ ⟨⟩
    have same := congrArg List.length (Network.brokers_forwardAll w.waiting { w with waiting := [] })
    rw [List.length_map, List.length_map] at same
    show World.node < (List.map Node.listen _).length
    rw [List.length_map, same]
    exact hosts w rfl

theorem publishes (p : h.Publishes h') : Sheds h h' := by
  induction p with
  | refl => exact .refl h
  | tail _ step ih =>
    obtain ⟨topic, event, rfl⟩ := step
    exact ih.trans (publish _ _ _ _)

end Sheds

/-- One thing that a stream with a registration does with the hub. -/
inductive Handles (own : Nat) (h : Hub) : Hub → Prop
  /-- A resolver publishes. -/
  | publish (topic : String) (event : Json) : Handles own h (h.publish World.node topic event)
  | receive : Handles own h (h.receive World.node own).1
  | release : Handles own h (h.unsubscribe World.node own)

/-- What a stream makes of the hub. -/
def Handled (own : Nat) : Hub → Hub → Prop := Relation.ReflTransGen (Handles own)

variable {own : Nat}

theorem Publishes.handled (p : h.Publishes h') (own : Nat) : h.Handled own h' := by
  induction p with
  | refl => exact .refl
  | tail _ step ih =>
    obtain ⟨topic, event, rfl⟩ := step
    exact ih.tail (.publish topic event)

theorem Handles.sheds (k : h.Handles own h') : Sheds h h' := by
  cases k with
  | publish topic event => exact .publish h _ topic event
  | receive => exact .receive h _ own
  | release => exact .unsubscribe h _ own

theorem Handled.sheds (k : h.Handled own h') : Sheds h h' := by
  induction k with
  | refl => exact .refl h
  | tail _ step ih => exact ih.trans step.sheds

/-! ### Who stays registered -/

theorem files_setBroker (hosts : h.Hosts World.node) (b : InProcessBroker) :
    (h.setBroker World.node b).Files id ↔ b.Files id := by
  rw [Files, broker_setBroker hosts]

theorem InOrder.files_unsubscribe (o : InOrder h) :
    (h.unsubscribe World.node id).Files other ↔ other ≠ id ∧ h.Files other :=
  (files_setBroker o.hosts _).trans o.broker.files_unsubscribe

theorem InOrder.files_receive (o : InOrder h) :
    (h.receive World.node id).1.Files other ↔ h.Files other :=
  (files_setBroker o.hosts _).trans (InProcessBroker.files_receive _ id)

/-- A stream that does not publish takes nobody else's registration away. -/
theorem InOrder.spares (o : InOrder h) (k : h.Handles own h') (ne : other ≠ own) :
    (h'.Files other ↔ h.Files other) ∨ ∃ topic event, h' = h.publish World.node topic event := by
  cases k with
  | publish topic event => exact .inr ⟨topic, event, rfl⟩
  | receive => exact .inl o.files_receive
  | release => exact .inl (o.files_unsubscribe.trans (and_iff_right ne))

/-- To subscribe adds one registration, with the next number. -/
theorem InOrder.subscribe {topic : String} {filter : EventFilter} {policy : DeliveryPolicy}
    (o : InOrder h) (ok : h.subscribe World.node topic filter policy = .ok (h', id)) :
    InOrder h' ∧ id = (h.broker World.node).sinks.length ∧
      (h'.broker World.node).sinks.length = id + 1 ∧ ¬ h.Files id ∧
      ∀ other, h'.Files other ↔ h.Files other ∨ other = id := by
  unfold Hub.subscribe at ok
  split at ok
  · cases ok
  · next b _ made =>
    cases ok
    have same := broker_setBroker o.hosts b
    obtain ⟨-, -, fresh, -⟩ := InProcessBroker.subscribe_ok made
    obtain ⟨new, files⟩ := o.broker.files_subscribe made
    refine ⟨⟨o.hosts.setBroker _ b, ?_⟩, fresh, ?_, new, fun other => ?_⟩
    · rw [same]
      exact o.broker.subscribe made
    · rw [same, InProcessBroker.sinks_subscribe made, List.length_append, fresh]
      rfl
    · exact (files_setBroker o.hosts b).trans (files other)

end Hub

/-! ## Polls -/

/-- What comes of a stream that is polled: if it ended by that, the last thing that it did was to release
its registration. -/
structure SubscriptionStream.Works (s : SubscriptionStream σ) (w : World σ)
    (s' : SubscriptionStream σ) (w' : World σ) : Prop where
  same : s' = { s with stage := s'.stage }
  hub : w.hub.Handled s.registration w'.hub
  ends : s'.stage = .ended → s.stage = .ended ∨
    ∃ h, w.hub.Handled s.registration h ∧ w'.hub = h.unsubscribe World.node s.registration

/-- A stream that has ended by a poll has released its registration. -/
theorem SubscriptionStream.Works.unfiled {s s' : SubscriptionStream σ} {w w' : World σ}
    (works : s.Works w s' w') (o : w.hub.InOrder) (running : s.stage ≠ .ended)
    (ended : s'.stage = .ended) : ¬ w'.hub.Files s.registration := by
  obtain ⟨h, handled, hub⟩ := (works.ends ended).resolve_left running
  rw [hub, (handled.sheds.inOrder o).files_unsubscribe]
  exact fun files => files.1 rfl

namespace Life

variable {e : Engine σ} {l l' : Life σ}

/-- What a stream makes of the hub once the execution of an event has come to a point. -/
theorem handled_come (l : Life σ) (r : Polled σ × OperationState σ) :
    (l.come r).stream.stage ≠ .ended ∧ (l.come r).world.hub = r.2.world.hub ∨
      (l.come r).world.hub = r.2.world.hub.unsubscribe World.node l.stream.registration := by
  obtain ⟨p, st⟩ := r
  cases p with
  | suspended | completed => exact .inl ⟨nofun, rfl⟩
  | stopped => exact .inr rfl

/-- The stream has come to a point after its resolvers have published. -/
theorem works_come {l₁ : Life σ} {r : Polled σ × OperationState σ} (stream : l₁.stream = l.stream)
    (handled : l.world.hub.Handled l.stream.registration r.2.world.hub) :
    l.stream.Works l.world (l₁.come r).stream (l₁.come r).world := by
  have same := l₁.stream_come r
  have come := l₁.handled_come r
  rw [stream] at same come
  refine ⟨same, ?_, fun ended => .inr ?_⟩
  · rcases come with ⟨-, hub⟩ | hub
    · exact hub ▸ handled
    · exact hub ▸ handled.tail .release
  · exact ⟨_, handled, come.resolve_left fun still => still.1 ended⟩

theorem Polls.works (h : l.Polls e l') : l.stream.Works l.world l'.stream l'.world := by
  have received : l.world.hub.Handled l.stream.registration l.received.world.hub := .single .receive
  have leaves : l.stream.Works l.world l.leave.stream l.leave.world :=
    ⟨rfl, .single .release, fun _ => .inr ⟨_, .refl, rfl⟩⟩
  have listens : ∀ stage : StreamStage σ, stage ≠ .ended →
      l.stream.Works l.world { l.stream with stage } l.received.world :=
    fun stage still => ⟨rfl, received, fun ended => absurd ended still⟩
  cases h with
  | still stage => exact ⟨rfl, .refl, fun _ => .inl stage⟩
  | behind | cancelled => exact leaves
  | nothing stage => exact listens _ (by rw [stage]; exact nofun)
  | overflow => exact listens _ nofun
  | refused stage => exact listens _ (by rw [stage]; exact nofun)
  | finished => exact ⟨rfl, received.tail .release, fun _ => .inr ⟨_, received, rfl⟩⟩
  | begun _ _ _ started =>
    refine works_come rfl (received.trans ?_)
    exact (Engine.performs_executeEvent started).2.hub.handled _
  | @resumed x c =>
    refine works_come rfl ?_
    exact (e.performs_poll l.stream.caller x ⟨l.stream.operation, c, l.world⟩).world.hub.handled _

end Life

theorem SubscriptionStream.works_poll (s : SubscriptionStream σ) (e : Engine σ) (w : World σ) :
    s.Works w (s.poll e w).2.1 (s.poll e w).2.2 :=
  (Life.polls_poll e (Life.start s w)).works

/-! ## Acts -/

/-- The stream at a place, if what was begun there has come to one. -/
def Undertaking.stream? : Undertaking σ → Option (SubscriptionStream σ)
  | .streaming s => some s
  | _ => none

def Dealings.stream? (d : Dealings σ) (place : Nat) : Option (SubscriptionStream σ) :=
  d.undertakings[place]?.bind Undertaking.stream?

/-- What others do is not to register with the broker themselves. -/
def Act.Ordinary (a : Act σ) : Prop :=
  ∀ change, a = .others change → ∃ deed : Deed, change = (·.does deed) ∧
    ∀ node topic filter policy, deed ≠ .subscribe node topic filter policy

theorem World.sheds_does (w : World σ) {deed : Deed}
    (other : ∀ node topic filter policy, deed ≠ .subscribe node topic filter policy) :
    w.hub.Sheds (w.does deed).hub := by
  cases deed with
  | subscribe node topic filter policy => exact absurd rfl (other node topic filter policy)
  | publish node topic event => exact .publish _ _ _ _
  | unsubscribe node id => exact .unsubscribe _ _ _
  | receive node id => exact .receive _ _ _
  | shutdown node => exact .shutdown _ _
  | settle => exact .settle _
  | signal | advance => exact .refl _

namespace Dealings

/-- What an act does to the streams and the hub. -/
inductive Moves (d d' : Dealings σ) : Shown → Prop
  /-- The streams are left alone. -/
  | rests {shown : Shown} : (∀ place, d'.stream? place = d.stream? place) →
    d.world.hub.Sheds d'.world.hub → (∀ id, shown ≠ .subscribed id) → Moves d d' shown
  /-- A set-up has come to a stream. -/
  | registers {place : Nat} {s : SubscriptionStream σ} {h : Hub} {topic : String}
    {filter : EventFilter} {policy : DeliveryPolicy} : d.stream? place = none →
    s.stage = .listening →
    (∀ other, d'.stream? other = if other = place then some s else d.stream? other) →
    d.world.hub.Publishes h →
    h.subscribe World.node topic filter policy = .ok (d'.world.hub, s.registration) →
    Moves d d' (.subscribed s.registration)
  | polls {shown : Shown} {place : Nat} {s s' : SubscriptionStream σ} : d.stream? place = some s →
    (∀ other, d'.stream? other = if other = place then some s' else d.stream? other) →
    s.Works d.world s' d'.world → (∀ id, shown ≠ .subscribed id) → Moves d d' shown
  | drops {shown : Shown} {place : Nat} {s : SubscriptionStream σ} : d.stream? place = some s →
    (∀ other, d'.stream? other = if other = place then none else d.stream? other) →
    d'.world.hub = d.world.hub.unsubscribe World.node s.registration →
    (∀ id, shown ≠ .subscribed id) → Moves d d' shown

theorem stream?_begun (d : Dealings σ) (r : Shown × Undertaking σ × World σ)
    (none : r.2.1.stream? = none) (place : Nat) : (d.begun r).2.stream? place = d.stream? place := by
  show (d.undertakings ++ [r.2.1])[place]?.bind _ = d.undertakings[place]?.bind _
  rw [List.getElem?_append]
  split
  · rfl
  · next out =>
    rw [List.getElem?_eq_none (Nat.le_of_not_lt out)]
    cases at' : [r.2.1][place - d.undertakings.length]? with
    | none => rfl
    | some u =>
      obtain rfl := List.mem_singleton.mp (List.mem_of_getElem? at')
      exact none

theorem stream?_set (d : Dealings σ) {place : Nat} {u : Undertaking σ} (u' : Undertaking σ)
    (at' : d.undertakings[place]? = some u) (w : World σ) (other : Nat) :
    Dealings.stream? ⟨d.undertakings.set place u', w⟩ other =
      if other = place then u'.stream? else d.stream? other := by
  have below := (List.getElem?_eq_some_iff.mp at').1
  show (d.undertakings.set place u')[other]?.bind _ = _
  split
  · next same =>
    rw [same, List.getElem?_set_self below]
    rfl
  · next ne =>
    rw [List.getElem?_set_ne (Ne.symm ne)]
    rfl

/-- Nothing is there that holds a registration, before or after. -/
theorem rests_begun (d : Dealings σ) {r : Shown × Undertaking σ × World σ}
    (none : r.2.1.stream? = none) (sheds : d.world.hub.Sheds r.2.2.hub)
    (shown : ∀ id, r.1 ≠ .subscribed id) : d.Moves (d.begun r).2 (d.begun r).1 :=
  .rests (d.stream?_begun r none) sheds shown

theorem rests_set (d : Dealings σ) {place : Nat} {u : Undertaking σ}
    {r : Shown × Undertaking σ × World σ} (at' : d.undertakings[place]? = some u)
    (same : r.2.1.stream? = u.stream?) (sheds : d.world.hub.Sheds r.2.2.hub)
    (shown : ∀ id, r.1 ≠ .subscribed id) :
    d.Moves ⟨d.undertakings.set place r.2.1, r.2.2⟩ r.1 := by
  refine .rests (fun other => ?_) sheds shown
  rw [d.stream?_set _ at']
  split
  · next here => rw [here, Dealings.stream?, at', same, Option.bind_some]
  · rfl

end Dealings

namespace Engine

variable {e : Engine σ} {caller : Caller}

/-- A set-up registers if it has come to a stream, after its resolver has published. -/
theorem pollSetup_hub (e : Engine σ) (plan : SubscriptionPlan σ) (operation : Nat)
    (deadline : Option Nat) (w : World σ) :
    ((∀ s, (e.pollSetup plan operation deadline w).1 ≠ .ready s) ∧
      w.hub.Publishes (e.pollSetup plan operation deadline w).2.hub) ∨
    ∃ s h topic filter policy, (e.pollSetup plan operation deadline w).1 = .ready s ∧
      s.stage = .listening ∧ w.hub.Publishes h ∧ h.subscribe World.node topic filter policy =
        .ok ((e.pollSetup plan operation deadline w).2.hub, s.registration) := by
  have effects := (w.performs_absorb (plan.resolver.subscribe plan.call (w.scope operation)).2).hub
  unfold pollSetup
  split
  · exact .inl ⟨fun _ h => (by cases h), .refl⟩
  · simp only
    split
    · unfold register
      simp only
      cases (plan.resolver.subscribe plan.call (w.scope operation)).1 with
      | error fault => exact .inl ⟨fun _ h => (by cases h), effects⟩
      | ok source =>
        simp only
        cases made : (w.absorb (plan.resolver.subscribe plan.call (w.scope operation)).2).hub.subscribe
            World.node source.topic source.filter
            (plan.resolver.policy.getD e.settings.delivery) with
        | error fault => exact .inl ⟨fun _ h => (by cases h), effects⟩
        | ok found => exact .inr ⟨_, _, _, _, _, rfl, rfl, effects, made⟩
    · exact .inl ⟨fun _ h => (by cases h), .refl⟩

theorem reviewExecution_rests (caller : Caller) (r : Polled σ × OperationState σ) :
    (reviewExecution caller r).2.1.stream? = none ∧
      (reviewExecution caller r).2.2 = r.2.world ∧
      ∀ id, (reviewExecution caller r).1 ≠ .subscribed id := by
  obtain ⟨p, st⟩ := r
  cases p <;> exact ⟨rfl, rfl, nofun⟩

theorem execute_hub {r : Request} {st : OperationState σ} {begun : Polled σ × OperationState σ}
    (started : e.execute r caller st = .ok begun) : st.world.hub.Publishes begun.2.world.hub := by
  unfold execute at started
  split at started
  · cases started
  · split at started
    · cases started
    · cases started
      exact (performs_begin _ _ st).world.hub

theorem moves_execute (e : Engine σ) (d : Dealings σ) (r : Request) (caller : Caller)
    (operation : Nat) (c : Coordinator) :
    d.Moves (d.begun (e.beginRequest r caller ⟨operation, c, d.world⟩)).2
      (d.begun (e.beginRequest r caller ⟨operation, c, d.world⟩)).1 := by
  unfold beginRequest
  split
  · exact d.rests_begun rfl (.refl _) nofun
  · next begun started =>
    obtain ⟨none, world, shown⟩ := reviewExecution_rests caller begun
    exact d.rests_begun none (world ▸ .publishes (execute_hub started)) shown

theorem moves_poll (e : Engine σ) (d : Dealings σ) {place : Nat} {u : Undertaking σ}
    (at' : d.undertakings[place]? = some u) :
    d.Moves ⟨d.undertakings.set place (e.pollUndertaking u d.world).2.1,
      (e.pollUndertaking u d.world).2.2⟩ (e.pollUndertaking u d.world).1 := by
  cases u with
  | executing caller operation x c =>
    obtain ⟨none, world, shown⟩ := reviewExecution_rests caller (e.poll caller x ⟨operation, c, d.world⟩)
    have publishes := (e.performs_poll caller x ⟨operation, c, d.world⟩).world.hub
    exact d.rests_set at' none (world ▸ .publishes publishes) shown
  | executed c => exact d.rests_set at' rfl (.refl _) nofun
  | gone => exact d.rests_set at' rfl (.refl _) nofun
  | settingUp plan operation deadline =>
    simp only [pollUndertaking]
    rcases e.pollSetup_hub plan operation deadline d.world with
      ⟨running, publishes⟩ | ⟨s, h, topic, filter, policy, ready, stage, publishes, made⟩
    · revert running publishes
      generalize e.pollSetup plan operation deadline d.world = r
      intro running publishes
      obtain ⟨phase, w⟩ := r
      cases phase with
      | waiting | failed => exact d.rests_set at' rfl (.publishes publishes) nofun
      | ready s => exact absurd rfl (running s)
    · revert ready made
      generalize e.pollSetup plan operation deadline d.world = r
      intro ready made
      obtain ⟨phase, w⟩ := r
      cases ready
      exact .registers (by rw [Dealings.stream?, at']; rfl) stage (d.stream?_set _ at' w) publishes made
  | streaming s =>
    have works := s.works_poll e d.world
    refine .polls (by rw [Dealings.stream?, at']; rfl) (d.stream?_set _ at' _) works ?_
    show ∀ id, (s.poll e d.world).1.show ≠ .subscribed id
    cases (s.poll e d.world).1 <;> exact nofun

theorem moves_act (e : Engine σ) (d : Dealings σ) {a : Act σ} (ordinary : a.Ordinary) :
    d.Moves (e.act d a).2 (e.act d a).1 := by
  have still : d.Moves d .ended := .rests (fun _ => rfl) (.refl _) nofun
  cases a with
  | execute r caller operation kept => exact e.moves_execute d r caller operation _
  | subscribe r caller operation =>
    rw [act]
    unfold beginSubscription
    split <;> exact d.rests_begun rfl (.refl _) nofun
  | poll place =>
    rw [act, Dealings.atPlace]
    split
    · next u at' => exact e.moves_poll d at'
    · exact still
  | drop place =>
    rw [act, Dealings.atPlace]
    split
    · next u at' =>
      cases u with
      | streaming s =>
        exact .drops (by rw [Dealings.stream?, at']; rfl) (d.stream?_set _ at' _) rfl nofun
      | executing | executed | settingUp | gone =>
        exact d.rests_set (r := (.ended, .gone, d.world)) at' rfl (.refl _) nofun
    · exact still
  | watch place =>
    rw [act, Dealings.atPlace]
    split
    · next u at' =>
      refine d.rests_set (r := (.pending, u, u.watch d.world)) at' rfl ?_ nofun
      cases u with
      | streaming s =>
        show d.world.hub.Sheds (s.watch d.world).hub
        unfold SubscriptionStream.watch
        split
        · exact .unsubscribe _ _ _
        · exact .refl _
      | executing | executed | settingUp | gone => exact .refl _
    · exact still
  | others change =>
    obtain ⟨deed, rfl, other⟩ := ordinary change rfl
    exact .rests (fun _ => rfl) (d.world.sheds_does other) nofun

end Engine

/-! ## Runs -/

namespace Dealings

/-- Every registration that was not there from the start is a stream's that has not ended, and no two
streams have the same. -/
structure Kept (old : Hub) (d : Dealings σ) : Prop where
  inOrder : d.world.hub.InOrder
  later : (old.broker World.node).sinks.length ≤ (d.world.hub.broker World.node).sinks.length
  given : ∀ place s, d.stream? place = some s →
    (old.broker World.node).sinks.length ≤ s.registration ∧
      s.registration < (d.world.hub.broker World.node).sinks.length
  own : ∀ i j s s', d.stream? i = some s → d.stream? j = some s' →
    s.registration = s'.registration → i = j
  accounted : ∀ id, d.world.hub.Files id → old.Files id ∨
    ∃ place s, d.stream? place = some s ∧ s.registration = id ∧ s.stage ≠ .ended

/-- A number that was given out and is not registered. -/
structure Spent (d : Dealings σ) (id : Nat) : Prop where
  given : id < (d.world.hub.broker World.node).sinks.length
  unfiled : ¬ d.world.hub.Files id

variable {d d' : Dealings σ} {old : Hub} {shown : Shown} {id : Nat}

/-- What all moves have in common. -/
theorem Moves.hub (m : d.Moves d' shown) (o : d.world.hub.InOrder) :
    d'.world.hub.InOrder ∧
      (d.world.hub.broker World.node).sinks.length ≤ (d'.world.hub.broker World.node).sinks.length ∧
      ∀ id, d'.world.hub.Files id → d.world.hub.Files id ∨
        id = (d.world.hub.broker World.node).sinks.length ∧ shown = .subscribed id := by
  cases m with
  | rests _ sheds =>
    exact ⟨sheds.inOrder o, sheds.broker.length.ge, fun id files => .inl (sheds.files o files)⟩
  | polls _ _ works =>
    have sheds := works.hub.sheds
    exact ⟨sheds.inOrder o, sheds.broker.length.ge, fun id files => .inl (sheds.files o files)⟩
  | @drops _ place s _ _ hub =>
    have sheds := Hub.Sheds.unsubscribe d.world.hub World.node s.registration
    rw [hub]
    exact ⟨sheds.inOrder o, sheds.broker.length.ge, fun id files => .inl (sheds.files o files)⟩
  | registers _ _ _ publishes made =>
    have published := Hub.Sheds.publishes publishes
    obtain ⟨inOrder, fresh, length, -, files⟩ := (published.inOrder o).subscribe made
    have same := published.broker.length
    refine ⟨inOrder, by omega, fun id at' => ?_⟩
    rcases (files id).mp at' with before | rfl
    · exact .inl (published.files o before)
    · exact .inr ⟨fresh.trans same, rfl⟩

/-- A subscription that has succeeded adds one registration to those that its resolver has left. -/
theorem Moves.registered (m : d.Moves d' shown) (o : d.world.hub.InOrder)
    (subscribed : shown = .subscribed id) : ¬ d.world.hub.Files id ∧
      ∃ h, d.world.hub.Publishes h ∧ ∀ other, d'.world.hub.Files other ↔ h.Files other ∨ other = id := by
  cases m with
  | rests _ _ quiet | polls _ _ _ quiet | drops _ _ _ quiet => exact absurd subscribed (quiet id)
  | registers _ _ _ publishes made =>
    cases subscribed
    have published := Hub.Sheds.publishes publishes
    obtain ⟨-, fresh, -, -, files⟩ := (published.inOrder o).subscribe made
    refine ⟨fun at' => ?_, _, publishes, files⟩
    have := o.broker.below at'
    have := published.broker.length
    omega

/-- What is gone stays gone. -/
theorem Moves.spent (m : d.Moves d' shown) (o : d.world.hub.InOrder) (spent : d.Spent id) :
    d'.Spent id := by
  obtain ⟨-, longer, files⟩ := m.hub o
  refine ⟨spent.given.trans_le longer, fun at' => ?_⟩
  rcases files id at' with before | ⟨new, -⟩
  · exact spent.unfiled before
  · exact absurd spent.given (by omega)

/-- Each stream was there before, with the same registration. -/
theorem Kept.of_streams (k : Kept old d) (inOrder : d'.world.hub.InOrder)
    (longer : (d.world.hub.broker World.node).sinks.length ≤
      (d'.world.hub.broker World.node).sinks.length)
    (streams : ∀ place s', d'.stream? place = some s' →
      ∃ s, d.stream? place = some s ∧ s'.registration = s.registration)
    (accounted : ∀ id, d'.world.hub.Files id → old.Files id ∨
      ∃ place s, d'.stream? place = some s ∧ s.registration = id ∧ s.stage ≠ .ended) :
    Kept old d' where
  inOrder := inOrder
  later := k.later.trans longer
  given place s' at' := by
    obtain ⟨s, before, same⟩ := streams place s' at'
    rw [same]
    exact ⟨(k.given place s before).1, (k.given place s before).2.trans_le longer⟩
  own i j s s' at₁ at₂ same := by
    obtain ⟨t, before₁, same₁⟩ := streams i s at₁
    obtain ⟨t', before₂, same₂⟩ := streams j s' at₂
    exact k.own i j t t' before₁ before₂ (same₁.symm.trans (same.trans same₂))
  accounted := accounted

/-- Nobody new is registered, unless it is shown. -/
theorem Moves.fewer (m : d.Moves d' shown) (o : d.world.hub.InOrder)
    (quiet : ∀ id, shown ≠ .subscribed id) (files : d'.world.hub.Files id) : d.world.hub.Files id :=
  ((m.hub o).2.2 id files).resolve_right fun new => quiet id new.2

theorem Moves.kept (m : d.Moves d' shown) (k : Kept old d) : Kept old d' := by
  have common := m.hub k.inOrder
  cases m with
  | rests streams sheds quiet =>
    refine k.of_streams common.1 common.2.1 (fun place s at' => ⟨s, streams place ▸ at', rfl⟩) ?_
    intro id files
    obtain same | ⟨place, s, at', owns⟩ := k.accounted id (sheds.files k.inOrder files)
    · exact .inl same
    · exact .inr ⟨place, s, (streams place).trans at', owns⟩
  | @polls _ place s s' here streams works quiet =>
    have registration : s'.registration = s.registration := by rw [works.same]
    refine k.of_streams common.1 common.2.1 (fun other t at' => ?_) fun id files => ?_
    · rw [streams] at at'
      split at at'
      · next same =>
        cases at'
        exact ⟨s, same ▸ here, registration⟩
      · exact ⟨t, at', rfl⟩
    · obtain same | ⟨other, t, at', owns, running⟩ :=
        k.accounted id (works.hub.sheds.files k.inOrder files)
      · exact .inl same
      · by_cases same : other = place
        · subst same
          cases here.symm.trans at'
          refine .inr ⟨other, s', (streams other).trans (if_pos rfl), registration.trans owns, ?_⟩
          exact fun ended => works.unfiled k.inOrder running ended (owns ▸ files)
        · exact .inr ⟨other, t, ((streams other).trans (if_neg same)).trans at', owns, running⟩
  | @drops _ place s here streams hub quiet =>
    refine k.of_streams common.1 common.2.1 (fun other t at' => ?_) fun id files => ?_
    · rw [streams] at at'
      split at at'
      · cases at'
      · exact ⟨t, at', rfl⟩
    · rw [hub] at files
      obtain ⟨ne, before⟩ := k.inOrder.files_unsubscribe.mp files
      obtain same | ⟨other, t, at', owns, running⟩ := k.accounted id before
      · exact .inl same
      · have elsewhere : other ≠ place := by
          rintro rfl
          cases here.symm.trans at'
          exact ne owns.symm
        exact .inr ⟨other, t, ((streams other).trans (if_neg elsewhere)).trans at', owns, running⟩
  | @registers place s h topic filter policy vacant stage streams publishes made =>
    have published := Hub.Sheds.publishes publishes
    obtain ⟨-, fresh, length, -, files⟩ := (published.inOrder k.inOrder).subscribe made
    have next := fresh.trans published.broker.length
    have later := k.later
    constructor
    · exact common.1
    · exact k.later.trans common.2.1
    · intro other t at'
      rw [streams] at at'
      split at at'
      · cases at'
        omega
      · have := k.given other t at'
        omega
    · intro i j t t' at₁ at₂ same
      rw [streams] at at₁ at₂
      split at at₁
      · split at at₂
        · next i' j' => exact i'.trans j'.symm
        · cases at₁
          have := k.given j t' at₂
          omega
      · split at at₂
        · cases at₂
          have := k.given i t at₁
          omega
        · exact k.own i j t t' at₁ at₂ same
    · intro id at'
      rcases (files id).mp at' with before | rfl
      · obtain same | ⟨other, t, there, owns⟩ := k.accounted id (published.files k.inOrder before)
        · exact .inl same
        · have elsewhere : other ≠ place := by
            rintro rfl
            cases vacant.symm.trans there
          exact .inr ⟨other, t, ((streams other).trans (if_neg elsewhere)).trans there, owns⟩
      · refine .inr ⟨place, s, (streams place).trans (if_pos rfl), rfl, ?_⟩
        rw [stage]
        exact nofun

/-- No stream that has ended is registered, as no other stream has its number. -/
theorem Kept.unfiled (k : Kept old d) (o : old.InOrder) {place : Nat} {s : SubscriptionStream σ}
    (at' : d.stream? place = some s) (ended : s.stage = .ended) :
    ¬ d.world.hub.Files s.registration := by
  intro files
  obtain before | ⟨other, t, there, same, running⟩ := k.accounted _ files
  · have := o.broker.below before
    have := k.given place s at'
    omega
  · obtain rfl := k.own other place t s there at' same
    cases at'.symm.trans there
    exact running ended

variable {e : Engine σ}

theorem kept_start (w : World σ) (o : w.hub.InOrder) : Kept w.hub ⟨[], w⟩ where
  inOrder := o
  later := Nat.le_refl _
  given _ _ at' := by cases at'
  own _ _ _ _ at' := by cases at'
  accounted _ files := .inl files

theorem Kept.deal (k : Kept old d) {acts : List (Act σ)} (ordinary : ∀ a ∈ acts, a.Ordinary) :
    Kept old (e.deal d acts).2 := by
  induction acts generalizing d with
  | nil => exact k
  | cons a acts ih =>
    have first := (e.moves_act d (ordinary a List.mem_cons_self)).kept k
    exact ih first fun b mem => ordinary b (List.mem_cons_of_mem _ mem)

theorem Spent.deal (spent : d.Spent id) (o : d.world.hub.InOrder) {acts : List (Act σ)}
    (ordinary : ∀ a ∈ acts, a.Ordinary) : (e.deal d acts).2.Spent id := by
  induction acts generalizing d with
  | nil => exact spent
  | cons a acts ih =>
    have moves := e.moves_act d (ordinary a List.mem_cons_self)
    exact ih (moves.spent o spent) (moves.hub o).1 fun b mem => ordinary b (List.mem_cons_of_mem _ mem)

/-- A registration that is not in the broker, whatever is done later. -/
def Gone (e : Engine σ) (d : Dealings σ) (id : Nat) : Prop :=
  ∀ later : List (Act σ), (∀ a ∈ later, a.Ordinary) → ¬ (e.deal d later).2.world.hub.Files id

theorem Spent.gone (spent : d.Spent id) (o : d.world.hub.InOrder) (e : Engine σ) : d.Gone e id :=
  fun _ ordinary => (spent.deal o ordinary).unfiled

/-- What becomes of the registration of a stream, and of those of others. -/
structure Owns (e : Engine σ) (d : Dealings σ) (place : Nat) (s : SubscriptionStream σ) : Prop where
  ended : s.stage = .ended → d.Gone e s.registration
  dropped : (e.act d (.drop place)).2.Gone e s.registration
  cancelled : d.world.signals.isCancelled s.operation = true →
    (e.act d (.watch place)).2.Gone e s.registration
  spares : ∀ other, other ≠ s.registration →
    ((e.act d (.drop place)).2.world.hub.Files other ↔ d.world.hub.Files other) ∧
    ((e.act d (.watch place)).2.world.hub.Files other ↔ d.world.hub.Files other)
  handles : d.world.hub.Handled s.registration (e.act d (.poll place)).2.world.hub

theorem stream?_eq {place : Nat} {s : SubscriptionStream σ} :
    d.stream? place = some s ↔ d.undertakings[place]? = some (.streaming s) := by
  unfold Dealings.stream?
  cases d.undertakings[place]? with
  | none => simp
  | some u => cases u <;> simp [Undertaking.stream?]

theorem Kept.owns (k : Kept old d) (o : old.InOrder) {place : Nat} {s : SubscriptionStream σ}
    (at' : d.stream? place = some s) : d.Owns e place s := by
  have streaming := stream?_eq.mp at'
  have given := (k.given place s at').2
  have dropped : (e.act d (.drop place)).2.world.hub =
      d.world.hub.unsubscribe World.node s.registration := by
    rw [Engine.act, Dealings.atPlace, streaming]
    rfl
  have watched : (e.act d (.watch place)).2.world = s.watch d.world := by
    rw [Engine.act, Dealings.atPlace, streaming]
    rfl
  have released : ∀ {d' : Dealings σ}, d'.world.hub = d.world.hub.unsubscribe World.node s.registration →
      d'.Gone e s.registration := by
    intro d' hub
    have sheds := Hub.Sheds.unsubscribe d.world.hub World.node s.registration
    have spent : d'.Spent s.registration := by
      refine ⟨?_, ?_⟩
      · rw [hub, sheds.broker.length]
        exact given
      · rw [hub, k.inOrder.files_unsubscribe]
        exact fun files => files.1 rfl
    exact spent.gone (hub ▸ sheds.inOrder k.inOrder) e
  constructor
  · exact fun ended => Spent.gone ⟨given, k.unfiled o at' ended⟩ k.inOrder e
  · exact released dropped
  · intro cancelled
    refine released ?_
    rw [watched, SubscriptionStream.watch, if_pos cancelled]
  · intro other ne
    have spares : (d.world.hub.unsubscribe World.node s.registration).Files other ↔
        d.world.hub.Files other := k.inOrder.files_unsubscribe.trans (and_iff_right ne)
    refine ⟨by rw [dropped]; exact spares, ?_⟩
    rw [watched, SubscriptionStream.watch]
    split
    · exact spares
    · exact Iff.rfl
  · have polled : (e.act d (.poll place)).2.world = (s.poll e d.world).2.2 := by
      rw [Engine.act, Dealings.atPlace, streaming]
      rfl
    rw [polled]
    exact (s.works_poll e d.world).hub

end Dealings

/-! ## The contract -/

/-- Registrations are those of streams.  Let callers execute, subscribe, poll, drop and cancel in any
order, while others publish, shut the brokers down and let the background run.  At any time, whoever is
registered and was not from the start is a stream that has not ended, and no two streams share a
registration.  No act adds a registration but the poll that shows that a subscription has succeeded;
that one adds one to those that its resolver's events have left.  The registration of a stream is gone
for good once the stream has ended or was dropped, or once the background has run after it was
cancelled; to drop it and to release it when it is cancelled leaves all others registered, and to poll
it takes one away only by an event that a resolver publishes. -/
theorem registrations_released (e : Engine σ) (w : World σ) (inOrder : w.hub.InOrder)
    (acts : List (Act σ)) (ordinary : ∀ a ∈ acts, a.Ordinary) {d : Dealings σ}
    (reached : (e.deal ⟨[], w⟩ acts).2 = d) :
    (∀ id, d.world.hub.Files id → w.hub.Files id ∨
      ∃ place s, d.stream? place = some s ∧ s.registration = id ∧ s.stage ≠ .ended) ∧
    (∀ i j s s', d.stream? i = some s → d.stream? j = some s' →
      s.registration = s'.registration → i = j) ∧
    (∀ a, a.Ordinary → (∀ id, (e.act d a).1 ≠ .subscribed id) →
      ∀ id, (e.act d a).2.world.hub.Files id → d.world.hub.Files id) ∧
    (∀ a id, a.Ordinary → (e.act d a).1 = .subscribed id → ¬ d.world.hub.Files id ∧
      ∃ h, d.world.hub.Publishes h ∧
        ∀ other, (e.act d a).2.world.hub.Files other ↔ h.Files other ∨ other = id) ∧
    (∀ place s, d.stream? place = some s → d.Owns e place s) ∧
    ∀ h h' own other, h.InOrder → Hub.Handles own h h' → other ≠ own →
      (h'.Files other ↔ h.Files other) ∨ ∃ topic event, h' = h.publish World.node topic event := by
  obtain rfl := reached
  have kept := (Dealings.kept_start w inOrder).deal (e := e) ordinary
  refine ⟨kept.accounted, kept.own, fun a usual quiet id files => ?_, fun a id usual shown => ?_,
    fun place s at' => kept.owns inOrder at', fun h h' own other o handles ne => o.spares handles ne⟩
  · exact (e.moves_act _ usual).fewer kept.inOrder quiet files
  · exact (e.moves_act _ usual).registered kept.inOrder shown

/-! ## Two streams of sales -/

namespace Sales

def request : Request := ⟨none, .subscription, [field]⟩

def deed (deed : Deed) : Act Unit := .others (·.does deed)

/-- Two subscriptions are set up, each with a signal; the second is cancelled. -/
def both : List (Act Unit) :=
  [deed (.signal .create), .subscribe request Sample.caller 0, .poll 0,
    deed (.signal .create), .subscribe request Sample.caller 1, .poll 1,
    deed (.publish 0 "sales" (.obj [])), deed (.signal (.cancel 1 .cancelled))]

def standing : Dealings Unit := (engine.deal ⟨[], .start default ()⟩ both).2

theorem registrations_released_both :
    standing.world.hub.Files 0 ∧ standing.world.hub.Files 1 ∧
    (engine.act standing (.drop 0)).2.Gone engine 0 ∧
    (engine.act standing (.drop 0)).2.world.hub.Files 1 ∧
    (engine.act standing (.watch 1)).2.Gone engine 1 ∧
    (engine.act standing (.watch 1)).2.world.hub.Files 0 := by
  have ordinary : ∀ a ∈ both, a.Ordinary := by
    have others : ∀ d : Deed, (∀ node topic filter policy, d ≠ .subscribe node topic filter policy) →
        (deed d).Ordinary := by
      rintro d other _ ⟨⟩
      exact ⟨d, rfl, other⟩
    have callers : ∀ a : Act Unit, (∀ change, a ≠ .others change) → a.Ordinary :=
      fun a other change same => absurd same (other change)
    simp only [both, List.forall_mem_cons]
    refine ⟨others _ nofun, callers _ nofun, callers _ nofun, others _ nofun, callers _ nofun,
      callers _ nofun, others _ nofun, others _ nofun, ?_⟩
    exact fun _ mem => absurd mem List.not_mem_nil
  have hosts : (World.start default () : World Unit).hub.Hosts World.node := nofun
  obtain ⟨-, -, -, -, owns, -⟩ := registrations_released engine (.start default ())
    ⟨hosts, InProcessBroker.inOrder_new⟩ both ordinary (d := standing) rfl
  have first : standing.stream? 0 = some stream := by rfl
  have second : standing.stream? 1 = some { stream with registration := 1, operation := 1 } := by rfl
  have cancelled : standing.world.signals.isCancelled 1 = true := by rfl
  have topics : (standing.world.hub.broker World.node).topics = [(0, "sales"), (1, "sales")] := by rfl
  have files : ∀ id, List.lookup id [(0, "sales"), (1, "sales")] ≠ none →
      standing.world.hub.Files id := fun id listed => .inl (by rwa [topics])
  have one := owns 0 _ first
  have two := owns 1 _ second
  exact ⟨files 0 nofun, files 1 nofun, one.dropped, (one.spares 1 (by decide)).1.mpr (files 1 nofun),
    two.cancelled cancelled, (two.spares 0 (by decide)).2.mpr (files 0 nofun)⟩

end Sales

end GraphQLEngine
