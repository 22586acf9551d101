import GraphQLEngine.Engine.Subscribe
import GraphQLEngine.Proofs.Brokers.Turns
import GraphQLEngine.Proofs.Cancellation.Stopping

/-!
# Around a registration

While nobody receives on a registration, others are at work in its world: events are published,
subscribers come and go, operations are executed and cancelled, other streams are polled.  To the
registration all this is a run of moves of its sink, in which its receiver has no part; and a signal
that is set stays set.

    w.Around id (w.does deed)
    w.Around id (e.poll caller x st).2.world                              where st.world = w
    w.Around id (s.poll e w).2.2                                          if s.registration ≠ id
-/

namespace GraphQLEngine

variable {σ : Type}

/-- What a world becomes while nobody receives on a registration. -/
structure World.Around (id : Nat) (w w' : World σ) : Prop where
  hub : Hub.Turns World.node id w.hub w'.hub
  signals : ∀ n, w.signals.isCancelled n = true → w'.signals.isCancelled n = true

namespace World.Around

variable {id : Nat} {w w' w'' : World σ}

theorem refl (id : Nat) (w : World σ) : w.Around id w := ⟨.refl _ _ _, fun _ set => set⟩

theorem trans (a : w.Around id w') (a' : w'.Around id w'') : w.Around id w'' :=
  ⟨a.hub.trans a'.hub, fun n set => a'.signals n (a.signals n set)⟩

/-- No signal is set. -/
theorem of_turns (turns : Hub.Turns World.node id w.hub w'.hub)
    (signals : w'.signals = w.signals) : w.Around id w' :=
  ⟨turns, by rw [signals]; exact fun _ set => set⟩

end World.Around

/-! ## Deeds -/

/-- A signal that is set stays set. -/
theorem Signals.isCancelled_act (s : Signals) (a : SignalAct) (n : Nat)
    (set : s.isCancelled n = true) : (s.act a).isCancelled n = true := by
  obtain ⟨reason, given⟩ := Option.isSome_iff_exists.mp set
  have made : n < s.next := by
    by_contra out
    rw [reason?, List.getElem?_eq_none (Nat.le_of_not_lt out)] at given
    cases given
  unfold isCancelled
  rw [(s.reason_act made a).2, given]
  rfl

/-- What may be done in a world from outside. -/
inductive Deed where
  | subscribe (node : Nat) (topic : String) (filter : EventFilter) (policy : DeliveryPolicy)
  | publish (node : Nat) (topic : String) (event : Json)
  | unsubscribe (node id : Nat)
  | receive (node id : Nat)
  | shutdown (node : Nat)
  /-- The background work of the brokers is done. -/
  | settle
  | signal (act : SignalAct)
  | advance (ms : Nat)

namespace World

def does (w : World σ) : Deed → World σ
  | .subscribe node topic filter policy =>
    match w.hub.subscribe node topic filter policy with
    | .ok (hub, _) => { w with hub }
    | .error _ => w
  | .publish node topic event => { w with hub := w.hub.publish node topic event }
  | .unsubscribe node id => { w with hub := w.hub.unsubscribe node id }
  | .receive node id => { w with hub := (w.hub.receive node id).1 }
  | .shutdown node => { w with hub := w.hub.shutdown node }
  | .settle => { w with hub := w.hub.settle }
  | .signal act => { w with signals := w.signals.act act }
  | .advance ms => { w with clock := w.clock + ms }

variable {id : Nat}

/-- All that is done leaves a registration alone, unless it is to receive on it. -/
theorem around_does (w : World σ) (deed : Deed) (foreign : ∀ node, deed = .receive node id →
      node ≠ World.node ∧ ∃ network, w.hub = .network network) : w.Around id (w.does deed) := by
  cases deed with
  | subscribe node topic filter policy =>
    unfold does
    simp only
    split
    · next ok => exact .of_turns (Hub.turns_subscribe _ _ ok) rfl
    · exact .refl id w
  | publish node topic event => exact .of_turns (Hub.turns_publish _ _ _ _ _ _) rfl
  | unsubscribe node other => exact .of_turns (Hub.turns_unsubscribe _ _ _ _ _) rfl
  | receive node other =>
    refine .of_turns ?_ rfl
    by_cases same : id = other
    · subst same
      obtain ⟨elsewhere, network, hub⟩ := foreign node rfl
      show Hub.Turns World.node id w.hub (w.hub.receive node id).1
      rw [hub]
      exact Hub.turns_receive_elsewhere network elsewhere
    · exact Hub.turns_receive _ _ same
  | shutdown node => exact .of_turns (Hub.turns_shutdown _ _ _ _) rfl
  | settle => exact .of_turns (Hub.turns_settle _ _ _) rfl
  | signal act => exact ⟨.refl _ _ _, fun n => w.signals.isCancelled_act act n⟩
  | advance ms => exact .of_turns (.refl _ _ _) rfl

end World

/-! ## Effects -/

/-- What becomes of a hub on whose node events are published. -/
def Hub.Publishes : Hub → Hub → Prop :=
  Relation.ReflTransGen fun h h' => ∃ topic event, h' = h.publish World.node topic event

theorem Hub.Publishes.turns {h h' : Hub} (p : h.Publishes h') (id : Nat) :
    Hub.Turns World.node id h h' := by
  induction p with
  | refl => exact .refl _ _ _
  | tail _ step ih =>
    obtain ⟨topic, event, rfl⟩ := step
    exact ih.trans (Hub.turns_publish _ _ _ _ _ _)

/-- What resolvers make of a world by their effects. -/
structure World.Performs (w w' : World σ) : Prop where
  hub : w.hub.Publishes w'.hub
  signals : ∀ n, w.signals.isCancelled n = true → w'.signals.isCancelled n = true

namespace World.Performs

variable {w w' w'' : World σ}

theorem refl (w : World σ) : w.Performs w := ⟨.refl, fun _ set => set⟩

theorem trans (p : w.Performs w') (p' : w'.Performs w'') : w.Performs w'' :=
  ⟨p.hub.trans p'.hub, fun n set => p'.signals n (p.signals n set)⟩

/-- The hub and the signals are left alone. -/
theorem of_same (hub : w'.hub = w.hub) (signals : w'.signals = w.signals) : w.Performs w' :=
  ⟨by rw [hub]; exact .refl, by rw [signals]; exact fun _ set => set⟩

theorem around (p : w.Performs w') (id : Nat) : w.Around id w' := ⟨p.hub.turns id, p.signals⟩

end World.Performs

theorem World.performs_absorb (w : World σ) (s : Scope σ) : w.Performs (w.absorb s) := by
  refine w.absorb_induction (P := w.Performs) s (.of_same rfl rfl) fun {w'} effect performed => ?_
  refine performed.trans ?_
  cases effect with
  | publish topic event => exact ⟨.single ⟨topic, event, rfl⟩, fun _ set => set⟩
  | cancelLatest reason => exact ⟨.refl, fun n => w'.signals.isCancelled_act (.cancel _ reason) n⟩
  | load => exact .refl w'

/-! ## Executions -/

namespace OperationState

/-- What an operation makes of the world, it does by effects. -/
structure Performs (st st' : OperationState σ) : Prop where
  operation : st'.operation = st.operation
  world : st.world.Performs st'.world

/-- What an operation makes of the world is done around a registration. -/
structure Drifts (id : Nat) (st st' : OperationState σ) : Prop where
  operation : st'.operation = st.operation
  around : st.world.Around id st'.world

theorem Performs.drifts {st st' : OperationState σ} (p : st.Performs st') (id : Nat) :
    st.Drifts id st' :=
  ⟨p.operation, p.world.around id⟩

theorem performs_resolves : Resolves fun st st' : OperationState σ => st.Performs st' where
  refl st := ⟨rfl, .refl st.world⟩
  trans p p' := ⟨p'.operation.trans p.operation, p.world.trans p'.world⟩
  absorb st _ s := ⟨rfl, st.world.performs_absorb s⟩
  record _ _ := ⟨rfl, .of_same rfl rfl⟩

theorem performs_endures {e : Engine σ} : Endures e fun st st' => st.Performs st' :=
  performs_resolves.endures fun _ _ _ => ⟨rfl, .of_same rfl rfl⟩

end OperationState

open OperationState

namespace Engine

variable {e : Engine σ} {caller : Caller}

theorem performs_begin (g : Graph) (runs : List (List Task)) (st : OperationState σ) :
    st.Performs (e.begin caller g runs st).2 := by
  obtain ⟨m, steps, stands⟩ := @begin_steps σ e caller .free 0 g runs st
  exact stands.state ▸ steps.endures performs_endures

/-- A poll is made of steps from where the execution was suspended. -/
theorem steps_of_poll (e : Engine σ) (caller : Caller) (x : Execution σ) (st : OperationState σ) :
    ∃ m m' : Moment σ, m.Comes (.suspended x.graph x.stage, st) ∧ e.Steps caller .free 0 m m' ∧
      m'.Stands (e.poll caller x st) := by
  obtain ⟨g, stage, remaining⟩ := x
  obtain ⟨m, comes, rest, polls⟩ : ∃ m : Moment σ, m.Comes (.suspended g stage, st) ∧
      m.remaining = remaining ∧ stage.Polls .free := by
    cases stage with
    | resolving levels calls =>
      exact ⟨⟨[], remaining, .resolving levels (.new 0 0 g [] st.coordinator) g calls, st⟩,
        .resolving, rfl, trivial⟩
    | fetching levels calls values batches =>
      exact ⟨⟨[], remaining, .fetching levels (.new 0 0 g [] st.coordinator) g calls values batches,
        st⟩, .fetching, rfl, trivial⟩
  obtain ⟨m', steps, stands⟩ := @poll_steps σ e caller .free 0 m g stage st comes polls
  exact ⟨m, m', comes, steps, rest ▸ stands⟩

theorem performs_poll (e : Engine σ) (caller : Caller) (x : Execution σ) (st : OperationState σ) :
    st.Performs (e.poll caller x st).2 := by
  obtain ⟨m, m', comes, steps, stands⟩ := e.steps_of_poll caller x st
  have performs : m.state.Performs m'.state := steps.endures performs_endures
  rwa [comes.state, stands.state] at performs

theorem drifts_poll (e : Engine σ) (caller : Caller) (id : Nat) (x : Execution σ)
    (st : OperationState σ) : st.Drifts id (e.poll caller x st).2 :=
  (e.performs_poll caller x st).drifts id

theorem performs_executeEvent {s : SubscriptionStream σ} {event : Json} {w : World σ}
    {r : Polled σ × OperationState σ} (started : e.executeEvent s event w = .ok r) :
    r.2.operation = s.operation ∧ w.Performs r.2.world := by
  unfold executeEvent at started
  split at started
  · cases started
  · cases started
    have performs := @performs_begin σ e s.caller
    exact ⟨(performs _ _ _).operation, (performs _ _ ⟨s.operation, e.coordinator, w⟩).world⟩

theorem drifts_executeEvent {s : SubscriptionStream σ} {event : Json} {w : World σ}
    {r : Polled σ × OperationState σ} (started : e.executeEvent s event w = .ok r) (id : Nat) :
    r.2.operation = s.operation ∧ w.Around id r.2.world :=
  ⟨(performs_executeEvent started).1, (performs_executeEvent started).2.around id⟩

end Engine

/-! ## Streams -/

namespace SubscriptionStream

variable {e : Engine σ} {id : Nat}

theorem around_finish (s : SubscriptionStream σ) (w : World σ) :
    w.Around id (s.finish w).2.2 :=
  .of_turns (Hub.turns_unsubscribe _ _ _ _ _) rfl

theorem around_afterEvent (s : SubscriptionStream σ) (r : Polled σ × OperationState σ) :
    r.2.world.Around id (s.afterEvent r).2.2 := by
  obtain ⟨p, st⟩ := r
  cases p with
  | suspended | completed => exact .refl id _
  | stopped => exact s.around_finish st.world

/-- Another stream is polled. -/
theorem around_poll (s : SubscriptionStream σ) (w : World σ) (other : s.registration ≠ id) :
    w.Around id (s.poll e w).2.2 := by
  unfold poll
  split
  · exact .refl id w
  · exact s.around_finish w
  · next x c _ =>
    exact (e.drifts_poll s.caller id x ⟨s.operation, c, w⟩).around.trans (s.around_afterEvent _)
  · split
    · exact s.around_finish w
    · have received : w.Around id { w with hub := (w.hub.receive World.node s.registration).1 } :=
        .of_turns (Hub.turns_receive _ _ other.symm) rfl
      simp only
      split
      · exact received
      · exact received.trans (s.around_finish _)
      · exact received
      · split
        · exact received
        · next r started =>
          have ran := (Engine.drifts_executeEvent started id).2
          exact received.trans (ran.trans (s.around_afterEvent r))

end SubscriptionStream

end GraphQLEngine
