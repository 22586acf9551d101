import GraphQLEngine.Proofs.Subscriptions.Surroundings

/-!
# The lives of subscription streams

A stream is polled at any time, and between its polls anything is done around its registration.
What the registration delivers is what its sink answers; once the sink is not open, that is what was
left in it and then the end.  A stream that is cancelled, or has ended, gives nothing more; one whose
sink is not open ends, if it is polled whenever a resolver or a fetch that it waits for is due.

    l.Reaches e l'  →  l'.taken = l.taken ++ s.answers moves ∧ l'.sink? = some (s.run moves)
    s.status ≠ .active  →  l.Concludes e                                    where l.sink? = some s
-/

namespace GraphQLEngine

variable {σ : Type}

namespace Hub

/-- The sink of a registration. -/
def sink? (h : Hub) (node id : Nat) : Option Sink := (h.broker node).sinks[id]?

variable {h h' : Hub} {node id : Nat} {s : Sink}

theorem Turns.sink (t : Turns node id h h') (kept : h.sink? node id = some s) :
    ∃ s', h'.sink? node id = some s' ∧ s.Turns s' := t s kept

/-- The hub has a broker for the node. -/
def Hosts (h : Hub) (node : Nat) : Prop := ∀ w, h = .network w → node < w.nodes.length

theorem hosts_of_sink (kept : h.sink? node id = some s) : h.Hosts node := by
  rintro w rfl
  by_contra out
  simp [sink?, broker, List.getElem?_eq_none (Nat.le_of_not_lt out), InProcessBroker.new] at kept

theorem broker_setBroker (hosts : h.Hosts node) (b : InProcessBroker) :
    (h.setBroker node b).broker node = b := by
  cases h with
  | single => rfl
  | network w =>
    simp [setBroker, broker, Network.modifyNode, List.getElem?_eq_getElem (hosts w rfl)]

theorem Hosts.publish (hosts : h.Hosts node) (i : Nat) (topic : String) (event : Json) :
    (h.publish i topic event).Hosts node := by
  cases h with
  | single => exact nofun
  | network w =>
    rintro _ ⟨⟩
    rw [Network.nodes_publish, Network.modifyNode, List.length_modify]
    exact hosts w rfl

/-- A new registration has a new sink. -/
theorem sink_subscribe (hosts : h.Hosts node) {topic : String} {filter : EventFilter}
    {policy : DeliveryPolicy} (ok : h.subscribe node topic filter policy = .ok (h', id)) :
    h'.sink? node id = some (.new policy) := by
  unfold subscribe at ok
  split at ok
  · cases ok
  · next made =>
    cases ok
    obtain ⟨-, -, rfl, -⟩ := InProcessBroker.subscribe_ok made
    rw [sink?, broker_setBroker hosts, InProcessBroker.sinks_subscribe made]
    exact List.getElem?_concat_length

/-- To receive is to take from the sink of the registration. -/
theorem receive_kept (kept : h.sink? node id = some s) :
    (h.receive node id).2 = s.receive.2 ∧
      (h.receive node id).1.sink? node id = some s.receive.1 := by
  have below : id < (h.broker node).sinks.length := (List.getElem?_eq_some_iff.mp kept).1
  have taken := InProcessBroker.receive_kept kept
  refine ⟨congrArg Prod.snd taken, ?_⟩
  show ((h.setBroker node ((h.broker node).receive id).1).broker node).sinks[id]? = _
  rw [broker_setBroker (hosts_of_sink kept), taken]
  exact List.getElem?_set_self below

end Hub

/-- What a poll gave, if it was a response. -/
def StreamItem.response? : StreamItem → Option Response
  | .response r => some r
  | _ => none

/-! ## Lives -/

/-- A stream in its world, and what has come of its polls. -/
structure Life (σ : Type) where
  stream : SubscriptionStream σ
  world : World σ
  /-- What its registration delivered. -/
  taken : List Received
  given : List Response
  /-- What its executions logged. -/
  work : List LogEntry

namespace Life

/-- A stream that has not been polled. -/
def start (s : SubscriptionStream σ) (w : World σ) : Life σ := ⟨s, w, [], [], []⟩

def Cancelled (l : Life σ) : Prop := l.world.signals.isCancelled l.stream.operation = true

def sink? (l : Life σ) : Option Sink := l.world.hub.sink? World.node l.stream.registration

/-- The events and the report that the registration delivered. -/
def items (l : Life σ) : List Received := l.taken.filter (·.isItem)

/-- What the registration delivers to a stream that listens. -/
def delivery (l : Life σ) : Received := (l.world.hub.receive World.node l.stream.registration).2

/-- What a poll takes from the registration. -/
def takes (l : Life σ) : List Received :=
  match l.stream.stage with
  | .listening => if l.world.signals.isCancelled l.stream.operation then [] else [l.delivery]
  | _ => []

/-- The stream is polled. -/
def poll (e : Engine σ) (l : Life σ) : Life σ :=
  let r := l.stream.poll e l.world
  ⟨r.2.1, r.2.2, l.taken ++ l.takes, l.given ++ r.1.response?.toList,
    l.work ++ r.2.2.log.drop l.world.log.length⟩

/-- The stream is polled, or others are at work. -/
inductive Step (e : Engine σ) (l : Life σ) : Life σ → Prop
  | poll : Step e l (l.poll e)
  | around {w : World σ} : l.world.Around l.stream.registration w → Step e l { l with world := w }

def Reaches (e : Engine σ) : Life σ → Life σ → Prop := Relation.ReflTransGen (Step e)

theorem Reaches.poll {e : Engine σ} {l l' : Life σ} (h : l.Reaches e l') :
    l.Reaches e (l'.poll e) :=
  h.tail .poll

/-- Something is done by others, who do not receive. -/
def does (l : Life σ) (deed : Deed) : Life σ := { l with world := l.world.does deed }

theorem Reaches.does {e : Engine σ} {l l' : Life σ} (h : l.Reaches e l') (deed : Deed)
    (foreign : ∀ node id, deed ≠ .receive node id) : l.Reaches e (l'.does deed) :=
  h.tail (.around (l'.world.around_does deed fun node same => absurd same (foreign node _)))

/-! ## What a poll may do -/

/-- The delivery is taken. -/
def received (l : Life σ) : Life σ :=
  { l with
    world := { l.world with hub := (l.world.hub.receive World.node l.stream.registration).1 }
    taken := l.taken ++ [l.delivery] }

/-- The stream ends. -/
def leave (l : Life σ) : Life σ :=
  { l with
    stream := { l.stream with stage := .ended }
    world := (l.stream.release l.world).2 }

/-- An execution has run. -/
def ran (l : Life σ) (st : OperationState σ) : Life σ :=
  { l with world := st.world, work := l.work ++ st.world.log.drop l.world.log.length }

/-- The execution of an event has come to a point. -/
def come (l : Life σ) : Polled σ × OperationState σ → Life σ
  | (.suspended x, st) =>
    { l.ran st with stream := { l.stream with stage := .executing x st.coordinator } }
  | (.completed g, st) =>
    { l.ran st with
      stream := { l.stream with stage := .listening }
      given := l.given ++ [g.response] }
  | (.stopped _ _, st) => (l.ran st).leave

inductive Polls (e : Engine σ) (l : Life σ) : Life σ → Prop
  | still : l.stream.stage = .ended → Polls e l l
  | behind : l.stream.stage = .behind → Polls e l l.leave
  | cancelled : l.stream.stage = .listening → l.Cancelled → Polls e l l.leave
  | nothing : l.stream.stage = .listening → ¬ l.Cancelled → l.delivery = .nothing →
    Polls e l l.received
  | finished : l.stream.stage = .listening → ¬ l.Cancelled → l.delivery = .ended →
    Polls e l l.received.leave
  | overflow {capacity : Nat} : l.stream.stage = .listening → ¬ l.Cancelled →
    l.delivery = .overflow capacity →
    Polls e l { l.received with
      stream := { l.stream with stage := .behind }
      given := l.given ++ [fellBehindResponse] }
  | refused {event : Json} {response : Response} : l.stream.stage = .listening → ¬ l.Cancelled →
    l.delivery = .event event → e.executeEvent l.stream event l.received.world = .error response →
    Polls e l { l.received with given := l.given ++ [response] }
  | begun {event : Json} {r : Polled σ × OperationState σ} : l.stream.stage = .listening →
    ¬ l.Cancelled → l.delivery = .event event →
    e.executeEvent l.stream event l.received.world = .ok r → Polls e l (l.received.come r)
  | resumed {x : Execution σ} {c : Coordinator} : l.stream.stage = .executing x c →
    Polls e l (l.come (e.poll l.stream.caller x ⟨l.stream.operation, c, l.world⟩))

variable {e : Engine σ} {l l' l'' : Life σ}

/-- A poll that runs nothing. -/
theorem poll_idle {r : StreamItem × SubscriptionStream σ × World σ} {taken : List Received}
    (polled : l.stream.poll e l.world = r) (log : r.2.2.log = l.world.log)
    (takes : l.takes = taken) :
    l.poll e = ⟨r.2.1, r.2.2, l.taken ++ taken, l.given ++ r.1.response?.toList, l.work⟩ := by
  rw [poll, polled, takes, log, List.drop_length, List.append_nil]

/-- A poll that goes on with an execution. -/
theorem poll_runs {r : Polled σ × OperationState σ} {w : World σ} {taken : List Received}
    (polled : l.stream.poll e l.world = l.stream.afterEvent r) (log : w.log = l.world.log)
    (takes : l.takes = taken) :
    l.poll e = { l with world := w, taken := l.taken ++ taken }.come r := by
  rw [poll, polled, takes]
  obtain ⟨p, st⟩ := r
  cases p with
  | suspended | completed | stopped =>
    simp only [SubscriptionStream.afterEvent, SubscriptionStream.finish, StreamItem.response?,
      SubscriptionStream.release, Option.toList_none, Option.toList_some, List.append_nil, come,
      ran, leave, log]

/-- What a stream that listens does is for the delivery to say. -/
theorem poll_listening (stage : l.stream.stage = .listening) (running : ¬ l.Cancelled) :
    l.stream.poll e l.world = match l.delivery with
      | .nothing => (.pending, l.stream, l.received.world)
      | .ended => l.stream.finish l.received.world
      | .overflow _ =>
        (.response fellBehindResponse, { l.stream with stage := .behind }, l.received.world)
      | .event event =>
        match e.executeEvent l.stream event l.received.world with
        | .error response => (.response response, l.stream, l.received.world)
        | .ok r => l.stream.afterEvent r := by
  simp only [SubscriptionStream.poll, stage]
  exact if_neg running

theorem poll_executing {x : Execution σ} {c : Coordinator}
    (stage : l.stream.stage = .executing x c) :
    l.poll e = l.come (e.poll l.stream.caller x ⟨l.stream.operation, c, l.world⟩) := by
  rw [poll_runs (by rw [SubscriptionStream.poll, stage]) rfl (by rw [takes, stage])]
  simp only [List.append_nil]

/-- A poll does one of these things. -/
theorem polls_poll (e : Engine σ) (l : Life σ) : l.Polls e (l.poll e) := by
  cases stage : l.stream.stage with
  | ended =>
    have same : l.poll e = l := by
      rw [poll_idle (by rw [SubscriptionStream.poll, stage]) rfl (by rw [takes, stage])]
      simp [StreamItem.response?]
    exact same.symm ▸ .still stage
  | behind =>
    have left : l.poll e = l.leave := by
      rw [poll_idle (by rw [SubscriptionStream.poll, stage]) rfl (by rw [takes, stage])]
      simp [StreamItem.response?, leave, SubscriptionStream.finish, SubscriptionStream.release]
    exact left.symm ▸ .behind stage
  | executing x c =>
    exact poll_executing (e := e) stage ▸ .resumed stage
  | listening =>
    by_cases running : l.Cancelled
    · have left : l.poll e = l.leave := by
        have polled : l.stream.poll e l.world = l.stream.finish l.world := by
          rw [SubscriptionStream.poll, stage]
          exact if_pos running
        have takes : l.takes = [] := by
          rw [takes, stage]
          exact if_pos running
        rw [poll_idle polled rfl takes]
        simp [StreamItem.response?, leave, SubscriptionStream.finish, SubscriptionStream.release]
      exact left.symm ▸ .cancelled stage running
    · have polled := poll_listening (e := e) stage running
      have takes : l.takes = [l.delivery] := by
        rw [takes, stage]
        exact if_neg running
      cases delivered : l.delivery with
      | ended =>
        have left : l.poll e = l.received.leave := by
          rw [delivered] at polled
          rw [poll_idle polled rfl takes]
          simp [StreamItem.response?, leave, received, SubscriptionStream.finish,
            SubscriptionStream.release]
        exact left.symm ▸ .finished stage running delivered
      | nothing =>
        have same : l.poll e = l.received := by
          rw [delivered] at polled
          rw [poll_idle polled rfl takes]
          simp [StreamItem.response?, received]
        exact same.symm ▸ .nothing stage running delivered
      | overflow capacity =>
        have behind : l.poll e = { l.received with
            stream := { l.stream with stage := .behind }
            given := l.given ++ [fellBehindResponse] } := by
          rw [delivered] at polled
          rw [poll_idle polled rfl takes]
          simp [StreamItem.response?, received]
        exact behind.symm ▸ .overflow stage running delivered
      | event event =>
        rw [delivered] at polled
        cases begun : e.executeEvent l.stream event l.received.world with
        | error response =>
          have refused : l.poll e = { l.received with given := l.given ++ [response] } := by
            simp only [begun] at polled
            rw [poll_idle polled rfl takes]
            simp [StreamItem.response?, received]
          exact refused.symm ▸ .refused stage running delivered begun
        | ok r =>
          have come : l.poll e = l.received.come r := by
            simp only [begun] at polled
            exact poll_runs polled rfl takes
          exact come.symm ▸ .begun stage running delivered begun

/-! ## The sink of a life -/

theorem stream_come (l : Life σ) (r : Polled σ × OperationState σ) :
    (l.come r).stream = { l.stream with stage := (l.come r).stream.stage } := by
  obtain ⟨p, st⟩ := r
  cases p <;> rfl

theorem taken_come (l : Life σ) (r : Polled σ × OperationState σ) :
    (l.come r).taken = l.taken := by
  obtain ⟨p, st⟩ := r
  cases p <;> rfl

theorem around_leave (l : Life σ) {id : Nat} : l.world.Around id l.leave.world :=
  l.stream.around_finish l.world

theorem around_come (l : Life σ) (r : Polled σ × OperationState σ) {id : Nat} :
    r.2.world.Around id (l.come r).world := by
  obtain ⟨p, st⟩ := r
  cases p with
  | suspended | completed => exact .refl id _
  | stopped => exact (l.ran st).around_leave

/-- Only the stage of a stream changes. -/
theorem Polls.stream (h : l.Polls e l') :
    l'.stream = { l.stream with stage := l'.stream.stage } := by
  cases h with
  | begun => exact l.received.stream_come _
  | resumed => exact l.stream_come _
  | still | behind | cancelled | nothing | finished | overflow | refused => rfl

theorem Step.stream (h : l.Step e l') : l'.stream = { l.stream with stage := l'.stream.stage } := by
  cases h with
  | poll => exact (polls_poll e l).stream
  | around => rfl

/-- A poll takes at most one item from the registration, and leaves it alone else. -/
theorem Polls.taken (h : l.Polls e l') (id : Nat) :
    l.world.Around id l'.world ∧ l'.taken = l.taken ∨
      l.received.world.Around id l'.world ∧ l'.taken = l.received.taken := by
  cases h with
  | still => exact .inl ⟨.refl id _, rfl⟩
  | behind | cancelled => exact .inl ⟨l.around_leave, rfl⟩
  | nothing | overflow | refused => exact .inr ⟨.refl id _, rfl⟩
  | finished => exact .inr ⟨l.received.around_leave, rfl⟩
  | begun _ _ _ started =>
    have drifts := (Engine.drifts_executeEvent started id).2
    exact .inr ⟨drifts.trans (l.received.around_come _), l.received.taken_come _⟩
  | @resumed x c _ =>
    have drifts := (e.drifts_poll l.stream.caller id x ⟨l.stream.operation, c, l.world⟩).around
    exact .inl ⟨drifts.trans (l.around_come _), l.taken_come _⟩

theorem answers_of_waits {s : Sink} {moves : List SinkMove}
    (waits : ∀ m ∈ moves, m.isReceive = false) : s.answers moves = [] := by
  induction moves generalizing s with
  | nil => rfl
  | cons m ms ih =>
    have kept := waits m List.mem_cons_self
    show s.found m ++ (s.act m).answers ms = []
    rw [ih fun m' mem => waits m' (List.mem_cons_of_mem _ mem), List.append_nil]
    cases m with
    | receive => cases kept
    | push | close | overflow => rfl

/-- What is delivered is what the sink answers. -/
theorem Step.sink {s : Sink} (h : l.Step e l') (kept : l.sink? = some s) :
    ∃ moves, l'.sink? = some (s.run moves) ∧ l'.taken = l.taken ++ s.answers moves := by
  have registration : l'.stream.registration = l.stream.registration := by rw [h.stream]
  have alone : ∀ {w : World σ} {s : Sink},
      w.hub.sink? World.node l.stream.registration = some s →
      w.Around l.stream.registration l'.world →
      ∃ moves, l'.sink? = some (s.run moves) ∧ s.answers moves = [] := by
    intro w s kept around
    obtain ⟨s', kept', moves, waits, rfl⟩ := around.hub.sink kept
    exact ⟨moves, by rw [sink?, registration, kept'], answers_of_waits waits⟩
  have waits : l.world.Around l.stream.registration l'.world → l'.taken = l.taken →
      ∃ moves, l'.sink? = some (s.run moves) ∧ l'.taken = l.taken ++ s.answers moves := by
    intro around taken
    obtain ⟨moves, kept', answers⟩ := alone kept around
    exact ⟨moves, kept', by rw [taken, answers, List.append_nil]⟩
  cases h with
  | around around => exact waits around rfl
  | poll =>
    rcases (polls_poll e l).taken l.stream.registration with ⟨around, taken⟩ | ⟨around, taken⟩
    · exact waits around taken
    · obtain ⟨delivery, received⟩ := Hub.receive_kept kept
      obtain ⟨moves, kept', answers⟩ := alone (w := l.received.world) received around
      refine ⟨.receive :: moves, kept', ?_⟩
      show _ = l.taken ++ ([s.receive.2] ++ s.receive.1.answers moves)
      rw [taken, answers, ← delivery]
      rfl

theorem Reaches.sink {s : Sink} (h : l.Reaches e l') (kept : l.sink? = some s) :
    ∃ moves, l'.sink? = some (s.run moves) ∧ l'.taken = l.taken ++ s.answers moves := by
  induction h with
  | refl => exact ⟨[], kept, (List.append_nil _).symm⟩
  | tail _ step ih =>
    obtain ⟨moves, kept', taken⟩ := ih
    obtain ⟨moves', kept'', taken'⟩ := step.sink kept'
    refine ⟨moves ++ moves', by rw [kept'', Sink.run_append], ?_⟩
    rw [taken', taken, List.append_assoc]
    exact congrArg (l.taken ++ ·) (observe_append Sink.act Sink.found s moves moves').symm

/-- Once the sink is not open, what is left in it is delivered, item by item. -/
theorem Reaches.rest {s : Sink} (h : l.Reaches e l') (kept : l.sink? = some s)
    (ended : s.status ≠ .active) :
    ∃ s', l'.sink? = some s' ∧ s'.status ≠ .active ∧ l'.items ++ s'.rest = l.items ++ s.rest := by
  obtain ⟨moves, kept', taken⟩ := h.sink kept
  refine ⟨_, kept', Sink.ended_run ended moves, ?_⟩
  rw [items, taken, List.filter_append, List.append_assoc, Sink.rest_run ended]
  rfl

/-! ## Streams that are done -/

/-- The stream has ended or is about to: it was cancelled, or it reported that it fell behind. -/
def Done (l : Life σ) : Prop :=
  l.Cancelled ∨ l.stream.stage = .behind ∨ l.stream.stage = .ended

theorem Done.polled (done : l.Done) (e : Engine σ) :
    l.takes = [] ∧
      (l.stream.stage = .ended ∧ l.stream.poll e l.world = (.ended, l.stream, l.world) ∨
        l.stream.poll e l.world = l.stream.finish l.world) := by
  unfold takes SubscriptionStream.poll
  cases stage : l.stream.stage with
  | ended => exact ⟨rfl, .inl ⟨rfl, rfl⟩⟩
  | behind => exact ⟨rfl, .inr rfl⟩
  | executing x c =>
    obtain cancelled | behind | ended := done
    · obtain ⟨reason, stop⟩ := Option.isSome_iff_exists.mp cancelled
      have stops := @Engine.poll_stops σ e l.stream.caller ⟨l.stream.operation, c, l.world⟩ reason
        stop x
      refine ⟨rfl, .inr ?_⟩
      simp only [stops, SubscriptionStream.afterEvent]
    · rw [stage] at behind
      cases behind
    · rw [stage] at ended
      cases ended
  | listening =>
    obtain cancelled | behind | ended := done
    · exact ⟨if_pos cancelled, .inr (if_pos cancelled)⟩
    · rw [stage] at behind
      cases behind
    · rw [stage] at ended
      cases ended

/-- A stream that is done ends with the next poll, if it has not yet. -/
theorem Done.poll (done : l.Done) (e : Engine σ) :
    (l.stream.poll e l.world).1 = .ended ∧ (l.poll e).stream.stage = .ended ∧
      (l.poll e).taken = l.taken ∧ (l.poll e).given = l.given := by
  obtain ⟨takes, ⟨stage, polled⟩ | polled⟩ := done.polled e
  · rw [poll_idle polled rfl takes, polled]
    simp [StreamItem.response?, stage]
  · rw [poll_idle polled rfl takes, polled]
    simp [StreamItem.response?, SubscriptionStream.finish, SubscriptionStream.release]

theorem Reaches.done (h : l.Reaches e l') (done : l.Done) :
    l'.Done ∧ l'.taken = l.taken ∧ l'.given = l.given := by
  induction h with
  | refl => exact ⟨done, rfl, rfl⟩
  | @tail b c _ step ih =>
    obtain ⟨done, taken, given⟩ := ih
    cases step with
    | poll =>
      obtain ⟨-, ended, taken', given'⟩ := done.poll e
      exact ⟨.inr (.inr ended), taken'.trans taken, given'.trans given⟩
    | around around => exact ⟨done.imp_left (around.signals _), taken, given⟩

/-- What was given stays given. -/
theorem Reaches.given (h : l.Reaches e l') : l.given <+: l'.given := by
  induction h with
  | refl => exact List.prefix_refl _
  | tail _ step ih =>
    cases step with
    | poll => exact ih.trans (List.prefix_append _ _)
    | around => exact ih

end Life

/-! ## Streams end -/

/-- The queues of loads are empty while fetches are waited for. -/
def Stage.Idle (c : Coordinator) : Stage σ → Prop
  | .fetching .. => c.hasQueued = false
  | .resolving .. => True

def Moment.Idle (m : Moment σ) : Prop :=
  match m.point with
  | .fetching .. => m.state.coordinator.hasQueued = false
  | _ => True

namespace Engine

variable {e : Engine σ} {caller : Caller} {m m' : Moment σ}

theorem Step.idle {rules : Rules σ} {base : Nat} (h : e.Step caller rules base m m')
    (idle : m.Idle) : m'.Idle := by
  cases h with
  | take => exact Coordinator.hasQueued_takeBatches _
  | fetch => exact (e.hasQueued_pollBatches _ _).trans idle
  | next | prepare | resolve | collect | pass | fetched | complete | stop => trivial

theorem Steps.idle {rules : Rules σ} {base : Nat} (h : e.Steps caller rules base m m')
    (idle : m.Idle) : m'.Idle := by
  induction h with
  | refl => exact idle
  | tail _ step ih => exact step.idle ih

theorem idle_of_comes {g : Graph} {stage : Stage σ} {st : OperationState σ}
    (comes : m.Comes (.suspended g stage, st)) : m.Idle ↔ stage.Idle st.coordinator := by
  cases comes <;> rfl

theorem idle_of_stands {x : Execution σ} {st : OperationState σ}
    (stands : m.Stands (.suspended x, st)) (idle : m.Idle) : x.stage.Idle st.coordinator := by
  cases stands with
  | suspended comes => exact (idle_of_comes comes).mp idle

theorem idle_begin {g : Graph} {runs : List (List Task)} {x : Execution σ}
    {st st' : OperationState σ} (eq : e.begin caller g runs st = (.suspended x, st')) :
    x.stage.Idle st'.coordinator := by
  obtain ⟨m, steps, stands⟩ := @begin_steps σ e caller .free 0 g runs st
  rw [eq] at stands
  exact idle_of_stands stands (steps.idle trivial)

theorem idle_poll {x x' : Execution σ} {st st' : OperationState σ}
    (idle : x.stage.Idle st.coordinator) (eq : e.poll caller x st = (.suspended x', st')) :
    x'.stage.Idle st'.coordinator := by
  obtain ⟨m, m', comes, steps, stands⟩ := e.steps_of_poll caller x st
  rw [eq] at stands
  exact idle_of_stands stands (steps.idle ((idle_of_comes comes).mpr idle))

/-- Wherever an execution is suspended, it ends if it is polled when something is due. -/
theorem suspended_ends {x : Execution σ} {st : OperationState σ}
    (idle : x.stage.Idle st.coordinator) : Ends e caller (.suspended x, st) := by
  obtain ⟨g, stage, remaining⟩ := x
  have phase : PhaseEnds e caller (.suspended g stage, st) := by
    cases stage with
    | resolving levels calls =>
      exact .suspended fun st' _ _ => calls_end (runWaves_ends levels) calls st'
    | fetching levels calls values batches =>
      have settling : e.SettlingEnds (.fetching values batches, st) :=
        .of_fetching (fun st' _ => settlingEnds_settleRounds values st') batches st idle
      exact settling.phaseEnds (runWaves_ends levels) calls
  have ends := afterRun_ends remaining phase
  rwa [afterRun] at ends

end Engine

namespace Life

variable {e : Engine σ} {l l' : Life σ} {n : Nat}

/-- A stream ends, whatever else is done, if it is polled whenever something is due. -/
inductive Concludes (e : Engine σ) : Life σ → Prop
  | ended {l : Life σ} : l.stream.stage = .ended → Concludes e l
  | polled {l : Life σ} : (∀ w, l.world.Around l.stream.registration w →
      (∀ d, l.stream.nextDeadline? = some d → d ≤ w.clock) →
      Concludes e ({ l with world := w }.poll e)) → Concludes e l

theorem Done.concludes (done : l.Done) (e : Engine σ) : l.Concludes e := by
  refine .polled fun w around _ => .ended ?_
  have done' : { l with world := w }.Done := done.imp_left (around.signals _)
  exact (done'.poll e).2.1

/-- The executions of a stream wait with empty queues. -/
def Idle (l : Life σ) : Prop := ∀ x c, l.stream.stage = .executing x c → x.stage.Idle c

theorem idle_come {r : Polled σ × OperationState σ}
    (idle : ∀ x st, r = (.suspended x, st) → x.stage.Idle st.coordinator) :
    (l.come r).Idle := by
  obtain ⟨p, st⟩ := r
  intro x c stage
  cases p with
  | suspended x' =>
    cases stage
    exact idle x st rfl
  | completed | stopped => cases stage

theorem Step.idle (h : l.Step e l') (idle : l.Idle) : l'.Idle := by
  cases h with
  | around => exact idle
  | poll =>
    have polls := polls_poll e l
    generalize l.poll e = l' at polls
    cases polls with
    | still | nothing | refused => exact idle
    | behind | cancelled | finished | overflow => exact nofun
    | begun _ _ _ started =>
      refine idle_come fun x st eq => ?_
      unfold Engine.executeEvent at started
      split at started
      · cases started
      · cases started
        exact Engine.idle_begin eq
    | resumed stage => exact idle_come fun x' st eq => Engine.idle_poll (idle _ _ stage) eq

theorem Reaches.idle (h : l.Reaches e l') (idle : l.Idle) : l'.Idle := by
  induction h with
  | refl => exact idle
  | tail _ step ih => exact step.idle ih

/-- The sink is not open, and with what is left in it the registration delivers `n` items in all. -/
def Left (l : Life σ) (n : Nat) : Prop :=
  ∃ s, l.sink? = some s ∧ s.status ≠ .active ∧ l.items.length + s.rest.length = n

theorem Step.left (h : l.Step e l') (left : l.Left n) : l'.Left n := by
  obtain ⟨s, kept, ended, total⟩ := left
  obtain ⟨s', kept', ended', rest⟩ := Reaches.rest (.single h) kept ended
  refine ⟨s', kept', ended', ?_⟩
  rw [← total, ← List.length_append, rest, List.length_append]

theorem come_concludes {caller : Caller} {m : Nat}
    (listens : ∀ {l : Life σ}, l.Left n → l.stream.stage = .listening → m ≤ l.items.length →
      l.Concludes e) {r : Polled σ × OperationState σ} (h : e.Ends caller r) :
    ∀ {l : Life σ}, l.stream.caller = caller → m ≤ l.items.length → (l.come r).Left n →
      (l.come r).Concludes e := by
  induction h with
  | completed => exact fun _ le left => listens left rfl le
  | stopped => exact fun _ _ _ => .ended rfl
  | @suspended x st _ ih =>
    intro l same le left
    refine .polled fun w around due => ?_
    let l₁ : Life σ := { l.come (.suspended x, st) with world := w }
    have polled : l₁.poll e = l₁.come (e.poll l.stream.caller x
        ⟨l.stream.operation, st.coordinator, w⟩) := poll_executing rfl
    have next : (l₁.poll e).Left n := Step.left .poll (Step.left (e := e) (.around around) left)
    show (l₁.poll e).Concludes e
    rw [polled, same] at next ⊢
    exact ih ⟨l.stream.operation, st.coordinator, w⟩ rfl due same le next

/-- A stream that listens to what is left in its sink ends. -/
theorem listening_concludes (left : l.Left n) (stage : l.stream.stage = .listening) :
    l.Concludes e := by
  induction hk : n - l.items.length using Nat.strongRecOn generalizing l with
  | ind k ih =>
    have listens : ∀ {l' : Life σ}, l'.Left n → l'.stream.stage = .listening →
        l.items.length + 1 ≤ l'.items.length → l'.Concludes e := by
      intro l' left' stage' more
      have within : l'.items.length ≤ n := by
        obtain ⟨s, -, -, total⟩ := left'
        omega
      exact ih (n - l'.items.length) (by omega) left' stage' rfl
    refine .polled fun w around due => ?_
    let l₁ : Life σ := { l with world := w }
    have left₁ : l₁.Left n := Step.left (e := e) (.around around) left
    have next : (l₁.poll e).Left n := Step.left .poll left₁
    have stage₁ : l₁.stream.stage = .listening := stage
    have more : ∀ {event : Json}, l₁.delivery = .event event →
        l.items.length + 1 = l₁.received.items.length := by
      intro event delivered
      simp [items, received, delivered, Received.isItem, l₁]
    have polls := polls_poll e l₁
    show (l₁.poll e).Concludes e
    generalize l₁.poll e = l' at polls next
    cases polls with
    | still stage' | behind stage' | resumed stage' =>
      rw [stage₁] at stage'
      cases stage'
    | cancelled | finished => exact .ended rfl
    | overflow => exact Done.concludes (.inr (.inl rfl)) e
    | nothing _ _ delivered =>
      obtain ⟨s, kept, ended, -⟩ := left₁
      rw [delivery, (Hub.receive_kept kept).1, Sink.receive_nothing_iff] at delivered
      exact absurd delivered.2 ended
    | refused _ _ delivered => exact listens next stage₁ (more delivered).le
    | begun _ _ delivered started =>
      refine come_concludes listens ?_ rfl (more delivered).le next
      unfold Engine.executeEvent at started
      split at started
      · cases started
      · cases started
        exact Engine.begin_ends _ _ _

/-- A stream whose sink is not open ends. -/
theorem concludes {s : Sink} (kept : l.sink? = some s) (ended : s.status ≠ .active)
    (idle : l.Idle) : l.Concludes e := by
  have left : l.Left _ := ⟨s, kept, ended, rfl⟩
  cases stage : l.stream.stage with
  | ended => exact .ended stage
  | behind => exact Done.concludes (.inr (.inl stage)) e
  | listening => exact listening_concludes left stage
  | executing x c =>
    refine .polled fun w around due => ?_
    let l₁ : Life σ := { l with world := w }
    have polled := poll_executing (e := e) (l := l₁) stage
    have next : (l₁.poll e).Left _ := Step.left .poll (Step.left (e := e) (.around around) left)
    have ends : e.Ends l.stream.caller (.suspended x, ⟨l.stream.operation, c, w⟩) :=
      Engine.suspended_ends (idle x c stage)
    show (l₁.poll e).Concludes e
    rw [polled] at next ⊢
    cases ends with
    | suspended go =>
      have due : ∀ d, x.nextDeadline? = some d → d ≤ w.clock := by
        rw [SubscriptionStream.nextDeadline?, stage] at due
        exact due
      exact come_concludes (fun left stage _ => listening_concludes left stage) (go _ rfl due) rfl
        (Nat.zero_le _) next

end Life

end GraphQLEngine
