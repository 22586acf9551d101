import GraphQLEngine.Proofs.Brokers.Routing

/-!
# Calls that run at the same time

Several calls are made on one broker at once.  A call looks at the shut-down flag, at the topics of
the registrations and at the groups of the topics one after the other, and each time that it does,
the other calls may have their turns.  A call that nobody interrupts does in its turns what the
operation of the broker does in one go.

    run ⟨b, tasks⟩ (replicate n i) = ⟨(call.atOnce b).1, tasks.set i (.done (call.atOnce b).2)⟩
-/

namespace GraphQLEngine

/-- How a call has ended. -/
inductive CallOutcome where
  /-- It was given a registration. -/
  | granted (id : Nat)
  | refused (e : BrokerError)
  | received (r : Received)
  | returned

/-- How a call ends that was refused for a reason, or that gives no answer. -/
def CallOutcome.closing : Option BrokerError → CallOutcome
  | none => .returned
  | some e => .refused e

/-- What a call has still to do. -/
inductive BrokerTask where
  /-- Check the subscription, and look whether the broker is open. -/
  | subscribing (topic : String) (filter : EventFilter) (policy : DeliveryPolicy)
  /-- Take a number. -/
  | admitted (topic : String) (filter : EventFilter) (policy : DeliveryPolicy)
  /-- File the number under its topic. -/
  | numbered (id : Nat) (topic : String) (filter : EventFilter)
  /-- Put the subscriber in the group of its topic. -/
  | filed (id : Nat) (topic : String) (filter : EventFilter)
  /-- Look again whether the broker is open. -/
  | grouped (id : Nat)
  /-- Wait until the registration has been given out, and release it. -/
  | unsubscribing (id : Nat)
  /-- Wait until the registration has been given out, and ask its receiver. -/
  | receiving (id : Nat)
  | publishing (topic : String) (event : Json)
  /-- Offer the event to the group of its topic. -/
  | delivering (topic : String) (event : Json)
  | shuttingDown
  /-- Make a list of all that is filed. -/
  | sweeping
  /-- Take the numbers from the file, one after the other; then refuse, if there is a reason. -/
  | releasing (ids : List Nat) (reason : Option BrokerError)
  /-- Take the subscriber of a number that was filed from its group, and go on with the others. -/
  | detaching (id : Nat) (topic : String) (ids : List Nat) (reason : Option BrokerError)
  | done (outcome : CallOutcome)

inductive ConcurrentCall where
  | subscribe (topic : String) (filter : EventFilter) (policy : DeliveryPolicy)
  /-- Release a registration that a call was given. -/
  | unsubscribe (id : Nat)
  /-- Ask the receiver of a registration that a call was given. -/
  | receive (id : Nat)
  | publish (topic : String) (event : Json)
  | shutdown

/-- What a call has to do when it is made. -/
def ConcurrentCall.start : ConcurrentCall → BrokerTask
  | .subscribe topic filter policy => .subscribing topic filter policy
  | .unsubscribe id => .unsubscribing id
  | .receive id => .receiving id
  | .publish topic event => .publishing topic event
  | .shutdown => .shuttingDown

/-- What a call does if no other has a turn before it returns. -/
def ConcurrentCall.atOnce (b : InProcessBroker) : ConcurrentCall → InProcessBroker × CallOutcome
  | .subscribe topic filter policy =>
    match b.subscribe topic filter policy with
    | .error e => (b, .refused e)
    | .ok (b, id) => (b, .granted id)
  | .unsubscribe id => (b.unsubscribe id, .returned)
  | .receive id => ((b.receive id).1, .received (b.receive id).2)
  | .publish topic event => (b.publish topic event, .returned)
  | .shutdown => (b.shutdown, .returned)

namespace InProcessBroker

/-- The numbers of the subscribers of a topic. -/
def members (b : InProcessBroker) (topic : String) : List Nat := (b.subscribers topic).map (·.id)

/-- Make the sink of the next number. -/
def number (b : InProcessBroker) (policy : DeliveryPolicy) : InProcessBroker :=
  { b with sinks := b.sinks ++ [.new policy] }

def file (b : InProcessBroker) (id : Nat) (topic : String) : InProcessBroker :=
  { b with topics := b.topics ++ [(id, topic)] }

def unfile (b : InProcessBroker) (id : Nat) : InProcessBroker :=
  { b with topics := b.topics.filter (·.1 ≠ id) }

def enlist (b : InProcessBroker) (topic : String) (s : Subscriber) : InProcessBroker :=
  { b with groups := OrderedMap.insert b.groups topic (b.subscribers topic ++ [s]) }

/-- Take a subscriber from a group and close its sink, if it is there. -/
def detach (b : InProcessBroker) (id : Nat) (topic : String) : InProcessBroker :=
  match b.groups.lookup topic with
  | none => b
  | some group =>
    let others := group.filter (·.id ≠ id)
    { b with
      groups :=
        if others.isEmpty then OrderedMap.erase b.groups topic
        else OrderedMap.insert b.groups topic others
      sinks := if id ∈ group.map (·.id) then b.sinks.modify id Sink.close else b.sinks }

end InProcessBroker

/-- Whether a call was given this registration. -/
def BrokerTask.grants (id : Nat) : BrokerTask → Bool
  | .done (.granted i) => i == id
  | _ => false

/-- One turn of a call; nothing if it has returned, or waits for a registration. -/
def BrokerTask.step (given : Nat → Bool) (b : InProcessBroker) :
    BrokerTask → InProcessBroker × BrokerTask
  | .subscribing topic filter policy =>
    match b.refusal? topic policy with
    | some e => (b, .done (.refused e))
    | none => (b, .admitted topic filter policy)
  | .admitted topic filter policy => (b.number policy, .numbered b.sinks.length topic filter)
  | .numbered id topic filter => (b.file id topic, .filed id topic filter)
  | .filed id topic filter => (b.enlist topic ⟨id, filter⟩, .grouped id)
  | .grouped id =>
    (b, if b.shutDown then .releasing [id] (some .shutDown) else .done (.granted id))
  | .unsubscribing id => (b, if given id then .releasing [id] none else .unsubscribing id)
  | .receiving id =>
    if given id then ((b.receive id).1, .done (.received (b.receive id).2)) else (b, .receiving id)
  | .publishing topic event =>
    (b, if b.shutDown then .done .returned else .delivering topic event)
  | .delivering topic event =>
    let (sinks, behind) := InProcessBroker.offerAll event b.sinks (b.subscribers topic)
    ({ b with sinks }, .releasing behind none)
  | .shuttingDown => ({ b with shutDown := true }, .sweeping)
  | .sweeping => (b, .releasing (b.topics.map Prod.fst) none)
  | .releasing [] reason => (b, .done (.closing reason))
  | .releasing (id :: ids) reason =>
    match b.topics.lookup id with
    | none => (b, .releasing ids reason)
    | some topic => (b.unfile id, .detaching id topic ids reason)
  | .detaching id topic ids reason => (b.detach id topic, .releasing ids reason)
  | .done outcome => (b, .done outcome)

/-- A broker, and the calls that are made on it. -/
structure SharedBroker where
  broker : InProcessBroker
  tasks : List BrokerTask

namespace SharedBroker

/-- A new broker on which all the calls have been made. -/
def start (calls : List ConcurrentCall) : SharedBroker := ⟨.new, calls.map ConcurrentCall.start⟩

/-- Whether a call has returned with this registration. -/
def given (r : SharedBroker) (id : Nat) : Bool := r.tasks.any (·.grants id)

/-- A call has one turn. -/
def step (r : SharedBroker) (i : Nat) : SharedBroker :=
  match r.tasks[i]? with
  | none => r
  | some task =>
    let (broker, task) := task.step r.given r.broker
    ⟨broker, r.tasks.set i task⟩

/-- The calls have their turns in some order. -/
def run (r : SharedBroker) (turns : List Nat) : SharedBroker := turns.foldl step r

/-- All calls have returned. -/
def Returned (r : SharedBroker) : Prop := ∀ task ∈ r.tasks, ∃ outcome, task = .done outcome

variable {r : SharedBroker} {task : BrokerTask} {i : Nat}

theorem step_some (at' : r.tasks[i]? = some task) :
    r.step i = ⟨(task.step r.given r.broker).1,
      r.tasks.set i (task.step r.given r.broker).2⟩ := by
  simp only [step, at']

theorem step_none (out : r.tasks[i]? = none) : r.step i = r := by
  simp only [step, out]

theorem run_append (r : SharedBroker) (turns more : List Nat) :
    r.run (turns ++ more) = (r.run turns).run more :=
  List.foldl_append

/-- A registration was given out when the call that asked for it has returned with it. -/
theorem given_iff (r : SharedBroker) (id : Nat) :
    r.given id = true ↔ BrokerTask.done (.granted id) ∈ r.tasks := by
  rw [given, List.any_eq_true]
  constructor
  · rintro ⟨task, mem, grants⟩
    cases task with
    | done outcome =>
      cases outcome with
      | granted i =>
        obtain rfl : i = id := by simpa [BrokerTask.grants] using grants
        exact mem
      | refused | received | returned => cases grants
    | _ => cases grants
  · intro mem
    exact ⟨_, mem, by simp [BrokerTask.grants]⟩

end SharedBroker

/-! ## A call that is not interrupted -/

namespace InProcessBroker

/-- The subscriber of every registration that is filed is in the group of its topic. -/
def Grouped (b : InProcessBroker) : Prop :=
  ∀ id topic, b.topics.lookup id = some topic → id ∈ b.members topic

/-- It is so in every broker on which calls were made one after the other. -/
theorem grouped_run (moves : List BrokerMove) : Grouped (Exchange.new.run moves).broker :=
  fun id topic => ((Exchange.sound_new.run moves).agrees.listed id topic).mp

variable {b : InProcessBroker} {id : Nat} {topic : String}

theorem Grouped.unsubscribe (g : Grouped b) (id : Nat) : Grouped (b.unsubscribe id) := by
  cases found : b.topics.lookup id with
  | none => rwa [unsubscribe_none found]
  | some topic =>
    intro other t at'
    rw [topics_unsubscribe] at at'
    by_cases same : other = id
    · rw [if_pos same] at at'
      cases at'
    · rw [if_neg same] at at'
      obtain ⟨s, mem, rfl⟩ := List.mem_map.mp (g other t at')
      rw [members, subscribers_unsubscribe found]
      refine List.mem_map.mpr ⟨s, ?_, rfl⟩
      split
      · next eq => exact List.mem_filter.mpr ⟨eq ▸ mem, by simpa using same⟩
      · exact mem

/-- What the first look of a subscription that is let in tells. -/
theorem subscribe_of_admitted {policy : DeliveryPolicy} (filter : EventFilter)
    (admitted : b.refusal? topic policy = none) :
    b.shutDown = false ∧ b.subscribe topic filter policy =
      .ok (((b.number policy).file b.sinks.length topic).enlist topic ⟨b.sinks.length, filter⟩,
        b.sinks.length) := by
  unfold refusal? at admitted
  split at admitted
  · cases admitted
  · next blank =>
    split at admitted
    · cases admitted
    · next room =>
      split at admitted
      · cases admitted
      · next down =>
        refine ⟨by simpa using down, ?_⟩
        rw [subscribe, if_neg blank, if_neg room, if_neg down]
        rfl

/-- Releasing a registration is taking its number from the file, and then its subscriber from the
group. -/
theorem detach_unfile (g : Grouped b) (found : b.topics.lookup id = some topic) :
    (b.unfile id).detach id topic = b.unsubscribe id := by
  have mem := g id topic found
  unfold unsubscribe detach unfile
  rw [found]
  cases at' : b.groups.lookup topic with
  | none =>
    rw [members, subscribers, at'] at mem
    cases mem
  | some group =>
    have same : b.subscribers topic = group := by rw [subscribers, at']; rfl
    rw [members, same] at mem
    simp only [same, if_pos mem]

end InProcessBroker

namespace SharedBroker

open InProcessBroker (Grouped)

variable {b b' b'' : InProcessBroker} {tasks : List BrokerTask} {i : Nat}
  {task task' task'' : BrokerTask}

/-- What some turns of the call at place `i` lead to, when no other call has a turn. -/
def Alone (tasks : List BrokerTask) (i : Nat) (b : InProcessBroker) (task : BrokerTask)
    (b' : InProcessBroker) (task' : BrokerTask) : Prop :=
  ∃ n, (⟨b, tasks.set i task⟩ : SharedBroker).run (List.replicate n i) = ⟨b', tasks.set i task'⟩

theorem Alone.trans (first : Alone tasks i b task b' task')
    (second : Alone tasks i b' task' b'' task'') : Alone tasks i b task b'' task'' := by
  obtain ⟨m, first⟩ := first
  obtain ⟨n, second⟩ := second
  exact ⟨m + n, by rw [List.replicate_add, run_append, first, second]⟩

/-- The first turn of a call. -/
theorem Alone.turn (below : i < tasks.length) {given : Nat → Bool}
    (same : given = (⟨b, tasks.set i task⟩ : SharedBroker).given)
    (rest : Alone tasks i (task.step given b).1 (task.step given b).2 b' task') :
    Alone tasks i b task b' task' := by
  have at' : (tasks.set i task)[i]? = some task := List.getElem?_set_self below
  refine Alone.trans ⟨1, ?_⟩ rest
  show step _ i = _
  rw [step_some at', List.set_set, same]

theorem alone_releasing (below : i < tasks.length) (g : Grouped b) (ids : List Nat)
    (reason : Option BrokerError) :
    Alone tasks i b (.releasing ids reason) (b.unsubscribeAll ids) (.done (.closing reason)) := by
  induction ids generalizing b with
  | nil => exact .turn below rfl ⟨0, rfl⟩
  | cons id ids ih =>
    refine .turn below rfl ?_
    cases found : b.topics.lookup id with
    | none =>
      simp only [BrokerTask.step, found]
      show Alone tasks i b _ ((b.unsubscribe id).unsubscribeAll ids) _
      rw [InProcessBroker.unsubscribe_none found]
      exact ih g
    | some topic =>
      simp only [BrokerTask.step, found]
      refine .turn below rfl ?_
      show Alone tasks i ((b.unfile id).detach id topic) _ _ _
      rw [InProcessBroker.detach_unfile g found]
      exact ih (g.unsubscribe id)

/-- A call that is not interrupted does what the operation of the broker does. -/
theorem alone_atOnce (g : Grouped b) (call : ConcurrentCall) (at' : tasks[i]? = some call.start)
    (ready : ∀ id, call = .unsubscribe id ∨ call = .receive id → SharedBroker.given ⟨b, tasks⟩ id) :
    ∃ n, (⟨b, tasks⟩ : SharedBroker).run (List.replicate n i) =
      ⟨(call.atOnce b).1, tasks.set i (.done (call.atOnce b).2)⟩ := by
  obtain ⟨below, here⟩ := List.getElem?_eq_some_iff.mp at'
  have same : tasks = tasks.set i call.start := by rw [← here, List.set_getElem_self]
  suffices h : Alone tasks i b call.start (call.atOnce b).1 (.done (call.atOnce b).2) by
    obtain ⟨n, eq⟩ := h
    exact ⟨n, by rw [← eq, ← same]⟩
  have given : (⟨b, tasks⟩ : SharedBroker).given =
      (⟨b, tasks.set i call.start⟩ : SharedBroker).given := by rw [← same]
  cases call with
  | subscribe topic filter policy =>
    refine .turn below rfl ?_
    cases refused : b.refusal? topic policy with
    | some e =>
      have error : b.subscribe topic filter policy = .error e :=
        InProcessBroker.subscribe_error_iff.mpr refused
      simp only [ConcurrentCall.start, BrokerTask.step, refused, ConcurrentCall.atOnce, error]
      exact ⟨0, rfl⟩
    | none =>
      obtain ⟨open', ok⟩ := InProcessBroker.subscribe_of_admitted filter refused
      simp only [ConcurrentCall.start, BrokerTask.step, refused, ConcurrentCall.atOnce, ok]
      refine .turn below rfl (.turn below rfl (.turn below rfl (.turn below rfl ?_)))
      show Alone tasks i _ (if b.shutDown then _ else _) _ _
      rw [open']
      exact ⟨0, rfl⟩
  | unsubscribe id =>
    refine .turn below given ?_
    simp only [ConcurrentCall.start, BrokerTask.step, if_pos (ready id (.inl rfl))]
    exact alone_releasing below g [id] none
  | receive id =>
    refine .turn below given ?_
    simp only [ConcurrentCall.start, BrokerTask.step, if_pos (ready id (.inr rfl))]
    exact ⟨0, rfl⟩
  | publish topic event =>
    refine .turn below rfl ?_
    cases down : b.shutDown with
    | true =>
      simp only [ConcurrentCall.start, BrokerTask.step, ConcurrentCall.atOnce,
        InProcessBroker.publish, down, if_true]
      exact ⟨0, rfl⟩
    | false =>
      simp only [ConcurrentCall.start, ConcurrentCall.atOnce,
        InProcessBroker.publish_running down]
      show Alone tasks i b (if b.shutDown then _ else _) _ _
      rw [if_neg (by simp [down])]
      refine .turn below rfl ?_
      have kept : Grouped { b with
        sinks := (InProcessBroker.offerAll event b.sinks (b.subscribers topic)).1 } := g
      exact alone_releasing below kept _ none
  | shutdown =>
    refine .turn below rfl (.turn below rfl ?_)
    exact alone_releasing below (b := { b with shutDown := true }) g _ none

end SharedBroker

end GraphQLEngine
