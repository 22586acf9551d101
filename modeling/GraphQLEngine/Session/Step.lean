import GraphQLEngine.Session.Basic

/-!
# Steps of a session

Executing requests, subscribing and reading streams, publishing, cancelling and letting time pass.
After a step the background work runs, unless the step is one of a burst.
-/

namespace GraphQLEngine

/-- How an operation is started. -/
structure StartOptions where
  identity : Identity
  /-- The operation times out after so many milliseconds. -/
  timeout : Option Nat
  /-- The operation is cancelled after so many milliseconds. -/
  cancelAfter : Option Nat
  /-- The operation is cancelled before it starts. -/
  cancelled : Option CancelReason

/-- A request as a text, or one that was not validated. -/
inductive RequestSource where
  | text (query : String) (operationName : Option String)
  | built (r : Request)

inductive SessionStep where
  | execute (source : RequestSource) (supplied : OrderedMap Json) (options : StartOptions)
    (context : Option String)
  | validate (query : String) (operationName : Option String) (supplied : OrderedMap Json)
  | subscribe (label : String) (source : RequestSource) (supplied : OrderedMap Json)
    (options : StartOptions)
  | next (label : String)
  | drop (label : String)
  | cancel (label : String) (reason : CancelReason)
  | publish (topic : String) (event : Json)
  | shutdown
  | advance (ms : Nat)
  | count (topic : String)
  | settings
  | roots

inductive SessionAnswer where
  | executed (r : Response) (stats : OrderedMap LoaderStats)
  | validated (r : Request)
  | failed (e : ExecutionError)
  | subscribed (id : Nat)
  | received (item : StreamItem)
  /-- No stream of that label is held. -/
  | notHeld
  | dropped (held : Bool)
  | signal (reason : Option CancelReason)
  /-- No subscription ever had that label. -/
  | unknown
  | counted (n : Nat)
  | settings (s : Settings)
  | roots (query : String) (types : Nat)
  | done

namespace Session

variable {σ : Type}

/-! ## Operations -/

/-- Give an operation its timers, and set its signal if it is cancelled already. -/
def applyOptions (w : World σ) (operation : Nat) (o : StartOptions) : World σ :=
  let timer (ms : Option Nat) (reason : CancelReason) (signals : Signals) : Signals :=
    match ms with
    | some ms => signals.schedule ⟨w.clock + ms, operation, reason⟩
    | none => signals
  let signals := timer o.cancelAfter .cancelled (timer o.timeout .timedOut w.signals)
  let signals :=
    match o.cancelled with
    | some reason => signals.cancel operation reason
    | none => signals
  { w with signals, latest := operation }

/-- A context for a new operation. -/
def newContext (s : Session σ) (identity : Identity) : OperationContext × Session σ :=
  (⟨identity, s.world.signals.next, s.engine.coordinator⟩,
    { s with world := { s.world with signals := s.world.signals.create } })

/-- The context of a name, or a new one. -/
def contextFor (s : Session σ) (name : Option String) (identity : Identity) :
    OperationContext × Session σ :=
  match name.bind fun name => s.contexts.lookup name with
  | some context => (context, s)
  | none => s.newContext identity

/-- Run an execution to its end. -/
def runExecution (s : Session σ) (caller : Caller) (operation : Nat)
    (begun : Polled σ × OperationState σ) : Option Response × Coordinator × Session σ :=
  let s := { s with world := begun.2.world }
  match begun.1 with
  | .suspended x =>
    let outcome (p : Polled σ) (st : OperationState σ) :
        ((Execution σ × Coordinator) ⊕ (Option Response × Coordinator)) × World σ :=
      match p with
      | .suspended x => (.inl (x, st.coordinator), st.world)
      | p => (.inr (p.response?, st.coordinator), st.world)
    let poll : Activity σ (Execution σ × Coordinator) (Option Response × Coordinator) :=
      fun (x, c) w =>
        let r := s.engine.poll caller x ⟨operation, c, w⟩
        outcome r.1 r.2
    match run poll (fun (x, _) => x.nextDeadline?) patience s (x, begun.2.coordinator) with
    | (some (response, c), s) => (response, c, s)
    | (none, s) => (none, begun.2.coordinator, s)
  | p => (p.response?, begun.2.coordinator, s)

/-- The request of a source. -/
def requestOf (s : Session σ) (source : RequestSource) (supplied : OrderedMap Json) :
    Except ExecutionError Request :=
  match source with
  | .built r => .ok r
  | .text query name => s.engine.validate query name supplied

/-- Execute a request, in the context of a name or in a new one; the statistics are those of the
context. -/
def execute (s : Session σ) (source : RequestSource) (supplied : OrderedMap Json)
    (o : StartOptions) (name : Option String) :
    (Response × OrderedMap LoaderStats) × Session σ :=
  let (context, s) := s.contextFor name o.identity
  let s := { s with world := applyOptions s.world context.operation o }
  let caller : Caller := ⟨context.identity, supplied⟩
  let (response, coordinator, s) :=
    match s.requestOf source supplied with
    | .error e => (some e.response, context.coordinator, s)
    | .ok r =>
      match s.engine.execute r caller ⟨context.operation, context.coordinator, s.world⟩ with
      | .error response => (some response, context.coordinator, s)
      | .ok begun => s.runExecution caller context.operation begun
  let contexts :=
    match name with
    | some name => s.contexts.insert name { context with coordinator }
    | none => s.contexts
  ((response.getD ⟨none, []⟩, coordinator.stats), { s with contexts })

/-! ## Streams -/

/-- Set up a subscription. -/
def runSetup (s : Session σ) (plan : SubscriptionPlan σ) (operation : Nat) :
    Option (Except ExecutionError (SubscriptionStream σ)) × Session σ :=
  let poll : Activity σ (Option Nat) (Except ExecutionError (SubscriptionStream σ)) :=
    fun deadline w =>
      match s.engine.pollSetup plan operation deadline w with
      | (.waiting deadline, w) => (.inl (some deadline), w)
      | (.failed e, w) => (.inr (.error e), w)
      | (.ready stream, w) => (.inr (.ok stream), w)
  run poll id patience s none

/-- Drop a stream, which releases its registration. -/
def releaseStream (s : Session σ) (stream : SubscriptionStream σ) : Session σ :=
  { s with world := (stream.release s.world).2 }

/-- The stream that is held under a label. -/
def stream? (s : Session σ) (label : String) : Option (SubscriptionStream σ) :=
  (s.streams.lookup label).bind (·.stream)

/-- Hold a stream; one that had the label before is dropped. -/
def hold (s : Session σ) (label : String) (stream : SubscriptionStream σ) : Session σ :=
  let s :=
    match s.stream? label with
    | some old => s.releaseStream old
    | none => s
  { s with streams := s.streams.insert label ⟨stream.operation, some stream⟩ }

/-- Subscribe and hold the stream under a label; the result is the registration. -/
def subscribe (s : Session σ) (label : String) (source : RequestSource)
    (supplied : OrderedMap Json) (o : StartOptions) : Except ExecutionError Nat × Session σ :=
  match s.requestOf source supplied with
  | .error e => (.error e, s)
  | .ok r =>
    let (context, s) := s.newContext o.identity
    let s := { s with world := applyOptions s.world context.operation o }
    match s.engine.planSubscription r ⟨context.identity, supplied⟩ with
    | .error e => (.error e, s)
    | .ok plan =>
      match s.runSetup plan context.operation with
      | (some (.ok stream), s) => (.ok stream.registration, s.hold label stream)
      | (some (.error e), s) => (.error e, s)
      | (none, s) => (.error .timeout, s)

/-- How long the next answer of a stream is waited for. -/
def streamPatience : Nat := 1000

/-- Take the next answer of a stream; nothing if no stream of that label is held. -/
def next (s : Session σ) (label : String) : Option StreamItem × Session σ :=
  match s.stream? label with
  | none => (none, s)
  | some stream =>
    let limit := s.world.clock + streamPatience
    let poll : Activity σ (SubscriptionStream σ) (StreamItem × SubscriptionStream σ) :=
      fun stream w =>
        match stream.poll s.engine w with
        | (.pending, stream, w) =>
          if limit ≤ w.clock then (.inr (.pending, stream), w) else (.inl stream, w)
        | (item, stream, w) => (.inr (item, stream), w)
    match run poll (fun stream => earlier stream.nextDeadline? (some limit)) patience s stream with
    | (some (item, stream), s) =>
      (some item,
        { s with streams := s.streams.insert label ⟨stream.operation, some stream⟩ })
    | (none, s) => (some .pending, s)

/-- Drop a stream; the result is whether it was held. -/
def drop (s : Session σ) (label : String) : Bool × Session σ :=
  match s.stream? label with
  | none => (false, s)
  | some stream =>
    let s := s.releaseStream stream
    (true, { s with streams := s.streams.insert label ⟨stream.operation, none⟩ })

def cancel (s : Session σ) (label : String) (reason : CancelReason) : SessionAnswer × Session σ :=
  match s.streams.lookup label with
  | none => (.unknown, s)
  | some held =>
    let signals := s.world.signals.cancel held.operation reason
    (.signal (signals.reason? held.operation), { s with world := { s.world with signals } })

/-! ## Steps -/

def step (s : Session σ) : SessionStep → SessionAnswer × Session σ
  | .execute source supplied options context =>
    let ((response, stats), s) := s.execute source supplied options context
    (.executed response stats, s)
  | .validate query name supplied =>
    match s.engine.validate query name supplied with
    | .ok r => (.validated r, s)
    | .error e => (.failed e, s)
  | .subscribe label source supplied options =>
    match s.subscribe label source supplied options with
    | (.ok id, s) => (.subscribed id, s)
    | (.error e, s) => (.failed e, s)
  | .next label =>
    match s.next label with
    | (some item, s) => (.received item, s)
    | (none, s) => (.notHeld, s)
  | .drop label =>
    let (held, s) := s.drop label
    (.dropped held, s)
  | .cancel label reason => s.cancel label reason
  | .publish topic event =>
    let hub := s.world.hub.publish World.node topic event
    (.done, { s with world := { s.world with hub } })
  | .shutdown =>
    let hub := s.world.hub.shutdown World.node
    (.done, { s with world := { s.world with hub } })
  | .advance ms => (.done, s.advance ms)
  | .count topic => (.counted (s.world.hub.count World.node topic), s)
  | .settings => (.settings s.engine.settings, s)
  | .roots => (.roots s.engine.schema.queryRoot s.engine.schema.types.entries.length, s)

/-- Make steps, each with whether it is one of a burst, and collect the answers. -/
def steps (s : Session σ) : List (SessionStep × Bool) → List SessionAnswer × Session σ
  | [] => ([], s)
  | (step, burst) :: rest =>
    let (answer, s) := s.step step
    let (answers, s) := steps (if burst then s else s.settle) rest
    (answer :: answers, s)

end Session

end GraphQLEngine
