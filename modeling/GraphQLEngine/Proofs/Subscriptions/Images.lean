import GraphQLEngine.Proofs.Subscriptions.Lives
import GraphQLEngine.Proofs.Subscriptions.Twins

/-!
# Streams are the images of their registrations

Where resolvers depend on their calls alone, and loaders answer a key alike in every batch, a stream
has no memory: what it gives for an event, and what it logs, is what comes of executing that event
alone.  So its responses are those of the events that its registration delivers, one for each and in
order, and then the report that it fell behind, if the registration overflowed.

    l.items = handled.map (.event ·.event) ++ rest         where every one of `handled` is Alone
    l.given = handled.map (·.response) ++ reports
    l.work = handled.flatMap (·.work) ++ unfinished
-/

namespace GraphQLEngine

variable {σ : Type}

/-! ## Events alone -/

namespace Engine

/-- An execution that is suspended is polled at a point of the clock. -/
def pollAt (e : Engine σ) (caller : Caller) (r : Polled σ × OperationState σ) (clock : Nat) :
    Polled σ × OperationState σ :=
  match r with
  | (.suspended x, st) => e.poll caller x { st with world := { st.world with clock } }
  | r => r

/-- The answer to an event, and what is logged for it, if it is executed while nobody else is at
work: begun in a world at a point of the clock, with loads of its own, and polled at others. -/
def alone? (e : Engine σ) (s : SubscriptionStream σ) (event : Json) (w : World σ) (clock : Nat)
    (clocks : List Nat) : Option (Response × List LogEntry) :=
  match e.executeEvent s event { w with clock } with
  | .error response => some (response, [])
  | .ok r =>
    let last := clocks.foldl (e.pollAt s.caller) r
    last.1.response?.map (·, last.2.world.log.drop w.log.length)

end Engine

/-- An event that a stream was done with: when it was begun and polled, what the stream gave for it,
and what it logged. -/
structure Handled where
  event : Json
  clock : Nat
  clocks : List Nat
  response : Response
  work : List LogEntry

/-- What was given and logged for an event is what comes of it alone, in every world where nothing
cancels it. -/
def Handled.Alone (h : Handled) (e : Engine σ) (s : SubscriptionStream σ) : Prop :=
  ∀ w : World σ, OperationState.Undisturbed ⟨s.operation, e.coordinator, w⟩ →
    e.alone? s h.event w h.clock h.clocks = some (h.response, h.work)

open OperationState (Undisturbed Twin Agree)

/-- Executed alone in any world where nothing cancels it, an event has come to a point. -/
structure Engine.Matches (e : Engine σ) (s : SubscriptionStream σ) (event : Json) (clock : Nat)
    (clocks : List Nat) (p : Polled σ) (c : Coordinator) (work : List LogEntry) : Prop where
  steady : p.Steady
  alone : ∀ w : World σ, Undisturbed ⟨s.operation, e.coordinator, w⟩ →
    ∃ r st, e.executeEvent s event { w with clock } = .ok r ∧
      clocks.foldl (e.pollAt s.caller) r = (p, st) ∧ st.coordinator = c ∧
      st.operation = s.operation ∧ st.Undisturbed ∧ st.world.log = w.log ++ work

namespace Engine

variable {e : Engine σ} {s : SubscriptionStream σ} {event : Json} {clock : Nat} {clocks : List Nat}
  {p : Polled σ} {c : Coordinator} {work : List LogEntry} {w : World σ}

/-- There is a world where nothing cancels an operation. -/
theorem exists_undisturbed (operation : Nat) (c : Coordinator) (w : World σ) :
    ∃ w' : World σ, Undisturbed ⟨operation, c, w'⟩ :=
  ⟨{ w with signals := .empty, latest := operation + 1 }, rfl, Nat.succ_ne_self _⟩

theorem alone_refused {response : Response} (refused : e.executeEvent s event w = .error response)
    (clock : Nat) (clocks : List Nat) (w' : World σ) :
    e.alone? s event w' clock clocks = some (response, []) := by
  have again : e.executeEvent s event { w' with clock } = .error response := by
    unfold executeEvent at refused ⊢
    split at refused
    · exact refused
    · cases refused
  rw [alone?, again]

/-- What is begun in the world of a stream is begun alike alone, unless it is cancelled. -/
theorem matches_begun (functional : e.Functional) {r : Polled σ × OperationState σ}
    (begun : e.executeEvent s event w = .ok r) :
    r.1.IsStopped ∧ r.2.isCancelled = true ∨
      e.Matches s event w.clock [] r.1 r.2.coordinator (r.2.world.log.drop w.log.length) := by
  let o : OperationState σ := ⟨s.operation, e.coordinator, w⟩
  have abreast : ∀ w' : World σ, Undisturbed ⟨s.operation, e.coordinator, w'⟩ →
      ∃ r', e.executeEvent s event { w' with clock := w.clock } = .ok r' ∧
        Abreast o ⟨s.operation, e.coordinator, { w' with clock := w.clock }⟩ Polled.IsStopped
          Polled.Steady r r' := by
    intro w' undisturbed
    unfold executeEvent at begun ⊢
    split at begun
    · cases begun
    · cases begun
      exact ⟨_, rfl, begin_abreast functional _ _
        (.start rfl rfl ⟨undisturbed.unset, undisturbed.notLatest⟩)⟩
  by_cases stopped : r.1.IsStopped ∧ r.2.isCancelled = true
  · exact .inl stopped
  · obtain ⟨w', free⟩ := exists_undisturbed s.operation e.coordinator w
    obtain ⟨_, -, abreast'⟩ := abreast w' free
    refine .inr ⟨(Or.resolve_left abreast' stopped).good, fun w' undisturbed => ?_⟩
    obtain ⟨r', begun', abreast'⟩ := abreast w' undisturbed
    obtain ⟨same, -, twin⟩ := Or.resolve_left abreast' stopped
    refine ⟨r', r'.2, begun', Prod.ext same rfl, twin.coordinator, twin.operation,
      twin.undisturbed, twin.log⟩

/-- What goes on in the world of a stream goes on alike alone, unless it is cancelled. -/
theorem matches_resumed (functional : e.Functional) {x : Execution σ}
    (before : e.Matches s event clock clocks (.suspended x) c work) (w : World σ) :
    let r := e.poll s.caller x ⟨s.operation, c, w⟩
    r.1.IsStopped ∧ r.2.isCancelled = true ∨
      e.Matches s event clock (clocks ++ [w.clock]) r.1 r.2.coordinator
        (work ++ r.2.world.log.drop w.log.length) := by
  intro r
  have abreast : ∀ w' : World σ, Undisturbed ⟨s.operation, e.coordinator, w'⟩ →
      ∃ r₀ st r', e.executeEvent s event { w' with clock } = .ok r₀ ∧
        (clocks ++ [w.clock]).foldl (e.pollAt s.caller) r₀ = r' ∧ st.operation = s.operation ∧
        st.world.log = w'.log ++ work ∧
        Abreast ⟨s.operation, c, w⟩ st Polled.IsStopped Polled.Steady r r' := by
    intro w' undisturbed
    obtain ⟨r₀, st, begun, polled, coordinator, operation, free, log⟩ := before.alone w' undisturbed
    refine ⟨r₀, { st with world := { st.world with clock := w.clock } }, _, begun, rfl, operation,
      log, ?_⟩
    rw [List.foldl_append, polled]
    exact poll_abreast functional x before.steady
      (.start coordinator rfl ⟨free.unset, free.notLatest⟩)
  by_cases stopped : r.1.IsStopped ∧ r.2.isCancelled = true
  · exact .inl stopped
  · obtain ⟨w', free⟩ := exists_undisturbed s.operation e.coordinator w
    obtain ⟨_, _, _, -, -, -, -, abreast'⟩ := abreast w' free
    refine .inr ⟨(Or.resolve_left abreast' stopped).good, fun w' undisturbed => ?_⟩
    obtain ⟨r₀, st, r', begun, polled, operation, log, abreast'⟩ := abreast w' undisturbed
    obtain ⟨same, -, twin⟩ := Or.resolve_left abreast' stopped
    refine ⟨r₀, r'.2, begun, polled.trans (Prod.ext same rfl), twin.coordinator,
      twin.operation.trans operation, twin.undisturbed, ?_⟩
    rw [twin.log, log, List.append_assoc]
    rfl

/-- An event that has come to its answer. -/
theorem Matches.handled {g : Graph}
    (h : e.Matches s event clock clocks (.completed g) c work) :
    Handled.Alone ⟨event, clock, clocks, g.response, work⟩ e s := by
  intro w undisturbed
  obtain ⟨r, st, begun, polled, -, -, -, log⟩ := h.alone w undisturbed
  simp only [alone?, begun, polled, log, List.drop_left]
  rfl

end Engine

/-- An event has one answer, if it is begun and polled at the same points of the clock. -/
theorem Handled.Alone.unique {e : Engine σ} {s : SubscriptionStream σ} {h h' : Handled}
    (alone : h.Alone e s) (alone' : h'.Alone e s) (w : World σ) (event : h'.event = h.event)
    (clock : h'.clock = h.clock) (clocks : h'.clocks = h.clocks) : h' = h := by
  obtain ⟨w', free⟩ := Engine.exists_undisturbed s.operation e.coordinator w
  have first := alone w' free
  have second := alone' w' free
  rw [event, clock, clocks, first] at second
  obtain ⟨event₁, clock₁, clocks₁, response₁, work₁⟩ := h
  obtain ⟨event₂, clock₂, clocks₂, response₂, work₂⟩ := h'
  cases event
  cases clock
  cases clocks
  cases second
  rfl

/-! ## Images -/

namespace Life

variable {e : Engine σ} {s₀ : SubscriptionStream σ} {l l' : Life σ}

/-- Nothing is left in the sink, and it is not open. -/
def Drained (l : Life σ) : Prop := ∃ s, l.sink? = some s ∧ s.status ≠ .active ∧ s.rest = []

/-- Where a stream stands: what it has taken since the last event that it was done with, and what it
has given and logged since. -/
inductive Standing (e : Engine σ) (s₀ : SubscriptionStream σ) (l : Life σ) :
    List Received → List Response → List LogEntry → Prop
  | listening : l.stream.stage = .listening → Standing e s₀ l [] [] []
  | executing {event : Json} {clock : Nat} {clocks : List Nat} {x : Execution σ} {c : Coordinator}
    {work : List LogEntry} : l.stream.stage = .executing x c →
    e.Matches s₀ event clock clocks (.suspended x) c work → Standing e s₀ l [.event event] [] work
  | behind {capacity : Nat} : l.stream.stage = .behind ∨ l.stream.stage = .ended → l.Drained →
    Standing e s₀ l [.overflow capacity] [fellBehindResponse] []
  | drained : l.stream.stage = .ended → l.Drained → Standing e s₀ l [] [] []
  | cancelled : l.stream.stage = .ended → l.Cancelled → Standing e s₀ l [] [] []
  | dropped {event : Json} {work : List LogEntry} : l.stream.stage = .ended → l.Cancelled →
    Standing e s₀ l [.event event] [] work

/-- What a stream has given, and what it has logged, is what comes of the events that its
registration delivered. -/
structure Image (e : Engine σ) (s₀ : SubscriptionStream σ) (l : Life σ) (handled : List Handled)
    (rest : List Received) (reports : List Response) (unfinished : List LogEntry) : Prop where
  alone : ∀ h ∈ handled, h.Alone e s₀
  items : l.items = handled.map (.event ·.event) ++ rest
  given : l.given = handled.map (·.response) ++ reports
  work : l.work = handled.flatMap (·.work) ++ unfinished

/-- A stream that has an image, and stands at the end of it. -/
structure Pictured (e : Engine σ) (s₀ : SubscriptionStream σ) (l : Life σ) : Prop where
  stream : l.stream = { s₀ with stage := l.stream.stage }
  kept : ∃ s, l.sink? = some s
  image : ∃ handled rest reports unfinished, l.Image e s₀ handled rest reports unfinished ∧
    l.Standing e s₀ rest reports unfinished

theorem Drained.around (drained : l.Drained)
    (around : l.world.Around l.stream.registration l'.world)
    (same : l'.stream.registration = l.stream.registration) : l'.Drained := by
  obtain ⟨s, kept, ended, rest⟩ := drained
  obtain ⟨s', kept', turns⟩ := around.hub.sink kept
  rw [turns.ended ended] at kept'
  exact ⟨s, by rw [sink?, same, kept'], ended, rest⟩

/-- A receiver that is told of the end, or of an overflow, leaves nothing. -/
theorem drained_received {s : Sink} (kept : l.sink? = some s)
    (told : l.delivery = .ended ∨ ∃ capacity, l.delivery = .overflow capacity) :
    l.received.Drained := by
  obtain ⟨delivery, received⟩ := Hub.receive_kept kept
  rw [Life.delivery, delivery] at told
  refine ⟨s.receive.1, received, ?_⟩
  obtain ⟨policy, queue, status⟩ := s
  cases queue with
  | cons event queue => simp [Sink.receive] at told
  | nil =>
    cases status with
    | active => simp [Sink.receive] at told
    | closed | overflowed => simp [Sink.receive, Sink.rest]

/-- A delivery was taken. -/
theorem Image.received {handled : List Handled} (image : l.Image e s₀ handled [] [] []) :
    l.received.Image e s₀ handled ([l.delivery].filter (·.isItem)) [] [] where
  alone := image.alone
  items := by
    show (l.taken ++ [l.delivery]).filter (·.isItem) = _
    rw [List.filter_append]
    exact congrArg (· ++ _) (image.items.trans (List.append_nil _))
  given := image.given
  work := image.work

/-- The event that was taken last is done with. -/
theorem Image.handle {handled : List Handled} {h : Handled} {work : List LogEntry}
    (image : l.Image e s₀ handled [.event h.event] [] work) (alone : h.Alone e s₀)
    (items : l'.items = l.items) (given : l'.given = l.given ++ [h.response])
    (logged : l'.work = handled.flatMap (·.work) ++ h.work) :
    l'.Image e s₀ (handled ++ [h]) [] [] [] where
  alone h' mem := by
    rcases List.mem_append.mp mem with mem | mem
    · exact image.alone h' mem
    · cases List.mem_singleton.mp mem
      exact alone
  items := by simp [items, image.items]
  given := by simp [given, image.given]
  work := by simp [logged]

/-- The execution of an event that was taken has come to a point. -/
theorem pictured_come {handled : List Handled} {event : Json} {clock : Nat} {clocks : List Nat}
    {r : Polled σ × OperationState σ} {work : List LogEntry}
    (same : l.stream = { s₀ with stage := l.stream.stage })
    (image : l.Image e s₀ handled [.event event] [] work) (kept : ∃ s, (l.come r).sink? = some s)
    (operation : r.2.operation = l.stream.operation)
    (outcome : r.1.IsStopped ∧ r.2.isCancelled = true ∨
      e.Matches s₀ event clock clocks r.1 r.2.coordinator
        (work ++ r.2.world.log.drop l.world.log.length)) :
    (l.come r).Pictured e s₀ := by
  obtain ⟨p, st⟩ := r
  have more : l.work ++ st.world.log.drop l.world.log.length =
      handled.flatMap (·.work) ++ (work ++ st.world.log.drop l.world.log.length) := by
    rw [image.work, List.append_assoc]
  refine ⟨by rw [stream_come, same], kept, ?_⟩
  rcases outcome with ⟨stopped, cancelled⟩ | reached
  · cases p with
    | stopped g reason =>
      refine ⟨handled, [.event event], [], _, ⟨image.alone, image.items, image.given, more⟩,
        .dropped rfl ?_⟩
      show st.world.signals.isCancelled l.stream.operation = true
      rw [← operation]
      exact cancelled
    | suspended | completed => exact stopped.elim
  · cases p with
    | suspended x =>
      exact ⟨handled, [.event event], [], _, ⟨image.alone, image.items, image.given, more⟩,
        .executing rfl reached⟩
    | completed g =>
      have handles : (l.come (.completed g, st)).Image e s₀ (handled ++ [_]) [] [] [] :=
        image.handle (h := ⟨event, clock, clocks, g.response, _⟩) reached.handled rfl rfl more
      exact ⟨_, _, _, _, handles, .listening rfl⟩
    | stopped => exact reached.steady.elim

section

variable {handled : List Handled} {rest : List Received} {reports : List Response}
  {unfinished : List LogEntry}

theorem Standing.of_listening (h : l.Standing e s₀ rest reports unfinished)
    (stage : l.stream.stage = .listening) : rest = [] ∧ reports = [] ∧ unfinished = [] := by
  cases h with
  | listening => exact ⟨rfl, rfl, rfl⟩
  | executing stage' | drained stage' | cancelled stage' | dropped stage' =>
    rw [stage] at stage'
    cases stage'
  | behind stage' =>
    rw [stage] at stage'
    rcases stage' with stage' | stage' <;> cases stage'

theorem Standing.of_executing {x : Execution σ} {c : Coordinator}
    (h : l.Standing e s₀ rest reports unfinished) (stage : l.stream.stage = .executing x c) :
    ∃ event clock clocks, rest = [.event event] ∧ reports = [] ∧
      e.Matches s₀ event clock clocks (.suspended x) c unfinished := by
  cases h with
  | executing stage' reached =>
    rw [stage] at stage'
    cases stage'
    exact ⟨_, _, _, rfl, rfl, reached⟩
  | listening stage' | drained stage' | cancelled stage' | dropped stage' =>
    rw [stage] at stage'
    cases stage'
  | behind stage' =>
    rw [stage] at stage'
    rcases stage' with stage' | stage' <;> cases stage'

theorem Standing.of_behind (h : l.Standing e s₀ rest reports unfinished)
    (stage : l.stream.stage = .behind) :
    ∃ capacity, rest = [.overflow capacity] ∧ reports = [fellBehindResponse] ∧ unfinished = [] ∧
      l.Drained := by
  cases h with
  | behind _ drained => exact ⟨_, rfl, rfl, rfl, drained⟩
  | listening stage' | executing stage' | drained stage' | cancelled stage' | dropped stage' =>
    rw [stage] at stage'
    cases stage'

end

theorem Pictured.step (functional : e.Functional) (h : l.Step e l') (pictured : l.Pictured e s₀) :
    l'.Pictured e s₀ := by
  obtain ⟨same, ⟨s, kept⟩, handled, rest, reports, unfinished, image, standing⟩ := pictured
  have same' : l'.stream = { s₀ with stage := l'.stream.stage } := by rw [h.stream, same]
  have kept' : ∃ s, l'.sink? = some s := by
    obtain ⟨moves, kept', -⟩ := h.sink kept
    exact ⟨_, kept'⟩
  cases h with
  | around around =>
    refine ⟨same', kept', handled, rest, reports, unfinished,
      ⟨image.alone, image.items, image.given, image.work⟩, ?_⟩
    cases standing with
    | listening stage => exact .listening stage
    | executing stage reached => exact .executing stage reached
    | behind stage drained => exact .behind stage (drained.around around rfl)
    | drained stage drained => exact .drained stage (drained.around around rfl)
    | cancelled stage cancelled => exact .cancelled stage (around.signals _ cancelled)
    | dropped stage cancelled => exact .dropped stage (around.signals _ cancelled)
  | poll =>
    have polls := polls_poll e l
    generalize l.poll e = l' at polls same' kept'
    cases polls with
    | still stage => exact ⟨same, ⟨s, kept⟩, handled, rest, reports, unfinished, image, standing⟩
    | behind stage =>
      obtain ⟨capacity, rfl, rfl, rfl, drained⟩ := standing.of_behind stage
      exact ⟨same', kept', handled, _, _, _,
        ⟨image.alone, image.items, image.given, image.work⟩,
        .behind (.inr rfl) (drained.around l.around_leave rfl)⟩
    | cancelled stage cancelled =>
      obtain ⟨rfl, rfl, rfl⟩ := standing.of_listening stage
      exact ⟨same', kept', handled, _, _, _,
        ⟨image.alone, image.items, image.given, image.work⟩, .cancelled rfl cancelled⟩
    | nothing stage running delivered =>
      obtain ⟨rfl, rfl, rfl⟩ := standing.of_listening stage
      have image := image.received
      rw [delivered] at image
      exact ⟨same', kept', handled, _, _, _, image, .listening stage⟩
    | finished stage running delivered =>
      obtain ⟨rfl, rfl, rfl⟩ := standing.of_listening stage
      have image := image.received
      rw [delivered] at image
      have drained := drained_received kept (.inl delivered)
      exact ⟨same', kept', handled, _, _, _, ⟨image.alone, image.items, image.given, image.work⟩,
        .drained rfl (drained.around l.received.around_leave rfl)⟩
    | overflow stage running delivered =>
      obtain ⟨rfl, rfl, rfl⟩ := standing.of_listening stage
      have image := image.received
      rw [delivered] at image
      have drained := drained_received kept (.inr ⟨_, delivered⟩)
      refine ⟨same', kept', handled, _, _, _, ⟨image.alone, image.items, ?_, image.work⟩,
        .behind (.inl rfl) (drained.around (.refl _ _) rfl)⟩
      exact congrArg (· ++ _) (image.given.trans (List.append_nil _))
    | refused stage running delivered refused =>
      obtain ⟨rfl, rfl, rfl⟩ := standing.of_listening stage
      have image := image.received
      rw [delivered] at image
      rw [same] at refused
      refine ⟨same', kept', _, _, _, _, image.handle (h := ⟨_, 0, [], _, []⟩)
        (fun w _ => Engine.alone_refused refused 0 [] w) rfl rfl ?_, .listening stage⟩
      exact image.work
    | begun stage running delivered begun =>
      obtain ⟨rfl, rfl, rfl⟩ := standing.of_listening stage
      have image := image.received
      rw [delivered] at image
      have operation := (Engine.drifts_executeEvent begun 0).1
      rw [same] at begun
      exact pictured_come same image kept' operation (Engine.matches_begun functional begun)
    | @resumed x c stage =>
      obtain ⟨event, clock, clocks, rfl, rfl, reached⟩ := standing.of_executing stage
      have operation := (e.drifts_poll l.stream.caller 0 x
        ⟨l.stream.operation, c, l.world⟩).operation
      have next := Engine.matches_resumed functional reached l.world
      have owner : s₀.caller = l.stream.caller := by rw [same]
      have signal : s₀.operation = l.stream.operation := by rw [same]
      rw [owner, signal] at next
      exact pictured_come same image kept' operation next

theorem Pictured.reaches (functional : e.Functional) (h : l.Reaches e l')
    (pictured : l.Pictured e s₀) : l'.Pictured e s₀ := by
  induction h with
  | refl => exact pictured
  | tail _ step ih => exact ih.step functional step

/-- A stream that has ended and is not cancelled has taken all there was, and reported an overflow
if it took that. -/
theorem Pictured.of_ended (pictured : l.Pictured e s₀) (ended : l.stream.stage = .ended)
    (running : ¬ l.Cancelled) : l.Drained ∧ ∃ handled, l.Image e s₀ handled [] [] [] ∨
      ∃ capacity, l.Image e s₀ handled [.overflow capacity] [fellBehindResponse] [] := by
  obtain ⟨-, -, handled, rest, reports, unfinished, image, standing⟩ := pictured
  cases standing with
  | listening stage | executing stage =>
    rw [ended] at stage
    cases stage
  | behind _ drained => exact ⟨drained, handled, .inr ⟨_, image⟩⟩
  | drained _ drained => exact ⟨drained, handled, .inl image⟩
  | cancelled _ cancelled | dropped _ cancelled => exact absurd cancelled running

/-- A stream has ended and is not cancelled: the registration delivered what was left in its sink,
and the stream reported an overflow exactly if the sink had overflowed. -/
theorem Pictured.of_left {s : Sink} (pictured : l'.Pictured e s₀) (h : l.Reaches e l')
    (kept : l.sink? = some s) (shut : s.status ≠ .active)
    (fresh : ∀ capacity, .overflow capacity ∉ l.items) (ended : l'.stream.stage = .ended)
    (running : ¬ l'.Cancelled) :
    l'.items = l.items ++ s.rest ∧
      (s.status = .closed → ∃ handled, l'.Image e s₀ handled [] [] []) ∧
      (s.status = .overflowed → ∃ handled,
        l'.Image e s₀ handled [.overflow s.policy.capacity] [fellBehindResponse] []) := by
  obtain ⟨⟨s', kept', -, nothing⟩, handled, image⟩ := pictured.of_ended ended running
  have all : l'.items = l.items ++ s.rest := by
    obtain ⟨s'', kept'', -, rest⟩ := h.rest kept shut
    obtain rfl : s' = s'' := Option.some.inj (kept'.symm.trans kept'')
    rwa [nothing, List.append_nil] at rest
  refine ⟨all, fun closed => ?_, fun overflowed => ?_⟩
  · rcases image with image | ⟨capacity, image⟩
    · exact ⟨handled, image⟩
    · have last : .overflow capacity ∈ l.items ++ s.rest := by
        rw [← all, image.items]
        exact List.mem_append_right _ List.mem_cons_self
      rcases List.mem_append.mp last with mem | mem
      · exact absurd mem (fresh capacity)
      · simp [Sink.rest, closed] at mem
  · have rest : s.rest = s.queue.map .event ++ [.overflow s.policy.capacity] := by
      rw [Sink.rest, if_pos overflowed]
    rw [rest, ← List.append_assoc] at all
    rcases image with image | ⟨capacity, image⟩
    · have last : .overflow s.policy.capacity ∈ l'.items := by
        rw [all]
        exact List.mem_append_right _ List.mem_cons_self
      simp [image.items] at last
    · have last := (List.append_inj' (image.items.symm.trans all) rfl).2
      cases last
      exact ⟨handled, image⟩

end Life

/-! ## Subscriptions -/

theorem World.hosts_absorb {w : World σ} {node : Nat} (hosts : w.hub.Hosts node) (s : Scope σ) :
    (w.absorb s).hub.Hosts node := by
  refine w.absorb_induction (P := fun w' => w'.hub.Hosts node) s hosts fun effect hosts => ?_
  cases effect with
  | publish topic event => exact hosts.publish _ _ _
  | cancelLatest | load => exact hosts

/-- A subscription that is set up listens on a new sink. -/
theorem Engine.pollSetup_ready {e : Engine σ} {plan : SubscriptionPlan σ} {operation : Nat}
    {deadline : Option Nat} {w w₀ : World σ} {s₀ : SubscriptionStream σ}
    (ready : e.pollSetup plan operation deadline w = (.ready s₀, w₀))
    (hosts : w.hub.Hosts World.node) :
    s₀.stage = .listening ∧ (Life.start s₀ w₀).sink? =
      some (.new (plan.resolver.policy.getD e.settings.delivery)) := by
  have registered : e.register plan operation w = (.ok s₀, w₀) := by
    unfold pollSetup at ready
    split at ready
    · cases ready
    · simp only at ready
      split at ready
      · split at ready
        · cases ready
        · next registered =>
          cases ready
          exact registered
      · cases ready
  unfold register at registered
  simp only at registered
  split at registered
  · cases registered
  · split at registered
    · cases registered
    · next ok =>
      cases registered
      exact ⟨rfl, Hub.sink_subscribe (World.hosts_absorb hosts _) ok⟩

open Life (start)

/-- A subscription stream is the image of its registration, event by event.  Let a subscription be
set up in an engine whose resolvers depend on their calls alone and whose loaders answer a key alike
in every batch, and let its stream be polled at any time while others are at work.  What its
registration delivers is what its sink answers.  What the stream gave and logged is, in order, what
each of these events gives and logs when it is executed alone, whatever came before; and that is
determined by the points of the clock at which it was begun and polled.  Besides, there may be one
event at work, or one that was dropped when the stream was cancelled, or else the report that the
stream fell behind, which is the last response.

Once the sink is not open, the stream ends if it is polled whenever something is due, and has then,
unless it was cancelled, been given all that was queued: with no report if the registration was
released or the broker shut down first, and with the report if it overflowed first.  What was given
stays given, whether or not the stream is cancelled later; a stream that is cancelled, that gave the
report or that has ended gives nothing more, and each poll of it says that it has ended. -/
theorem subscription_stream_image {e : Engine σ} (functional : e.Functional)
    {plan : SubscriptionPlan σ} {operation : Nat} {deadline : Option Nat} {w w₀ : World σ}
    {s₀ : SubscriptionStream σ} (hosts : w.hub.Hosts World.node)
    (ready : e.pollSetup plan operation deadline w = (.ready s₀, w₀)) {l : Life σ}
    (life : (start s₀ w₀).Reaches e l) :
    (∃ moves, l.taken =
        (Sink.new (plan.resolver.policy.getD e.settings.delivery)).answers moves ∧
      l.sink? = some ((Sink.new (plan.resolver.policy.getD e.settings.delivery)).run moves)) ∧
    (∃ handled rest reports unfinished, l.Image e s₀ handled rest reports unfinished ∧
      l.Standing e s₀ rest reports unfinished) ∧
    (∀ h h' : Handled, h.Alone e s₀ → h'.Alone e s₀ → h'.event = h.event → h'.clock = h.clock →
      h'.clocks = h.clocks → h' = h) ∧
    (∀ s, l.sink? = some s → s.status ≠ .active →
      l.Concludes e ∧ ((∀ capacity, .overflow capacity ∉ l.items) →
        ∀ l', l.Reaches e l' → l'.stream.stage = .ended → ¬ l'.Cancelled →
          l'.items = l.items ++ s.rest ∧
          (s.status = .closed → ∃ handled, l'.Image e s₀ handled [] [] []) ∧
          (s.status = .overflowed → ∃ handled,
            l'.Image e s₀ handled [.overflow s.policy.capacity] [fellBehindResponse] []))) ∧
    (∀ l', l.Reaches e l' → l.given <+: l'.given) ∧
    (l.Done → ∀ l', l.Reaches e l' → l'.given = l.given ∧ l'.taken = l.taken ∧
      (l'.stream.poll e l'.world).1 = .ended ∧ (l'.poll e).stream.stage = .ended) := by
  obtain ⟨listening, kept₀⟩ := Engine.pollSetup_ready ready hosts
  have first : (start s₀ w₀).Pictured e s₀ :=
    ⟨rfl, ⟨_, kept₀⟩, [], [], [], [], ⟨nofun, rfl, rfl, rfl⟩, .listening listening⟩
  have pictured := first.reaches functional life
  have idle : l.Idle := life.idle fun x c stage => by
    rw [show (start s₀ w₀).stream.stage = .listening from listening] at stage
    cases stage
  refine ⟨?_, pictured.image, fun h h' alone alone' => alone.unique alone' w,
    fun s kept shut => ⟨Life.concludes kept shut idle, fun fresh l' later ended running => ?_⟩,
    fun l' later => later.given, fun done l' later => ?_⟩
  · obtain ⟨moves, kept, taken⟩ := life.sink kept₀
    exact ⟨moves, taken, kept⟩
  · exact (pictured.reaches functional later).of_left later kept shut fresh ended running
  · obtain ⟨done', taken, given⟩ := later.done done
    obtain ⟨item, stage, -⟩ := done'.poll e
    exact ⟨given, taken, item, stage⟩

/-! ## A stream of sales -/

namespace Sales

def schema : Schema :=
  ⟨⟨[("Int", ⟨"Int", .scalar .int⟩), ("Float", ⟨"Float", .scalar .float⟩),
      ("String", ⟨"String", .scalar .string⟩), ("Boolean", ⟨"Boolean", .scalar .boolean⟩),
      ("ID", ⟨"ID", .scalar .id⟩),
      ("Query", ⟨"Query", .object [("sale", .of "sale" (.named "Sale"))]⟩),
      ("Sale", ⟨"Sale", .object [("price", .of "price" (.named "Int"))]⟩),
      ("Subscription", ⟨"Subscription", .object [("sale", .of "sale" (.named "Sale"))]⟩)],
      by decide⟩,
    "Query", none, some "Subscription"⟩

def resolver : SubscriptionResolver Unit :=
  ⟨fun _ => 0, fun _ s => (.ok ⟨"sales", fun _ => true⟩, s), .ok, none⟩

/-- The prices of keys, after 10 milliseconds. -/
def loader : Loader Unit :=
  ⟨"prices", 10, fun keys s => (.ok (keys.map fun key => (key, .ok (.int 5))), s)⟩

/-- Each sale loads its price. -/
def engine : Engine Unit :=
  ⟨schema,
    ⟨[(⟨"Sale", "price"⟩, .field ⟨fun _ => 0, fun _ s => (.ok (.load 0 (.integer 1)), s)⟩),
      (⟨"Subscription", "sale"⟩, .subscription resolver)]⟩,
    [(0, loader)], .default⟩

/-- The field of the request `subscription { sale { price } }`. -/
def field : RequestField := ⟨none, "sale", [], [⟨none, "price", [], []⟩]⟩

def plan : SubscriptionPlan Unit :=
  ⟨Sample.caller, "Subscription", field, resolver,
    Sample.caller.call "Subscription" .null field (.of "sale" (.named "Sale"))⟩

def stream : SubscriptionStream Unit :=
  ⟨0, 0, Sample.caller, "Subscription", field, resolver, .listening⟩

/-- The world in which the stream listens. -/
def world : World Unit :=
  .start (.single ⟨[("sales", [⟨0, fun _ => true⟩])], [(0, "sales")],
    [.new engine.settings.delivery], false⟩) ()

theorem answerOf_loader (name : String) {keys : List LoadKey} {key : LoadKey} (mem : key ∈ keys)
    (s : Unit) : LoaderState.answerOf name key (loader.fetch keys s).1 = .ok (.int 5) := by
  show LoaderState.answerOf name key (.ok (keys.map fun key => (key, .ok (.int 5)))) = _
  rw [LoaderState.answerOf, List.lookup_graph (fun _ => Except.ok (Json.int 5)) mem]
  rfl

theorem functional : engine.Functional where
  resolvers {key found} dispatched := by
    by_cases price : key = ⟨"Sale", "price"⟩
    · subst price
      cases dispatched
      refine ⟨fun call s s' new new' => ⟨rfl, by simp [Scope.requests, new, new']⟩, ?_⟩
      rintro call s _ ⟨⟩
      exact .deferred (fun v s s' new new' => ⟨rfl, by simp [Scope.requests, new, new']⟩)
        fun v s => .value v
    · have other : (key == (⟨"Sale", "price"⟩ : FieldKey)) = false := by simpa using price
      have missing : ∀ r : Resolver Unit, engine.dispatch.resolverFor key ≠ .ok r := by
        intro r
        simp only [engine, DispatchTable.resolverFor, DispatchTable.find?, List.lookup_cons, other,
          List.lookup_nil]
        cases key == (⟨"Subscription", "sale"⟩ : FieldKey) <;> intro found <;> cases found
      exact absurd dispatched (missing _)
  loaders {n found} known {keys keys' key} name store store' mem mem' := by
    obtain rfl : found = loader := by
      cases n with
      | zero =>
        cases known
        rfl
      | succ n => cases known
    rw [answerOf_loader name mem, answerOf_loader name mem']

abbrev sale : Deed := .publish 0 "sales" (.obj [])

/-- Two sales are published, and the first is executed. -/
def first : Life Unit :=
  (((((start stream world).does sale).does sale).poll engine).does (.advance 10)).poll engine

/-- The registration is released while the second sale waits for its price. -/
def last : Life Unit :=
  ((((first.poll engine).does (.unsubscribe 0 0)).does (.advance 10)).poll engine).poll engine

theorem seen :
    last.given = [⟨some (.obj [("sale", .obj [("price", .int 5)])]), []⟩,
      ⟨some (.obj [("sale", .obj [("price", .int 5)])]), []⟩] ∧
    last.items = [.event (.obj []), .event (.obj [])] ∧ last.stream.stage = .ended ∧
    last.world.signals.isCancelled last.stream.operation = false := by
  refine ⟨?_, ?_, ?_, ?_⟩ <;> cbv

/-- Each of the sales is answered as if it were the only one, and then the stream ends. -/
theorem subscription_stream_image_sales :
    engine.planSubscription ⟨none, .subscription, [field]⟩ Sample.caller = .ok plan ∧
    engine.pollSetup plan 0 none (.start default ()) = (.ready stream, world) ∧
    last.stream.stage = .ended ∧ ∃ handled : List Handled, handled.length = 2 ∧
      (∀ h ∈ handled, h.Alone engine stream ∧ h.event = .obj [] ∧
        h.response = ⟨some (.obj [("sale", .obj [("price", .int 5)])]), []⟩) ∧
      last.work = handled.flatMap (·.work) := by
  have planned :
      engine.planSubscription ⟨none, .subscription, [field]⟩ Sample.caller = .ok plan := by cbv
  have ready : engine.pollSetup plan 0 none (.start default ()) = (.ready stream, world) := by cbv
  have sale : ∀ node id, sale ≠ .receive node id := fun _ _ same => by cases same
  have wait : ∀ node id, Deed.advance 10 ≠ .receive node id := fun _ _ same => by cases same
  have release : ∀ node id, Deed.unsubscribe 0 0 ≠ .receive node id := fun _ _ same => by cases same
  have first : (start stream world).Reaches engine first :=
    ((((Life.Reaches.does .refl _ sale).does _ sale).poll).does _ wait).poll
  have life : (start stream world).Reaches engine last :=
    ((first.poll.does _ release).does _ wait).poll.poll
  have hosts : (World.start default () : World Unit).hub.Hosts World.node := by
    intro w other
    cases other
  obtain ⟨given, items, ended, running⟩ := seen
  obtain ⟨-, ⟨handled, rest, reports, unfinished, image, standing⟩, -⟩ :=
    subscription_stream_image functional hosts ready life
  have all : rest = [] ∧ reports = [] ∧ unfinished = [] := by
    cases standing with
    | drained => exact ⟨rfl, rfl, rfl⟩
    | listening stage | executing stage => cases ended.symm.trans stage
    | cancelled _ cancelled | dropped _ cancelled => cases running.symm.trans cancelled
    | @behind capacity =>
      have reported : .overflow capacity ∈ last.items := by
        rw [image.items]
        exact List.mem_append_right _ List.mem_cons_self
      rw [items] at reported
      simp at reported
  obtain ⟨rfl, rfl, rfl⟩ := all
  obtain ⟨alone, taken, answered, work⟩ := image
  rw [List.append_nil] at taken answered work
  refine ⟨planned, ready, ended, handled, ?_, fun h mem => ⟨alone h mem, ?_, ?_⟩, work⟩
  · have length := congrArg List.length taken
    rw [items, List.length_map] at length
    exact length.symm
  · have event : .event h.event ∈ last.items := taken ▸ List.mem_map_of_mem mem
    rw [items] at event
    simpa using event
  · have response : h.response ∈ last.given := answered ▸ List.mem_map_of_mem mem
    rw [given] at response
    simpa using response

end Sales

end GraphQLEngine
