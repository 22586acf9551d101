import GraphQLEngine.Proofs.Brokers.Sinks

/-!
# Waking the receiver

The receiver of a sink that finds nothing waits to be notified.  A sender first changes the sink, and
notifies afterwards: the waiting receiver if there is one, and otherwise the notification is stored for
the next one that would wait.  A receive may be abandoned at any time, and another one started.

    stage = waiting  →  queue = [] ∧ status = active, or a sender has yet to notify
    (b.run moves).sink = b.sink.run (b.effects moves)      whatever is abandoned
-/

namespace GraphQLEngine

/-- There is something for the receiver: an event, or the end. -/
def Sink.HasNews (s : Sink) : Prop := s.queue ≠ [] ∨ s.status ≠ .active

def Received.isNews : Received → Bool
  | .nothing => false
  | _ => true

theorem Sink.isNews_receive {s : Sink} : s.receive.2.isNews = true ↔ s.HasNews := by
  obtain ⟨policy, queue, status⟩ := s
  cases queue with
  | cons e rest => simp [receive, Received.isNews, HasNews]
  | nil => cases status <;> simp [receive, Received.isNews, HasNews]

theorem Sink.receive_silent {s : Sink} (silent : ¬s.receive.2.isNews = true) : s.receive.1 = s := by
  obtain ⟨policy, queue, status⟩ := s
  cases queue with
  | cons e rest => exact absurd rfl silent
  | nil =>
    cases status with
    | active => rfl
    | closed | overflowed => exact absurd rfl silent

/-- Whether a sender notifies the receiver after its move. -/
def Sink.notifies (s : Sink) : SinkMove → Bool
  | .push e => (s.push e).2 ≠ .closed ∧ (s.push e).2 ≠ .droppedNewest
  | .close => true
  | .overflow => s.policy.mode = .buffer ∧ s.status = .active
  | .receive => false

/-- A sender that does not notify has changed nothing. -/
theorem Sink.act_silent {s : Sink} {m : SinkMove} (sender : m.isReceive = false)
    (silent : s.notifies m = false) : s.act m = s := by
  cases m with
  | push e =>
    change (s.push e).1 = s
    simp only [notifies, push] at silent ⊢
    split
    · rfl
    · next active =>
      simp only [active, if_false] at silent
      split
      · next room => simp [room] at silent
      · next full =>
        simp only [full, if_false] at silent
        split <;> simp_all
  | close => cases silent
  | overflow => exact if_neg (by simpa [notifies] using silent)
  | receive => cases sender

/-- How far a receive has come. -/
inductive ReceiveStage where
  /-- None has been started. -/
  | idle
  | begun
  /-- What it will wait for has been created. -/
  | armed
  /-- It has found nothing. -/
  | looked
  | waiting
  /-- It has been notified, and has not resumed yet. -/
  | notified
deriving DecidableEq

/-- A sink with its notifier and its receiver. -/
structure Inbox where
  sink : Sink
  /-- How many senders have changed the sink and have yet to notify. -/
  owed : Nat
  /-- A notification is stored. -/
  permit : Bool
  stage : ReceiveStage

/-- What a sender or the receiver does next. -/
inductive InboxMove where
  | push (e : Json)
  | close
  | overflow
  /-- A sender notifies. -/
  | notify
  | start
  | create
  | look
  | wait
  | resume
  | abandon

/-- The move of a sender that changes the sink. -/
def InboxMove.sent : InboxMove → Option SinkMove
  | .push e => some (.push e)
  | .close => some .close
  | .overflow => some .overflow
  | _ => none

/-- The moves of a run in which every sender notifies at once. -/
def InboxMove.promptly (moves : List InboxMove) : List InboxMove :=
  moves.flatMap fun m => if m.sent.isSome then [m, .notify] else [m]

namespace Inbox

def new (policy : DeliveryPolicy) : Inbox := ⟨.new policy, 0, false, .idle⟩

def send (b : Inbox) (m : SinkMove) : Inbox :=
  { b with sink := b.sink.act m, owed := b.owed + if b.sink.notifies m then 1 else 0 }

/-- A notification goes to the waiting receiver, and is stored if there is none. -/
def notify (b : Inbox) : Inbox :=
  if b.stage = .waiting then { b with stage := .notified } else { b with permit := true }

/-- A receive that found something is over. -/
def look (b : Inbox) : Inbox :=
  { b with sink := b.sink.receive.1, stage := if b.sink.receive.2.isNews then .idle else .looked }

/-- A stored notification is used up at once, and the receiver looks again. -/
def wait (b : Inbox) : Inbox :=
  if b.permit then { b with permit := false, stage := .begun } else { b with stage := .waiting }

/-- A move that is not possible at this stage changes nothing. -/
def act (b : Inbox) : InboxMove → Inbox
  | .push e => b.send (.push e)
  | .close => b.send .close
  | .overflow => b.send .overflow
  | .notify => if 0 < b.owed then { b with owed := b.owed - 1 }.notify else b
  | .start => if b.stage = .idle then { b with stage := .begun } else b
  | .create => if b.stage = .begun then { b with stage := .armed } else b
  | .look => if b.stage = .armed then b.look else b
  | .wait => if b.stage = .looked then b.wait else b
  | .resume => if b.stage = .notified then { b with stage := .begun } else b
  -- the notification of a receive that has not resumed is stored again
  | .abandon => { b with stage := .idle, permit := b.permit || b.stage = .notified }

def run (b : Inbox) (moves : List InboxMove) : Inbox := moves.foldl act b

/-- What a move does to the sink. -/
def effect (b : Inbox) : InboxMove → List SinkMove
  | .look => if b.stage = .armed then [.receive] else []
  | m => m.sent.toList

/-- What a receive returns. -/
def told (b : Inbox) : InboxMove → List Received
  | .look => if b.stage = .armed then [b.sink.receive.2].filter (·.isNews) else []
  | _ => []

def effects (b : Inbox) (moves : List InboxMove) : List SinkMove := observe act effect b moves

/-- What the receives of a run return. -/
def given (b : Inbox) (moves : List InboxMove) : List Received := observe act told b moves

variable {b : Inbox}

/-- Most moves are possible at one stage only. -/
theorem when_possible {P : Inbox → Prop} (same : P b) {p : Prop} [Decidable p] {b' : Inbox}
    (step : p → P b') : P (if p then b' else b) := by
  split
  · exact step ‹_›
  · exact same

theorem sink_notify (b : Inbox) : b.notify.sink = b.sink := by
  unfold notify
  split <;> rfl

theorem sink_wait (b : Inbox) : b.wait.sink = b.sink := by
  unfold wait
  split <;> rfl

theorem owed_wait (b : Inbox) : b.wait.owed = b.owed := by
  unfold wait
  split <;> rfl

/-! ## The receiver is woken -/

/-- A receiver that has found nothing, and has something by now, is going to be notified. -/
structure Awake (b : Inbox) : Prop where
  looked : b.stage = .looked → b.sink.HasNews → b.permit = true ∨ 0 < b.owed
  waiting : b.stage = .waiting → b.permit = false ∧ (b.sink.HasNews → 0 < b.owed)

theorem awake_of_stage (looked : b.stage ≠ .looked) (waiting : b.stage ≠ .waiting) : b.Awake :=
  ⟨fun h => absurd h looked, fun h => absurd h waiting⟩

theorem awake_send (h : b.Awake) {m : SinkMove} (sender : m.isReceive = false) : (b.send m).Awake := by
  cases told : b.sink.notifies m with
  | true =>
    have owes : 0 < (b.send m).owed := by simp [send, told]
    exact ⟨fun _ _ => .inr owes, fun stage => ⟨(h.waiting stage).1, fun _ => owes⟩⟩
  | false =>
    have same : b.send m = b := by simp [send, told, Sink.act_silent sender told]
    rwa [same]

theorem awake_notify : b.notify.Awake := by
  unfold notify
  split
  · exact awake_of_stage (by simp) (by simp)
  · next other => exact ⟨fun _ _ => .inl rfl, fun stage => absurd stage other⟩

/-- A receive that found nothing has not missed anything. -/
theorem awake_look : b.look.Awake := by
  unfold look
  by_cases found : b.sink.receive.2.isNews = true
  · rw [if_pos found]
    exact awake_of_stage (by simp) (by simp)
  · rw [if_neg found]
    refine ⟨fun _ news => absurd news ?_, fun stage => by cases stage⟩
    rw [Sink.receive_silent found]
    rwa [← Sink.isNews_receive]

theorem awake_wait (h : b.Awake) (looked : b.stage = .looked) : b.wait.Awake := by
  unfold wait
  split
  · exact awake_of_stage (by simp) (by simp)
  · next none =>
    refine ⟨fun stage => (by cases stage), fun _ => ⟨by simpa using none, fun news => ?_⟩⟩
    exact (h.looked looked news).resolve_left none

theorem awake_act (h : b.Awake) (m : InboxMove) : (b.act m).Awake := by
  cases m with
  | push e => exact awake_send h rfl
  | close => exact awake_send h rfl
  | overflow => exact awake_send h rfl
  | notify => exact when_possible (P := Awake) h fun _ => awake_notify
  | start => exact when_possible (P := Awake) h fun _ => awake_of_stage (by simp) (by simp)
  | create => exact when_possible (P := Awake) h fun _ => awake_of_stage (by simp) (by simp)
  | look => exact when_possible (P := Awake) h fun _ => awake_look
  | wait => exact when_possible (P := Awake) h (awake_wait h)
  | resume => exact when_possible (P := Awake) h fun _ => awake_of_stage (by simp) (by simp)
  | abandon => exact awake_of_stage (by simp [act]) (by simp [act])

theorem awake_run (h : b.Awake) (moves : List InboxMove) : (b.run moves).Awake := by
  induction moves generalizing b with
  | nil => exact h
  | cons m ms ih => exact ih (awake_act h m)

/-! ## A receive that was started returns -/

theorem run_append (b : Inbox) (ms ns : List InboxMove) : b.run (ms ++ ns) = (b.run ms).run ns :=
  List.foldl_append

theorem given_append (b : Inbox) (ms ns : List InboxMove) :
    b.given (ms ++ ns) = b.given ms ++ (b.run ms).given ns :=
  observe_append act told b ms ns

theorem owed_notify (b : Inbox) : (b.act .notify).owed = b.owed - 1 := by
  change (if 0 < b.owed then notify { b with owed := b.owed - 1 } else b).owed = _
  split
  · unfold notify
    split <;> rfl
  · omega

theorem act_sent {m : InboxMove} {change : SinkMove} (sent : m.sent = some change) :
    b.act m = b.send change := by
  cases m <;> cases sent <;> rfl

/-- Only a sender that changes the sink comes to owe a notification. -/
theorem owed_act (b : Inbox) {m : InboxMove} (other : m.sent = none) : (b.act m).owed ≤ b.owed := by
  let P : Inbox → Prop := fun b' => b'.owed ≤ b.owed
  have same : P b := Nat.le_refl _
  cases m with
  | push | close | overflow => cases other
  | notify => exact owed_notify b ▸ Nat.sub_le _ _
  | start | create | look | resume => exact when_possible (P := P) same fun _ => same
  | wait => exact when_possible (P := P) same fun _ => Nat.le_of_eq (owed_wait b)
  | abandon => exact same

theorem owed_prompt (none : b.owed = 0) (m : InboxMove) :
    (b.run (if m.sent.isSome then [m, .notify] else [m])).owed = 0 := by
  cases sent : m.sent with
  | none => exact Nat.le_zero.mp (none ▸ owed_act b sent)
  | some change =>
    show ((b.act m).act .notify).owed = 0
    rw [act_sent sent, owed_notify, send, none]
    split <;> rfl

/-- Senders that notify at once owe nothing afterwards. -/
theorem owed_promptly (none : b.owed = 0) (moves : List InboxMove) :
    (b.run (InboxMove.promptly moves)).owed = 0 := by
  induction moves generalizing b with
  | nil => exact none
  | cons m ms ih =>
    rw [InboxMove.promptly, List.flatMap_cons, run_append]
    exact ih (owed_prompt none m)

/-- Notifying changes neither the sink nor what is returned. -/
theorem run_notify (n : Nat) (owed : b.owed = n) :
    (b.run (List.replicate n .notify)).sink = b.sink ∧
      (b.run (List.replicate n .notify)).owed = 0 ∧
      ((b.run (List.replicate n .notify)).stage = .idle → b.stage = .idle) ∧
      b.given (List.replicate n .notify) = [] := by
  induction n generalizing b with
  | zero => exact ⟨rfl, owed, id, rfl⟩
  | succ n ih =>
    have next : b.act .notify = notify { b with owed := n } := by
      change (if 0 < b.owed then notify { b with owed := b.owed - 1 } else b) = _
      rw [owed, if_pos (Nat.succ_pos n), Nat.add_sub_cancel]
    have kept : (b.act .notify).sink = b.sink ∧ (b.act .notify).owed = n ∧
        ((b.act .notify).stage = .idle → b.stage = .idle) := by
      rw [next, notify]
      split
      · exact ⟨rfl, rfl, fun h => by cases h⟩
      · exact ⟨rfl, rfl, id⟩
    obtain ⟨sink, none, stage, given⟩ := ih kept.2.1
    exact ⟨sink.trans kept.1, none, fun h => kept.2.2 (stage h), given⟩

/-- When the senders have notified, a receive is at most four moves from its end. -/
theorem returns_when_notified (awake : b.Awake) (none : b.owed = 0) (started : b.stage ≠ .idle)
    (news : b.sink.HasNews) :
    b.given [.wait, .resume, .create, .look] = [b.sink.receive.2] ∧
      (b.run [.wait, .resume, .create, .look]).stage = .idle := by
  have found := Sink.isNews_receive.mpr news
  obtain ⟨sink, owed, permit, stage⟩ := b
  dsimp only at none found
  subst none
  cases stage with
  | idle => exact absurd rfl started
  | begun | armed | notified => simp [given, observe, run, act, told, look, found]
  | looked =>
    obtain rfl : permit = true := (awake.looked rfl news).resolve_right (Nat.lt_irrefl 0)
    simp [given, observe, run, act, told, wait, look, found]
  | waiting => exact absurd ((awake.waiting rfl).2 news) (Nat.lt_irrefl 0)

/-- A receive that was started returns what there is, once the senders have notified and after at most
four moves of its own. -/
theorem returns_news (awake : b.Awake) (started : b.stage ≠ .idle) (news : b.sink.HasNews) :
    let moves := List.replicate b.owed .notify ++ [.wait, .resume, .create, .look]
    b.given moves = [b.sink.receive.2] ∧ (b.run moves).stage = .idle := by
  intro moves
  obtain ⟨sink, none, stage, given⟩ := run_notify b.owed rfl
  have notified := returns_when_notified (awake_run awake (List.replicate b.owed .notify)) none
    (fun h => started (stage h)) (by rwa [sink])
  rw [sink] at notified
  rw [given_append, run_append, given, List.nil_append]
  exact notified

/-! ## Nothing is lost -/

/-- The sink takes part in a move as its effect says, and what it tells is returned. -/
theorem sink_act (b : Inbox) (m : InboxMove) : (b.act m).sink = b.sink.run (b.effect m) ∧
    b.told m = (b.sink.answers (b.effect m)).filter (·.isNews) := by
  let P : Inbox → Prop := fun b' => b'.sink = b.sink
  have same : P b := rfl
  cases m with
  | push | close | overflow | abandon => exact ⟨rfl, rfl⟩
  | notify => exact ⟨when_possible (P := P) same fun _ => sink_notify _, rfl⟩
  | start | create | resume => exact ⟨when_possible (P := P) same fun _ => same, rfl⟩
  | wait => exact ⟨when_possible (P := P) same fun _ => sink_wait b, rfl⟩
  | look =>
    by_cases armed : b.stage = .armed
    · simp only [act, effect, told, if_pos armed]
      exact ⟨rfl, rfl⟩
    · simp only [act, effect, told, if_neg armed]
      exact ⟨rfl, rfl⟩

/-- Whatever is abandoned, a run is one of the sink, and what the sink tells is returned. -/
theorem sink_run (b : Inbox) (moves : List InboxMove) :
    (b.run moves).sink = b.sink.run (b.effects moves) ∧
      b.given moves = (b.sink.answers (b.effects moves)).filter (·.isNews) := by
  induction moves generalizing b with
  | nil => exact ⟨rfl, rfl⟩
  | cons m ms ih =>
    obtain ⟨sink, told⟩ := sink_act b m
    obtain ⟨rest, given⟩ := ih (b.act m)
    rw [sink] at rest given
    have next := Sink.run_append b.sink (b.effect m) ((b.act m).effects ms)
    refine ⟨rest.trans next.symm, ?_⟩
    change b.told m ++ (b.act m).given ms = _
    have both := observe_append Sink.act Sink.found b.sink (b.effect m) ((b.act m).effects ms)
    rw [told, given, ← List.filter_append]
    exact congrArg (List.filter _) both.symm

theorem filterMap_news (rs : List Received) :
    (rs.filter (·.isNews)).filterMap Received.event? = rs.filterMap Received.event? := by
  rw [List.filterMap_filter]
  congr 1
  funext r
  cases r <;> rfl

/-- Only a push can displace an event.  All other moves leave it where it is, or return it. -/
theorem queue_act (b : Inbox) {m : InboxMove} (other : ∀ e, m ≠ .push e) :
    (b.told m).filterMap Received.event? ++ (b.act m).sink.queue = b.sink.queue := by
  obtain ⟨sink, told⟩ := sink_act b m
  rw [told, sink, filterMap_news]
  cases m with
  | push e => exact absurd rfl (other e)
  | close => exact Sink.queue_close b.sink
  | overflow => exact Sink.queue_overflow b.sink
  | notify | start | create | wait | resume | abandon => rfl
  | look =>
    by_cases armed : b.stage = .armed
    · simp only [effect, if_pos armed]
      exact Sink.queue_receive b.sink
    · simp only [effect, if_neg armed]
      rfl

theorem queue_run (b : Inbox) {moves : List InboxMove} (other : ∀ e, .push e ∉ moves) :
    (b.given moves).filterMap Received.event? ++ (b.run moves).sink.queue = b.sink.queue := by
  induction moves generalizing b with
  | nil => rfl
  | cons m ms ih =>
    have here := queue_act b fun e eq => other e (eq ▸ List.mem_cons_self)
    have rest := ih (b.act m) fun e mem => other e (List.mem_cons_of_mem _ mem)
    change (b.told m ++ (b.act m).given ms).filterMap Received.event? ++ _ = _
    rw [List.filterMap_append, List.append_assoc, ← here]
    exact congrArg (_ ++ ·) rest

/-- What a sink that is not open holds is returned, item by item. -/
theorem rest_run (b : Inbox) (ended : b.sink.status ≠ .active) (moves : List InboxMove) :
    (b.given moves).filter (·.isItem) ++ (b.run moves).sink.rest = b.sink.rest := by
  obtain ⟨sink, given⟩ := sink_run b moves
  have items : ∀ rs : List Received, (rs.filter (·.isNews)).filter (·.isItem) =
      rs.filter (·.isItem) := by
    intro rs
    rw [List.filter_filter]
    congr 1
    funext r
    cases r <;> rfl
  rw [given, sink, items]
  exact Sink.rest_run ended (b.effects moves)

/-- A receive that is started in the place of an abandoned one returns what there is. -/
theorem given_anew (b : Inbox) :
    b.given [.abandon, .start, .create, .look] = [b.sink.receive.2].filter (·.isNews) := by
  simp [given, observe, told, act]

/-- No wake-up is lost, whatever the order of the moves.  A receiver waits only while the sink is empty
and open, or until a sender that has changed it notifies: not at all if every sender notifies at once.
If there is something, a receive that was started returns it, once the senders have notified and after
at most four moves of its own.

Abandoning receives loses nothing.  What was returned is what the sink told in a run of its own, and the
events that it admitted have been returned or are queued, unless the oldest were to make room.  Whatever
follows, only a push can displace an event, and what a sink that is not open still holds is returned,
the final error included; a new receive returns what an abandoned one would have. -/
theorem no_wakeup_lost (policy : DeliveryPolicy) (moves : List InboxMove) :
    let fresh := Inbox.new policy
    let b := fresh.run moves
    let prompt := fresh.run (InboxMove.promptly moves)
    (b.stage = .waiting → b.sink.HasNews → 0 < b.owed) ∧
    (prompt.stage = .waiting → ¬prompt.sink.HasNews) ∧
    (b.stage ≠ .idle → b.sink.HasNews →
      let finish := List.replicate b.owed .notify ++ [.wait, .resume, .create, .look]
      b.given finish = [b.sink.receive.2] ∧ (b.run finish).stage = .idle) ∧
    b.sink = (Sink.new policy).run (fresh.effects moves) ∧
    fresh.given moves = ((Sink.new policy).answers (fresh.effects moves)).filter (·.isNews) ∧
    (policy.mode ≠ .dropOldest →
      (fresh.given moves).filterMap Received.event? ++ b.sink.queue =
        (Sink.new policy).admits (fresh.effects moves)) ∧
    (∀ later, (∀ e, .push e ∉ later) →
      (b.given later).filterMap Received.event? ++ (b.run later).sink.queue = b.sink.queue) ∧
    (b.sink.status ≠ .active → ∀ later,
      (b.given later).filter (·.isItem) ++ (b.run later).sink.rest = b.sink.rest) ∧
    b.given [.abandon, .start, .create, .look] = [b.sink.receive.2].filter (·.isNews) := by
  intro fresh b prompt
  have start : fresh.Awake := awake_of_stage (by simp [fresh, new]) (by simp [fresh, new])
  have awake : b.Awake := awake_run start moves
  obtain ⟨sink, given⟩ := sink_run fresh moves
  refine ⟨fun stage => (awake.waiting stage).2, fun stage news => ?_, returns_news awake, sink, given,
    fun kept => ?_, fun later => queue_run b, rest_run b, given_anew b⟩
  · have owes := ((awake_run start (InboxMove.promptly moves)).waiting stage).2 news
    rw [owed_promptly rfl] at owes
    exact Nat.lt_irrefl 0 owes
  · have all := Sink.conserved_run (s := fresh.sink) kept (fresh.effects moves)
    rw [← sink, Sink.received, ← filterMap_news, ← given] at all
    exact all

/-- An event comes after the receiver has looked and before it waits.  The receiver waits until the
sender notifies, and then returns the event.  If it abandons its receive instead, and the sink is
closed, the next receives return the event and the end. -/
theorem no_wakeup_lost_raced :
    let b := (Inbox.new ⟨.buffer, 2⟩).run [.start, .create, .look, .push (.str "a"), .wait]
    b.stage = .waiting ∧ b.sink.HasNews ∧ 0 < b.owed ∧
      b.given [.notify, .wait, .resume, .create, .look] = [.event (.str "a")] ∧
      b.given [.notify, .abandon, .close, .start, .create, .look, .start, .create, .look] =
        [.event (.str "a"), .ended] := by
  intro b
  have news : b.sink.HasNews := .inl (List.cons_ne_nil _ _)
  obtain ⟨wakes, -, returns, -⟩ := no_wakeup_lost ⟨.buffer, 2⟩
    [.start, .create, .look, .push (.str "a"), .wait]
  exact ⟨rfl, news, wakes rfl news, (returns (by decide) news).1, rfl⟩

end Inbox

end GraphQLEngine
