import GraphQLEngine.Proofs.Brokers.Streams

/-!
# Sinks over time

The broker and the receiver of a sink take turns in any order: events are pushed, the sink is closed
or forced to overflow, and the receiver asks for what there is.  What the receiver has been given,
and then what is queued, is some of what was pushed, in order.  A sink that buffers its events loses
none of those for which it had room, and tells its receiver why it ended.

    (received s moves ++ (s.run moves).queue).Sublist (s.queue ++ offers s moves)
    received s moves ++ (s.run moves).queue = s.queue ++ admits s moves     nothing is displaced
    answers s moves = ending s.rest (receives moves)                        once it is not open
-/

namespace GraphQLEngine

/-- What is seen of each move of a run, in order. -/
def observe {S M α : Type} (act : S → M → S) (see : S → M → List α) (s : S) : List M → List α
  | [] => []
  | m :: ms => see s m ++ observe act see (act s m) ms

theorem observe_append {S M α : Type} (act : S → M → S) (see : S → M → List α) (s : S)
    (ms ns : List M) :
    observe act see s (ms ++ ns) = observe act see s ms ++ observe act see (ms.foldl act s) ns := by
  induction ms generalizing s with
  | nil => rfl
  | cons m ms ih =>
    show see s m ++ observe act see (act s m) (ms ++ ns) = _
    rw [ih, ← List.append_assoc]
    rfl

/-- What is done to a sink. -/
inductive SinkMove where
  | push (e : Json)
  | close
  | overflow
  | receive

namespace SinkMove

def isReceive : SinkMove → Bool
  | .receive => true
  | _ => false

/-- The event that is pushed. -/
def pushed : SinkMove → List Json
  | .push e => [e]
  | _ => []

/-- How often the receiver asks. -/
def receives (moves : List SinkMove) : Nat := moves.countP isReceive

end SinkMove

open SinkMove (receives pushed)

def Received.event? : Received → Option Json
  | .event e => some e
  | _ => none

/-- The first `n` answers to a receiver that is given some items and then the end. -/
def ending (items : List Received) (n : Nat) : List Received :=
  (items ++ List.replicate n Received.ended).take n

theorem ending_nil (n : Nat) : ending [] n = List.replicate n Received.ended := by
  simp [ending]

theorem ending_cons (r : Received) (items : List Received) (n : Nat) :
    ending (r :: items) (n + 1) = r :: ending items n := by
  simp only [ending, List.cons_append, List.take_succ_cons, List.take_append, List.take_replicate]
  congr 3
  omega

theorem length_ending (items : List Received) (n : Nat) : (ending items n).length = n := by
  simp [ending]

namespace Sink

def act (s : Sink) : SinkMove → Sink
  | .push e => (s.push e).1
  | .close => s.close
  | .overflow => s.overflow
  | .receive => s.receive.1

def run (s : Sink) (moves : List SinkMove) : Sink := moves.foldl act s

/-- What the receiver is told. -/
def found (s : Sink) : SinkMove → List Received
  | .receive => [s.receive.2]
  | _ => []

/-- An event that is pushed while the sink is open. -/
def offered (s : Sink) : SinkMove → List Json
  | .push e => if s.status = .active then [e] else []
  | _ => []

/-- An event that is pushed while the sink is open and has room. -/
def admitted (s : Sink) : SinkMove → List Json
  | .push e => if s.status = .active ∧ s.queue.length < s.policy.capacity then [e] else []
  | _ => []

def answers (s : Sink) (moves : List SinkMove) : List Received := observe act found s moves

def received (s : Sink) (moves : List SinkMove) : List Json :=
  (s.answers moves).filterMap Received.event?

/-- The events pushed while the sink is open. -/
def offers (s : Sink) (moves : List SinkMove) : List Json := observe act offered s moves

/-- The events pushed while the sink is open and has room. -/
def admits (s : Sink) (moves : List SinkMove) : List Json := observe act admitted s moves

variable {s : Sink}

theorem run_append (s : Sink) (ms ns : List SinkMove) : s.run (ms ++ ns) = (s.run ms).run ns :=
  List.foldl_append

theorem received_append (s : Sink) (ms ns : List SinkMove) :
    s.received (ms ++ ns) = s.received ms ++ (s.run ms).received ns := by
  simp only [received, answers, observe_append, List.filterMap_append]
  rfl

theorem offers_append (s : Sink) (ms ns : List SinkMove) :
    s.offers (ms ++ ns) = s.offers ms ++ (s.run ms).offers ns :=
  observe_append act offered s ms ns

theorem admits_append (s : Sink) (ms ns : List SinkMove) :
    s.admits (ms ++ ns) = s.admits ms ++ (s.run ms).admits ns :=
  observe_append act admitted s ms ns

theorem received_cons (s : Sink) (m : SinkMove) (ms : List SinkMove) :
    s.received (m :: ms) = (s.found m).filterMap Received.event? ++ (s.act m).received ms :=
  List.filterMap_append

/-! ## Single moves -/

theorem close_active (active : s.status = .active) : s.close = { s with status := .closed } := by
  simp [close, active]

theorem close_ended (ended : s.status ≠ .active) : s.close = s := by
  simp [close, ended]

theorem overflow_ended (ended : s.status ≠ .active) : s.overflow = s := by
  simp [overflow, ended]

theorem push_ended (ended : s.status ≠ .active) (e : Json) : s.push e = (s, .closed) := by
  simp [push, ended]

theorem queue_close (s : Sink) : s.close.queue = s.queue := by
  unfold close
  split <;> rfl

theorem queue_overflow (s : Sink) : s.overflow.queue = s.queue := by
  unfold overflow
  split <;> rfl

theorem policy_act (s : Sink) (m : SinkMove) : (s.act m).policy = s.policy := by
  cases m with
  | push e => exact policy_push s e
  | close =>
    show s.close.policy = s.policy
    unfold close
    split <;> rfl
  | overflow =>
    show s.overflow.policy = s.policy
    unfold overflow
    split <;> rfl
  | receive => exact policy_receive s

theorem policy_run (s : Sink) (moves : List SinkMove) : (s.run moves).policy = s.policy := by
  induction moves generalizing s with
  | nil => rfl
  | cons m ms ih => exact (ih (s.act m)).trans (policy_act s m)

/-- The receiver waits where the sink is empty and open. -/
theorem receive_nothing_iff (s : Sink) :
    s.receive.2 = .nothing ↔ s.queue = [] ∧ s.status = .active := by
  obtain ⟨policy, queue, status⟩ := s
  cases queue with
  | cons e rest => simp [receive]
  | nil => cases status <;> simp [receive]

/-- To receive takes the first event off the queue, if there is any. -/
theorem queue_receive (s : Sink) :
    [s.receive.2].filterMap Received.event? ++ s.receive.1.queue = s.queue := by
  obtain ⟨policy, queue, status⟩ := s
  cases queue with
  | cons e rest => rfl
  | nil => cases status <;> rfl

theorem length_queue_act (pos : 0 < s.policy.capacity) (le : s.queue.length ≤ s.policy.capacity)
    (m : SinkMove) : (s.act m).queue.length ≤ s.policy.capacity := by
  cases m with
  | push e => exact length_queue_push s e pos le
  | close =>
    show s.close.queue.length ≤ _
    rw [queue_close]
    exact le
  | overflow =>
    show s.overflow.queue.length ≤ _
    rw [queue_overflow]
    exact le
  | receive =>
    have split := congrArg List.length s.queue_receive
    rw [List.length_append] at split
    show s.receive.1.queue.length ≤ _
    omega

/-- The queue never holds more than the capacity. -/
theorem length_queue_run (pos : 0 < s.policy.capacity) (le : s.queue.length ≤ s.policy.capacity)
    (moves : List SinkMove) : (s.run moves).queue.length ≤ s.policy.capacity := by
  induction moves generalizing s with
  | nil => exact le
  | cons m ms ih =>
    have policy := policy_act s m
    have next := ih (s := s.act m) (policy ▸ pos) (policy ▸ length_queue_act pos le m)
    rwa [policy] at next

/-! ## What becomes of the events -/

/-- An event that was displaced is the oldest of the queue, so the order is kept. -/
theorem sublist_act (s : Sink) (m : SinkMove) :
    ((s.found m).filterMap Received.event? ++ (s.act m).queue).Sublist
      (s.queue ++ s.offered m) := by
  cases m with
  | push e =>
    show ((s.push e).1.queue).Sublist (s.queue ++ if s.status = .active then [e] else [])
    by_cases active : s.status = .active
    · rw [if_pos active]
      unfold push
      rw [if_neg (by simpa using active)]
      split
      · exact .refl _
      · split
        · exact List.sublist_append_left _ _
        · exact (List.tail_sublist _).append (.refl _)
        · exact List.sublist_append_left _ _
    · rw [if_neg active, push_ended active]
      simp
  | close =>
    show (s.close.queue).Sublist (s.queue ++ [])
    simp [queue_close]
  | overflow =>
    show (s.overflow.queue).Sublist (s.queue ++ [])
    simp [queue_overflow]
  | receive =>
    show ([s.receive.2].filterMap Received.event? ++ s.receive.1.queue).Sublist (s.queue ++ [])
    simp [queue_receive]

/-- What was received and then what is queued are some of the events offered, in order. -/
theorem sublist_offers (s : Sink) (moves : List SinkMove) :
    (s.received moves ++ (s.run moves).queue).Sublist (s.queue ++ s.offers moves) := by
  induction moves generalizing s with
  | nil =>
    show (s.queue).Sublist (s.queue ++ [])
    simp
  | cons m ms ih =>
    rw [received_cons, List.append_assoc]
    refine ((List.Sublist.refl _).append (ih (s.act m))).trans ?_
    rw [← List.append_assoc]
    refine ((sublist_act s m).append (.refl _)).trans ?_
    rw [List.append_assoc]
    exact .refl _

/-- Unless the oldest event makes room, nothing that was queued is lost. -/
theorem conserved_act (kept : s.policy.mode ≠ .dropOldest) (m : SinkMove) :
    (s.found m).filterMap Received.event? ++ (s.act m).queue = s.queue ++ s.admitted m := by
  cases m with
  | push e =>
    show (s.push e).1.queue = s.queue ++ _
    by_cases active : s.status = .active
    · by_cases room : s.queue.length < s.policy.capacity
      · simp [push, admitted, active, room]
      · simp only [push, admitted, active, room, ne_eq, not_true, if_false, and_false,
          List.append_nil]
        split <;> first | rfl | contradiction
    · simp [push, admitted, active]
  | close =>
    show s.close.queue = s.queue ++ []
    rw [queue_close, List.append_nil]
  | overflow =>
    show s.overflow.queue = s.queue ++ []
    rw [queue_overflow, List.append_nil]
  | receive =>
    show [s.receive.2].filterMap Received.event? ++ s.receive.1.queue = s.queue ++ []
    rw [queue_receive, List.append_nil]

/-- What was received and then what is queued are the events for which there was room. -/
theorem conserved_run (kept : s.policy.mode ≠ .dropOldest) (moves : List SinkMove) :
    s.received moves ++ (s.run moves).queue = s.queue ++ s.admits moves := by
  induction moves generalizing s with
  | nil =>
    show s.queue = s.queue ++ []
    rw [List.append_nil]
  | cons m ms ih =>
    have kept' : (s.act m).policy.mode ≠ .dropOldest := by rwa [policy_act]
    calc s.received (m :: ms) ++ (s.run (m :: ms)).queue
        = (s.found m).filterMap Received.event? ++
            ((s.act m).received ms ++ ((s.act m).run ms).queue) := by
          rw [received_cons, List.append_assoc]
          rfl
      _ = (s.found m).filterMap Received.event? ++ (s.act m).queue ++ (s.act m).admits ms := by
          rw [ih kept', List.append_assoc]
      _ = s.queue ++ s.admits (m :: ms) := by
          rw [conserved_act kept, List.append_assoc]
          rfl

/-! ## Sinks that are not open -/

theorem ended_act (ended : s.status ≠ .active) (m : SinkMove) : (s.act m).status ≠ .active := by
  cases m with
  | push e =>
    show (s.push e).1.status ≠ .active
    rwa [push_ended ended]
  | close =>
    show s.close.status ≠ .active
    rwa [close_ended ended]
  | overflow =>
    show s.overflow.status ≠ .active
    rwa [overflow_ended ended]
  | receive => exact ended_receive ended

theorem ended_run (ended : s.status ≠ .active) (moves : List SinkMove) :
    (s.run moves).status ≠ .active := by
  induction moves generalizing s with
  | nil => exact ended
  | cons m ms ih => exact ih (ended_act ended m)

/-- Only the receiver touches a sink that is not open. -/
theorem act_ended (ended : s.status ≠ .active) {m : SinkMove} (other : m.isReceive = false) :
    s.act m = s := by
  cases m with
  | push e =>
    show (s.push e).1 = s
    rw [push_ended ended]
  | close => exact close_ended ended
  | overflow => exact overflow_ended ended
  | receive => cases other

theorem receive_ended (ended : s.status ≠ .active) :
    (s.rest = [] ∧ s.receive = (s, .ended)) ∨ s.rest = s.receive.2 :: s.receive.1.rest := by
  obtain ⟨policy, queue, status⟩ := s
  cases queue with
  | cons e rest => exact .inr rfl
  | nil =>
    cases status with
    | active => exact absurd rfl ended
    | closed => exact .inl ⟨rfl, rfl⟩
    | overflowed => exact .inr rfl

/-- A sink that is not open gives out what is left, and then the end. -/
theorem answers_ended (ended : s.status ≠ .active) (moves : List SinkMove) :
    s.answers moves = ending s.rest (receives moves) := by
  induction moves generalizing s with
  | nil => rfl
  | cons m ms ih =>
    show s.found m ++ (s.act m).answers ms = _
    cases asks : m.isReceive with
    | false =>
      have none : s.found m = [] := by cases m <;> first | rfl | cases asks
      rw [none, act_ended ended asks, ih ended]
      simp [receives, asks]
    | true =>
      obtain rfl : m = .receive := by cases m <;> first | rfl | cases asks
      have count : receives (.receive :: ms) = receives ms + 1 := List.countP_cons_of_pos rfl
      show s.receive.2 :: (s.receive.1).answers ms = _
      rw [ih (ended_receive ended), count]
      rcases receive_ended ended with ⟨rest, eq⟩ | rest
      · rw [rest, eq]
        show .ended :: ending s.rest (receives ms) = _
        rw [rest, ending_nil, ending_nil]
        rfl
      · rw [rest, ending_cons]

/-- What a sink that is not open gives out is taken from what is left. -/
theorem rest_run (ended : s.status ≠ .active) (moves : List SinkMove) :
    (s.answers moves).filter (·.isItem) ++ (s.run moves).rest = s.rest := by
  induction moves generalizing s with
  | nil => rfl
  | cons m ms ih =>
    show (s.found m ++ (s.act m).answers ms).filter _ ++ ((s.act m).run ms).rest = s.rest
    rw [List.filter_append, List.append_assoc, ih (ended_act ended m)]
    cases asks : m.isReceive with
    | false =>
      rw [act_ended ended asks]
      cases m with
      | receive => cases asks
      | push | close | overflow => rfl
    | true =>
      obtain rfl : m = .receive := by cases m <;> first | rfl | cases asks
      exact s.rest_receive

theorem admits_ended (ended : s.status ≠ .active) (moves : List SinkMove) :
    s.admits moves = [] := by
  induction moves generalizing s with
  | nil => rfl
  | cons m ms ih =>
    have none : s.admitted m = [] := by cases m <;> simp [admitted, ended]
    show s.admitted m ++ (s.act m).admits ms = []
    rw [none, ih (ended_act ended m)]
    rfl

/-! ## Sinks that buffer their events -/

/-- The move makes an open sink that buffers its events overflow. -/
def Overflows (s : Sink) (m : SinkMove) : Prop :=
  s.status = .active ∧ (m = .overflow ∨ ∃ e, m = .push e ∧ s.queue.length = s.policy.capacity)

theorem act_overflows (buffer : s.policy.mode = .buffer) {m : SinkMove} (h : s.Overflows m) :
    s.act m = { s with status := .overflowed } := by
  obtain ⟨active, rfl | ⟨e, rfl, full⟩⟩ := h
  · simp [act, overflow, buffer, active]
  · show (s.push e).1 = _
    rw [push_full active (by omega) buffer]

/-- An open sink that buffers its events stays open, is closed or overflows. -/
theorem act_cases (active : s.status = .active)
    (le : s.queue.length ≤ s.policy.capacity) (m : SinkMove) :
    (s.act m).status = .active ∨ m = .close ∨ s.Overflows m := by
  cases m with
  | push e =>
    by_cases room : s.queue.length < s.policy.capacity
    · left
      show (s.push e).1.status = .active
      rw [push_room active room]
      exact active
    · exact .inr (.inr ⟨active, .inr ⟨e, rfl, by omega⟩⟩)
  | close => exact .inr (.inl rfl)
  | overflow => exact .inr (.inr ⟨active, .inl rfl⟩)
  | receive => exact .inl (active_receive active)

/-- The events with room are the first of those that are pushed: the first one without room ends the
sink. -/
theorem prefix_admits (buffer : s.policy.mode = .buffer) (moves : List SinkMove) :
    s.admits moves <+: moves.flatMap pushed := by
  induction moves generalizing s with
  | nil => exact List.prefix_rfl
  | cons m ms ih =>
    have next := ih (s := s.act m) (by rwa [policy_act])
    show s.admitted m ++ (s.act m).admits ms <+: pushed m ++ ms.flatMap pushed
    cases m with
    | push e =>
      by_cases active : s.status = .active
      · by_cases room : s.queue.length < s.policy.capacity
        · simp only [admitted, active, room, and_self, if_true]
          exact (List.prefix_append_right_inj _).mpr next
        · have ended : (s.act (.push e)).status ≠ .active := by
            show (s.push e).1.status ≠ .active
            rw [push_full active room buffer]
            simp
          simp only [admitted, room, and_false, if_false, admits_ended ended]
          exact List.nil_prefix
      · simp only [admitted, active, false_and, if_false]
        rw [admits_ended (ended_act active _)]
        exact List.nil_prefix
    | close => exact next
    | overflow => exact next
    | receive => exact next

/-- A sink that is not open any more was closed or overflowed while it was open. -/
theorem left_open (pos : 0 < s.policy.capacity) (le : s.queue.length ≤ s.policy.capacity)
    (active : s.status = .active) (moves : List SinkMove)
    (ended : (s.run moves).status ≠ .active) :
    ∃ before cause after, moves = before ++ cause :: after ∧ (s.run before).status = .active ∧
      (cause = .close ∨ (s.run before).Overflows cause) := by
  induction moves generalizing s with
  | nil => exact absurd active ended
  | cons m ms ih =>
    have policy := policy_act s m
    rcases act_cases active le m with stays | leaves
    · obtain ⟨before, cause, after, rfl, found⟩ := ih (s := s.act m) (by rwa [policy])
        (policy ▸ length_queue_act pos le m) stays ended
      exact ⟨m :: before, cause, after, rfl, found⟩
    · exact ⟨[], m, ms, rfl, active, leaves⟩

/-- A receiver that is given the end, or the report of an overflow, has been given all there was. -/
theorem drained_of_end
    (told : s.receive.2 = .ended ∨ ∃ capacity, s.receive.2 = .overflow capacity) :
    s.queue = [] ∧ s.status ≠ .active := by
  obtain ⟨policy, queue, status⟩ := s
  cases queue with
  | cons e rest => simp [receive] at told
  | nil => cases status <;> simp [receive] at told ⊢

/-- A sink that buffers its events loses none silently.  Whatever the order of the moves: the queue
is bounded by the capacity; what was received is the first of what was pushed, and what is queued
are the next of those events that came while the sink was open and had room; the receiver waits
exactly where the sink is empty and open; and before it is told of any end it is given all events
for which there was room.  The sink is open, or it was left by closing it or by an overflow,
whichever came first: after an overflow the receiver is given the queued events, one report and then
the end, and after a close the queued events and then the end, whatever is done to it later. -/
theorem buffer_loses_nothing (c : Nat) (pos : 0 < c) (moves : List SinkMove) :
    let fresh := Sink.new ⟨.buffer, c⟩
    (fresh.run moves).queue.length ≤ c ∧
      fresh.received moves <+: moves.flatMap pushed ∧
      fresh.received moves ++ (fresh.run moves).queue = fresh.admits moves ∧
      ((fresh.run moves).receive.2 = .nothing ↔
        (fresh.run moves).queue = [] ∧ (fresh.run moves).status = .active) ∧
      (∀ before after, moves = before ++ .receive :: after →
        ((fresh.run before).receive.2 = .ended ∨
          ∃ n, (fresh.run before).receive.2 = .overflow n) →
        fresh.received before = fresh.admits moves) ∧
      ((fresh.run moves).status = .active ∨ ∃ before cause after,
        moves = before ++ cause :: after ∧ (fresh.run before).status = .active ∧
          (cause = .close ∨ (fresh.run before).Overflows cause)) ∧
      (∀ before cause after, moves = before ++ cause :: after →
        (fresh.run before).Overflows cause →
        (fresh.run (before ++ [cause])).answers after =
          ending ((fresh.run before).queue.map .event ++ [.overflow c]) (receives after)) ∧
      ∀ before after, moves = before ++ .close :: after → (fresh.run before).status = .active →
        (fresh.run (before ++ [.close])).answers after =
          ending ((fresh.run before).queue.map .event) (receives after) := by
  intro fresh
  have policy : ∀ ms, (fresh.run ms).policy = ⟨.buffer, c⟩ := policy_run fresh
  have conserved : ∀ ms, fresh.received ms ++ (fresh.run ms).queue = fresh.admits ms := by
    intro ms
    exact conserved_run (s := fresh) (show OverflowMode.buffer ≠ .dropOldest by decide) ms
  refine ⟨length_queue_run (s := fresh) pos (Nat.zero_le c) moves, ?_, conserved moves,
    receive_nothing_iff _, ?_, ?_, ?_, ?_⟩
  · have first : fresh.received moves <+: fresh.admits moves := by
      rw [← conserved moves]
      exact List.prefix_append _ _
    exact first.trans (prefix_admits (s := fresh) rfl moves)
  · intro before after split told
    obtain ⟨empty, ended⟩ := drained_of_end told
    have all := conserved before
    rw [empty, List.append_nil] at all
    rw [all, split, admits_append, admits_ended ended, List.append_nil]
  · by_cases active : (fresh.run moves).status = .active
    · exact .inl active
    · exact .inr (left_open (s := fresh) pos (Nat.zero_le c) rfl moves active)
  · intro before cause after _ overflows
    have next : fresh.run (before ++ [cause]) =
        { fresh.run before with status := .overflowed } := by
      rw [run_append]
      exact act_overflows (by rw [policy]) overflows
    rw [next, answers_ended (by simp), rest_overflowed, policy]
  · intro before after _ active
    have next : fresh.run (before ++ [.close]) = { fresh.run before with status := .closed } := by
      rw [run_append]
      exact close_active active
    rw [next, answers_ended (by simp)]
    simp [rest]

/-- Three events are pushed on a sink for two, and one of them is received in time; then a fourth
one has no room, and closing the sink changes nothing. -/
theorem buffer_loses_nothing_full :
    0 < 2 ∧
      let fresh := Sink.new ⟨.buffer, 2⟩
      let before : List SinkMove :=
        [.push (.str "a"), .push (.str "b"), .receive, .push (.str "c")]
      (fresh.run before).Overflows (.push (.str "d")) ∧
        (fresh.run (before ++ [.push (.str "d")])).answers
            [.close, .receive, .push (.str "e"), .receive, .receive, .receive, .receive] =
          [.event (.str "b"), .event (.str "c"), .overflow 2, .ended, .ended] := by
  refine ⟨by decide, ⟨rfl, .inr ⟨_, rfl, rfl⟩⟩, ?_⟩
  obtain ⟨-, -, -, -, -, -, overflow, -⟩ := buffer_loses_nothing 2 (by decide)
    [.push (.str "a"), .push (.str "b"), .receive, .push (.str "c"), .push (.str "d"), .close,
      .receive, .push (.str "e"), .receive, .receive, .receive, .receive]
  exact overflow [.push (.str "a"), .push (.str "b"), .receive, .push (.str "c")] _ _ rfl
    ⟨rfl, .inr ⟨_, rfl, rfl⟩⟩

end Sink

end GraphQLEngine
