import GraphQLEngine.Proofs.Brokers.Sinks
import Mathlib.Data.List.Induction

/-!
# Sinks that drop events

A sink whose policy allows for losses gives up events only when it is full, keeps the others in
order, and reports no error.  Where the oldest event makes room, the queue is at all times a window
on what was pushed: those of the last events, as many as there is room for, that were not received
yet. Where the newest one is discarded, all that was ever queued is received or still waits.

    offers.drop k = queue    with every place before k received, or out of the last c
-/

namespace GraphQLEngine

open SinkMove (receives pushed)

namespace Sink

variable {s : Sink}

/-! ## Pushing -/

/-- What a push on an open sink drops, if there is no room. -/
theorem push_full_lossy (active : s.status = .active)
    (full : ¬ s.queue.length < s.policy.capacity) (lossy : s.policy.mode ≠ .buffer) (e : Json) :
    s.push e =
      if s.policy.mode = .dropOldest then ({ s with queue := s.queue.tail ++ [e] }, .droppedOldest)
      else (s, .droppedNewest) := by
  cases mode : s.policy.mode with
  | buffer => exact absurd mode lossy
  | dropOldest => simp [push, active, full, mode]
  | dropNewest => simp [push, active, full, mode]

/-- Losses are no reason to end a sink whose policy allows for them. -/
theorem overflow_lossy (lossy : s.policy.mode ≠ .buffer) : s.overflow = s := by
  simp [overflow, lossy]

theorem status_push_lossy (lossy : s.policy.mode ≠ .buffer) (e : Json) :
    (s.push e).1.status = s.status := by
  by_cases active : s.status = .active
  · by_cases room : s.queue.length < s.policy.capacity
    · rw [push_room active room]
    · rw [push_full_lossy active room lossy]
      split <;> rfl
  · rw [push_ended active]

/-- Only closing changes the status, unless there is an overflow to report. -/
theorem status_act_lossy (lossy : s.policy.mode ≠ .buffer) (told : s.status ≠ .overflowed)
    {m : SinkMove} (other : m ≠ .close) : (s.act m).status = s.status := by
  cases m with
  | push e => exact status_push_lossy lossy e
  | close => exact absurd rfl other
  | overflow =>
    show s.overflow.status = s.status
    rw [overflow_lossy lossy]
  | receive =>
    obtain ⟨policy, queue, status⟩ := s
    cases queue with
    | cons e rest => rfl
    | nil => cases status <;> first | rfl | exact absurd rfl told

theorem status_close (told : s.status ≠ .overflowed) : s.close.status = .closed := by
  obtain ⟨policy, queue, status⟩ := s
  cases status <;> first | rfl | exact absurd rfl told

/-- A sink that does not overflow is open until it is closed. -/
theorem status_run_lossy (lossy : s.policy.mode ≠ .buffer) (told : s.status ≠ .overflowed)
    (moves : List SinkMove) :
    (s.run moves).status ≠ .overflowed ∧
      ((s.run moves).status = .active ↔ s.status = .active ∧ .close ∉ moves) := by
  induction moves generalizing s with
  | nil => exact ⟨told, by simp [run]⟩
  | cons m ms ih =>
    have lossy' : (s.act m).policy.mode ≠ .buffer := by rwa [policy_act]
    by_cases closes : m = .close
    · subst closes
      have closed := status_close told
      obtain ⟨told', iff⟩ := ih (s := s.close) lossy' (by simp [closed])
      refine ⟨told', ?_⟩
      show ((s.close.run ms).status = .active ↔ _)
      simp [iff, closed]
    · have same := status_act_lossy lossy told closes
      obtain ⟨told', iff⟩ := ih lossy' (by rwa [same])
      refine ⟨told', ?_⟩
      show (((s.act m).run ms).status = .active ↔ _)
      rw [iff, same]
      simp [Ne.symm closes]

/-- No report is given where none is due. -/
theorem answers_lossy (lossy : s.policy.mode ≠ .buffer) (told : s.status ≠ .overflowed)
    (moves : List SinkMove) (n : Nat) : .overflow n ∉ s.answers moves := by
  induction moves generalizing s with
  | nil => simp [answers, observe]
  | cons m ms ih =>
    have told' := (status_run_lossy lossy told [m]).1
    have rest := ih (s := s.act m) (by rwa [policy_act]) told'
    show .overflow n ∉ s.found m ++ (s.act m).answers ms
    have first : .overflow n ∉ s.found m := by
      cases m with
      | receive =>
        obtain ⟨policy, queue, status⟩ := s
        cases queue with
        | cons e rest => simp [found, receive]
        | nil => cases status <;> first | exact absurd rfl told | simp [found, receive]
      | _ => simp [found]
    simp [first, rest]

/-- The end is given where the sink is closed and empty. -/
theorem receive_ended_iff (told : s.status ≠ .overflowed) :
    s.receive.2 = .ended ↔ s.status ≠ .active ∧ s.queue = [] := by
  obtain ⟨policy, queue, status⟩ := s
  cases queue with
  | cons e rest => simp [receive]
  | nil => cases status <;> first | exact absurd rfl told | simp [receive]

/-! ## The window of the latest events -/

/-- The places, among those of `n` events, of the last `c` that are not taken. -/
def latest (c n : Nat) (taken : List Nat) : List Nat :=
  (List.range n).filter fun i => n ≤ i + c ∧ i ∉ taken

/-- The events that were offered are numbered from zero.  Those at the taken places were received;
the queue holds the last ones from some place on, and what is missing before that is too old. -/
structure Window (c : Nat) (offers : List Json) (taken : List Nat) (got queue : List Json) :
    Prop where
  sorted : taken.Pairwise (· < ·)
  got : got.map some = taken.map (offers[·]?)
  start : ∃ k, k + queue.length = offers.length ∧ offers.drop k = queue ∧
    (∀ i ∈ taken, i < k) ∧ ∀ i, i < k → i ∈ taken ∨ i + c < offers.length

section Window

variable {c : Nat} {offers got : List Json} {taken : List Nat}

theorem Window.length (w : Window c offers taken got s.queue) : taken.length = got.length := by
  have lengths := congrArg List.length w.got
  simpa using lengths.symm

/-- The places from some place on. -/
theorem drop_eq_places (events : List Json) {k n : Nat} (length : k + n = events.length) :
    (events.drop k).map some =
      ((List.range events.length).filter fun i => k ≤ i).map (events[·]?) := by
  have before : (List.range k).filter (fun i => k ≤ i) = [] := by
    apply List.filter_eq_nil_iff.mpr
    intro i hi
    simpa using List.mem_range.mp hi
  have after : ((List.range n).map (k + ·)).filter (fun i => k ≤ i) =
      (List.range n).map (k + ·) := by
    apply List.filter_eq_self.mpr
    intro i hi
    obtain ⟨j, -, rfl⟩ := List.mem_map.mp hi
    simp
  rw [← length, List.range_add, List.filter_append, before, after, List.nil_append]
  apply List.ext_getElem
  · simp only [List.length_map, List.length_drop, List.length_range]
    omega
  · intro i hi _
    simp only [List.length_map, List.length_drop] at hi
    have below : k + i < events.length := by omega
    simp [below]

/-- The queue holds the latest events that were not received. -/
theorem Window.queue_eq (w : Window c offers taken got s.queue) (le : s.queue.length ≤ c) :
    s.queue.map some = (latest c offers.length taken).map (offers[·]?) := by
  obtain ⟨k, length, drop, below, old⟩ := w.start
  rw [← drop, drop_eq_places offers length, latest]
  congr 1
  apply List.filter_congr
  intro i hi
  have lt := List.mem_range.mp hi
  by_cases from_ : k ≤ i
  · have free : i ∉ taken := fun mem => absurd (below i mem) (by omega)
    have recent : offers.length ≤ i + c := by omega
    simp [from_, free, recent]
  · rcases old i (by omega) with mem | late
    · simp [from_, mem]
    · have far : ¬ offers.length ≤ i + c := by omega
      simp [from_, far]

/-- Offering one more event leaves the places of the others. -/
theorem places_append (below : ∀ i ∈ taken, i < offers.length) (e : Json) :
    taken.map ((offers ++ [e])[·]?) = taken.map (offers[·]?) := by
  apply List.map_congr_left
  intro i hi
  exact List.getElem?_append_left (below i hi)

/-- A new event enters the window at its end; if there is no room the first one leaves it. -/
theorem Window.push (w : Window c offers taken got s.queue) (pos : 0 < c) (e : Json)
    {queue : List Json}
    (next : s.queue.length < c ∧ queue = s.queue ++ [e] ∨
      s.queue.length = c ∧ queue = s.queue.tail ++ [e]) :
    Window c (offers ++ [e]) taken got queue := by
  obtain ⟨k, length, drop, below, old⟩ := w.start
  have known : ∀ i ∈ taken, i < offers.length := by
    intro i hi
    have := below i hi
    omega
  refine ⟨w.sorted, by rw [places_append known, w.got], ?_⟩
  rcases next with ⟨room, rfl⟩ | ⟨full, rfl⟩
  · refine ⟨k, ?_, ?_, below, fun i hi => ?_⟩
    · simp only [List.length_append, List.length_singleton]
      omega
    · rw [List.drop_append_of_le_length (by omega), drop]
    · rcases old i hi with mem | late
      · exact .inl mem
      · right
        rw [List.length_append, List.length_singleton]
        omega
  · refine ⟨k + 1, ?_, ?_, fun i hi => ?_, fun i hi => ?_⟩
    · simp only [List.length_append, List.length_tail, List.length_singleton]
      omega
    · rw [List.drop_append_of_le_length (by omega), ← List.drop_drop, drop, List.drop_one]
    · have := below i hi
      omega
    · rw [List.length_append, List.length_singleton]
      by_cases last : i = k
      · right
        omega
      · rcases old i (by omega) with mem | late
        · exact .inl mem
        · right
          omega

/-- Receiving takes the first place of the window. -/
theorem Window.receive {e : Json} {rest : List Json} (w : Window c offers taken got s.queue)
    (first : s.queue = e :: rest) :
    ∃ place, Window c offers (taken ++ [place]) (got ++ [e]) rest := by
  obtain ⟨k, length, drop, below, old⟩ := w.start
  rw [first, List.length_cons] at length
  rw [first] at drop
  have at' : offers[k]? = some e := by
    rw [← List.head?_drop, drop]
    rfl
  refine ⟨k, ?_, ?_, k + 1, by omega, ?_, fun i hi => ?_, fun i hi => ?_⟩
  · rw [List.pairwise_append]
    refine ⟨w.sorted, List.pairwise_singleton _ _, ?_⟩
    intro i hi j hj
    rw [List.mem_singleton.mp hj]
    exact below i hi
  · rw [List.map_append, List.map_append, w.got, List.map_singleton, List.map_singleton, at']
  · rw [← List.drop_drop, drop, List.drop_one, List.tail_cons]
  · rcases List.mem_append.mp hi with mem | mem
    · have := below i mem
      omega
    · rw [List.mem_singleton.mp mem]
      omega
  · by_cases last : i = k
    · exact .inl (List.mem_append_right _ (by simp [last]))
    · rcases old i (by omega) with mem | late
      · exact .inl (List.mem_append_left _ mem)
      · exact .inr late

/-- Each move keeps the window, and adds a place for what is received. -/
theorem Window.act (w : Window c offers taken got s.queue) (policy : s.policy = ⟨.dropOldest, c⟩)
    (pos : 0 < c) (le : s.queue.length ≤ c) (m : SinkMove) :
    ∃ new, Window c (offers ++ s.offered m) (taken ++ new)
      (got ++ (s.found m).filterMap Received.event?) (s.act m).queue := by
  cases m with
  | push e =>
    refine ⟨[], ?_⟩
    show Window c (offers ++ if s.status = .active then [e] else []) (taken ++ []) (got ++ []) _
    rw [List.append_nil, List.append_nil]
    show Window c _ taken got (s.push e).1.queue
    by_cases active : s.status = .active
    · rw [if_pos active]
      apply w.push pos
      by_cases room : s.queue.length < s.policy.capacity
      · left
        rw [push_room active room]
        exact ⟨by simpa [policy] using room, rfl⟩
      · right
        rw [push_full_lossy active room (by simp [policy]) e, policy]
        rw [policy] at room
        exact ⟨by simp only at room; omega, rfl⟩
    · rw [if_neg active, push_ended active, List.append_nil]
      exact w
  | close =>
    refine ⟨[], ?_⟩
    show Window c (offers ++ []) (taken ++ []) (got ++ []) s.close.queue
    rw [queue_close]
    simpa using w
  | overflow =>
    refine ⟨[], ?_⟩
    show Window c (offers ++ []) (taken ++ []) (got ++ []) s.overflow.queue
    rw [queue_overflow]
    simpa using w
  | receive =>
    have split := s.queue_receive
    show ∃ new, Window c (offers ++ []) (taken ++ new)
      (got ++ [s.receive.2].filterMap Received.event?) s.receive.1.queue
    rw [List.append_nil]
    cases first : s.queue with
    | nil =>
      rw [first, List.append_eq_nil_iff] at split
      refine ⟨[], ?_⟩
      rw [split.1, split.2, List.append_nil, List.append_nil, ← first]
      exact w
    | cons e rest =>
      obtain ⟨place, next⟩ := w.receive first
      refine ⟨[place], ?_⟩
      have took : s.receive = ({ s with queue := rest }, .event e) := by
        unfold Sink.receive
        rw [first]
      rw [took]
      exact next

end Window

/-- The queue is at all times what the places say: those of the last `c` events offered so far that
were not received so far. -/
theorem window_run {c : Nat} (pos : 0 < c) (moves : List SinkMove) :
    let fresh := Sink.new ⟨.dropOldest, c⟩
    ∃ taken, Window c (fresh.offers moves) taken (fresh.received moves) (fresh.run moves).queue ∧
      ∀ before, before <+: moves → (fresh.run before).queue.map some =
        (latest c (fresh.offers before).length
          (taken.take (fresh.received before).length)).map ((fresh.offers moves)[·]?) := by
  intro fresh
  have bounded : ∀ ms, (fresh.run ms).queue.length ≤ c :=
    length_queue_run (s := fresh) pos (Nat.zero_le c)
  have policy : ∀ ms, (fresh.run ms).policy = ⟨.dropOldest, c⟩ := policy_run fresh
  -- a longer run leaves the places of a shorter one alone, so the induction is on the last move
  induction moves using List.reverseRecOn with
  | nil =>
    refine ⟨[], ⟨.nil, rfl, 0, rfl, rfl, nofun, nofun⟩, fun before first => ?_⟩
    rw [List.prefix_nil.mp first]
    rfl
  | append_singleton ms m ih =>
    obtain ⟨taken, w, so_far⟩ := ih
    obtain ⟨new, next⟩ := w.act (policy ms) pos (bounded ms) m
    have offers : fresh.offers (ms ++ [m]) = fresh.offers ms ++ (fresh.run ms).offered m := by
      rw [offers_append]
      simp [Sink.offers, observe]
    have received : fresh.received (ms ++ [m]) =
        fresh.received ms ++ ((fresh.run ms).found m).filterMap Received.event? := by
      rw [received_append]
      simp [Sink.received, answers, observe]
    have run : fresh.run (ms ++ [m]) = (fresh.run ms).act m := run_append fresh ms [m]
    rw [← offers, ← received, ← run] at next
    refine ⟨taken ++ new, next, fun before first => ?_⟩
    rcases List.prefix_concat_iff.mp first with rfl | first
    · rw [← next.length, List.take_length]
      exact next.queue_eq (bounded _)
    · obtain ⟨later, rfl⟩ := first
      have fewer : (fresh.received before).length ≤ taken.length := by
        rw [w.length, received_append, List.length_append]
        omega
      rw [so_far before (List.prefix_append _ _), List.take_append_of_le_length fewer, offers]
      apply List.map_congr_left
      intro i hi
      have below := List.mem_range.mp (List.mem_filter.mp hi).1
      rw [List.getElem?_append_left]
      rw [offers_append, List.length_append]
      omega

/-! ## Losses -/

/-- What the policy of a sink says about its losses, after the moves so far: under the one policy
the queue is the window of the last events, under the other all events for which there was room are
still there, and an event is discarded exactly where there is none. -/
def LosesBy (fresh : Sink) (moves : List SinkMove) : OverflowMode → Prop
  | .buffer => False
  | .dropOldest =>
    (∃ taken : List Nat, taken.Pairwise (· < ·) ∧
      (fresh.received moves).map some = taken.map ((fresh.offers moves)[·]?) ∧
      ∀ before, before <+: moves → (fresh.run before).queue.map some =
        (latest fresh.policy.capacity (fresh.offers before).length
          (taken.take (fresh.received before).length)).map ((fresh.offers moves)[·]?)) ∧
    ∀ e, (fresh.run moves).status = .active →
      ((fresh.run moves).push e).1.queue.getLast? = some e
  | .dropNewest =>
    fresh.received moves ++ (fresh.run moves).queue = fresh.admits moves ∧
    ∀ e, (fresh.run moves).status = .active →
      (((fresh.run moves).push e).2 = .droppedNewest ↔
        (fresh.run moves).queue.length = fresh.policy.capacity)

theorem getLast?_push (oldest : s.policy.mode = .dropOldest) (active : s.status = .active)
    (e : Json) : (s.push e).1.queue.getLast? = some e := by
  by_cases room : s.queue.length < s.policy.capacity
  · rw [push_room active room]
    simp
  · rw [push_full_lossy active room (by simp [oldest]), if_pos oldest]
    simp

theorem push_discards_iff (newest : s.policy.mode = .dropNewest) (active : s.status = .active)
    (le : s.queue.length ≤ s.policy.capacity) (e : Json) :
    (s.push e).2 = .droppedNewest ↔ s.queue.length = s.policy.capacity := by
  by_cases room : s.queue.length < s.policy.capacity
  · rw [push_room active room]
    simp only [reduceCtorEq, false_iff]
    omega
  · rw [push_full_lossy active room (by simp [newest])]
    simp only [newest, reduceCtorEq, if_false, true_iff]
    omega

theorem losesBy_run (policy : DeliveryPolicy) (lossy : policy.mode ≠ .buffer)
    (pos : 0 < policy.capacity) (moves : List SinkMove) :
    (Sink.new policy).LosesBy moves policy.mode := by
  have same : ((Sink.new policy).run moves).policy = policy := policy_run _ moves
  have le : ((Sink.new policy).run moves).queue.length ≤ policy.capacity :=
    length_queue_run (s := Sink.new policy) pos (Nat.zero_le _) moves
  obtain ⟨mode, c⟩ := policy
  cases mode with
  | buffer => exact lossy rfl
  | dropOldest =>
    obtain ⟨taken, w, places⟩ := window_run pos moves
    refine ⟨⟨taken, w.sorted, w.got, places⟩, fun e active => ?_⟩
    exact getLast?_push (by rw [same]) active e
  | dropNewest =>
    refine ⟨?_, fun e active => ?_⟩
    · have conserved := conserved_run (s := Sink.new ⟨.dropNewest, c⟩)
        (show OverflowMode.dropNewest ≠ .dropOldest by decide) moves
      exact conserved
    · have iff := push_discards_iff (by rw [same]) active (by rwa [same]) e
      rwa [same] at iff

/-- A sink that drops events keeps the others in order and loses what its policy says, and nothing
else.  Whatever the order of the moves: what was received and then what is queued is, in order, some
of what was pushed while the sink was open; the queue is bounded by the capacity, and with room in
it a push only adds to its end; under the one policy it is always the window of the last events,
under the other nothing that was queued is lost.  To force an overflow changes nothing, the receiver
is never given an error, and it is given the end exactly where the sink is closed and empty. -/
theorem lossy_keeps_order (policy : DeliveryPolicy) (lossy : policy.mode ≠ .buffer)
    (pos : 0 < policy.capacity) (moves : List SinkMove) :
    let fresh := Sink.new policy
    let s := fresh.run moves
    (fresh.received moves ++ s.queue).Sublist (fresh.offers moves) ∧
      s.queue.length ≤ policy.capacity ∧
      (∀ e, s.status = .active → s.queue.length < policy.capacity →
        s.push e = ({ s with queue := s.queue ++ [e] }, .queued)) ∧
      fresh.LosesBy moves policy.mode ∧
      s.overflow = s ∧
      (∀ n, .overflow n ∉ fresh.answers moves) ∧
      (s.status = .active ↔ .close ∉ moves) ∧
      (s.receive.2 = .ended ↔ .close ∈ moves ∧ s.queue = []) := by
  intro fresh s
  have same : s.policy = policy := policy_run fresh moves
  have lossy' : s.policy.mode ≠ .buffer := by rwa [same]
  have opened : fresh.status ≠ .overflowed := by
    show SinkStatus.active ≠ .overflowed
    decide
  obtain ⟨told, active⟩ := status_run_lossy (s := fresh) lossy opened moves
  have active : s.status = .active ↔ .close ∉ moves := active.trans (and_iff_right rfl)
  refine ⟨?_, length_queue_run (s := fresh) pos (Nat.zero_le _) moves, fun e isActive room => ?_,
    losesBy_run policy lossy pos moves, overflow_lossy lossy',
    answers_lossy (s := fresh) lossy opened moves, active, ?_⟩
  · have sublist := sublist_offers fresh moves
    exact sublist
  · exact push_room isActive (by rwa [same]) e
  · rw [receive_ended_iff told, ne_eq, active, not_not]

/-- Five events on a sink for two that gives up its oldest: the first is received, the second makes
room for the fourth, and the fifth comes after the close. -/
theorem lossy_keeps_order_oldest :
    let policy : DeliveryPolicy := ⟨.dropOldest, 2⟩
    let moves : List SinkMove := [.push (.str "a"), .push (.str "b"), .receive, .overflow,
      .push (.str "c"), .push (.str "d"), .close, .push (.str "e"), .receive, .receive]
    policy.mode ≠ .buffer ∧ 0 < policy.capacity ∧
      (Sink.new policy).received moves = [.str "a", .str "c", .str "d"] ∧
      ((Sink.new policy).run moves).receive.2 = .ended := by
  refine ⟨by decide, by decide, rfl, ?_⟩
  obtain ⟨-, -, -, -, -, -, -, ended⟩ := lossy_keeps_order ⟨.dropOldest, 2⟩ (by decide) (by decide)
    [.push (.str "a"), .push (.str "b"), .receive, .overflow, .push (.str "c"), .push (.str "d"),
      .close, .push (.str "e"), .receive, .receive]
  exact ended.mpr ⟨by simp, rfl⟩

end Sink

end GraphQLEngine
