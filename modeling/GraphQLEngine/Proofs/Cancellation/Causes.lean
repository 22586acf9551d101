import GraphQLEngine.Proofs.Cancellation.Shared
import GraphQLEngine.Proofs.Cancellation.Stopping
import Mathlib

/-!
# The first cause is final

However calls, timers and the turns of their tasks interleave, a signal that is shared keeps the
reason of the earliest of them.  The signal that is called beside its clock, where the timers that
are due fire after each call, shows what a shared one comes to when nothing is left to do.

    AtRest x            the tasks can only wait for the token or for the clock
    Matches x c made    a shared signal at rest, and the one beside its clock, after the same calls
-/

namespace GraphQLEngine

namespace SignalTask

/-- The task as it was when it was begun. -/
def fresh : SignalTask → SignalTask
  | .setting reason begun _ => .setting reason begun .begun
  | .timer ms begun _ => .timer ms begun .spawned
  | .waiting _ => .waiting false

/-- Whether it is a call that sets the signal. -/
def Sets : SignalTask → Prop
  | .setting .. => True
  | _ => False

/-- When a timer is due. -/
def deadline? : SignalTask → Option Nat
  | .timer ms begun _ => some (begun + ms)
  | _ => none

/-- Nothing is left to do but to wait. -/
def Rests (x : SharedSignal) : SignalTask → Prop
  | .setting _ _ stage | .timer _ _ (.firing stage) => stage = .done
  | .timer _ _ .spawned => False
  | .timer _ _ (.asleep deadline) => x.token = false ∧ x.clock < deadline
  | .timer _ _ .stopped => True
  | .waiting ended => x.token = true → ended = true

end SignalTask

/-- The most turns that a call has left. -/
def SettingStage.left : SettingStage → Nat
  | .begun => 2
  | .given => 1
  | .done => 0

/-- The most turns that a task has left. -/
def SignalTask.left : SignalTask → Nat
  | .setting _ _ stage | .timer _ _ (.firing stage) => stage.left
  | .timer _ _ .spawned => 4
  | .timer _ _ (.asleep _) => 3
  | .timer _ _ .stopped => 0
  | .waiting ended => if ended then 0 else 1

/-- The turns of tasks that were begun. -/
def SignalMove.Turns : SignalMove → Prop
  | .turn _ | .giveWay _ => True
  | _ => False

namespace SharedSignal

variable {x : SharedSignal} {i : Nat} {task : SignalTask}

def AtRest (x : SharedSignal) : Prop := ∀ task ∈ x.tasks, task.Rests x

/-- The calls and the timers as they were begun. -/
def made (x : SharedSignal) : List SignalTask := x.tasks.map SignalTask.fresh

/-! ## Coming to rest -/

theorem left_set (x : SharedSignal) (i : Nat) (reason : CancelReason) {stage : SettingStage}
    (h : stage ≠ .done) : (x.set i reason stage).2.left < stage.left := by
  cases stage with
  | begun =>
    show 1 < 2
    omega
  | given =>
    show 0 < 1
    omega
  | done => exact absurd rfl h

/-- A task that does not rest can have a turn that brings it on. -/
theorem exists_turn (at' : x.tasks[i]? = some task) (busy : ¬task.Rests x) :
    ∃ m : SignalMove, m.Turns ∧ ∃ task', (x.step m).tasks = x.tasks.set i task' ∧
      task'.left < task.left := by
  have turns : (task.turn x i).2.left < task.left → ∃ m : SignalMove, m.Turns ∧
      ∃ task', (x.step m).tasks = x.tasks.set i task' ∧ task'.left < task.left := by
    intro less
    exact ⟨.turn i, trivial, _, by simp only [step, at'], less⟩
  cases task with
  | setting reason begun stage => exact turns (left_set x i reason busy)
  | timer ms begun stage =>
    cases stage with
    | spawned => exact turns (show 3 < 4 by omega)
    | asleep deadline =>
      cases token : x.token with
      | true =>
        refine ⟨.giveWay i, trivial, .timer ms begun .stopped, ?_, show 0 < 3 by omega⟩
        simp only [step, at', SignalTask.giveWay, token, if_true]
      | false =>
        have due : deadline ≤ x.clock := Nat.le_of_not_lt fun later => busy ⟨token, later⟩
        refine turns ?_
        simp only [SignalTask.turn, if_pos due]
        show 2 < 3
        omega
    | firing stage => exact turns (left_set x i .timedOut busy)
    | stopped => exact absurd trivial busy
  | waiting ended =>
    obtain ⟨isSet, goesOn⟩ : x.token = true ∧ ended = false := by
      simpa [SignalTask.Rests] using busy
    refine turns ?_
    simp [SignalTask.turn, SignalTask.left, isSet, goesOn]

theorem sum_left_set {tasks : List SignalTask} {task' : SignalTask} (at' : tasks[i]? = some task)
    (less : task'.left < task.left) :
    ((tasks.set i task').map SignalTask.left).sum < (tasks.map SignalTask.left).sum := by
  induction tasks generalizing i with
  | nil => cases at'
  | cons t ts ih =>
    cases i with
    | zero =>
      obtain rfl : t = task := by simpa using at'
      simpa using less
    | succ i =>
      have := ih (i := i) (by simpa using at')
      simpa using this

/-- The tasks come to rest if they have enough turns. -/
theorem exists_rest (x : SharedSignal) :
    ∃ moves, (∀ m ∈ moves, SignalMove.Turns m) ∧ (x.run moves).AtRest := by
  -- By the turns that all tasks have left: one that does not rest can have one of them.
  induction n : (x.tasks.map SignalTask.left).sum using Nat.strong_induction_on generalizing x with
  | _ n ih =>
    by_cases rest : x.AtRest
    · exact ⟨[], fun _ h => absurd h List.not_mem_nil, rest⟩
    · obtain ⟨task, mem, busy⟩ : ∃ task ∈ x.tasks, ¬task.Rests x := by
        simpa [AtRest] using rest
      obtain ⟨i, at'⟩ := List.mem_iff_getElem?.mp mem
      obtain ⟨m, turns, task', tasks, less⟩ := exists_turn at' busy
      have fewer := sum_left_set at' less
      rw [← tasks, n] at fewer
      obtain ⟨moves, all, rests⟩ := ih _ fewer (x.step m) rfl
      exact ⟨m :: moves, List.forall_mem_cons.mpr ⟨turns, all⟩, rests⟩

/-- Turns change neither the clock nor what was begun. -/
structure Same (x y : SharedSignal) : Prop where
  clock : y.clock = x.clock
  made : y.made = x.made

theorem fresh_turn (x : SharedSignal) (i : Nat) (task : SignalTask) :
    (task.turn x i).1.clock = x.clock ∧ (task.turn x i).2.fresh = task.fresh := by
  have set : ∀ reason stage, (x.set i reason stage).1.clock = x.clock := by
    intro reason stage
    cases stage <;> rfl
  cases task with
  | setting reason begun stage => exact ⟨set reason stage, rfl⟩
  | timer ms begun stage =>
    cases stage with
    | firing stage => exact ⟨set .timedOut stage, rfl⟩
    | spawned | asleep | stopped => exact ⟨rfl, rfl⟩
  | waiting ended => exact ⟨rfl, rfl⟩

theorem fresh_giveWay (token : Bool) (task : SignalTask) :
    (task.giveWay token).fresh = task.fresh := by
  cases task with
  | setting | waiting => rfl
  | timer ms begun stage => cases stage <;> rfl

theorem map_fresh_set {task' : SignalTask} (at' : x.tasks[i]? = some task)
    (same : task'.fresh = task.fresh) :
    (x.tasks.set i task').map SignalTask.fresh = x.tasks.map SignalTask.fresh := by
  obtain ⟨lt, rfl⟩ := List.getElem?_eq_some_iff.mp at'
  rw [List.map_set, same, ← List.map_set, List.set_getElem_self lt]

theorem same_step {m : SignalMove} (turns : m.Turns) (x : SharedSignal) : x.Same (x.step m) := by
  cases m with
  | cancel | timeOutAfter | wait | pass => exact absurd turns id
  | turn i =>
    rw [step]
    split
    · exact ⟨rfl, rfl⟩
    · next task at' =>
      obtain ⟨clock, fresh⟩ := fresh_turn x i task
      exact ⟨clock, map_fresh_set at' fresh⟩
  | giveWay i =>
    rw [step]
    split
    · exact ⟨rfl, rfl⟩
    · next task at' => exact ⟨rfl, map_fresh_set at' (fresh_giveWay x.token task)⟩

theorem same_run {moves : List SignalMove} (turns : ∀ m ∈ moves, m.Turns) (x : SharedSignal) :
    x.Same (x.run moves) := by
  induction moves generalizing x with
  | nil => exact ⟨rfl, rfl⟩
  | cons m ms ih =>
    obtain ⟨turn, turns⟩ := List.forall_mem_cons.mp turns
    have first := same_step turn x
    have rest := ih turns (x.step m)
    exact ⟨rest.clock.trans first.clock, rest.made.trans first.made⟩

/-- Time can pass by any amount while the tasks rest, with the turns of the timers that are due on
the way. -/
theorem exists_advance (rest : x.AtRest) (ms : Nat) :
    ∃ moves, (x.run moves).AtRest ∧ (x.run moves).clock = x.clock + ms ∧
      (x.run moves).made = x.made := by
  -- One instant after the other, since the clock may not pass by a timer that is due on the way.
  induction ms with
  | zero => exact ⟨[], rest, rfl, rfl⟩
  | succ ms ih =>
    obtain ⟨moves, rest, clock, made⟩ := ih
    have allowed : (x.run moves).tasks.all (·.allows ((x.run moves).clock + 1)) = true := by
      refine List.all_eq_true.mpr fun task mem => ?_
      have rests := rest task mem
      cases task with
      | setting | waiting => rfl
      | timer ms begun stage =>
        cases stage with
        | spawned => exact absurd rests id
        | asleep deadline => exact decide_eq_true rests.2
        | firing stage => exact decide_eq_true rests
        | stopped => rfl
    have passed : (x.run moves).step (.pass 1) =
        { x.run moves with clock := (x.run moves).clock + 1 } := by
      rw [step, if_pos allowed]
    obtain ⟨turns, all, rests⟩ := exists_rest ((x.run moves).step (.pass 1))
    have same := same_run all ((x.run moves).step (.pass 1))
    have run : x.run (moves ++ .pass 1 :: turns) =
        ((x.run moves).step (.pass 1)).run turns := run_append x moves _
    refine ⟨moves ++ .pass 1 :: turns, run ▸ rests, ?_, ?_⟩
    · rw [run, same.clock, passed, ← Nat.add_assoc, ← clock]
    · rw [run, same.made, passed]
      exact made

/-! ## At rest -/

theorem mem_deadlines {deadline : Nat} :
    deadline ∈ x.made.filterMap SignalTask.deadline? ↔
      ∃ ms begun stage, .timer ms begun stage ∈ x.tasks ∧ begun + ms = deadline := by
  simp only [made, List.mem_filterMap, List.mem_map, exists_exists_and_eq_and]
  constructor
  · rintro ⟨task, mem, eq⟩
    cases task with
    | setting | waiting => cases eq
    | timer ms begun stage => exact ⟨ms, begun, stage, mem, Option.some.inj eq⟩
  · rintro ⟨ms, begun, stage, mem, rfl⟩
    exact ⟨_, mem, rfl⟩

/-- Where no call sets the signal, its reason is that of a timer that was due. -/
theorem Sound.reason_at_rest (S : Sound x) (rest : x.AtRest)
    (unset : ∀ task ∈ x.made, ¬task.Sets) :
    x.reason = if ∃ deadline ∈ x.made.filterMap SignalTask.deadline?, deadline ≤ x.clock then
      some .timedOut else none := by
  cases eq : x.events with
  | nil =>
    -- A timer that was due would have given its reason, or have stopped because of an event.
    rw [S.reason, eq, if_neg]
    · rfl
    · rintro ⟨deadline, mem', due⟩
      obtain ⟨ms, begun, stage, mem, rfl⟩ := mem_deadlines.mp mem'
      obtain ⟨i, at'⟩ := List.mem_iff_getElem?.mp mem
      have rests := rest _ mem
      have fits := S.fits i _ at'
      have none : ∀ {p : SignalEvent → Prop}, ¬∃ e ∈ x.events, p e := by
        rintro p ⟨e, there, -⟩
        rw [eq] at there
        cases there
      cases stage with
      | spawned => exact rests
      | asleep deadline =>
        have later : x.clock < deadline := rests.2
        have same : deadline = begun + ms := fits.1
        omega
      | firing stage =>
        obtain rfl : stage = .done := rests
        exact none fits
      | stopped => exact none fits
  | cons e es =>
    have mem : e ∈ x.events := eq ▸ List.mem_cons_self
    have past := S.past e mem
    obtain ⟨task, at', gives⟩ := S.gives e mem
    have there := List.mem_of_getElem? at'
    rw [S.reason, eq]
    cases task with
    | setting reason begun stage => exact absurd trivial (unset _ (List.mem_map_of_mem there))
    | timer ms begun stage =>
      obtain ⟨reason, time⟩ := gives
      rw [if_pos ⟨e.time, mem_deadlines.mpr ⟨ms, begun, stage, there, time.symm⟩, past⟩]
      exact congrArg some reason
    | waiting ended => exact absurd gives id

end SharedSignal

/-! ## Calls beside the clock -/

namespace Signals

theorem timers_fireDue (s : Signals) (now : Nat) :
    (s.fireDue now).timers = s.timers.filter (now < ·.deadline) :=
  List.foldlRecOn (s.due now) _
    (motive := fun s' : Signals => s'.timers = s.timers.filter (now < ·.deadline)) rfl
    fun _ same _ _ => same

end Signals

namespace ClockedSignal

/-- What a call begins. -/
def begins (c : ClockedSignal) : SignalCall → List SignalTask
  | .cancel reason => [.setting reason c.clock .begun]
  | .timeOutAfter ms => [.timer ms c.clock .spawned]
  | .wait _ => [.waiting false]
  | .advance _ => []

/-- What calls begin, one after the other. -/
def made (c : ClockedSignal) : List SignalCall → List SignalTask
  | [] => []
  | k :: ks => c.begins k ++ (c.call k).made ks

def after (c : ClockedSignal) (calls : List SignalCall) : ClockedSignal := calls.foldl call c

/-- A call before the timers fire that are due. -/
def prepared (c : ClockedSignal) : SignalCall → ClockedSignal
  | .cancel reason => { c with signals := c.signals.cancel 0 reason }
  | .timeOutAfter ms => { c with signals := c.signals.schedule ⟨c.clock + ms, 0, .timedOut⟩ }
  | .wait ms => { c with clock := c.afterWait ms }
  | .advance ms => { c with clock := c.clock + ms }

theorem call_eq (c : ClockedSignal) (k : SignalCall) : c.call k = (c.prepared k).fire := by
  cases k <;> rfl

/-- The timers are those that were begun, as long as the signal is not set. -/
structure Tracks (c : ClockedSignal) (made : List SignalTask) : Prop where
  signal : 0 < c.signals.next
  timers : ∀ t ∈ c.signals.timers, t.signal = 0 ∧ t.reason = .timedOut
  unset : c.reason? = none → (∀ task ∈ made, ¬task.Sets) ∧
    c.signals.timers.map Timer.deadline = made.filterMap SignalTask.deadline?

variable {c : ClockedSignal} {made : List SignalTask}

theorem tracks_start : start.Tracks [] where
  signal := Nat.one_pos
  timers _ h := absurd h List.not_mem_nil
  unset _ := ⟨fun _ h => absurd h List.not_mem_nil, rfl⟩

theorem head_ofTimers {ts : List Timer} (all : ∀ t ∈ ts, t.signal = 0 ∧ t.reason = .timedOut) :
    (Signals.ofTimers 0 ts).head? = if ts = [] then none else some .timedOut := by
  cases ts with
  | nil => rfl
  | cons t ts =>
    obtain ⟨signal, reason⟩ := all t List.mem_cons_self
    simp [Signals.ofTimers, signal, reason]

theorem Tracks.reason_fire (T : c.Tracks made) : c.fire.reason? = c.reason?.or
    (if ∃ deadline ∈ c.signals.timers.map Timer.deadline, deadline ≤ c.clock then some .timedOut
      else none) := by
  have fired := (Signals.reason_act c.signals T.signal (.fire c.clock)).2
  have due : ∀ t ∈ c.signals.due c.clock, t.signal = 0 ∧ t.reason = .timedOut := by
    intro t mem
    rw [Signals.due, List.mem_mergeSort, List.mem_filter] at mem
    exact T.timers t mem.1
  have none : c.signals.due c.clock = [] ↔
      ¬∃ deadline ∈ c.signals.timers.map Timer.deadline, deadline ≤ c.clock := by
    rw [← List.length_eq_zero_iff, Signals.due, List.length_mergeSort, List.length_eq_zero_iff,
      List.filter_eq_nil_iff]
    simp
  show (c.signals.act (.fire c.clock)).reason? 0 = _
  rw [fired, List.head?_append, Option.head?_toList, Signals.given, head_ofTimers due]
  simp only [none, ite_not]
  rfl

theorem Tracks.fire (T : c.Tracks made) : c.fire.Tracks made where
  signal := Nat.lt_of_lt_of_le T.signal (Signals.reason_act c.signals T.signal (.fire c.clock)).1
  timers t mem := by
    have mem : t ∈ (c.signals.fireDue c.clock).timers := mem
    rw [Signals.timers_fireDue, List.mem_filter] at mem
    exact T.timers t mem.1
  unset none := by
    rw [T.reason_fire, Option.or_eq_none_iff] at none
    obtain ⟨unset, later⟩ := none
    obtain ⟨calls, deadlines⟩ := T.unset unset
    refine ⟨calls, ?_⟩
    rw [← deadlines]
    show ((c.signals.fireDue c.clock).timers).map Timer.deadline = _
    rw [Signals.timers_fireDue, List.filter_eq_self.mpr]
    intro t mem
    by_contra due
    rw [if_pos ⟨t.deadline, List.mem_map_of_mem mem, by simpa using due⟩] at later
    cases later

theorem Tracks.prepared (T : c.Tracks made) (k : SignalCall) :
    (c.prepared k).Tracks (made ++ c.begins k) := by
  -- Where a call begins no task that sets the signal, the reason is as it was.
  have append : ∀ {tasks : List SignalTask}, (∀ task ∈ tasks, ¬task.Sets) →
      (∀ task ∈ made, ¬task.Sets) → ∀ task ∈ made ++ tasks, ¬task.Sets := by
    intro tasks new old task mem
    exact (List.mem_append.mp mem).elim (old task) (new task)
  cases k with
  | cancel reason =>
    refine ⟨(Signals.next_cancel _ _ _).symm ▸ T.signal, T.timers, fun none => ?_⟩
    have isSet := Signals.reason_cancel_self c.signals reason T.signal
    exact absurd (isSet.symm.trans none) (Option.some_ne_none _)
  | timeOutAfter ms =>
    refine ⟨T.signal, fun t mem => ?_, fun none => ?_⟩
    · rcases List.mem_append.mp mem with mem | mem
      · exact T.timers t mem
      · rw [List.mem_singleton.mp mem]
        exact ⟨rfl, rfl⟩
    · obtain ⟨calls, deadlines⟩ := T.unset none
      refine ⟨append (fun task mem => ?_) calls, ?_⟩
      · rw [List.mem_singleton.mp mem]
        exact id
      · rw [List.filterMap_append, ← deadlines]
        exact List.map_append
  | wait ms =>
    refine ⟨T.signal, T.timers, fun none => ?_⟩
    obtain ⟨calls, deadlines⟩ := T.unset none
    refine ⟨append (fun task mem => ?_) calls, ?_⟩
    · rw [List.mem_singleton.mp mem]
      exact id
    · rw [List.filterMap_append, ← deadlines]
      exact (List.append_nil _).symm
  | advance ms =>
    refine ⟨T.signal, T.timers, fun none => ?_⟩
    rw [begins, List.append_nil]
    exact T.unset none

end ClockedSignal

/-! ## Both together -/

namespace SharedSignal

/-- A shared signal at rest shows what the one beside its clock does, and the same was begun. -/
structure Matches (x : SharedSignal) (c : ClockedSignal) (made : List SignalTask) : Prop where
  sound : x.Sound
  rest : x.AtRest
  begun : x.made = made
  clock : x.clock = c.clock
  reason : x.reason = c.reason?
  tracked : c.Tracks made

variable {x y : SharedSignal} {c : ClockedSignal} {made : List SignalTask}

/-- When the tasks rest that were begun beside the clock, and what was set there before the timers
fire is still set, then both have the same reason. -/
theorem matches_of_rest (S : y.Sound) (rest : y.AtRest) (begun : y.made = made) (T : c.Tracks made)
    (clock : y.clock = c.clock)
    (kept : ∀ reason, c.reason? = some reason → y.reason = some reason) :
    y.Matches c.fire made where
  sound := S
  rest := rest
  begun := begun
  clock := clock
  reason := by
    rw [T.reason_fire]
    cases isSet : c.reason? with
    | some reason => exact kept reason isSet
    | none =>
      obtain ⟨calls, deadlines⟩ := T.unset isSet
      subst begun
      rw [S.reason_at_rest rest calls, Option.none_or, deadlines, clock]
  tracked := T.fire

theorem matches_start : start.Matches .start [] where
  sound := sound_start
  rest _ h := absurd h List.not_mem_nil
  begun := rfl
  clock := rfl
  reason := rfl
  tracked := ClockedSignal.tracks_start

theorem le_afterWait (c : ClockedSignal) (ms : Nat) : c.clock ≤ c.afterWait ms := by
  unfold ClockedSignal.afterWait
  split
  · exact Nat.le_refl _
  · split <;> omega

theorem made_add (x : SharedSignal) (task : SignalTask) :
    (x.add task).made = x.made ++ [task.fresh] := by
  simp [add, made]

/-- A call that is begun and has a turn gives its reason. -/
theorem reason_cancel (x : SharedSignal) (reason : CancelReason) :
    (x.run [.cancel reason, .turn x.tasks.length]).reason = some (x.reason.getD reason) := by
  simp [run, step, add, SignalTask.turn, set, give]

/-- After a call on both they match again, once the tasks of the shared one have come to rest. -/
theorem Matches.call (h : x.Matches c made) (k : SignalCall) :
    ∃ moves, (x.run moves).Matches (c.call k) (made ++ c.begins k) := by
  have T := h.tracked.prepared k
  rw [ClockedSignal.call_eq]
  have kept : ∀ moves reason, c.reason? = some reason → (x.run moves).reason = some reason :=
    fun moves reason isSet => (keeps_run x moves).reason reason (h.reason.trans isSet)
  cases k with
  | cancel reason =>
    obtain ⟨turns, all, rest⟩ := exists_rest (x.run [.cancel reason, .turn x.tasks.length])
    have same := same_run all (x.run [.cancel reason, .turn x.tasks.length])
    have turn : (SignalMove.turn x.tasks.length).Turns := trivial
    have begun := same_step turn (x.step (.cancel reason))
    rw [← run_append] at rest same
    refine ⟨_, matches_of_rest (h.sound.run _) rest ?_ T ?_ fun r isSet => ?_⟩
    · refine same.made.trans (begun.made.trans ?_)
      rw [step, made_add, h.begun, h.clock]
      rfl
    · exact same.clock.trans (begun.clock.trans h.clock)
    · have given := Signals.reason_cancel_self c.signals reason h.tracked.signal
      have reasons : some r = some (x.reason.getD reason) := by
        rw [h.reason]
        exact isSet.symm.trans given
      rw [run_append]
      exact (keeps_run _ turns).reason r ((reason_cancel x reason).trans reasons.symm)
  | timeOutAfter ms =>
    obtain ⟨turns, all, rest⟩ := exists_rest (x.step (.timeOutAfter ms))
    have same := same_run all (x.step (.timeOutAfter ms))
    refine ⟨.timeOutAfter ms :: turns, matches_of_rest (h.sound.run _) rest ?_ T ?_ (kept _)⟩
    · refine same.made.trans ?_
      rw [step, made_add, h.begun, h.clock]
      rfl
    · exact same.clock.trans h.clock
  | wait ms =>
    obtain ⟨turns, all, rest⟩ := exists_rest (x.step .wait)
    have same := same_run all (x.step .wait)
    obtain ⟨moves, rest, clock, begun⟩ := exists_advance rest (c.afterWait ms - c.clock)
    have run : x.run (.wait :: turns ++ moves) = ((x.step .wait).run turns).run moves :=
      run_append x (.wait :: turns) moves
    rw [← run] at rest clock begun
    refine ⟨_, matches_of_rest (h.sound.run _) rest ?_ T ?_ (kept _)⟩
    · rw [begun, same.made, step, made_add, h.begun]
      rfl
    · have start : (x.step .wait).clock = c.clock := h.clock
      rw [clock, same.clock, start]
      exact Nat.add_sub_of_le (le_afterWait c ms)
  | advance ms =>
    obtain ⟨moves, rest, clock, begun⟩ := exists_advance h.rest ms
    refine ⟨moves, matches_of_rest (h.sound.run _) rest ?_ T ?_ (kept _)⟩
    · rw [begun, h.begun, ClockedSignal.begins, List.append_nil]
    · rw [clock, h.clock]
      rfl

theorem Matches.calls (h : x.Matches c made) (calls : List SignalCall) :
    ∃ moves, (x.run moves).Matches (c.after calls) (made ++ c.made calls) := by
  induction calls generalizing x c made with
  | nil => exact ⟨[], (List.append_nil made).symm ▸ h⟩
  | cons k ks ih =>
    obtain ⟨first, h⟩ := h.call k
    obtain ⟨rest, h⟩ := ih h
    refine ⟨first ++ rest, ?_⟩
    rw [run_append, ClockedSignal.made, ← List.append_assoc]
    exact h

end SharedSignal

open SharedSignal

theorem givenBy_events (s : Signals) (events : List SignalEvent) :
    s.givenBy 0 (events.map fun e => .cancel 0 e.reason) = events.map (·.reason) := by
  induction events generalizing s with
  | nil => rfl
  | cons e es ih =>
    rw [List.map_cons, Signals.givenBy, ih]
    rfl

/-- The first cause of cancellation is final.  However calls on a signal, timers, waits and the
passing of time interleave, what was set stays set, and the token and the reason agree whenever no
call is between them; the reason is that of the earliest event, of calls at their time and of timers
when they are due, and it is what the events set one after the other.  The signal that is called
beside its clock shows the clock and the reason of a shared one at rest after the same was begun at
the same times, and keeps its reason as well. -/
theorem first_cause_final :
    (∀ moves, (∀ more, ((start.run moves).Keeps ((start.run moves).run more))) ∧
      ((start.run moves).Quiet →
        ((start.run moves).reason.isSome = true ↔ (start.run moves).token = true)) ∧
      (start.run moves).Explained ∧
      (start.run moves).reason = (Signals.empty.create.acts
        ((start.run moves).events.map fun e => .cancel 0 e.reason)).reason? 0) ∧
    ∀ calls, (∃ moves, (start.run moves).AtRest ∧
        (start.run moves).made = ClockedSignal.start.made calls ∧
        (start.run moves).clock = (ClockedSignal.start.after calls).clock ∧
        (start.run moves).reason = (ClockedSignal.start.after calls).reason?) ∧
      ∀ more reason, (ClockedSignal.start.after calls).reason? = some reason →
        (ClockedSignal.start.after (calls ++ more)).reason? = some reason := by
  refine ⟨fun moves => ?_, fun calls => ⟨?_, fun more reason isSet => ?_⟩⟩
  · have S := sound_start.run moves
    refine ⟨keeps_run _, S.agree, S.explained, ?_⟩
    have made : 0 < Signals.empty.create.next := Nat.one_pos
    have none : Signals.empty.create.reason? 0 = none := rfl
    rw [(Signals.reason_acts _ _ made).2, Signals.everGiven, none, givenBy_events, S.reason,
      ← List.head?_map]
    rfl
  · obtain ⟨moves, h⟩ := matches_start.calls calls
    exact ⟨moves, h.rest, h.begun, h.clock, h.reason⟩
  · obtain ⟨moves, h⟩ := matches_start.calls calls
    obtain ⟨rest, h'⟩ := h.calls more
    have eq : ClockedSignal.start.after (calls ++ more) =
        (ClockedSignal.start.after calls).after more := List.foldl_append
    rw [eq, ← h'.reason]
    exact (keeps_run _ rest).reason reason (h.reason.trans isSet)

/-! ## A call that is ahead of a timer -/

namespace Ahead

/-- A timer is due while a call is about to give its reason, and the call comes first. -/
def moves : List SignalMove :=
  [.timeOutAfter 5, .turn 0, .cancel .cancelled, .pass 5, .turn 0, .turn 1, .turn 0, .turn 0,
    .turn 1]

theorem tasks_moves : (start.run moves).tasks =
    [.timer 5 0 (.firing .done), .setting .cancelled 0 .done] := by
  rfl

/-- Both are at the same time; the reason is that of the call, whatever happens then. -/
theorem first_cause_final_ahead :
    (start.run moves).events = [⟨1, 5, .cancelled⟩, ⟨0, 5, .timedOut⟩] ∧
    (start.run moves).token = true ∧
    ∀ more, ((start.run moves).run more).reason = some .cancelled := by
  obtain ⟨keeps, agree, explained, -⟩ := first_cause_final.1 moves
  have events : (start.run moves).events = [⟨1, 5, .cancelled⟩, ⟨0, 5, .timedOut⟩] := by rfl
  have reason : (start.run moves).reason = some .cancelled := by
    rw [explained.reason, events]
    rfl
  have quiet : (start.run moves).Quiet := by
    intro task mem
    rw [tasks_moves] at mem
    simp only [List.mem_cons, List.not_mem_nil, or_false] at mem
    rcases mem with rfl | rfl <;> exact fun between => by cases between
  exact ⟨events, (agree quiet).mp (reason ▸ rfl), fun more => (keeps more).reason _ reason⟩

end Ahead

end GraphQLEngine
