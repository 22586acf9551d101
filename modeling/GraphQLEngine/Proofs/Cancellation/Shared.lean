import GraphQLEngine.Cancellation.History

/-!
# Signals that are shared

A signal has two cells, the token that tasks wait for and the reason.  A call that sets the signal
gives its reason first, which counts if there is none, and then sets the token.  A timer is a task
of its own: it sleeps until it is due and then makes such a call, unless the token was set before.
The others may have their turns between any two accesses.  The clock is virtual.  It stands still
while a timer has something to do, and does not pass by the point at which one is due.

    run x moves      calls on a signal, and turns of those that were made before, in any order
    Sound x          what every task has done so far
    Explained x      the reason is that of the earliest event
-/

namespace GraphQLEngine

/-- How far a call has come that sets the signal. -/
inductive SettingStage where
  /-- It is about to give its reason. -/
  | begun
  /-- It is about to set the token. -/
  | given
  | done
deriving DecidableEq

inductive TimerStage where
  /-- The task has not had a turn. -/
  | spawned
  | asleep (deadline : Nat)
  /-- It was due, and sets the signal. -/
  | firing (stage : SettingStage)
  /-- It gave way, since the token was set. -/
  | stopped

/-- A call on the signal or a timer, and the point of the clock at which it was begun. -/
inductive SignalTask where
  | setting (reason : CancelReason) (begun : Nat) (stage : SettingStage)
  | timer (ms begun : Nat) (stage : TimerStage)
  /-- A wait for the token. -/
  | waiting (ended : Bool)

/-- A task gave its reason. -/
structure SignalEvent where
  task : Nat
  time : Nat
  reason : CancelReason

structure SharedSignal where
  clock : Nat
  token : Bool
  reason : Option CancelReason
  /-- The reasons that were given, oldest first. -/
  events : List SignalEvent
  tasks : List SignalTask

inductive SignalMove where
  /-- A call to set the signal is begun. -/
  | cancel (reason : CancelReason)
  | timeOutAfter (ms : Nat)
  | wait
  /-- A task has a turn. -/
  | turn (i : Nat)
  /-- A timer has a turn in which it looks at the token first. -/
  | giveWay (i : Nat)
  | pass (ms : Nat)

namespace SharedSignal

def start : SharedSignal := ⟨0, false, none, [], []⟩

/-- Give a reason; it counts if there is none. -/
def give (x : SharedSignal) (i : Nat) (reason : CancelReason) : SharedSignal :=
  { x with reason := some (x.reason.getD reason), events := x.events ++ [⟨i, x.clock, reason⟩] }

/-- A turn of the call of a task that sets the signal. -/
def set (x : SharedSignal) (i : Nat) (reason : CancelReason) :
    SettingStage → SharedSignal × SettingStage
  | .begun => (x.give i reason, .given)
  | .given => ({ x with token := true }, .done)
  | .done => (x, .done)

end SharedSignal

namespace SignalTask

/-- One turn; nothing if the task is done, or waits. -/
def turn (x : SharedSignal) (i : Nat) : SignalTask → SharedSignal × SignalTask
  | .setting reason begun stage =>
    ((x.set i reason stage).1, .setting reason begun (x.set i reason stage).2)
  | .timer ms begun .spawned => (x, .timer ms begun (.asleep (x.clock + ms)))
  | .timer ms begun (.asleep deadline) =>
    (x, .timer ms begun (if deadline ≤ x.clock then .firing .begun else .asleep deadline))
  | .timer ms begun (.firing stage) =>
    ((x.set i .timedOut stage).1, .timer ms begun (.firing (x.set i .timedOut stage).2))
  | .timer ms begun .stopped => (x, .timer ms begun .stopped)
  | .waiting ended => (x, .waiting (ended || x.token))

/-- A timer that is not due, or has not seen that it is, stops if the token is set. -/
def giveWay (token : Bool) : SignalTask → SignalTask
  | .timer ms begun .spawned => .timer ms begun (if token then .stopped else .spawned)
  | .timer ms begun (.asleep deadline) =>
    .timer ms begun (if token then .stopped else .asleep deadline)
  | task => task

/-- Whether the clock may go on to a point. -/
def allows (now : Nat) : SignalTask → Bool
  | .timer _ _ .spawned => false
  | .timer _ _ (.asleep deadline) => now ≤ deadline
  | .timer _ _ (.firing stage) => stage = .done
  | .setting .. | .timer _ _ .stopped | .waiting _ => true

end SignalTask

namespace SharedSignal

def add (x : SharedSignal) (task : SignalTask) : SharedSignal :=
  { x with tasks := x.tasks ++ [task] }

/-- One move; nothing if it is not possible. -/
def step (x : SharedSignal) : SignalMove → SharedSignal
  | .cancel reason => x.add (.setting reason x.clock .begun)
  | .timeOutAfter ms => x.add (.timer ms x.clock .spawned)
  | .wait => x.add (.waiting false)
  | .turn i =>
    match x.tasks[i]? with
    | none => x
    | some task => { (task.turn x i).1 with tasks := x.tasks.set i (task.turn x i).2 }
  | .giveWay i =>
    match x.tasks[i]? with
    | none => x
    | some task => { x with tasks := x.tasks.set i (task.giveWay x.token) }
  | .pass ms =>
    if x.tasks.all (·.allows (x.clock + ms)) then { x with clock := x.clock + ms } else x

def run (x : SharedSignal) (moves : List SignalMove) : SharedSignal := moves.foldl step x

theorem run_append (x : SharedSignal) (moves more : List SignalMove) :
    x.run (moves ++ more) = (x.run moves).run more :=
  List.foldl_append

/-! ## Nothing is taken back -/

/-- What was set stays set. -/
structure Keeps (x y : SharedSignal) : Prop where
  token : x.token = true → y.token = true
  reason : ∀ reason, x.reason = some reason → y.reason = some reason

theorem Keeps.refl (x : SharedSignal) : x.Keeps x := ⟨id, fun _ => id⟩

theorem Keeps.trans {x y z : SharedSignal} (h : x.Keeps y) (h' : y.Keeps z) : x.Keeps z :=
  ⟨fun set => h'.token (h.token set), fun r set => h'.reason r (h.reason r set)⟩

theorem keeps_set (x : SharedSignal) (i : Nat) (reason : CancelReason) (stage : SettingStage) :
    x.Keeps (x.set i reason stage).1 := by
  cases stage with
  | begun => exact ⟨id, fun r isSet => by simp [isSet, set, give]⟩
  | given => exact ⟨fun _ => rfl, fun _ => id⟩
  | done => exact .refl x

theorem keeps_turn (x : SharedSignal) (i : Nat) (task : SignalTask) :
    x.Keeps (task.turn x i).1 := by
  cases task with
  | setting reason begun stage => exact keeps_set x i reason stage
  | timer ms begun stage =>
    cases stage with
    | firing stage => exact keeps_set x i .timedOut stage
    | spawned | asleep | stopped => exact .refl x
  | waiting ended => exact .refl x

theorem keeps_step (x : SharedSignal) (m : SignalMove) : x.Keeps (x.step m) := by
  cases m with
  | cancel | timeOutAfter | wait => exact ⟨id, fun _ => id⟩
  | turn i =>
    rw [step]
    split
    · exact .refl x
    · next task _ => exact ⟨(keeps_turn x i task).token, (keeps_turn x i task).reason⟩
  | giveWay i =>
    rw [step]
    split <;> exact ⟨id, fun _ => id⟩
  | pass ms =>
    rw [step]
    split <;> exact ⟨id, fun _ => id⟩

theorem keeps_run (x : SharedSignal) (moves : List SignalMove) : x.Keeps (x.run moves) := by
  induction moves generalizing x with
  | nil => exact .refl x
  | cons m ms ih => exact (keeps_step x m).trans (ih (x.step m))

end SharedSignal

/-! ## What the tasks have done -/

/-- An event can be one of a task: a call gives its reason after it was begun, a timer exactly when
it is due. -/
def SignalTask.Gives (e : SignalEvent) : SignalTask → Prop
  | .setting reason begun _ => e.reason = reason ∧ begun ≤ e.time
  | .timer ms begun _ => e.reason = .timedOut ∧ e.time = begun + ms
  | .waiting _ => False

/-- A call is between its accesses to the two cells. -/
def SignalTask.Between : SignalTask → Prop
  | .setting _ _ stage | .timer _ _ (.firing stage) => stage = .given
  | _ => False

/-- What holds of a call until it gives its reason, and from then on. -/
def SettingStage.Holds (before after : Prop) : SettingStage → Prop
  | .begun => before
  | .given | .done => after

/-- What a task has done and seen so far. -/
def SignalTask.Fits (x : SharedSignal) (i : Nat) : SignalTask → Prop
  | .setting _ begun stage => stage.Holds (begun ≤ x.clock) (∃ e ∈ x.events, e.task = i)
  | .timer _ begun .spawned => begun = x.clock
  | .timer ms begun (.asleep deadline) => deadline = begun + ms ∧ x.clock ≤ deadline
  | .timer ms begun (.firing stage) =>
    stage.Holds (begun + ms = x.clock) (∃ e ∈ x.events, e.task = i)
  | .timer ms begun .stopped => ∃ e ∈ x.events, e.time ≤ begun + ms
  | .waiting ended => ended = true → x.token = true

theorem SettingStage.Holds.mono {before after before' after' : Prop} {stage : SettingStage}
    (h : stage.Holds before after) (hb : before → before') (ha : after → after') :
    stage.Holds before' after' := by
  cases stage with
  | begun => exact hb h
  | given | done => exact ha h

namespace SignalTask

variable {x y : SharedSignal} {i : Nat} {task : SignalTask}

theorem Fits.mono (h : task.Fits x i) (clock : y.clock = x.clock)
    (events : ∀ e ∈ x.events, e ∈ y.events) (token : x.token = true → y.token = true) :
    task.Fits y i := by
  have event : ∀ {p : SignalEvent → Prop}, (∃ e ∈ x.events, p e) → ∃ e ∈ y.events, p e :=
    fun ⟨e, mem, he⟩ => ⟨e, events e mem, he⟩
  cases task with
  | setting reason begun stage =>
    have h : stage.Holds _ _ := h
    exact h.mono (clock ▸ id) event
  | timer ms begun stage =>
    cases stage with
    | spawned => exact (h : begun = x.clock).trans clock.symm
    | asleep deadline => exact ⟨h.1, clock ▸ h.2⟩
    | firing stage =>
      have h : stage.Holds _ _ := h
      exact h.mono (clock ▸ id) event
    | stopped => exact event h
  | waiting ended => exact fun yes => token (h yes)

theorem Fits.pass {ms : Nat} (h : task.Fits x i) (allows : task.allows (x.clock + ms) = true) :
    task.Fits { x with clock := x.clock + ms } i := by
  cases task with
  | setting reason begun stage =>
    have h : stage.Holds _ _ := h
    exact h.mono (fun le => Nat.le_add_right_of_le le) id
  | timer _ begun stage =>
    cases stage with
    | spawned => cases allows
    | asleep deadline => exact ⟨h.1, by simpa [SignalTask.allows] using allows⟩
    | firing stage =>
      obtain rfl : stage = .done := by simpa [SignalTask.allows] using allows
      exact h
    | stopped => exact h
  | waiting ended => exact h

end SignalTask

namespace SharedSignal

/-- What is known of a signal that any calls were made on. -/
structure Sound (x : SharedSignal) : Prop where
  reason : x.reason = x.events.head?.map (·.reason)
  token : x.token = true → x.events ≠ []
  pending : x.events ≠ [] → x.token = true ∨ ∃ task ∈ x.tasks, task.Between
  ordered : x.events.Pairwise (·.time ≤ ·.time)
  past : ∀ e ∈ x.events, e.time ≤ x.clock
  gives : ∀ e ∈ x.events, ∃ task, x.tasks[e.task]? = some task ∧ task.Gives e
  fits : ∀ (i : Nat) task, x.tasks[i]? = some task → task.Fits x i

theorem sound_start : Sound start where
  reason := rfl
  token h := by cases h
  pending h := absurd rfl h
  ordered := .nil
  past _ h := absurd h List.not_mem_nil
  gives _ h := absurd h List.not_mem_nil
  fits _ _ h := by simp [start] at h

variable {x : SharedSignal} {i : Nat} {task task' : SignalTask}

/-- The tasks that there were are the first ones. -/
theorem getElem?_add {t : SignalTask} {j : Nat} (at' : x.tasks[j]? = some t) :
    (x.add task).tasks[j]? = some t :=
  (List.getElem?_append_left (List.getElem?_eq_some_iff.mp at').1).trans at'

theorem Sound.add (S : Sound x) (fits : task.Fits x x.tasks.length) : Sound (x.add task) where
  reason := S.reason
  token := S.token
  pending some := (S.pending some).imp id fun ⟨t, mem, between⟩ =>
    ⟨t, List.mem_append_left _ mem, between⟩
  ordered := S.ordered
  past := S.past
  gives e mem := by
    obtain ⟨t, at', gives⟩ := S.gives e mem
    exact ⟨t, getElem?_add at', gives⟩
  fits j t at' := by
    have here : t.Fits x j := by
      rcases Nat.lt_or_ge j x.tasks.length with old | new
      · exact S.fits j t ((List.getElem?_append_left old).symm.trans at')
      · rw [SharedSignal.add, List.getElem?_append_right new,
          List.getElem?_singleton] at at'
        split at at'
        · next eq =>
          obtain rfl : j = x.tasks.length := by omega
          cases at'
          exact fits
        · cases at'
    exact here.mono rfl (fun _ => id) id

theorem getElem?_set_of_ne {t : SignalTask} {j : Nat} (other : j ≠ i)
    (at' : x.tasks[j]? = some t) : (x.tasks.set i task')[j]? = some t :=
  (List.getElem?_set_ne (Ne.symm other)).trans at'

theorem getElem?_set_self (at' : x.tasks[i]? = some task) :
    (x.tasks.set i task')[i]? = some task' :=
  List.getElem?_set_self (List.getElem?_eq_some_iff.mp at').1

theorem gives_set (at' : x.tasks[i]? = some task) (gives : ∀ {e}, task.Gives e → task'.Gives e)
    {e : SignalEvent} (h : ∃ t, x.tasks[e.task]? = some t ∧ t.Gives e) :
    ∃ t, (x.tasks.set i task')[e.task]? = some t ∧ t.Gives e := by
  obtain ⟨t, there, own⟩ := h
  by_cases same : e.task = i
  · rw [same, at', Option.some.injEq] at there
    rw [same]
    exact ⟨task', getElem?_set_self at', gives (there ▸ own)⟩
  · exact ⟨t, getElem?_set_of_ne same there, own⟩

theorem fits_set {y : SharedSignal} (fits : task'.Fits y i)
    (others : ∀ (j : Nat) t, x.tasks[j]? = some t → t.Fits y j) (j : Nat) (t : SignalTask)
    (at' : (x.tasks.set i task')[j]? = some t) : t.Fits y j := by
  by_cases same : i = j
  · subst same
    have lt : i < (x.tasks.set i task').length := (List.getElem?_eq_some_iff.mp at').1
    rw [List.getElem?_set_self (by simpa using lt), Option.some.injEq] at at'
    exact at' ▸ fits
  · exact others j t ((List.getElem?_set_ne same).symm.trans at')

/-- A task has got on, and nothing else has changed that others could see. -/
theorem Sound.move (S : Sound x) (at' : x.tasks[i]? = some task) (fits : task'.Fits x i)
    (gives : ∀ {e}, task.Gives e → task'.Gives e) (between : ¬task.Between) :
    Sound { x with tasks := x.tasks.set i task' } where
  reason := S.reason
  token := S.token
  pending some := by
    refine (S.pending some).imp id fun ⟨t, mem, isBetween⟩ => ?_
    obtain ⟨j, there⟩ := List.mem_iff_getElem?.mp mem
    have other : j ≠ i := by
      rintro rfl
      rw [at', Option.some.injEq] at there
      exact between (there ▸ isBetween)
    exact ⟨t, List.mem_of_getElem? (getElem?_set_of_ne other there), isBetween⟩
  ordered := S.ordered
  past := S.past
  gives e mem := gives_set at' gives (S.gives e mem)
  fits := fits_set (fits.mono rfl (fun _ => id) id)
    fun j t there => (S.fits j t there).mono rfl (fun _ => id) id

/-- A task has given its reason. -/
theorem Sound.give {reason : CancelReason} (S : Sound x) (at' : x.tasks[i]? = some task)
    (fits : ∀ {y : SharedSignal}, (∃ e ∈ y.events, e.task = i) → task'.Fits y i)
    (gives : ∀ {e}, task.Gives e → task'.Gives e) (own : task.Gives ⟨i, x.clock, reason⟩)
    (between : task'.Between) :
    Sound { x.give i reason with tasks := x.tasks.set i task' } where
  reason := by
    have first := S.reason
    cases given : x.events with
    | nil => simp_all [SharedSignal.give]
    | cons e es => simp_all [SharedSignal.give]
  token _ := List.append_ne_nil_of_right_ne_nil _ (List.cons_ne_nil _ _)
  pending _ := .inr ⟨task', List.mem_of_getElem? (getElem?_set_self at'), between⟩
  ordered := by
    refine List.pairwise_append.mpr ⟨S.ordered, List.pairwise_singleton _ _, ?_⟩
    intro e mem e' mem'
    rw [List.mem_singleton.mp mem']
    exact S.past e mem
  past e mem := by
    rcases List.mem_append.mp mem with mem | mem
    · exact S.past e mem
    · rw [List.mem_singleton.mp mem]
      exact Nat.le_refl _
  gives e mem := by
    refine gives_set at' gives ?_
    rcases List.mem_append.mp mem with mem | mem
    · exact S.gives e mem
    · rw [List.mem_singleton.mp mem]
      exact ⟨task, at', own⟩
  fits := fits_set (fits ⟨_, List.mem_append_right _ (List.mem_singleton_self _), rfl⟩)
    fun j t there => (S.fits j t there).mono rfl (fun _ => List.mem_append_left _) id

/-- A task that has given its reason has set the token. -/
theorem Sound.setToken (S : Sound x) (at' : x.tasks[i]? = some task)
    (event : ∃ e ∈ x.events, e.task = i)
    (fits : ∀ {y : SharedSignal}, (∃ e ∈ y.events, e.task = i) → task'.Fits y i)
    (gives : ∀ {e}, task.Gives e → task'.Gives e) :
    Sound { x with token := true, tasks := x.tasks.set i task' } where
  reason := S.reason
  token _ := by
    obtain ⟨e, mem, -⟩ := event
    exact List.ne_nil_of_mem mem
  -- Others that are between their accesses need no longer be counted on.
  pending _ := .inl rfl
  ordered := S.ordered
  past := S.past
  gives e mem := gives_set at' gives (S.gives e mem)
  fits := fits_set (fits event)
    fun j t there => (S.fits j t there).mono rfl (fun _ => id) fun _ => rfl

/-- The stages of a task that are those of a call. -/
structure Calls (again : SettingStage → SignalTask) : Prop where
  between : ∀ stage, (again stage).Between ↔ stage = .given
  gives : ∀ {stage stage' e}, (again stage).Gives e → (again stage').Gives e
  given : ∀ {y : SharedSignal} {i : Nat}, (again .given).Fits y i ↔ ∃ e ∈ y.events, e.task = i
  done : ∀ {y : SharedSignal} {i : Nat}, (again .done).Fits y i ↔ ∃ e ∈ y.events, e.task = i

theorem calls_setting (reason : CancelReason) (begun : Nat) : Calls (.setting reason begun) :=
  ⟨fun _ => Iff.rfl, id, Iff.rfl, Iff.rfl⟩

theorem calls_firing (ms begun : Nat) : Calls fun stage => .timer ms begun (.firing stage) :=
  ⟨fun _ => Iff.rfl, id, Iff.rfl, Iff.rfl⟩

/-- A call that sets the signal has a turn. -/
theorem Sound.set {reason : CancelReason} {stage : SettingStage} {again : SettingStage → SignalTask}
    (S : Sound x) (at' : x.tasks[i]? = some (again stage)) (C : Calls again)
    (own : stage = .begun → (again stage).Gives ⟨i, x.clock, reason⟩) :
    Sound { (x.set i reason stage).1 with
      tasks := x.tasks.set i (again (x.set i reason stage).2) } := by
  cases stage with
  | begun => exact S.give at' C.given.mpr C.gives (own rfl) ((C.between _).mpr rfl)
  | given => exact S.setToken at' (C.given.mp (S.fits i _ at')) C.done.mpr C.gives
  | done =>
    refine S.move at' (S.fits i _ at') C.gives fun between => ?_
    cases (C.between _).mp between

theorem Sound.turn (S : Sound x) (at' : x.tasks[i]? = some task) :
    Sound { (task.turn x i).1 with tasks := x.tasks.set i (task.turn x i).2 } := by
  have fits := S.fits i task at'
  cases task with
  | setting reason begun stage =>
    refine S.set at' (calls_setting reason begun) fun eq => ?_
    subst eq
    exact ⟨rfl, fits⟩
  | timer ms begun stage =>
    cases stage with
    | spawned =>
      obtain rfl : begun = x.clock := fits
      exact S.move at' ⟨rfl, Nat.le_add_right _ _⟩ id id
    | asleep deadline =>
      obtain ⟨rfl, le⟩ : deadline = begun + ms ∧ x.clock ≤ deadline := fits
      refine S.move at' ?_ id id
      dsimp only [SignalTask.turn]
      split
      · next due => exact Nat.le_antisymm due le
      · exact ⟨rfl, le⟩
    | firing stage =>
      refine S.set at' (calls_firing ms begun) fun eq => ?_
      subst eq
      exact ⟨rfl, Eq.symm fits⟩
    | stopped => exact S.move at' fits id id
  | waiting ended =>
    refine S.move at' (fun yes => ?_) id id
    rcases Bool.or_eq_true_iff.mp yes with before | now
    · exact fits before
    · exact now

/-- A token that is set was set because of an event. -/
theorem Sound.event (S : Sound x) (isSet : x.token = true) : ∃ e ∈ x.events, e.time ≤ x.clock := by
  obtain ⟨e, es, eq⟩ := List.exists_cons_of_ne_nil (S.token isSet)
  have mem : e ∈ x.events := eq ▸ List.mem_cons_self
  exact ⟨e, mem, S.past e mem⟩

theorem Sound.giveWay (S : Sound x) (at' : x.tasks[i]? = some task) :
    Sound { x with tasks := x.tasks.set i (task.giveWay x.token) } := by
  have fits := S.fits i task at'
  have stays : Sound { x with tasks := x.tasks.set i task } := by
    obtain ⟨lt, rfl⟩ := List.getElem?_eq_some_iff.mp at'
    rw [List.set_getElem_self lt]
    exact S
  cases task with
  | setting | waiting => exact stays
  | timer ms begun stage =>
    cases stage with
    | firing | stopped => exact stays
    | spawned =>
      obtain rfl : begun = x.clock := fits
      refine S.move at' ?_ id id
      dsimp only [SignalTask.giveWay]
      split
      · next isSet =>
        obtain ⟨e, mem, le⟩ := S.event isSet
        exact ⟨e, mem, Nat.le_add_right_of_le le⟩
      · exact rfl
    | asleep deadline =>
      obtain ⟨rfl, le⟩ : deadline = begun + ms ∧ x.clock ≤ deadline := fits
      refine S.move at' ?_ id id
      dsimp only [SignalTask.giveWay]
      split
      · next isSet =>
        obtain ⟨e, mem, past⟩ := S.event isSet
        exact ⟨e, mem, Nat.le_trans past le⟩
      · exact ⟨rfl, le⟩

theorem Sound.pass (S : Sound x) {ms : Nat}
    (allowed : ∀ task ∈ x.tasks, task.allows (x.clock + ms) = true) :
    Sound { x with clock := x.clock + ms } where
  reason := S.reason
  token := S.token
  pending := S.pending
  ordered := S.ordered
  past e mem := Nat.le_add_right_of_le (S.past e mem)
  gives := S.gives
  fits i task at' := (S.fits i task at').pass (allowed task (List.mem_of_getElem? at'))

theorem Sound.step (S : Sound x) (m : SignalMove) : Sound (x.step m) := by
  cases m with
  | cancel reason => exact S.add (Nat.le_refl _)
  | timeOutAfter ms => exact S.add rfl
  | wait => exact S.add nofun
  | turn i =>
    rw [SharedSignal.step]
    split
    · exact S
    · next at' => exact S.turn at'
  | giveWay i =>
    rw [SharedSignal.step]
    split
    · exact S
    · next at' => exact S.giveWay at'
  | pass ms =>
    rw [SharedSignal.step]
    split
    · next allowed => exact S.pass (List.all_eq_true.mp allowed)
    · exact S

theorem Sound.run (S : Sound x) (moves : List SignalMove) : Sound (x.run moves) := by
  induction moves generalizing x with
  | nil => exact S
  | cons m ms ih => exact ih (S.step m)

/-! ## The earliest event -/

/-- No call is between its accesses to the two cells. -/
def Quiet (x : SharedSignal) : Prop := ∀ task ∈ x.tasks, ¬task.Between

/-- The reason is that of the earliest event, among calls at their time and timers when they are
due; of those at the same time it is the one that came first. -/
structure Explained (x : SharedSignal) : Prop where
  reason : x.reason = x.events.head?.map (·.reason)
  /-- The events are those of calls and timers, in the order in which they came. -/
  gives : ∀ e ∈ x.events, ∃ task, x.tasks[e.task]? = some task ∧ task.Gives e
  ordered : x.events.Pairwise (·.time ≤ ·.time)
  past : ∀ e ∈ x.events, e.time ≤ x.clock
  /-- Every call comes to its event before it returns. -/
  calls : ∀ {i reason begun stage}, x.tasks[i]? = some (.setting reason begun stage) →
    stage ≠ .begun → ∃ e ∈ x.events, e.task = i
  /-- No timer is passed by unless there was an event by then, and none is due before the first. -/
  timers : ∀ {ms begun stage}, .timer ms begun stage ∈ x.tasks →
    (begun + ms < x.clock → x.events ≠ []) ∧
    ∀ first ∈ x.events.head?, first.time ≤ begun + ms
  waits : .waiting true ∈ x.tasks → x.token = true

theorem Sound.first_le (S : Sound x) {first e : SignalEvent} (head : first ∈ x.events.head?)
    (mem : e ∈ x.events) : first.time ≤ e.time := by
  have ordered := S.ordered
  cases eq : x.events with
  | nil => rw [eq] at mem; cases mem
  | cons e' es =>
    rw [eq] at head mem ordered
    obtain rfl : e' = first := Option.some.inj head
    rcases List.mem_cons.mp mem with rfl | mem
    · exact Nat.le_refl _
    · exact (List.pairwise_cons.mp ordered).1 e mem

/-- A timer is not passed by, or there was an event by the time that it is due. -/
theorem Sound.timer (S : Sound x) {ms begun : Nat} {stage : TimerStage}
    (mem : .timer ms begun stage ∈ x.tasks) :
    x.clock ≤ begun + ms ∨ ∃ e ∈ x.events, e.time ≤ begun + ms := by
  obtain ⟨i, at'⟩ := List.mem_iff_getElem?.mp mem
  have fits := S.fits i _ at'
  have own : (∃ e ∈ x.events, e.task = i) → ∃ e ∈ x.events, e.time ≤ begun + ms := by
    rintro ⟨e, mem, rfl⟩
    obtain ⟨task, there, gives⟩ := S.gives e mem
    rw [at', Option.some.injEq] at there
    subst there
    exact ⟨e, mem, Nat.le_of_eq gives.2⟩
  cases stage with
  | spawned =>
    obtain rfl : begun = x.clock := fits
    exact .inl (Nat.le_add_right _ _)
  | asleep deadline =>
    obtain ⟨rfl, le⟩ : deadline = begun + ms ∧ x.clock ≤ deadline := fits
    exact .inl le
  | firing stage =>
    cases stage with
    | begun => exact .inl (Nat.le_of_eq (Eq.symm fits))
    | given | done => exact .inr (own fits)
  | stopped => exact .inr fits

theorem Sound.explained (S : Sound x) : Explained x where
  reason := S.reason
  gives := S.gives
  ordered := S.ordered
  past := S.past
  calls {i reason begun stage} at' gave := by
    have fits := S.fits i _ at'
    cases stage with
    | begun => exact absurd rfl gave
    | given | done => exact fits
  timers {ms begun stage} mem := by
    refine ⟨fun passed => ?_, fun first head => ?_⟩
    · rcases S.timer mem with le | ⟨e, mem, -⟩
      · omega
      · exact List.ne_nil_of_mem mem
    · rcases S.timer mem with le | ⟨e, mem, le⟩
      · exact Nat.le_trans (S.past first (List.mem_of_mem_head? head)) le
      · exact Nat.le_trans (S.first_le head mem) le
  waits mem := by
    obtain ⟨i, at'⟩ := List.mem_iff_getElem?.mp mem
    exact S.fits i _ at' rfl

/-- While no call is between the two cells they agree. -/
theorem Sound.agree (S : Sound x) (quiet : x.Quiet) : x.reason.isSome = true ↔ x.token = true := by
  rw [S.reason]
  constructor
  · intro given
    have some : x.events ≠ [] := fun none => by simp [none] at given
    rcases S.pending some with isSet | ⟨task, mem, between⟩
    · exact isSet
    · exact absurd between (quiet task mem)
  · intro isSet
    obtain ⟨e, es, eq⟩ := List.exists_cons_of_ne_nil (S.token isSet)
    simp [eq]

end SharedSignal

end GraphQLEngine
