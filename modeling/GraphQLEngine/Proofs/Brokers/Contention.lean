import GraphQLEngine.Proofs.Brokers.Calls
import GraphQLEngine.Proofs.Brokers.Turns

/-!
# One turn of a call

A turn of a call is looked at from the side of one registration.  Either the call does not get
further with that registration, or the turn is one of seven: the number is taken, and filed; the
subscriber is put in the group of its topic, and given out or withdrawn; the number is taken from the
file, and the subscriber from the group.  No turn takes the flag down or opens a sink, and who is to
release a number goes on until it is not filed.

    Affects id given b task (task.step given b).1 (task.step given b).2
-/

namespace GraphQLEngine

/-- How far a call has come with a registration that it makes. -/
inductive RegistrationPhase where
  | elsewhere
  | numbered
  | filed
  | grouped
  | granted
deriving DecidableEq

namespace BrokerTask

def phase (id : Nat) : BrokerTask → RegistrationPhase
  | .numbered i _ _ => if i = id then .numbered else .elsewhere
  | .filed i _ _ => if i = id then .filed else .elsewhere
  | .grouped i => if i = id then .grouped else .elsewhere
  | .done (.granted i) => if i = id then .granted else .elsewhere
  | _ => .elsewhere

@[simp] theorem phase_numbered (id : Nat) (topic : String) (filter : EventFilter) :
    (numbered id topic filter).phase id = .numbered := if_pos rfl

@[simp] theorem phase_filed (id : Nat) (topic : String) (filter : EventFilter) :
    (filed id topic filter).phase id = .filed := if_pos rfl

@[simp] theorem phase_grouped (id : Nat) : (grouped id).phase id = .grouped := if_pos rfl

@[simp] theorem phase_granted (id : Nat) : (done (.granted id)).phase id = .granted := if_pos rfl

/-- A call that has returned was given the registration, or has nothing to do with it. -/
theorem phase_done (id : Nat) (outcome : CallOutcome) :
    (done outcome).phase id = .elsewhere ∨ (done outcome).phase id = .granted := by
  cases outcome with
  | granted i =>
    simp only [phase]
    split
    · exact .inr rfl
    · exact .inl rfl
  | refused | received | returned => exact .inl rfl

/-- The call will yet take the number from the file, if it is there. -/
def Releases (id : Nat) : BrokerTask → Prop
  | .sweeping => True
  | .releasing ids _ => id ∈ ids
  | .detaching _ _ ids _ => id ∈ ids
  | _ => False

/-- The call has taken the number from the file, and not yet its subscriber from the group. -/
def Detaches (id : Nat) : BrokerTask → Prop
  | .detaching i _ _ _ => i = id
  | _ => False

/-- The topic under which the call knows a number. -/
def topic? (id : Nat) : BrokerTask → Option String
  | .numbered i topic _ => if i = id then some topic else none
  | .filed i topic _ => if i = id then some topic else none
  | .detaching i topic _ _ => if i = id then some topic else none
  | _ => none

/-- The reason for which the call is refused. -/
def reason? : BrokerTask → Option BrokerError
  | .releasing _ reason => reason
  | .detaching _ _ _ reason => reason
  | .done (.refused e) => some e
  | _ => none

end BrokerTask

/-! ## What a step does to the broker -/

namespace InProcessBroker

variable {b : InProcessBroker} {id i : Nat} {topic t : String} {s : Subscriber}

/-- The sink of a registration is not open. -/
def Ended (b : InProcessBroker) (id : Nat) : Prop :=
  ∃ sink, b.sinks[id]? = some sink ∧ sink.status ≠ .active

theorem Ended.turns {b' : InProcessBroker} (ended : b.Ended id) (t : Turns id b.sinks b'.sinks) :
    b'.Ended id := by
  obtain ⟨sink, kept, shut⟩ := ended
  obtain ⟨sink', kept', turns⟩ := t sink kept
  exact ⟨sink', kept', by rwa [turns.ended shut]⟩

theorem Ended.number (ended : b.Ended id) (policy : DeliveryPolicy) :
    (b.number policy).Ended id := by
  obtain ⟨sink, kept, shut⟩ := ended
  exact ⟨sink, (List.getElem?_append_left (List.getElem?_eq_some_iff.mp kept).1).trans kept, shut⟩

theorem Ended.receive (ended : b.Ended id) (i : Nat) : (b.receive i).1.Ended id := by
  obtain ⟨sink, kept, shut⟩ := ended
  by_cases same : id = i
  · subst same
    rw [Ended, receive_kept kept]
    exact ⟨_, List.getElem?_set_self (List.getElem?_eq_some_iff.mp kept).1,
      Sink.ended_receive shut⟩
  · exact ⟨sink, (getElem_receive_ne b same).trans kept, shut⟩

theorem lookup_file : (b.file i topic).topics.lookup id =
    (b.topics.lookup id).or (if id = i then some topic else none) := by
  rw [file, List.lookup_append]
  congr 1
  by_cases same : id = i
  · subst same
    simp
  · have hb : (id == i) = false := by simpa using same
    simp [List.lookup_cons, hb, same]

theorem lookup_unfile : (b.unfile i).topics.lookup id =
    if id = i then none else b.topics.lookup id :=
  lookup_filter_ne b.topics i id

theorem mem_enlist : id ∈ (b.enlist topic s).members t ↔
    id ∈ b.members t ∨ t = topic ∧ id = s.id := by
  have subscribers : (b.enlist topic s).subscribers t =
      if t = topic then b.subscribers topic ++ [s] else b.subscribers t := by
    show (List.lookup t (OrderedMap.insert b.groups topic _)).getD [] = _
    split
    · next same => rw [same, OrderedMap.lookup_insert_self, Option.getD_some]
    · next ne =>
      rw [OrderedMap.lookup_insert_of_ne _ _ ne]
      rfl
  rw [members, subscribers]
  by_cases same : t = topic
  · subst same
    simp [members]
  · simp [members, same]

theorem mem_detach : id ∈ (b.detach i topic).members t ↔
    id ∈ b.members t ∧ ¬ (t = topic ∧ id = i) := by
  cases found : b.groups.lookup topic with
  | none =>
    have eq : b.detach i topic = b := by simp only [detach, found]
    rw [eq]
    refine ⟨fun mem => ⟨mem, ?_⟩, And.left⟩
    rintro ⟨rfl, -⟩
    rw [members, subscribers, found] at mem
    cases mem
  | some group =>
    have others : (b.detach i topic).subscribers t =
        if t = topic then group.filter (·.id ≠ i) else b.subscribers t := by
      simp only [detach, found]
      show (List.lookup t (if _ then _ else _)).getD [] = _
      by_cases same : t = topic
      · subst same
        rw [if_pos rfl]
        split
        · next none =>
          rw [OrderedMap.lookup_erase_self, List.isEmpty_iff.mp none]
          rfl
        · rw [OrderedMap.lookup_insert_self]
          rfl
      · rw [if_neg same]
        split
        · rw [OrderedMap.lookup_erase_of_ne _ same]
          rfl
        · rw [OrderedMap.lookup_insert_of_ne _ _ same]
          rfl
    rw [members, others]
    by_cases same : t = topic
    · subst same
      have own : b.subscribers t = group := by rw [subscribers, found]; rfl
      rw [if_pos rfl, members, own]
      simp only [List.mem_map, List.mem_filter, decide_eq_true_eq]
      constructor
      · rintro ⟨s, ⟨mem, ne⟩, rfl⟩
        exact ⟨⟨s, mem, rfl⟩, fun h => ne h.2⟩
      · rintro ⟨⟨s, mem, rfl⟩, ne⟩
        exact ⟨s, ⟨mem, fun e => ne ⟨trivial, e⟩⟩, rfl⟩
    · rw [if_neg same]
      simp [members, same]

theorem turns_detach (id i : Nat) (b : InProcessBroker) (topic : String) :
    Turns id b.sinks (b.detach i topic).sinks := by
  unfold detach
  split
  · exact .refl id _
  · show Turns id b.sinks (if _ then _ else _)
    split
    · exact turns_modify Sink.turns_close id i _
    · exact .refl id _

theorem topics_detach (b : InProcessBroker) (i : Nat) (topic : String) :
    (b.detach i topic).topics = b.topics := by
  unfold detach
  split <;> rfl

theorem shutDown_detach (b : InProcessBroker) (i : Nat) (topic : String) :
    (b.detach i topic).shutDown = b.shutDown := by
  unfold detach
  split <;> rfl

theorem length_detach (b : InProcessBroker) (i : Nat) (topic : String) :
    (b.detach i topic).sinks.length = b.sinks.length := by
  unfold detach
  split
  · rfl
  · show (if _ then _ else _ : List Sink).length = _
    split
    · exact List.length_modify ..
    · rfl

/-- Who is taken from a group has a closed sink. -/
theorem ended_detach (known : id < b.sinks.length) (mem : id ∈ b.members topic) :
    (b.detach id topic).Ended id := by
  cases found : b.groups.lookup topic with
  | none =>
    rw [members, subscribers, found] at mem
    cases mem
  | some group =>
    have own : b.subscribers topic = group := by rw [subscribers, found]; rfl
    rw [members, own] at mem
    refine ⟨(b.sinks[id]).close, ?_, ?_⟩
    · simp only [detach, found, if_pos mem]
      rw [List.getElem?_modify_eq, List.getElem?_eq_getElem known]
      rfl
    · unfold Sink.close
      split
      · show SinkStatus.closed ≠ .active
        decide
      · assumption

/-- A shut-down broker refuses every subscription. -/
theorem refusal_of_down (down : b.shutDown = true) (topic : String) (policy : DeliveryPolicy) :
    ∃ e, b.refusal? topic policy = some e := by
  unfold refusal?
  split
  · exact ⟨_, rfl⟩
  · split
    · exact ⟨_, rfl⟩
    · exact ⟨.shutDown, rfl⟩

end InProcessBroker

/-! ## What a step does to one registration -/

namespace BrokerTask

/-- A step of another call, or one that does not get further with this registration. -/
structure Passes (id : Nat) (given : Nat → Bool) (b : InProcessBroker) (task : BrokerTask)
    (b' : InProcessBroker) (task' : BrokerTask) : Prop where
  lookup : b'.topics.lookup id = b.topics.lookup id
  members : ∀ topic, id ∈ b'.members topic ↔ id ∈ b.members topic
  phase : task'.phase id = task.phase id
  topic : ∀ topic, task'.topic? id = some topic → task.topic? id = some topic
  detaches : task'.Detaches id ↔ task.Detaches id
  /-- A call begins to release all that is filed, what is in a group, or what was given out. -/
  releases : task'.Releases id → task.Releases id ∨ b'.shutDown = true ∨
    (∃ topic, id ∈ b.members topic) ∨ given id = true

/-- What a step of a call does to one registration. -/
inductive Affects (id : Nat) (given : Nat → Bool) (b : InProcessBroker) :
    BrokerTask → InProcessBroker → BrokerTask → Prop
  | passes {task b' task'} (p : Passes id given b task b' task') : Affects id given b task b' task'
  | number {topic filter policy} (fresh : id = b.sinks.length) :
    Affects id given b (.admitted topic filter policy) (b.number policy) (.numbered id topic filter)
  | file {topic filter} :
    Affects id given b (.numbered id topic filter) (b.file id topic) (.filed id topic filter)
  | enlist {topic filter} :
    Affects id given b (.filed id topic filter) (b.enlist topic ⟨id, filter⟩) (.grouped id)
  | grant (running : b.shutDown = false) :
    Affects id given b (.grouped id) b (.done (.granted id))
  | withdraw (down : b.shutDown = true) :
    Affects id given b (.grouped id) b (.releasing [id] (some .shutDown))
  | unfile {topic ids reason} (found : b.topics.lookup id = some topic) :
    Affects id given b (.releasing (id :: ids) reason) (b.unfile id)
      (.detaching id topic ids reason)
  | detach {topic ids reason} :
    Affects id given b (.detaching id topic ids reason) (b.detach id topic)
      (.releasing ids reason)

variable {given : Nat → Bool} {b b' : InProcessBroker} {task task' : BrokerTask} {id : Nat}

/-- The call neither makes the registration nor takes its subscriber from a group. -/
structure Apart (id : Nat) (task : BrokerTask) : Prop where
  phase : task.phase id = .elsewhere
  topic : task.topic? id = none
  detaches : ¬ task.Detaches id

theorem Affects.apart (lookup : b'.topics.lookup id = b.topics.lookup id)
    (members : ∀ topic, id ∈ b'.members topic ↔ id ∈ b.members topic)
    (a : Apart id task) (a' : Apart id task') (releases : ¬ task'.Releases id) :
    Affects id given b task b' task' := by
  refine .passes ⟨lookup, members, a'.phase.trans a.phase.symm, ?_, ?_, ?_⟩
  · intro topic at'
    cases a'.topic.symm.trans at'
  · exact ⟨fun h => absurd h a'.detaches, fun h => absurd h a.detaches⟩
  · exact fun h => absurd h releases

/-- Every step does one of these to a registration. -/
theorem affects_step (id : Nat) (given : Nat → Bool) (b : InProcessBroker) (task : BrokerTask) :
    Affects id given b task (task.step given b).1 (task.step given b).2 := by
  cases task with
  | subscribing topic filter policy =>
    have a : Apart id (.subscribing topic filter policy) := ⟨rfl, rfl, False.elim⟩
    simp only [step]
    cases b.refusal? topic policy with
    | none => exact .apart rfl (fun _ => .rfl) a ⟨rfl, rfl, False.elim⟩ False.elim
    | some e => exact .apart rfl (fun _ => .rfl) a ⟨rfl, rfl, False.elim⟩ False.elim
  | admitted topic filter policy =>
    have a : Apart id (.admitted topic filter policy) := ⟨rfl, rfl, False.elim⟩
    by_cases own : b.sinks.length = id
    · subst own
      exact .number rfl
    · exact .apart rfl (fun _ => .rfl) a ⟨if_neg own, if_neg own, False.elim⟩ False.elim
  | numbered i topic filter =>
    by_cases own : i = id
    · subst own
      exact .file
    · refine .apart ?_ (fun _ => .rfl) ⟨if_neg own, if_neg own, False.elim⟩
        ⟨if_neg own, if_neg own, False.elim⟩ False.elim
      show (b.file i topic).topics.lookup id = _
      rw [InProcessBroker.lookup_file, if_neg fun e => own e.symm, Option.or_none]
  | filed i topic filter =>
    by_cases own : i = id
    · subst own
      exact .enlist
    · refine .apart rfl (fun t => ?_) ⟨if_neg own, if_neg own, False.elim⟩
        ⟨if_neg own, rfl, False.elim⟩ False.elim
      show id ∈ (b.enlist topic ⟨i, filter⟩).members t ↔ _
      rw [InProcessBroker.mem_enlist]
      exact or_iff_left fun h => own h.2.symm
  | grouped i =>
    simp only [step]
    by_cases own : i = id
    · subst own
      split
      · next down => exact .withdraw down
      · next running => exact .grant (by simpa using running)
    · have a : Apart id (.grouped i) := ⟨if_neg own, rfl, False.elim⟩
      split
      · exact .apart rfl (fun _ => .rfl) a ⟨rfl, rfl, False.elim⟩ fun mem =>
          own (List.mem_singleton.mp mem).symm
      · exact .apart rfl (fun _ => .rfl) a ⟨if_neg own, rfl, False.elim⟩ False.elim
  | unsubscribing i =>
    have a : Apart id (.unsubscribing i) := ⟨rfl, rfl, False.elim⟩
    simp only [step]
    split
    · next given' =>
      refine .passes ⟨rfl, fun _ => .rfl, rfl, fun _ at' => at', .rfl, fun mem => ?_⟩
      exact .inr (.inr (.inr (List.mem_singleton.mp mem ▸ given')))
    · exact .apart rfl (fun _ => .rfl) a a False.elim
  | receiving i =>
    have a : Apart id (.receiving i) := ⟨rfl, rfl, False.elim⟩
    obtain ⟨groups, topics, -⟩ := b.receive_frame i
    simp only [step]
    split
    · refine .apart (by rw [topics]) (fun t => ?_) a ⟨rfl, rfl, False.elim⟩ False.elim
      simp only [InProcessBroker.members, InProcessBroker.subscribers, groups]
    · exact .apart rfl (fun _ => .rfl) a a False.elim
  | publishing topic event =>
    have a : Apart id (.publishing topic event) := ⟨rfl, rfl, False.elim⟩
    simp only [step]
    split
    · exact .apart rfl (fun _ => .rfl) a ⟨rfl, rfl, False.elim⟩ False.elim
    · exact .apart rfl (fun _ => .rfl) a ⟨rfl, rfl, False.elim⟩ False.elim
  | delivering topic event =>
    refine .passes ⟨rfl, fun _ => .rfl, rfl, fun _ at' => at', .rfl, fun mem => ?_⟩
    exact .inr (.inr (.inl ⟨topic, InProcessBroker.behind_offerAll event _ _ mem⟩))
  | shuttingDown =>
    exact .passes ⟨rfl, fun _ => .rfl, rfl, fun _ at' => at', .rfl, fun _ => .inr (.inl rfl)⟩
  | sweeping =>
    exact .passes ⟨rfl, fun _ => .rfl, rfl, fun _ at' => at', .rfl, fun _ => .inl trivial⟩
  | releasing ids reason =>
    cases ids with
    | nil =>
      have a : Apart id (.releasing [] reason) := ⟨rfl, rfl, False.elim⟩
      cases reason with
      | none => exact .apart rfl (fun _ => .rfl) a ⟨rfl, rfl, False.elim⟩ False.elim
      | some e => exact .apart rfl (fun _ => .rfl) a ⟨rfl, rfl, False.elim⟩ False.elim
    | cons i ids =>
      simp only [step]
      cases found : b.topics.lookup i with
      | none =>
        exact .passes ⟨rfl, fun _ => .rfl, rfl, fun _ at' => at', .rfl,
          fun mem => .inl (List.mem_cons_of_mem i mem)⟩
      | some topic =>
        by_cases own : i = id
        · subst own
          exact .unfile found
        · refine .passes ⟨?_, fun _ => .rfl, rfl, fun t at' => ?_, ?_, fun mem => ?_⟩
          · show (b.unfile i).topics.lookup id = _
            rw [InProcessBroker.lookup_unfile, if_neg fun e => own e.symm]
          · cases (if_neg own).symm.trans at'
          · exact ⟨fun e => absurd e own, False.elim⟩
          · exact .inl (List.mem_cons_of_mem i mem)
  | detaching i topic ids reason =>
    by_cases own : i = id
    · subst own
      exact .detach
    · refine .passes ⟨?_, fun t => ?_, rfl, fun t at' => ?_, ?_, .inl⟩
      · show (b.detach i topic).topics.lookup id = _
        rw [InProcessBroker.topics_detach]
      · show id ∈ (b.detach i topic).members t ↔ _
        rw [InProcessBroker.mem_detach]
        exact and_iff_left fun h => own h.2.symm
      · cases at'
      · exact ⟨False.elim, fun e => absurd e own⟩
  | done outcome => exact .passes ⟨rfl, fun _ => .rfl, rfl, fun _ at' => at', .rfl, .inl⟩

/-! ## What every step keeps -/

/-- What a step of a call does to the broker. -/
inductive Alters (b : InProcessBroker) : BrokerTask → InProcessBroker → Prop
  | nothing {task : BrokerTask} : Alters b task b
  | number {topic filter policy} : Alters b (.admitted topic filter policy) (b.number policy)
  | file {i topic filter} : Alters b (.numbered i topic filter) (b.file i topic)
  | enlist {i topic filter} : Alters b (.filed i topic filter) (b.enlist topic ⟨i, filter⟩)
  | receive {i} : Alters b (.receiving i) (b.receive i).1
  | deliver {topic event} : Alters b (.delivering topic event)
      { b with sinks := (InProcessBroker.offerAll event b.sinks (b.subscribers topic)).1 }
  | shutDown : Alters b .shuttingDown { b with shutDown := true }
  | unfile {i ids reason} : Alters b (.releasing (i :: ids) reason) (b.unfile i)
  | detach {i topic ids reason} : Alters b (.detaching i topic ids reason) (b.detach i topic)

theorem alters_step (given : Nat → Bool) (b : InProcessBroker) (task : BrokerTask) :
    Alters b task (task.step given b).1 := by
  cases task with
  | subscribing topic filter policy =>
    simp only [step]
    split <;> exact .nothing
  | admitted topic filter policy => exact .number
  | numbered i topic filter => exact .file
  | filed i topic filter => exact .enlist
  | receiving i =>
    simp only [step]
    split
    · exact .receive
    · exact .nothing
  | delivering topic event => exact .deliver
  | shuttingDown => exact .shutDown
  | releasing ids reason =>
    cases ids with
    | nil => exact .nothing
    | cons i ids =>
      simp only [step]
      split
      · exact .nothing
      · exact .unfile
  | detaching i topic ids reason => exact .detach
  | grouped | unsubscribing | publishing | sweeping | done => exact .nothing

/-- Only a shutdown puts the flag up. -/
theorem Alters.shutDown_from (a : Alters b task b') (down : b'.shutDown = true) :
    b.shutDown = true ∨ task = .shuttingDown := by
  cases a with
  | shutDown => exact .inr rfl
  | receive => exact .inl ((b.receive_frame _).2.2.symm.trans down)
  | @detach i topic ids reason =>
    rw [InProcessBroker.shutDown_detach] at down
    exact .inl down
  | nothing | number | file | enlist | deliver | unfile => exact .inl down

theorem Alters.shutDown_up (a : Alters b task b') (down : b.shutDown = true) :
    b'.shutDown = true := by
  cases a with
  | shutDown => rfl
  | receive => exact (b.receive_frame _).2.2.trans down
  | detach => exact (InProcessBroker.shutDown_detach _ _ _).trans down
  | nothing | number | file | enlist | deliver | unfile => exact down

/-- No sink is ever taken away. -/
theorem Alters.length_le (a : Alters b task b') : b.sinks.length ≤ b'.sinks.length := by
  cases a with
  | number => exact (List.prefix_append b.sinks _).length_le
  | receive => exact Nat.le_of_eq (b.length_receive _).symm
  | deliver => exact Nat.le_of_eq (InProcessBroker.length_offerAll _ _ _).symm
  | detach => exact Nat.le_of_eq (InProcessBroker.length_detach _ _ _).symm
  | nothing | file | enlist | shutDown | unfile => exact Nat.le_refl _

/-- A sink that is not open is never opened again. -/
theorem Alters.ended (a : Alters b task b') (ended : b.Ended id) : b'.Ended id := by
  cases a with
  | number => exact ended.number _
  | receive => exact ended.receive _
  | deliver => exact ended.turns (InProcessBroker.turns_offerAll _ _ _)
  | detach => exact ended.turns (InProcessBroker.turns_detach id _ b _)
  | nothing | file | enlist | shutDown | unfile => exact ended

theorem reason_step {e : BrokerError} (at' : task.reason? = some e) :
    (task.step given b).2.reason? = some e := by
  cases task with
  | releasing ids reason =>
    cases ids with
    | nil =>
      obtain rfl : reason = some e := at'
      rfl
    | cons i ids =>
      simp only [step]
      split <;> exact at'
  | detaching i topic ids reason => exact at'
  | done outcome => exact at'
  | _ => cases at'

/-- Who is to release a registration goes on until it is no longer filed. -/
theorem releases_step (left : (task.step given b).1.topics.lookup id ≠ none)
    (releases : task.Releases id) : (task.step given b).2.Releases id := by
  cases task with
  | sweeping =>
    show id ∈ b.topics.map Prod.fst
    obtain ⟨topic, found⟩ := Option.ne_none_iff_exists'.mp left
    exact List.mem_map.mpr ⟨(id, topic), mem_of_lookup found, rfl⟩
  | releasing ids reason =>
    cases ids with
    | nil => cases releases
    | cons i ids =>
      have others (ne : id ≠ i) : id ∈ ids := (List.mem_cons.mp releases).resolve_left ne
      cases found : b.topics.lookup i with
      | none =>
        simp only [step, found] at left ⊢
        exact others fun e => left (e ▸ found)
      | some topic =>
        simp only [step, found] at left ⊢
        refine others fun e => left ?_
        rw [InProcessBroker.lookup_unfile, if_pos e]
  | detaching i topic ids reason => exact releases
  | _ => exact releases.elim

/-- What every step of a call keeps. -/
structure Keeps (id : Nat) (b : InProcessBroker) (task : BrokerTask) (b' : InProcessBroker)
    (task' : BrokerTask) : Prop where
  up : b.shutDown = true → b'.shutDown = true
  /-- Who puts the flag up releases all that is filed. -/
  raised : b'.shutDown = true → b.shutDown = true ∨ task'.Releases id
  length : b.sinks.length ≤ b'.sinks.length
  ended : b.Ended id → b'.Ended id
  reason : ∀ e, task.reason? = some e → task'.reason? = some e
  releases : b'.topics.lookup id ≠ none → task.Releases id → task'.Releases id

theorem keeps_step (id : Nat) (given : Nat → Bool) (b : InProcessBroker) (task : BrokerTask) :
    Keeps id b task (task.step given b).1 (task.step given b).2 := by
  have alters := alters_step given b task
  refine ⟨alters.shutDown_up, fun down => ?_, alters.length_le, alters.ended,
    fun _ => reason_step, releases_step⟩
  rcases alters.shutDown_from down with down | rfl
  · exact .inl down
  · exact .inr trivial

end BrokerTask

end GraphQLEngine
