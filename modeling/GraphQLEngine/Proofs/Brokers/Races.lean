import GraphQLEngine.Proofs.Brokers.Contention

/-!
# Shutting down while others call

After the calls on a broker have all returned, a shutdown among them, nothing is filed any more, and
what the calls were given ends.  A subscriber stays behind in only one way: its number was released
before it came into the group of its topic.  Then the release of the number found nobody in the
group, and that of its own call, which looked at the flag once more, found nothing in the file.

    topics (run r₀ turns) = []
    id ∈ members (run r₀ turns) topic  ↔  ∃ before after, turns = before ++ after ∧
                                                 Overtaken k id topic (run r₀ before)
-/

namespace GraphQLEngine

/-! ## One registration -/

section Set

variable {tasks : List BrokerTask} {i : Nat} {task task' : BrokerTask} {P : BrokerTask → Prop}

theorem forall_set (old : ∀ t ∈ tasks, P t) (new : P task') : ∀ t ∈ tasks.set i task', P t := by
  intro t mem
  rcases List.mem_or_eq_of_mem_set mem with mem | rfl
  · exact old t mem
  · exact new

theorem exists_set (at' : tasks[i]? = some task) (keeps : P task → P task')
    (found : ∃ t ∈ tasks, P t) : ∃ t ∈ tasks.set i task', P t := by
  obtain ⟨t, mem, holds⟩ := found
  obtain ⟨j, there⟩ := List.getElem?_of_mem mem
  by_cases same : i = j
  · subst same
    obtain rfl : task = t := Option.some.inj (at'.symm.trans there)
    exact ⟨task', List.mem_set (List.getElem?_eq_some_iff.mp at').1 _, keeps holds⟩
  · exact ⟨t, List.mem_of_getElem? ((List.getElem?_set_ne same).trans there), holds⟩

end Set

namespace SharedBroker

/-- Whoever is in a group is filed, or a call that took the number from the file comes for it. -/
def Accounted (id : Nat) (r : SharedBroker) : Prop :=
  ∀ topic, id ∈ r.broker.members topic →
    r.broker.topics.lookup id ≠ none ∨ ∃ task ∈ r.tasks, task.Detaches id

/-- The number that a call has filed is released already, and the call has yet to put its subscriber
in the group. -/
structure Overtaken (k id : Nat) (topic : String) (r : SharedBroker) : Prop where
  filed : ∃ filter, r.tasks[k]? = some (.filed id topic filter)
  down : r.broker.shutDown = true
  released : r.broker.topics.lookup id = none
  left : ∀ task ∈ r.tasks, ¬ task.Detaches id

/-- What holds of a registration when the call that makes it has come so far. -/
def Facts (k id : Nat) (topic : String) (r : SharedBroker) : RegistrationPhase → Prop
  | .elsewhere => ∃ task, r.tasks[k]? = some task ∧ task.reason? = some .shutDown
  | .numbered =>
    r.broker.topics.lookup id = none ∧ id ∉ r.broker.members topic ∧
      ∀ task ∈ r.tasks, task.Releases id → r.broker.shutDown = true
  | .filed =>
    (r.broker.topics.lookup id ≠ none ∨ r.broker.shutDown = true) ∧
      id ∉ r.broker.members topic ∧ ∀ task ∈ r.tasks, task.Releases id → r.broker.shutDown = true
  | .grouped =>
    (Accounted id r ∨ r.broker.shutDown = true) ∧ (id ∈ r.broker.members topic ∨ r.broker.Ended id)
  | .granted => Accounted id r ∧ (id ∈ r.broker.members topic ∨ r.broker.Ended id)

/-- The registration that the call at place `k` makes under a number. -/
structure Tracks (k id : Nat) (topic : String) (phase : RegistrationPhase) (r : SharedBroker) :
    Prop where
  made : k < r.tasks.length
  known : id < r.broker.sinks.length
  phases : ∀ j task, r.tasks[j]? = some task →
    task.phase id = if j = k then phase else .elsewhere
  filed : ∀ t, r.broker.topics.lookup id = some t → t = topic
  grouped : ∀ t, id ∈ r.broker.members t → t = topic
  named : ∀ task ∈ r.tasks, ∀ t, task.topic? id = some t → t = topic
  /-- Once the flag is up, somebody is to release what is filed. -/
  awaited : r.broker.shutDown = true → r.broker.topics.lookup id ≠ none →
    phase = .filed ∨ phase = .grouped ∨ ∃ task ∈ r.tasks, task.Releases id
  facts : Facts k id topic r phase

/-- A number that has not been taken. -/
structure Unknown (id : Nat) (r : SharedBroker) : Prop where
  lookup : r.broker.topics.lookup id = none
  members : ∀ topic, id ∉ r.broker.members topic
  apart : ∀ task ∈ r.tasks, task.Apart id
  unreleased : ∀ task ∈ r.tasks, task.Releases id → r.broker.shutDown = true

variable {r : SharedBroker} {k id i : Nat} {topic : String} {phase phase' : RegistrationPhase}
  {task task' : BrokerTask} {b' : InProcessBroker}

/-- Only one call has to do with the making of a registration. -/
theorem Tracks.own (T : Tracks k id topic phase r) (at' : r.tasks[i]? = some task)
    (here : task.phase id = phase') (near : phase' ≠ .elsewhere) : i = k ∧ phase = phase' := by
  have found := here.symm.trans (T.phases i task at')
  by_cases same : i = k
  · exact ⟨same, (found.trans (if_pos same)).symm⟩
  · exact absurd (found.trans (if_neg same)) near

theorem Tracks.phases_set (T : Tracks k id topic phase r)
    (new : task'.phase id = if i = k then phase' else .elsewhere) (others : i ≠ k → phase' = phase)
    (j : Nat) (t : BrokerTask) (there : (r.tasks.set i task')[j]? = some t) :
    t.phase id = if j = k then phase' else .elsewhere := by
  by_cases same : i = j
  · subst same
    obtain ⟨-, rfl⟩ : _ ∧ task' = t := by simpa [List.getElem?_set] using there
    exact new
  · rw [List.getElem?_set_ne same] at there
    rw [T.phases j t there]
    by_cases own : j = k
    · rw [if_pos own, if_pos own, others fun e => same (e.trans own.symm)]
    · rw [if_neg own, if_neg own]

theorem Tracks.made_set (T : Tracks k id topic phase r) : k < (r.tasks.set i task').length :=
  Nat.lt_of_lt_of_eq T.made List.length_set.symm

theorem Tracks.given (T : Tracks k id topic phase r) (given : r.given id = true) :
    phase = .granted := by
  obtain ⟨j, there⟩ := List.getElem?_of_mem ((r.given_iff id).mp given)
  exact (T.own there (BrokerTask.phase_granted id) (by decide)).2

/-- A subscriber gets into a group unaccounted for only if its call was overtaken. -/
theorem Accounted.step (acc : Accounted id r) (T : Tracks k id topic phase r)
    (at' : r.tasks[i]? = some task) (a : BrokerTask.Affects id r.given r.broker task b' task') :
    Accounted id ⟨b', r.tasks.set i task'⟩ ∨ Overtaken k id topic r := by
  have mem : task ∈ r.tasks := List.mem_of_getElem? at'
  cases a with
  | passes p =>
    left
    intro t member
    rcases acc t ((p.members t).mp member) with filed | detaches
    · exact .inl (p.lookup ▸ filed)
    · exact .inr (exists_set at' p.detaches.mpr detaches)
  | number fresh => exact absurd T.known (by omega)
  | @file topic' filter =>
    left
    refine fun _ _ => .inl ?_
    show (r.broker.file id topic').topics.lookup id ≠ none
    rw [InProcessBroker.lookup_file, if_pos rfl]
    simp
  | @enlist topic' filter =>
    -- its number may have been released in the meantime, wholly or in part
    by_cases filed : r.broker.topics.lookup id = none
    · by_cases detaches : ∃ task ∈ r.tasks, task.Detaches id
      · exact .inl fun _ _ => .inr (exists_set at' False.elim detaches)
      · obtain ⟨rfl, rfl⟩ := T.own at' (BrokerTask.phase_filed id topic' filter) (by decide)
        obtain rfl : topic' = topic := T.named _ mem topic' (if_pos rfl)
        exact .inr ⟨⟨filter, at'⟩, T.facts.1.resolve_left (not_not_intro filed), filed,
          fun t there h => detaches ⟨t, there, h⟩⟩
    · exact .inl fun _ _ => .inl filed
  | grant | withdraw =>
    left
    intro t member
    rcases acc t member with filed | detaches
    · exact .inl filed
    · exact .inr (exists_set at' False.elim detaches)
  | unfile found =>
    exact .inl fun _ _ => .inr ⟨_, List.mem_set (List.getElem?_eq_some_iff.mp at').1 _, rfl⟩
  | @detach topic' ids reason =>
    left
    intro t member
    obtain ⟨old, other⟩ := InProcessBroker.mem_detach.mp member
    have same : topic' = topic := T.named _ mem topic' (if_pos rfl)
    exact absurd ⟨(T.grouped t old).trans same.symm, rfl⟩ other

/-- A step that leaves the call that makes the registration where it is. -/
structure Stays (id : Nat) (topic : String) (r : SharedBroker) (task : BrokerTask)
    (b' : InProcessBroker) (task' : BrokerTask) : Prop where
  phase : task'.phase id = task.phase id
  lookup : b'.topics.lookup id = r.broker.topics.lookup id ∨
    b'.topics.lookup id = none ∧ task.Releases id
  members : ∀ t, id ∈ b'.members t → id ∈ r.broker.members t
  leaves : id ∈ r.broker.members topic → id ∈ b'.members topic ∨ b'.Ended id
  topic : ∀ t, task'.topic? id = some t → t = topic
  releases : task'.Releases id → task.Releases id ∨ b'.shutDown = true ∨
    (∃ t, id ∈ r.broker.members t) ∨ r.given id = true

/-- As long as a registration is not in a group, nobody releases it before a shutdown. -/
theorem Stays.released (S : Stays id topic r task b' task') (T : Tracks k id topic phase r)
    (out : id ∉ r.broker.members topic) (mem : task ∈ r.tasks)
    (released : ∀ t ∈ r.tasks, t.Releases id → r.broker.shutDown = true)
    (K : BrokerTask.Keeps id r.broker task b' task') (early : phase ≠ .granted) :
    ∀ t ∈ r.tasks.set i task', t.Releases id → b'.shutDown = true := by
  refine forall_set (fun t there h => K.up (released t there h)) fun releases => ?_
  rcases S.releases releases with old | down | ⟨t, member⟩ | given
  · exact K.up (released task mem old)
  · exact down
  · exact absurd (T.grouped t member ▸ member) out
  · exact absurd (T.given given) early

theorem Stays.facts (S : Stays id topic r task b' task') (T : Tracks k id topic phase r)
    (at' : r.tasks[i]? = some task) (a : BrokerTask.Affects id r.given r.broker task b' task')
    (K : BrokerTask.Keeps id r.broker task b' task') :
    Facts k id topic ⟨b', r.tasks.set i task'⟩ phase := by
  have mem : task ∈ r.tasks := List.mem_of_getElem? at'
  have facts := T.facts
  have left (present : id ∈ r.broker.members topic ∨ r.broker.Ended id) :
      id ∈ b'.members topic ∨ b'.Ended id :=
    present.elim S.leaves fun ended => .inr (K.ended ended)
  cases phase with
  | elsewhere =>
    obtain ⟨u, there, reason⟩ := facts
    by_cases same : i = k
    · subst same
      obtain rfl : task = u := Option.some.inj (at'.symm.trans there)
      exact ⟨task', List.getElem?_set_self (List.getElem?_eq_some_iff.mp at').1, K.reason _ reason⟩
    · exact ⟨u, (List.getElem?_set_ne same).trans there, reason⟩
  | numbered =>
    obtain ⟨lookup, out, released⟩ := facts
    refine ⟨?_, fun member => out (S.members topic member), S.released T out mem released K
      (by decide)⟩
    rcases S.lookup with same | ⟨none, -⟩
    · exact same.trans lookup
    · exact none
  | filed =>
    obtain ⟨lookup, out, released⟩ := facts
    refine ⟨?_, fun member => out (S.members topic member), S.released T out mem released K
      (by decide)⟩
    rcases S.lookup with same | ⟨-, releases⟩
    · rcases lookup with filed | down
      · exact .inl (same ▸ filed)
      · exact .inr (K.up down)
    · exact .inr (K.up (released task mem releases))
  | grouped =>
    refine ⟨?_, left facts.2⟩
    rcases facts.1 with acc | down
    · exact (acc.step T at' a).imp_right fun overtaken => K.up overtaken.down
    · exact .inr (K.up down)
  | granted =>
    refine ⟨(facts.1.step T at' a).resolve_right fun overtaken => ?_, left facts.2⟩
    obtain ⟨filter, there⟩ := overtaken.filed
    cases (T.own there (BrokerTask.phase_filed id topic filter) (by decide)).2

theorem Stays.tracks (S : Stays id topic r task b' task') (T : Tracks k id topic phase r)
    (at' : r.tasks[i]? = some task) (a : BrokerTask.Affects id r.given r.broker task b' task')
    (K : BrokerTask.Keeps id r.broker task b' task') :
    Tracks k id topic phase ⟨b', r.tasks.set i task'⟩ where
  made := T.made_set
  known := Nat.lt_of_lt_of_le T.known K.length
  phases := T.phases_set (S.phase.trans (T.phases i task at')) fun _ => rfl
  filed := by
    intro t found
    rcases S.lookup with same | ⟨none, -⟩
    · exact T.filed t (same.symm.trans found)
    · cases none.symm.trans found
  grouped := fun t member => T.grouped t (S.members t member)
  named := forall_set T.named S.topic
  awaited := by
    intro down filed
    rcases K.raised down with down | releases
    · have old : r.broker.topics.lookup id ≠ none := by
        rcases S.lookup with same | ⟨none, -⟩
        · exact same ▸ filed
        · exact absurd none filed
      refine (T.awaited down old).imp_right fun rest => rest.imp_right fun found => ?_
      exact exists_set at' (K.releases filed) found
    · exact .inr (.inr ⟨task', List.mem_set (List.getElem?_eq_some_iff.mp at').1 _, releases⟩)
  facts := S.facts T at' a K

/-! ### Steps that leave the call that makes it where it is -/

theorem stays_passes (T : Tracks k id topic phase r) (at' : r.tasks[i]? = some task)
    (p : BrokerTask.Passes id r.given r.broker task b' task') : Stays id topic r task b' task' where
  phase := p.phase
  lookup := .inl p.lookup
  members := fun t => (p.members t).mp
  leaves := fun member => .inl ((p.members topic).mpr member)
  topic := fun t named => T.named task (List.mem_of_getElem? at') t (p.topic t named)
  releases := p.releases

variable {topic' : String} {ids : List Nat} {reason : Option BrokerError} {filter : EventFilter}

theorem stays_unfile (T : Tracks k id topic phase r)
    (found : r.broker.topics.lookup id = some topic') :
    Stays id topic r (.releasing (id :: ids) reason) (r.broker.unfile id)
      (.detaching id topic' ids reason) where
  phase := rfl
  lookup := .inr ⟨InProcessBroker.lookup_unfile.trans (if_pos rfl), List.mem_cons_self⟩
  members := fun _ member => member
  leaves := .inl
  topic := by
    intro t named
    obtain rfl : topic' = t := by simpa [BrokerTask.topic?] using named
    exact T.filed topic' found
  releases := fun mem => .inl (List.mem_cons_of_mem id mem)

theorem stays_detach (T : Tracks k id topic phase r)
    (at' : r.tasks[i]? = some (.detaching id topic' ids reason)) :
    Stays id topic r (.detaching id topic' ids reason) (r.broker.detach id topic')
      (.releasing ids reason) where
  phase := rfl
  lookup := .inl (by rw [InProcessBroker.topics_detach])
  members := fun _ member => (InProcessBroker.mem_detach.mp member).1
  leaves := by
    obtain rfl : topic' = topic := T.named _ (List.mem_of_getElem? at') topic' (if_pos rfl)
    exact fun member => .inr (InProcessBroker.ended_detach T.known member)
  topic := by
    intro t named
    cases named
  releases := .inl

/-! ### Steps of the call that makes it -/

theorem Tracks.file (T : Tracks k id topic phase r)
    (at' : r.tasks[i]? = some (.numbered id topic' filter)) :
    Tracks k id topic .filed
      ⟨r.broker.file id topic', r.tasks.set i (.filed id topic' filter)⟩ := by
  obtain ⟨rfl, rfl⟩ := T.own at' (BrokerTask.phase_numbered id topic' filter) (by decide)
  have named := T.named _ (List.mem_of_getElem? at')
  obtain rfl : topic' = topic := named topic' (if_pos rfl)
  obtain ⟨unfiled, out, released⟩ := T.facts
  have filed : (r.broker.file id topic').topics.lookup id = some topic' := by
    rw [InProcessBroker.lookup_file, unfiled, if_pos rfl]
    rfl
  refine ⟨T.made_set, T.known, ?_, ?_, T.grouped, forall_set T.named named, fun _ _ => .inl rfl, ?_⟩
  · exact T.phases_set (by simp) fun ne => absurd rfl ne
  · exact fun t found => Option.some.inj (found.symm.trans filed)
  · refine ⟨.inl fun none => ?_, out, forall_set released False.elim⟩
    cases none.symm.trans filed

theorem Tracks.enlist (T : Tracks k id topic phase r)
    (at' : r.tasks[i]? = some (.filed id topic' filter)) :
    Tracks k id topic .grouped
      ⟨r.broker.enlist topic' ⟨id, filter⟩, r.tasks.set i (.grouped id)⟩ := by
  obtain ⟨rfl, rfl⟩ := T.own at' (BrokerTask.phase_filed id topic' filter) (by decide)
  obtain rfl : topic' = topic := T.named _ (List.mem_of_getElem? at') topic' (if_pos rfl)
  have out := T.facts.2.1
  have acc : Accounted id r := fun t member => absurd (T.grouped t member ▸ member) out
  refine ⟨T.made_set, T.known, ?_, T.filed, ?_, forall_set T.named fun t named => ?_,
    fun _ _ => .inr (.inl rfl), ?_, ?_⟩
  · exact T.phases_set (by simp) fun ne => absurd rfl ne
  · intro t member
    rcases InProcessBroker.mem_enlist.mp member with old | ⟨same, -⟩
    · exact T.grouped t old
    · exact same
  · cases named
  · exact (acc.step T at' .enlist).imp_right fun overtaken => overtaken.down
  · exact .inl (InProcessBroker.mem_enlist.mpr (.inr ⟨rfl, rfl⟩))

theorem Tracks.grant (T : Tracks k id topic phase r) (at' : r.tasks[i]? = some (.grouped id))
    (running : r.broker.shutDown = false) :
    Tracks k id topic .granted ⟨r.broker, r.tasks.set i (.done (.granted id))⟩ := by
  obtain ⟨rfl, rfl⟩ := T.own at' (BrokerTask.phase_grouped id) (by decide)
  obtain ⟨acc, present⟩ := T.facts
  have up : ¬ r.broker.shutDown = true := by simp [running]
  refine ⟨T.made_set, T.known, ?_, T.filed, T.grouped, forall_set T.named fun t named => ?_,
    fun down => absurd down up, ?_, present⟩
  · exact T.phases_set (by simp) fun ne => absurd rfl ne
  · cases named
  · -- the flag is not up, so that nobody had released it before it came into its group
    have acc := acc.resolve_right up
    exact (acc.step T at' (.grant running)).resolve_right fun overtaken => up overtaken.down

theorem Tracks.withdraw (T : Tracks k id topic phase r) (at' : r.tasks[i]? = some (.grouped id)) :
    Tracks k id topic .elsewhere
      ⟨r.broker, r.tasks.set i (.releasing [id] (some .shutDown))⟩ := by
  obtain ⟨rfl, rfl⟩ := T.own at' (BrokerTask.phase_grouped id) (by decide)
  have below : i < r.tasks.length := (List.getElem?_eq_some_iff.mp at').1
  refine ⟨T.made_set, T.known, ?_, T.filed, T.grouped, forall_set T.named fun t named => ?_,
    fun _ _ => .inr (.inr ?_), ?_⟩
  · exact T.phases_set (by simp [BrokerTask.phase]) fun ne => absurd rfl ne
  · cases named
  · exact ⟨_, List.mem_set below _, List.mem_singleton.mpr rfl⟩
  · exact ⟨_, List.getElem?_set_self below, rfl⟩

/-- Step by step, a registration stays on its way. -/
theorem Tracks.step (T : Tracks k id topic phase r) (at' : r.tasks[i]? = some task)
    (a : BrokerTask.Affects id r.given r.broker task b' task')
    (K : BrokerTask.Keeps id r.broker task b' task') :
    ∃ phase', Tracks k id topic phase' ⟨b', r.tasks.set i task'⟩ := by
  cases a with
  | passes p => exact ⟨phase, (stays_passes T at' p).tracks T at' (.passes p) K⟩
  | number fresh => exact absurd T.known (by omega)
  | file => exact ⟨_, T.file at'⟩
  | enlist => exact ⟨_, T.enlist at'⟩
  | grant running => exact ⟨_, T.grant at' running⟩
  | withdraw => exact ⟨_, T.withdraw at'⟩
  | unfile found => exact ⟨phase, (stays_unfile T found).tracks T at' (.unfile found) K⟩
  | detach => exact ⟨phase, (stays_detach T at').tracks T at' .detach K⟩

/-! ### Numbers that are not taken -/

theorem Unknown.passes (U : Unknown id r) (at' : r.tasks[i]? = some task)
    (p : BrokerTask.Passes id r.given r.broker task b' task')
    (K : BrokerTask.Keeps id r.broker task b' task') : Unknown id ⟨b', r.tasks.set i task'⟩ := by
  have mem : task ∈ r.tasks := List.mem_of_getElem? at'
  have apart := U.apart task mem
  refine ⟨p.lookup.trans U.lookup, fun t member => U.members t ((p.members t).mp member),
    forall_set U.apart ⟨p.phase.trans apart.phase, ?_, mt p.detaches.mp apart.detaches⟩,
    forall_set (fun t there h => K.up (U.unreleased t there h)) fun releases => ?_⟩
  · refine Option.eq_none_iff_forall_ne_some.mpr fun t named => ?_
    cases apart.topic.symm.trans (p.topic t named)
  · rcases p.releases releases with old | down | ⟨t, member⟩ | given
    · exact K.up (U.unreleased task mem old)
    · exact down
    · exact absurd member (U.members t)
    · have own := (U.apart _ ((r.given_iff id).mp given)).phase
      simp at own

/-- The next number is taken. -/
theorem Unknown.number (U : Unknown id r) {policy : DeliveryPolicy}
    (at' : r.tasks[i]? = some (.admitted topic filter policy))
    (fresh : id = r.broker.sinks.length) :
    Tracks i id topic .numbered
      ⟨r.broker.number policy, r.tasks.set i (.numbered id topic filter)⟩ := by
  refine ⟨?_, ?_, fun j t there => ?_, ?_, fun t member => absurd member (U.members t), ?_,
    fun _ filed => absurd U.lookup filed, ?_⟩
  · exact Nat.lt_of_lt_of_eq (List.getElem?_eq_some_iff.mp at').1 List.length_set.symm
  · show id < (r.broker.sinks ++ [.new policy] : List Sink).length
    rw [List.length_append, List.length_singleton]
    omega
  · by_cases same : i = j
    · subst same
      obtain ⟨-, rfl⟩ : _ ∧ BrokerTask.numbered id topic filter = t := by
        simpa [List.getElem?_set] using there
      simp
    · rw [List.getElem?_set_ne same] at there
      rw [if_neg fun e => same e.symm]
      exact (U.apart t (List.mem_of_getElem? there)).phase
  · intro t found
    cases U.lookup.symm.trans found
  · refine forall_set (fun t there name named => ?_) fun t named => ?_
    · cases (U.apart t there).topic.symm.trans named
    · exact (Option.some.inj ((if_pos rfl).symm.trans named)).symm
  · exact ⟨U.lookup, U.members topic, forall_set U.unreleased False.elim⟩

/-- A number that is not taken stays so, or is taken by the call that has its turn. -/
theorem Unknown.step (U : Unknown id r) (at' : r.tasks[i]? = some task)
    (a : BrokerTask.Affects id r.given r.broker task b' task')
    (K : BrokerTask.Keeps id r.broker task b' task') :
    Unknown id ⟨b', r.tasks.set i task'⟩ ∨
      ∃ topic, Tracks i id topic .numbered ⟨b', r.tasks.set i task'⟩ := by
  have apart : task.Apart id := U.apart task (List.mem_of_getElem? at')
  have away (phase : RegistrationPhase) (here : task.phase id = phase) : phase = .elsewhere :=
    here.symm.trans apart.phase
  cases a with
  | passes p => exact .inl (U.passes at' p K)
  | number fresh => exact .inr ⟨_, U.number at' fresh⟩
  | file | enlist | grant | withdraw => cases away _ (if_pos rfl)
  | unfile found => cases U.lookup.symm.trans found
  | detach => exact absurd rfl apart.detaches

/-! ## Runs -/

/-- What every turn keeps is kept by a run; what holds all along the run may be used for it. -/
theorem run_keeps {P Q : SharedBroker → Prop}
    (keeps : ∀ (r : SharedBroker) (i : Nat) (task : BrokerTask), r.tasks[i]? = some task → Q r →
      P r → P ⟨(task.step r.given r.broker).1, r.tasks.set i (task.step r.given r.broker).2⟩)
    (turns : List Nat) {r : SharedBroker}
    (along : ∀ before after, turns = before ++ after → Q (r.run before)) (first : P r) :
    P (r.run turns) := by
  induction turns generalizing r with
  | nil => exact first
  | cons i turns ih =>
    refine ih (fun before after eq => along (i :: before) after (by rw [eq, List.cons_append])) ?_
    cases at' : r.tasks[i]? with
    | none =>
      rw [step_none at']
      exact first
    | some task =>
      rw [step_some at']
      exact keeps r i task at' (along [] (i :: turns) rfl) first

theorem run_preserves {P : SharedBroker → Prop}
    (keeps : ∀ (r : SharedBroker) (i : Nat) (task : BrokerTask), r.tasks[i]? = some task →
      P r → P ⟨(task.step r.given r.broker).1, r.tasks.set i (task.step r.given r.broker).2⟩)
    (turns : List Nat) {r : SharedBroker} (first : P r) : P (r.run turns) :=
  run_keeps (Q := fun _ => True) (fun r i task at' _ => keeps r i task at') turns
    (fun _ _ _ => trivial) first

/-- Every number that is taken is a registration's. -/
def Sound (r : SharedBroker) : Prop :=
  ∀ id, Unknown id r ∨ ∃ k topic phase, Tracks k id topic phase r

theorem Sound.step (S : Sound r) (at' : r.tasks[i]? = some task) :
    Sound ⟨(task.step r.given r.broker).1, r.tasks.set i (task.step r.given r.broker).2⟩ := by
  intro id
  have a := BrokerTask.affects_step id r.given r.broker task
  have K := BrokerTask.keeps_step id r.given r.broker task
  rcases S id with U | ⟨k, topic, phase, T⟩
  · rcases U.step at' a K with unknown | ⟨topic, T⟩
    · exact .inl unknown
    · exact .inr ⟨i, topic, .numbered, T⟩
  · obtain ⟨phase', T'⟩ := T.step at' a K
    exact .inr ⟨k, topic, phase', T'⟩

/-- A call that has just been made has nothing to do with any registration. -/
theorem apart_start (call : ConcurrentCall) (id : Nat) :
    call.start.Apart id ∧ ¬ call.start.Releases id := by
  cases call <;> exact ⟨⟨rfl, rfl, False.elim⟩, False.elim⟩

theorem sound_start (calls : List ConcurrentCall) : Sound (start calls) := by
  intro id
  refine .inl ⟨rfl, fun _ => List.not_mem_nil, fun task mem => ?_, fun task mem releases => ?_⟩
  · obtain ⟨call, -, rfl⟩ := List.mem_map.mp mem
    exact (apart_start call id).1
  · obtain ⟨call, -, rfl⟩ := List.mem_map.mp mem
    exact absurd releases (apart_start call id).2

theorem sound_run (calls : List ConcurrentCall) (turns : List Nat) :
    Sound ((start calls).run turns) :=
  run_preserves (fun _ _ _ at' S => S.step at') turns (sound_start calls)

/-- If its call is never overtaken, whoever is in a group is accounted for. -/
theorem accounted_run (calls : List ConcurrentCall) (turns : List Nat)
    (never : ∀ before after, turns = before ++ after →
      ∀ k topic, ¬ Overtaken k id topic ((start calls).run before)) :
    Accounted id ((start calls).run turns) := by
  refine run_keeps (P := Accounted id)
    (Q := fun r => Sound r ∧ ∀ k topic, ¬ Overtaken k id topic r) ?_ turns
    (fun before after eq => ⟨sound_run calls before, never before after eq⟩) ?_
  · intro r i task at' ⟨S, ahead⟩ acc
    have a := BrokerTask.affects_step id r.given r.broker task
    have K := BrokerTask.keeps_step id r.given r.broker task
    rcases S id with U | ⟨k, topic, phase, T⟩
    · rcases U.step at' a K with unknown | ⟨topic, T⟩
      · exact fun t member => absurd member (unknown.members t)
      · exact fun t member => absurd (T.grouped t member ▸ member) T.facts.2.1
    · exact (acc.step T at' a).resolve_right (ahead k topic)
  · exact fun _ member => absurd member List.not_mem_nil

/-- A registration that nobody will release: its subscriber is in the group, or will be. -/
structure Stranded (k id : Nat) (topic : String) (r : SharedBroker) : Prop where
  tracks : ∃ phase, Tracks k id topic phase r
  comes : (∃ task, r.tasks[k]? = some task ∧ task.phase id = .filed) ∨ id ∈ r.broker.members topic
  released : r.broker.topics.lookup id = none
  left : ∀ task ∈ r.tasks, ¬ task.Detaches id

theorem Overtaken.stranded (O : Overtaken k id topic r) (S : Sound r) : Stranded k id topic r := by
  obtain ⟨filter, at'⟩ := O.filed
  have own := BrokerTask.phase_filed id topic filter
  rcases S id with U | ⟨k', topic', phase, T⟩
  · cases own.symm.trans (U.apart _ (List.mem_of_getElem? at')).phase
  · obtain ⟨rfl, -⟩ := T.own at' own (by decide)
    obtain rfl : topic = topic' := T.named _ (List.mem_of_getElem? at') topic (if_pos rfl)
    exact ⟨⟨phase, T⟩, .inl ⟨_, at', own⟩, O.released, O.left⟩

theorem Stranded.step (O : Stranded k id topic r) (at' : r.tasks[i]? = some task)
    (a : BrokerTask.Affects id r.given r.broker task b' task')
    (K : BrokerTask.Keeps id r.broker task b' task') :
    Stranded k id topic ⟨b', r.tasks.set i task'⟩ := by
  obtain ⟨⟨phase, T⟩, comes, released, left⟩ := O
  have mem : task ∈ r.tasks := List.mem_of_getElem? at'
  have tracks := T.step at' a K
  have present {now : RegistrationPhase} (here : task.phase id = now) (near : now ≠ .elsewhere)
      (past : now ≠ .filed) : id ∈ r.broker.members topic := by
    refine comes.resolve_left ?_
    rintro ⟨u, there, filed⟩
    obtain ⟨rfl, -⟩ := T.own at' here near
    obtain rfl : task = u := Option.some.inj (at'.symm.trans there)
    exact past (here.symm.trans filed)
  cases a with
  | passes p =>
    refine ⟨tracks, ?_, p.lookup.trans released,
      forall_set left (mt p.detaches.mp (left task mem))⟩
    rcases comes with ⟨u, there, filed⟩ | member
    · by_cases same : i = k
      · subst same
        obtain rfl : task = u := Option.some.inj (at'.symm.trans there)
        exact .inl ⟨task', List.getElem?_set_self (List.getElem?_eq_some_iff.mp at').1,
          p.phase.trans filed⟩
      · exact .inl ⟨u, (List.getElem?_set_ne same).trans there, filed⟩
    · exact .inr ((p.members topic).mpr member)
  | number fresh => exact absurd T.known (by omega)
  | @file topic' filter =>
    have here := BrokerTask.phase_numbered id topic' filter
    obtain ⟨-, rfl⟩ := T.own at' here (by decide)
    exact absurd (present here (by decide) (by decide)) T.facts.2.1
  | @enlist topic' filter =>
    obtain rfl : topic' = topic := T.named _ mem topic' (if_pos rfl)
    exact ⟨tracks, .inr (InProcessBroker.mem_enlist.mpr (.inr ⟨rfl, rfl⟩)), released,
      forall_set left False.elim⟩
  | grant | withdraw =>
    have member := present (BrokerTask.phase_grouped id) (by decide) (by decide)
    exact ⟨tracks, .inr member, released, forall_set left False.elim⟩
  | unfile found => cases released.symm.trans found
  | detach => exact absurd rfl (left _ mem)

theorem Stranded.run (O : Stranded k id topic r) (turns : List Nat) :
    Stranded k id topic (r.run turns) := by
  refine run_preserves (fun r i task at' O => ?_) turns O
  exact O.step at' (BrokerTask.affects_step id r.given r.broker task)
    (BrokerTask.keeps_step id r.given r.broker task)

/-! ## When all calls have returned -/

/-- A shutdown that has begun has put the flag up. -/
theorem down_of_shutdown {calls : List ConcurrentCall} {j : Nat}
    (call : calls[j]? = some .shutdown) (turns : List Nat)
    (begun : ((start calls).run turns).tasks[j]? ≠ some .shuttingDown) :
    ((start calls).run turns).broker.shutDown = true := by
  have kept : ((start calls).run turns).tasks[j]? = some .shuttingDown ∨
      ((start calls).run turns).broker.shutDown = true := by
    refine run_preserves
      (P := fun r => r.tasks[j]? = some .shuttingDown ∨ r.broker.shutDown = true) ?_ turns (.inl ?_)
    · rintro r i task at' (waits | down)
      · by_cases same : i = j
        · subst same
          obtain rfl : task = .shuttingDown := Option.some.inj (at'.symm.trans waits)
          exact .inr rfl
        · exact .inl ((List.getElem?_set_ne same).trans waits)
      · exact .inr ((BrokerTask.keeps_step 0 r.given r.broker task).up down)
    · simp [start, call, ConcurrentCall.start]
  exact kept.resolve_left begun

/-- A subscription that begins when the flag is up is refused. -/
theorem refused_of_down (down : r.broker.shutDown = true) {filter : EventFilter}
    {policy : DeliveryPolicy} (at' : r.tasks[i]? = some (.subscribing topic filter policy))
    (turns : List Nat) (returned : (r.run turns).Returned) :
    ∃ e, (r.run turns).tasks[i]? = some (.done (.refused e)) := by
  have kept : (r.run turns).broker.shutDown = true ∧
      ((r.run turns).tasks[i]? = some (.subscribing topic filter policy) ∨
        ∃ e, (r.run turns).tasks[i]? = some (.done (.refused e))) := by
    refine run_preserves (P := fun r => r.broker.shutDown = true ∧
      (r.tasks[i]? = some (.subscribing topic filter policy) ∨
        ∃ e, r.tasks[i]? = some (.done (.refused e)))) ?_ turns ⟨down, .inl at'⟩
    rintro r j task there ⟨down, here⟩
    refine ⟨(BrokerTask.keeps_step 0 r.given r.broker task).up down, ?_⟩
    by_cases same : j = i
    · subst same
      have own := List.getElem?_set_self (a := (task.step r.given r.broker).2)
        (List.getElem?_eq_some_iff.mp there).1
      right
      rcases here with waits | ⟨e, refused⟩
      · obtain rfl : task = .subscribing topic filter policy :=
          Option.some.inj (there.symm.trans waits)
        obtain ⟨e, refused⟩ := InProcessBroker.refusal_of_down down topic policy
        refine ⟨e, own.trans ?_⟩
        simp only [BrokerTask.step, refused]
      · obtain rfl : task = .done (.refused e) := Option.some.inj (there.symm.trans refused)
        exact ⟨e, own⟩
    · rwa [List.getElem?_set_ne same]
  refine kept.2.resolve_left fun waits => ?_
  obtain ⟨outcome, eq⟩ := returned _ (List.mem_of_getElem? waits)
  cases eq

/-- What is left when all calls have returned, and one of them was a shutdown. -/
structure Aftermath (calls : List ConcurrentCall) (turns : List Nat) : Prop where
  /-- Nothing is filed. -/
  unfiled : ((start calls).run turns).broker.topics = []
  /-- What a call was given is in no group, and ends after its queued events. -/
  ended : ∀ id, BrokerTask.done (.granted id) ∈ ((start calls).run turns).tasks →
    (∀ topic, id ∉ ((start calls).run turns).broker.members topic) ∧
      ∃ sink, ((start calls).run turns).broker.sinks[id]? = some sink ∧ sink.status ≠ .active ∧
        ∀ moves, sink.answers moves = ending sink.rest (SinkMove.receives moves)
  /-- In the groups are those whose calls were overtaken, and no others. -/
  stranded : ∀ id topic, id ∈ ((start calls).run turns).broker.members topic ↔
    ∃ k before after, turns = before ++ after ∧ Overtaken k id topic ((start calls).run before)
  /-- A call that was overtaken is refused. -/
  overtaken : ∀ k id topic before after, turns = before ++ after →
    Overtaken k id topic ((start calls).run before) →
      ((start calls).run turns).tasks[k]? = some (BrokerTask.done (.refused .shutDown))
  /-- So is every subscription that began after a shutdown had returned. -/
  refused : ∀ before after, turns = before ++ after →
    (∃ (j : Nat) (outcome : CallOutcome), calls[j]? = some .shutdown ∧
      ((start calls).run before).tasks[j]? = some (BrokerTask.done outcome)) →
    ∀ (i : Nat) (topic : String) (filter : EventFilter) (policy : DeliveryPolicy),
      ((start calls).run before).tasks[i]? = some (BrokerTask.subscribing topic filter policy) →
        ∃ e, ((start calls).run turns).tasks[i]? = some (BrokerTask.done (.refused e))

section Returned

variable (all : r.Returned)

include all

theorem Tracks.returned (T : Tracks k id topic phase r) :
    (∃ outcome, r.tasks[k]? = some (.done outcome)) ∧ (phase = .elsewhere ∨ phase = .granted) := by
  have at' := List.getElem?_eq_getElem T.made
  obtain ⟨outcome, eq⟩ := all _ (List.getElem_mem T.made)
  rw [eq] at at'
  have here := (T.phases k _ at').trans (if_pos rfl)
  exact ⟨⟨outcome, at'⟩, here ▸ BrokerTask.phase_done id outcome⟩

/-- Nobody is left to release anything: what was filed when the flag went up is filed no more. -/
theorem Sound.unfiled (S : Sound r) (down : r.broker.shutDown = true) (id : Nat) :
    r.broker.topics.lookup id = none := by
  by_contra filed
  rcases S id with U | ⟨k, topic, phase, T⟩
  · exact filed U.lookup
  · have far := (T.returned all).2
    rcases T.awaited down filed with rfl | rfl | ⟨task, mem, awaits⟩
    · exact absurd far (by decide)
    · exact absurd far (by decide)
    · obtain ⟨outcome, rfl⟩ := all task mem
      exact awaits

theorem Accounted.returned (acc : Accounted id r) (unfiled : r.broker.topics.lookup id = none)
    (topic : String) : id ∉ r.broker.members topic := by
  intro member
  rcases acc topic member with filed | ⟨task, mem, detaches⟩
  · exact filed unfiled
  · obtain ⟨outcome, rfl⟩ := all task mem
    exact detaches

theorem Stranded.returned (O : Stranded k id topic r) : id ∈ r.broker.members topic ∧
    r.tasks[k]? = some (.done (.refused .shutDown)) := by
  obtain ⟨⟨phase, T⟩, comes, unfiled, -⟩ := O
  obtain ⟨⟨outcome, at'⟩, far⟩ := T.returned all
  have member : id ∈ r.broker.members topic := by
    refine comes.resolve_left ?_
    rintro ⟨task, there, filed⟩
    obtain rfl := Option.some.inj (at'.symm.trans there)
    exact absurd (filed ▸ BrokerTask.phase_done id outcome) (by decide)
  refine ⟨member, ?_⟩
  rcases far with rfl | rfl
  · obtain ⟨task, there, reason⟩ := T.facts
    obtain rfl := Option.some.inj (at'.symm.trans there)
    cases outcome with
    | refused e =>
      obtain rfl : e = .shutDown := Option.some.inj reason
      exact at'
    | granted | received | returned => cases reason
  · exact absurd member (T.facts.1.returned all unfiled topic)

end Returned

/-- However a shutdown and other calls take turns, only subscribers whose calls were overtaken
between their two entries stay behind. -/
theorem aftermath (calls : List ConcurrentCall) (turns : List Nat) (shutdown : .shutdown ∈ calls)
    (returned : ((start calls).run turns).Returned) : Aftermath calls turns := by
  have S := sound_run calls turns
  obtain ⟨j, call⟩ := List.getElem?_of_mem shutdown
  have down : ((start calls).run turns).broker.shutDown = true := by
    refine down_of_shutdown call turns fun waits => ?_
    obtain ⟨outcome, eq⟩ := returned _ (List.mem_of_getElem? waits)
    cases eq
  have unfiled := S.unfiled returned down
  have stranded {k id topic before after} (eq : turns = before ++ after)
      (O : Overtaken k id topic ((start calls).run before)) :
      Stranded k id topic ((start calls).run turns) := by
    rw [eq, run_append]
    exact (O.stranded (sound_run calls before)).run after
  constructor
  case unfiled =>
    refine List.eq_nil_iff_forall_not_mem.mpr fun entry mem => ?_
    simpa using List.lookup_eq_none_iff.mp (unfiled entry.1) entry mem
  case ended =>
    intro id granted
    rcases S id with U | ⟨k, topic, phase, T⟩
    · simpa using (U.apart _ granted).phase
    · obtain rfl := T.given ((SharedBroker.given_iff _ id).mpr granted)
      obtain ⟨acc, present⟩ := T.facts
      have out := acc.returned returned (unfiled id)
      obtain ⟨sink, kept, shut⟩ := present.resolve_left (out topic)
      exact ⟨out, sink, kept, shut, Sink.answers_ended shut⟩
  case stranded =>
    intro id topic
    constructor
    · intro member
      by_contra never
      have acc : Accounted id ((start calls).run turns) := by
        refine accounted_run calls turns fun before after eq k t O => never ?_
        obtain ⟨phase, T⟩ := (stranded eq O).tracks
        exact ⟨k, before, after, eq, T.grouped topic member ▸ O⟩
      exact acc.returned returned (unfiled id) topic member
    · rintro ⟨k, before, after, eq, O⟩
      exact ((stranded eq O).returned returned).1
  case overtaken => exact fun k id topic before after eq O => ((stranded eq O).returned returned).2
  case refused =>
    rintro before after eq ⟨j, outcome, call, at'⟩ i topic filter policy here
    have down := down_of_shutdown call before fun waits => by cases at'.symm.trans waits
    have rest : ((start calls).run turns) = ((start calls).run before).run after := by
      rw [eq, run_append]
    rw [rest] at returned ⊢
    exact refused_of_down down here after returned

/-! ## A subscription that is overtaken -/

/-- Two subscribe before the broker is shut down, and one after that. -/
def overlap : List ConcurrentCall :=
  [.subscribe "news" (fun _ => true) ⟨.buffer, 1⟩, .subscribe "news" (fun _ => true) ⟨.buffer, 1⟩,
    .shutdown, .subscribe "news" (fun _ => true) ⟨.buffer, 1⟩]

/-- The second one is filed, and not yet in its group, while the shutdown has all its turns. -/
def overlapTurns : List Nat := [0, 0, 0, 0, 0, 1, 1, 1, 2, 2, 2, 2, 2, 2, 2, 3, 1, 1, 1, 1]

theorem tasks_overlap : ((start overlap).run overlapTurns).tasks =
    [.done (.granted 0), .done (.refused .shutDown), .done .returned,
      .done (.refused .shutDown)] := by
  rfl

theorem returned_overlap : ((start overlap).run overlapTurns).Returned := by
  intro task mem
  rw [tasks_overlap] at mem
  rcases List.mem_cons.mp mem with rfl | mem
  · exact ⟨_, rfl⟩
  · simp only [List.mem_cons, List.not_mem_nil, or_false] at mem
    rcases mem with rfl | rfl | rfl <;> exact ⟨_, rfl⟩

theorem aftermath_overlap : .shutdown ∈ overlap ∧ ((start overlap).run overlapTurns).Returned ∧
    Aftermath overlap overlapTurns :=
  have shutdown : .shutdown ∈ overlap := by simp [overlap]
  ⟨shutdown, returned_overlap, aftermath overlap overlapTurns shutdown returned_overlap⟩

/-- A shutdown does not always leave the topics without subscribers. -/
theorem not_always_empty :
    ¬ ∀ (calls : List ConcurrentCall) (turns : List Nat), .shutdown ∈ calls →
      ((start calls).run turns).Returned →
        ∀ topic, ((start calls).run turns).broker.count topic = 0 := by
  intro empty
  have none := empty overlap overlapTurns (by simp [overlap]) returned_overlap "news"
  have one : ((start overlap).run overlapTurns).broker.count "news" = 1 := rfl
  rw [one] at none
  cases none

end SharedBroker

end GraphQLEngine
