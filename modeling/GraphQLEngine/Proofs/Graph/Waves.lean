import GraphQLEngine.Execution.Run
import GraphQLEngine.Proofs.Graph.Completion
import GraphQLEngine.Proofs.Loads.Settling

/-!
# Waves keep the ledger

Between two waves everything in the graph is decided, and what is still due beneath the nodes are
the tasks that are queued.  Preparing a wave adds the nodes of its tasks, of which those with a
resolver to call wait; completing it decides about these.  Beneath nodes that are nulled tasks are
dropped, so there nothing is said about what is due.

    Standing … g calls tasks    `calls` are what the waiting nodes wait for, `tasks` are queued
    prepare_standing            a wave of tasks becomes calls
    completeWave_standing       the calls become tasks of the next wave
-/

namespace GraphQLEngine

open FieldValue (Outcome Outcomes)

variable {σ : Type}

/-! ## What resolvers give -/

/-- What a resolver returns for a call in a scope. -/
def Resolver.value (r : Resolver σ) (call : FieldCall) (s : Scope σ) : FieldValue σ :=
  match (r.run call s).1 with
  | .ok v => v
  | .error fault => .error fault

/-- A field of an object gets what its resolver returns in some scope, with every load in it
answered. -/
def Engine.gives (e : Engine σ) (caller : Caller) (A : Answers) : Gives := fun typeName v f d w =>
  ∃ (resolver : Resolver σ) (s : Scope σ),
    e.dispatch.resolverFor ⟨typeName, f.name⟩ = .ok resolver ∧
      Outcome A (resolver.value (caller.call typeName v f d) s) w

/-- A settled value is what the resolver of an invocation gives. -/
def Invocation.Gives (A : Answers) (i : Invocation σ) (w : Settled) : Prop :=
  ∃ s, Outcome A (i.resolver.value i.call s) w

/-- Settled values are what the resolvers of invocations give, one for each. -/
inductive AllGive (A : Answers) : List (Invocation σ) → List Settled → Prop
  | nil : AllGive A [] []
  | cons {i : Invocation σ} {is : List (Invocation σ)} {w : Settled} {ws : List Settled} :
    i.Gives A w → AllGive A is ws → AllGive A (i :: is) (w :: ws)

/-! ## Calls -/

/-- What an invocation is made of: the definition of a field that the caller may see, and its
resolver. -/
def Invocation.Stands (e : Engine σ) (caller : Caller) (i : Invocation σ) : Prop :=
  ∃ d, i.field.name ≠ typenameField ∧
    e.schema.field? i.call.typeName i.field.name = some d ∧ i.type = d.type ∧
    e.refusal caller i.call.typeName i.field.name d = none ∧
    e.dispatch.resolverFor ⟨i.call.typeName, i.field.name⟩ = .ok i.resolver ∧
    i.call = caller.call i.call.typeName i.call.parent i.field d

/-- What an invocation gives is what may become of its field. -/
theorem Invocation.Stands.resolved {e : Engine σ} {caller : Caller} {A : Answers}
    {i : Invocation σ} (h : i.Stands e caller) {w : Settled} (gives : i.Gives A w) :
    Resolved e caller (e.gives caller A) i.call.typeName i.call.parent i.field
      (judge e.schema i.field.name i.type w) := by
  obtain ⟨d, notTypename, found, type, granted, resolver, call⟩ := h
  obtain ⟨s, out⟩ := gives
  rw [type]
  refine .given d w notTypename found granted ⟨i.resolver, s, resolver, ?_⟩
  rw [call] at out
  exact out

/-- The waiting node that the value of an invocation goes to. -/
structure Call (e : Engine σ) (caller : Caller) (g : Graph) (pos : Nat → Entry)
    (i : Invocation σ) : Prop where
  stands : i.Stands e caller
  lt : i.node < g.size
  field : (pos i.node).field = i.field
  path : (pos i.node).path = i.path
  object : ∀ {x p}, g.node? i.node = some x → x.parent = some p →
    (pos p).verdict = some (.object i.call.typeName i.call.parent)

/-- The nodes that wait for a verdict. -/
structure Waiting (g : Graph) (pos : Nat → Entry) (nodes : List Nat) : Prop where
  nodup : nodes.Nodup
  within : ∀ {n}, n ∈ nodes → n < g.size ∧ (pos n).verdict = none
  all : ∀ {n}, n < g.size → (pos n).verdict = none → n ∈ nodes

/-- What is due beneath the nodes that are decided about, unless they are nulled, are the tasks. -/
structure Queued (g : Graph) (pos : Nat → Entry) (due : Nat → List PathSegment)
    (tasks : List Task) : Prop where
  within : ∀ {t}, t ∈ tasks → t.parent < g.size ∧ t.Fits pos
  due : ∀ {p}, p < g.size → (pos p).verdict ≠ none → g.isNulled p = false → due p = dueTo tasks p

section

variable {e : Engine σ} {caller : Caller} {gives : Gives} {g g' : Graph}
  {pos pos' : Nat → Entry} {due due' : Nat → List PathSegment} {tasks : List Task} {n : Nat}

theorem Task.Fits.notWaiting {t : Task} (h : t.Fits pos) (waiting : (pos n).verdict = none) :
    t.parent ≠ n := by
  rintro rfl
  rw [h.object] at waiting
  cases waiting

/-- A call stays what it is when another node is decided about. -/
theorem Call.of_kept {i : Invocation σ} (h : Call e caller g pos i)
    (P : Placed e caller gives g pos due) (grows : g.Grows g')
    (kept : ∀ {m}, m < g.size → m ≠ n → pos' m = pos m) (ne : i.node ≠ n)
    (notObject : n < g.size → (pos n).verdict = none) : Call e caller g' pos' i where
  stands := h.stands
  lt := Nat.lt_of_lt_of_le h.lt grows.size_le
  field := by rw [kept h.lt ne, h.field]
  path := by rw [kept h.lt ne, h.path]
  object := by
    intro x' p hx' hp
    obtain ⟨x, hx, hpar, -, -⟩ := grows.node?_of hx' h.lt
    rw [hpar] at hp
    have object := h.object hx hp
    have lt := P.parent_lt_size hx hp
    have ne : p ≠ n := by
      rintro rfl
      rw [notObject lt] at object
      cases object
    rw [kept lt ne, object]

/-! ## A node is decided about -/

section

variable {V : Verdict} {out : Graph × List Task}

theorem Queued.complete (before after : List Task) (Q : Queued g pos due (before ++ after))
    (C : Completed e caller gives g n V pos due out pos' due') (lt : n < g.size)
    (waiting : (pos n).verdict = none) : Queued out.1 pos' due' (before ++ out.2 ++ after) := by
  have ne : ∀ {t}, t ∈ before ++ after → t.parent ≠ n :=
    fun ht => (Q.within ht).2.notWaiting waiting
  have split : ∀ m, dueTo (before ++ after) m = [] →
      dueTo (before ++ out.2 ++ after) m = dueTo out.2 m := by
    intro m none
    rw [dueTo_append, List.append_eq_nil_iff] at none
    rw [dueTo_append, dueTo_append, none.1, none.2, List.nil_append, List.append_nil]
  constructor
  case within =>
    intro t ht
    by_cases new : t ∈ out.2
    · obtain ⟨fits, parent, -⟩ := C.fits new
      exact ⟨parent, fits⟩
    · have old : t ∈ before ++ after := by simpa [new] using ht
      obtain ⟨parent, fits⟩ := Q.within old
      exact ⟨Nat.lt_of_lt_of_le parent C.size, fits.of_eq (C.kept parent (ne old)).1⟩
  case due =>
    intro m hm decided free
    by_cases old : m < g.size
    · by_cases top : m = n
      · subst top
        rw [C.due_self, split m (dueTo_eq_nil fun t ht => ne ht)]
      · obtain ⟨hpos, hdue⟩ := C.kept old top
        have none : dueTo out.2 m = [] := dueTo_eq_nil fun t ht same => by
          rcases C.parents ht with h | h
          · exact top (same.symm.trans h)
          · omega
        rw [hdue, dueTo_append, dueTo_append, none, List.append_nil, ← dueTo_append]
        exact Q.due old (hpos ▸ decided) (C.grows.free old free)
    · have none : dueTo (before ++ after) m = [] := dueTo_eq_nil fun t ht same => by
        have := (Q.within ht).1
        omega
      rw [C.due (by omega) hm, split m none]

theorem Waiting.complete (before after : List Nat) (W : Waiting g pos (before ++ n :: after))
    (C : Completed e caller gives g n V pos due out pos' due') :
    Waiting out.1 pos' (before ++ after) := by
  have self : (pos' n).verdict ≠ none := by rw [C.self]; simp
  have nodup := W.nodup
  rw [List.nodup_middle, List.nodup_cons] at nodup
  constructor
  case nodup => exact nodup.2
  case within =>
    intro m hm
    have ne : m ≠ n := fun same => nodup.1 (same ▸ hm)
    obtain ⟨lt, waiting⟩ := W.within (n := m) (by
      rcases List.mem_append.mp hm with h | h
      · exact List.mem_append_left _ h
      · exact List.mem_append_right _ (List.mem_cons_of_mem _ h))
    exact ⟨Nat.lt_of_lt_of_le lt C.size, by rw [(C.kept lt ne).1, waiting]⟩
  case all =>
    intro m hm waiting
    have ne : m ≠ n := fun same => self (same ▸ waiting)
    have old : m < g.size := by
      by_contra new
      exact C.decided (by omega) hm waiting
    rw [(C.kept old ne).1] at waiting
    have := W.all old waiting
    simpa [ne] using this

end

end

/-- A verdict that may become of a field of an object fits beneath the object. -/
theorem Ledger.beneath_of_resolved (L : Ledger e caller gives g pos due) {V : Verdict}
    {typeName : String} {v : Json}
    (object : ∀ {x p}, g.node? n = some x → x.parent = some p →
      (pos p).verdict = some (.object typeName v))
    (resolved : Resolved e caller gives typeName v (pos n).field V) {x : GraphNode} {p : Nat}
    (hx : g.node? n = some x) (hp : x.parent = some p) :
    Beneath e caller gives (pos p) (due p) { pos n with verdict := some V } x.nonNull := by
  obtain ⟨-, W, key, allowed, hW, path, notDue, slot, -⟩ := L.beneath hx hp
  refine ⟨W, key, allowed, hW, path, notDue, slot, ?_⟩
  rintro _ ⟨⟩
  rw [object hx hp, Option.some.injEq] at hW
  subst hW
  rw [slot.of_object.2.2.2]
  exact resolved

/-! ## Where an execution stands -/

/-- The graph has a ledger, in which the root is at `top`; its waiting nodes are those of the calls,
and what is due are the tasks. -/
def Standing (e : Engine σ) (caller : Caller) (gives : Gives) (top : Entry) (g : Graph)
    (calls : List (Invocation σ)) (tasks : List Task) : Prop :=
  ∃ pos due, Ledger e caller gives g pos due ∧ pos 0 = top ∧ top.verdict ≠ none ∧
    Queued g pos due tasks ∧ Waiting g pos (calls.map Invocation.node) ∧
    ∀ i ∈ calls, Call e caller g pos i

section

variable {e : Engine σ} {caller : Caller} {gives : Gives} {top : Entry} {g : Graph}
  {calls : List (Invocation σ)} {t : Task} {tasks : List Task}

/-- Decide about the first of the calls. -/
theorem Standing.complete {i : Invocation σ} {before after : List Task}
    (S : Standing e caller gives top g (i :: calls) (before ++ after)) {w : Settled}
    (resolved : Resolved e caller gives i.call.typeName i.call.parent i.field
      (judge e.schema i.field.name i.type w)) :
    Standing e caller gives top (completeValue e.schema i.field g i.node i.type w i.path).1 calls
        (before ++ (completeValue e.schema i.field g i.node i.type w i.path).2 ++ after) ∧
      ∀ t ∈ (completeValue e.schema i.field g i.node i.type w i.path).2,
        t.field ∈ i.field.subfields := by
  obtain ⟨pos, due, L, hroot, decided, Q, W, K⟩ := S
  have C := K i List.mem_cons_self
  have waiting := (W.within (n := i.node) (by simp)).2
  obtain ⟨pos', due', D⟩ := completeValue_completes i.field i.path i.type w {
    ledger := L
    lt := C.lt
    waiting := waiting
    field := C.field
    path := C.path
    allowed := L.beneath_of_resolved C.object (C.field ▸ resolved) }
  have rootNe : 0 ≠ i.node := by
    intro same
    rw [← same, hroot] at waiting
    exact decided waiting
  refine ⟨⟨pos', due', D.ledger, ?_, decided, Q.complete _ _ D C.lt waiting,
    Waiting.complete [] _ W D, ?_⟩, ?_⟩
  · rw [(D.kept L.size_pos rootNe).1, hroot]
  · intro j hj
    have ne : j.node ≠ i.node := by
      have := W.nodup
      rw [List.map_cons, List.nodup_cons] at this
      exact fun same => this.1 (same ▸ List.mem_map_of_mem hj)
    exact (K j (List.mem_cons_of_mem _ hj)).of_kept L.toPlaced D.grows
      (fun hm ne => (D.kept hm ne).1) ne (fun _ => waiting)
  · intro t ht
    have := (D.fits ht).2.2
    rwa [C.field] at this

/-- Complete the calls of a wave; the new tasks are for fields selected beneath theirs. -/
theorem completeWave_standing {A : Answers} {ws : List Settled} (before after : List Task)
    (S : Standing e caller (e.gives caller A) top g calls (before ++ after))
    (given : AllGive A calls ws) :
    Standing e caller (e.gives caller A) top (e.completeWave g calls ws).1 []
        (before ++ (e.completeWave g calls ws).2 ++ after) ∧
      ∀ t ∈ (e.completeWave g calls ws).2, ∃ i ∈ calls, t.field ∈ i.field.subfields := by
  induction given generalizing g before with
  | nil =>
    rw [Engine.completeWave.eq_def, List.append_nil]
    exact ⟨S, fun _ h => nomatch h⟩
  | @cons i is w ws gives _ ih =>
    obtain ⟨pos, due, -, -, -, -, -, K⟩ := id S
    obtain ⟨S₁, sub₁⟩ := S.complete ((K i List.mem_cons_self).stands.resolved gives)
    obtain ⟨S₂, sub₂⟩ := ih _ S₁
    rw [Engine.completeWave, ← List.append_assoc]
    refine ⟨S₂, fun t ht => ?_⟩
    rcases List.mem_append.mp ht with ht | ht
    · exact ⟨i, List.mem_cons_self, sub₁ t ht⟩
    · obtain ⟨j, hj, sub⟩ := sub₂ t ht
      exact ⟨j, List.mem_cons_of_mem _ hj, sub⟩

/-! ## Preparing -/

/-- The node `n` was added for a task, and nothing is decided about it yet. -/
structure Added (e : Engine σ) (caller : Caller) (gives : Gives) (top : Entry) (g : Graph)
    (calls : List (Invocation σ)) (t : Task) (later : List Task) (n : Nat) (pos : Nat → Entry)
    (due : Nat → List PathSegment) : Prop where
  ledger : Ledger e caller gives g pos due
  root : pos 0 = top
  decided : top.verdict ≠ none
  queued : Queued g pos due later
  waiting : Waiting g pos (calls.map Invocation.node ++ [n])
  calls : ∀ i ∈ calls, Call e caller g pos i
  new : pos n = ⟨t.fieldPath, t.field, none⟩
  object : ∀ {x p}, g.node? n = some x → x.parent = some p →
    (pos p).verdict = some (.object t.parentType t.parentValue)

/-- A task beneath a null is dropped. -/
theorem Standing.drop (S : Standing e caller gives top g calls (t :: tasks))
    (nulled : g.isNulled t.parent = true) : Standing e caller gives top g calls tasks := by
  obtain ⟨pos, due, L, hroot, decided, Q, W, K⟩ := S
  refine ⟨pos, due, L, hroot, decided, ⟨fun ht => Q.within (List.mem_cons_of_mem _ ht), ?_⟩, W, K⟩
  intro p hp hV free
  have ne : t.parent ≠ p := by
    rintro rfl
    rw [nulled] at free
    cases free
  rw [Q.due hp hV free, dueTo_cons_of_ne ne]

/-- Add the node of a task. -/
theorem Standing.add (S : Standing e caller gives top g calls (t :: tasks))
    (free : g.isNulled t.parent = false) :
    ∃ pos due, Added e caller gives top
      (g.addField t.parent t.field.outputName (e.schema.excludesNull t.parentType t.field)) calls t
      tasks g.size pos due := by
  obtain ⟨pos, due, L, hroot, decided, Q, W, K⟩ := S
  obtain ⟨lt, fits⟩ := Q.within (t := t) List.mem_cons_self
  have next : due t.parent = t.key :: dueTo tasks t.parent := by
    rw [Q.due lt (by rw [fits.object]; simp) free, dueTo_cons_self]
  rw [Graph.addField_eq_attach _ _ lt]
  have new := Function.update_self g.size
    (⟨(pos t.parent).path ++ [t.key], t.field, none⟩ : Entry) pos
  have old : ∀ {m}, m < g.size →
      Function.update pos g.size ⟨(pos t.parent).path ++ [t.key], t.field, none⟩ m = pos m :=
    fun h => Function.update_of_ne (Nat.ne_of_lt h) _ _
  have grows := Graph.grows_attach (g := g) (p := t.parent) t.key
    (e.schema.excludesNull t.parentType t.field)
  refine ⟨Function.update pos g.size ⟨(pos t.parent).path ++ [t.key], t.field, none⟩,
    Function.update due t.parent (dueTo tasks t.parent), {
    ledger := L.attach lt fits.object next (.field fits.selected)
    root := by rw [old L.size_pos, hroot]
    decided := decided
    queued := ⟨?within, ?due⟩
    waiting := ⟨?nodup, ?waits, ?all⟩
    calls := ?calls
    new := by rw [new, ← fits.path]; rfl
    object := ?object }⟩
  case within =>
    intro u hu
    obtain ⟨ltu, fitsu⟩ := Q.within (List.mem_cons_of_mem t hu)
    exact ⟨by rw [Graph.size_attach]; omega, fitsu.of_eq (old ltu)⟩
  case due =>
    intro p hp hV freep
    rw [Graph.size_attach] at hp
    by_cases hpn : p = g.size
    · rw [hpn, new] at hV
      exact absurd rfl hV
    · have ltp : p < g.size := by omega
      by_cases same : p = t.parent
      · rw [same, Function.update_self]
      · rw [Function.update_of_ne same]
        rw [old ltp] at hV
        rw [Q.due ltp hV (grows.free ltp freep), dueTo_cons_of_ne fun eq => same eq.symm]
  case nodup =>
    rw [List.nodup_append]
    refine ⟨W.nodup, List.nodup_cons.mpr ⟨List.not_mem_nil, List.nodup_nil⟩, ?_⟩
    intro m hm m' hm' eq
    rw [List.mem_singleton.mp hm'] at eq
    have := (W.within hm).1
    omega
  case waits =>
    intro m hm
    rw [Graph.size_attach]
    rcases List.mem_append.mp hm with hm | hm
    · obtain ⟨ltm, waiting⟩ := W.within hm
      exact ⟨by omega, by rw [old ltm, waiting]⟩
    · rw [List.mem_singleton.mp hm, new]
      exact ⟨by omega, rfl⟩
  case all =>
    intro m hm waiting
    rw [Graph.size_attach] at hm
    by_cases hmn : m = g.size
    · exact List.mem_append_right _ (List.mem_singleton.mpr hmn)
    · rw [old (by omega)] at waiting
      exact List.mem_append_left _ (W.all (by omega) waiting)
  case calls =>
    intro i hi
    exact (K i hi).of_kept (n := g.size) L.toPlaced grows (fun h _ => old h)
      (Nat.ne_of_lt (K i hi).lt) (fun h => absurd h (Nat.lt_irrefl _))
  case object =>
    intro x p hx hp
    rw [Graph.node?_attach_self _ _ lt, Option.some.injEq] at hx
    subst hx
    cases hp
    rw [old lt, fits.object]

section

variable {later : List Task} {n : Nat} {pos : Nat → Entry} {due : Nat → List PathSegment}
  (D : Added e caller gives top g calls t later n pos due)

include D

theorem Added.lt : n < g.size := (D.waiting.within (n := n) (by simp)).1

/-- The node of the task is decided about at once. -/
theorem Added.complete {V : Verdict} {g' : Graph} {pos' : Nat → Entry}
    {due' : Nat → List PathSegment}
    (C : Completed e caller gives g n V pos due (g', []) pos' due') :
    Standing e caller gives top g' calls later := by
  have waiting : (pos n).verdict = none := by rw [D.new]
  have Q := Queued.complete [] _ D.queued C D.lt waiting
  have W := Waiting.complete _ [] D.waiting C
  rw [List.append_nil] at W
  refine ⟨pos', due', C.ledger, ?_, D.decided, Q, W, fun i hi => ?_⟩
  · have ne : 0 ≠ n := by
      intro same
      rw [← same, D.root] at waiting
      exact D.decided waiting
    rw [(C.kept D.ledger.size_pos ne).1, D.root]
  · have ne : i.node ≠ n := by
      have nodup := D.waiting.nodup
      rw [List.nodup_append] at nodup
      exact nodup.2.2 _ (List.mem_map_of_mem hi) n (by simp)
    exact (D.calls i hi).of_kept D.ledger.toPlaced C.grows (fun hm ne => (C.kept hm ne).1) ne
      (fun _ => waiting)

theorem Added.leaf {v : Json}
    (resolved : Resolved e caller gives t.parentType t.parentValue t.field (.leaf v)) :
    Standing e caller gives top (g.setLeaf n v) calls later := by
  have waiting : (pos n).verdict = none := by rw [D.new]
  obtain ⟨x, hx⟩ := Graph.exists_node D.lt
  have L := D.ledger.fill D.lt waiting
    (D.ledger.beneath_of_resolved D.object (by rw [D.new]; exact resolved)) (.leaf v)
    (by simp) rfl
  exact D.complete (completed_of_decide D.lt L
    (Graph.grows_setContent _ hx (Ledger.content_of_waiting D.ledger.toLinked hx waiting))
    (Graph.size_setContent g n _) rfl (by simp))

theorem Added.fail {fault : FieldError}
    (resolved : Resolved e caller gives t.parentType t.parentValue t.field (.failed fault)) :
    Standing e caller gives top (g.fail n fault t.fieldPath) calls later := by
  have L := D.ledger.fail D.lt (by rw [D.new]) fault
    (D.ledger.beneath_of_resolved D.object (by rw [D.new]; exact resolved))
  rw [D.new] at L
  exact D.complete (completed_of_decide D.lt L (Graph.grows_nullify (g.recordError fault _) n)
    (Graph.size_nullify _ n) rfl (by simp))

/-- The node of the task waits for a resolver. -/
theorem Added.call {i : Invocation σ} (node : i.node = n) (field : i.field = t.field)
    (path : i.path = t.fieldPath) (typeName : i.call.typeName = t.parentType)
    (parent : i.call.parent = t.parentValue) (stands : i.Stands e caller) :
    Standing e caller gives top g (calls ++ [i]) later := by
  refine ⟨pos, due, D.ledger, D.root, D.decided, D.queued, ?_, fun j hj => ?_⟩
  · have W := D.waiting
    rw [← node] at W
    simpa using W
  · rcases List.mem_append.mp hj with hj | hj
    · exact D.calls j hj
    · rw [List.mem_singleton.mp hj]
      exact {
        stands := stands
        lt := node ▸ D.lt
        field := by rw [node, D.new, field]
        path := by rw [node, D.new, path]
        object := by rw [node, typeName, parent]; exact D.object }

end

/-- Preparing a task decides about its node or makes a call for it. -/
theorem prepareTask_standing (S : Standing e caller gives top g calls (t :: tasks)) :
    Standing e caller gives top (e.prepareTask caller g t).1
        (calls ++ (e.prepareTask caller g t).2.toList) tasks ∧
      ∀ i ∈ (e.prepareTask caller g t).2.toList, i.field = t.field := by
  by_cases nulled : g.isNulled t.parent = true
  · rw [Engine.prepareTask, if_pos nulled]
    simp only [Option.toList_none, List.append_nil]
    exact ⟨S.drop nulled, fun _ h => nomatch h⟩
  · obtain ⟨pos, due, D⟩ := S.add (by simpa using nulled)
    rw [Engine.prepareTask, if_neg nulled]
    by_cases typename : t.field.name = typenameField
    · rw [if_pos typename]
      have b : e.schema.excludesNull t.parentType t.field = true := by
        rw [Schema.excludesNull, if_pos typename]
      rw [b] at D
      simp only [Option.toList_none, List.append_nil]
      exact ⟨D.leaf (.typename typename), fun _ h => nomatch h⟩
    · rw [if_neg typename]
      rw [Schema.excludesNull, if_neg typename] at D
      split
      · next found =>
        rw [found] at D
        simp only [Option.toList_none, List.append_nil]
        exact ⟨D.fail (.unknown _ typename found), fun _ h => nomatch h⟩
      · next d found =>
        rw [found] at D
        simp only
        have refusal : ∀ {fault}, e.refusal caller t.parentType t.field.name d = some fault →
            Standing e caller gives top
              ((g.addField t.parent t.field.outputName d.type.isNonNull).fail g.size fault
                t.fieldPath) calls tasks :=
          fun refused => D.fail (.refused d _ typename found refused)
        by_cases access : caller.identity.satisfies d.access = true
        · rw [if_pos access]
          cases hr : e.dispatch.resolverFor ⟨t.parentType, t.field.name⟩ with
          | error fault =>
            simp only [Option.toList_none, List.append_nil]
            exact ⟨refusal (by rw [Engine.refusal, if_pos access, hr]), fun _ h => nomatch h⟩
          | ok resolver =>
            simp only [Option.toList_some]
            refine ⟨D.call rfl rfl rfl rfl rfl ⟨d, typename, found, rfl, ?_, hr, rfl⟩, ?_⟩
            · show e.refusal caller t.parentType t.field.name d = none
              rw [Engine.refusal, if_pos access, hr]
            · intro i hi
              rw [List.mem_singleton.mp hi]
        · rw [if_neg access]
          simp only [Option.toList_none, List.append_nil]
          exact ⟨refusal (by rw [Engine.refusal, if_neg access]), fun _ h => nomatch h⟩

/-- Prepare a wave; the calls are for fields of its tasks. -/
theorem prepare_standing {later : List Task}
    (S : Standing e caller gives top g calls (tasks ++ later)) :
    Standing e caller gives top (e.prepare caller g tasks).1
        (calls ++ (e.prepare caller g tasks).2) later ∧
      ∀ i ∈ (e.prepare caller g tasks).2, ∃ t ∈ tasks, i.field = t.field := by
  induction tasks generalizing g calls with
  | nil =>
    rw [Engine.prepare, List.append_nil]
    exact ⟨S, fun _ h => nomatch h⟩
  | cons t ts ih =>
    obtain ⟨S₁, fields₁⟩ := prepareTask_standing S
    obtain ⟨S₂, fields₂⟩ := ih S₁
    rw [Engine.prepare, ← List.append_assoc]
    refine ⟨S₂, fun i hi => ?_⟩
    rcases List.mem_append.mp hi with hi | hi
    · exact ⟨t, List.mem_cons_self, fields₁ i hi⟩
    · obtain ⟨u, hu, field⟩ := fields₂ i hi
      exact ⟨u, List.mem_cons_of_mem _ hu, field⟩

end

end GraphQLEngine
