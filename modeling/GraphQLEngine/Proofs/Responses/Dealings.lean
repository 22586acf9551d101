import GraphQLEngine.Engine.Subscribe

/-!
# Dealings with an engine

Callers execute requests and subscribe.  What they began is polled, dropped or left alone, in any order,
and what is seen of it is shown at once.  In between others are at work in the world.

    e.act d (.poll place)      poll what was begun at that place
    e.deal d acts              what is shown act by act, and how things stand in the end
-/

namespace GraphQLEngine

/-- What was begun, and how far it has come. -/
inductive Undertaking (σ : Type) where
  | executing (caller : Caller) (operation : Nat) (x : Execution σ) (c : Coordinator)
  /-- The loads are kept for later operations. -/
  | executed (c : Coordinator)
  | settingUp (plan : SubscriptionPlan σ) (operation : Nat) (deadline : Option Nat)
  | streaming (s : SubscriptionStream σ)
  /-- It was refused or dropped. -/
  | gone

/-- What a caller sees. -/
inductive Shown where
  | pending
  | response (r : Response)
  /-- A subscription failed: its message and its error. -/
  | refused (message : String) (report : ReportedError)
  | subscribed (registration : Nat)
  | ended

/-- One act, of a caller or of others. -/
inductive Act (σ : Type) where
  /-- Execute with loads of its own, or with those that were kept at a place. -/
  | execute (r : Request) (caller : Caller) (operation : Nat) (kept : Option Nat)
  | subscribe (r : Request) (caller : Caller) (operation : Nat)
  | poll (place : Nat)
  | drop (place : Nat)
  /-- The background task of a stream runs. -/
  | watch (place : Nat)
  /-- The world changes. -/
  | others (change : World σ → World σ)

variable {σ : Type}

def Undertaking.coordinator? : Undertaking σ → Option Coordinator
  | .executed c => some c
  | _ => none

def ExecutionError.refusal (fault : ExecutionError) : Shown := .refused fault.shown fault.report

def StreamItem.show : StreamItem → Shown
  | .pending => .pending
  | .response r => .response r
  | .ended => .ended

namespace Engine

/-- How an execution stands after it was polled. -/
def reviewExecution (caller : Caller) (r : Polled σ × OperationState σ) :
    Shown × Undertaking σ × World σ :=
  match r.1 with
  | .suspended x => (.pending, .executing caller r.2.operation x r.2.coordinator, r.2.world)
  | .completed g => (.response g.response, .executed r.2.coordinator, r.2.world)
  | .stopped g reason =>
    (.response (stoppedResponse g reason), .executed r.2.coordinator, r.2.world)

/-- How a set-up stands after it was polled. -/
def reviewSetup (plan : SubscriptionPlan σ) (operation : Nat)
    (r : SetupPhase (SubscriptionStream σ) × World σ) : Shown × Undertaking σ × World σ :=
  match r.1 with
  | .waiting deadline => (.pending, .settingUp plan operation (some deadline), r.2)
  | .failed fault => (fault.refusal, .gone, r.2)
  | .ready s => (.subscribed s.registration, .streaming s, r.2)

def reviewStream (r : StreamItem × SubscriptionStream σ × World σ) :
    Shown × Undertaking σ × World σ :=
  (r.1.show, .streaming r.2.1, r.2.2)

def beginRequest (e : Engine σ) (r : Request) (caller : Caller) (st : OperationState σ) :
    Shown × Undertaking σ × World σ :=
  match e.execute r caller st with
  | .error response => (.response response, .executed st.coordinator, st.world)
  | .ok begun => reviewExecution caller begun

def beginSubscription (e : Engine σ) (r : Request) (caller : Caller) (operation : Nat)
    (w : World σ) : Shown × Undertaking σ × World σ :=
  match e.planSubscription r caller with
  | .error fault => (fault.refusal, .gone, w)
  | .ok plan => (.pending, .settingUp plan operation none, w)

/-- Poll what was begun. -/
def pollUndertaking (e : Engine σ) (u : Undertaking σ) (w : World σ) :
    Shown × Undertaking σ × World σ :=
  match u with
  | .executing caller operation x c => reviewExecution caller (e.poll caller x ⟨operation, c, w⟩)
  | .settingUp plan operation deadline =>
    reviewSetup plan operation (e.pollSetup plan operation deadline w)
  | .streaming s => reviewStream (s.poll e w)
  | .executed c => (.ended, .executed c, w)
  | .gone => (.ended, .gone, w)

end Engine

/-- Drop what was begun; a stream releases its registration. -/
def Undertaking.drop (u : Undertaking σ) (w : World σ) : World σ :=
  match u with
  | .streaming s => (s.release w).2
  | _ => w

def Undertaking.watch (u : Undertaking σ) (w : World σ) : World σ :=
  match u with
  | .streaming s => s.watch w
  | _ => w

/-- All that was begun so far, in order, and the world that it shares. -/
structure Dealings (σ : Type) where
  undertakings : List (Undertaking σ)
  world : World σ

namespace Dealings

def begun (d : Dealings σ) (r : Shown × Undertaking σ × World σ) : Shown × Dealings σ :=
  (r.1, ⟨d.undertakings ++ [r.2.1], r.2.2⟩)

/-- Something is done to what was begun at a place, if there is anything. -/
def atPlace (d : Dealings σ) (place : Nat)
    (f : Undertaking σ → Shown × Undertaking σ × World σ) : Shown × Dealings σ :=
  match d.undertakings[place]? with
  | some u => ((f u).1, ⟨d.undertakings.set place (f u).2.1, (f u).2.2⟩)
  | none => (.ended, d)

/-- The loads that were kept at a place. -/
def coordinator (e : Engine σ) (d : Dealings σ) (kept : Option Nat) : Coordinator :=
  ((kept.bind fun place => d.undertakings[place]?).bind Undertaking.coordinator?).getD e.coordinator

end Dealings

namespace Engine

def act (e : Engine σ) (d : Dealings σ) : Act σ → Shown × Dealings σ
  | .execute r caller operation kept =>
    d.begun (e.beginRequest r caller ⟨operation, d.coordinator e kept, d.world⟩)
  | .subscribe r caller operation => d.begun (e.beginSubscription r caller operation d.world)
  | .poll place => d.atPlace place fun u => e.pollUndertaking u d.world
  | .drop place => d.atPlace place fun u => (.ended, .gone, u.drop d.world)
  | .watch place => d.atPlace place fun u => (.pending, u, u.watch d.world)
  | .others change => (.pending, ⟨d.undertakings, change d.world⟩)

/-- One act after the other. -/
def deal (e : Engine σ) (d : Dealings σ) : List (Act σ) → List Shown × Dealings σ
  | [] => ([], d)
  | a :: acts =>
    let first := e.act d a
    let rest := e.deal first.2 acts
    (first.1 :: rest.1, rest.2)

end Engine

end GraphQLEngine
