import TokenStation.Library.Interleaving

/-!
# Submitting and cancelling tasks

A task is submitted and cancelled by short programs over effects that a host
supplies. Each effect is atomic; the programs only order them.
-/

namespace TokenStation.Tasks

open Library.Interleaving

/-- The types a host chooses for its effects. -/
structure HostTypes where
  Input : Type
  Key : Type
  Task : Type
  Accepted : Type
  Rejected : Type
  Outcome : Type
  Error : Type

/-- The atomic preparation decision. -/
inductive PrepareResult (T O : Type) where
  | created (task : T)
  | replayed (outcome : O)
  | conflict (outcome : O)

/-- What is known of a submission. -/
inductive SubmissionFact (A R : Type) where
  | accepted (details : A)
  | rejected (details : R)
  | unknown

/-- Whether a composite effect won. -/
inductive ApplyResult (O : Type) where
  | applied (outcome : O)
  | conflict

inductive Disposition where
  | applied
  | replayed
  | conflict
deriving DecidableEq, Repr

structure SharedResult (O : Type) where
  outcome : O
  disposition : Disposition

/-- The plan for a cancellation request. -/
inductive CancelPlan (T O : Type) where
  | prepared (task : T)
  | dispatched (task : T)
  | returned (outcome : O)

variable (H : HostTypes)

/-- The effects of submission and of cancellation. -/
inductive Effect where
  | prepare (input : H.Input)
  | beginDispatch (task : H.Task)
  | send (task : H.Task)
  | recordSubmission (task : H.Task) (fact : SubmissionFact H.Accepted H.Rejected)
  | reload (task : H.Task)
  | loadForCancel (key : H.Key)
  | cancelPrepared (task : H.Task)
  | recordCancelIntent (task : H.Task)

variable {H}

abbrev Reply : Effect H → Type
  | .prepare _ => PrepareResult H.Task H.Outcome
  | .beginDispatch _ => Bool
  | .send _ => SubmissionFact H.Accepted H.Rejected
  | .recordSubmission _ _ | .cancelPrepared _ => ApplyResult H.Outcome
  | .reload _ | .recordCancelIntent _ => H.Outcome
  | .loadForCancel _ => CancelPlan H.Task H.Outcome

/-- What a run ends with. -/
inductive Ended (H : HostTypes) where
  | submitted (result : Except H.Error (SharedResult H.Outcome))
  | cancelled (result : Except H.Error H.Outcome)

abbrev Run (H : HostTypes) := Program (@Reply H) H.Error (Ended H)

/-! ## Submission -/

/-- The fact of a send; a failed one is unknown. -/
def factOf (reply : Except H.Error (SubmissionFact H.Accepted H.Rejected)) :
    SubmissionFact H.Accepted H.Rejected :=
  match reply with
  | .ok fact => fact
  | .error _ => .unknown

/-- The winner's outcome, for a run that lost. -/
def reloaded (task : H.Task) : Run H :=
  .call (.reload task) fun reply =>
    .done (.submitted (reply.map fun outcome => ⟨outcome, .replayed⟩))

def recording (task : H.Task) (fact : SubmissionFact H.Accepted H.Rejected) : Run H :=
  .call (.recordSubmission task fact) fun reply =>
    match reply with
    | .error e => .done (.submitted (.error e))
    | .ok (.applied outcome) => .done (.submitted (.ok ⟨outcome, .applied⟩))
    | .ok .conflict => reloaded task

def sending (task : H.Task) : Run H :=
  .call (.send task) fun reply => recording task (factOf reply)

def dispatching (task : H.Task) : Run H :=
  .call (.beginDispatch task) fun reply =>
    match reply with
    | .error e => .done (.submitted (.error e))
    | .ok true => sending task
    | .ok false => reloaded task

/-- Prepare and submit once. -/
def submit (input : H.Input) : Run H :=
  .call (.prepare input) fun reply =>
    match reply with
    | .error e => .done (.submitted (.error e))
    | .ok (.created task) => dispatching task
    | .ok (.replayed outcome) => .done (.submitted (.ok ⟨outcome, .replayed⟩))
    | .ok (.conflict outcome) => .done (.submitted (.ok ⟨outcome, .conflict⟩))

/-! ## Cancellation -/

def intending (task : H.Task) : Run H :=
  .call (.recordCancelIntent task) fun reply => .done (.cancelled reply)

def cancelling (task : H.Task) : Run H :=
  .call (.cancelPrepared task) fun reply =>
    match reply with
    | .error e => .done (.cancelled (.error e))
    | .ok (.applied outcome) => .done (.cancelled (.ok outcome))
    | .ok .conflict => intending task

/-- Cancel what was not dispatched, and record the intent otherwise. -/
def cancel (key : H.Key) : Run H :=
  .call (.loadForCancel key) fun reply =>
    match reply with
    | .error e => .done (.cancelled (.error e))
    | .ok (.returned outcome) => .done (.cancelled (.ok outcome))
    | .ok (.dispatched task) => intending task
    | .ok (.prepared task) => cancelling task

/-- Runs submit or cancel. -/
inductive Starts : Run H → Prop where
  | submit (input : H.Input) : Starts (submit input)
  | cancel (key : H.Key) : Starts (cancel key)

/-! ## The host -/

inductive Phase where
  | prepared
  | dispatched
  | recorded
  | cancelled
deriving DecidableEq, Repr

/-- The replies that say that the task of the identity moved on. -/
def Moves : (e : Effect H) → Reply e → Prop
  | .prepare _, .created _ | .beginDispatch _, true | .recordSubmission _ _, .applied _
  | .cancelPrepared _, .applied _ => True
  | _, _ => False

/-- A host of atomic effects on one identity: `phase` is its task, if there is
one, and how far it has come. -/
structure AtomicHost (H : HostTypes) where
  Store : Type
  perform : Store → (e : Effect H) → Reply e → Store → Prop
  phase : Store → Option (H.Task × Phase)
  created : ∀ {s s' input task}, perform s (.prepare input) (.created task) s' →
    phase s = none ∧ phase s' = some (task, .prepared)
  dispatched : ∀ {s s' task}, perform s (.beginDispatch task) true s' →
    phase s = some (task, .prepared) ∧ phase s' = some (task, .dispatched)
  cancelled : ∀ {s s' task outcome}, perform s (.cancelPrepared task) (.applied outcome) s' →
    phase s = some (task, .prepared) ∧ phase s' = some (task, .cancelled)
  recorded : ∀ {s s' task fact outcome},
    perform s (.recordSubmission task fact) (.applied outcome) s' →
    phase s = some (task, .dispatched) ∧ phase s' = some (task, .recorded)
  kept : ∀ {s s' e reply}, perform s e reply s' → ¬Moves e reply → phase s' = phase s

end TokenStation.Tasks
