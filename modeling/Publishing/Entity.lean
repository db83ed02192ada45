import Publishing.StepRecord

/-
A tracked entity and the changes of its steps.
-/

namespace Publishing

/-- A failure of a step, kept across retries. -/
structure Failure where
  step : Step
  message : String
  attempt : Nat
  timestamp : Timestamp
  deriving DecidableEq, Inhabited

structure Entity where
  id : String
  status : EntityStatus
  currentStep : Step
  steps : StepTable
  /-- Handed to the executors as it is. -/
  metadata : Json
  errors : List Failure
  createdAt : Timestamp
  updatedAt : Timestamp
  deriving DecidableEq, Inhabited

namespace Entity

/-- A newly found entity, waiting at the first step. -/
def draft (now : Timestamp) (id : String) (metadata : Json) : Entity where
  id := id
  status := .draft
  currentStep := .ingested
  steps := .replicate .fresh
  metadata := metadata
  errors := []
  createdAt := now
  updatedAt := now

/-- An entity that went through every step before it was tracked. -/
def finalized (now : Timestamp) (id : String) (metadata : Json) : Entity :=
  { draft now id metadata with
    status := .completed
    currentStep := .finalized
    steps := .replicate { StepRecord.fresh with status := .completed, completedAt := some now } }

def step (e : Entity) (s : Step) : StepRecord := e.steps.get s

def modifyStep (e : Entity) (s : Step) (f : StepRecord → StepRecord) : Entity :=
  { e with steps := e.steps.modify s f }

/-- The first step with a running record. -/
def runningStep? (e : Entity) : Option Step :=
  Step.all.find? fun s => (e.step s).status = .running

/-- The first step that is not done. -/
def firstOpenStep? (e : Entity) : Option Step :=
  Step.all.find? fun s => !(e.step s).status.isDone

/-- The step that an entity with these records waits at. -/
def frontier (e : Entity) : Step := e.firstOpenStep?.getD .finalized

def isPendingAt (e : Entity) (s : Step) : Bool :=
  e.currentStep = s && (e.step s).status = .pending && e.status.isSchedulable

def touch (now : Timestamp) (e : Entity) : Entity := { e with updatedAt := now }

/-- The status of an entity whose first open step is `s`. -/
def statusAt (e : Entity) (s : Step) : EntityStatus :=
  match (e.step s).status with
  | .failed => if (e.step s).hasAttemptsLeft then .failed else .blocked
  | .running => .inProgress
  | _ => if Step.all.any fun s => (e.step s).status.isDone then .ready else .draft

/-- Set the current step and the status from the records. -/
def settle (e : Entity) : Entity :=
  match e.firstOpenStep? with
  | none => { e with currentStep := .finalized, status := .completed }
  | some s => { e with currentStep := s, status := e.statusAt s }

/-- Mark `s` running and count the attempt. -/
def beginStep (now : Timestamp) (s : Step) (e : Entity) : Entity :=
  { e.modifyStep s (.start now) with
    currentStep := s
    status := .inProgress
    updatedAt := now }

/-- Mark `s` completed and go on to the next step, if there is one. -/
def completeStep (now : Timestamp) (s : Step) (ms : Nat) (e : Entity) : Entity :=
  { e.modifyStep s (.succeed now ms) with
    currentStep := s.next?.getD s
    status := if s.next?.isSome then .ready else .completed
    updatedAt := now }

/-- Mark `s` failed and stay there. -/
def failStep (now : Timestamp) (s : Step) (message : String) (ms : Nat) (e : Entity) : Entity :=
  { e.modifyStep s (.fail now message ms) with
    errors := e.errors ++ [⟨s, message, (e.step s).attempts, now⟩]
    currentStep := s
    status := if (e.step s).hasAttemptsLeft then .failed else .blocked
    updatedAt := now }

theorem step_modifyStep (e : Entity) (s s' : Step) (f : StepRecord → StepRecord) :
    (e.modifyStep s f).step s' = if s' = s then f (e.step s') else e.step s' :=
  StepTable.get_modify _ _ _ _

@[simp] theorem step_modifyStep_self (e : Entity) (s : Step) (f : StepRecord → StepRecord) :
    (e.modifyStep s f).step s = f (e.step s) := by
  simp [step_modifyStep]

theorem firstOpenStep?_eq_none {e : Entity} :
    e.firstOpenStep? = none ↔ ∀ s, (e.step s).status.isDone := by
  simp [firstOpenStep?, Step.mem_all]

theorem runningStep?_eq_none {e : Entity} :
    e.runningStep? = none ↔ ∀ s, (e.step s).status ≠ .running := by
  simp [runningStep?, Step.mem_all]

end Entity
end Publishing
