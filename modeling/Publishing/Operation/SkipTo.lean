import Publishing.Operation.Report

/-
Going on from a step, with the steps before it skipped and those from it on
reopened.
-/

namespace Publishing

/-- Which entities an operation applies to. -/
inductive Target where
  | one (id : String)
  | all
  deriving DecidableEq

namespace Entity

/-- The checkpoint of a step that is skipped over. -/
def skipCheckpoint (now : Timestamp) (target : Step) : Checkpoint :=
  ⟨OperationName.stepSkipped, now, .object [("skipTo", target.toJson)]⟩

def skipTo (now : Timestamp) (s : Step) (e : Entity) : Entity :=
  { e with
    steps := e.steps.mapSteps fun s' r =>
      if s' < s then
        if r.status.isDone then r
        else { r with status := .skipped, error := none }.note (skipCheckpoint now s)
      else r.reopen
    currentStep := s
    status := .ready
    updatedAt := now }

/-- The records of the steps that are skipped over. -/
def skipRecords (now : Timestamp) (s : Step) (e : Entity) : List AuditRecord :=
  (s.predecessors.filter fun s' => !(e.step s').status.isDone).map fun s' =>
    .ofCheckpoint e.id s' (skipCheckpoint now s)

/-- What skipping all entities to a step makes of this one. -/
def skipVerdict (now : Timestamp) (s : Step) (e : Entity) : Verdict :=
  if e.status = .completed ∨ s ≤ e.currentStep then .untouched
  else
    match e.runningStep? with
    | some running => .skipped (.running running)
    | none => .changed (e.skipTo now s) (e.skipRecords now s)

/-- Whether this entity alone may be skipped to a step. -/
def checkSkip (s : Step) (e : Entity) : Except Error Unit := do
  if let some running := e.runningStep? then
    throw (.stuckStep e.id running (e.step running).attempts)
  if !(e.step s).hasAttemptsLeft then throw (.retryLimit e.id s (e.step s).attempts)

end Entity

namespace Document

def skipTo (now : Timestamp) (s : Step) (d : Document) : Target → Except Error Change
  | .one id => do
    let e ← d.get id
    e.checkSkip s
    return {
      document := d.replace id (e.skipTo now s)
      records := e.skipRecords now s
      report := ⟨id ++ " moved to " ++ s.name, [id], []⟩ }
  | .all => .ok <| d.sweep (Entity.skipVerdict now s) fun n =>
      toString n ++ " entities moved to " ++ s.name

end Document
end Publishing
