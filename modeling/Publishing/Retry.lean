import Publishing.Audit.Record

/-
Retries of failed steps.

A retry only puts the step back to pending.  The attempt is counted when a run
executes the step again.
-/

namespace Publishing

namespace Entity

/-- Whether a step may be retried. -/
def checkRetry (e : Entity) (s : Step) : Except Error Unit := do
  let r := e.step s
  if r.status ≠ .failed then throw (.invalidTransition e.id s.name (.notFailed r.status))
  if !r.hasAttemptsLeft then throw (.retryLimit e.id s r.attempts)

def requeue (now : Timestamp) (s : Step) (e : Entity) : Entity :=
  { e.modifyStep s fun r => { r with status := .pending, error := none } with
    currentStep := s
    status := .ready
    updatedAt := now }

def retry (now : Timestamp) (s : Step) (e : Entity) : Except Error (Entity × AuditRecord) := do
  e.checkRetry s
  let data := .ofMembers
    [("attemptsUsed", .nat (e.step s).attempts), ("maxAttempts", .nat maxAttempts)]
  return (e.requeue now s).emit now s OperationName.retryRequested data

end Entity

namespace Document

def get (d : Document) (id : String) : Except Error Entity :=
  match d.find? id with
  | some e => .ok e
  | none => .error (.notFound id)

def retry (now : Timestamp) (id : String) (s : Step) (d : Document) :
    Except Error (Document × AuditRecord) := do
  let (e, record) ← (← d.get id).retry now s
  return (d.replace id e, record)

/-- The ids of the entities that failed at a step. -/
def failedAt (d : Document) (s : Step) : List String :=
  (d.all.filter fun e => (e.step s).status = .failed).map (·.id)

structure RetryOutcome where
  id : String
  refusal : Option Error
  deriving DecidableEq

/-- Retry each of these entities.  A refusal does not keep the others from it. -/
def retryEach (now : Timestamp) (s : Step) :
    List String → Document → Document × List AuditRecord × List RetryOutcome
  | [], d => (d, [], [])
  | id :: rest, d =>
    match d.retry now id s with
    | .ok (d, record) =>
      let (d, records, outcomes) := retryEach now s rest d
      (d, record :: records, ⟨id, none⟩ :: outcomes)
    | .error e =>
      let (d, records, outcomes) := retryEach now s rest d
      (d, records, ⟨id, some e⟩ :: outcomes)

/-- Retry every entity that failed at a step. -/
def retryAll (now : Timestamp) (s : Step) (d : Document) :
    Document × List AuditRecord × List RetryOutcome :=
  retryEach now s (d.failedAt s) d

end Document
end Publishing
