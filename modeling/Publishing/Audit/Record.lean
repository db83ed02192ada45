import Publishing.Document.Format
import Publishing.Error

/-
Checkpoints and the audit records that announce them.

A change of a step leaves a checkpoint in the record of the step, and with it comes
an audit record with the same operation, time and data for whoever listens.
-/

namespace Publishing

/-! The names of the operations that checkpoints record. -/

namespace OperationName

def registered := "registered"
def migrated := "migrated"
def stepStarted := "step-started"
def stepCompleted := "step-completed"
def stepFailed := "step-failed"
def stepSkipped := "step-skipped"
def stepReset := "step-reset"
def retryRequested := "retry-requested"
def attemptsExhausted := "attempts-exhausted"
def stuckDetected := "stuck-detected"
def forceCompleted := "force-completed"
def forceFailed := "force-failed"
def batchCompleted := "batch-completed"

end OperationName

structure AuditRecord where
  /-- Nothing for a record about a whole batch. -/
  entity : Option String
  step : Step
  operation : String
  timestamp : Timestamp
  data : Json
  deriving DecidableEq, Inhabited

namespace AuditRecord

def toJson (r : AuditRecord) : Json :=
  .object (Json.whenSome "entityId" .string r.entity ++
    [("step", r.step.toJson), ("operation", .string r.operation),
      ("timestamp", r.timestamp.toJson), ("data", r.data)])

/-- The record as a line of a log file. -/
def line (r : AuditRecord) : String := r.toJson.compact ++ "\n"

/-- The record of a checkpoint. -/
def ofCheckpoint (id : String) (s : Step) (c : Checkpoint) : AuditRecord :=
  ⟨some id, s, c.operation, c.timestamp, c.data⟩

/-- The record of a batch. -/
def ofBatch (b : Batch) : AuditRecord where
  entity := none
  step := b.step
  operation := OperationName.batchCompleted
  timestamp := b.timestamp
  data := .ofMembers
    [("total", .nat b.processed), ("succeeded", .nat b.succeeded), ("failed", .nat b.failed),
      ("durationMs", .nat b.durationMs), ("runId", .optional RunId.toJson b.runId)]

end AuditRecord

namespace Entity

/-- Leave a checkpoint at a step. -/
def emit (now : Timestamp) (s : Step) (operation : String) (data : Json) (e : Entity) :
    Entity × AuditRecord :=
  let c : Checkpoint := ⟨operation, now, data⟩
  (e.modifyStep s (.note c), .ofCheckpoint e.id s c)

end Entity

namespace Document

def recordBatch (b : Batch) (d : Document) : Document × AuditRecord :=
  (d.addBatch b, .ofBatch b)

end Document
end Publishing
