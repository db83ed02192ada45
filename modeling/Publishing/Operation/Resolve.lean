import Publishing.Operation.Report

/-
Completing or failing the running step of an entity by force.
-/

namespace Publishing
namespace Entity

/-- The running step, which an operation of this name needs. -/
def requireRunning (action : String) (e : Entity) : Except Error Step :=
  match e.runningStep? with
  | some s => .ok s
  | none =>
    .error (.invalidTransition e.id e.currentStep.name
      (.notRunning action (e.step e.currentStep).status))

/-- Milliseconds since the start of a step. -/
def elapsed (now : Timestamp) (s : Step) (e : Entity) : Nat :=
  match (e.step s).startedAt with
  | some start => now.millisSince start
  | none => 0

end Entity

namespace Document

/-- Change one entity, which leaves one audit record. -/
def changeOne (id : String) (e : Entity × AuditRecord) (message : String) (d : Document) :
    Change where
  document := d.replace id e.1
  records := [e.2]
  report := ⟨message, [id], []⟩

def forceComplete (now : Timestamp) (id : String) (d : Document) : Except Error Change := do
  let e ← d.get id
  let s ← e.requireRunning "complete"
  let ms := e.elapsed now s
  let changed := (e.completeStep now s ms).emit now s OperationName.forceCompleted
    (.object [("durationMs", .nat ms)])
  return d.changeOne id changed (id ++ " completed " ++ s.name)

def forceFail (now : Timestamp) (id reason : String) (d : Document) : Except Error Change := do
  let e ← d.get id
  let s ← e.requireRunning "fail"
  let attempts := (e.step s).attempts
  let changed := (e.failStep now s reason (e.elapsed now s)).emit now s OperationName.forceFailed
    (.ofMembers [("reason", .string reason), ("attempt", .nat attempts)])
  return d.changeOne id changed
    (id ++ " failed " ++ s.name ++ " (attempt " ++ toString attempts ++ "): " ++ reason)

end Document
end Publishing
