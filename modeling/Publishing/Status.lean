/-
The status of one step of an entity, and the coarse status of the entity itself.
-/

namespace Publishing

inductive StepStatus where
  | pending
  | running
  | completed
  | failed
  | skipped
  deriving DecidableEq, Repr, Inhabited

namespace StepStatus

def all : List StepStatus := [pending, running, completed, failed, skipped]

def name : StepStatus → String
  | pending => "pending"
  | running => "running"
  | completed => "completed"
  | failed => "failed"
  | skipped => "skipped"

/-- A step that is done does not hold up the steps after it. -/
def isDone : StepStatus → Bool
  | completed | skipped => true
  | pending | running | failed => false

theorem mem_all (s : StepStatus) : s ∈ all := by cases s <;> decide

theorem isDone_iff {s : StepStatus} : s.isDone ↔ s = completed ∨ s = skipped := by
  cases s <;> decide

end StepStatus

inductive EntityStatus where
  | draft
  | inProgress
  | ready
  | blocked
  | completed
  | failed
  deriving DecidableEq, Repr, Inhabited

namespace EntityStatus

/-- In the order in which a summary lists them. -/
def all : List EntityStatus := [draft, inProgress, ready, blocked, completed, failed]

def name : EntityStatus → String
  | draft => "draft"
  | inProgress => "in-progress"
  | ready => "ready"
  | blocked => "blocked"
  | completed => "completed"
  | failed => "failed"

/-- Whether a run may work on the entity. -/
def isSchedulable : EntityStatus → Bool
  | draft | inProgress | ready => true
  | blocked | completed | failed => false

/-- Whether the entity waits for an operator because of a failure. -/
def needsAttention : EntityStatus → Bool
  | failed | blocked => true
  | draft | inProgress | ready | completed => false

theorem mem_all (s : EntityStatus) : s ∈ all := by cases s <;> decide

theorem not_schedulable_of_needsAttention {s : EntityStatus} (h : s.needsAttention) :
    s.isSchedulable = false := by
  cases s <;> first | rfl | exact absurd h (by decide)

end EntityStatus
end Publishing
