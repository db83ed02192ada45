import Publishing.Document

/-
What an operator can ask about a document.
-/

namespace Publishing

structure Summary where
  total : Nat
  /-- Counts of the statuses that occur. -/
  byStatus : List (EntityStatus × Nat)
  /-- Counts of the current steps that occur among entities not completed. -/
  byStep : List (Step × Nat)
  /-- The ids of the entities with a running step. -/
  stuck : List String
  /-- The failed and the blocked entities. -/
  attention : List (String × Step × EntityStatus)
  lastBatch : Option Batch
  deriving DecidableEq

/-- The entities that a run would go on with, and those that it would not. -/
structure Outlook where
  ready : List (String × Step)
  stuck : List String
  deriving DecidableEq

namespace Document

/-- The ids of the entities with a running step. -/
def stuck (d : Document) : List String :=
  (d.all.filter (·.runningStep?.isSome)).map (·.id)

def counts {α : Type} [DecidableEq α] (choices values : List α) : List (α × Nat) :=
  (choices.map fun a => (a, values.count a)).filter fun c => 0 < c.2

def summary (d : Document) : Summary where
  total := d.entities.size
  byStatus := counts EntityStatus.all (d.all.map (·.status))
  byStep := counts Step.all ((d.all.filter (·.status ≠ .completed)).map (·.currentStep))
  stuck := d.stuck
  attention :=
    (d.all.filter (·.status.needsAttention)).map fun e => (e.id, e.currentStep, e.status)
  lastBatch := d.global.stepHistory.getLast?

def outlook (d : Document) : Outlook where
  ready := (d.all.filter fun e => e.isPendingAt e.currentStep).map fun e => (e.id, e.currentStep)
  stuck := d.stuck

end Document

def Outlook.message (o : Outlook) : String :=
  toString o.ready.length ++ " entities ready to continue" ++
    (if o.stuck.isEmpty then ""
      else "; " ++ toString o.stuck.length ++ " stuck, resolve with complete or fail")

end Publishing
