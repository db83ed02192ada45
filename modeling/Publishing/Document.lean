import Publishing.Entity
import Publishing.Keyed
import Publishing.RunId

/-
The document that is kept on disk: every tracked entity, and the history of the
batches.
-/

namespace Publishing

/-- Summary of the batch of one step in one run. -/
structure Batch where
  step : Step
  timestamp : Timestamp
  processed : Nat
  succeeded : Nat
  failed : Nat
  durationMs : Nat
  runId : Option RunId
  deriving DecidableEq, Inhabited

structure GlobalState where
  /-- The step whose batch is at work. -/
  currentStep : Option Step
  stepHistory : List Batch
  deriving DecidableEq, Inhabited

def GlobalState.idle : GlobalState := ⟨none, []⟩

structure Document where
  version : String
  lastUpdated : Timestamp
  entities : Keyed Entity
  global : GlobalState
  deriving DecidableEq, Inhabited

namespace Document

/-- The version of newly made documents. -/
def currentVersion : String := "1.0.0"

def empty (now : Timestamp) : Document := ⟨currentVersion, now, .empty, .idle⟩

def find? (d : Document) (id : String) : Option Entity := d.entities.find? id

def contains (d : Document) (id : String) : Bool := d.entities.contains id

/-- The entities in the order of their keys. -/
def all (d : Document) : List Entity := d.entities.values

def insert (d : Document) (id : String) (e : Entity) : Document :=
  { d with entities := d.entities.insert id e }

/-- Put `e` in the place of the entity under `id`, if there is one. -/
def replace (d : Document) (id : String) (e : Entity) : Document :=
  { d with entities := d.entities.modify id fun _ => e }

/-- The ids of the entities that wait at `s`. -/
def pendingAt (d : Document) (s : Step) : List String :=
  (d.all.filter (·.isPendingAt s)).map (·.id)

def addBatch (d : Document) (b : Batch) : Document :=
  { d with global := { d.global with stepHistory := d.global.stepHistory ++ [b] } }

def setCurrentStep (d : Document) (s : Option Step) : Document :=
  { d with global := { d.global with currentStep := s } }

end Document
end Publishing
