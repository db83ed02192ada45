import Publishing.Json.Basic
import Publishing.Status
import Publishing.Step
import Publishing.Time.Timestamp

/-
What is kept of each step of an entity.
-/

namespace Publishing

/-- An event that changed a step, kept for good. -/
structure Checkpoint where
  operation : String
  timestamp : Timestamp
  data : Json
  deriving DecidableEq, Inhabited

/-- Executions of one step before its entity is blocked. -/
def maxAttempts : Nat := 3

/-- The largest count of attempts that a record holds. -/
def greatestAttempts : Nat := 4294967295

structure StepRecord where
  status : StepStatus
  attempts : Nat
  startedAt : Option Timestamp
  completedAt : Option Timestamp
  durationMs : Option Nat
  error : Option String
  checkpoints : List Checkpoint
  deriving DecidableEq, Inhabited

namespace StepRecord

def fresh : StepRecord := ⟨.pending, 0, none, none, none, none, []⟩

/-- Back to pending, without the results of an execution. -/
def reopen (r : StepRecord) : StepRecord :=
  { r with
    status := .pending
    startedAt := none
    completedAt := none
    durationMs := none
    error := none }

/-- As `reopen`, and the attempts are forgotten. -/
def clear (r : StepRecord) : StepRecord := { r.reopen with attempts := 0 }

def hasAttemptsLeft (r : StepRecord) : Bool := r.attempts < maxAttempts

def start (now : Timestamp) (r : StepRecord) : StepRecord :=
  { r with
    status := .running
    attempts := min (r.attempts + 1) greatestAttempts
    startedAt := some now
    completedAt := none
    durationMs := none
    error := none }

def succeed (now : Timestamp) (ms : Nat) (r : StepRecord) : StepRecord :=
  { r with status := .completed, completedAt := some now, durationMs := some ms, error := none }

def fail (now : Timestamp) (message : String) (ms : Nat) (r : StepRecord) : StepRecord :=
  { r with
    status := .failed
    completedAt := some now
    durationMs := some ms
    error := some message }

def note (c : Checkpoint) (r : StepRecord) : StepRecord :=
  { r with checkpoints := r.checkpoints ++ [c] }

@[simp] theorem status_note (c : Checkpoint) (r : StepRecord) : (r.note c).status = r.status := rfl
@[simp] theorem attempts_note (c : Checkpoint) (r : StepRecord) :
    (r.note c).attempts = r.attempts := rfl

end StepRecord

/-- One record for each step. -/
structure StepTable where
  ingested : StepRecord
  tested : StepRecord
  validated : StepRecord
  published : StepRecord
  finalized : StepRecord
  deriving DecidableEq, Inhabited

namespace StepTable

def replicate (r : StepRecord) : StepTable := ⟨r, r, r, r, r⟩

def get (t : StepTable) : Step → StepRecord
  | .ingested => t.ingested
  | .tested => t.tested
  | .validated => t.validated
  | .published => t.published
  | .finalized => t.finalized

/-- Change each record by what its step asks for. -/
def mapSteps (f : Step → StepRecord → StepRecord) (t : StepTable) : StepTable :=
  ⟨f .ingested t.ingested, f .tested t.tested, f .validated t.validated,
    f .published t.published, f .finalized t.finalized⟩

def modify (t : StepTable) (s : Step) (f : StepRecord → StepRecord) : StepTable :=
  t.mapSteps fun s' r => if s' = s then f r else r

theorem ext_get {t u : StepTable} (h : ∀ s, t.get s = u.get s) : t = u := by
  cases t; cases u
  simpa using ⟨h .ingested, h .tested, h .validated, h .published, h .finalized⟩

@[simp] theorem get_replicate (r : StepRecord) (s : Step) : (replicate r).get s = r := by
  cases s <;> rfl

@[simp] theorem get_mapSteps (f : Step → StepRecord → StepRecord) (t : StepTable) (s : Step) :
    (t.mapSteps f).get s = f s (t.get s) := by
  cases s <;> rfl

theorem get_modify (t : StepTable) (s s' : Step) (f : StepRecord → StepRecord) :
    (t.modify s f).get s' = if s' = s then f (t.get s') else t.get s' := by
  simp [modify]

end StepTable
end Publishing
