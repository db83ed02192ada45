import Publishing.Json.Basic
import Publishing.Step

/-
Executors, which do the work of a step for an entity.
-/

namespace Publishing

/-- What an executor is asked to do. -/
structure Call where
  entity : String
  metadata : Json
  step : Step
  deriving DecidableEq, Inhabited

inductive Outcome where
  | succeeded (metrics : Option Json)
  | failed (message : String)
  deriving DecidableEq, Inhabited

def Outcome.isSuccess : Outcome → Bool
  | succeeded _ => true
  | failed _ => false

/-- How a call ends. -/
inductive Ending where
  | returned (outcome : Outcome) (durationMs : Nat)
  /-- The call broke off and has no outcome. -/
  | aborted (report : String)
  deriving DecidableEq, Inhabited

namespace Ending

/-- A call that broke off counts as a failure. -/
def outcome : Ending → Outcome
  | returned o _ => o
  | aborted report => .failed ("executor task aborted: " ++ report)

def durationMs : Ending → Nat
  | returned _ ms => ms
  | aborted _ => 0

end Ending

/-- An executor may change the world `σ` while it works. -/
abbrev Executor (σ : Type) := Call → σ → Ending × σ

namespace Executor

variable {σ : Type}

/-- Succeeds without doing anything. -/
def passThrough : Executor σ := fun _ w => (.returned (.succeeded none) 0, w)

/-- Whether the ending depends on the call alone, and the world is left as it is. -/
def IsPure (x : Executor σ) : Prop := ∃ f : Call → Ending, ∀ c w, x c w = (f c, w)

end Executor
end Publishing
