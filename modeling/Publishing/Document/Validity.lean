import Publishing.Document
import Publishing.Text.Digit

/-
The invariants that every document has, checked in one pass that ends at the first
violation.
-/

namespace Publishing

inductive Violation where
  | version (text : String)
  /-- An entity stored under another key than its id. -/
  | misfiled (key id : String)
  /-- A step is done although an earlier one is not. -/
  | outOfOrder (id : String) (step : Step) (status : StepStatus)
  | tooManyAttempts (id : String) (step : Step) (attempts : Nat)
  | severalRunning (id : String) (count : Nat)
  | currentStep (id : String) (current expected : Step)
  deriving DecidableEq, Repr

def Violation.message : Violation → String
  | .version text => "version '" ++ text ++ "' is not a semver string"
  | .misfiled key id => "entity stored under '" ++ key ++ "' has id '" ++ id ++ "'"
  | .outOfOrder id step status =>
    id ++ ": step " ++ step.name ++ " is " ++ status.name ++ " after an unfinished earlier step"
  | .tooManyAttempts id step attempts =>
    id ++ ": step " ++ step.name ++ " has " ++ toString attempts ++ " attempts (max " ++
      toString maxAttempts ++ ")"
  | .severalRunning id count => id ++ ": " ++ toString count ++ " steps are running"
  | .currentStep id current expected =>
    id ++ ": current step is " ++ current.name ++ " but first unfinished step is " ++ expected.name

namespace Entity

/-- The first violation among these steps.  `opened` tells whether a step before
them is not done. -/
def scanSteps (e : Entity) (opened : Bool) : List Step → Except Violation Unit
  | [] => .ok ()
  | s :: rest => do
    let r := e.step s
    if r.status.isDone && opened then throw (.outOfOrder e.id s r.status)
    if maxAttempts < r.attempts then throw (.tooManyAttempts e.id s r.attempts)
    e.scanSteps (opened || !r.status.isDone) rest

def runningCount (e : Entity) : Nat := Step.all.countP fun s => (e.step s).status = .running

def check (e : Entity) : Except Violation Unit := do
  e.scanSteps false Step.all
  if 1 < e.runningCount then throw (.severalRunning e.id e.runningCount)
  if e.currentStep ≠ e.frontier then throw (.currentStep e.id e.currentStep e.frontier)

end Entity

namespace Document

/-- The parts of a text between the characters that `p` holds of. -/
def splitAt (p : Char → Bool) : List Char → List (List Char)
  | [] => [[]]
  | c :: rest =>
    match splitAt p rest with
    | [] => [[c]]
    | part :: parts => if p c then [] :: part :: parts else (c :: part) :: parts

/-- Three groups of digits between points, and after a hyphen or a plus sign
anything. -/
def isVersion (text : String) : Bool :=
  let core := text.toList.takeWhile fun c => c ≠ '-' && c ≠ '+'
  let parts := splitAt (· = '.') core
  parts.length = 3 && parts.all fun p => !p.isEmpty && p.all Text.isDigit

def checkEntries : List (String × Entity) → Except Violation Unit
  | [] => .ok ()
  | (key, e) :: rest => do
    if key ≠ e.id then throw (.misfiled key e.id)
    e.check
    checkEntries rest

def check (d : Document) : Except Violation Unit := do
  if !isVersion d.version then throw (.version d.version)
  checkEntries d.entities.entries

def isValid (d : Document) : Bool :=
  match d.check with
  | .ok _ => true
  | .error _ => false

example : isVersion "1.0.0-rc.1" = true := by decide +kernel
example : isVersion "1.0" = false := by decide +kernel

end Document
end Publishing
