import Publishing.Document.Validity
import Publishing.Files.Fault
import Publishing.Json.Decode

/-
Why an operation fails, and what is said of it.
-/

namespace Publishing

/-- What is wrong with a state file or with a document for it. -/
inductive Corruption where
  | unparseable (fault : Json.Fault)
  | violation (v : Violation)
  /-- The document to be saved is at fault, not the file. -/
  | unsavable (v : Violation)
  deriving DecidableEq

def Corruption.message : Corruption → String
  | .unparseable fault => "unparseable document: " ++ fault.message
  | .violation v => v.message
  | .unsavable v => "refusing to save invalid document: " ++ v.message

/-- Why an operation does not apply. -/
inductive Refusal where
  | retryTarget
  | unknownStep (text : String)
  | notFailed (found : StepStatus)
  | notRunning (action : String) (found : StepStatus)
  | blankId
  | alreadyTracked
  | badFilter (pattern : String)
  deriving DecidableEq

def Refusal.message : Refusal → String
  | .retryTarget => "retry needs exactly one of an entity id or all"
  | .unknownStep text => Step.unknownMessage text
  | .notFailed found => "retry requires a failed step, found " ++ found.name
  | .notRunning action found => action ++ " requires a running step, found " ++ found.name
  | .blankId => "entity id must not be empty"
  | .alreadyTracked => "entity is already tracked"
  | .badFilter pattern => "invalid filter '" ++ pattern ++ "'"

inductive ConfigFault where
  | unreadable (path : String)
  | zeroConcurrency
  | unknownStep (name : String)
  | blankCommand (name : String)
  deriving DecidableEq

def ConfigFault.message : ConfigFault → String
  | .unreadable path => "failed to parse " ++ path ++ ": <toml>"
  | .zeroConcurrency => "defaults.concurrency must be at least 1"
  | .unknownStep name => "[executors." ++ name ++ "]: " ++ Step.unknownMessage name
  | .blankCommand name => "[executors." ++ name ++ "]: command must not be empty"

inductive Error where
  | corruptState (path : String) (cause : Corruption)
  | stepFailed (id : String) (step : Step) (attempts : Nat) (message : String)
  | retryLimit (id : String) (step : Step) (attempts : Nat)
  /-- `step` is the text that the caller gave, which need not name a step. -/
  | invalidTransition (id step : String) (cause : Refusal)
  | stuckStep (id : String) (step : Step) (attempts : Nat)
  | notFound (id : String)
  | config (cause : ConfigFault)
  | notStarted (command : String) (cause : FileFault)
  | serialization (fault : Json.Fault)
  | file (path : String) (cause : FileFault)
  deriving DecidableEq

namespace Error

def message : Error → String
  | corruptState path cause => "corrupt state at " ++ Text.quote path ++ ": " ++ cause.message
  | stepFailed id step attempts message =>
    "step " ++ step.name ++ " failed for " ++ id ++ " (attempt " ++ toString attempts ++ "): " ++
      message
  | retryLimit id step attempts =>
    "retry limit exceeded for " ++ id ++ " at " ++ step.name ++ ": " ++ toString attempts ++ "/" ++
      toString maxAttempts ++ " attempts used"
  | invalidTransition id step cause =>
    "invalid transition for " ++ id ++ " at " ++ step ++ ": " ++ cause.message
  | stuckStep id step attempts =>
    "step " ++ step.name ++ " is stuck in running for " ++ id ++ " (attempt " ++
      toString attempts ++ "); resolve with complete or fail"
  | notFound id => "entity not found: " ++ id
  | config cause => "config error: " ++ cause.message
  | notStarted command cause =>
    "executor error: failed to spawn `" ++ command ++ "`: " ++ cause.message ++
      ". Is it installed?"
  | serialization fault => "serialization error: " ++ fault.message
  | file path cause => "I/O error at " ++ Text.quote path ++ ": " ++ cause.message

/-- Whether the whole operation ends, and not only the work on one entity. -/
def isFatal : Error → Bool
  | corruptState .. | file .. => true
  | _ => false

end Error
end Publishing
