import Publishing.Config
import Publishing.Execution.Executor

/-
Commands as executors.

A command gets the metadata of the entity as JSON on its input, and the id of the
entity and the name of the step in its environment.  If it ends with the status 0 it
has succeeded, and an object that it has printed holds its metrics.  Otherwise the
step fails with the end of what it wrote to its error output.
-/

namespace Publishing

/-- A command about to be started. -/
structure Launch where
  command : String
  args : List String
  workingDir : Option String
  environment : List (String × String)
  input : ByteArray
  timeoutSecs : Nat

/-- What comes of a started command. -/
inductive Completion where
  | notStarted (cause : FileFault)
  | timedOut
  /-- Without a status when a signal ended it. -/
  | exited (status : Option Nat) (stdout stderr : ByteArray)

/-- Starts commands in the world `σ`, and tells how many milliseconds they take. -/
abbrev Launcher (σ : Type) := Launch → σ → Completion × Nat × σ

namespace CommandSpec

/-- The most characters of the error output that a message keeps. -/
def greatestDetail : Nat := 2000

/-- The last `count` characters. -/
def tail (count : Nat) (s : String) : String :=
  let cs := s.toList
  String.ofList (cs.drop (cs.length - count))

def launch (spec : CommandSpec) (c : Call) : Launch where
  command := spec.command
  args := spec.args
  workingDir := spec.workingDir
  environment := [("PUBFLOW_ENTITY_ID", c.entity), ("PUBFLOW_STEP", c.step.name)]
  input := c.metadata.compact.toUTF8
  timeoutSecs := spec.timeoutSecs

/-- The object that a command has printed, if it is one. -/
def metrics? (stdout : ByteArray) : Option Json :=
  (Json.parse? (Text.trim (Text.decodeLossy stdout))).filter Json.isObject

def outcome (spec : CommandSpec) : Completion → Outcome
  | .notStarted cause => .failed (Error.notStarted spec.command cause).message
  | .timedOut =>
    .failed ("`" ++ spec.command ++ "` timed out after " ++ toString spec.timeoutSecs ++ "s")
  | .exited status stdout stderr =>
    if status = some 0 then .succeeded (metrics? stdout)
    else
      let detail := tail greatestDetail (Text.trim (Text.decodeLossy stderr))
      if detail = "" then
        .failed ("`" ++ spec.command ++ "` exited with status " ++
          (status.map toString).getD "signal")
      else .failed detail

def executor {σ : Type} (launcher : Launcher σ) (spec : CommandSpec) : Executor σ := fun c w =>
  let (completion, ms, w) := launcher (spec.launch c) w
  (.returned (spec.outcome completion) ms, w)

end CommandSpec

namespace RunConfig

/-- Each step has its own command, and the steps without one pass through. -/
def executor {σ : Type} (launcher : Launcher σ) (c : RunConfig) : Executor σ := fun call w =>
  match c.executors call.step with
  | some spec => spec.executor launcher call w
  | none => Executor.passThrough call w

end RunConfig
end Publishing
