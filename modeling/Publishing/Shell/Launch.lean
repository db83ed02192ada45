import Publishing.Audit.Sinks
import Publishing.Execution.Command
import Publishing.Shell.Programs

/-
Commands that are run by this shell and its programs, on the files of the world.
-/

namespace Publishing
namespace Shell

/-- How deep commands may lie within each other, and how often they may be repeated. -/
def greatestFuel : Nat := 1000000

/-- How many commands a script may run before it counts as endless. -/
def greatestBudget : Nat := 200000

/-- The variables that a command finds in its environment. -/
def startVariables (fs : FileSystem) (l : Launch) : List (Bytes × Variable) :=
  let exported := [("HOME", fs.home), ("PATH", "/usr/local/bin:/usr/bin:/bin"),
    ("PWD", "/" ++ "/".intercalate fs.workingDirectory)] ++ l.environment
  exported.map fun v => (Bytes.ofString v.1, ⟨some (Bytes.ofString v.2), true, false⟩)

/-- The state in which a command is started.  Its input, output and errors are the
first streams. -/
def startState (fs : FileSystem) (l : Launch) : State where
  context := {
    process := Act.firstProcess
    shell := Act.firstProcess
    above := []
    job := none
    bindings := startVariables fs l
    functions := []
    aliases := []
    located := []
    name := Bytes.ofString l.command
    arguments := []
    options := []
    descriptors := [(0, 0), (1, 1), (2, 2)]
    traps := []
    readTo := 0
    status := 0
    outputStatus := 0
    line := 0
    running := none
    loops := 0
    skip := .nothing
    calls := 0
    hidden := []
    jobs := []
    mask := 18
    lastJob := none
    optionIndex := 1
    optionOffset := none
    deadlines := [] }
  files := fs
  streams := #[.ofBytes l.input, .empty, .empty]
  documents := #[]
  clock := 0
  fedAt := if l.input.size ≤ Act.pipeCapacity then some 0 else none
  limit := 1000000 * l.timeoutSecs
  budget := greatestBudget
  processes := 0
  heldUntil := 0
  holds := []
  modes := []
  signals := []
  broken := false
  unending := false

/-- Why the program that a command names cannot be started, if it cannot. -/
def programFault? (fs : FileSystem) (command : String) : Option FileFault :=
  let known (name : String) : Bool :=
    runnerPrograms.contains name || (programs.lookup name).isSome
  if command.contains '/' then
    if (programName? command).any known then none
    else match fs.stat command with
      | .error cause => some cause
      | .ok _ => some .denied
  else if known command then none
  else if command = "." ∨ command = ".." then some .denied
  else if FileSystem.longestName < command.utf8ByteSize then some .nameTooLong
  else some .missing

def hasNul (text : String) : Bool := text.toList.any (·.toNat = 0)

/-- The directory in which a command is started. -/
def directoryOf (fs : FileSystem) (l : Launch) : Except FileFault (List String) := do
  if (l.command :: l.workingDir.toList ++ l.args ++ l.environment.map (·.2)).any hasNul then
    throw .nulInArgument
  let place ← match l.workingDir with
    | none => pure fs.workingDirectory
    | some path =>
      match ← fs.find path with
      | (place, .directory _) => pure place
      | (_, .file _) => throw .notDirectory
  match programFault? { fs with workingDirectory := place } l.command with
  | some cause => throw cause
  | none => return place

/-- The end of a command, and when it was known. -/
def completionOf (r : Except Stop Nat) (s : State) : Completion × Nat :=
  let output (i : Nat) : ByteArray := (s.streams.getD i .null).written
  let start := s.fedAt.getD s.clock
  let ended := (s.holds.map (·.2)).foldl max s.clock
  let exited (status : Option Nat) : Completion × Nat :=
    if start + s.limit ≤ ended ∧ s.clock < ended then (.timedOut, start + s.limit)
    else (.exited status (output 1) (output 2), ended)
  match r with
  | .ok n => exited (some n)
  | .error (.killed _) => exited none
  | .error .exit | .error .fault => exited (some (s.context.status % 256))
  | .error .timedOut | .error .endless => (.timedOut, start + s.limit)

/-- Run a command to its end, or until its time is over. -/
def launch {σ : Type} [HasFiles σ] : Launcher σ := fun l w =>
  match directoryOf (files w) l with
  | .error fault => (.notStarted fault, 0, w)
  | .ok place =>
    if l.timeoutSecs = 0 then (.timedOut, 0, w)
    else
      let fs := { files w with workingDirectory := place }
      let program := Act.runProgram programs greatestFuel (Bytes.ofString l.command)
        (l.args.map Bytes.ofString) ⟨false, true⟩
      let (r, s) := StateT.run (ExceptT.run program) (startState fs l)
      let w := setFiles { s.files with workingDirectory := (files w).workingDirectory } w
      let (completion, time) := completionOf r s
      (completion, time / 1000, w)

end Shell
end Publishing
