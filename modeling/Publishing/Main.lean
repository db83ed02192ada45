import Publishing.CommandLine.Answer
import Std.Time.DateTime.Timestamp

/-
The program: it reads the files that a command line may be about, has the command
line answered, and writes back the files that have changed.
-/

namespace Publishing
namespace Program

/-- What a command line is answered in. -/
structure Surface where
  files : FileSystem
  now : Timestamp

instance : HasFiles Surface :=
  ⟨Surface.files, fun fs s => { s with files := fs }, fun _ _ => rfl⟩

/-- How deep directories are looked into. -/
def depth : Nat := 64

/-- What is at a path.  What cannot be read is left out. -/
def readNode (depth : Nat) (path : String) : IO (Option FileNode) := do
  match depth with
  | 0 => return none
  | depth + 1 =>
    try
      let place ← IO.FS.realPath path
      if ← place.isDir then
        let mut entries := []
        for e in ← place.readDir do
          if let some n ← readNode depth e.path.toString then
            entries := entries ++ [(e.fileName, n)]
        return some (.directory entries)
      else return some (.file (← IO.FS.readBinFile place))
    catch _ => return none

/-- Put a node into a tree, with the directories that lead to it. -/
def plant (root : FileNode) (names : List String) (n : FileNode) : FileNode :=
  let above := (List.range names.length).map names.take
  (above.foldl (fun root place =>
    if (root.find? place).isSome then root else root.put .emptyDirectory place) root).put n names

/-- Read what is at a path, if there is anything, into a file system. -/
def takeIn (depth : Nat) (fs : FileSystem) (path : String) : IO FileSystem := do
  match ← readNode depth path with
  | none => return fs
  | some n =>
    let place := Path.names (← IO.FS.realPath path).toString
    if (fs.nodeAt? place).isSome then return fs
    return { fs with root := plant fs.root place n }

/-- Read the directories of paths that may lead out of the working directory. -/
def takeInAbove (fs : FileSystem) (paths : List String) : IO FileSystem :=
  (paths.filter fun p => Path.isAbsolute p || (Path.names p).contains "..").foldlM (fun fs p =>
    takeIn 2 fs ((Path.parent? p).getD p)) fs

/-- Replace a file in one move. -/
def writeFile (path : String) (content : ByteArray) : IO Unit := do
  let temporary := path ++ ".new"
  IO.FS.writeBinFile temporary content
  IO.FS.rename temporary path

/-- Write what has changed at a path. -/
def writeBack (depth : Nat) (path : String) (before after : Option FileNode) : IO Unit := do
  match depth with
  | 0 => return
  | depth + 1 =>
    match before, after with
    | some (.file old), some (.file new) => if old.data ≠ new.data then writeFile path new
    | _, some (.file new) => writeFile path new
    | before, some (.directory entries) =>
      let old := (before.map (·.entries)).getD []
      if before.isNone then IO.FS.createDirAll path
      for (name, n) in entries do
        writeBack depth (path ++ "/" ++ name) (old.lookup name) (some n)
      for (name, n) in old do
        if (entries.lookup name).isNone then
          writeBack depth (path ++ "/" ++ name) (some n) none
    | some (.file _), none => IO.FS.removeFile path
    | some (.directory _), none => IO.FS.removeDirAll path
    | none, none => return

/-- The paths that a command line or its configuration names. -/
def namedPaths (args : List String) : List String :=
  args ++ args.filterMap fun a =>
    match a.splitOn "=" with
    | _ :: value => some ("=".intercalate value)
    | [] => none

def configuredPaths (environment : List (String × String)) (args : List String)
    (fs : FileSystem) : List String :=
  match CommandLine.Request.ofArguments environment args with
  | .ok r =>
    match r.config? fs with
    | .ok c => c.defaults.statePath :: c.audit.jsonlPath.toList
    | .error _ => []
  | .error _ => []

/-- The values of the variables that are set. -/
def readVariables (names : List String) : IO (List (String × String)) :=
  names.filterMapM fun name => return (← IO.getEnv name).map fun value => (name, value)

/-- The time of day, and a number out of 80 random bits. -/
def readClock : IO (Timestamp × RunId) := do
  let ns : Int := (← Std.Time.Timestamp.now).toNanosecondsSinceUnixEpoch.val
  let random := (← IO.getRandomBytes 10).toList.foldl (fun n b => n * 256 + b.toNat) 0
  return (((Timestamp.ofParts? (ns / 1000000000) (ns % 1000000000).toNat)).getD default,
    RunId.ofInstant (ns / 1000000).toNat random)

/-- Answer a command line, and give the exit code. -/
def run (args : List String) : IO UInt32 := do
  let environment ← readVariables ["PUBFLOW_STATE", "PUBFLOW_CONFIG"]
  let here := (← IO.currentDir).toString
  let home := (← IO.getEnv "HOME").getD "/"
  let (now, runId) ← readClock
  let fs : FileSystem := ⟨.emptyDirectory, Path.names here, home⟩
  let fs ← takeIn depth fs here
  let fs ← takeIn depth fs (Config.directory fs)
  let fs ← takeInAbove fs (namedPaths args ++ environment.map (·.2))
  let fs ← takeInAbove fs (configuredPaths environment args fs)
  let x : CommandLine.Surroundings Surface := ⟨Surface.now, runId, .accepting fun _ s => s⟩
  let (answer, s) := CommandLine.answer environment args x ⟨fs, now⟩
  writeBack (depth + depth) "" (some fs.root) (some s.files.root)
  IO.print answer.output
  match answer.ending with
  | .failed f => IO.eprintln ("Error: " ++ f.message)
  | .stopped .usage => IO.eprint CommandLine.usageText
  | _ => pure ()
  return answer.ending.exitCode.toUInt32

end Program
end Publishing

def main (args : List String) : IO UInt32 := Publishing.Program.run args
