import Publishing.Files.Fault
import Publishing.Files.Path
import Publishing.Files.Tree
import Publishing.Text.Utf8

/-
A file system: one tree, and the directory at which relative paths begin.
-/

namespace Publishing

structure FileSystem where
  root : FileNode
  /-- The names that lead to the working directory. -/
  workingDirectory : List String
  /-- The path of the home directory. -/
  home : String

namespace FileSystem

def longestName : Nat := 255

def longestPath : Nat := 4095

def nodeAt? (fs : FileSystem) (place : List String) : Option FileNode := fs.root.find? place

/-- The last part of a path. -/
inductive LastPart where
  | name (s : String)
  /-- A dot, or nothing after the root. -/
  | here
  | above
  deriving DecidableEq

/-- Where a path leads: to a part of a directory.  The part need not be there. -/
structure Destination where
  directory : List String
  last : LastPart
  /-- Whether slashes follow the part. -/
  slashed : Bool

def Destination.place (d : Destination) : List String :=
  match d.last with
  | .name s => d.directory ++ [s]
  | .here => d.directory
  | .above => d.directory.dropLast

/-- What a directory holds under a name, if anything. -/
def entry? (fs : FileSystem) (directory : List String) (name : String) :
    Except FileFault (Option FileNode) :=
  if longestName < name.utf8ByteSize then .error .nameTooLong
  else .ok (fs.nodeAt? (directory ++ [name]))

/-- Go on from a directory by a part that has to lead to a directory. -/
def enter (fs : FileSystem) (directory : List String) (part : String) :
    Except FileFault (List String) := do
  if part = "." then return directory
  else if part = ".." then return directory.dropLast
  else
    match ← fs.entry? directory part with
    | none => throw .missing
    | some (.file _) => throw .notDirectory
    | some (.directory _) => return directory ++ [part]

/-- Follow a path up to its last part. -/
def walk (fs : FileSystem) (path : String) : Except FileFault Destination := do
  if path.toList.any (·.toNat = 0) then throw .nulInName
  if path = "" then throw .missing
  if longestPath < path.utf8ByteSize then throw .nameTooLong
  let parts := ((Path.splitSlashes path.toList).filter (· ≠ [])).map String.ofList
  let start := if Path.isAbsolute path then [] else fs.workingDirectory
  let directory ← parts.dropLast.foldlM fs.enter start
  let last := match parts.getLast? with
    | none | some "." => LastPart.here
    | some ".." => .above
    | some s => .name s
  return ⟨directory, last, path.toList.getLast? = some '/'⟩

/-- What is at the end of a path that was followed, if anything. -/
def lookup (fs : FileSystem) (d : Destination) : Except FileFault (Option FileNode) :=
  match d.last with
  | .name s => fs.entry? d.directory s
  | _ => .ok (fs.nodeAt? d.place)

/-- The place that a path leads to, and what is there. -/
def find (fs : FileSystem) (path : String) : Except FileFault (List String × FileNode) := do
  let d ← fs.walk path
  match ← fs.lookup d with
  | none => throw .missing
  | some (.file content) =>
    if d.slashed then throw .notDirectory else return (d.place, .file content)
  | some (.directory es) => return (d.place, .directory es)

/-- What a path leads to. -/
def stat (fs : FileSystem) (path : String) : Except FileFault FileNode :=
  (fs.find path).map (·.2)

def contains (fs : FileSystem) (path : String) : Bool := (fs.stat path).isOk

def isDirectory (fs : FileSystem) (path : String) : Bool :=
  match fs.stat path with
  | .ok n => n.isDirectory
  | .error _ => false

def read (fs : FileSystem) (path : String) : Except FileFault ByteArray := do
  match ← fs.stat path with
  | .file content => return content
  | .directory _ => throw .isDirectory

def readText (fs : FileSystem) (path : String) : Except FileFault String := do
  match Text.decode? (← fs.read path) with
  | some text => return text
  | none => throw .notText

def putAt (fs : FileSystem) (place : List String) (n : FileNode) : FileSystem :=
  { fs with root := fs.root.put n place }

def createDirectory (fs : FileSystem) (path : String) : Except FileFault FileSystem := do
  let d ← fs.walk path
  match d.last, ← fs.lookup d with
  | .name _, none => return fs.putAt d.place .emptyDirectory
  | _, _ => throw .alreadyExists

/-- Make a directory and those that lead to it.  When it fails, some of them may
have been made. -/
def createDirectories (fs : FileSystem) (path : String) : Option FileFault × FileSystem :=
  go (path.length + 1) path fs
where
  go : Nat → String → FileSystem → Option FileFault × FileSystem
    | 0, _, fs => (some .missing, fs)
    | fuel + 1, path, fs =>
      if path = "" then (none, fs)
      else
        match fs.createDirectory path with
        | .ok fs => (none, fs)
        | .error .missing =>
          match Path.parent? path with
          | none => (some .missing, fs)
          | some above =>
            match go fuel above fs with
            | (some fault, fs) => (some fault, fs)
            | (none, fs) =>
              match fs.createDirectory path with
              | .ok fs => (none, fs)
              | .error fault => (if fs.isDirectory path then none else some fault, fs)
        | .error fault => (if fs.isDirectory path then none else some fault, fs)

/-- Where a file may be opened for writing, and what it holds there. -/
def writable (fs : FileSystem) (path : String) :
    Except FileFault (List String × Option ByteArray) := do
  let d ← fs.walk path
  match d.last, d.slashed, ← fs.lookup d with
  | .name _, false, none => return (d.place, none)
  | .name _, false, some (.file content) => return (d.place, some content)
  | _, _, _ => throw .isDirectory

/-- Open a file for writing, emptied if it was there. -/
def create (fs : FileSystem) (path : String) : Except FileFault FileSystem := do
  let (place, _) ← fs.writable path
  return fs.putAt place (.file .empty)

/-- Add bytes at the end of a file, which is made if it was not there. -/
def append (fs : FileSystem) (path : String) (bytes : ByteArray) : Except FileFault FileSystem := do
  let (place, content) ← fs.writable path
  return fs.putAt place (.file (content.getD .empty ++ bytes))

/-- Replace what a file holds. -/
def write (fs : FileSystem) (path : String) (bytes : ByteArray) : Except FileFault FileSystem := do
  let (place, _) ← fs.writable path
  return fs.putAt place (.file bytes)

/-- Move a file over what another path leads to. -/
def rename (fs : FileSystem) (path target : String) : Except FileFault FileSystem := do
  let source ← fs.walk path
  let aim ← fs.walk target
  match source.last, aim.last with
  | .name _, .name _ =>
    match ← fs.lookup source, ← fs.lookup aim with
    | none, _ => throw .missing
    | some (.directory _), _ => throw .notDirectory
    | some (.file content), there =>
      if source.slashed ∨ aim.slashed then throw .notDirectory
      match there with
      | some (.directory _) => throw .isDirectory
      | _ =>
        return if source.place = aim.place then fs
          else { fs with root := (fs.root.remove source.place).put (.file content) aim.place }
  | _, _ => throw .busy

/-- Take away a file. -/
def remove (fs : FileSystem) (path : String) : Except FileFault FileSystem := do
  let d ← fs.walk path
  match d.last, ← fs.lookup d with
  | .name _, none => throw .missing
  | .name _, some (.file _) =>
    if d.slashed then throw .notDirectory
    return { fs with root := fs.root.remove d.place }
  | _, _ => throw .isDirectory

/-- All files below the working directory. -/
def listing (fs : FileSystem) : List String :=
  match fs.nodeAt? fs.workingDirectory with
  | some n => FileNode.listingOfEntries "" n.entries
  | none => []

end FileSystem
end Publishing
