import Publishing.Audit.Sinks
import Publishing.Store

/-
A store in a file.

A save writes the whole text into a temporary file beside the state file, and then
moves that over the state file.  So whoever reads the state file finds the text of
one save or of the other, and never a part of one.
-/

namespace Publishing

/-- One change of the file system. -/
inductive FileAction where
  | createDirectories (path : String)
  | create (path : String)
  | append (path : String) (bytes : ByteArray)
  | sync (path : String)
  | rename (path target : String)

namespace FileAction

/-- The path that a fault is reported at. -/
def subject : FileAction → String
  | createDirectories path | create path | append path _ | sync path => path
  | rename _ target => target

def ofExcept (fs : FileSystem) : Except FileFault FileSystem → Option FileFault × FileSystem
  | .ok fs => (none, fs)
  | .error fault => (some fault, fs)

def apply (fs : FileSystem) : FileAction → Option FileFault × FileSystem
  | createDirectories path => fs.createDirectories path
  | create path => ofExcept fs (fs.create path)
  | append path bytes => ofExcept fs (fs.append path bytes)
  | sync _ => (none, fs)
  | rename path target => ofExcept fs (fs.rename path target)

/-- Apply actions in turn up to the first that fails. -/
def applyAll (fs : FileSystem) : List FileAction → Except Error Unit × FileSystem
  | [] => (.ok (), fs)
  | a :: rest =>
    match a.apply fs with
    | (none, fs) => applyAll fs rest
    | (some fault, fs) => (.error (.file a.subject fault), fs)

end FileAction

structure FileStore where
  path : String
  readOnly : Bool

namespace FileStore

/-- The directory that the state file is in. -/
def directory (s : FileStore) : String :=
  match Path.parent? s.path with
  | some above => if above = "" then "." else above
  | none => "."

/-- The file that a save is written to. -/
def temporary (s : FileStore) : String :=
  Path.join s.directory ("." ++ (Path.fileName? s.path).getD "state.json" ++ ".tmp")

/-- The actions of a save. -/
def saveActions (s : FileStore) (text : String) : List FileAction :=
  [.createDirectories s.directory, .create s.temporary, .append s.temporary text.toUTF8,
    .sync s.temporary, .rename s.temporary s.path]

/-- The document in the file, or an empty one if there is no file. -/
def load (s : FileStore) (now : Timestamp) (fs : FileSystem) : Except Error Document :=
  if !fs.contains s.path then .ok (.empty now)
  else
    match fs.readText s.path with
    | .error fault => .error (.file s.path fault)
    | .ok text =>
      match Document.ofText text with
      | .error fault => .error (.corruptState s.path (.unparseable fault))
      | .ok d =>
        match d.check with
        | .error v => .error (.corruptState s.path (.violation v))
        | .ok () => .ok d

/-- Save a document, stamped with the time. -/
def save (s : FileStore) (now : Timestamp) (d : Document) (fs : FileSystem) :
    Except Error Unit × FileSystem :=
  if s.readOnly then (.error (.file s.path .readOnlyStore), fs)
  else
    match d.check with
    | .error v => (.error (.corruptState s.path (.unsavable v)), fs)
    | .ok () => FileAction.applyAll fs (s.saveActions { d with lastUpdated := now }.text)

def store {σ : Type} [HasFiles σ] (s : FileStore) : Store σ where
  load now w := s.load now (files w)
  save now d w :=
    let (result, fs) := s.save now d (files w)
    (result, setFiles fs w)

end FileStore
end Publishing
