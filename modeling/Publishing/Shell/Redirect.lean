import Publishing.Shell.Builtins

/-
How file descriptors are led elsewhere.
-/

namespace Publishing
namespace Shell

namespace Act

/-- The stream that a device is. -/
def device? (path : String) : Act (Option Stream) := do
  match path with
  | "/dev/null" | "/dev/tty" => return some .null
  | "/dev/zero" | "/dev/random" | "/dev/urandom" => return some .zero
  | "/dev/full" => return some .full
  | _ => return none

/-- The descriptor that a path names. -/
def descriptorOf? (path : String) : Option Nat :=
  match path with
  | "/dev/stdin" => some 0
  | "/dev/stdout" => some 1
  | "/dev/stderr" => some 2
  | path =>
    if path.startsWith "/dev/fd/" then Bytes.natural? (path.toList.drop 8) else none

/-- Why a file cannot be opened or made, as the shell says it. -/
def openReason (creating : Bool) (cause : FileFault) : String :=
  match cause with
  | .missing | .notDirectory => if creating then "Directory nonexistent" else "No such file"
  | cause => cause.reason

def cannotOpen {α : Type} (creating : Bool) (path : Bytes) (cause : FileFault) : Act α :=
  fault ((if creating then "cannot create " else "cannot open ").toList ++ path ++ ": ".toList ++
    (openReason creating cause).toList)

/-- Open a file, or report why it cannot be opened. -/
def openFile (kind : RedirectionKind) (path : Bytes) : Act Stream := do
  let text := Bytes.toText path
  match ← device? text with
  | some t => return t
  | none =>
    let s ← get
    match kind with
    | .read =>
      match s.files.find text with
      | .ok (place, _) => return .file place 0 false true false
      | .error cause => cannotOpen false path cause
    | kind =>
      let empties : Bool := match kind with
        | .write _ => true
        | _ => false
      if kind = .write false ∧ (← hasOption 'C') ∧ (s.files.stat text).toOption.any (!·.isDirectory)
        then cannotOpen true path .alreadyExists
      match s.files.writable text with
      | .error cause => cannotOpen true path cause
      | .ok (place, content) =>
        if empties ∨ content.isNone then
          set { s with files := s.files.putAt place (.file .empty) }
        return .file place 0 (kind = .append) (kind = .readWrite) true

/-- Lead a descriptor where a redirection says. -/
def redirect (fd : Nat) (kind : RedirectionKind) (target : Bytes) : Act Unit := do
  match kind with
  | .document _ => lead fd (some (← addStream (.ofBytes (Bytes.toByteArray target))))
  | .duplicate =>
    if target = ['-'] then lead fd none
    else
      let source := Text.numberOf target
      if source ≠ fd then
        match ← streamOf? source with
        | some i => lead fd (some i)
        | none => fault (Bytes.decimal source ++ ": Bad file descriptor".toList)
  | kind =>
    match descriptorOf? (Bytes.toText target) with
    | some source =>
      match ← streamOf? source with
      | some i => lead fd (some i)
      | none => cannotOpen (kind ≠ .read) target .missing
    | none => lead fd (some (← addStream (← openFile kind target)))

/-- A redirection whose target has been expanded. -/
abbrev Redirected := Nat × RedirectionKind × Bytes

/-- Lead descriptors elsewhere, and tell whether they could be.  The text of a document is
found when its turn comes. -/
def redirectAll (documentText : Nat → Act Bytes) (rs : List Redirected) : Act Bool := do
  try
    for (fd, kind, target) in rs do
      match kind with
      | .document n => redirect fd kind (← documentText n)
      | _ => redirect fd kind target
    return true
  catch
    | .fault => return false
    | s => stop s

/-- The descriptors that redirections change, as they are now. -/
def savedDescriptors (rs : List Redirected) : Act (List (Nat × Option Nat)) := do
  let descriptors := (← context).descriptors
  return rs.map fun r => (r.1, descriptors.lookup r.1)

def restoreDescriptors (saved : List (Nat × Option Nat)) : Act Unit := do
  for (fd, index) in saved do lead fd index

end Act
end Shell
end Publishing
