import Publishing.Audit.Emitter
import Publishing.Files.System

/-
The sinks that records can be sent to.
-/

namespace Publishing

/-- A world that has a file system. -/
class HasFiles (σ : Type) where
  files : σ → FileSystem
  setFiles : FileSystem → σ → σ
  files_setFiles : ∀ fs w, files (setFiles fs w) = fs

instance : HasFiles FileSystem := ⟨id, fun fs _ => fs, fun _ _ => rfl⟩

export HasFiles (files setFiles)

namespace Sink

variable {σ : Type}

/-- A sink that takes everything. -/
def accepting (put : AuditRecord → σ → σ) : Sink σ := fun r w => (.ok (), put r w)

/-- A sink that takes nothing. -/
def failing (e : Error) : Sink σ := fun _ w => (.error e, w)

/-- Each record becomes a line at the end of a file. -/
def lines [HasFiles σ] (path : String) : Sink σ := fun r w =>
  let above := (Path.parent? path).getD ""
  match (if above = "" then (none, files w) else (files w).createDirectories above) with
  | (some fault, fs) => (.error (.file above fault), setFiles fs w)
  | (none, fs) =>
    match fs.append path r.line.toUTF8 with
    | .ok fs => (.ok (), setFiles fs w)
    | .error fault => (.error (.file path fault), setFiles fs w)

end Sink
end Publishing
