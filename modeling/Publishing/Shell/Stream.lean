import Publishing.Files.System
import Publishing.Shell.Bytes

/-
What file descriptors lead to.
-/

namespace Publishing
namespace Shell

/-- Bytes that a job has written, and when. -/
structure LateWrite where
  time : Nat
  job : Nat
  bytes : ByteArray

inductive Stream where
  /-- Bytes that were written, how many of them were read, and those of jobs.  What
  writes into an endless one never ends. -/
  | pipe (content : ByteArray) (taken : Nat) (late : List LateWrite) (endless : Bool)
  | file (place : List String) (offset : Nat) (appends readable writable : Bool)
  | null
  | zero
  | full

instance : Inhabited Stream := ⟨.null⟩

namespace Stream

def ofBytes (bytes : ByteArray) : Stream := .pipe bytes 0 [] false

def empty : Stream := ofBytes .empty

/-- The pipe with what jobs have written at its end, in the order of time. -/
def settled : Stream → Stream
  | .pipe content taken (w :: late) endless =>
    let late := (w :: late).reverse.mergeSort fun a b => a.time ≤ b.time
    .pipe (late.foldl (fun content w => content ++ w.bytes) content) taken [] endless
  | s => s

/-- The bytes that wait to be read. -/
def waiting : Stream → ByteArray
  | .pipe content taken _ _ => content.extract taken content.size
  | _ => .empty

/-- Everything that was written. -/
def written (s : Stream) : ByteArray :=
  match s.settled with
  | .pipe content _ _ _ => content
  | _ => .empty

/-- Forget what a job has written after a time. -/
def cut (job time : Nat) : Stream → Stream
  | .pipe content taken late endless =>
    .pipe content taken (late.filter fun w => w.job ≠ job || w.time ≤ time) endless
  | s => s

end Stream
end Shell
end Publishing
