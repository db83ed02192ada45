import Publishing.Audit.Emitter
import Publishing.Retry
import Publishing.Store

/-
What an operation does to a document, what it reports, and how it is committed.

An operation is a pure change of the document.  Only when it has succeeded, and has
changed an entity, is the document saved; the audit records go out after that.
-/

namespace Publishing

/-- Why an operation left an entity alone. -/
inductive SkipReason where
  | refused (e : Error)
  | running (s : Step)
  /-- The step that failed lies before the one that the operation is about. -/
  | failedBefore (failed s : Step)
  | alreadyTracked
  deriving DecidableEq

def SkipReason.message : SkipReason → String
  | .refused e => e.message
  | .running s => "step " ++ s.name ++ " is running"
  | .failedBefore failed s =>
    "step " ++ failed.name ++ " failed before " ++ s.name ++ ", retry or reset from " ++ failed.name
  | .alreadyTracked => "already tracked"

structure Skipped where
  id : String
  reason : SkipReason
  deriving DecidableEq

structure Report where
  message : String
  /-- The ids of the entities that were changed. -/
  entities : List String
  skipped : List Skipped
  deriving DecidableEq

structure Change where
  document : Document
  records : List AuditRecord
  report : Report

/-- What a change makes of an entity. -/
inductive Verdict where
  | untouched
  | skipped (reason : SkipReason)
  | changed (e : Entity) (records : List AuditRecord)

namespace Verdict

def entity (e : Entity) : Verdict → Entity
  | changed e' _ => e'
  | untouched | skipped _ => e

def records : Verdict → List AuditRecord
  | changed _ rs => rs
  | untouched | skipped _ => []

def isChanged : Verdict → Bool
  | changed _ _ => true
  | untouched | skipped _ => false

def skipReason? : Verdict → Option SkipReason
  | skipped reason => some reason
  | untouched | changed _ _ => none

end Verdict

namespace Document

/-- Change every entity by itself. -/
def sweep (f : Entity → Verdict) (message : Nat → String) (d : Document) : Change :=
  let ids := (d.all.filter fun e => (f e).isChanged).map (·.id)
  { document := { d with entities := d.entities.map fun _ e => (f e).entity e }
    records := d.all.flatMap fun e => (f e).records
    report :=
      { message := message ids.length
        entities := ids
        skipped := d.all.filterMap fun e => (f e).skipReason?.map (Skipped.mk e.id) } }

end Document

/-- Save a change and let its records go, or leave everything as it was if nothing
was changed. -/
def Change.commit {σ : Type} (c : Change) (store : Store σ) (now : Timestamp) (m : Emitter σ)
    (w : σ) : Except Error Report × Emitter σ × σ :=
  let m := m.enqueue c.records
  if c.report.entities.isEmpty then (.ok c.report, m.discard, w)
  else
    match store.save now c.document w with
    | (.error e, w) => (.error e, m.discard, w)
    | (.ok (), w) =>
      let (m, w) := m.flush w
      (.ok c.report, m, w)

end Publishing
