import Publishing.Operation.Report
import Publishing.Pattern.Glob

/-
Resets, which put a step and every later one back to pending and forget their
attempts.
-/

namespace Publishing

structure ResetFilter where
  pattern : Option String
  /-- Only entities that are failed or blocked. -/
  onlyFailed : Bool
  deriving DecidableEq

namespace Entity

/-- Whether a step from `s` on holds something that a reset would clear. -/
def needsReset (s : Step) (e : Entity) : Bool :=
  s.onward.any fun s' =>
    let r := e.step s'
    r.status ≠ .pending || 0 < r.attempts || r.error.isSome

/-- The step before `s` that the entity failed at, if it is its first open one. -/
def failedBefore? (s : Step) (e : Entity) : Option Step :=
  e.firstOpenStep?.filter fun s' => s' < s && (e.step s').status = .failed

def reset (now : Timestamp) (s : Step) (e : Entity) : Entity × AuditRecord :=
  let previous := e.step s
  let data := .ofMembers
    [("previousStatus", previous.status.toJson), ("previousAttempts", .nat previous.attempts)]
  let cleared :=
    { e with steps := e.steps.mapSteps fun s' r => if s ≤ s' then r.clear else r }
  (cleared.settle.touch now).emit now s OperationName.stepReset data

/-- What a reset makes of an entity that its filter selects. -/
def resetVerdict (now : Timestamp) (s : Step) (e : Entity) : Verdict :=
  match e.failedBefore? s with
  | some failed => .skipped (.failedBefore failed s)
  | none =>
    if !e.needsReset s then .untouched
    else
      match e.runningStep?.filter (· < s) with
      | some running => .skipped (.running running)
      | none => let (e, record) := e.reset now s; .changed e [record]

end Entity

/-- Whether a filter selects an entity. -/
def ResetFilter.selects (regex : Option Regex) (onlyFailed : Bool) (e : Entity) : Bool :=
  (match regex with
    | some r => r.isMatch e.id
    | none => true) &&
    (!onlyFailed || e.status.needsAttention)

namespace Document

def reset (now : Timestamp) (s : Step) (regex : Option Regex) (onlyFailed : Bool)
    (d : Document) : Change :=
  d.sweep
    (fun e => if ResetFilter.selects regex onlyFailed e then e.resetVerdict now s else .untouched)
    fun n => toString n ++ " entities reset from " ++ s.name

end Document
end Publishing
