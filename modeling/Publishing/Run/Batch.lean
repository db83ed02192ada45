import Publishing.Audit.Record
import Publishing.Execution.Executor
import Publishing.Retry

/-
The pure parts of a run: what it does to a document before and after the calls of a
batch.
-/

namespace Publishing

/-- An entity that did not get past a step. -/
structure Setback where
  id : String
  step : Step
  attempts : Nat
  message : String
  deriving DecidableEq

namespace Setback

def toError (f : Setback) : Error := .stepFailed f.id f.step f.attempts f.message

def stuckError (f : Setback) : Error := .stuckStep f.id f.step f.attempts

def text (f : Setback) : String :=
  f.id ++ " at " ++ f.step.name ++ " (attempt " ++ toString f.attempts ++ "/" ++
    toString maxAttempts ++ "): " ++ f.message

end Setback

namespace Entity

/-- Block an entity. -/
def block (now : Timestamp) (e : Entity) : Entity := { e with status := .blocked }.touch now

/-- An entity with a running step is blocked, unless it is already. -/
def blockStuck (now : Timestamp) (e : Entity) : Entity × List AuditRecord :=
  match e.runningStep? with
  | none => (e, [])
  | some s =>
    if e.status = .blocked then (e, [])
    else
      let (e, record) := (e.block now).emit now s OperationName.stuckDetected
        (.object [("attempt", .nat (e.step s).attempts)])
      (e, [record])

def stuckSetback? (e : Entity) : Option Setback :=
  e.runningStep?.map fun s =>
    ⟨e.id, s, (e.step s).attempts, "step was left running by an interrupted run"⟩

/-- Block an entity that waits at a step with no attempts left. -/
def exhaust (now : Timestamp) (s : Step) (e : Entity) : Entity × AuditRecord :=
  (e.block now).emit now s OperationName.attemptsExhausted
    (.ofMembers [("attempts", .nat (e.step s).attempts), ("maxAttempts", .nat maxAttempts)])

/-- Mark a step running for a run. -/
def mark (now : Timestamp) (runId : RunId) (s : Step) (e : Entity) : Entity × AuditRecord :=
  let e := e.beginStep now s
  e.emit now s OperationName.stepStarted
    (.ofMembers [("attempt", .nat (e.step s).attempts), ("runId", runId.toJson)])

/-- Enter the outcome of a call. -/
def fold (now : Timestamp) (s : Step) (outcome : Outcome) (ms : Nat) (e : Entity) :
    Entity × AuditRecord :=
  let attempt := ("attempt", Json.nat (e.step s).attempts)
  match outcome with
  | .succeeded metrics =>
    (e.completeStep now s ms).emit now s OperationName.stepCompleted
      (.ofMembers [attempt, ("durationMs", .nat ms), ("metrics", metrics.getD .null)])
  | .failed message =>
    let failed := e.failStep now s message ms
    failed.emit now s OperationName.stepFailed
      (.ofMembers [attempt, ("durationMs", .nat ms), ("error", .string message),
        ("blocked", .bool (failed.status = .blocked))])

end Entity

namespace Document

/-- Block every entity that an interrupted run left with a running step. -/
def blockStuck (now : Timestamp) (d : Document) : Document × List AuditRecord :=
  ({ d with entities := d.entities.map fun _ e => (e.blockStuck now).1 },
    d.all.flatMap fun e => (e.blockStuck now).2)

def stuckSetbacks (d : Document) : List Setback := d.all.filterMap (·.stuckSetback?)

/-- The entities that a batch is made of, and those that have no attempts left. -/
structure Selection where
  document : Document
  records : List AuditRecord
  eligible : List String
  setbacks : List Setback

def selectEach (now : Timestamp) (s : Step) : List String → Document → Selection
  | [], d => ⟨d, [], [], []⟩
  | id :: rest, d =>
    match d.find? id with
    | none => selectEach now s rest d
    | some e =>
      if (e.step s).hasAttemptsLeft then
        let found := selectEach now s rest d
        { found with eligible := id :: found.eligible }
      else
        let (blocked, record) := e.exhaust now s
        let found := selectEach now s rest (d.replace id blocked)
        { found with
          records := record :: found.records
          setbacks := ⟨id, s, (e.step s).attempts, "attempts exhausted"⟩ :: found.setbacks }

def select (now : Timestamp) (s : Step) (d : Document) : Selection :=
  selectEach now s (d.pendingAt s) d

/-- Mark a step running for each of these entities. -/
def markEach (now : Timestamp) (runId : RunId) (s : Step) :
    List String → Document → Except Error (Document × List AuditRecord × List Call)
  | [], d => .ok (d, [], [])
  | id :: rest, d => do
    let e ← d.get id
    let (marked, record) := e.mark now runId s
    let (d, records, calls) ← markEach now runId s rest (d.replace id marked)
    return (d, record :: records, ⟨id, e.metadata, s⟩ :: calls)

/-- What the outcomes of a batch come to. -/
structure Tally where
  document : Document
  records : List AuditRecord
  setbacks : List Setback
  /-- Each entity with whether it succeeded. -/
  results : List (String × Bool)

def foldEach (now : Timestamp) (s : Step) (ending : String → Ending) :
    List String → Document → Except Error Tally
  | [], d => .ok ⟨d, [], [], []⟩
  | id :: rest, d => do
    let e ← d.get id
    let outcome := (ending id).outcome
    let (folded, record) := e.fold now s outcome (ending id).durationMs
    let tally ← foldEach now s ending rest (d.replace id folded)
    let setbacks := match outcome with
      | .succeeded _ => tally.setbacks
      | .failed message => ⟨id, s, (e.step s).attempts, message⟩ :: tally.setbacks
    return { tally with
      records := record :: tally.records
      setbacks := setbacks
      results := (id, outcome.isSuccess) :: tally.results }

end Document

namespace Document.Tally

def succeeded (t : Tally) : Nat := t.results.countP (·.2)

def failed (t : Tally) : Nat := t.results.countP fun r => !r.2

end Document.Tally
end Publishing
