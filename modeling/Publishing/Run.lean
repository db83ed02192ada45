import Publishing.Audit.Emitter
import Publishing.Execution.Pool
import Publishing.Run.Batch
import Publishing.Store

/-
A run drives every entity through the steps, one step at a time.

For each step the eligible entities are marked running and saved, then their calls
go to the pool, and when all have ended their outcomes are entered and saved before
the next step begins.
-/

namespace Publishing

structure RunSummary where
  runId : RunId
  /-- One for each step that had work, in the order of the steps. -/
  batches : List Batch
  /-- Failed executions and entities without attempts left. -/
  failures : List Setback
  /-- Entities found with a running step at the start. -/
  stuck : List Setback
  durationMs : Nat
  deriving DecidableEq

namespace RunSummary

def processed (s : RunSummary) : Nat := s.batches.foldr (fun b n => b.processed + n) 0

def succeeded (s : RunSummary) : Nat := s.batches.foldr (fun b n => b.succeeded + n) 0

def failed (s : RunSummary) : Nat := s.batches.foldr (fun b n => b.failed + n) 0

def isClean (s : RunSummary) : Bool := s.failures.isEmpty && s.stuck.isEmpty

end RunSummary

/-- What can be seen of a run from outside, in order. -/
inductive RunEvent where
  | batchStarted (s : Step) (total : Nat)
  | pool (e : PoolEvent)
  | saving (d : Document)
  | entityFinished (id : String) (s : Step) (ok : Bool) (current total : Nat)
  | done (summary : RunSummary)
  deriving DecidableEq

/-- Why a run stops before its end. -/
inductive Halt where
  | error (e : Error)
  /-- There is no pool with so many permits. -/
  | tooManyPermits (permits : Nat)
  deriving DecidableEq

/-- All that a run depends on. -/
structure RunSetup (σ : Type) where
  store : Store σ
  executor : Executor σ
  clock : σ → Timestamp
  runId : RunId
  /-- The calls of a batch that may be at work at once; none counts as one. -/
  concurrency : Nat
  schedule : Schedule

def RunSetup.permits {σ : Type} (r : RunSetup σ) : Nat := max 1 r.concurrency

/-- A run on its way. -/
structure RunState (σ : Type) where
  document : Document
  emitter : Emitter σ
  world : σ
  batches : List Batch
  failures : List Setback
  changed : Bool
  trace : List RunEvent

namespace RunState

variable {σ : Type}

def log (events : List RunEvent) (st : RunState σ) : RunState σ :=
  { st with trace := st.trace ++ events }

/-- Take over a changed document and queue its records. -/
def update (d : Document) (records : List AuditRecord) (st : RunState σ) : RunState σ :=
  { st with document := d, emitter := st.emitter.enqueue records }

/-- Save the document and let the queued records go. -/
def save (r : RunSetup σ) (st : RunState σ) : Except Halt Unit × RunState σ :=
  let st := st.log [.saving st.document]
  match r.store.save (r.clock st.world) st.document st.world with
  | (.ok (), w) =>
    let (m, w) := st.emitter.flush w
    (.ok (), { st with emitter := m, world := w })
  | (.error e, w) => (.error (.error e), { st with emitter := st.emitter.discard, world := w })

/-- Mark the entities of a batch running, and save that. -/
def markBatch (r : RunSetup σ) (s : Step) (ids : List String) (st : RunState σ) :
    Except Halt (List Call) × RunState σ :=
  let st := st.log [.batchStarted s ids.length]
  match st.document.markEach (r.clock st.world) r.runId s ids with
  | .error e => (.error (.error e), st)
  | .ok (d, records, calls) =>
    match (st.update (d.setCurrentStep (some s)) records).save r with
    | (.ok (), st) => (.ok calls, st)
    | (.error h, st) => (.error h, st)

/-- Let the pool run the calls of a batch. -/
def execute (r : RunSetup σ) (calls : List Call) (st : RunState σ) :
    (String → Ending) × RunState σ :=
  let (pool, events) := (Pool.ofCalls calls st.world).drain r.permits r.executor r.schedule
  (pool.endingOf, { st with world := pool.world }.log (events.map .pool))

/-- The progress reports of a batch. -/
def progress (s : Step) (total current : Nat) : List (String × Bool) → List RunEvent
  | [] => []
  | (id, ok) :: rest =>
    .entityFinished id s ok (current + 1) total :: progress s total (current + 1) rest

/-- Enter the outcomes of a batch that began at `start`, and save that. -/
def foldBatch (r : RunSetup σ) (s : Step) (start : Timestamp) (ids : List String)
    (ending : String → Ending) (st : RunState σ) : Except Halt Unit × RunState σ :=
  let now := r.clock st.world
  match st.document.foldEach now s ending ids with
  | .error e => (.error (.error e), st)
  | .ok tally =>
    let batch : Batch :=
      { step := s
        timestamp := now
        processed := ids.length
        succeeded := tally.succeeded
        failed := tally.failed
        durationMs := now.millisSince start
        runId := some r.runId }
    let (d, record) := tally.document.recordBatch batch
    let st := (st.log (progress s ids.length 0 tally.results)).update d (tally.records ++ [record])
    let st := { st with failures := st.failures ++ tally.setbacks }
    match st.save r with
    | (.ok (), st) => (.ok (), { st with batches := st.batches ++ [batch] })
    | (.error h, st) => (.error h, st)

/-- Mark, execute and fold one batch. -/
def runBatch (r : RunSetup σ) (s : Step) (ids : List String) (st : RunState σ) :
    Except Halt Unit × RunState σ :=
  let start := r.clock st.world
  match st.markBatch r s ids with
  | (.error h, st) => (.error h, st)
  | (.ok calls, st) =>
    if Pool.greatestPermits < r.permits then (.error (.tooManyPermits r.permits), st)
    else
      let (ending, st) := st.execute r calls
      st.foldBatch r s start ids ending

/-- The part of a run for one step. -/
def runStep (r : RunSetup σ) (s : Step) (st : RunState σ) : Except Halt Unit × RunState σ :=
  let found := st.document.select (r.clock st.world) s
  let st := st.update found.document found.records
  let st :=
    { st with
      failures := st.failures ++ found.setbacks
      changed := st.changed || !found.setbacks.isEmpty || !found.eligible.isEmpty }
  if found.eligible.isEmpty then (.ok (), st) else st.runBatch r s found.eligible

def runSteps (r : RunSetup σ) : List Step → RunState σ → Except Halt Unit × RunState σ
  | [], st => (.ok (), st)
  | s :: rest, st =>
    match st.runStep r s with
    | (.ok (), st) => runSteps r rest st
    | (.error h, st) => (.error h, st)

/-- Save once more if anything has changed, now with no batch at work. -/
def close (r : RunSetup σ) (st : RunState σ) : Except Halt Unit × RunState σ :=
  if st.changed then { st with document := st.document.setCurrentStep none }.save r
  else (.ok (), st)

/-- The state of a run that has loaded a document and blocked what is stuck. -/
def opening (r : RunSetup σ) (d : Document) (m : Emitter σ) (w : σ) : RunState σ :=
  let (blocked, records) := d.blockStuck (r.clock w)
  { document := blocked
    emitter := m.enqueue records
    world := w
    batches := []
    failures := []
    changed := !records.isEmpty
    trace := [] }

end RunState

/-- What a run comes to. -/
structure RunResult (σ : Type) where
  result : Except Halt RunSummary
  emitter : Emitter σ
  world : σ
  trace : List RunEvent

def RunState.finish {σ : Type} (result : Except Halt RunSummary) (st : RunState σ) :
    RunResult σ :=
  ⟨result, st.emitter, st.world, st.trace⟩

/-- Run every pending batch. -/
def RunSetup.run {σ : Type} (r : RunSetup σ) (m : Emitter σ) (w : σ) : RunResult σ :=
  let start := r.clock w
  match r.store.load start w with
  | .error e => ⟨.error (.error e), m, w, []⟩
  | .ok d =>
    match (RunState.opening r d m w).runSteps r Step.all with
    | (.error h, st) => st.finish (.error h)
    | (.ok (), st) =>
      match st.close r with
      | (.error h, st) => st.finish (.error h)
      | (.ok (), st) =>
        let summary : RunSummary :=
          { runId := r.runId
            batches := st.batches
            failures := st.failures
            stuck := d.stuckSetbacks
            durationMs := (r.clock st.world).millisSince start }
        (st.log [.done summary]).finish (.ok summary)

end Publishing
