import Publishing.Operation.Report
import Publishing.Operation.Reset
import Publishing.Operation.Resolve
import Publishing.Operation.SkipTo
import Publishing.Operation.Track

/-
The operations that an operator can ask for.
-/

namespace Publishing

inductive Operation where
  | retry (step : String) (entity : Option String) (all : Bool)
  | skipTo (step : String) (target : Target)
  | reset (step : String) (filter : ResetFilter)
  | complete (id : String)
  | fail (id reason : String)
  | register (id : String) (metadata : Json)
  | migrate (items : List ContentItem)

namespace Document

/-- Retry all entities that failed at a step, with a report on each. -/
def retryReport (now : Timestamp) (s : Step) (d : Document) : Change :=
  let (document, records, outcomes) := d.retryAll now s
  let accepted := (outcomes.filter (·.refusal.isNone)).map (·.id)
  let skipped := outcomes.filterMap fun o => o.refusal.map fun e => Skipped.mk o.id (.refused e)
  { document := document
    records := records
    report :=
      { message := toString accepted.length ++ " of " ++ toString outcomes.length ++
          " failed entities queued for retry at " ++ s.name
        entities := accepted
        skipped := skipped } }

end Document

namespace Operation

/-- The step that a text names, in an operation on `subject`. -/
def readStep (subject text : String) : Except Error Step :=
  match Step.ofName? text with
  | some s => .ok s
  | none => .error (.invalidTransition subject text (.unknownStep text))

/-- Check what can be checked without the document.  What is left is the change. -/
def prepare : Operation → Except Error (Timestamp → Document → Except Error Change)
  | retry step entity all => do
    let target ← match entity, all with
      | some id, false => pure (Target.one id)
      | none, true => pure Target.all
      | _, _ => throw (.invalidTransition (entity.getD "*") step .retryTarget)
    let s ← readStep (entity.getD "*") step
    match target with
    | .one id => return fun now d => do
      let (e, record) ← (← d.get id).retry now s
      return d.changeOne id (e, record) (id ++ " queued for retry at " ++ s.name)
    | .all => return fun now d => .ok (d.retryReport now s)
  | skipTo step target => do
    let s ← readStep (match target with | .one id => id | .all => "*") step
    return fun now d => d.skipTo now s target
  | reset step filter => do
    let s ← readStep "*" step
    let regex ← match filter.pattern with
      | none => pure none
      | some pattern =>
        match Glob.compile? pattern with
        | some r => pure (some r)
        | none => throw (.invalidTransition "*" s.name (.badFilter pattern))
    return fun now d => .ok (d.reset now s regex filter.onlyFailed)
  | complete id => .ok fun now d => d.forceComplete now id
  | fail id reason => .ok fun now d => d.forceFail now id reason
  | register id metadata => do
    if Text.isBlankText id then
      throw (.invalidTransition id Step.ingested.name .blankId)
    return fun now d => d.register now id metadata
  | migrate items => .ok fun now d => .ok (d.migrate now items)

/-- Carry out an operation on the document in a store. -/
def perform {σ : Type} (op : Operation) (store : Store σ) (now : Timestamp) (m : Emitter σ)
    (w : σ) : Except Error Report × Emitter σ × σ :=
  let change := do
    let change ← op.prepare
    change now (← store.load now w)
  match change with
  | .error e => (.error e, m, w)
  | .ok c => c.commit store now m w

end Operation
end Publishing
