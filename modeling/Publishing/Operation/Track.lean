import Publishing.Operation.Report

/-
Starting to track entities: new ones, and content that was published before it was
tracked.
-/

namespace Publishing

/-- A piece of content to be tracked. -/
structure ContentItem where
  id : String
  metadata : Json
  deriving DecidableEq, Inhabited

namespace Document

def register (now : Timestamp) (id : String) (metadata : Json) (d : Document) :
    Except Error Change := do
  if d.contains id then
    throw (.invalidTransition id Step.ingested.name .alreadyTracked)
  let (e, record) :=
    (Entity.draft now id metadata).emit now .ingested OperationName.registered .null
  return {
    document := d.insert id e
    records := [record]
    report := ⟨id ++ " registered", [id], []⟩ }

/-- A finalized entity for an item. -/
def imported (now : Timestamp) (item : ContentItem) : Entity × AuditRecord :=
  (Entity.finalized now item.id item.metadata).emit now .finalized OperationName.migrated .null

/-- What came of tracking finalized items. -/
structure Migration where
  document : Document
  added : List String
  skipped : List String
  records : List AuditRecord

/-- Track each item that is not tracked yet as finalized. -/
def insertFinalized (now : Timestamp) : List ContentItem → Document → Migration
  | [], d => ⟨d, [], [], []⟩
  | item :: rest, d =>
    if d.contains item.id then
      let m := insertFinalized now rest d
      { m with skipped := item.id :: m.skipped }
    else
      let (e, record) := imported now item
      let m := insertFinalized now rest (d.insert item.id e)
      { m with added := item.id :: m.added, records := record :: m.records }

def migrate (now : Timestamp) (items : List ContentItem) (d : Document) : Change :=
  let m := d.insertFinalized now items
  { document := m.document
    records := m.records
    report :=
      { message := toString m.added.length ++ " entities migrated, " ++
          toString m.skipped.length ++ " already tracked"
        entities := m.added
        skipped := m.skipped.map fun id => ⟨id, .alreadyTracked⟩ } }

end Document
end Publishing
