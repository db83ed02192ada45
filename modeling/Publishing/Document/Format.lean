import Publishing.Document
import Publishing.Json.Decode

/-
The JSON form of a document.  Members stand in a fixed order, and an optional
member that has no value is left out.
-/

namespace Publishing

open Json (Decoder)
open Json.Decoder (Fields record)

def Timestamp.toJson (t : Timestamp) : Json := .string t.text

def Timestamp.decoder : Decoder Timestamp :=
  .parsed "an RFC 3339 formatted date and time string" Timestamp.ofText?

def RunId.toJson (r : RunId) : Json := .string r.text

def RunId.decoder : Decoder RunId := .parsed "a formatted UUID string" RunId.ofText?

def Step.toJson (s : Step) : Json := .string s.name

def Step.decoder : Decoder Step := .variant (Step.all.map fun s => (s.name, s))

def StepStatus.toJson (s : StepStatus) : Json := .string s.name

def StepStatus.decoder : Decoder StepStatus := .variant (StepStatus.all.map fun s => (s.name, s))

def EntityStatus.toJson (s : EntityStatus) : Json := .string s.name

def EntityStatus.decoder : Decoder EntityStatus :=
  .variant (EntityStatus.all.map fun s => (s.name, s))

/-- A member that is left out when there is no value. -/
def Json.whenSome (key : String) (f : α → Json) : Option α → List (String × Json)
  | none => []
  | some a => [(key, f a)]

open Json (whenSome)

namespace Checkpoint

def toJson (c : Checkpoint) : Json :=
  .object [("operation", .string c.operation), ("timestamp", c.timestamp.toJson),
    ("data", c.data)]

def decoder : Decoder Checkpoint :=
  record "CheckpointEvent" ["operation", "timestamp", "data"] fun f =>
    Checkpoint.mk <$> f.required "operation" .string
      <*> f.required "timestamp" Timestamp.decoder
      <*> f.default "data" .null .json

end Checkpoint

namespace StepRecord

def toJson (r : StepRecord) : Json :=
  .object ([("status", r.status.toJson), ("attempts", .nat r.attempts)] ++
    whenSome "startedAt" Timestamp.toJson r.startedAt ++
    whenSome "completedAt" Timestamp.toJson r.completedAt ++
    whenSome "durationMs" .nat r.durationMs ++
    whenSome "error" .string r.error ++
    [("checkpoints", .array (r.checkpoints.map Checkpoint.toJson))])

def decoder : Decoder StepRecord :=
  record "StepRecord"
    ["status", "attempts", "startedAt", "completedAt", "durationMs", "error", "checkpoints"]
    fun f =>
      StepRecord.mk <$> f.required "status" StepStatus.decoder
        <*> f.default "attempts" 0 .u32
        <*> f.default "startedAt" none Timestamp.decoder.nullable
        <*> f.default "completedAt" none Timestamp.decoder.nullable
        <*> f.default "durationMs" none Decoder.u64.nullable
        <*> f.default "error" none Decoder.string.nullable
        <*> f.default "checkpoints" [] Checkpoint.decoder.list

end StepRecord

namespace StepTable

def toJson (t : StepTable) : Json := .object (Step.all.map fun s => (s.name, (t.get s).toJson))

def decoder : Decoder StepTable :=
  record "StepTable" (Step.all.map Step.name) fun f =>
    StepTable.mk <$> f.required "ingested" StepRecord.decoder
      <*> f.required "tested" StepRecord.decoder
      <*> f.required "validated" StepRecord.decoder
      <*> f.required "published" StepRecord.decoder
      <*> f.required "finalized" StepRecord.decoder

end StepTable

namespace Failure

def toJson (e : Failure) : Json :=
  .object [("step", e.step.toJson), ("message", .string e.message), ("attempt", .nat e.attempt),
    ("timestamp", e.timestamp.toJson)]

def decoder : Decoder Failure :=
  record "EntityError" ["step", "message", "attempt", "timestamp"] fun f =>
    Failure.mk <$> f.required "step" Step.decoder
      <*> f.required "message" .string
      <*> f.required "attempt" .u32
      <*> f.required "timestamp" Timestamp.decoder

end Failure

namespace Entity

def toJson (e : Entity) : Json :=
  .object [("id", .string e.id), ("status", e.status.toJson),
    ("currentStep", e.currentStep.toJson), ("steps", e.steps.toJson), ("metadata", e.metadata),
    ("errors", .array (e.errors.map Failure.toJson)), ("createdAt", e.createdAt.toJson),
    ("updatedAt", e.updatedAt.toJson)]

def decoder : Decoder Entity :=
  record "EntityRecord"
    ["id", "status", "currentStep", "steps", "metadata", "errors", "createdAt", "updatedAt"]
    fun f =>
      Entity.mk <$> f.required "id" .string
        <*> f.required "status" EntityStatus.decoder
        <*> f.required "currentStep" Step.decoder
        <*> f.required "steps" StepTable.decoder
        <*> f.default "metadata" .null .json
        <*> f.default "errors" [] Failure.decoder.list
        <*> f.required "createdAt" Timestamp.decoder
        <*> f.required "updatedAt" Timestamp.decoder

end Entity

namespace Batch

def toJson (b : Batch) : Json :=
  .object ([("step", b.step.toJson), ("timestamp", b.timestamp.toJson),
    ("processed", .nat b.processed), ("succeeded", .nat b.succeeded), ("failed", .nat b.failed),
    ("durationMs", .nat b.durationMs)] ++ whenSome "runId" RunId.toJson b.runId)

def decoder : Decoder Batch :=
  record "StepHistoryEntry"
    ["step", "timestamp", "processed", "succeeded", "failed", "durationMs", "runId"]
    fun f =>
      Batch.mk <$> f.required "step" Step.decoder
        <*> f.required "timestamp" Timestamp.decoder
        <*> f.required "processed" .usize
        <*> f.required "succeeded" .usize
        <*> f.required "failed" .usize
        <*> f.required "durationMs" .u64
        <*> f.default "runId" none RunId.decoder.nullable

end Batch

namespace GlobalState

def toJson (g : GlobalState) : Json :=
  .object [("currentStep", .optional Step.toJson g.currentStep),
    ("stepHistory", .array (g.stepHistory.map Batch.toJson))]

def decoder : Decoder GlobalState :=
  record "GlobalState" ["currentStep", "stepHistory"] fun f =>
    GlobalState.mk <$> f.nullable "currentStep" Step.decoder
      <*> f.default "stepHistory" [] Batch.decoder.list

end GlobalState

namespace Document

def toJson (d : Document) : Json :=
  .object [("version", .string d.version), ("lastUpdated", d.lastUpdated.toJson),
    ("entities", .ofKeyed (d.entities.map fun _ e => e.toJson)), ("global", d.global.toJson)]

def decoder : Decoder Document :=
  record "Document" ["version", "lastUpdated", "entities", "global"] fun f =>
    Document.mk <$> f.required "version" .string
      <*> f.required "lastUpdated" Timestamp.decoder
      <*> f.default "entities" .empty Entity.decoder.keyed
      <*> f.default "global" .idle GlobalState.decoder

def ofText (text : String) : Except Json.Fault Document := decoder.fromText text

/-- The text that is kept on disk. -/
def text (d : Document) : String := d.toJson.pretty ++ "\n"

end Document
end Publishing
