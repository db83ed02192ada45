import Publishing.Audit.Record

/-
Delivery of audit records.

Records wait in a queue until the document with their checkpoints is saved.  Then
they go to every sink; if it could not be saved, they are dropped.  What becomes of
a delivery has no influence on anything else.
-/

namespace Publishing

/-- A destination of audit records, which may change the world `σ` whether it
succeeds or not. -/
abbrev Sink (σ : Type) := AuditRecord → σ → Except Error Unit × σ

structure Emitter (σ : Type) where
  sinks : List (Sink σ)
  queue : List AuditRecord

namespace Emitter

variable {σ : Type}

def ofSinks (sinks : List (Sink σ)) : Emitter σ := ⟨sinks, []⟩

/-- Without a sink nothing is queued. -/
def enqueue (records : List AuditRecord) (m : Emitter σ) : Emitter σ :=
  if m.sinks.isEmpty then m else { m with queue := m.queue ++ records }

/-- Deliver a record to each sink in turn. -/
def deliver (sinks : List (Sink σ)) (r : AuditRecord) (w : σ) : σ :=
  sinks.foldl (fun w sink => (sink r w).2) w

def flush (m : Emitter σ) (w : σ) : Emitter σ × σ :=
  ({ m with queue := [] }, m.queue.foldl (fun w r => deliver m.sinks r w) w)

def discard (m : Emitter σ) : Emitter σ := { m with queue := [] }

@[simp] theorem queue_flush (m : Emitter σ) (w : σ) : (m.flush w).1.queue = [] := rfl
@[simp] theorem queue_discard (m : Emitter σ) : m.discard.queue = [] := rfl
@[simp] theorem sinks_flush (m : Emitter σ) (w : σ) : (m.flush w).1.sinks = m.sinks := rfl
@[simp] theorem sinks_discard (m : Emitter σ) : m.discard.sinks = m.sinks := rfl
@[simp] theorem sinks_enqueue (rs : List AuditRecord) (m : Emitter σ) :
    (m.enqueue rs).sinks = m.sinks := by
  unfold enqueue; split <;> rfl

end Emitter
end Publishing
