import Publishing.Audit.Sinks
import Publishing.Execution.Command
import Publishing.Run
import Publishing.Store.File

/-
A run as the configuration asks for it.
-/

namespace Publishing
namespace RunConfig

variable {σ : Type}

/-- The sinks of the configuration.  The records of the tracing sink go to `trace`. -/
def sinks [HasFiles σ] (c : RunConfig) (trace : Sink σ) : List (Sink σ) :=
  (if c.auditTracing then [trace] else []) ++ (c.auditJsonl.map Sink.lines).toList

def emitter [HasFiles σ] (c : RunConfig) (trace : Sink σ) : Emitter σ := .ofSinks (c.sinks trace)

def store (c : RunConfig) : FileStore := ⟨c.statePath, false⟩

def setup [HasFiles σ] (c : RunConfig) (launcher : Launcher σ) (clock : σ → Timestamp)
    (runId : RunId) : RunSetup σ where
  store := c.store.store
  executor := c.executor launcher
  clock := clock
  runId := runId
  concurrency := c.concurrency
  schedule := Pool.eager

end RunConfig
end Publishing
