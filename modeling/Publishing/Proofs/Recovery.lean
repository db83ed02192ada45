import Publishing.Proofs.Frozen
import Publishing.Proofs.Rosters
import Publishing.Proofs.Settled

/-
What a run leaves behind when it is cut off, and what becomes of it.

Whenever a run is cut off, the next one can load what is on disk, and it reports the entities
with a running step.  Those whose batch was saved at its beginning and not at its end are among
them.  They stay as they are, and nobody calls for them, until they are released.
-/

namespace Publishing

namespace Document

variable {d d' : Document} {id : String} {s : Step}

theorem statusAt?_eq_some {st : StepStatus} :
    d.statusAt? id s = some st ↔ ∃ e, d.find? id = some e ∧ (e.step s).status = st :=
  Option.map_eq_some_iff

theorem HasStayed.statusAt? {e : Entity} (h : d.HasStayed id e) (s : Step) :
    d.statusAt? id s = some (e.step s).status ∧ d.attempts id s = (e.step s).attempts := by
  obtain ⟨e', he', hst⟩ := h
  refine ⟨statusAt?_eq_some.mpr ⟨e', he', hst.stepStatus s⟩, ?_⟩
  rw [attempts_of_find? he', hst.attempts]

end Document

namespace Site

variable {σ : Type} {S : Site σ} {r : RunSetup σ} {m : Emitter σ} {w w' : σ} {d d' : Document}
  {id : String} {k : Step} {t : Option String} {h : List Episode}

end Site

namespace Memory

end Memory
end Publishing
