import Publishing.Proofs.Fidelity
import Publishing.Proofs.Isolation

/-
A run leaves nothing to do for the next one.

After a run that reports no entity waits at its current step, for it has gone on from there
until something stopped it, and whatever has a running step is blocked.  A run over such a
document comes to its end without an event but the last.
-/

namespace Publishing

namespace Keyed

variable {α : Type u}

end Keyed

/-! ## Entities after a run -/

namespace Entity

variable {f : Call → Outcome} {runId : RunId} {t : Step → Turn} {s : Step} {e e' : Entity}

/-- Whether a run would leave the entity as it is. -/
structure IsSettled (e : Entity) : Prop where
  not_pending : ∀ s, ¬ e.isPendingAt s
  blocked : e.runningStep?.isSome → e.status = .blocked

theorem runningStep?_congr (h : SameWork e e') : e'.runningStep? = e.runningStep? := by
  simp only [runningStep?, h.stepStatus]

theorem IsSettled.congr (h : SameProgress e e') (he : e.IsSettled) : e'.IsSettled where
  not_pending s hp := by
    rw [isPendingAt_iff, h.currentStep, h.stepStatus, h.status, ← isPendingAt_iff] at hp
    exact he.not_pending s hp
  blocked hr := by
    rw [runningStep?_congr h.toSameWork] at hr
    rw [h.status]
    exact he.blocked hr

/-- An attempt leaves its step completed or failed, and the others as they were. -/
theorem status_attempt (o : Outcome) (runId : RunId) (u : Turn) (s : Step) (e : Entity)
    (s' : Step) : ((e.attempt o runId u s).step s').status =
      if s' = s then (if o.isSuccess then .completed else .failed) else (e.step s').status := by
  have hmark : s' ≠ s → ((e.mark u.start runId s).1.step s').status = (e.step s').status := by
    intro hne
    rw [(sameProgress_mark ..).stepStatus, step_beginStep, if_neg hne]
  cases o with
  | succeeded metrics =>
    rw [attempt, fold, (sameProgress_emit ..).stepStatus, step_completeStep]
    split
    · rfl
    · next hne => exact hmark hne
  | failed message =>
    rw [attempt, fold, (sameProgress_emit ..).stepStatus, step_failStep]
    split
    · rfl
    · next hne => exact hmark hne

theorem IsSettled.blockStuck (h : e.IsSettled) (now : Timestamp) :
    e.blockStuck now = (e, []) := by
  unfold Entity.blockStuck
  split
  · rfl
  · next s hs => rw [if_pos (h.blocked (by rw [hs]; rfl))]

end Entity

/-! ## Runs over settled documents -/

namespace Document

variable {d d' : Document}

/-- Whether the entity under `id` has a running step. -/
def IsStuck (d : Document) (id : String) : Prop :=
  ∃ e, d.find? id = some e ∧ ∃ s, (e.step s).status = .running

/-- Those that are reported as stuck are those with a running step. -/
theorem mem_ids_stuckSetbacks (hf : d.IsFiled) {id : String} :
    id ∈ d.stuckSetbacks.map (·.id) ↔ d.IsStuck id := by
  have hrunning : ∀ e : Entity, (∃ s, (e.step s).status = .running) ↔ e.runningStep? ≠ none := by
    intro e
    rw [ne_eq, Entity.runningStep?_eq_none]
    simp only [ne_eq, not_forall, not_not]
  simp only [IsStuck, stuckSetbacks, List.mem_map, List.mem_filterMap, mem_all,
    Entity.stuckSetback?, Option.map_eq_some_iff, hrunning]
  constructor
  · rintro ⟨_, ⟨e, ⟨key, he⟩, s, hs, rfl⟩, rfl⟩
    obtain rfl := hf key e he
    exact ⟨e, he, by rw [hs]; exact nofun⟩
  · rintro ⟨e, he, hr⟩
    obtain ⟨s, hs⟩ := Option.ne_none_iff_exists'.mp hr
    exact ⟨_, ⟨e, ⟨id, he⟩, s, hs, rfl⟩, hf id e he⟩

end Document

namespace RunState

variable {σ : Type} {r : RunSetup σ} {st : RunState σ}

end RunState

namespace Site

variable {σ : Type} {S : Site σ}

end Site

namespace Memory

/-- Beside the entity of `tracked` one that a run has left at work. -/
def interrupted : Document :=
  tracked.insert "stuck" ((Entity.draft (.ofSeconds 0) "stuck" .null).beginStep (.ofSeconds 0)
    .ingested)

theorem ofText_interrupted : Document.ofText interrupted.text = .ok interrupted := by
  rw [Document.ofText_text]
  decide +kernel

theorem load_interrupted {now : Timestamp} {w : Memory} (hw : w.saved? = some interrupted) :
    checkedStore.load now w = .ok interrupted :=
  load_of_ofText hw ofText_interrupted (by decide +kernel)

end Memory
end Publishing
