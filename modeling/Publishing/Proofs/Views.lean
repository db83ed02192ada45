import Publishing.Overview
import Publishing.Proofs.Recovery

/-
What an operator sees of a document.

Where an entity stands says on which of the lists it is.  At a pending step it is ready, or it
is blocked and up for attention.  At a running step it is stuck, at a failed one up for
attention.  If it stands nowhere it is completed, and on none of them.
-/

namespace Publishing

namespace Entity

variable {e : Entity} {k s : Step}

/-- Only the step that an entity stands at can be running. -/
theorem StandsAt.runningStep?_eq_none (h : e.StandsAt k) (hk : (e.step k).status ≠ .running) :
    e.runningStep? = none := by
  refine Entity.runningStep?_eq_none.mpr fun s => ?_
  rcases Step.lt_or_eq_or_gt s k with hlt | rfl | hgt
  · intro hs
    have hdone := h.before s hlt
    rw [hs] at hdone
    cases hdone
  · exact hk
  · rw [h.after s hgt]
    exact nofun

theorem runningStep?_isSome_of_running (h : (e.step s).status = .running) :
    e.runningStep?.isSome := by
  rw [Option.isSome_iff_ne_none]
  exact fun hn => runningStep?_eq_none.mp hn s h

/-- Nothing runs while an entity waits at a step. -/
theorem IsSound.runningStep?_eq_none (h : e.IsSound) (hp : e.isPendingAt s) :
    e.runningStep? = none :=
  (h.standsAt_of_isPendingAt hp).runningStep?_eq_none (by
    rw [(isPendingAt_iff.mp hp).2.1]
    exact nofun)

theorem isPendingAt_currentStep (hk : (e.step e.currentStep).status = .pending)
    (hs : e.status.isSchedulable) : e.isPendingAt e.currentStep :=
  isPendingAt_iff.mpr ⟨rfl, hk, hs⟩

/-- An entity is finished, or waits to be run, or is stuck, or asks for attention. -/
theorem IsSound.seen (h : e.IsSound) : e.status = .completed ∨ e.isPendingAt e.currentStep ∨
    e.runningStep?.isSome ∨ e.status.needsAttention := by
  rcases h.standing with hf | ⟨k, hk⟩
  · exact Or.inl hf.status
  refine Or.inr ?_
  have hcoarse := hk.coarse
  unfold StatusFits at hcoarse
  obtain rfl := hk.current
  cases hst : (e.step e.currentStep).status <;> rw [hst] at hcoarse
  case pending =>
    rcases hcoarse with hready | ⟨hdraft, -⟩ | ⟨hblocked, -⟩
    · exact Or.inl (isPendingAt_currentStep hst (by rw [hready]; rfl))
    · exact Or.inl (isPendingAt_currentStep hst (by rw [hdraft]; rfl))
    · exact Or.inr (Or.inr (by rw [hblocked]; rfl))
  case running => exact Or.inr (Or.inl (runningStep?_isSome_of_running hst))
  case failed =>
    refine Or.inr (Or.inr ?_)
    rw [show e.status = _ from hcoarse]
    split <;> rfl
  case completed => exact hcoarse.elim
  case skipped => exact hcoarse.elim

end Entity

namespace Document

variable {d : Document}

end Document

namespace Site

variable {σ : Type} {S : Site σ}

end Site
end Publishing
