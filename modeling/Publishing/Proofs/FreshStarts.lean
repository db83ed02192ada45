import Publishing.Proofs.Forecasts
import Publishing.Proofs.Reports

/-
No entity is beyond help.

A reset from the first step passes over no entity that only operations and runs have touched: it
either clears all steps or finds them as they are when they are cleared.  Then every entity waits
at the first step with all its attempts, and a run that gets nothing but successes completes it.
-/

namespace Publishing

namespace Operation

end Operation

namespace Entity

variable {e e' : Entity} {s k : Step} {o : Outcome} {runId : RunId} {now : Timestamp}

/-- Whether an entity has come up to `k`, each step at its first attempt, and waits there. -/
structure IsUpTo (e : Entity) (k : Step) : Prop where
  before : ∀ s, s < k → (e.step s).status = .completed ∧ (e.step s).attempts = 1
  onward : ∀ s, k ≤ s → (e.step s).status = .pending ∧ (e.step s).attempts = 0
  waits : e.isPendingAt k

/-- Whether an entity is completed, each step at its first attempt. -/
structure IsThrough (e : Entity) : Prop where
  status : e.status = .completed
  steps : ∀ s, (e.step s).status = .completed ∧ (e.step s).attempts = 1

theorem IsUpTo.congr (h : SameProgress e e') (he : e.IsUpTo k) : e'.IsUpTo k where
  before s hs := by
    rw [h.stepStatus, h.attempts]
    exact he.before s hs
  onward s hs := by
    rw [h.stepStatus, h.attempts]
    exact he.onward s hs
  waits := by
    rw [isPendingAt_iff, h.currentStep, h.stepStatus, h.status, ← isPendingAt_iff]
    exact he.waits

theorem IsThrough.congr (h : SameProgress e e') (he : e.IsThrough) : e'.IsThrough where
  status := h.status.trans he.status
  steps s := by
    rw [h.stepStatus, h.attempts]
    exact he.steps s

/-! ## A run with successes only -/

theorem attempts_fold (now : Timestamp) (s : Step) (o : Outcome) (ms : Nat) (e : Entity)
    (s' : Step) : ((e.fold now s o ms).1.step s').attempts = (e.step s').attempts := by
  cases o with
  | succeeded metrics =>
    rw [fold, (sameProgress_emit ..).attempts, step_completeStep]
    split <;> rfl
  | failed message =>
    rw [fold, (sameProgress_emit ..).attempts, step_failStep]
    split <;> rfl

theorem attempts_attempt (hl : (e.step s).hasAttemptsLeft) (o : Outcome) (runId : RunId) (u : Turn)
    (s' : Step) : ((e.attempt o runId u s).step s').attempts =
      if s' = s then (e.step s').attempts + 1 else (e.step s').attempts := by
  rw [attempt, attempts_fold, (step_mark u.start runId hl s').2]

/-- A success brings an entity up to the next step, or to the end. -/
theorem IsUpTo.attempt (h : e.IsUpTo s) (ho : o.isSuccess) (runId : RunId) (u : Turn) :
    match s.next? with
    | some n => (e.attempt o runId u s).IsUpTo n
    | none => (e.attempt o runId u s).IsThrough := by
  obtain ⟨hpending, hunused⟩ := h.onward s (Nat.le_refl _)
  have hleft : (e.step s).hasAttemptsLeft := by
    rw [StepRecord.hasAttemptsLeft_iff, hunused]
    decide
  obtain ⟨hcurrent, hstatus⟩ : (e.attempt o runId u s).currentStep = s.next?.getD s ∧
      (e.attempt o runId u s).status = if s.next?.isSome then .ready else .completed :=
    attempt_of_success ho u
  have hdone : ∀ s', s' ≤ s → ((e.attempt o runId u s).step s').status = .completed ∧
      ((e.attempt o runId u s).step s').attempts = 1 := by
    intro s' hs'
    rw [status_attempt, attempts_attempt hleft]
    rcases Step.le_iff_eq_or_lt.mp hs' with rfl | hlt
    · rw [if_pos rfl, if_pos rfl, if_pos ho, hunused]
      exact ⟨rfl, rfl⟩
    · rw [if_neg (Step.ne_of_lt hlt), if_neg (Step.ne_of_lt hlt)]
      exact h.before s' hlt
  cases hn : s.next? with
  | none =>
    obtain rfl := Step.next?_eq_none.mp hn
    exact ⟨hstatus, fun s' => hdone s' (Step.le_finalized s')⟩
  | some n =>
    have hopen : ∀ s', n ≤ s' → ((e.attempt o runId u s).step s').status = .pending ∧
        ((e.attempt o runId u s).step s').attempts = 0 := by
      intro s' hs'
      have hlt := (Step.lt_iff_next_le hn s').mpr hs'
      rw [status_attempt, attempts_attempt hleft, if_neg (Step.ne_of_lt hlt).symm,
        if_neg (Step.ne_of_lt hlt).symm]
      exact h.onward s' (Nat.le_of_lt hlt)
    rw [hn] at hcurrent hstatus
    refine ⟨fun s' hs' => hdone s' ((Step.le_iff_lt_next hn s').mpr hs'), hopen, ?_⟩
    refine isPendingAt_iff.mpr ⟨hcurrent, (hopen n (Nat.le_refl _)).1, ?_⟩
    rw [hstatus]
    rfl

/-- Successes lead an entity from where it waits to the end. -/
theorem IsUpTo.passes {o : Step → Outcome} (h : e.IsUpTo s) (ho : ∀ s, (o s).isSuccess)
    (runId : RunId) (t : Step → Turn) : (e.passes o runId t s.onward).IsThrough := by
  induction s using Step.next_induct generalizing e with
  | step s ih =>
    have hleft : (e.step s).hasAttemptsLeft := by
      rw [StepRecord.hasAttemptsLeft_iff, (h.onward s (Nat.le_refl _)).2]
      decide
    have hnext := h.attempt (ho s) runId (t s)
    rw [Step.onward_eq_next, Entity.passes, pass_of_left h.waits hleft]
    cases hn : s.next? with
    | none =>
      rw [hn] at hnext
      exact hnext
    | some n =>
      rw [hn] at hnext
      exact ih n hn hnext

/-! ## A reset from the first step -/

/-- An entity without results waits at the first step. -/
theorem IsSound.isUpTo (h : e.IsSound)
    (hs : ∀ s, (e.step s).status = .pending ∧ (e.step s).attempts = 0) : e.IsUpTo .ingested := by
  rcases h.standing with hf | ⟨k, hk⟩
  · have hlast := hf.last
    rw [(hs _).1] at hlast
    cases hlast
  obtain rfl : k = .ingested := by
    rcases Step.lt_or_eq_or_gt .ingested k with hlt | heq | hgt
    · have hdone := hk.before _ hlt
      rw [(hs _).1] at hdone
      cases hdone
    · exact heq.symm
    · exact absurd hgt (Nat.not_lt_zero _)
  refine ⟨fun s hlt => absurd hlt (Nat.not_lt_zero _), fun s _ => hs s, ?_⟩
  refine isPendingAt_iff.mpr ⟨hk.current, (hs _).1, ?_⟩
  have hcoarse := hk.coarse
  unfold StatusFits at hcoarse
  rw [(hs _).1] at hcoarse
  rcases hcoarse with hready | ⟨hdraft, -⟩ | ⟨-, hexhausted⟩
  · rw [hready]
    rfl
  · rw [hdraft]
    rfl
  · rw [(hs _).2] at hexhausted
    cases hexhausted

theorem IsSound.isUpTo_reset (h : e.IsSound) (now : Timestamp) :
    (e.reset now .ingested).1.IsUpTo .ingested := by
  refine (IsSound.isUpTo ?_ fun s => ?_).congr (step_reset now .ingested e)
  · exact h.settle_clearFrom .ingested fun k _ hk => absurd hk (Nat.not_lt_zero _)
  · have hs : Step.ingested ≤ s := Nat.zero_le _
    rw [step_settle, step_clearFrom, if_pos hs]
    exact ⟨rfl, rfl⟩

/-- A reset from the first step passes over no entity, and brings each back to that step. -/
theorem IsSound.resetVerdict (h : e.IsSound) (now : Timestamp) :
    (e.resetVerdict now .ingested).skipReason? = none ∧
      ((e.resetVerdict now .ingested).entity e).IsUpTo .ingested := by
  have hbefore : ∀ s : Step, ¬ s < .ingested := fun s => Nat.not_lt_zero _
  have hfailed : e.failedBefore? .ingested = none := by
    simp [failedBefore?, hbefore]
  have hrunning : e.runningStep?.filter (· < .ingested) = none := by
    simp [hbefore]
  rw [Entity.resetVerdict, hfailed, hrunning]
  dsimp only
  split
  · next hclean =>
    refine ⟨rfl, h.isUpTo fun s => ?_⟩
    have hs : s ∈ Step.onward .ingested := Step.mem_onward.mpr (Nat.zero_le _)
    simp only [needsReset, Bool.not_eq_true', List.any_eq_false] at hclean
    have hclean := hclean s hs
    simp only [Bool.or_eq_true, decide_eq_true_eq, not_or, not_not, Nat.not_lt, Nat.le_zero]
      at hclean
    exact ⟨hclean.1.1, hclean.1.2⟩
  · exact ⟨rfl, h.isUpTo_reset now⟩

end Entity

namespace Site

variable {σ : Type} {S : Site σ} {w : σ} {now : Timestamp} {m : Emitter σ}

end Site

namespace Memory

/-- As `checkedSetup`, with so many permits. -/
def permitted (concurrency : Nat) : RunSetup Memory :=
  { checkedSetup with concurrency := concurrency }

end Memory

namespace Site

end Site

namespace Memory

end Memory
end Publishing
