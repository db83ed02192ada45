import Publishing.Proofs.Records

/-
Where a tracked entity can stand.

An entity that only operations and runs have touched is either finished, or it stands
at one step: the steps before it are done, those after it are pending, and the coarse
status says what the record of that step says.  This is more than what a document is
checked for when it is loaded.
-/

namespace Publishing

namespace Entity

/-- Every step is done, and the last one by being completed. -/
structure IsFinished (e : Entity) : Prop where
  done : ∀ s, (e.step s).status.isDone
  last : (e.step .finalized).status = .completed
  current : e.currentStep = .finalized
  status : e.status = .completed

/-- Whether the coarse status goes with the record of the step `k` that the entity
stands at. -/
def StatusFits (e : Entity) (k : Step) : Prop :=
  match (e.step k).status with
  | .pending =>
    e.status = .ready ∨ (e.status = .draft ∧ k = .ingested) ∨
      (e.status = .blocked ∧ (e.step k).attempts = maxAttempts)
  | .running => e.status = .inProgress ∨ e.status = .blocked
  | .failed => e.status = if maxAttempts ≤ (e.step k).attempts then .blocked else .failed
  | .completed | .skipped => False

/-- The steps before `k` are done and those after it are pending. -/
structure StandsAt (e : Entity) (k : Step) : Prop where
  before : ∀ s, s < k → (e.step s).status.isDone
  after : ∀ s, k < s → (e.step s).status = .pending
  current : e.currentStep = k
  coarse : e.StatusFits k

structure IsSound (e : Entity) : Prop where
  attempts_le : ∀ s, (e.step s).attempts ≤ maxAttempts
  attempts_pos : ∀ s, (e.step s).status = .running ∨ (e.step s).status = .failed →
    1 ≤ (e.step s).attempts
  standing : e.IsFinished ∨ ∃ k, e.StandsAt k

theorem StatusFits.congr {e e' : Entity} (h : SameProgress e e') {k : Step}
    (hk : e.StatusFits k) : e'.StatusFits k := by
  unfold StatusFits at hk ⊢
  rw [h.stepStatus, h.status, h.attempts]
  exact hk

theorem StandsAt.congr {e e' : Entity} (h : SameProgress e e') {k : Step}
    (hk : e.StandsAt k) : e'.StandsAt k where
  before s hs := by rw [h.stepStatus]; exact hk.before s hs
  after s hs := by rw [h.stepStatus]; exact hk.after s hs
  current := by rw [h.currentStep]; exact hk.current
  coarse := hk.coarse.congr h

theorem IsFinished.congr {e e' : Entity} (h : SameProgress e e') (hf : e.IsFinished) :
    e'.IsFinished where
  done s := by rw [h.stepStatus]; exact hf.done s
  last := by rw [h.stepStatus]; exact hf.last
  current := by rw [h.currentStep]; exact hf.current
  status := by rw [h.status]; exact hf.status

theorem IsSound.congr {e e' : Entity} (h : SameProgress e e') (he : e.IsSound) : e'.IsSound where
  attempts_le s := by rw [h.attempts]; exact he.attempts_le s
  attempts_pos s hs := by
    rw [h.stepStatus] at hs
    rw [h.attempts]
    exact he.attempts_pos s hs
  standing := he.standing.imp (IsFinished.congr h) fun ⟨k, hk⟩ => ⟨k, hk.congr h⟩

/-! ## What an entity stands at -/

/-- The step that an entity stands at is not done. -/
theorem StandsAt.not_done {e : Entity} {k : Step} (h : e.StandsAt k) :
    (e.step k).status.isDone = false := by
  have hc := h.coarse
  unfold StatusFits at hc
  cases hs : (e.step k).status <;> rw [hs] at hc
  · rfl
  · rfl
  · exact hc.elim
  · rfl
  · exact hc.elim

theorem StandsAt.status_ne_completed {e : Entity} {k : Step} (h : e.StandsAt k) :
    e.status ≠ .completed := by
  have hc := h.coarse
  unfold StatusFits at hc
  intro hs
  rw [hs] at hc
  cases hk : (e.step k).status <;> rw [hk] at hc
  · simp at hc
  · simp at hc
  · exact hc
  · revert hc
    dsimp only
    split <;> exact nofun
  · exact hc

/-- All steps of a sound entity are done exactly when it is completed. -/
theorem IsSound.completed_iff {e : Entity} (h : e.IsSound) :
    e.status = .completed ↔ ∀ s, (e.step s).status.isDone := by
  rcases h.standing with hf | ⟨k, hk⟩
  · exact ⟨fun _ => hf.done, fun _ => hf.status⟩
  · constructor
    · intro hs
      exact absurd hs hk.status_ne_completed
    · intro hd
      exact absurd (hd k) (by rw [hk.not_done]; exact nofun)

/-- A record that is not pending and not done marks the step that the entity stands
at. -/
theorem IsSound.standsAt_of_active {e : Entity} (h : e.IsSound) {s : Step}
    (hp : (e.step s).status ≠ .pending) (hd : (e.step s).status.isDone = false) :
    e.StandsAt s := by
  rcases h.standing with hf | ⟨k, hk⟩
  · exact absurd (hf.done s) (by rw [hd]; exact nofun)
  · rcases Step.lt_or_eq_or_gt s k with hlt | rfl | hgt
    · exact absurd (hk.before s hlt) (by rw [hd]; exact nofun)
    · exact hk
    · exact absurd (hk.after s hgt) hp

theorem IsSound.standsAt_of_running {e : Entity} (h : e.IsSound) {s : Step}
    (hs : (e.step s).status = .running) : e.StandsAt s :=
  h.standsAt_of_active (by rw [hs]; decide) (by rw [hs]; rfl)

theorem IsSound.standsAt_of_failed {e : Entity} (h : e.IsSound) {s : Step}
    (hs : (e.step s).status = .failed) : e.StandsAt s :=
  h.standsAt_of_active (by rw [hs]; decide) (by rw [hs]; rfl)

/-- An entity stands at its current step when that step is pending. -/
theorem IsSound.standsAt_of_isPendingAt {e : Entity} (h : e.IsSound) {s : Step}
    (hs : e.isPendingAt s) : e.StandsAt s := by
  simp only [isPendingAt, Bool.and_eq_true, decide_eq_true_eq] at hs
  obtain ⟨⟨hcur, hst⟩, -⟩ := hs
  rcases h.standing with hf | ⟨k, hk⟩
  · exact absurd (hf.done s) (by rw [hst]; decide)
  · exact (hk.current.symm.trans hcur) ▸ hk

theorem statusFits_ready {e : Entity} {k : Step} (hk : (e.step k).status = .pending)
    (hs : e.status = .ready) : e.StatusFits k := by
  unfold StatusFits
  rw [hk]
  exact Or.inl hs

theorem statusFits_failed {e : Entity} {k : Step} (hk : (e.step k).status = .failed)
    (hs : e.status = if (e.step k).hasAttemptsLeft then .failed else .blocked) :
    e.StatusFits k := by
  unfold StatusFits
  rw [hk]
  show e.status = _
  rw [hs]
  simp only [StepRecord.hasAttemptsLeft, decide_eq_true_eq]
  split <;> split <;> first | rfl | omega

/-! ## What keeps an entity sound -/

theorem isSound_draft (now : Timestamp) (id : String) (metadata : Json) :
    (draft now id metadata).IsSound where
  attempts_le _ := by simp [draft, step, StepRecord.fresh]
  attempts_pos _ := by simp [draft, step, StepRecord.fresh]
  standing := by
    refine Or.inr ⟨.ingested, ⟨fun s hs => ?_, fun s _ => ?_, rfl, ?_⟩⟩
    · exact absurd hs (Nat.not_lt_zero _)
    · simp [draft, step, StepRecord.fresh]
    · exact Or.inr (Or.inl ⟨rfl, rfl⟩)

theorem isSound_finalized (now : Timestamp) (id : String) (metadata : Json) :
    (finalized now id metadata).IsSound where
  attempts_le _ := by simp [finalized, step, StepRecord.fresh]
  attempts_pos _ := by simp [finalized, step]
  standing := by
    refine Or.inl ⟨fun s => ?_, ?_, rfl, rfl⟩
    · simp [finalized, step, StepStatus.isDone]
    · simp [finalized, step]

theorem IsSound.emit {e : Entity} (h : e.IsSound) (now : Timestamp) (s : Step)
    (operation : String) (data : Json) : (e.emit now s operation data).1.IsSound :=
  h.congr (sameProgress_emit now s operation data e)

/-- A change of the record of the step `k` alone leaves an entity standing at `k`. -/
theorem StandsAt.of_others {e e' : Entity} {k : Step} (h : e.StandsAt k)
    (ho : ∀ s, s ≠ k → e'.step s = e.step s) (hc : e'.currentStep = k)
    (hf : e'.StatusFits k) : e'.StandsAt k where
  before s hs := by rw [ho s (Step.ne_of_lt hs)]; exact h.before s hs
  after s hs := by rw [ho s (Step.ne_of_lt hs).symm]; exact h.after s hs
  current := hc
  coarse := hf

theorem IsSound.of_others {e e' : Entity} {k : Step} (h : e.IsSound)
    (ho : ∀ s, s ≠ k → e'.step s = e.step s) (hle : (e'.step k).attempts ≤ maxAttempts)
    (hpos : (e'.step k).status = .running ∨ (e'.step k).status = .failed →
      1 ≤ (e'.step k).attempts)
    (hst : e'.IsFinished ∨ ∃ k, e'.StandsAt k) : e'.IsSound where
  attempts_le s := by
    by_cases hs : s = k
    · exact hs ▸ hle
    · rw [ho s hs]; exact h.attempts_le s
  attempts_pos s := by
    by_cases hs : s = k
    · exact hs ▸ hpos
    · rw [ho s hs]; exact h.attempts_pos s
  standing := hst

theorem IsSound.beginStep {e : Entity} (h : e.IsSound) (now : Timestamp) {s : Step}
    (hs : e.isPendingAt s) (hl : (e.step s).hasAttemptsLeft) : (e.beginStep now s).IsSound := by
  have hk := h.standsAt_of_isPendingAt hs
  have ho : ∀ s', s' ≠ s → (e.beginStep now s).step s' = e.step s' := by
    intro s' hne
    rw [step_beginStep, if_neg hne]
  have hself : (e.beginStep now s).step s = (e.step s).start now := by
    rw [step_beginStep, if_pos rfl]
  have hatt : ((e.beginStep now s).step s).attempts = (e.step s).attempts + 1 := by
    rw [hself, StepRecord.attempts_start now hl]
  refine h.of_others ho ?_ ?_ (Or.inr ⟨s, hk.of_others ho rfl ?_⟩)
  · rw [hatt]
    exact StepRecord.hasAttemptsLeft_iff.mp hl
  · intro _
    rw [hatt]
    exact Nat.le_add_left _ _
  · unfold StatusFits
    rw [hself]
    exact Or.inl rfl

/-- Completing the running step leads to the next one, or to the end. -/
theorem IsSound.completeStep {e : Entity} (h : e.IsSound) (now : Timestamp) {s : Step} (ms : Nat)
    (hs : (e.step s).status = .running) : (e.completeStep now s ms).IsSound := by
  have hk := h.standsAt_of_running hs
  have ho : ∀ s', s' ≠ s → (e.completeStep now s ms).step s' = e.step s' := by
    intro s' hne
    rw [step_completeStep, if_neg hne]
  have hself : (e.completeStep now s ms).step s = (e.step s).succeed now ms := by
    rw [step_completeStep, if_pos rfl]
  have hdone : ∀ s', s' ≤ s → ((e.completeStep now s ms).step s').status.isDone := by
    intro s' hle
    rcases Step.le_iff_eq_or_lt.mp hle with rfl | hlt
    · rw [hself]; rfl
    · rw [ho s' (Step.ne_of_lt hlt)]; exact hk.before s' hlt
  refine h.of_others ho ?_ ?_ ?_
  · rw [hself]
    exact h.attempts_le s
  · rw [hself]
    rintro (hr | hr) <;> exact absurd hr (by simp [StepRecord.succeed])
  · cases hn : s.next? with
    | none =>
      obtain rfl := Step.next?_eq_none.mp hn
      refine Or.inl ⟨fun s' => hdone s' (Step.le_finalized s'), ?_, rfl, rfl⟩
      rw [hself]
      rfl
    | some n =>
      have hafter : ∀ s', n ≤ s' → ((e.completeStep now s ms).step s').status = .pending := by
        intro s' hle
        have hlt := (Step.lt_iff_next_le hn s').mpr hle
        rw [ho s' (Step.ne_of_lt hlt).symm]
        exact hk.after s' hlt
      refine Or.inr ⟨n, fun s' hlt => ?_, fun s' hgt => ?_, ?_, ?_⟩
      · exact hdone s' ((Step.le_iff_lt_next hn s').mpr hlt)
      · exact hafter s' (Nat.le_of_lt hgt)
      · simp [Entity.completeStep, hn]
      · exact statusFits_ready (hafter n (Nat.le_refl _)) (by simp [Entity.completeStep, hn])

theorem IsSound.failStep {e : Entity} (h : e.IsSound) (now : Timestamp) {s : Step}
    (message : String) (ms : Nat) (hs : (e.step s).status = .running) :
    (e.failStep now s message ms).IsSound := by
  have hk := h.standsAt_of_running hs
  have ho : ∀ s', s' ≠ s → (e.failStep now s message ms).step s' = e.step s' := by
    intro s' hne
    rw [step_failStep, if_neg hne]
  have hself : (e.failStep now s message ms).step s = (e.step s).fail now message ms := by
    rw [step_failStep, if_pos rfl]
  refine h.of_others ho ?_ ?_ (Or.inr ⟨s, hk.of_others ho rfl ?_⟩)
  · rw [hself]
    exact h.attempts_le s
  · intro _
    rw [hself]
    exact h.attempts_pos s (Or.inl hs)
  · refine statusFits_failed ?_ ?_ <;> rw [hself] <;> rfl

/-- Blocking changes nothing but the coarse status. -/
theorem IsSound.block {e : Entity} (h : e.IsSound) (now : Timestamp) {k : Step}
    (hk : e.StandsAt k)
    (hs : (e.step k).status = .running ∨
      ((e.step k).status = .pending ∧ (e.step k).hasAttemptsLeft = false)) :
    (e.block now).IsSound := by
  have hstep : ∀ s, (e.block now).step s = e.step s := fun _ => rfl
  refine h.of_others (k := k) (fun s _ => hstep s) (h.attempts_le k) (h.attempts_pos k)
    (Or.inr ⟨k, hk.of_others (fun s _ => hstep s) hk.current ?_⟩)
  unfold StatusFits
  rw [hstep]
  rcases hs with hs | ⟨hs, hl⟩
  · rw [hs]
    exact Or.inr rfl
  · rw [hs]
    have hge := StepRecord.hasAttemptsLeft_eq_false.mp hl
    exact Or.inr (Or.inr ⟨rfl, Nat.le_antisymm (h.attempts_le k) hge⟩)

theorem IsSound.requeue {e : Entity} (h : e.IsSound) (now : Timestamp) {s : Step}
    (hs : (e.step s).status = .failed) : (e.requeue now s).IsSound := by
  have hk := h.standsAt_of_failed hs
  have ho : ∀ s', s' ≠ s → (e.requeue now s).step s' = e.step s' := by
    intro s' hne
    rw [step_requeue, if_neg hne]
  have hself : (e.requeue now s).step s =
      { e.step s with status := .pending, error := none } := by
    rw [step_requeue, if_pos rfl]
  refine h.of_others ho ?_ ?_ (Or.inr ⟨s, hk.of_others ho rfl ?_⟩)
  · rw [hself]
    exact h.attempts_le s
  · rw [hself]
    rintro (hr | hr) <;> cases hr
  · refine statusFits_ready ?_ rfl
    rw [hself]

theorem IsSound.skipTo {e : Entity} (h : e.IsSound) (now : Timestamp) (s : Step) :
    (e.skipTo now s).IsSound := by
  have hlt : ∀ s', s' < s → ((e.skipTo now s).step s').status.isDone := by
    intro s' hs'
    rw [step_skipTo, if_pos hs']
    split
    · assumption
    · rfl
  have hge : ∀ s', ¬ s' < s → ((e.skipTo now s).step s').status = .pending := by
    intro s' hs'
    rw [step_skipTo, if_neg hs']
    rfl
  have hatt : ∀ s', ((e.skipTo now s).step s').attempts = (e.step s').attempts := by
    intro s'
    rw [step_skipTo]
    split
    · split <;> rfl
    · rfl
  refine ⟨fun s' => ?_, fun s' hs' => ?_, Or.inr ⟨s, hlt, fun s' hgt => ?_, rfl, ?_⟩⟩
  · rw [hatt]
    exact h.attempts_le s'
  · by_cases hs : s' < s
    · have hd := hlt s' hs
      rcases hs' with hs' | hs' <;> rw [hs'] at hd <;> cases hd
    · rw [hge s' hs] at hs'
      rcases hs' with hs' | hs' <;> cases hs'
  · exact hge s' (Nat.lt_asymm hgt)
  · exact statusFits_ready (hge s (Step.lt_irrefl s)) rfl

/-- With the records from `s` on cleared, an entity that does not stand at a failed or running step
before `s` has one pending step after which nothing has begun and before which all is done. -/
theorem IsSound.exists_front_clearFrom {e : Entity} (h : e.IsSound) (s : Step)
    (hs : ∀ k, e.StandsAt k → k < s → (e.step k).status = .pending) :
    ∃ k, ((e.clearFrom s).step k).status = .pending ∧
      (∀ s', s' < k → ((e.clearFrom s).step s').status.isDone) ∧
      (∀ s', k < s' → ((e.clearFrom s).step s').status = .pending) := by
  have hlt : ∀ s', s' < s → (e.clearFrom s).step s' = e.step s' := by
    intro s' hs'
    rw [step_clearFrom, if_neg (Step.not_le_of_lt hs')]
  have hge : ∀ s', s ≤ s' → ((e.clearFrom s).step s').status = .pending := by
    intro s' hs'
    rw [step_clearFrom, if_pos hs']
    rfl
  -- it is the step that the entity stands at, if that lies before `s`
  by_cases hstand : ∃ k, e.StandsAt k ∧ k < s
  · obtain ⟨k, hk, hks⟩ := hstand
    refine ⟨k, ?_, fun s' hs' => ?_, fun s' hs' => ?_⟩
    · rw [hlt k hks]
      exact hs k hk hks
    · rw [hlt s' (Nat.lt_trans hs' hks)]
      exact hk.before s' hs'
    · by_cases hle : s ≤ s'
      · exact hge s' hle
      · rw [hlt s' (Nat.lt_of_not_le hle)]
        exact hk.after s' hs'
  · refine ⟨s, hge s (Nat.le_refl _), fun s' hs' => ?_, fun s' hs' => hge s' (Nat.le_of_lt hs')⟩
    rw [hlt s' hs']
    rcases h.standing with hf | ⟨k, hk⟩
    · exact hf.done s'
    · have hks : s.index ≤ k.index := Nat.le_of_not_lt fun hks => hstand ⟨k, hk, hks⟩
      exact hk.before s' (Nat.lt_of_lt_of_le hs' hks)

/-- An entity that is settled stands at its pending step, if all before it is done and nothing
after it has begun. -/
theorem standsAt_settle {e : Entity} {k : Step} (hk : (e.step k).status = .pending)
    (hb : ∀ s, s < k → (e.step s).status.isDone) (ha : ∀ s, k < s → (e.step s).status = .pending) :
    e.settle.StandsAt k := by
  have hsettle : e.settle = { e with currentStep := k, status := e.statusAt k } := by
    rw [settle, firstOpenStep?_eq_some (by rw [hk]; rfl) hb]
  refine ⟨fun s hs => ?_, fun s hs => ?_, by rw [hsettle], ?_⟩
  · rw [step_settle]
    exact hb s hs
  · rw [step_settle]
    exact ha s hs
  · unfold StatusFits
    rw [step_settle, hk, hsettle]
    show e.statusAt k = .ready ∨ (e.statusAt k = .draft ∧ k = .ingested) ∨ _
    unfold statusAt
    rw [hk]
    dsimp only
    split
    · exact Or.inl rfl
    · next hany =>
      refine Or.inr (Or.inl ⟨rfl, ?_⟩)
      -- if there are steps before `k`, the first of them is done
      rcases Step.lt_or_eq_or_gt .ingested k with hpos | heq | hneg
      · exact absurd (List.any_eq_true.mpr ⟨.ingested, Step.mem_all _, hb _ hpos⟩) hany
      · exact heq.symm
      · exact absurd hneg (Nat.not_lt_zero _)

/-- Clearing the records from `s` on and settling keeps an entity sound, provided that
it does not stand at a failed or running step before `s`. -/
theorem IsSound.settle_clearFrom {e : Entity} (h : e.IsSound) (s : Step)
    (hs : ∀ k, e.StandsAt k → k < s → (e.step k).status = .pending) :
    (e.clearFrom s).settle.IsSound := by
  obtain ⟨k, hk, hb, ha⟩ := h.exists_front_clearFrom s hs
  refine ⟨fun s' => ?_, fun s' => ?_, Or.inr ⟨k, standsAt_settle hk hb ha⟩⟩
  · rw [step_settle, step_clearFrom]
    split
    · exact Nat.zero_le _
    · exact h.attempts_le s'
  · rw [step_settle, step_clearFrom]
    split
    · rintro (hr | hr) <;> cases hr
    · exact h.attempts_pos s'

end Entity
end Publishing
