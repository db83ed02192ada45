import Mathlib.Data.List.Nodup
import Publishing.Proofs.Changes
import Publishing.Proofs.WriteAhead

/-
What the check of a document accepts, and which changes of an entity keep to it.

The check asks that the current step of an entity be the first open one, that no later
step be done, that the attempts keep to their bound and that one step run at most.  It
asks nothing of the coarse status, and later steps may have failed or run already.  So a
change that makes a step current keeps to the check just when that step was current
before: this is the content of `IsValid.moved` and `IsValid.completeStep_iff`.
-/

namespace Publishing

namespace Step

/-- What is asked along the sequence is asked of any two steps in order. -/
theorem pairwise_all {R : Step → Step → Prop} : all.Pairwise R ↔ ∀ a b, a < b → R a b := by
  constructor
  · intro h a b hab
    have hindex : ∀ s : Step, ∃ hs : s.index < all.length, all[s.index] = s := by
      intro s; cases s <;> exact ⟨by decide, rfl⟩
    obtain ⟨ha, ha'⟩ := hindex a
    obtain ⟨hb, hb'⟩ := hindex b
    simpa only [ha', hb'] using List.pairwise_iff_getElem.mp h a.index b.index ha hb hab
  · intro h
    have hall : all.Pairwise (· < ·) := by decide
    exact hall.imp fun hab => h _ _ hab

theorem nodup_all : all.Nodup := by decide

theorem lt_trans {a b c : Step} (h : a < b) (h' : b < c) : a < c := Nat.lt_trans h h'

theorem le_following (s : Step) : s ≤ s.next?.getD s := by cases s <;> decide

theorem lt_following_or_eq (s : Step) : s < s.next?.getD s ∨ s.next?.getD s = finalized := by
  cases s <;> decide

theorem lt_of_lt_following {a s : Step} (h : a < s.next?.getD s) (hne : a ≠ s) : a < s := by
  revert h hne
  cases a <;> cases s <;> decide

theorem not_finalized_lt (s : Step) : ¬ finalized < s := not_lt_iff.mpr (le_finalized s)

end Step

namespace Entity

variable {e e' : Entity} {s k : Step} {now : Timestamp}

/-- What the check asks of an entity. -/
structure IsValid (e : Entity) : Prop where
  before : ∀ a, a < e.currentStep → (e.step a).status.isDone
  current : (e.step e.currentStep).status.isDone → e.currentStep = .finalized
  after : ∀ a, e.currentStep < a → (e.step a).status.isDone = false
  attempts_le : ∀ a, (e.step a).attempts ≤ maxAttempts
  running_unique : ∀ a b, (e.step a).status = .running → (e.step b).status = .running → a = b

/-! ## The check -/

theorem frontier_eq_iff : e.frontier = k ↔
    (∀ a, a < k → (e.step a).status.isDone) ∧ ((e.step k).status.isDone → k = .finalized) := by
  constructor
  · rintro rfl
    unfold frontier
    cases hk : e.firstOpenStep? with
    | none => exact ⟨fun a _ => firstOpenStep?_eq_none.mp hk a, fun _ => rfl⟩
    | some k =>
      refine ⟨fun a ha => isDone_of_lt_firstOpenStep? hk ha, fun hd => ?_⟩
      have hopen := List.find?_some hk
      rw [Option.getD_some] at hd
      rw [hd] at hopen
      cases hopen
  · rintro ⟨hb, hk⟩
    unfold frontier
    cases hd : (e.step k).status.isDone with
    | false => rw [firstOpenStep?_eq_some hd hb, Option.getD_some]
    | true =>
      obtain rfl := hk hd
      have hall : e.firstOpenStep? = none := by
        refine firstOpenStep?_eq_none.mpr fun a => ?_
        rcases Step.le_iff_eq_or_lt.mp (Step.le_finalized a) with rfl | ha
        · exact hd
        · exact hb a ha
      rw [hall, Option.getD_none]

/-- The records are done in order up to `k` and open from there on. -/
theorem ordered_frontier_iff :
    ((∀ a b, a < b → (e.step b).status.isDone → (e.step a).status.isDone) ∧ e.frontier = k) ↔
      (∀ a, a < k → (e.step a).status.isDone) ∧
      ((e.step k).status.isDone → k = .finalized) ∧
      ∀ a, k < a → (e.step a).status.isDone = false := by
  rw [frontier_eq_iff]
  constructor
  · rintro ⟨ho, hb, hk⟩
    refine ⟨hb, hk, fun a ha => Bool.eq_false_iff.mpr fun hd => ?_⟩
    obtain rfl := hk (ho k a ha hd)
    exact Step.not_finalized_lt a ha
  · rintro ⟨hb, hk, ha⟩
    refine ⟨fun a b hab hd => ?_, hb, hk⟩
    rcases Step.lt_or_eq_or_gt k b with h | rfl | h
    · rw [ha b h] at hd
      cases hd
    · exact hb a hab
    · exact hb a (Step.lt_trans hab h)

theorem scanSteps_eq_ok {opened : Bool} {l : List Step} : e.scanSteps opened l = .ok () ↔
    (∀ a ∈ l, (e.step a).attempts ≤ maxAttempts) ∧
    l.Pairwise (fun a b => (e.step b).status.isDone → (e.step a).status.isDone) ∧
    (opened → ∀ a ∈ l, (e.step a).status.isDone = false) := by
  induction l generalizing opened with
  | nil => simp [scanSteps]
  | cons s rest ih =>
    unfold scanSteps
    rw [List.pairwise_cons, List.forall_mem_cons, List.forall_mem_cons]
    refine throwIf_eq_ok.trans ((and_congr_right fun _ => throwIf_eq_ok.trans
      (and_congr_right fun _ => ih)).trans ?_)
    rw [Nat.not_lt]
    cases hd : (e.step s).status.isDone <;> cases opened <;> simp <;> tauto

theorem runningCount_le_one : e.runningCount ≤ 1 ↔
    ∀ a b, (e.step a).status = .running → (e.step b).status = .running → a = b := by
  have hnodup : (Step.all.filter fun s => (e.step s).status = .running).Nodup :=
    Step.nodup_all.filter _
  have hmem : ∀ a, a ∈ Step.all.filter (fun s => (e.step s).status = .running) ↔
      (e.step a).status = .running := by
    simp [Step.mem_all]
  rw [runningCount, List.countP_eq_length_filter]
  constructor
  · intro h a b ha hb
    by_contra hab
    have hpair : [a, b] ⊆ Step.all.filter fun s => (e.step s).status = .running := by
      simpa [hmem] using ⟨ha, hb⟩
    have htwo := (List.nodup_cons.mpr ⟨by simpa using hab, List.nodup_singleton b⟩
      : [a, b].Nodup).length_le_of_subset hpair
    exact Nat.not_succ_le_self 1 (Nat.le_trans htwo h)
  · intro h
    rcases hl : Step.all.filter fun s => (e.step s).status = .running with _ | ⟨a, _ | ⟨b, rest⟩⟩
    · exact Nat.zero_le 1
    · exact Nat.le_refl 1
    · rw [hl] at hnodup
      have hab : a = b := h a b ((hmem a).mp (by simp [hl])) ((hmem b).mp (by simp [hl]))
      exact absurd (hab ▸ List.mem_cons_self) (List.nodup_cons.mp hnodup).1

theorem check_eq_ok_iff : e.check = .ok () ↔ e.IsValid := by
  have hcheck : e.check = .ok () ↔ e.scanSteps false Step.all = .ok () ∧
      e.runningCount ≤ 1 ∧ e.frontier = e.currentStep := by
    unfold check
    refine bind_eq_ok.trans ⟨?_, fun ⟨hs, hr, hf⟩ => ⟨(), hs, ?_⟩⟩
    · rintro ⟨⟨⟩, hs, hx⟩
      obtain ⟨hr, hx⟩ := throwIf_eq_ok.mp hx
      refine ⟨hs, Nat.not_lt.mp hr, ?_⟩
      by_contra hf
      rw [if_pos (Ne.symm hf)] at hx
      cases hx
    · refine throwIf_eq_ok.mpr ⟨Nat.not_lt.mpr hr, ?_⟩
      rw [if_neg (not_not.mpr hf.symm)]
      rfl
  rw [hcheck, scanSteps_eq_ok, runningCount_le_one, Step.pairwise_all]
  constructor
  · rintro ⟨⟨hle, ho, -⟩, hu, hf⟩
    obtain ⟨hb, hc, ha⟩ := ordered_frontier_iff.mp ⟨ho, hf⟩
    exact ⟨hb, hc, ha, fun a => hle a (Step.mem_all a), hu⟩
  · rintro ⟨hb, hc, ha, hle, hu⟩
    obtain ⟨ho, hf⟩ := ordered_frontier_iff.mpr ⟨hb, hc, ha⟩
    exact ⟨⟨fun a _ => hle a, ho, nofun⟩, hu, hf⟩

/-! ## Changes -/

theorem IsValid.congr (h : e.IsValid) (hw : SameWork e e') : e'.IsValid where
  before a ha := by
    rw [hw.stepStatus]
    exact h.before a (hw.currentStep ▸ ha)
  current hd := by
    rw [hw.stepStatus, hw.currentStep] at hd
    rw [hw.currentStep]
    exact h.current hd
  after a ha := by
    rw [hw.stepStatus]
    exact h.after a (hw.currentStep ▸ ha)
  attempts_le a := hw.attempts a ▸ h.attempts_le a
  running_unique a b ha hb := h.running_unique a b (hw.stepStatus a ▸ ha) (hw.stepStatus b ▸ hb)

theorem SameWork.symm (h : SameWork e e') : SameWork e' e :=
  ⟨h.id.symm, h.currentStep.symm, fun s => (h.stepStatus s).symm, fun s => (h.attempts s).symm⟩

theorem isValid_congr (hw : SameWork e e') : e'.IsValid ↔ e.IsValid :=
  ⟨fun h => h.congr hw.symm, fun h => h.congr hw⟩

theorem isValid_draft (now : Timestamp) (id : String) (metadata : Json) :
    (draft now id metadata).IsValid where
  before a ha := absurd ha (Nat.not_lt_zero _)
  current := nofun
  after a _ := by rw [step, draft, StepTable.get_replicate]; rfl
  attempts_le a := by rw [step, draft, StepTable.get_replicate]; exact Nat.zero_le _
  running_unique a _ ha := by rw [step, draft, StepTable.get_replicate] at ha; cases ha

theorem isValid_finalized (now : Timestamp) (id : String) (metadata : Json) :
    (finalized now id metadata).IsValid where
  before a _ := by rw [step, finalized, StepTable.get_replicate]; rfl
  current _ := rfl
  after a ha := absurd ha (Step.not_finalized_lt a)
  attempts_le a := by rw [step, finalized, StepTable.get_replicate]; exact Nat.zero_le _
  running_unique a _ ha := by rw [step, finalized, StepTable.get_replicate] at ha; cases ha

/-- An open step that is made current, and stays open, has been current before. -/
theorem IsValid.moved (h : e.IsValid) (others : ∀ a, a ≠ s → e'.step a = e.step a)
    (current : e'.currentStep = s) (opened : (e.step s).status.isDone = false)
    (opened' : (e'.step s).status.isDone = false)
    (attempts : (e'.step s).attempts ≤ maxAttempts)
    (running : (e'.step s).status = .running → ∀ a, a ≠ s → (e.step a).status ≠ .running) :
    e'.IsValid ↔ e.currentStep = s := by
  constructor
  · intro h'
    rcases Step.lt_or_eq_or_gt e.currentStep s with hlt | heq | hgt
    · -- the step that was current would have to be done
      have hd := h'.before e.currentStep (current.symm ▸ hlt)
      rw [others _ (Step.ne_of_lt hlt)] at hd
      exact absurd (h.current hd ▸ hlt) (Step.not_finalized_lt s)
    · exact heq
    · exact absurd (h.before s hgt) (Bool.eq_false_iff.mp opened)
  · rintro rfl
    refine ⟨fun a ha => ?_, fun hd => ?_, fun a ha => ?_, fun a => ?_, fun a b ha hb => ?_⟩
    · rw [current] at ha
      rw [others a (Step.ne_of_lt ha)]
      exact h.before a ha
    · rw [current] at hd
      exact absurd hd (Bool.eq_false_iff.mp opened')
    · rw [current] at ha
      rw [others a (Step.ne_of_lt ha).symm]
      exact h.after a ha
    · by_cases hs : a = e.currentStep
      · exact hs ▸ attempts
      · rw [others a hs]
        exact h.attempts_le a
    · by_cases hs : a = e.currentStep <;> by_cases ht : b = e.currentStep
      · exact hs.trans ht.symm
      · subst hs
        rw [others b ht] at hb
        exact absurd hb (running ha b ht)
      · subst ht
        rw [others a hs] at ha
        exact absurd ha (running hb a hs)
      · rw [others a hs] at ha
        rw [others b ht] at hb
        exact h.running_unique a b ha hb

theorem IsValid.beginStep (h : e.IsValid) (now : Timestamp) (hs : e.isPendingAt s)
    (hl : (e.step s).hasAttemptsLeft) (hr : ∀ a, (e.step a).status ≠ .running) :
    (e.beginStep now s).IsValid := by
  obtain ⟨hcurrent, hpending, -⟩ := isPendingAt_iff.mp hs
  have hself : (e.beginStep now s).step s = (e.step s).start now := step_modifyStep_self ..
  refine (h.moved (s := s) (fun a ha => ?_) rfl ?_ ?_ ?_ fun _ a _ => hr a).mpr hcurrent
  · rw [step_beginStep, if_neg ha]
  · rw [hpending]; rfl
  · rw [hself]; rfl
  · rw [hself, StepRecord.attempts_start now hl]
    exact StepRecord.hasAttemptsLeft_iff.mp hl

theorem IsValid.failStep_iff (h : e.IsValid) (now : Timestamp) (message : String) (ms : Nat)
    (hs : (e.step s).status = .running) :
    (e.failStep now s message ms).IsValid ↔ e.currentStep = s := by
  have hself : (e.failStep now s message ms).step s = (e.step s).fail now message ms :=
    step_modifyStep_self ..
  refine h.moved (fun a ha => ?_) rfl ?_ ?_ ?_ fun hr => ?_
  · rw [step_failStep, if_neg ha]
  · rw [hs]; rfl
  · rw [hself]; rfl
  · rw [hself]; exact h.attempts_le s
  · rw [hself] at hr; cases hr

theorem IsValid.requeue_iff (h : e.IsValid) (now : Timestamp)
    (hs : (e.step s).status = .failed) : (e.requeue now s).IsValid ↔ e.currentStep = s := by
  have hself := step_requeue now s e s
  rw [if_pos rfl] at hself
  refine h.moved (fun a ha => ?_) rfl ?_ ?_ ?_ fun hr => ?_
  · rw [step_requeue, if_neg ha]
  · rw [hs]; rfl
  · rw [hself]; rfl
  · rw [hself]; exact h.attempts_le s
  · rw [hself] at hr; cases hr

/-- A running step that is completed has been the current one. -/
theorem IsValid.completeStep_iff (h : e.IsValid) (now : Timestamp) (ms : Nat)
    (hs : (e.step s).status = .running) :
    (e.completeStep now s ms).IsValid ↔ e.currentStep = s := by
  have hself : (e.completeStep now s ms).step s = (e.step s).succeed now ms :=
    step_modifyStep_self ..
  have hother : ∀ a, a ≠ s → (e.completeStep now s ms).step a = e.step a := fun a ha => by
    rw [step_completeStep, if_neg ha]
  have hopen : (e.step s).status.isDone = false := by rw [hs]; rfl
  constructor
  · intro h'
    rcases Step.lt_or_eq_or_gt e.currentStep s with hlt | heq | hgt
    · have hd := h'.before e.currentStep (Nat.lt_of_lt_of_le hlt s.le_following)
      rw [hother _ (Step.ne_of_lt hlt)] at hd
      exact absurd (h.current hd ▸ hlt) (Step.not_finalized_lt s)
    · exact heq
    · exact absurd (h.before s hgt) (Bool.eq_false_iff.mp hopen)
  · rintro rfl
    refine ⟨fun a ha => ?_, fun hd => ?_, fun a ha => ?_, fun a => ?_, fun a b ha hb => ?_⟩
    · by_cases hs : a = e.currentStep
      · rw [hs, hself]; rfl
      · rw [hother a hs]
        exact h.before a (Step.lt_of_lt_following ha hs)
    · rcases e.currentStep.lt_following_or_eq with hlt | heq
      · have ho := h.after _ hlt
        rw [← hother _ (Step.ne_of_lt hlt).symm] at ho
        exact absurd hd (Bool.eq_false_iff.mp ho)
      · exact heq
    · have hlt : e.currentStep < a := Nat.lt_of_le_of_lt e.currentStep.le_following ha
      rw [hother a (Step.ne_of_lt hlt).symm]
      exact h.after a hlt
    · by_cases hs : a = e.currentStep
      · rw [hs, hself]; exact h.attempts_le _
      · rw [hother a hs]; exact h.attempts_le a
    · have hrun : ∀ k, ((e.completeStep now e.currentStep ms).step k).status = .running →
          (e.step k).status = .running := by
        intro k hk
        by_cases hs : k = e.currentStep
        · rw [hs, hself] at hk; cases hk
        · rwa [hother k hs] at hk
      exact h.running_unique a b (hrun a ha) (hrun b hb)

/-- Skipping to a step makes every entity valid whose attempts keep to their bound. -/
theorem IsValid.skipTo (h : e.IsValid) (now : Timestamp) (s : Step) : (e.skipTo now s).IsValid := by
  have hbefore : ∀ a, a < s → ((e.skipTo now s).step a).status.isDone := by
    intro a ha
    rw [step_skipTo, if_pos ha]
    split
    · next hd => exact hd
    · rfl
  have hafter : ∀ a, ¬ a < s → ((e.skipTo now s).step a).status = .pending := by
    intro a ha
    rw [step_skipTo, if_neg ha]
    rfl
  have hrun : ∀ a, ((e.skipTo now s).step a).status ≠ .running := by
    intro a ha
    by_cases hlt : a < s
    · have hd := hbefore a hlt
      rw [ha] at hd
      cases hd
    · rw [hafter a hlt] at ha
      cases ha
  refine ⟨hbefore, fun hd => ?_, fun a ha => ?_, fun a => ?_, fun a _ ha => absurd ha (hrun a)⟩
  · change ((e.skipTo now s).step s).status.isDone at hd
    rw [hafter s (Step.lt_irrefl s)] at hd
    cases hd
  · rw [hafter a (Nat.lt_asymm ha)]
    rfl
  · rw [step_skipTo]
    split
    · split <;> exact h.attempts_le a
    · exact h.attempts_le a

theorem currentStep_settle (e : Entity) : e.settle.currentStep = e.frontier := by
  unfold settle frontier
  cases e.firstOpenStep? <;> rfl

/-- Clearing a step and all later ones leaves an entity valid once it is settled. -/
theorem IsValid.settle_clearFrom (h : e.IsValid) (s : Step) : (e.clearFrom s).settle.IsValid := by
  have hdone : ∀ a, ((e.clearFrom s).step a).status.isDone → a < s ∧ (e.step a).status.isDone := by
    intro a ha
    rw [step_clearFrom] at ha
    split at ha
    · cases ha
    · next hle => exact ⟨Nat.not_le.mp hle, ha⟩
  have hrun : ∀ a, ((e.clearFrom s).step a).status = .running → (e.step a).status = .running := by
    intro a ha
    rw [step_clearFrom] at ha
    split at ha
    · cases ha
    · exact ha
  have hordered : ∀ a b, a < b → ((e.clearFrom s).step b).status.isDone →
      ((e.clearFrom s).step a).status.isDone := by
    intro a b hab hb
    obtain ⟨hlt, hd⟩ := hdone b hb
    rw [step_clearFrom, if_neg (Step.not_le_of_lt (Step.lt_trans hab hlt))]
    exact (ordered_frontier_iff.mpr ⟨h.before, h.current, h.after⟩).1 a b hab hd
  obtain ⟨hb, hc, ha⟩ := ordered_frontier_iff.mp ⟨hordered, (currentStep_settle _).symm⟩
  refine ⟨fun a => ?_, ?_, fun a => ?_, fun a => ?_, fun a b => ?_⟩ <;> rw [step_settle]
  · exact hb a
  · exact hc
  · exact ha a
  · rw [step_clearFrom]
    split
    · exact Nat.zero_le _
    · exact h.attempts_le a
  · rw [step_settle]
    exact fun ha hb => h.running_unique a b (hrun a ha) (hrun b hb)

end Entity

namespace Document

variable {d : Document}

theorem checkEntries_eq_ok_iff {l : List (String × Entity)} : checkEntries l = .ok () ↔
    ∀ p ∈ l, p.1 = p.2.id ∧ p.2.check = .ok () := by
  refine ⟨isFiled_of_checkEntries, fun h => ?_⟩
  induction l with
  | nil => rfl
  | cons p rest ih =>
    obtain ⟨⟨hk, hc⟩, hrest⟩ := List.forall_mem_cons.mp h
    unfold checkEntries
    exact throwIf_eq_ok.mpr ⟨not_not.mpr hk, bind_eq_ok.mpr ⟨(), hc, ih hrest⟩⟩

/-- What the check accepts. -/
theorem check_eq_ok_iff : d.check = .ok () ↔
    isVersion d.version ∧ d.IsFiled ∧ d.Every Entity.IsValid := by
  have hentries : checkEntries d.entities.entries = .ok () ↔
      d.IsFiled ∧ d.Every Entity.IsValid := by
    rw [checkEntries_eq_ok_iff]
    refine ⟨fun h => ⟨fun id e he => ?_, fun id e he => ?_⟩, fun ⟨hf, hv⟩ p hp => ?_⟩
    · exact (h _ (Keyed.find?_eq_some_iff.mp he)).1.symm
    · exact Entity.check_eq_ok_iff.mp (h _ (Keyed.find?_eq_some_iff.mp he)).2
    · have he : d.find? p.1 = some p.2 := Keyed.find?_eq_some_iff.mpr hp
      exact ⟨(hf _ _ he).symm, Entity.check_eq_ok_iff.mpr (hv _ _ he)⟩
  unfold check
  refine throwIf_eq_ok.trans (and_congr ?_ hentries)
  rw [Bool.not_eq_true', Bool.not_eq_false]

end Document
end Publishing
