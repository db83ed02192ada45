import Publishing.Operation
import Publishing.Run

/-
The order of the steps, and the records that each change of an entity leaves.
-/

namespace Publishing

namespace Step

theorem lt_or_eq_or_gt (a b : Step) : a < b ∨ a = b ∨ b < a := by
  rcases Nat.lt_trichotomy a.index b.index with h | h | h
  · exact Or.inl h
  · exact Or.inr (Or.inl (index_inj h))
  · exact Or.inr (Or.inr h)

theorem lt_irrefl (a : Step) : ¬ a < a := Nat.lt_irrefl a.index

theorem le_refl (a : Step) : a ≤ a := Nat.le_refl a.index

theorem le_of_lt {a b : Step} (h : a < b) : a ≤ b := Nat.le_of_lt h

theorem ne_of_lt {a b : Step} (h : a < b) : a ≠ b := by
  rintro rfl
  exact lt_irrefl a h

theorem not_le_of_lt {a b : Step} (h : a < b) : ¬ b ≤ a := Nat.not_le_of_lt h

theorem not_lt_iff {a b : Step} : ¬ a < b ↔ b ≤ a := Nat.not_lt

theorem le_iff_eq_or_lt {a b : Step} : a ≤ b ↔ a = b ∨ a < b := by
  constructor
  · intro h
    rcases lt_or_eq_or_gt a b with hlt | heq | hgt
    · exact Or.inr hlt
    · exact Or.inl heq
    · exact absurd hgt (not_lt_iff.mpr h)
  · rintro (rfl | h)
    · exact Nat.le_refl _
    · exact Nat.le_of_lt h

theorem next?_eq_none {a : Step} : a.next? = none ↔ a = finalized := by
  cases a <;> decide

/-- The step after `a` is the least of those beyond `a`. -/
theorem lt_iff_next_le {a n : Step} (h : a.next? = some n) (s : Step) : a < s ↔ n ≤ s := by
  cases a <;> cases h <;> cases s <;> decide

theorem le_iff_lt_next {a n : Step} (h : a.next? = some n) (s : Step) : s ≤ a ↔ s < n := by
  rw [← not_lt_iff, lt_iff_next_le h, ← not_lt_iff, Decidable.not_not]

theorem onward_eq_cons (s : Step) : s.onward = s :: s.onward.tail := by
  cases s <;> decide

theorem le_finalized (s : Step) : s ≤ finalized := by
  cases s <;> decide

end Step

namespace StepRecord

theorem hasAttemptsLeft_iff {r : StepRecord} : r.hasAttemptsLeft ↔ r.attempts < maxAttempts := by
  simp [hasAttemptsLeft]

theorem hasAttemptsLeft_eq_false {r : StepRecord} :
    r.hasAttemptsLeft = false ↔ maxAttempts ≤ r.attempts := by
  simp [hasAttemptsLeft]

/-- While attempts are left the count is far from its bound. -/
theorem attempts_start {r : StepRecord} (now : Timestamp) (h : r.hasAttemptsLeft) :
    (r.start now).attempts = r.attempts + 1 := by
  have h := hasAttemptsLeft_iff.mp h
  exact Nat.min_eq_left (Nat.le_trans h (by decide))

end StepRecord

namespace Entity

theorem step_emit (now : Timestamp) (s : Step) (operation : String) (data : Json) (e : Entity)
    (s' : Step) : (e.emit now s operation data).1.step s' =
      if s' = s then (e.step s').note ⟨operation, now, data⟩ else e.step s' :=
  step_modifyStep ..

theorem step_beginStep (now : Timestamp) (s : Step) (e : Entity) (s' : Step) :
    (e.beginStep now s).step s' = if s' = s then (e.step s').start now else e.step s' :=
  step_modifyStep e s s' (.start now)

theorem step_completeStep (now : Timestamp) (s : Step) (ms : Nat) (e : Entity) (s' : Step) :
    (e.completeStep now s ms).step s' =
      if s' = s then (e.step s').succeed now ms else e.step s' :=
  step_modifyStep e s s' (.succeed now ms)

theorem step_failStep (now : Timestamp) (s : Step) (message : String) (ms : Nat) (e : Entity)
    (s' : Step) : (e.failStep now s message ms).step s' =
      if s' = s then (e.step s').fail now message ms else e.step s' :=
  step_modifyStep e s s' (.fail now message ms)

theorem step_requeue (now : Timestamp) (s : Step) (e : Entity) (s' : Step) :
    (e.requeue now s).step s' =
      if s' = s then { e.step s' with status := .pending, error := none } else e.step s' :=
  step_modifyStep e s s' _

theorem step_skipTo (now : Timestamp) (s : Step) (e : Entity) (s' : Step) :
    (e.skipTo now s).step s' =
      if s' < s then
        if (e.step s').status.isDone then e.step s'
        else { e.step s' with status := .skipped, error := none }.note (skipCheckpoint now s)
      else (e.step s').reopen :=
  StepTable.get_mapSteps ..

/-- Forget the attempts and results of `s` and of every later step. -/
def clearFrom (s : Step) (e : Entity) : Entity :=
  { e with steps := e.steps.mapSteps fun s' r => if s ≤ s' then r.clear else r }

theorem step_clearFrom (s : Step) (e : Entity) (s' : Step) :
    (e.clearFrom s).step s' = if s ≤ s' then (e.step s').clear else e.step s' :=
  StepTable.get_mapSteps ..

theorem step_settle (e : Entity) (s : Step) : e.settle.step s = e.step s := by
  unfold settle
  split <;> rfl

theorem runningStep?_spec {e : Entity} {s : Step} (h : e.runningStep? = some s) :
    (e.step s).status = .running := by
  simpa using List.find?_some h

theorem isPendingAt_iff {e : Entity} {s : Step} : e.isPendingAt s ↔
    e.currentStep = s ∧ (e.step s).status = .pending ∧ e.status.isSchedulable := by
  simp [isPendingAt, and_assoc]

/-- The first open step is the one whose predecessors are all done. -/
theorem firstOpenStep?_eq_some {e : Entity} {k : Step}
    (hk : (e.step k).status.isDone = false) (hb : ∀ s, s < k → (e.step s).status.isDone) :
    e.firstOpenStep? = some k := by
  have hbefore : k.predecessors.find? (fun s => !(e.step s).status.isDone) = none := by
    simpa [Step.mem_predecessors] using hb
  rw [firstOpenStep?, ← Step.predecessors_append_onward k, List.find?_append, hbefore,
    Step.onward_eq_cons k]
  simp [hk]

/-! ## Changes beside the work -/

/-- The steps of both entities have come equally far. -/
structure SameWork (e e' : Entity) : Prop where
  id : e'.id = e.id
  currentStep : e'.currentStep = e.currentStep
  stepStatus : ∀ s, (e'.step s).status = (e.step s).status
  attempts : ∀ s, (e'.step s).attempts = (e.step s).attempts

/-- And so have the entities as a whole. -/
structure SameProgress (e e' : Entity) : Prop extends SameWork e e' where
  status : e'.status = e.status

theorem SameWork.refl (e : Entity) : SameWork e e := ⟨rfl, rfl, fun _ => rfl, fun _ => rfl⟩

theorem SameWork.trans {e e' e'' : Entity} (h : SameWork e e') (h' : SameWork e' e'') :
    SameWork e e'' :=
  ⟨h'.id.trans h.id, h'.currentStep.trans h.currentStep,
    fun s => (h'.stepStatus s).trans (h.stepStatus s),
    fun s => (h'.attempts s).trans (h.attempts s)⟩

theorem SameProgress.refl (e : Entity) : SameProgress e e := ⟨.refl e, rfl⟩

theorem SameProgress.trans {e e' e'' : Entity} (h : SameProgress e e') (h' : SameProgress e' e'') :
    SameProgress e e'' :=
  ⟨h.toSameWork.trans h'.toSameWork, h'.status.trans h.status⟩

theorem sameProgress_emit (now : Timestamp) (s : Step) (operation : String) (data : Json)
    (e : Entity) : SameProgress e (e.emit now s operation data).1 := by
  refine ⟨⟨rfl, rfl, fun s' => ?_, fun s' => ?_⟩, rfl⟩
  · rw [step_emit]
    split <;> rfl
  · rw [step_emit]
    split <;> rfl

theorem sameWork_block (now : Timestamp) (e : Entity) : SameWork e (e.block now) :=
  ⟨rfl, rfl, fun _ => rfl, fun _ => rfl⟩

/-- An entity stays as it is, or it is blocked with a note at the step that it was found running. -/
theorem blockStuck_cases (now : Timestamp) (e : Entity) :
    e.blockStuck now = (e, []) ∨ ∃ s data, e.runningStep? = some s ∧
      data = .object [("attempt", .nat (e.step s).attempts)] ∧
      e.blockStuck now = (((e.block now).emit now s OperationName.stuckDetected data).1,
        [((e.block now).emit now s OperationName.stuckDetected data).2]) := by
  unfold blockStuck
  cases hs : e.runningStep? with
  | none => exact Or.inl rfl
  | some s =>
    dsimp only
    split
    · exact Or.inl rfl
    · exact Or.inr ⟨s, _, rfl, rfl, rfl⟩

theorem sameWork_blockStuck (now : Timestamp) (e : Entity) : SameWork e (e.blockStuck now).1 := by
  rcases blockStuck_cases now e with h | ⟨s, data, -, -, h⟩
  · rw [h]
    exact .refl e
  · rw [h]
    exact (sameWork_block now e).trans (sameProgress_emit ..).toSameWork

theorem metadata_blockStuck (now : Timestamp) (e : Entity) :
    (e.blockStuck now).1.metadata = e.metadata := by
  rcases blockStuck_cases now e with h | ⟨s, data, -, -, h⟩
  · rw [h]
  · rw [h]
    rfl

theorem sameWork_exhaust (now : Timestamp) (s : Step) (e : Entity) :
    SameWork e (e.exhaust now s).1 :=
  (sameWork_block now e).trans (sameProgress_emit ..).toSameWork

theorem sameProgress_mark (now : Timestamp) (runId : RunId) (s : Step) (e : Entity) :
    SameProgress (e.beginStep now s) (e.mark now runId s).1 :=
  sameProgress_emit ..

/-- Only the step itself is touched by a mark. -/
theorem step_mark (now : Timestamp) (runId : RunId) {s : Step} {e : Entity}
    (hl : (e.step s).hasAttemptsLeft) (s' : Step) :
    (((e.mark now runId s).1.step s').status =
      if s' = s then .running else (e.step s').status) ∧
    ((e.mark now runId s).1.step s').attempts =
      if s' = s then (e.step s').attempts + 1 else (e.step s').attempts := by
  have h := sameProgress_mark now runId s e
  rw [h.stepStatus, h.attempts, step_beginStep]
  by_cases hs : s' = s
  · subst hs
    simp only [if_true]
    exact ⟨rfl, StepRecord.attempts_start now hl⟩
  · simp only [if_neg hs, and_self]

end Entity
end Publishing
