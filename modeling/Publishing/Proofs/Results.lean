import Publishing.Proofs.Forecasts
import Publishing.Proofs.Growth
import Publishing.Proofs.Lasting

/-
What the records of the steps tell of their executions.

Errors and times are written and cleared in many places: when a step begins, completes or fails,
when it is retried, skipped or reset.  By its status a record then holds no result at all, or that
of an execution that goes on, or that of one that has ended.  If it failed, the failure is the
last one on record for the entity: whatever else could fail has to run first, and an entity runs
only where it stands.
-/

namespace Publishing

/-- Whether a record holds nothing of an execution. -/
structure StepRecord.IsBlank (r : StepRecord) : Prop where
  startedAt : r.startedAt = none
  completedAt : r.completedAt = none
  durationMs : r.durationMs = none
  error : r.error = none

theorem StepRecord.isBlank_reopen (r : StepRecord) : r.reopen.IsBlank := ⟨rfl, rfl, rfl, rfl⟩

theorem Checkpoint.operations_of_readsBack {l l' : List Checkpoint}
    (h : List.Forall₂ Checkpoint.ReadsBack l l') : l'.map (·.operation) = l.map (·.operation) := by
  induction h with
  | nil => rfl
  | cons hc _ ih => rw [List.map_cons, List.map_cons, ih, hc.operation]

namespace Entity

variable {e e' : Entity} {s k : Step} {f : Failure} {now : Timestamp}

/-- Whether `f` is the last failure on record, and tells of the execution of `s` that the record of
the step has the times of. -/
structure LastFailed (s : Step) (f : Failure) (e : Entity) : Prop where
  last : e.errors.getLast? = some f
  step : f.step = s
  attempt : f.attempt = (e.step s).attempts
  completedAt : (e.step s).completedAt = some f.timestamp
  startedAt : (e.step s).startedAt.isSome
  durationMs : (e.step s).durationMs.isSome

/-- Whether nothing has happened to a step since it was retried: it has no error any more, but
still the times of the execution that the last failure tells of. -/
structure IsRetriedAt (s : Step) (e : Entity) : Prop where
  status : (e.step s).status = .pending
  error : (e.step s).error = none
  left : (e.step s).hasAttemptsLeft
  before : ∀ a, a < s → (e.step a).status.isDone
  failed : ∃ f, e.LastFailed s f
  requested :
    (e.step s).checkpoints.getLast?.map (·.operation) = some OperationName.retryRequested

theorem IsRetriedAt.not_isBlank (h : e.IsRetriedAt s) : ¬ (e.step s).IsBlank := by
  intro hblank
  obtain ⟨f, hf⟩ := h.failed
  have hstarted := hf.startedAt
  rw [hblank.startedAt] at hstarted
  cases hstarted

theorem not_isRetriedAt {status : StepStatus} (hs : (e.step s).status = status)
    (hne : status ≠ .pending) : ¬ e.IsRetriedAt s :=
  fun h => hne (hs.symm.trans h.status)

/-- What the record of a step holds, by its status. -/
inductive IsRecordedAt (s : Step) (e : Entity) : Prop
  | blank (status : (e.step s).status = .pending) (blank : (e.step s).IsBlank)
  | retried (retried : e.IsRetriedAt s)
  | running (status : (e.step s).status = .running) (startedAt : (e.step s).startedAt.isSome)
      (completedAt : (e.step s).completedAt = none) (durationMs : (e.step s).durationMs = none)
      (error : (e.step s).error = none)
  | completed (status : (e.step s).status = .completed)
      (completedAt : (e.step s).completedAt.isSome) (error : (e.step s).error = none)
  | skipped (status : (e.step s).status = .skipped) (error : (e.step s).error = none)
  | failed (status : (e.step s).status = .failed) (f : Failure) (last : e.LastFailed s f)
      (error : (e.step s).error = some f.message)

/-- What the records of all steps hold, and what the failures are of. -/
structure IsRecorded (e : Entity) : Prop where
  step : ∀ s, e.IsRecordedAt s
  errors : ∀ f ∈ e.errors, 1 ≤ f.attempt ∧ f.attempt ≤ maxAttempts

theorem IsRecordedAt.of_running (h : e.IsRecordedAt s) (hs : (e.step s).status = .running) :
    (e.step s).startedAt.isSome ∧ (e.step s).completedAt = none ∧
      (e.step s).durationMs = none := by
  cases h with
  | running _ startedAt completedAt durationMs => exact ⟨startedAt, completedAt, durationMs⟩
  | retried hr => exact absurd hr (not_isRetriedAt hs nofun)
  | blank status | completed status | skipped status | failed status =>
    rw [hs] at status
    cases status

theorem IsRecordedAt.of_completed (h : e.IsRecordedAt s) (hs : (e.step s).status = .completed) :
    (e.step s).completedAt.isSome := by
  cases h with
  | completed _ completedAt => exact completedAt
  | retried hr => exact absurd hr (not_isRetriedAt hs nofun)
  | blank status | running status | skipped status | failed status =>
    rw [hs] at status
    cases status

theorem IsRecordedAt.of_failed (h : e.IsRecordedAt s) (hs : (e.step s).status = .failed) :
    ∃ f, e.LastFailed s f ∧ (e.step s).error = some f.message := by
  cases h with
  | failed _ f last error => exact ⟨f, last, error⟩
  | retried hr => exact absurd hr (not_isRetriedAt hs nofun)
  | blank status | running status | completed status | skipped status =>
    rw [hs] at status
    cases status

/-- A pending record has no error, and no result at all unless it was just retried. -/
theorem IsRecordedAt.of_pending (h : e.IsRecordedAt s) (hs : (e.step s).status = .pending) :
    (e.step s).error = none ∧ ((e.step s).IsBlank ↔ ¬ e.IsRetriedAt s) := by
  cases h with
  | blank _ blank => exact ⟨blank.error, iff_of_true blank fun hr => hr.not_isBlank blank⟩
  | retried hr => exact ⟨hr.error, iff_of_false hr.not_isBlank fun hn => hn hr⟩
  | running status | completed status | skipped status | failed status =>
    rw [hs] at status
    cases status

theorem IsRecordedAt.error_iff (h : e.IsRecordedAt s) :
    (e.step s).error.isSome ↔ (e.step s).status = .failed := by
  cases h with
  | blank status blank => simp [status, blank.error]
  | retried hr => simp [hr.status, hr.error]
  | running status _ _ _ error | completed status _ error | skipped status error =>
    simp [status, error]
  | failed status f _ error => simp [status, error]

/-! ## Changes beside the results -/

theorem LastFailed.congr {l : List Checkpoint} (h : e.LastFailed s f)
    (hstep : e'.step s = { e.step s with checkpoints := l }) (herrors : e'.errors = e.errors) :
    e'.LastFailed s f where
  last := by rw [herrors, h.last]
  step := h.step
  attempt := by rw [hstep, h.attempt]
  completedAt := by rw [hstep, h.completedAt]
  startedAt := by rw [hstep, h.startedAt]
  durationMs := by rw [hstep, h.durationMs]

/-- The checkpoints matter only for a step that was retried, and so do the steps before. -/
theorem IsRecordedAt.congr {l : List Checkpoint} (h : e.IsRecordedAt s)
    (hstep : e'.step s = { e.step s with checkpoints := l }) (herrors : e'.errors = e.errors)
    (hretried : e.IsRetriedAt s → (∀ a, a < s → (e'.step a).status.isDone) ∧
      l.getLast?.map (·.operation) = (e.step s).checkpoints.getLast?.map (·.operation)) :
    e'.IsRecordedAt s := by
  cases h with
  | blank status blank =>
    refine .blank ?_ ?_
    · rw [hstep, status]
    · rw [hstep]
      exact ⟨blank.startedAt, blank.completedAt, blank.durationMs, blank.error⟩
  | retried h =>
    obtain ⟨hbefore, hlast⟩ := hretried h
    obtain ⟨f, hf⟩ := h.failed
    refine .retried ⟨?_, ?_, ?_, hbefore, ⟨f, hf.congr hstep herrors⟩, ?_⟩
    · rw [hstep, h.status]
    · rw [hstep, h.error]
    · rw [hstep]
      exact h.left
    · rw [hstep]
      exact hlast.trans h.requested
  | running status startedAt completedAt durationMs error =>
    exact .running (by rw [hstep, status]) (by rw [hstep, startedAt])
      (by rw [hstep, completedAt]) (by rw [hstep, durationMs]) (by rw [hstep, error])
  | completed status completedAt error =>
    exact .completed (by rw [hstep, status]) (by rw [hstep, completedAt]) (by rw [hstep, error])
  | skipped status error => exact .skipped (by rw [hstep, status]) (by rw [hstep, error])
  | failed status f last error =>
    exact .failed (by rw [hstep, status]) f (last.congr hstep herrors) (by rw [hstep, error])

/-- What is noted for a step that was not retried does not matter. -/
theorem IsRecorded.emit (h : e.IsRecorded) (hk : ¬ e.IsRetriedAt k) (now : Timestamp)
    (operation : String) (data : Json) : (e.emit now k operation data).1.IsRecorded where
  step s := by
    have hdone : ∀ a, (e.step a).status.isDone →
        ((e.emit now k operation data).1.step a).status.isDone := by
      intro a ha
      rwa [(sameProgress_emit now k operation data e).stepStatus]
    by_cases hs : s = k
    · subst hs
      refine (h.step s).congr (l := (e.step s).checkpoints ++ [⟨operation, now, data⟩]) ?_ rfl
        fun hr => absurd hr hk
      rw [step_emit, if_pos rfl]
      rfl
    · refine (h.step s).congr (l := (e.step s).checkpoints) ?_ rfl
        fun hr => ⟨fun a ha => hdone a (hr.before a ha), rfl⟩
      rw [step_emit, if_neg hs]
  errors := h.errors

theorem IsRecorded.reads (h : e.IsRecorded) (hr : e.ReadsBack e') : e'.IsRecorded where
  step s := by
    have hread := hr.step s
    have hlast : (e'.step s).checkpoints.getLast?.map (·.operation) =
        (e.step s).checkpoints.getLast?.map (·.operation) := by
      rw [← List.getLast?_map, ← List.getLast?_map,
        Checkpoint.operations_of_readsBack hread.checkpoints]
    have hstep : e'.step s = { e.step s with checkpoints := (e'.step s).checkpoints } := by
      rw [StepRecord.mk.injEq]
      exact ⟨hread.status.symm, hread.attempts.symm, hread.startedAt.symm, hread.completedAt.symm,
        hread.durationMs.symm, hread.error.symm, rfl⟩
    refine (h.step s).congr hstep hr.errors.symm fun hretried => ⟨fun a ha => ?_, hlast⟩
    rw [← (hr.step a).status]
    exact hretried.before a ha
  errors := hr.errors ▸ h.errors

/-! ## Changes of one record -/

/-- A change of the record of a step that is not done leaves the others as they are. -/
theorem IsRecorded.of_others (h : e.IsRecorded) (hk : (e.step k).status.isDone = false)
    (ho : ∀ s, s ≠ k → e'.step s = e.step s) (herrors : e'.errors = e.errors)
    (hself : e'.IsRecordedAt k) : e'.IsRecorded where
  step s := by
    by_cases hs : s = k
    · exact hs ▸ hself
    · refine (h.step s).congr (l := (e.step s).checkpoints) (ho s hs) herrors
        fun hr => ⟨fun a ha => ?_, rfl⟩
      have hdone := hr.before a ha
      have hne : a ≠ k := by
        intro heq
        rw [heq, hk] at hdone
        cases hdone
      rwa [ho a hne]
  errors := herrors ▸ h.errors

theorem IsRecorded.beginStep (h : e.IsRecorded) (hk : (e.step k).status = .pending)
    (now : Timestamp) : (e.beginStep now k).IsRecorded := by
  have hself : (e.beginStep now k).step k = (e.step k).start now := by
    rw [step_beginStep, if_pos rfl]
  have hothers : ∀ s, s ≠ k → (e.beginStep now k).step s = e.step s := by
    intro s hs
    rw [step_beginStep, if_neg hs]
  refine h.of_others (by rw [hk]; rfl) hothers rfl ?_
  exact .running (by rw [hself]; rfl) (by rw [hself]; rfl) (by rw [hself]; rfl) (by rw [hself]; rfl)
    (by rw [hself]; rfl)

theorem IsRecorded.completeStep (h : e.IsRecorded) (hk : (e.step k).status = .running)
    (now : Timestamp) (ms : Nat) : (e.completeStep now k ms).IsRecorded := by
  have hself : (e.completeStep now k ms).step k = (e.step k).succeed now ms := by
    rw [step_completeStep, if_pos rfl]
  have hothers : ∀ s, s ≠ k → (e.completeStep now k ms).step s = e.step s := by
    intro s hs
    rw [step_completeStep, if_neg hs]
  refine h.of_others (by rw [hk]; rfl) hothers rfl ?_
  exact .completed (by rw [hself]; rfl) (by rw [hself]; rfl) (by rw [hself]; rfl)

/-- While a step is running, no other step has failed, and none was retried. -/
theorem IsRecordedAt.beside_running (h : e.IsRecordedAt s) (hs : e.IsSound)
    (hk : (e.step k).status = .running) (hne : s ≠ k) (hstep : e'.step s = e.step s) :
    e'.IsRecordedAt s := by
  have hstands := hs.standsAt_of_running hk
  cases h with
  | blank status blank => exact .blank (by rw [hstep, status]) (hstep ▸ blank)
  | retried h =>
    refine absurd h.status ?_
    rcases Step.lt_or_eq_or_gt s k with hlt | heq | hgt
    · intro hpending
      have hdone := hstands.before s hlt
      rw [hpending] at hdone
      cases hdone
    · exact absurd heq hne
    · have hdone := h.before k hgt
      rw [hk] at hdone
      cases hdone
  | running status =>
    exact absurd ((hs.standsAt_of_running status).current.symm.trans hstands.current) hne
  | completed status completedAt error =>
    exact .completed (by rw [hstep, status]) (by rw [hstep, completedAt]) (by rw [hstep, error])
  | skipped status error => exact .skipped (by rw [hstep, status]) (by rw [hstep, error])
  | failed status =>
    exact absurd ((hs.standsAt_of_failed status).current.symm.trans hstands.current) hne

theorem IsRecorded.failStep (h : e.IsRecorded) (hs : e.IsSound)
    (hk : (e.step k).status = .running) (now : Timestamp) (message : String) (ms : Nat) :
    (e.failStep now k message ms).IsRecorded where
  step s := by
    by_cases hsame : s = k
    · subst hsame
      have hself : (e.failStep now s message ms).step s = (e.step s).fail now message ms := by
        rw [step_failStep, if_pos rfl]
      have hlast : (e.failStep now s message ms).errors =
          e.errors ++ [⟨s, message, (e.step s).attempts, now⟩] := rfl
      refine .failed (by rw [hself]; rfl) ⟨s, message, (e.step s).attempts, now⟩
        ⟨?_, rfl, by rw [hself]; rfl, by rw [hself]; rfl, ?_, by rw [hself]; rfl⟩
        (by rw [hself]; rfl)
      · rw [hlast, List.getLast?_concat]
      · rw [hself]
        exact ((h.step s).of_running hk).1
    · refine (h.step s).beside_running hs hk hsame ?_
      rw [step_failStep, if_neg hsame]
  errors := by
    refine List.forall_mem_append.mpr ⟨h.errors, List.forall_mem_singleton.mpr ⟨?_, ?_⟩⟩
    · exact hs.attempts_pos k (Or.inl hk)
    · exact hs.attempts_le k

theorem IsRecorded.block (h : e.IsRecorded) (now : Timestamp) : (e.block now).IsRecorded where
  step s := (h.step s).congr (l := (e.step s).checkpoints) rfl rfl fun hr => ⟨hr.before, rfl⟩
  errors := h.errors

theorem hasAttemptsLeft_of_retry {record : AuditRecord} (h : e.retry now k = .ok (e', record)) :
    (e.step k).hasAttemptsLeft := by
  unfold Entity.retry checkRetry at h
  by_cases hl : (e.step k).hasAttemptsLeft
  · exact hl
  · by_cases hs : (e.step k).status = .failed <;> simp [hs, hl] at h <;> cases h

theorem step_retry {data : Json} (s : Step) :
    ((e.requeue now k).emit now k OperationName.retryRequested data).1.step s =
      if s = k then
        { e.step s with
          status := .pending
          error := none
          checkpoints := (e.step s).checkpoints ++ [⟨OperationName.retryRequested, now, data⟩] }
      else e.step s := by
  rw [step_emit, step_requeue]
  split <;> rfl

/-- When a step has been retried the times of the execution that failed are still there. -/
theorem IsRecorded.isRetriedAt (h : e.IsRecorded) (hs : e.IsSound) {record : AuditRecord}
    (hr : e.retry now k = .ok (e', record)) : e'.IsRetriedAt k := by
  have hl := hasAttemptsLeft_of_retry hr
  obtain ⟨hfailed, data, rfl, -⟩ := retry_eq_ok hr
  obtain ⟨f, hf, -⟩ := (h.step k).of_failed hfailed
  have hself := @step_retry e k now data k
  rw [if_pos rfl] at hself
  refine ⟨by rw [hself], by rw [hself], hself ▸ hl, fun a ha => ?_, ⟨f, ?_⟩, ?_⟩
  · rw [step_retry, if_neg (Step.ne_of_lt ha)]
    exact (hs.standsAt_of_failed hfailed).before a ha
  · exact ⟨hf.last, hf.step, by rw [hself, hf.attempt], by rw [hself, hf.completedAt],
      by rw [hself, hf.startedAt], by rw [hself, hf.durationMs]⟩
  · rw [hself, List.getLast?_concat, Option.map_some]

theorem IsRecorded.retry (h : e.IsRecorded) (hs : e.IsSound) {record : AuditRecord}
    (hr : e.retry now k = .ok (e', record)) : e'.IsRecorded := by
  have hretried := h.isRetriedAt hs hr
  obtain ⟨hfailed, data, rfl, -⟩ := retry_eq_ok hr
  refine h.of_others (by rw [hfailed]; rfl) (fun s hne => ?_) rfl (.retried hretried)
  rw [step_retry, if_neg hne]

/-! ## Changes of several records -/

theorem IsRecorded.skipTo (h : e.IsRecorded) (now : Timestamp) (k : Step) :
    (e.skipTo now k).IsRecorded where
  step s := by
    by_cases hs : s < k
    · by_cases hdone : (e.step s).status.isDone
      · have hstep : (e.skipTo now k).step s = e.step s := by
          rw [step_skipTo, if_pos hs, if_pos hdone]
        refine (h.step s).congr (l := (e.step s).checkpoints) hstep rfl fun hr => ?_
        rw [hr.status] at hdone
        cases hdone
      · have hstep : (e.skipTo now k).step s =
            { e.step s with status := .skipped, error := none }.note (skipCheckpoint now k) := by
          rw [step_skipTo, if_pos hs, if_neg hdone]
        exact .skipped (by rw [hstep]; rfl) (by rw [hstep]; rfl)
    · have hstep : (e.skipTo now k).step s = (e.step s).reopen := by
        rw [step_skipTo, if_neg hs]
      exact .blank (by rw [hstep]; rfl) (hstep ▸ StepRecord.isBlank_reopen _)
  errors := h.errors

theorem IsRecorded.reset (h : e.IsRecorded) (now : Timestamp) (k : Step) :
    (e.reset now k).1.IsRecorded := by
  have hstep : ∀ s, ((e.clearFrom k).settle.touch now).step s =
      if k ≤ s then (e.step s).clear else e.step s :=
    fun s => (step_settle _ s).trans (step_clearFrom k e s)
  have herrors : ((e.clearFrom k).settle.touch now).errors = e.errors :=
    (fields_settle (e.clearFrom k)).2.2
  have hblank : ∀ s, k ≤ s → (((e.clearFrom k).settle.touch now).step s).IsBlank := by
    intro s hs
    rw [hstep, if_pos hs]
    exact ⟨rfl, rfl, rfl, rfl⟩
  have hcleared : ((e.clearFrom k).settle.touch now).IsRecorded := by
    refine ⟨fun s => ?_, herrors ▸ h.errors⟩
    by_cases hs : k ≤ s
    · refine .blank ?_ (hblank s hs)
      rw [hstep, if_pos hs]
      rfl
    · have hsame : ∀ a, a ≤ s → ((e.clearFrom k).settle.touch now).step a = e.step a := by
        intro a ha
        have hlt : ¬ k ≤ a := fun hle => hs (Nat.le_trans hle ha)
        rw [hstep, if_neg hlt]
      refine (h.step s).congr (l := (e.step s).checkpoints) (hsame s s.le_refl) herrors
        fun hr => ⟨fun a ha => ?_, rfl⟩
      rw [hsame a (Step.le_of_lt ha)]
      exact hr.before a ha
  exact hcleared.emit (fun hr => hr.not_isBlank (hblank k k.le_refl)) now _ _

/-! ## All changes -/

/-- A change keeps what the records tell. -/
theorem IsRecorded.changed {c : AttemptChange} {records : List AuditRecord} (h : e.IsRecorded)
    (hs : e.IsSound) (hc : e.Changed now c e' records) : e'.IsRecorded := by
  cases hc with
  | retried hr => exact h.retry hs hr
  | skipped _ k => exact h.skipTo now k
  | reset k => exact h.reset now k
  | @completed _ k hk ms operation data =>
    have hstatus : ((e.completeStep now k ms).step k).status = .completed := by
      rw [step_completeStep, if_pos rfl]
      rfl
    exact (h.completeStep hk now ms).emit (not_isRetriedAt hstatus nofun) now operation data
  | @failed _ k hk message ms operation data =>
    have hstatus : ((e.failStep now k message ms).step k).status = .failed := by
      rw [step_failStep, if_pos rfl]
      rfl
    exact (h.failStep hs hk now message ms).emit (not_isRetriedAt hstatus nofun) now operation data
  | @blocked _ k hk operation data =>
    refine (h.block now).emit ?_ now operation data
    cases hk with
    | inl hk => exact not_isRetriedAt hk nofun
    | inr hk =>
      -- a step that has no attempts left was not retried
      intro hr
      have hleft : (e.step k).hasAttemptsLeft = true := hr.left
      rw [hk.2] at hleft
      cases hleft
  | @marked _ k hk _ runId =>
    have hstatus : ((e.beginStep now k).step k).status = .running := by
      rw [step_beginStep, if_pos rfl]
      rfl
    exact (h.beginStep (isPendingAt_iff.mp hk).2.1 now).emit (not_isRetriedAt hstatus nofun) now _ _

theorem Tracked.isRecorded {id : String} {records : List AuditRecord}
    (h : Tracked now id e records) : e.IsRecorded := by
  cases h with
  | registered metadata =>
    have hstep : ∀ s, (draft now id metadata).step s = .fresh := StepTable.get_replicate _
    have hdraft : (draft now id metadata).IsRecorded := by
      refine ⟨fun s => .blank ?_ ?_, List.forall_mem_nil _⟩ <;> rw [hstep]
      · rfl
      · exact ⟨rfl, rfl, rfl, rfl⟩
    refine hdraft.emit (fun hr => hr.not_isBlank ?_) now _ _
    rw [hstep]
    exact ⟨rfl, rfl, rfl, rfl⟩
  | imported metadata =>
    have hstep : ∀ s, (finalized now id metadata).step s =
        { StepRecord.fresh with status := .completed, completedAt := some now } :=
      StepTable.get_replicate _
    have hfinalized : (finalized now id metadata).IsRecorded := by
      refine ⟨fun s => .completed ?_ ?_ ?_, List.forall_mem_nil _⟩ <;> rw [hstep] <;> rfl
    have hstatus : ((finalized now id metadata).step .finalized).status = .completed := by
      rw [hstep]
    exact hfinalized.emit (not_isRetriedAt hstatus nofun) now _ _

/-- Where an entity stands and what its records tell goes together through all changes. -/
theorem isLasting_isRecorded : IsLasting fun e => e.IsSound ∧ e.IsRecorded where
  tracked h := ⟨h.isSound, h.isRecorded⟩
  changed he h := ⟨he.1.changed h, he.2.changed he.1 h⟩
  reads he h := ⟨he.1.congr h.sameProgress, he.2.reads h⟩

/-! ## What the records tell -/

/-- Whether the errors and times of the steps go with their statuses, and the failures on record
with the errors. -/
structure ResultsAgree (e : Entity) : Prop where
  error : ∀ s, (e.step s).error.isSome ↔ (e.step s).status = .failed
  running : ∀ s, (e.step s).status = .running →
    (e.step s).startedAt.isSome ∧ (e.step s).completedAt = none ∧ (e.step s).durationMs = none
  completed : ∀ s, (e.step s).status = .completed → (e.step s).completedAt.isSome
  failed : ∀ s, (e.step s).status = .failed →
    (e.step s).startedAt.isSome ∧ (e.step s).completedAt.isSome ∧ (e.step s).durationMs.isSome
  last : ∀ s, e.firstOpenStep? = some s → (e.step s).status = .failed →
    ∃ message time, (e.step s).error = some message ∧ (e.step s).completedAt = some time ∧
      e.errors.getLast? = some ⟨s, message, (e.step s).attempts, time⟩
  attempts : ∀ f ∈ e.errors, 1 ≤ f.attempt ∧ f.attempt ≤ maxAttempts

theorem IsRecorded.resultsAgree (h : e.IsRecorded) : e.ResultsAgree where
  error s := (h.step s).error_iff
  running s hs := (h.step s).of_running hs
  completed s hs := (h.step s).of_completed hs
  failed s hs := by
    obtain ⟨f, hf, -⟩ := (h.step s).of_failed hs
    refine ⟨hf.startedAt, ?_, hf.durationMs⟩
    rw [hf.completedAt]
    rfl
  last s _ hs := by
    obtain ⟨f, hf, herror⟩ := (h.step s).of_failed hs
    refine ⟨f.message, f.timestamp, herror, hf.completedAt, ?_⟩
    rw [hf.last, ← hf.attempt, ← hf.step]
  attempts := h.errors

end Entity

/-! ## Histories in memory -/

namespace Memory

/-- What is read after acts that have saved something. -/
theorem exists_read_acts {l : List (Operation ⊕ (Call → Ending))} {p : Entity → Bool}
    (hsaved : (acts checkedStore l blank).saved?.isSome)
    (hp : ((checkedStore.load (.ofSeconds 0) (acts checkedStore l blank)).map
      fun d => (d.find? "post").any p).toOption = some true) :
    ∃ (h : List Episode) (t : String) (d : Document) (e : Entity), checkedSite.History h (some t) ∧
      Document.ofText t = .ok d ∧ d.find? "post" = some e ∧ p e := by
  have habsent : checkedSite.History [] (checkedSite.text? blank) := .absent
  obtain ⟨h, hh⟩ := history_acts l habsent
  obtain ⟨b, hb⟩ := Option.isSome_iff_exists.mp hsaved
  have htext : checkedSite.text? (acts checkedStore l blank) = some b.text := text?_of_saved? hb
  cases hl : checkedStore.load (.ofSeconds 0) (acts checkedStore l blank) with
  | error e =>
    rw [hl] at hp
    cases hp
  | ok d =>
    rw [hl] at hp
    obtain ⟨e, he, hpe⟩ := (Option.any_eq_true _ _).mp (Option.some.inj hp)
    cases checkedSite.load_ok hl with
    | inl hnone =>
      rw [hnone.1] at htext
      cases htext
    | inr hsome =>
      obtain ⟨t, ht, hd, -⟩ := hsome
      exact ⟨h, t, d, e, ht ▸ hh, hd, he, hpe⟩

/-- An entity fails at the second step and is retried there. -/
theorem exists_read_retried : ∃ (h : List Episode) (t : String) (d : Document) (e : Entity),
    checkedSite.History h (some t) ∧ Document.ofText t = .ok d ∧ d.find? "post" = some e ∧
      ((e.step .tested).status = .pending ∧ (e.step .tested).startedAt.isSome ∧
        (e.step .tested).completedAt.isSome ∧ (e.step .tested).durationMs.isSome) ∧
      (e.step .validated).status = .pending ∧ (e.step .validated).startedAt = none := by
  let l : List (Operation ⊕ (Call → Ending)) :=
    [.inl (.register "post" .null), .inr untested, .inl (.retry "tested" (some "post") false)]
  let p (e : Entity) : Bool :=
    ((e.step .tested).status = .pending ∧ (e.step .tested).startedAt.isSome ∧
      (e.step .tested).completedAt.isSome ∧ (e.step .tested).durationMs.isSome) ∧
    (e.step .validated).status = .pending ∧ (e.step .validated).startedAt = none
  have hsaved : (acts checkedStore l blank).saved?.isSome := by
    rw [checkedStore_eq]
    decide +kernel
  have hp : ((checkedStore.load (.ofSeconds 0) (acts checkedStore l blank)).map
      fun d => (d.find? "post").any p).toOption = some true := by
    rw [checkedStore_eq]
    decide +kernel
  obtain ⟨h, t, d, e, hh, hd, he, hpe⟩ := exists_read_acts hsaved hp
  exact ⟨h, t, d, e, hh, hd, he, of_decide_eq_true hpe⟩

end Memory

namespace Site

variable {σ : Type}

/-- After any history a step has an error just when it has failed, a running step has a start and
no end, a completed step an end, and a failed step both and a duration.  If the first open step
has failed, the last failure on record is that of its last attempt; and every failure on record is
of one of the attempts that a step has. -/
theorem resultsAgree_of_history (S : Site σ) {h : List Episode} {t : String}
    (hh : S.History h (some t)) :
    (∃ d : Document, t = d.text ∧ d.Every Entity.ResultsAgree) ∧
      ∀ d, Document.ofText t = .ok d → d.Every Entity.ResultsAgree :=
  Entity.isLasting_isRecorded.every_of_history (fun _ he => he.2.resultsAgree) hh

/-- A step fails, and the failure is on record. -/
theorem resultsAgree_of_history_untested : ∃ (h : List Episode) (t : String) (d : Document)
    (e : Entity) (time : Timestamp), Memory.checkedSite.History h (some t) ∧
      Document.ofText t = .ok d ∧ d.find? "post" = some e ∧
      e.errors.getLast? = some ⟨.tested, "rejected", 1, time⟩ := by
  let l : List (Operation ⊕ (Call → Ending)) :=
    [.inl (.register "post" .null), .inr Memory.untested]
  let p (e : Entity) : Bool :=
    e.firstOpenStep? = some .tested ∧ (e.step .tested).status = .failed ∧
      (e.step .tested).error = some "rejected" ∧ (e.step .tested).attempts = 1
  have hsaved : (Memory.acts Memory.checkedStore l Memory.blank).saved?.isSome := by
    rw [Memory.checkedStore_eq]
    decide +kernel
  have hp : ((Memory.checkedStore.load (.ofSeconds 0)
      (Memory.acts Memory.checkedStore l Memory.blank)).map
        fun d => (d.find? "post").any p).toOption = some true := by
    rw [Memory.checkedStore_eq]
    decide +kernel
  obtain ⟨h, t, d, e, hh, hd, he, hpe⟩ := Memory.exists_read_acts hsaved hp
  obtain ⟨hfront, hfailed, herror, hattempts⟩ := of_decide_eq_true hpe
  obtain ⟨message, time, hmessage, -, hlast⟩ :=
    ((resultsAgree_of_history Memory.checkedSite hh).2 d hd "post" e he).last .tested hfront hfailed
  obtain rfl := Option.some.inj (hmessage.symm.trans herror)
  exact ⟨h, t, d, e, time, hh, hd, he, hattempts ▸ hlast⟩

/-- After any history a pending step has no error.  It has no start, end or duration either, unless
it has failed and nothing has happened to it since it was retried: then the times are still those
of the failed execution. -/
theorem pending_of_history (S : Site σ) {h : List Episode} {t : String}
    (hh : S.History h (some t)) :
    (∃ d : Document, t = d.text ∧ d.Every fun e => ∀ s, (e.step s).status = .pending →
        (e.step s).error = none ∧ ((e.step s).IsBlank ↔ ¬ e.IsRetriedAt s)) ∧
      ∀ d, Document.ofText t = .ok d → d.Every fun e => ∀ s, (e.step s).status = .pending →
        (e.step s).error = none ∧ ((e.step s).IsBlank ↔ ¬ e.IsRetriedAt s) :=
  Entity.isLasting_isRecorded.every_of_history (fun _ he s hs => (he.2.step s).of_pending hs) hh

/-- Of two pending steps the one that was retried has the times of its execution, and the one
behind it has none. -/
theorem pending_of_history_retried : ∃ (h : List Episode) (t : String) (d : Document) (e : Entity),
    Memory.checkedSite.History h (some t) ∧ Document.ofText t = .ok d ∧
      d.find? "post" = some e ∧ e.IsRetriedAt .tested ∧ (e.step .validated).IsBlank := by
  obtain ⟨h, t, d, e, hh, hd, he, ⟨htested, hstarted, -⟩, hvalidated, hnone⟩ :=
    Memory.exists_read_retried
  have hpending := (pending_of_history Memory.checkedSite hh).2 d hd "post" e he
  refine ⟨h, t, d, e, hh, hd, he, ?_, ?_⟩
  · by_contra hn
    have hblank := (hpending .tested htested).2.mpr hn
    rw [hblank.startedAt] at hstarted
    cases hstarted
  · refine (hpending .validated hvalidated).2.mpr fun hr => ?_
    obtain ⟨f, hf⟩ := hr.failed
    have hstarted := hf.startedAt
    rw [hnone] at hstarted
    cases hstarted

end Site

namespace Memory

/-- A retry leaves a pending step with the times of the execution that failed. -/
theorem exists_pending_not_blank : ∃ (h : List Episode) (t : String) (d : Document) (e : Entity),
    checkedSite.History h (some t) ∧ Document.ofText t = .ok d ∧ d.find? "post" = some e ∧
      (e.step .tested).status = .pending ∧ (e.step .tested).startedAt.isSome ∧
      (e.step .tested).completedAt.isSome ∧ (e.step .tested).durationMs.isSome := by
  obtain ⟨h, t, d, e, hh, hd, he, htested, -⟩ := exists_read_retried
  exact ⟨h, t, d, e, hh, hd, he, htested⟩

end Memory
end Publishing
