import Publishing.Proofs.Rereading

/-
An operation does the same to documents of one gist.

It is refused with the same error, or it makes documents of one gist again, leaves records of
one gist and reports the same.  An operation looks at no moment, no duration and no run id, and
at the text of no error.
-/

namespace Publishing

variable {g : String → String} {now now' : Timestamp} {s : Step}

/-! ## Entities -/

namespace StepRecord

theorem gist_reopen (r : StepRecord) : r.reopen.gist g = (r.gist g).reopen := rfl

theorem gist_clear (r : StepRecord) : r.clear.gist g = (r.gist g).clear := rfl

theorem gist_requeue (r : StepRecord) :
    ({ r with status := .pending, error := none } : StepRecord).gist g =
      { r.gist g with status := .pending, error := none } := rfl

theorem gist_skip (r : StepRecord) :
    ({ r with status := .skipped, error := none } : StepRecord).gist g =
      { r.gist g with status := .skipped, error := none } := rfl

theorem gist_note (c : Checkpoint) (r : StepRecord) :
    (r.note c).gist g = (r.gist g).note (c.gist g) := by
  simp [gist_eq, note]

end StepRecord

namespace Entity

variable {e e' : Entity}

theorem id_of_gist (h : e'.gist g = e.gist g) : e'.id = e.id := (gist_eq_gist_iff.mp h).1

theorem status_of_gist (h : e'.gist g = e.gist g) : e'.status = e.status :=
  (gist_eq_gist_iff.mp h).2.1

theorem currentStep_of_gist (h : e'.gist g = e.gist g) : e'.currentStep = e.currentStep :=
  (gist_eq_gist_iff.mp h).2.2.1

theorem stepStatus_of_gist (h : e'.gist g = e.gist g) (s : Step) :
    (e'.step s).status = (e.step s).status := by
  have := congrArg StepRecord.status ((gist_eq_gist_iff.mp h).2.2.2.2.1 s)
  exact this

theorem runningStep?_of_gist (h : e'.gist g = e.gist g) : e'.runningStep? = e.runningStep? := by
  simp only [runningStep?, stepStatus_of_gist h]

theorem firstOpenStep?_of_gist (h : e'.gist g = e.gist g) :
    e'.firstOpenStep? = e.firstOpenStep? := by
  simp only [firstOpenStep?, stepStatus_of_gist h]

theorem isSome_error_of_gist (h : e'.gist g = e.gist g) (s : Step) :
    (e'.step s).error.isSome = (e.step s).error.isSome := by
  have := congrArg (fun r => r.error.isSome) ((gist_eq_gist_iff.mp h).2.2.2.2.1 s)
  simpa [StepRecord.gist_eq] using this

/-- Changes of the records that depend on their gists only leave entities of one gist. -/
theorem gist_mapSteps (h : e'.gist g = e.gist g) {f f' : Step → StepRecord → StepRecord}
    (hf : ∀ k r r', r'.gist g = r.gist g → (f' k r').gist g = (f k r).gist g) :
    ({ e' with steps := e'.steps.mapSteps f' } : Entity).gist g =
      ({ e with steps := e.steps.mapSteps f } : Entity).gist g := by
  obtain ⟨hid, hstatus, hcurrent, hmetadata, hsteps, herrors⟩ := gist_eq_gist_iff.mp h
  refine gist_eq_gist_iff.mpr ⟨hid, hstatus, hcurrent, hmetadata, fun k => ?_, herrors⟩
  show ((e'.steps.mapSteps f').get k).gist g = ((e.steps.mapSteps f).get k).gist g
  rw [StepTable.get_mapSteps, StepTable.get_mapSteps]
  exact hf k _ _ (hsteps k)

/-- So do changes of the status and of the current step. -/
theorem gist_place (h : e'.gist g = e.gist g) (status : EntityStatus) (current : Step)
    (now now' : Timestamp) :
    ({ e' with status := status, currentStep := current, updatedAt := now' } : Entity).gist g =
      ({ e with status := status, currentStep := current, updatedAt := now } : Entity).gist g := by
  obtain ⟨hid, -, -, hmetadata, hsteps, herrors⟩ := gist_eq_gist_iff.mp h
  exact gist_eq_gist_iff.mpr ⟨hid, rfl, rfl, hmetadata, hsteps, herrors⟩

theorem gists_emit (h : e'.gist g = e.gist g) (now now' : Timestamp) (s : Step)
    (operation : String) {data data' : Json} (hd : data'.gist g = data.gist g) :
    gists g (e'.emit now' s operation data') = gists g (e.emit now s operation data) := by
  obtain ⟨he, hr⟩ := (gist_eq_iff.mp h).emit now now' s operation hd
  rw [← mask_emit, ← mask_emit] at he hr
  exact Prod.ext (gist_eq_iff.mpr he) hr

theorem gist_completeStep (h : e'.gist g = e.gist g) (now now' : Timestamp) (s : Step)
    (ms ms' : Nat) : (e'.completeStep now' s ms').gist g = (e.completeStep now s ms).gist g := by
  rw [gist_eq_iff, mask_completeStep, mask_completeStep]
  exact (gist_eq_iff.mp h).completeStep now now' s ms ms'

theorem gist_failStep (h : e'.gist g = e.gist g) (now now' : Timestamp) (s : Step)
    (message : String) (ms ms' : Nat) :
    (e'.failStep now' s message ms').gist g = (e.failStep now s message ms).gist g := by
  rw [gist_eq_iff, mask_failStep, mask_failStep]
  exact (gist_eq_iff.mp h).failStep now now' s (g message) ms ms'

theorem gist_draft (now now' : Timestamp) (id : String) (metadata : Json) :
    (draft now' id metadata).gist g = (draft now id metadata).gist g := rfl

theorem gist_finalized (now now' : Timestamp) (id : String) (metadata : Json) :
    (finalized now' id metadata).gist g = (finalized now id metadata).gist g := rfl

theorem gist_requeue (h : e'.gist g = e.gist g) (now now' : Timestamp) (s : Step) :
    (e'.requeue now' s).gist g = (e.requeue now s).gist g := by
  refine gist_place (gist_mapSteps h fun k r r' hr => ?_) .ready s now now'
  split
  · rw [StepRecord.gist_requeue, StepRecord.gist_requeue, hr]
  · exact hr

theorem checkRetry_of_gist (h : e'.gist g = e.gist g) (s : Step) :
    e'.checkRetry s = e.checkRetry s := by
  simp only [checkRetry, stepStatus_of_gist h, hasAttemptsLeft_of_gist h, id_of_gist h,
    attempts_of_gist h]

theorem agree_retry (h : e'.gist g = e.gist g) (now now' : Timestamp) (s : Step) :
    Agree (fun p p' => gists g p' = gists g p) (e.retry now s) (e'.retry now' s) := by
  unfold retry
  rw [checkRetry_of_gist h, attempts_of_gist h]
  cases e.checkRetry s with
  | error err => exact .error err
  | ok => exact .ok (gists_emit (gist_requeue h now now' s) now now' s _ rfl)

theorem gist_skipTo (h : e'.gist g = e.gist g) (now now' : Timestamp) (s : Step) :
    (e'.skipTo now' s).gist g = (e.skipTo now s).gist g := by
  refine gist_place (gist_mapSteps h fun k r r' hr => ?_) .ready s now now'
  have hstatus : r'.status = r.status := by
    have := congrArg StepRecord.status hr
    exact this
  split
  · rw [hstatus]
    split
    · exact hr
    · rw [StepRecord.gist_note, StepRecord.gist_note, StepRecord.gist_skip, StepRecord.gist_skip,
        hr]
      rfl
  · rw [StepRecord.gist_reopen, StepRecord.gist_reopen, hr]

theorem gist_skipRecords (h : e'.gist g = e.gist g) (now now' : Timestamp) (s : Step) :
    (e'.skipRecords now' s).map (AuditRecord.gist g) =
      (e.skipRecords now s).map (AuditRecord.gist g) := by
  rw [skipRecords, skipRecords, List.map_map, List.map_map]
  simp only [stepStatus_of_gist h, id_of_gist h]
  rfl

theorem gist_settle (h : e'.gist g = e.gist g) : e'.settle.gist g = e.settle.gist g := by
  have hstatus : ∀ s, e'.statusAt s = e.statusAt s := fun s => by
    simp only [statusAt, stepStatus_of_gist h, hasAttemptsLeft_of_gist h]
  unfold settle
  rw [firstOpenStep?_of_gist h]
  split
  · exact gist_place h .completed .finalized e.updatedAt e'.updatedAt
  · next s _ =>
    rw [hstatus]
    exact gist_place h (e.statusAt s) s e.updatedAt e'.updatedAt

theorem gists_reset (h : e'.gist g = e.gist g) (now now' : Timestamp) (s : Step) :
    gists g (e'.reset now' s) = gists g (e.reset now s) := by
  have hcleared : (e'.clearFrom s).gist g = (e.clearFrom s).gist g :=
    gist_mapSteps h fun k r r' hr => by
      split
      · rw [StepRecord.gist_clear, StepRecord.gist_clear, hr]
      · exact hr
  refine gists_emit ?_ now now' s _ ?_
  · exact gist_settle hcleared
  · rw [stepStatus_of_gist h, attempts_of_gist h]

theorem checkSkip_of_gist (h : e'.gist g = e.gist g) (s : Step) :
    e'.checkSkip s = e.checkSkip s := by
  simp only [checkSkip, runningStep?_of_gist h, hasAttemptsLeft_of_gist h, id_of_gist h,
    attempts_of_gist h]

theorem requireRunning_of_gist (h : e'.gist g = e.gist g) (action : String) :
    e'.requireRunning action = e.requireRunning action := by
  simp only [requireRunning, runningStep?_of_gist h, stepStatus_of_gist h, id_of_gist h,
    currentStep_of_gist h]

theorem needsReset_of_gist (h : e'.gist g = e.gist g) (s : Step) :
    e'.needsReset s = e.needsReset s := by
  simp only [needsReset, stepStatus_of_gist h, attempts_of_gist h, isSome_error_of_gist h]

theorem failedBefore?_of_gist (h : e'.gist g = e.gist g) (s : Step) :
    e'.failedBefore? s = e.failedBefore? s := by
  simp only [failedBefore?, firstOpenStep?_of_gist h, stepStatus_of_gist h]

end Entity

/-! ## Verdicts -/

/-- A verdict with the gists of what it makes. -/
def Verdict.gist (g : String → String) : Verdict → Verdict
  | untouched => untouched
  | skipped reason => skipped reason
  | changed e records => changed (e.gist g) (records.map (AuditRecord.gist g))

namespace Verdict

theorem isChanged_gist (v : Verdict) : (v.gist g).isChanged = v.isChanged := by cases v <;> rfl

theorem skipReason?_gist (v : Verdict) : (v.gist g).skipReason? = v.skipReason? := by
  cases v <;> rfl

theorem records_gist (v : Verdict) :
    (v.gist g).records = v.records.map (AuditRecord.gist g) := by cases v <;> rfl

theorem entity_gist (v : Verdict) (e : Entity) :
    (v.gist g).entity (e.gist g) = (v.entity e).gist g := by cases v <;> rfl

end Verdict

namespace Entity

variable {e e' : Entity}

theorem gist_skipVerdict (h : e'.gist g = e.gist g) (now now' : Timestamp) (s : Step) :
    (e'.skipVerdict now' s).gist g = (e.skipVerdict now s).gist g := by
  unfold skipVerdict
  rw [status_of_gist h, currentStep_of_gist h, runningStep?_of_gist h]
  split
  · rfl
  · split
    · rfl
    · exact Verdict.changed.injEq .. |>.mpr ⟨gist_skipTo h now now' s, gist_skipRecords h now now' s⟩

theorem gist_resetVerdict (h : e'.gist g = e.gist g) (now now' : Timestamp) (s : Step) :
    (e'.resetVerdict now' s).gist g = (e.resetVerdict now s).gist g := by
  unfold resetVerdict
  rw [failedBefore?_of_gist h, needsReset_of_gist h, runningStep?_of_gist h]
  split
  · rfl
  · split
    · rfl
    · split
      · rfl
      · obtain ⟨he, hr⟩ := Prod.mk.inj (gists_reset h now now' s)
        exact Verdict.changed.injEq .. |>.mpr ⟨he, congrArg (fun r => [r]) hr⟩

end Entity

/-! ## Documents -/

def Change.gist (g : String → String) (c : Change) : Change where
  document := c.document.gist g
  records := c.records.map (AuditRecord.gist g)
  report := c.report

namespace Document

variable {d d' : Document} {id : String}

theorem agree_get (h : d'.gist g = d.gist g) (id : String) :
    Agree (fun e e' => e'.gist g = e.gist g) (d.get id) (d'.get id) := by
  rw [get, get]
  rcases find?_cases h id with ⟨hn', hn⟩ | ⟨e, e', hs', hs, he⟩
  · rw [hn', hn]
    exact .error _
  · rw [hs', hs]
    exact .ok he

theorem contains_of_gist (h : d'.gist g = d.gist g) (id : String) :
    d'.contains id = d.contains id := by
  rw [contains, contains, Keyed.contains, Keyed.contains]
  rcases find?_cases h id with ⟨hn', hn⟩ | ⟨e, e', hs', hs, -⟩
  · exact (congrArg Option.isSome hn').trans (congrArg Option.isSome hn).symm
  · exact (congrArg Option.isSome hs').trans (congrArg Option.isSome hs).symm

theorem gist_insert (h : d'.gist g = d.gist g) (id : String) {e e' : Entity}
    (he : e'.gist g = e.gist g) : (d'.insert id e').gist g = (d.insert id e).gist g := by
  have hinsert : ∀ (d : Document) (e : Entity), ((d.insert id e).gist g).entities.entries =
      Keyed.insertEntry id (e.gist g) (d.gist g).entities.entries := fun d e =>
    Keyed.map_insertEntry (f := fun p : String × Entity => (p.1, p.2.gist g)) (fun _ => rfl) id e
      d.entities.entries
  have hentities : ((d'.insert id e').gist g).entities = ((d.insert id e).gist g).entities := by
    refine Keyed.ext ?_
    rw [hinsert, hinsert, h, he]
  rw [Document.mk.injEq]
  exact ⟨congrArg (·.version) h, rfl, hentities, congrArg (·.global) h⟩

theorem gist_sweep (h : d'.gist g = d.gist g) {f f' : Entity → Verdict}
    (hf : ∀ e e' : Entity, e'.gist g = e.gist g → (f' e').gist g = (f e).gist g)
    (message : Nat → String) : (d'.sweep f' message).gist g = (d.sweep f message).gist g := by
  have hentities : (d'.mapEntities fun _ e => (f' e).entity e).gist g =
      (d.mapEntities fun _ e => (f e).entity e).gist g := gist_mapEntities h fun _ e e' he => by
    rw [← Verdict.entity_gist, ← Verdict.entity_gist, he, hf e e' he]
  have hids : (d'.all.filter fun e => (f' e).isChanged).map (·.id) =
      (d.all.filter fun e => (f e).isChanged).map (·.id) := ids_filter_eq h fun e e' he => by
    rw [← Verdict.isChanged_gist (g := g), hf e e' he, Verdict.isChanged_gist]
  have hrecords : (d'.all.flatMap fun e => (f' e).records.map (AuditRecord.gist g)) =
      d.all.flatMap fun e => (f e).records.map (AuditRecord.gist g) :=
    flatMap_all_eq h fun e e' he => by
      rw [← Verdict.records_gist, ← Verdict.records_gist, hf e e' he]
  have hskipped : (d'.all.filterMap fun e => (f' e).skipReason?.map (Skipped.mk e.id)) =
      d.all.filterMap fun e => (f e).skipReason?.map (Skipped.mk e.id) :=
    filterMap_all_eq h fun e e' he => by
      rw [← Verdict.skipReason?_gist (g := g), hf e e' he, Verdict.skipReason?_gist,
        Entity.id_of_gist he]
  refine Change.mk.injEq .. |>.mpr ⟨hentities, ?_, ?_⟩
  · rw [sweep, sweep, List.map_flatMap, List.map_flatMap]
    exact hrecords
  · simp only [sweep]
    rw [hids, hskipped]

/-! ## Operations -/

theorem gist_changeOne (h : d'.gist g = d.gist g) (id : String) {p p' : Entity × AuditRecord}
    (hp : Entity.gists g p' = Entity.gists g p) (message : String) :
    (d'.changeOne id p' message).gist g = (d.changeOne id p message).gist g := by
  obtain ⟨he, hr⟩ := Prod.mk.inj hp
  exact Change.mk.injEq .. |>.mpr ⟨gist_replace h id he, congrArg (fun r => [r]) hr, rfl⟩

theorem agree_retry (h : d'.gist g = d.gist g) (now now' : Timestamp) (id : String) (s : Step) :
    Agree (fun x x' => x'.1.gist g = x.1.gist g ∧ x'.2.gist g = x.2.gist g) (d.retry now id s)
      (d'.retry now' id s) := by
  refine (agree_get h id).bind fun e e' he => ?_
  refine (Entity.agree_retry he now now' s).bind fun p p' hp => .ok ?_
  obtain ⟨he, hr⟩ := Prod.mk.inj hp
  exact ⟨gist_replace h id he, hr⟩

theorem failedAt_congr (h : d'.gist g = d.gist g) (s : Step) : d'.failedAt s = d.failedAt s :=
  ids_filter_eq h fun e e' he => by rw [Entity.stepStatus_of_gist he]

theorem gist_retryEach (h : d'.gist g = d.gist g) (now now' : Timestamp) (s : Step)
    (ids : List String) :
    (retryEach now' s ids d').1.gist g = (retryEach now s ids d).1.gist g ∧
      (retryEach now' s ids d').2.1.map (AuditRecord.gist g) =
        (retryEach now s ids d).2.1.map (AuditRecord.gist g) ∧
      (retryEach now' s ids d').2.2 = (retryEach now s ids d).2.2 := by
  induction ids generalizing d d' with
  | nil => exact ⟨h, rfl, rfl⟩
  | cons id rest ih =>
    rw [retryEach, retryEach]
    have hretry := agree_retry h now now' id s
    generalize d.retry now id s = x, d'.retry now' id s = x' at hretry ⊢
    cases hretry with
    | error e =>
      obtain ⟨hd, hr, ho⟩ := ih h
      exact ⟨hd, hr, congrArg (_ :: ·) ho⟩
    | ok hp =>
      obtain ⟨hd, hr, ho⟩ := ih hp.1
      exact ⟨hd, List.cons_eq_cons.mpr ⟨hp.2, hr⟩, congrArg (_ :: ·) ho⟩

theorem gist_retryReport (h : d'.gist g = d.gist g) (now now' : Timestamp) (s : Step) :
    (d'.retryReport now' s).gist g = (d.retryReport now s).gist g := by
  obtain ⟨hd, hr, ho⟩ := gist_retryEach h now now' s (d.failedAt s)
  refine Change.mk.injEq .. |>.mpr ?_
  simp only [retryReport, retryAll, failedAt_congr h]
  exact ⟨hd, hr, by rw [ho]⟩

theorem gist_insertFinalized (h : d'.gist g = d.gist g) (now now' : Timestamp)
    (items : List ContentItem) :
    (d'.insertFinalized now' items).document.gist g =
        (d.insertFinalized now items).document.gist g ∧
      (d'.insertFinalized now' items).added = (d.insertFinalized now items).added ∧
      (d'.insertFinalized now' items).skipped = (d.insertFinalized now items).skipped ∧
      (d'.insertFinalized now' items).records.map (AuditRecord.gist g) =
        (d.insertFinalized now items).records.map (AuditRecord.gist g) := by
  induction items generalizing d d' with
  | nil => exact ⟨h, rfl, rfl, rfl⟩
  | cons item rest ih =>
    rw [insertFinalized, insertFinalized, contains_of_gist h]
    split
    · obtain ⟨hd, ha, hs, hr⟩ := ih h
      exact ⟨hd, ha, congrArg (_ :: ·) hs, hr⟩
    · obtain ⟨he, hrecord⟩ := Prod.mk.inj (Entity.gists_emit (g := g)
        (Entity.gist_finalized now now' item.id item.metadata) now now' .finalized
        OperationName.migrated rfl)
      obtain ⟨hd, ha, hs, hr⟩ := ih (gist_insert h item.id he)
      exact ⟨hd, congrArg (_ :: ·) ha, hs, List.cons_eq_cons.mpr ⟨hrecord, hr⟩⟩

theorem gist_migrate (h : d'.gist g = d.gist g) (now now' : Timestamp)
    (items : List ContentItem) :
    (d'.migrate now' items).gist g = (d.migrate now items).gist g := by
  obtain ⟨hd, ha, hs, hr⟩ := gist_insertFinalized h now now' items
  refine Change.mk.injEq .. |>.mpr ⟨hd, hr, ?_⟩
  simp only [migrate, ha, hs]

theorem gist_reset (h : d'.gist g = d.gist g) (now now' : Timestamp) (s : Step)
    (regex : Option Regex) (onlyFailed : Bool) :
    (d'.reset now' s regex onlyFailed).gist g = (d.reset now s regex onlyFailed).gist g := by
  refine gist_sweep h (fun e e' he => ?_) _
  have hselects : ResetFilter.selects regex onlyFailed e' =
      ResetFilter.selects regex onlyFailed e := by
    simp only [ResetFilter.selects, Entity.id_of_gist he, Entity.status_of_gist he]
  rw [hselects]
  split
  · exact Entity.gist_resetVerdict he now now' s
  · rfl

theorem agree_skipTo (h : d'.gist g = d.gist g) (now now' : Timestamp) (s : Step)
    (target : Target) :
    Agree (fun c c' => c'.gist g = c.gist g) (d.skipTo now s target) (d'.skipTo now' s target) := by
  cases target with
  | one id =>
    refine (agree_get h id).bind fun e e' he => ?_
    rw [Entity.checkSkip_of_gist he]
    refine (Agree.refl (fun _ => rfl) (e.checkSkip s)).bind (Q := Eq) fun _ _ _ => .ok ?_
    exact Change.mk.injEq .. |>.mpr ⟨gist_replace h id (Entity.gist_skipTo he now now' s),
      Entity.gist_skipRecords he now now' s, rfl⟩
  | all =>
    exact .ok (gist_sweep h (fun e e' he => Entity.gist_skipVerdict he now now' s) _)

theorem agree_forceComplete (h : d'.gist g = d.gist g) (now now' : Timestamp) (id : String) :
    Agree (fun c c' => c'.gist g = c.gist g) (d.forceComplete now id)
      (d'.forceComplete now' id) := by
  refine (agree_get h id).bind fun e e' he => ?_
  rw [Entity.requireRunning_of_gist he]
  refine (Agree.refl (fun _ => rfl) (e.requireRunning "complete")).bind (Q := Eq) ?_
  rintro s _ rfl
  refine .ok (gist_changeOne h id ?_ _)
  exact Entity.gists_emit (Entity.gist_completeStep he now now' s _ _) now now' s _
    (by simp [Json.gist_object, Json.gistMember])

theorem agree_forceFail (h : d'.gist g = d.gist g) (now now' : Timestamp) (id reason : String) :
    Agree (fun c c' => c'.gist g = c.gist g) (d.forceFail now id reason)
      (d'.forceFail now' id reason) := by
  refine (agree_get h id).bind fun e e' he => ?_
  rw [Entity.requireRunning_of_gist he]
  refine (Agree.refl (fun _ => rfl) (e.requireRunning "fail")).bind (Q := Eq) ?_
  rintro s _ rfl
  rw [Entity.attempts_of_gist he]
  refine .ok (gist_changeOne h id ?_ _)
  exact Entity.gists_emit (Entity.gist_failStep he now now' s reason _ _) now now' s _ rfl

theorem agree_register (h : d'.gist g = d.gist g) (now now' : Timestamp) (id : String)
    (metadata : Json) :
    Agree (fun c c' => c'.gist g = c.gist g) (d.register now id metadata)
      (d'.register now' id metadata) := by
  simp only [register, contains_of_gist h]
  split
  · exact .error _
  · obtain ⟨he, hr⟩ := Prod.mk.inj (Entity.gists_emit (g := g)
      (Entity.gist_draft now now' id metadata) now now' .ingested OperationName.registered rfl)
    exact .ok (Change.mk.injEq .. |>.mpr
      ⟨gist_insert h id he, congrArg (fun r => [r]) hr, rfl⟩)

end Document

/-- An operation makes changes of one gist of documents of one gist, or is refused alike. -/
theorem Operation.agree_change {op : Operation} {f : Timestamp → Document → Except Error Change}
    (hp : op.prepare = .ok f) {d d' : Document} (h : d'.gist g = d.gist g)
    (now now' : Timestamp) :
    Agree (fun c c' => c'.gist g = c.gist g) (f now d) (f now' d') := by
  cases prepared hp with
  | retryOne _ id =>
    refine (Document.agree_get h id).bind fun e e' he => ?_
    refine (Entity.agree_retry he now now' _).bind fun p p' hp => .ok ?_
    exact Document.gist_changeOne h id hp _
  | retryAll => exact .ok (Document.gist_retryReport h now now' _)
  | skipTo _ target => exact Document.agree_skipTo h now now' _ target
  | reset _ filter regex => exact .ok (Document.gist_reset h now now' _ regex filter.onlyFailed)
  | complete id => exact Document.agree_forceComplete h now now' id
  | fail id reason => exact Document.agree_forceFail h now now' id reason
  | register id metadata => exact Document.agree_register h now now' id metadata
  | migrate items => exact .ok (Document.gist_migrate h now now' items)

end Publishing
