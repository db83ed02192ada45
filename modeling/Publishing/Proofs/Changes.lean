import Publishing.Proofs.Batches
import Publishing.Proofs.Standing

/-
What operations and runs can do, as changes of one entity after another.

`Entity.Changed` lists every change of an entity, with the condition under which it is made
and the records that it leaves, and `Entity.Tracked` how an entity comes in.  Each operation,
and each phase of a run, is then a sequence of them, which `Document.Changes` says.  What all
of these keep is proved for one change of one entity.
-/

namespace Publishing

/-- What becomes of the attempts of an entity. -/
inductive AttemptChange where
  | kept
  /-- One more attempt at this step. -/
  | counted (s : Step)
  /-- None at this step or a later one. -/
  | forgotten (s : Step)

def AttemptChange.apply (s : Step) (attempts : Nat) : AttemptChange → Nat
  | kept => attempts
  | counted k => if s = k then attempts + 1 else attempts
  | forgotten k => if k ≤ s then 0 else attempts

namespace Entity

/-- A change that an operation or a run makes of an entity at one time. -/
inductive Changed (now : Timestamp) :
    AttemptChange → Entity → Entity → List AuditRecord → Prop
  | retried {e e' : Entity} {s : Step} {record : AuditRecord}
      (h : e.retry now s = .ok (e', record)) : Changed now .kept e e' [record]
  | skipped (e : Entity) (s : Step) :
      Changed now .kept e (e.skipTo now s) (e.skipRecords now s)
  | reset {e : Entity} (s : Step) (failed : e.failedBefore? s = none)
      (running : e.runningStep?.filter (· < s) = none) :
      Changed now (.forgotten s) e (e.reset now s).1 [(e.reset now s).2]
  | completed {e : Entity} {s : Step} (h : (e.step s).status = .running) (ms : Nat)
      (operation : String) (data : Json) :
      Changed now .kept e ((e.completeStep now s ms).emit now s operation data).1
        [((e.completeStep now s ms).emit now s operation data).2]
  | failed {e : Entity} {s : Step} (h : (e.step s).status = .running) (message : String)
      (ms : Nat) (operation : String) (data : Json) :
      Changed now .kept e ((e.failStep now s message ms).emit now s operation data).1
        [((e.failStep now s message ms).emit now s operation data).2]
  | blocked {e : Entity} {s : Step}
      (h : (e.step s).status = .running ∨
        (e.isPendingAt s ∧ (e.step s).hasAttemptsLeft = false))
      (operation : String) (data : Json) :
      Changed now .kept e ((e.block now).emit now s operation data).1
        [((e.block now).emit now s operation data).2]
  | marked {e : Entity} (s : Step) (h : e.isPendingAt s) (hl : (e.step s).hasAttemptsLeft)
      (runId : RunId) :
      Changed now (.counted s) e (e.mark now runId s).1 [(e.mark now runId s).2]

/-- A way in which an entity comes to be tracked under an id. -/
inductive Tracked (now : Timestamp) (id : String) : Entity → List AuditRecord → Prop
  | registered (metadata : Json) :
      Tracked now id ((draft now id metadata).emit now .ingested OperationName.registered .null).1
        [((draft now id metadata).emit now .ingested OperationName.registered .null).2]
  | imported (metadata : Json) :
      Tracked now id
        ((finalized now id metadata).emit now .finalized OperationName.migrated .null).1
        [((finalized now id metadata).emit now .finalized OperationName.migrated .null).2]

theorem changed_fold {now : Timestamp} {e : Entity} {s : Step}
    (h : (e.step s).status = .running) (outcome : Outcome) (ms : Nat) :
    Changed now .kept e (e.fold now s outcome ms).1 [(e.fold now s outcome ms).2] := by
  cases outcome with
  | succeeded metrics => exact .completed h ms ..
  | failed message => exact .failed h message ms ..

/-- A retry is for a failed step with attempts left. -/
theorem retry_eq_ok {now : Timestamp} {e e' : Entity} {s : Step} {record : AuditRecord}
    (h : e.retry now s = .ok (e', record)) :
    (e.step s).status = .failed ∧ ∃ data,
      e' = ((e.requeue now s).emit now s OperationName.retryRequested data).1 ∧
        record = ((e.requeue now s).emit now s OperationName.retryRequested data).2 := by
  unfold retry checkRetry at h
  by_cases hs : (e.step s).status = .failed
  · refine ⟨hs, ?_⟩
    by_cases hl : (e.step s).hasAttemptsLeft
    · simp only [hs, ne_eq, not_true_eq_false, if_false, hl, Bool.not_true, Bool.false_eq_true] at h
      obtain ⟨rfl, rfl⟩ := Prod.mk.inj (Except.ok.inj h)
      exact ⟨_, rfl, rfl⟩
    · simp only [hs, ne_eq, not_true_eq_false, if_false, hl, Bool.not_false, if_true] at h
      cases h
  · simp only [ne_eq, hs, not_false_eq_true, if_true] at h
    cases h

theorem id_settle (e : Entity) : e.settle.id = e.id := by
  unfold settle
  split <;> rfl

theorem Changed.id {now : Timestamp} {c : AttemptChange} {e e' : Entity}
    {records : List AuditRecord} (h : e.Changed now c e' records) : e'.id = e.id := by
  cases h with
  | retried h =>
    obtain ⟨-, data, rfl, -⟩ := retry_eq_ok h
    rfl
  | reset => exact id_settle _
  | skipped | completed | failed | blocked | marked => rfl

theorem step_reset (now : Timestamp) (s : Step) (e : Entity) :
    SameProgress (e.clearFrom s).settle (e.reset now s).1 := by
  have h := sameProgress_emit now s OperationName.stepReset
    (.ofMembers [("previousStatus", (e.step s).status.toJson),
      ("previousAttempts", .nat (e.step s).attempts)]) ((e.clearFrom s).settle.touch now)
  exact ⟨⟨h.id, h.currentStep, h.stepStatus, h.attempts⟩, h.status⟩

/-- What becomes of the attempts is what the change is labelled with. -/
theorem Changed.attempts {now : Timestamp} {c : AttemptChange} {e e' : Entity}
    {records : List AuditRecord} (h : e.Changed now c e' records) (s : Step) :
    (e'.step s).attempts = c.apply s (e.step s).attempts := by
  cases h with
  | retried h =>
    obtain ⟨-, data, rfl, -⟩ := retry_eq_ok h
    rw [(sameProgress_emit ..).attempts, step_requeue]
    split <;> rfl
  | skipped _ k =>
    rw [step_skipTo]
    split
    · split <;> rfl
    · rfl
  | reset k =>
    rw [(step_reset now k e).attempts, step_settle, step_clearFrom]
    simp only [AttemptChange.apply]
    split <;> rfl
  | completed =>
    rw [(sameProgress_emit ..).attempts, step_completeStep]
    split <;> rfl
  | failed =>
    rw [(sameProgress_emit ..).attempts, step_failStep]
    split <;> rfl
  | blocked => exact (sameProgress_emit ..).attempts s
  | marked k _ hl =>
    rw [(sameProgress_mark ..).attempts, step_beginStep]
    simp only [AttemptChange.apply]
    split
    · next hs =>
      subst hs
      exact StepRecord.attempts_start now hl
    · rfl

/-- A reset meets no failed or running step before the one that it is from. -/
theorem pending_of_reset {e : Entity} (he : e.IsSound) {s : Step}
    (hfailed : e.failedBefore? s = none) (hrunning : e.runningStep?.filter (· < s) = none)
    {k : Step} (hk : e.StandsAt k) (hlt : k < s) : (e.step k).status = .pending := by
  have hopen := firstOpenStep?_eq_some hk.not_done hk.before
  have hdone := hk.not_done
  cases hs : (e.step k).status with
  | pending => rfl
  | completed => rw [hs] at hdone; cases hdone
  | skipped => rw [hs] at hdone; cases hdone
  | failed =>
    rw [failedBefore?, hopen] at hfailed
    simp [hs, hlt] at hfailed
  | running =>
    cases hr : e.runningStep? with
    | none => exact absurd hs (runningStep?_eq_none.mp hr k)
    | some r =>
      -- there is but one running step, the current one
      have hcur := (he.standsAt_of_running (runningStep?_spec hr)).current
      obtain rfl : r = k := hcur.symm.trans hk.current
      rw [hr] at hrunning
      simp [hlt] at hrunning

/-- No change leaves an entity where it cannot stand. -/
theorem IsSound.changed {now : Timestamp} {c : AttemptChange} {e e' : Entity}
    {records : List AuditRecord} (he : e.IsSound) (h : e.Changed now c e' records) :
    e'.IsSound := by
  cases h with
  | retried h =>
    obtain ⟨hfailed, data, rfl, -⟩ := retry_eq_ok h
    exact (he.requeue now hfailed).emit ..
  | skipped _ s => exact he.skipTo now s
  | reset s hfailed hrunning =>
    exact (he.settle_clearFrom s fun k hk hlt =>
      pending_of_reset he hfailed hrunning hk hlt).congr (step_reset now s e)
  | completed h ms => exact (he.completeStep now ms h).emit ..
  | failed h message ms => exact (he.failStep now message ms h).emit ..
  | blocked h =>
    rcases h with h | ⟨hp, hl⟩
    · exact (he.block now (he.standsAt_of_running h) (Or.inl h)).emit ..
    · exact (he.block now (he.standsAt_of_isPendingAt hp)
        (Or.inr ⟨(isPendingAt_iff.mp hp).2.1, hl⟩)).emit ..
  | marked s h hl => exact (he.beginStep now h hl).emit ..

theorem Tracked.id {now : Timestamp} {id : String} {e : Entity} {records : List AuditRecord}
    (h : Tracked now id e records) : e.id = id := by
  cases h <;> rfl

theorem Tracked.isSound {now : Timestamp} {id : String} {e : Entity}
    {records : List AuditRecord} (h : Tracked now id e records) : e.IsSound := by
  cases h with
  | registered metadata => exact (isSound_draft now id metadata).emit ..
  | imported metadata => exact (isSound_finalized now id metadata).emit ..

theorem Tracked.attempts {now : Timestamp} {id : String} {e : Entity}
    {records : List AuditRecord} (h : Tracked now id e records) (s : Step) :
    (e.step s).attempts = 0 := by
  cases h with
  | registered metadata =>
    rw [(sameProgress_emit ..).attempts]
    simp [draft, step, StepRecord.fresh]
  | imported metadata =>
    rw [(sameProgress_emit ..).attempts]
    simp [finalized, step, StepRecord.fresh]

end Entity

namespace Document

/-- A sequence of changes of single entities, with the records that they leave and with only
such changes of attempts as `L` allows. -/
inductive Changes (now : Timestamp) (L : AttemptChange → Prop) :
    Document → List AuditRecord → Document → Prop
  | done (d : Document) : Changes now L d [] d
  | change {d d' : Document} {id : String} {e e' : Entity} {c : AttemptChange}
      {records more : List AuditRecord} (he : d.find? id = some e) (hc : L c)
      (h : e.Changed now c e' records) (rest : Changes now L (d.replace id e') more d') :
      Changes now L d (records ++ more) d'
  | track {d d' : Document} {id : String} {e : Entity} {records more : List AuditRecord}
      (hn : d.find? id = none) (h : Entity.Tracked now id e records)
      (rest : Changes now L (d.insert id e) more d') :
      Changes now L d (records ++ more) d'

variable {now : Timestamp} {L : AttemptChange → Prop} {d d' : Document}
  {records : List AuditRecord}

theorem Changes.one {id : String} {e e' : Entity} {c : AttemptChange} (he : d.find? id = some e)
    (hc : L c) (h : e.Changed now c e' records) :
    Changes now L d records (d.replace id e') := by
  have := Changes.change he hc h (.done _)
  rwa [List.append_nil] at this

theorem IsFiled.replace {id : String} {e' : Entity} (h : d.IsFiled) (he : e'.id = id) :
    (d.replace id e').IsFiled := by
  intro id' v hv
  rw [find?_replace] at hv
  split at hv
  · next heq =>
    obtain ⟨_, -, rfl⟩ := Option.map_eq_some_iff.mp hv
    exact he.trans heq.symm
  · exact h id' v hv

theorem Every.replace {P : Entity → Prop} {id : String} {e' : Entity} (h : d.Every P)
    (he : P e') : (d.replace id e').Every P := by
  intro id' v hv
  rw [find?_replace] at hv
  split at hv
  · obtain ⟨_, -, rfl⟩ := Option.map_eq_some_iff.mp hv
    exact he
  · exact h id' v hv

theorem IsFiled.insert {id : String} {e' : Entity} (h : d.IsFiled) (he : e'.id = id) :
    (d.insert id e').IsFiled := by
  intro id' v hv
  rw [find?_insert] at hv
  split at hv
  · next heq => exact (Option.some.inj hv) ▸ he.trans heq.symm
  · exact h id' v hv

theorem Every.insert {P : Entity → Prop} {id : String} {e' : Entity} (h : d.Every P)
    (he : P e') : (d.insert id e').Every P := by
  intro id' v hv
  rw [find?_insert] at hv
  split at hv
  · exact (Option.some.inj hv) ▸ he
  · exact h id' v hv

theorem Changes.isFiled (h : Changes now L d records d') (hd : d.IsFiled) : d'.IsFiled := by
  induction h with
  | done d => exact hd
  | change he _ h _ ih => exact ih (hd.replace (h.id.trans (hd _ _ he)))
  | track _ h _ ih => exact ih (hd.insert h.id)

/-- Changes leave every entity at a place where it can stand. -/
theorem Changes.isSound (h : Changes now L d records d') (hd : d.Every Entity.IsSound) :
    d'.Every Entity.IsSound := by
  induction h with
  | done d => exact hd
  | change he _ h _ ih => exact ih (hd.replace ((hd _ _ he).changed h))
  | track _ h _ ih => exact ih (hd.insert h.isSound)

theorem Changes.global (h : Changes now L d records d') : d'.global = d.global := by
  induction h with
  | done d => rfl
  | change _ _ _ _ ih => exact ih
  | track _ _ _ ih => exact ih

theorem Changes.lastUpdated (h : Changes now L d records d') :
    d'.lastUpdated = d.lastUpdated := by
  induction h with
  | done d => rfl
  | change _ _ _ _ ih => exact ih
  | track _ _ _ ih => exact ih

end Document
end Publishing
