import Publishing.Proofs.Passes
import Publishing.Proofs.WriteAhead

/-
What becomes of an entity in a run does not depend on the others.

A run goes through the steps and at each step through the entities.  The law for one
entity goes the other way: it works alone, from its current step on, until something stops
it.  `alone` is that law, and a run that reports leaves every entity as `alone` says.  The
moments, durations and run ids differ from run to run, and `Alike` compares entities
without them.
-/

namespace Publishing

namespace Step

theorem onward_eq_next (s : Step) : s.onward = s :: (s.next?.map onward).getD [] := by
  cases s <;> decide

/-- Induction from the last step back to the first. -/
theorem next_induct {P : Step → Prop} (step : ∀ s, (∀ n, s.next? = some n → P n) → P s)
    (s : Step) : P s := by
  have hfinalized : P finalized := step _ nofun
  have hpublished : P published := step _ fun n hn => Option.some.inj hn ▸ hfinalized
  have hvalidated : P validated := step _ fun n hn => Option.some.inj hn ▸ hpublished
  have htested : P tested := step _ fun n hn => Option.some.inj hn ▸ hvalidated
  have hingested : P ingested := step _ fun n hn => Option.some.inj hn ▸ htested
  cases s <;> assumption

theorem lt_of_mem_next {s s' : Step} (h : s' ∈ (s.next?.map onward).getD []) : s < s' := by
  cases hn : s.next? with
  | none =>
    rw [hn] at h
    cases h
  | some n =>
    rw [hn] at h
    exact (lt_iff_next_le hn s').mpr (mem_onward.mp h)

end Step

namespace Entity

/-- Execute these steps one after the other, as long as the entity waits at each, has an
attempt left and succeeds. -/
def workOn (f : Call → Outcome) (runId : RunId) (t : Step → Turn) : List Step → Entity → Entity
  | [], e => e
  | s :: rest, e =>
    if e.isPendingAt s then
      if (e.step s).hasAttemptsLeft then
        let e' := e.attempt (f ⟨e.id, e.metadata, s⟩) runId (t s) s
        if (f ⟨e.id, e.metadata, s⟩).isSuccess then e'.workOn f runId t rest else e'
      else (e.exhaust (t s).start s).1
    else e

/-- What becomes of an entity that is alone in a run: a stuck one is blocked, and any other
works on from its current step. -/
def alone (f : Call → Outcome) (opened : Timestamp) (runId : RunId) (t : Step → Turn)
    (e : Entity) : Entity :=
  if e.runningStep?.isSome then (e.blockStuck opened).1
  else e.workOn f runId t e.currentStep.onward

variable {f : Call → Outcome} {runId : RunId} {t : Step → Turn} {s : Step} {e : Entity}

/-- A success leads to the next step, or to the end. -/
theorem attempt_of_success {o : Outcome} (ho : o.isSuccess) (u : Turn) :
    (e.attempt o runId u s).currentStep = s.next?.getD s ∧
      (e.attempt o runId u s).status = if s.next?.isSome then .ready else .completed := by
  cases o with
  | succeeded metrics => exact ⟨rfl, rfl⟩
  | failed message => cases ho

/-- A failure leaves the entity at the step, failed or, with the last attempt, blocked. -/
theorem attempt_of_failure {o : Outcome} (ho : o.isSuccess = false)
    (hl : (e.step s).hasAttemptsLeft) (u : Turn) :
    (e.attempt o runId u s).currentStep = s ∧
      (e.attempt o runId u s).status =
        if (e.step s).attempts + 1 < maxAttempts then .failed else .blocked := by
  cases o with
  | succeeded metrics => cases ho
  | failed message =>
    refine ⟨rfl, ?_⟩
    show (if ((e.mark u.start runId s).1.step s).hasAttemptsLeft then _ else _) = _
    rw [StepRecord.hasAttemptsLeft, (step_mark u.start runId hl s).2, if_pos rfl]
    simp

theorem blockStuck_of_none {now : Timestamp} (h : e.runningStep? = none) :
    (e.blockStuck now).1 = e := by
  rw [blockStuck, h]

theorem status_blockStuck {now : Timestamp} (h : e.runningStep?.isSome) :
    (e.blockStuck now).1.status = .blocked := by
  obtain ⟨s, hs⟩ := Option.isSome_iff_exists.mp h
  rw [blockStuck, hs]
  dsimp only
  split
  · next hb => exact hb
  · rfl

end Entity

/-! ## What differs from run to run -/

def Json.blur : Json → Json
  | .object members => .object (members.map fun m =>
      if m.1 = "durationMs" ∨ m.1 = "runId" then (m.1, .null) else m)
  | v => v

def Checkpoint.blur (c : Checkpoint) : Checkpoint := ⟨c.operation, .ofSeconds 0, c.data.blur⟩

def Failure.blur (f : Failure) : Failure := { f with timestamp := .ofSeconds 0 }

def AuditRecord.blur (r : AuditRecord) : AuditRecord :=
  { r with timestamp := .ofSeconds 0, data := r.data.blur }

/-- A record without moments, durations and run ids. -/
def StepRecord.blur (r : StepRecord) : StepRecord :=
  { r with
    startedAt := r.startedAt.map fun _ => .ofSeconds 0
    completedAt := r.completedAt.map fun _ => .ofSeconds 0
    durationMs := r.durationMs.map fun _ => 0
    checkpoints := r.checkpoints.map Checkpoint.blur }

namespace StepRecord

theorem blur_note (c : Checkpoint) (r : StepRecord) : (r.note c).blur = r.blur.note c.blur := by
  simp [blur, note]

theorem blur_start (now : Timestamp) (r : StepRecord) :
    (r.start now).blur = r.blur.start (.ofSeconds 0) := rfl

theorem blur_succeed (now : Timestamp) (ms : Nat) (r : StepRecord) :
    (r.succeed now ms).blur = r.blur.succeed (.ofSeconds 0) 0 := rfl

theorem blur_fail (now : Timestamp) (message : String) (ms : Nat) (r : StepRecord) :
    (r.fail now message ms).blur = r.blur.fail (.ofSeconds 0) message 0 := rfl

end StepRecord

/-- Changing the entries, but for their keys, before or after an insertion is the same. -/
theorem Keyed.map_insertEntry {α : Type} {f : String × α → String × α} (hf : ∀ e, (f e).1 = e.1)
    (key : String) (value : α) (l : List (String × α)) :
    (Keyed.insertEntry key value l).map f = Keyed.insertEntry key (f (key, value)).2 (l.map f) := by
  have hnew : f (key, value) = (key, (f (key, value)).2) := Prod.ext (hf _) rfl
  induction l with
  | nil => rw [Keyed.insertEntry, List.map_singleton, hnew, List.map_nil, Keyed.insertEntry]
  | cons e rest ih =>
    rw [Keyed.insertEntry, List.map_cons, Keyed.insertEntry, hf]
    split
    · rw [List.map_cons, List.map_cons, ← hnew]
    · split
      · rw [List.map_cons, ← hnew]
      · rw [List.map_cons, ih]

namespace Json

/-- Changing the members of an object, but for their keys, before or after they are put in order
is the same. -/
theorem map_ofMembers {f : String × Json → String × Json} (hf : ∀ m, (f m).1 = m.1)
    (members : List (String × Json)) :
    object ((members.foldl (fun l e => Keyed.insertEntry e.1 e.2 l) []).map f) =
      ofMembers (members.map f) := by
  have hfold : ∀ l, (members.foldl (fun l e => Keyed.insertEntry e.1 e.2 l) l).map f =
      (members.map f).foldl (fun l e => Keyed.insertEntry e.1 e.2 l) (l.map f) := by
    induction members with
    | nil => exact fun _ => rfl
    | cons m rest ih =>
      intro l
      rw [List.foldl_cons, ih, Keyed.map_insertEntry hf, List.map_cons, List.foldl_cons, hf]
  exact congrArg object (hfold [])

theorem blur_ofMembers (members : List (String × Json)) :
    (ofMembers members).blur = ofMembers (members.map fun m =>
      if m.1 = "durationMs" ∨ m.1 = "runId" then (m.1, .null) else m) :=
  map_ofMembers (fun m => by split <;> rfl) members

theorem blur_started (attempt runId : Json) :
    (ofMembers [("attempt", attempt), ("runId", runId)]).blur =
      ofMembers [("attempt", attempt), ("runId", .null)] := by
  simp [blur_ofMembers]

theorem blur_completed (attempt ms metrics : Json) :
    (ofMembers [("attempt", attempt), ("durationMs", ms), ("metrics", metrics)]).blur =
      ofMembers [("attempt", attempt), ("durationMs", .null), ("metrics", metrics)] := by
  simp [blur_ofMembers]

theorem blur_failed (attempt ms error blocked : Json) :
    (ofMembers [("attempt", attempt), ("durationMs", ms), ("error", error),
        ("blocked", blocked)]).blur =
      ofMembers [("attempt", attempt), ("durationMs", .null), ("error", error),
        ("blocked", blocked)] := by
  simp [blur_ofMembers]

end Json

/-- Both entities are the same but for moments, durations and run ids. -/
structure Entity.Alike (e e' : Entity) : Prop where
  id : e'.id = e.id
  status : e'.status = e.status
  currentStep : e'.currentStep = e.currentStep
  metadata : e'.metadata = e.metadata
  steps : ∀ s, (e'.step s).blur = (e.step s).blur
  errors : e'.errors.map Failure.blur = e.errors.map Failure.blur

namespace Entity.Alike

variable {e e' : Entity}

theorem refl (e : Entity) : Alike e e := ⟨rfl, rfl, rfl, rfl, fun _ => rfl, rfl⟩

theorem stepStatus (h : Alike e e') (s : Step) : (e'.step s).status = (e.step s).status := by
  have := congrArg StepRecord.status (h.steps s)
  exact this

theorem attempts (h : Alike e e') (s : Step) : (e'.step s).attempts = (e.step s).attempts := by
  have := congrArg StepRecord.attempts (h.steps s)
  exact this

theorem isPendingAt (h : Alike e e') (s : Step) : e'.isPendingAt s = e.isPendingAt s := by
  rw [Entity.isPendingAt, Entity.isPendingAt, h.currentStep, h.stepStatus, h.status]

theorem hasAttemptsLeft (h : Alike e e') (s : Step) :
    (e'.step s).hasAttemptsLeft = (e.step s).hasAttemptsLeft := by
  rw [StepRecord.hasAttemptsLeft, StepRecord.hasAttemptsLeft, h.attempts]

theorem modifyStep (h : Alike e e') (s : Step) {f f' : StepRecord → StepRecord}
    (hf : ∀ r r' : StepRecord, r'.blur = r.blur → (f' r').blur = (f r).blur) :
    Alike (e.modifyStep s f) (e'.modifyStep s f') := by
  refine ⟨h.id, h.status, h.currentStep, h.metadata, fun s' => ?_, h.errors⟩
  rw [step_modifyStep, step_modifyStep]
  split
  · exact hf _ _ (h.steps s')
  · exact h.steps s'

theorem emit (h : Alike e e') (now now' : Timestamp) (s : Step) (operation : String)
    {data data' : Json} (hd : data'.blur = data.blur) :
    Alike (e.emit now s operation data).1 (e'.emit now' s operation data').1 ∧
      (e'.emit now' s operation data').2.blur = (e.emit now s operation data).2.blur := by
  refine ⟨h.modifyStep s fun r r' hr => ?_, ?_⟩
  · rw [StepRecord.blur_note, StepRecord.blur_note, hr, Checkpoint.blur, Checkpoint.blur, hd]
  · simp only [Entity.emit, AuditRecord.ofCheckpoint, AuditRecord.blur, h.id, hd]

theorem beginStep (h : Alike e e') (now now' : Timestamp) (s : Step) :
    Alike (e.beginStep now s) (e'.beginStep now' s) := by
  have hm : Alike (e.modifyStep s (.start now)) (e'.modifyStep s (.start now')) :=
    h.modifyStep s fun r r' hr => by rw [StepRecord.blur_start, StepRecord.blur_start, hr]
  exact ⟨h.id, rfl, rfl, h.metadata, hm.steps, h.errors⟩

theorem completeStep (h : Alike e e') (now now' : Timestamp) (s : Step) (ms ms' : Nat) :
    Alike (e.completeStep now s ms) (e'.completeStep now' s ms') := by
  have hm : Alike (e.modifyStep s (.succeed now ms)) (e'.modifyStep s (.succeed now' ms')) :=
    h.modifyStep s fun r r' hr => by rw [StepRecord.blur_succeed, StepRecord.blur_succeed, hr]
  exact ⟨h.id, rfl, rfl, h.metadata, hm.steps, h.errors⟩

theorem failStep (h : Alike e e') (now now' : Timestamp) (s : Step) (message : String)
    (ms ms' : Nat) : Alike (e.failStep now s message ms) (e'.failStep now' s message ms') := by
  have hm : Alike (e.modifyStep s (.fail now message ms))
      (e'.modifyStep s (.fail now' message ms')) :=
    h.modifyStep s fun r r' hr => by rw [StepRecord.blur_fail, StepRecord.blur_fail, hr]
  refine ⟨h.id, ?_, rfl, h.metadata, hm.steps, ?_⟩
  · show (if (e'.step s).hasAttemptsLeft then EntityStatus.failed else .blocked) = _
    rw [h.hasAttemptsLeft]
    rfl
  · show (e'.errors ++ [_]).map Failure.blur = (e.errors ++ [_]).map Failure.blur
    rw [List.map_append, List.map_append, h.errors, h.attempts]
    rfl

theorem mark (h : Alike e e') (now now' : Timestamp) (runId runId' : RunId) (s : Step) :
    Alike (e.mark now runId s).1 (e'.mark now' runId' s).1 ∧
      (e'.mark now' runId' s).2.blur = (e.mark now runId s).2.blur := by
  have hb := h.beginStep now now' s
  refine hb.emit now now' s _ ?_
  rw [Json.blur_started, Json.blur_started, hb.attempts]

theorem fold (h : Alike e e') (now now' : Timestamp) (s : Step) (o : Outcome) (ms ms' : Nat) :
    Alike (e.fold now s o ms).1 (e'.fold now' s o ms').1 ∧
      (e'.fold now' s o ms').2.blur = (e.fold now s o ms).2.blur := by
  cases o with
  | succeeded metrics =>
    refine (h.completeStep now now' s ms ms').emit now now' s _ ?_
    rw [Json.blur_completed, Json.blur_completed, h.attempts]
  | failed message =>
    have hf := h.failStep now now' s message ms ms'
    refine hf.emit now now' s _ ?_
    rw [Json.blur_failed, Json.blur_failed, h.attempts, hf.status]

theorem attempt (h : Alike e e') (o : Outcome) (runId runId' : RunId) (t t' : Turn) (s : Step) :
    Alike (e.attempt o runId t s) (e'.attempt o runId' t' s) :=
  ((h.mark t.start t'.start runId runId' s).1.fold ..).1

theorem block (h : Alike e e') (now now' : Timestamp) : Alike (e.block now) (e'.block now') :=
  ⟨h.id, rfl, h.currentStep, h.metadata, h.steps, h.errors⟩

theorem exhaust (h : Alike e e') (now now' : Timestamp) (s : Step) :
    Alike (e.exhaust now s).1 (e'.exhaust now' s).1 ∧
      (e'.exhaust now' s).2.blur = (e.exhaust now s).2.blur := by
  refine (h.block now now').emit now now' s _ ?_
  rw [h.attempts]

theorem runningStep? (h : Alike e e') : e'.runningStep? = e.runningStep? := by
  simp only [Entity.runningStep?, h.stepStatus]

theorem blockStuck (h : Alike e e') (now now' : Timestamp) :
    Alike (e.blockStuck now).1 (e'.blockStuck now').1 ∧
      (e'.blockStuck now').2.map AuditRecord.blur = (e.blockStuck now).2.map AuditRecord.blur := by
  unfold Entity.blockStuck
  rw [h.runningStep?, h.status]
  cases e.runningStep? with
  | none => exact ⟨h, rfl⟩
  | some s =>
    dsimp only
    split
    · exact ⟨h, rfl⟩
    · have hdata : (Json.object [("attempt", .nat (e'.step s).attempts)]).blur =
          (Json.object [("attempt", .nat (e.step s).attempts)]).blur := by
        rw [h.attempts]
      have hemit := (h.block now now').emit now now' s OperationName.stuckDetected hdata
      exact ⟨hemit.1, congrArg (fun r => [r]) hemit.2⟩

theorem workOn (h : Alike e e') {f f' : Call → Outcome} (hf : ∀ c, c.entity = e.id → f' c = f c)
    (runId runId' : RunId) (t t' : Step → Turn) (steps : List Step) :
    Alike (e.workOn f runId t steps) (e'.workOn f' runId' t' steps) := by
  induction steps generalizing e e' with
  | nil => exact h
  | cons s rest ih =>
    rw [Entity.workOn, Entity.workOn, h.isPendingAt, h.hasAttemptsLeft, h.id, h.metadata,
      hf ⟨e.id, e.metadata, s⟩ rfl]
    split
    · split
      · have ha := h.attempt (f ⟨e.id, e.metadata, s⟩) runId runId' (t s) (t' s) s
        dsimp only
        split
        · refine ih ha fun c hc => hf c ?_
          rw [hc, id_attempt]
        · exact ha
      · exact (h.exhaust ..).1
    · exact h

/-- Alone, an entity comes to the same whenever the answers for it are the same. -/
theorem alone (h : Alike e e') {f f' : Call → Outcome} (hf : ∀ c, c.entity = e.id → f' c = f c)
    (opened opened' : Timestamp) (runId runId' : RunId) (t t' : Step → Turn) :
    Alike (e.alone f opened runId t) (e'.alone f' opened' runId' t') := by
  rw [Entity.alone, Entity.alone, h.runningStep?, h.currentStep]
  split
  · exact (h.blockStuck ..).1
  · exact h.workOn hf ..

end Entity.Alike

/-! ## Runs -/

namespace RunSetup

/-- The call for one entity breaks off, and every other succeeds. -/
def faultyEnding (c : Call) : Ending :=
  if c.entity = "broken" then .aborted "out of order" else .returned (.succeeded none) 7

def faulty : RunSetup Document :=
  { plain with executor := fun c w => (faultyEnding c, w), concurrency := 2 }

/-- Beside the entity of `Document.oneDraft` one that breaks off and one that is stuck. -/
def crowd : Document :=
  (Document.oneDraft.insert "broken" (.draft (.ofSeconds 0) "broken" .null)).insert "stuck"
    ((Entity.draft (.ofSeconds 0) "stuck" .null).beginStep (.ofSeconds 0) .ingested)

theorem result_of_isOk {σ : Type} {r : RunSetup σ} {m : Emitter σ} {w : σ}
    (h : (r.run m w).result.isOk) : ∃ summary, (r.run m w).result = .ok summary := by
  cases hr : (r.run m w).result with
  | ok summary => exact ⟨summary, rfl⟩
  | error halt =>
    rw [hr] at h
    cases h

end RunSetup
end Publishing
