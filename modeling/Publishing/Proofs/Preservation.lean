import Publishing.Proofs.Isolation
import Publishing.Proofs.Moments
import Publishing.Proofs.Stages
import Publishing.Proofs.Validity
import Publishing.Store.File

/-
A run over a valid document saves nothing but valid documents.

A valid document may hold entities of any coarse status with later steps failed or even
running.  What keeps a run from such a step is that the opening blocks every entity with
a running step: from then on a schedulable entity runs at most at its current step, which
is the invariant `RunsAtFront` that carries the proof from batch to batch.  A run that
does not come to its end was halted by a save or, before the first call, by a pool that
cannot be made.
-/

namespace Publishing

namespace Entity

variable {e e' : Entity} {s : Step}

/-- Only the current step may be running while the entity can be scheduled. -/
def RunsAtFront (e : Entity) : Prop :=
  e.status.isSchedulable → ∀ a, (e.step a).status = .running → a = e.currentStep

theorem runsAtFront_of_not_schedulable (h : e.status.isSchedulable = false) : e.RunsAtFront :=
  fun hs => absurd hs (Bool.eq_false_iff.mp h)

theorem RunsAtFront.congr (h : e.RunsAtFront) (hp : SameProgress e e') : e'.RunsAtFront := by
  intro hs a ha
  rw [hp.currentStep]
  exact h (hp.status ▸ hs) a (hp.stepStatus a ▸ ha)

theorem runsAtFront_blockStuck (now : Timestamp) (e : Entity) :
    (e.blockStuck now).1.RunsAtFront := by
  cases hr : e.runningStep? with
  | none =>
    rw [blockStuck_of_none hr]
    exact fun _ a ha => absurd ha (runningStep?_eq_none.mp hr a)
  | some k =>
    refine runsAtFront_of_not_schedulable ?_
    rw [status_blockStuck (by rw [hr]; rfl)]
    rfl

theorem runsAtFront_exhaust (now : Timestamp) (s : Step) (e : Entity) :
    (e.exhaust now s).1.RunsAtFront := runsAtFront_of_not_schedulable rfl

theorem IsValid.mark (h : e.IsValid) (hf : e.RunsAtFront) (now : Timestamp) (runId : RunId)
    (hs : e.isPendingAt s) (hl : (e.step s).hasAttemptsLeft) :
    (e.mark now runId s).1.IsValid ∧ (e.mark now runId s).1.RunsAtFront := by
  obtain ⟨hcurrent, hpending, hsched⟩ := isPendingAt_iff.mp hs
  have hnone : ∀ a, (e.step a).status ≠ .running := by
    intro a ha
    rw [hf hsched a ha, hcurrent, hpending] at ha
    cases ha
  have hsame := sameProgress_mark now runId s e
  refine ⟨(h.beginStep now hs hl hnone).congr hsame.toSameWork, RunsAtFront.congr ?_ hsame⟩
  intro _ a ha
  change a = s
  by_contra hne
  rw [step_beginStep, if_neg hne] at ha
  exact hnone a ha

theorem IsValid.fold (h : e.IsValid) (now : Timestamp) (hs : (e.step s).status = .running)
    (hcurrent : e.currentStep = s) (outcome : Outcome) (ms : Nat) :
    (e.fold now s outcome ms).1.IsValid ∧ (e.fold now s outcome ms).1.RunsAtFront := by
  cases outcome with
  | succeeded metrics =>
    have hsame := sameProgress_emit now s OperationName.stepCompleted
      (.ofMembers [("attempt", .nat (e.step s).attempts), ("durationMs", .nat ms),
        ("metrics", metrics.getD .null)]) (e.completeStep now s ms)
    refine ⟨((h.completeStep_iff now ms hs).mpr hcurrent).congr hsame.toSameWork,
      RunsAtFront.congr ?_ hsame⟩
    -- the only running step is the one that is completed
    intro _ a ha
    rw [step_completeStep] at ha
    split at ha
    · cases ha
    · next hne => exact absurd (h.running_unique a s ha hs) hne
  | failed message =>
    have hsame := sameProgress_emit now s OperationName.stepFailed
      (.ofMembers [("attempt", .nat (e.step s).attempts), ("durationMs", .nat ms),
        ("error", .string message),
        ("blocked", .bool ((e.failStep now s message ms).status = .blocked))])
      (e.failStep now s message ms)
    refine ⟨((h.failStep_iff now message ms hs).mpr hcurrent).congr hsame.toSameWork,
      RunsAtFront.congr (runsAtFront_of_not_schedulable ?_) hsame⟩
    show (if (e.step s).hasAttemptsLeft then EntityStatus.failed else .blocked).isSchedulable =
      false
    split <;> rfl

end Entity

namespace Document

variable {d d' : Document} {s : Step} {ids : List String}

theorem check_mapEntities (h : d.check = .ok ()) {f : String → Entity → Entity}
    (hf : ∀ id e, d.find? id = some e → e.IsValid → (f id e).IsValid ∧ (f id e).id = e.id) :
    (d.mapEntities f).check = .ok () := by
  obtain ⟨hversion, hfiled, hvalid⟩ := check_eq_ok_iff.mp h
  exact check_eq_ok_iff.mpr ⟨hversion,
    hfiled.mapEntities fun id e he => (hf id e he (hvalid id e he)).2,
    hvalid.mapEntities fun id e he hv => (hf id e he hv).1⟩

/-- A document that passes the check, in which a schedulable entity runs at most at its
current step. -/
structure IsSteady (d : Document) : Prop where
  check : d.check = .ok ()
  front : d.Every Entity.RunsAtFront

theorem IsSteady.mapEntities (h : d.IsSteady) {f : String → Entity → Entity}
    (hf : ∀ id e, d.find? id = some e → e.IsValid → e.RunsAtFront →
      (f id e).IsValid ∧ (f id e).RunsAtFront ∧ (f id e).id = e.id) :
    (d.mapEntities f).IsSteady := by
  refine ⟨check_mapEntities h.check fun id e he hv => ?_, ?_⟩
  · exact ⟨(hf id e he hv (h.front id e he)).1, (hf id e he hv (h.front id e he)).2.2⟩
  · have hv := (check_eq_ok_iff.mp h.check).2.2
    exact h.front.mapEntities fun id e he hr => (hf id e he (hv id e he) hr).2.1

theorem isSteady_blockStuck (now : Timestamp) (h : d.check = .ok ()) :
    (d.blockStuck now).1.IsSteady := by
  refine ⟨check_mapEntities h fun id e _ hv => ?_, fun id e' he' => ?_⟩
  · have hw := Entity.sameWork_blockStuck now e
    exact ⟨hv.congr hw, hw.id⟩
  · rw [find?_blockStuck] at he'
    obtain ⟨e, -, rfl⟩ := Option.map_eq_some_iff.mp he'
    exact Entity.runsAtFront_blockStuck now e

theorem IsSteady.select (h : d.IsSteady) (now : Timestamp) (s : Step) :
    (d.select now s).document.IsSteady := by
  rw [document_select now s (isFiled_of_check h.check)]
  refine h.mapEntities fun id e _ hv hr => ?_
  rw [selected]
  split
  · have hw := Entity.sameWork_exhaust now s e
    exact ⟨hv.congr hw, Entity.runsAtFront_exhaust now s e, hw.id⟩
  · exact ⟨hv, hr, rfl⟩

theorem IsSteady.withMarks (h : d.IsSteady) (now : Timestamp) (runId : RunId)
    (hw : d.Awaits s ids) : (d.withMarks now runId s ids).IsSteady := by
  have hm : (d.mapEntities (marked now runId s ids)).IsSteady := by
    refine h.mapEntities fun id e he hv hr => ?_
    rw [marked]
    split
    · next hid =>
      obtain ⟨e', he', hp, hl⟩ := hw.waiting id hid
      obtain rfl := Option.some.inj (he.symm.trans he')
      obtain ⟨hv', hr'⟩ := hv.mark hr now runId hp hl
      exact ⟨hv', hr', rfl⟩
    · exact ⟨hv, hr, rfl⟩
  exact ⟨hm.check, hm.front⟩

theorem IsSteady.withOutcomes (h : d.IsSteady) (now now' : Timestamp) (runId : RunId)
    (ending : String → Ending) (batch : Batch) (hw : d.Awaits s ids) :
    ((d.withMarks now runId s ids).withOutcomes now' s ending ids batch).IsSteady := by
  have hm : ((d.withMarks now runId s ids).mapEntities (folded now' s ending ids)).IsSteady := by
    refine (h.withMarks now runId hw).mapEntities fun id e he hv hr => ?_
    rw [folded]
    split
    · next hid =>
      have hcurrent : e.currentStep = s := by
        obtain ⟨e₀, he₀, -⟩ := hw.waiting id hid
        rw [find?_withMarks, he₀, Option.map_some, marked, if_pos hid] at he
        exact Option.some.inj he ▸ rfl
      obtain ⟨hv', hr'⟩ := hv.fold now' (running_withMarks now runId hw id hid e he) hcurrent
        (ending id).outcome (ending id).durationMs
      exact ⟨hv', hr', Entity.id_fold ..⟩
    · exact ⟨hv, hr, rfl⟩
  exact ⟨hm.check, hm.front⟩

end Document

namespace RunState

variable {σ : Type} {r : RunSetup σ} {st st' : RunState σ}

/-- The document of a run is steady, and all that it has saved is valid. -/
structure IsSteady (st : RunState σ) : Prop where
  document : st.document.IsSteady
  saved : ∀ d ∈ RunEvent.savings st.trace, d.check = .ok ()

theorem IsSteady.choose (h : st.IsSteady) (r : RunSetup σ) (s : Step) : (st.choose r s).IsSteady :=
  ⟨h.document.select (r.clock st.world) s, h.saved⟩

theorem IsSteady.batch {s : Step} {ids : List String} (h : st.IsSteady)
    (hw : st.document.Awaits s ids) (ho : Outline r s ids st st') : st'.IsSteady := by
  have hm : (st.marked r s ids).IsSteady := h.document.withMarks _ _ hw
  have hdoc : st'.document.IsSteady := by
    cases ho with
    | marked hdoc _ => exact hdoc ▸ hm
    | folded _ _ _ _ _ _ _ _ _ _ _ hdoc _ =>
      exact hdoc ▸ h.document.withOutcomes _ _ _ _ _ hw
  refine ⟨hdoc, fun d hd => ?_⟩
  rcases ho.mem_savings hd with hd | rfl | rfl
  · exact h.saved d hd
  · exact hm.check
  · exact hdoc.check

end RunState

namespace RunSetup

variable {σ : Type} {r : RunSetup σ} {m : Emitter σ} {w : σ} {d : Document}

theorem check_savings (hl : r.store.load (r.clock w) w = .ok d) (hc : d.check = .ok ()) :
    ∀ d' ∈ RunEvent.savings (r.run m w).trace, d'.check = .ok () := by
  obtain ⟨st, h, hends⟩ := r.trace_run m w hl (Document.isFiled_of_check hc)
    (P := RunState.IsSteady)
    ⟨Document.isSteady_blockStuck (r.clock w) hc, fun _ hd => absurd hd List.not_mem_nil⟩
    (fun s st _ h => h.choose r s) fun s ids st st' h hw ho => h.batch hw ho
  intro d' hd'
  rcases hends.mem_savings hd' with hd' | rfl
  · exact h.saved d' hd'
  · exact h.document.check

end RunSetup

/-! ## How a run over a valid document ends -/

theorem FileAction.applyAll_error {fs : FileSystem} {l : List FileAction} {e : Error}
    (h : (applyAll fs l).1 = .error e) : ∃ path fault, e = .file path fault := by
  induction l generalizing fs with
  | nil => cases h
  | cons a rest ih =>
    unfold applyAll at h
    split at h
    · exact ih h
    · exact ⟨_, _, (Except.error.inj h).symm⟩

/-- Only the files can keep a valid document from being saved. -/
theorem FileStore.save_error {s : FileStore} {now : Timestamp} {d : Document}
    (hc : d.check = .ok ()) {fs : FileSystem} {e : Error}
    (h : (s.save now d fs).1 = .error e) : ∃ path fault, e = .file path fault := by
  unfold save at h
  split at h
  · exact ⟨_, _, (Except.error.inj h).symm⟩
  · rw [hc] at h
    exact FileAction.applyAll_error h

namespace RunSetup

variable {σ : Type} {r : RunSetup σ} {m : Emitter σ} {w : σ} {d : Document}

/-- Whatever the executor does, a run over a valid document saves nothing but valid
documents.  It reports, unless a save of such a document failed, and then with what that
save said, or there is no pool with so many permits. -/
theorem run_keeps_valid (hl : r.store.load (r.clock w) w = .ok d)
    (hc : d.check = .ok ()) :
    (∀ d' ∈ RunEvent.savings (r.run m w).trace, d'.check = .ok ()) ∧
    ((∃ summary, (r.run m w).result = .ok summary) ∨
      (∃ d' ∈ RunEvent.savings (r.run m w).trace, ∃ now w₁ w₂ e,
        r.store.save now d' w₁ = (.error e, w₂) ∧ (r.run m w).result = .error (.error e) ∧
        ∀ [HasFiles σ] (s : FileStore), r.store = s.store → ∃ path fault, e = .file path fault) ∨
      Pool.greatestPermits < r.permits ∧
        (r.run m w).result = .error (.tooManyPermits r.permits)) := by
  refine ⟨check_savings hl hc, ?_⟩
  cases hres : (r.run m w).result with
  | ok summary => exact .inl ⟨summary, rfl⟩
  | error h =>
    refine .inr ?_
    obtain ⟨l, k, -, ht, hk⟩ := moment_of_error hl (Document.isFiled_of_check hc) hres
    cases hk with
    | overfull permits => exact .inr ⟨permits, rfl⟩
    | @refused now d' e w₁ w₂ save =>
      have hd' : d' ∈ RunEvent.savings (r.run m w).trace := by
        rw [ht, RunEvent.savings_append]
        exact List.mem_append_right _ List.mem_cons_self
      refine .inl ⟨d', hd', now, w₁, w₂, e, save, rfl, fun {_} s hs => ?_⟩
      rw [hs] at save
      exact FileStore.save_error (check_savings hl hc d' hd') (congrArg Prod.fst save)

/-- A document in which one entity waits at its first step although its last one is
running. -/
def offbeat : Document :=
  Document.oneDraft.replace "post" <|
    (Entity.draft (.ofSeconds 0) "post" .null).modifyStep .finalized (.start (.ofSeconds 0))

theorem run_keeps_valid_offbeat :
    offbeat.check = .ok () ∧ (plain.run (.ofSinks []) offbeat).result.isOk ∧
      (RunEvent.savings (plain.run (.ofSinks []) offbeat).trace).length = 1 ∧
      ∀ d' ∈ RunEvent.savings (plain.run (.ofSinks []) offbeat).trace, d'.check = .ok () :=
  ⟨by decide +kernel, by decide +kernel, by decide +kernel,
    (plain.run_keeps_valid (m := .ofSinks []) (w := offbeat) rfl (by decide +kernel)).1⟩

/-- A run with more permits than a pool can have does not report, although its store never
fails. -/
theorem exists_run_not_saved : ∃ (r : RunSetup Document) (d : Document), d.check = .ok () ∧
    r.store.load (r.clock d) d = .ok d ∧ (∀ now d' w, (r.store.save now d' w).1 = .ok ()) ∧
    ∀ summary, (r.run (.ofSinks []) d).result ≠ .ok summary := by
  refine ⟨{ plain with concurrency := Pool.greatestPermits + 1 }, .oneDraft, by decide +kernel, rfl,
    fun _ _ _ => rfl, fun summary h => ?_⟩
  have herror : ({ plain with concurrency := Pool.greatestPermits + 1 }.run (.ofSinks [])
    .oneDraft).result.isOk = false := by decide +kernel
  rw [h] at herror
  cases herror

end RunSetup
end Publishing
