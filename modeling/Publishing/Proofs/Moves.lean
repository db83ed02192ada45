import Mathlib.Logic.Relation
import Publishing.Proofs.Histories

/-
What an operation or a run can leave on disk.

All that a run does to its document is a sequence of moves: it blocks what an earlier run
left running, selects for a step, marks a batch, enters the outcomes of the batch that it has
marked.  Every document that it saves comes of the loaded one by such a sequence, however the
run ends.  So what the changes of an operation keep and what the moves keep is kept on disk
by every operation and every run, also by one that was cut off.
-/

namespace Publishing

/-- Whether a batch gives the figures of the outcomes that were tallied. -/
structure Batch.Sums (s : Step) (ids : List String) (tally : Document.Tally) (b : Batch) :
    Prop where
  step : b.step = s
  processed : b.processed = ids.length
  succeeded : b.succeeded = tally.succeeded
  failed : b.failed = tally.failed

namespace Document

/-- What a run does to its document in one go. -/
inductive MovesTo : Document → Document → Prop
  | blocked (now : Timestamp) (d : Document) : MovesTo d (d.blockStuck now).1
  | selected (now : Timestamp) (s : Step) {d : Document} (filed : d.IsFiled) :
      MovesTo d (d.select now s).document
  | marked {d d' : Document} {now : Timestamp} {runId : RunId} {s : Step} {ids : List String}
      {records : List AuditRecord} {calls : List Call} (waits : d.Awaits s ids)
      (marks : d.markEach now runId s ids = .ok (d', records, calls)) :
      MovesTo d (d'.setCurrentStep (some s))
  /-- The marks and the outcomes of one batch. -/
  | folded {d d' : Document} {now now' : Timestamp} {runId : RunId} {s : Step} {ids : List String}
      {records : List AuditRecord} {calls : List Call} {ending : String → Ending} {tally : Tally}
      {batch : Batch} (nonempty : ids ≠ []) (waits : d.Awaits s ids)
      (marks : d.markEach now runId s ids = .ok (d', records, calls))
      (folds : (d'.setCurrentStep (some s)).foldEach now' s ending ids = .ok tally)
      (sums : batch.Sums s ids tally) : MovesTo d (tally.document.addBatch batch)
  | closed (d : Document) : MovesTo d (d.setCurrentStep none)

/-- What an operation or a run can save, once it has loaded `d`. -/
inductive MayBecome (d : Document) : Document → Prop
  | changed {op : Operation} {now : Timestamp} {c : Change} (h : op.Makes now d c) :
      MayBecome d c.document
  | moved {d' : Document} (h : Relation.ReflTransGen MovesTo d d') : MayBecome d d'

variable {d d' : Document} {s : Step} {ids : List String} {now : Timestamp}

/-- The outcomes of a batch that was marked are changes of entities at work. -/
theorem changes_folded {now' : Timestamp} {runId : RunId} {records : List AuditRecord}
    {calls : List Call} {ending : String → Ending} {tally : Tally} (hw : d.Awaits s ids)
    (hm : d.markEach now runId s ids = .ok (d', records, calls))
    (hf : (d'.setCurrentStep (some s)).foldEach now' s ending ids = .ok tally) :
    Changes now' (fun _ => True) (d'.setCurrentStep (some s)) tally.records tally.document ∧
      tally.results = ids.map fun id => (id, (ending id).outcome.isSuccess) := by
  have hmarked := (markEach_eq_ok hw.nodup hw.contains hm).1
  have hrun := running_withMarks now runId hw
  have hc := hw.contains_withMarks now runId
  rw [hmarked] at hf ⊢
  exact ⟨changes_foldEach trivial hw.nodup hrun hf, (foldEach_eq_ok hw.nodup hc hf default).2⟩

end Document

/-! ## Runs -/

namespace RunState

variable {σ : Type} {r : RunSetup σ} {d : Document} {s : Step} {ids : List String}
  {st st' : RunState σ}

/-- The document of a run has come of `d` by moves, and so have all that it has saved. -/
structure HasMoved (d : Document) (st : RunState σ) : Prop where
  document : Relation.ReflTransGen Document.MovesTo d st.document
  saved : ∀ d' ∈ RunEvent.savings st.trace, Relation.ReflTransGen Document.MovesTo d d'

theorem HasMoved.choose (h : st.HasMoved d) (hf : st.document.IsFiled) (r : RunSetup σ)
    (s : Step) : (st.choose r s).HasMoved d :=
  ⟨h.document.tail (.selected (r.clock st.world) s hf), h.saved⟩

theorem movesTo_marked (hw : st.document.Awaits s ids) {d' : Document}
    {records : List AuditRecord} {calls : List Call}
    (hm : st.document.markEach (r.clock st.world) r.runId s ids = .ok (d', records, calls)) :
    st.document.MovesTo (st.marked r s ids) := by
  have hdoc : d'.setCurrentStep (some s) = st.marked r s ids :=
    (Document.markEach_eq_ok hw.nodup hw.contains hm).1
  exact hdoc ▸ .marked hw hm

/-- The outcomes are entered in the document that was handed to the store with the marks. -/
theorem Round.movesTo {d' : Document} {records : List AuditRecord} {calls : List Call}
    {st₁ st₂ st₃ : RunState σ} {ending : String → Ending} {tally : Document.Tally}
    {res : Except Halt Unit} (h : Round r s ids st d' records calls st₁ ending st₂ tally)
    (hne : ids ≠ []) (hs : (st₂.enter r s (r.clock st.world) ids tally).save r = (res, st₃)) :
    st.document.MovesTo st₃.document := by
  have hf := h.folded
  rw [(execute_spec h.execute).1, (save_spec h.save).1] at hf
  rw [(save_spec hs).1]
  exact .folded hne h.awaits h.marked hf ⟨rfl, rfl, rfl, rfl⟩

/-- The documents that a batch hands to the store and leaves. -/
theorem BatchRun.movesTo (hne : ids ≠ []) (hw : st.document.Awaits s ids)
    {res : Except Halt Unit} (hb : BatchRun r s ids st res st') :
    st.document.MovesTo (st.marked r s ids) ∧ st.document.MovesTo st'.document := by
  cases hb with
  | unmarked hm hs | overfull hm hs =>
    have hmarked := movesTo_marked hw hm
    exact ⟨hmarked, (save_mark hw hm hs).1 ▸ hmarked⟩
  | unfolded hm hs hx hf hs₂ =>
    exact ⟨movesTo_marked hw hm, Round.movesTo ⟨hw, hm, hs, hx, hf⟩ hne hs₂⟩
  | folded hm hs hx hf hs₂ =>
    have hentered := Round.movesTo ⟨hw, hm, hs, hx, hf⟩ hne hs₂
    exact ⟨movesTo_marked hw hm, hentered⟩

theorem HasMoved.runStep (h : st.HasMoved d) (hf : st.document.IsFiled)
    {res : Except Halt Unit} (hs : st.runStep r s = (res, st')) : st'.HasMoved d := by
  rcases runStep_cases_eligible hf hs with ⟨-, -, rfl⟩ | ⟨hne, hw, hb⟩
  · exact h.choose hf r s
  · have hchosen := h.choose hf r s
    obtain ⟨hmarked, hleft⟩ := hb.movesTo hne hw
    refine ⟨hchosen.document.tail hleft, fun d' hd' => ?_⟩
    rcases (hb.outline hw).mem_savings hd' with hd' | rfl | rfl
    · exact hchosen.saved d' hd'
    · exact hchosen.document.tail hmarked
    · exact hchosen.document.tail hleft

end RunState

/-- Every document that a run saves comes of the loaded one by moves. -/
theorem RunSetup.movesTo_savings {σ : Type} (r : RunSetup σ) (m : Emitter σ) (w : σ)
    {d : Document} (hl : r.store.load (r.clock w) w = .ok d) (hf : d.IsFiled) :
    ∀ d' ∈ RunEvent.savings (r.run m w).trace, Relation.ReflTransGen Document.MovesTo d d' := by
  have hopen : (RunState.opening r d m w).HasMoved d :=
    ⟨.single (.blocked (r.clock w) d), nofun⟩
  obtain ⟨st, h, hends⟩ := r.trace_run_runStep m w hl hf hopen
    fun s st res st' hf h hs => h.runStep hf hs
  intro d' hd'
  rcases hends.mem_savings hd' with hd' | rfl
  · exact h.saved d' hd'
  · exact h.document.tail (.closed _)

/-! ## The text on disk -/

namespace Site

variable {σ : Type} {S : Site σ}

/-- What can be on disk after an operation or a run that began in `w`: the text that was there,
or that of a document which comes of the loaded one. -/
inductive Writes (S : Site σ) (w : σ) : Option String → Prop
  | nothing : Writes S w (S.text? w)
  | document {now now' : Timestamp} {d d' : Document} (load : S.store.load now w = .ok d)
      (becomes : d.MayBecome d') : Writes S w (some (d'.stamp now').text)

/-- An operation or a run, or as much of a run as there was when it was cut off. -/
inductive Turn (S : Site σ) (w : σ) : σ → Prop
  | operation (op : Operation) (now : Timestamp) {m : Emitter σ} (sinks : S.SparedBySinks m.sinks) :
      Turn S w (op.perform S.store now m w).2.2
  | run {r : RunSetup σ} {m : Emitter σ} (store : r.store = S.store)
      (sinks : S.SparedBySinks m.sinks) (calls : S.SparedByCalls r.executor) :
      Turn S w (r.run m w).world
  | cut {r : RunSetup σ} {m : Emitter σ} {l : List RunEvent} {w' : σ} (store : r.store = S.store)
      (sinks : S.SparedBySinks m.sinks) (calls : S.SparedByCalls r.executor)
      (moment : r.Moment m w l w') : Turn S w w'

theorem writes_perform (op : Operation) (now : Timestamp) {m : Emitter σ}
    (hm : S.SparedBySinks m.sinks) (w : σ) :
    S.Writes w (S.text? (op.perform S.store now m w).2.2) := by
  have ho := op.outcome_perform S.store now m w
  generalize op.perform S.store now m w = res at ho ⊢
  cases ho with
  | refused | idle => exact .nothing
  | unsaved _ _ hs => exact S.save_error hs ▸ .nothing
  | saved hl hmk _ hs =>
    rw [text?_flush_save hm hs]
    exact .document hl (.changed hmk)

theorem writes_of_leaves {r : RunSetup σ} (hr : r.store = S.store) {m : Emitter σ} {w : σ}
    {seen rest : List RunEvent} (ht : (r.run m w).trace = seen ++ rest) {t : Option String}
    (h : Leaves (S.text? w) seen t) : S.Writes w t := by
  unfold Leaves at h
  cases hd : RunEvent.lastSaved seen with
  | none =>
    rw [hd] at h
    exact h ▸ .nothing
  | some d' =>
    rw [hd] at h
    obtain ⟨now, rfl⟩ := h
    have hmem : d' ∈ RunEvent.savings (r.run m w).trace := by
      rw [ht, RunEvent.savings_append]
      exact List.mem_append_left _ (List.mem_of_getLast? hd)
    rcases r.run_cases m w with ⟨e, -, hrun⟩ | ⟨d, hl, -⟩
    · rw [hrun] at hmem
      cases hmem
    · have hl' := hr ▸ hl
      exact .document hl' (.moved (r.movesTo_savings m w hl (isFiled_of_load hl') d' hmem))

theorem writes_of_moment {r : RunSetup σ} (hr : r.store = S.store) {m : Emitter σ}
    (hm : S.SparedBySinks m.sinks) (hx : S.SparedByCalls r.executor) {l : List RunEvent} {w w' : σ}
    (h : r.Moment m w l w') : S.Writes w (S.text? w') := by
  obtain ⟨rest, ht⟩ := h.isPrefix
  exact writes_of_leaves hr ht.symm (keeps_of_moment hr hm hx h).leaves.leaves

theorem writes_run {r : RunSetup σ} (hr : r.store = S.store) {m : Emitter σ}
    (hm : S.SparedBySinks m.sinks) (hx : S.SparedByCalls r.executor) (w : σ) :
    S.Writes w (S.text? (r.run m w).world) := by
  obtain ⟨l, hmoment, -⟩ := r.moment_run m w fun d hl => isFiled_of_load (hr ▸ hl)
  exact writes_of_moment hr hm hx hmoment

theorem Turn.writes {w w' : σ} (h : S.Turn w w') : S.Writes w (S.text? w') := by
  cases h with
  | operation op now hm => exact writes_perform op now hm w
  | run hr hm hx => exact writes_run hr hm hx w
  | cut hr hm hx hmoment => exact writes_of_moment hr hm hx hmoment

/-- What no operation and no run can break is so of the disk after any history. -/
theorem History.induct_writes {P : Option String → Prop} (none : P none)
    (writes : ∀ w t, P (S.text? w) → S.Writes w t → P t) {h : List Episode} {t : Option String}
    (hh : S.History h t) : P t := by
  induction hh with
  | absent => exact none
  | operation op now m w hm _ ih => exact writes w _ ih (writes_perform op now hm w)
  | run r m w hr hm hx _ ih => exact writes w _ ih (writes_run hr hm hx w)
  | cut r m w hr ht hleaves _ ih => exact writes w _ ih (writes_of_leaves hr ht hleaves)

end Site
end Publishing
