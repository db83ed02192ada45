import Publishing.Proofs.Deliveries
import Publishing.Proofs.Schedules

/-
Runs in two worlds, in step with each other.

Two runs that ask the same executor for the same calls, in worlds that cannot be told apart, go
the same way from beginning to end: they tell the same, halt in the same place or come to the
same summary, and save documents of one gist.
-/

namespace Publishing

/-- The gist of an event. -/
def RunEvent.gist (g : String → String) : RunEvent → RunEvent
  | saving d => saving (d.gist g)
  | done summary => done (summary.gist g)
  | e => e

namespace Pairing

variable {σ β : Type} {p : Pairing σ} {r r' : RunSetup σ} {st st' : RunState σ} {s : Step}
  {ids : List String}

/-- Two runs that differ in their clocks and run ids only. -/
structure Matches (p : Pairing σ) (r r' : RunSetup σ) : Prop where
  store : r.store = p.site.store
  store' : r'.store = p.site.store
  executor : r'.executor = r.executor
  admitted : p.executors r.executor
  concurrency : r'.concurrency = r.concurrency
  schedule : r'.schedule = r.schedule
  clock : ∀ w, (r.clock w).InRange
  clock' : ∀ w, (r'.clock w).InRange

/-- What two such runs have in common on their way. -/
structure InStep (p : Pairing σ) (st st' : RunState σ) : Prop where
  document : st'.document.gist p.mask = st.document.gist p.mask
  timely : st.document.IsTimely
  timely' : st'.document.IsTimely
  abreast : p.Abreast st.emitter st.world st'.emitter st'.world
  batches : st'.batches.map Batch.blur = st.batches.map Batch.blur
  failures : st'.failures.map (Setback.mask p.mask) = st.failures.map (Setback.mask p.mask)
  changed : st'.changed = st.changed
  trace : st'.trace.map (RunEvent.gist p.mask) = st.trace.map (RunEvent.gist p.mask)

/-- Parts of two runs that halt for the same reason, or both go on with `Q`. -/
inductive Goes (p : Pairing σ) (Q : β → β → Prop) :
    Except Halt β × RunState σ → Except Halt β × RunState σ → Prop
  | halted (h : Halt) {st st' : RunState σ} (hst : p.InStep st st') :
      Goes p Q (.error h, st) (.error h, st')
  | going {b b' : β} {st st' : RunState σ} (hb : Q b b') (hst : p.InStep st st') :
      Goes p Q (.ok b, st) (.ok b', st')

namespace InStep

theorem log (h : p.InStep st st') {l l' : List RunEvent}
    (hl : l'.map (RunEvent.gist p.mask) = l.map (RunEvent.gist p.mask)) :
    p.InStep (st.log l) (st'.log l') := by
  refine { h with trace := ?_ }
  show (st'.trace ++ l').map _ = (st.trace ++ l).map _
  rw [List.map_append, List.map_append, h.trace, hl]

theorem update (h : p.InStep st st') {d d' : Document} (hg : d'.gist p.mask = d.gist p.mask)
    (hd : d.IsTimely) (hd' : d'.IsTimely) {records records' : List AuditRecord}
    (hr : records'.map (AuditRecord.gist p.mask) = records.map (AuditRecord.gist p.mask)) :
    p.InStep (st.update d records) (st'.update d' records') :=
  { h with document := hg, timely := hd, timely' := hd', abreast := h.abreast.enqueue hr }

theorem save (hr : p.Matches r r') (h : p.InStep st st') :
    p.Goes (fun _ _ => True) (st.save r) (st'.save r') := by
  have hlog : p.InStep (st.log [.saving st.document]) (st'.log [.saving st'.document]) :=
    h.log (congrArg (fun d => [RunEvent.saving d]) h.document)
  have hsave := h.abreast.save (hr.clock st.world) (hr.clock' st'.world) h.document h.timely
    h.timely'
  simp only [RunState.save, RunState.log, hr.store, hr.store']
  generalize p.site.store.save (r.clock st.world) st.document st.world = x,
    p.site.store.save (r'.clock st'.world) st'.document st'.world = x' at hsave ⊢
  cases hsave with
  | saved hst => exact .going trivial { hlog with abreast := hst }
  | failed e hst => exact .halted _ { hlog with abreast := hst }

theorem choose (hr : p.Matches r r') (h : p.InStep st st') (s : Step) :
    p.InStep (st.choose r s) (st'.choose r' s) ∧
      (st'.document.select (r'.clock st'.world) s).eligible =
        (st.document.select (r.clock st.world) s).eligible := by
  have hgist := Document.gist_select h.document (r.clock st.world) (r'.clock st'.world) s
  obtain ⟨hd, hrecords, heligible, hsetbacks⟩ := Document.Selection.mk.inj hgist
  have hupdate := h.update hd (h.timely.selectEach (hr.clock _) s _)
    (h.timely'.selectEach (hr.clock' _) s _) hrecords
  refine ⟨{ hupdate with failures := ?_, changed := ?_ }, heligible⟩
  · show (st'.failures ++ _).map _ = (st.failures ++ _).map _
    rw [List.map_append, List.map_append, h.failures, hsetbacks]
  · have hnone := congrArg List.isEmpty hsetbacks
    rw [List.isEmpty_map, List.isEmpty_map] at hnone
    show (st'.changed || !_ || !_) = (st.changed || !_ || !_)
    rw [h.changed, hnone, heligible]

theorem markBatch (hr : p.Matches r r') (h : p.InStep st st') (s : Step) (ids : List String) :
    p.Goes Eq (st.markBatch r s ids) (st'.markBatch r' s ids) := by
  have hlog := h.log (l := [.batchStarted s ids.length]) rfl
  have hmarks := Document.gist_markEach h.document (r.clock st.world) (r'.clock st'.world) r.runId
    r'.runId s ids
  rcases map_eq_map_cases hmarks with
    ⟨e, hx', hx⟩ | ⟨⟨d, records, calls⟩, ⟨d', records', calls'⟩, hx', hx, hgist⟩
  · simp only [RunState.markBatch, RunState.log, hx', hx]
    exact .halted _ hlog
  · obtain ⟨hd, hrc⟩ := Prod.mk.inj hgist
    obtain ⟨hrecords, hcalls⟩ := Prod.mk.inj hrc
    have hmark : p.InStep (st.mark s ids d records) (st'.mark s ids d' records') :=
      hlog.update (Document.gist_setCurrentStep hd (some s))
        ((h.timely.markEach (hr.clock _) hx).setCurrentStep _)
        ((h.timely'.markEach (hr.clock' _) hx').setCurrentStep _) hrecords
    rw [RunState.markBatch_eq hx, RunState.markBatch_eq hx']
    have hsave := hmark.save hr
    generalize (st.mark s ids d records).save r = x, (st'.mark s ids d' records').save r' = x'
      at hsave ⊢
    cases hsave with
    | halted h hst => exact .halted h hst
    | going _ hst => exact .going hcalls.symm hst

/-- The calls of a batch end alike. -/
theorem execute (hr : p.Matches r r') (h : p.InStep st st') (calls : List Call) :
    p.InStep (st.execute r calls).2 (st'.execute r' calls).2 ∧ ∀ id,
      ((st'.execute r' calls).1 id).outcome.mask p.mask =
          ((st.execute r calls).1 id).outcome.mask p.mask ∧
        ((st.execute r calls).1 id).durationMs < 2 ^ 64 ∧
        ((st'.execute r' calls).1 id).durationMs < 2 ^ 64 := by
  have hx := p.respects _ hr.admitted
  have hpermits : r'.permits = r.permits := congrArg (max 1) hr.concurrency
  obtain ⟨halike, hevents⟩ := Pool.alike_drain hx r.permits r.schedule calls h.abreast.worlds
  have hworlds := h.abreast.drain hr.admitted r.permits r.schedule calls
  have hended := Pool.durationMs_endingOf hx r.permits r.schedule calls st.world
  have hended' := Pool.durationMs_endingOf hx r.permits r.schedule calls st'.world
  simp only [RunState.execute, hpermits, hr.executor, hr.schedule]
  generalize (Pool.ofCalls calls st.world).drain r.permits r.executor r.schedule = x,
    (Pool.ofCalls calls st'.world).drain r.permits r.executor r.schedule = x' at *
  have hst : p.InStep { st with world := x.1.world } { st' with world := x'.1.world } :=
    { h with abreast := hworlds }
  exact ⟨hst.log (congrArg (fun l => (l.map RunEvent.pool).map (RunEvent.gist p.mask)) hevents),
    fun id => ⟨halike.outcome_endingOf id, hended id, hended' id⟩⟩

theorem foldBatch (hr : p.Matches r r') (h : p.InStep st st') (s : Step) {start start' : Timestamp}
    (hstart : start.InRange) (hstart' : start'.InRange) (ids : List String)
    {ending ending' : String → Ending}
    (he : ∀ id, (ending' id).outcome.mask p.mask = (ending id).outcome.mask p.mask ∧
      (ending id).durationMs < 2 ^ 64 ∧ (ending' id).durationMs < 2 ^ 64) :
    p.Goes (fun _ _ => True) (st.foldBatch r s start ids ending)
      (st'.foldBatch r' s start' ids ending') := by
  have hfold := Document.gist_foldEach h.document (r.clock st.world) (r'.clock st'.world) s
    fun id (_ : id ∈ ids) => (he id).1
  rcases map_eq_map_cases hfold with ⟨e, hx', hx⟩ | ⟨tally, tally', hx', hx, hgist⟩
  · simp only [RunState.foldBatch, hx', hx]
    exact .halted _ h
  obtain ⟨hd, hrecords, hsetbacks, hresults⟩ := Document.Tally.mk.inj hgist
  have hbatch : (st'.batch r' s start' ids tally').blur = (st.batch r s start ids tally).blur := by
    simp only [RunState.batch, Batch.blur, Document.Tally.succeeded, Document.Tally.failed,
      hresults, Option.map_some]
  have henter : p.InStep (st.enter r s start ids tally) (st'.enter r' s start' ids tally') := by
    have hlog : p.InStep (st.log (RunState.progress s ids.length 0 tally.results))
        (st'.log (RunState.progress s ids.length 0 tally'.results)) := h.log (by rw [hresults])
    have hall : (tally'.records ++ [AuditRecord.ofBatch (st'.batch r' s start' ids tally')]).map
        (AuditRecord.gist p.mask) =
        (tally.records ++ [AuditRecord.ofBatch (st.batch r s start ids tally)]).map
          (AuditRecord.gist p.mask) := by
      rw [List.map_append, List.map_append, hrecords, List.map_singleton, List.map_singleton,
        RunState.gist_ofBatch hbatch]
    have hupdate := hlog.update (Document.gist_addBatch hd hbatch)
      ((h.timely.foldEach (hr.clock _) (fun id => (he id).2.1) hx).addBatch
        ⟨hr.clock _, Timestamp.millisSince_lt (hr.clock _) hstart⟩)
      ((h.timely'.foldEach (hr.clock' _) (fun id => (he id).2.2) hx').addBatch
        ⟨hr.clock' _, Timestamp.millisSince_lt (hr.clock' _) hstart'⟩) hall
    refine { hupdate with failures := ?_ }
    show (st'.failures ++ _).map _ = (st.failures ++ _).map _
    rw [List.map_append, List.map_append, h.failures, hsetbacks]
  rw [RunState.foldBatch_eq hx, RunState.foldBatch_eq hx']
  have hsave := henter.save hr
  generalize (st.enter r s start ids tally).save r = x,
    (st'.enter r' s start' ids tally').save r' = x' at hsave ⊢
  cases hsave with
  | halted h hst => exact .halted h hst
  | going _ hst =>
    refine .going trivial { hst with batches := ?_ }
    show (_ ++ [_]).map _ = (_ ++ [_]).map _
    rw [List.map_append, List.map_append, hst.batches, List.map_singleton, List.map_singleton,
      hbatch]

theorem runBatch (hr : p.Matches r r') (h : p.InStep st st') (s : Step) (ids : List String) :
    p.Goes (fun _ _ => True) (st.runBatch r s ids) (st'.runBatch r' s ids) := by
  have hpermits : r'.permits = r.permits := congrArg (max 1) hr.concurrency
  have hmark := h.markBatch hr s ids
  simp only [RunState.runBatch]
  generalize st.markBatch r s ids = x, st'.markBatch r' s ids = x' at hmark ⊢
  cases hmark with
  | halted halt hst => exact .halted halt hst
  | @going calls _ st₁ st₁' hcalls hst =>
    obtain rfl := hcalls
    dsimp only
    rw [hpermits]
    split
    · exact .halted _ hst
    · obtain ⟨hexecuted, hended⟩ := hst.execute hr calls
      exact hexecuted.foldBatch hr s (hr.clock _) (hr.clock' _) ids hended

theorem runStep (hr : p.Matches r r') (h : p.InStep st st') (s : Step) :
    p.Goes (fun _ _ => True) (st.runStep r s) (st'.runStep r' s) := by
  obtain ⟨hchoose, heligible⟩ := h.choose hr s
  rw [RunState.runStep_eq, RunState.runStep_eq, heligible]
  dsimp only
  split
  · exact .going trivial hchoose
  · exact hchoose.runBatch hr s _

theorem runSteps (hr : p.Matches r r') (h : p.InStep st st') (steps : List Step) :
    p.Goes (fun _ _ => True) (st.runSteps r steps) (st'.runSteps r' steps) := by
  induction steps generalizing st st' with
  | nil => exact .going trivial h
  | cons s rest ih =>
    have hstep := h.runStep hr s
    rw [RunState.runSteps, RunState.runSteps]
    generalize st.runStep r s = x, st'.runStep r' s = x' at hstep ⊢
    cases hstep with
    | halted halt hst => exact .halted halt hst
    | going _ hst => exact ih hst

theorem close (hr : p.Matches r r') (h : p.InStep st st') :
    p.Goes (fun _ _ => True) (st.close r) (st'.close r') := by
  unfold RunState.close
  by_cases hc : st.changed
  · rw [if_pos hc, if_pos (h.changed.trans hc)]
    have hst : p.InStep { st with document := st.document.setCurrentStep none }
        { st' with document := st'.document.setCurrentStep none } :=
      { h with
        document := Document.gist_setCurrentStep h.document none
        timely := h.timely.setCurrentStep none
        timely' := h.timely'.setCurrentStep none }
    exact hst.save hr
  · rw [if_neg hc, if_neg (h.changed ▸ hc)]
    exact .going trivial h

/-- What two runs have in common once they have loaded documents of one gist. -/
theorem opening (hr : p.Matches r r') {m m' : Emitter σ} {w w' : σ} (h : p.Abreast m w m' w')
    {d d' : Document} (hg : d'.gist p.mask = d.gist p.mask) (hd : d.IsTimely)
    (hd' : d'.IsTimely) : p.InStep (.opening r d m w) (.opening r' d' m' w') := by
  obtain ⟨hblocked, hrecords⟩ := Document.gist_blockStuck hg (r.clock w) (r'.clock w')
  have hnone := congrArg List.isEmpty hrecords
  rw [List.isEmpty_map, List.isEmpty_map] at hnone
  exact
    { document := hblocked
      timely := hd.blockStuck (hr.clock w)
      timely' := hd'.blockStuck (hr.clock' w')
      abreast := h.enqueue hrecords
      batches := rfl
      failures := rfl
      changed := congrArg (!·) hnone
      trace := rfl }

end InStep

theorem stuckSetbacks_eq {d d' : Document} {g : String → String} (h : d'.gist g = d.gist g) :
    d'.stuckSetbacks = d.stuckSetbacks := by
  refine Document.filterMap_all_eq h fun e e' he => ?_
  simp only [Entity.stuckSetback?, Entity.runningStep?_of_gist he, Entity.id_of_gist he,
    Entity.attempts_of_gist he]

/-- Two runs come to the same, tell the same and leave their worlds abreast. -/
structure Agrees (p : Pairing σ) (x x' : RunResult σ) : Prop where
  result : x'.result.map (RunSummary.gist p.mask) = x.result.map (RunSummary.gist p.mask)
  trace : x'.trace.map (RunEvent.gist p.mask) = x.trace.map (RunEvent.gist p.mask)
  abreast : p.Abreast x.emitter x.world x'.emitter x'.world

theorem InStep.finish (h : p.InStep st st') {result result' : Except Halt RunSummary}
    (hresult : result'.map (RunSummary.gist p.mask) = result.map (RunSummary.gist p.mask)) :
    p.Agrees (st.finish result) (st'.finish result') :=
  ⟨hresult, h.trace, h.abreast⟩

theorem InStep.done (h : p.InStep st st') {x x' : RunSummary}
    (hx : x'.gist p.mask = x.gist p.mask) :
    p.Agrees ((st.log [.done x]).finish (.ok x)) ((st'.log [.done x']).finish (.ok x')) := by
  have hlog : p.InStep (st.log [.done x]) (st'.log [.done x']) :=
    h.log (congrArg (fun x => [RunEvent.done x]) hx)
  exact hlog.finish (congrArg Except.ok hx)

theorem Abreast.run {m m' : Emitter σ} {w w' : σ} (h : p.Abreast m w m' w')
    (hr : p.Matches r r') : p.Agrees (r.run m w) (r'.run m' w') := by
  have hload := h.load (hr.clock w) (hr.clock' w')
  rw [RunSetup.run, RunSetup.run, hr.store, hr.store']
  generalize p.site.store.load (r.clock w) w = x, p.site.store.load (r'.clock w') w' = x'
    at hload ⊢
  cases hload with
  | error e => exact ⟨rfl, rfl, h⟩
  | @ok d d' hloaded =>
    obtain ⟨hg, hd, hd'⟩ := hloaded
    have hsteps := (InStep.opening hr h hg hd hd').runSteps hr Step.all
    dsimp only
    generalize (RunState.opening r d m w).runSteps r Step.all = x,
      (RunState.opening r' d' m' w').runSteps r' Step.all = x' at hsteps ⊢
    cases hsteps with
    | halted halt hst => exact hst.finish rfl
    | @going _ _ st st' _ hst =>
      have hclose := hst.close hr
      dsimp only
      generalize st.close r = x, st'.close r' = x' at hclose ⊢
      cases hclose with
      | halted halt hst => exact hst.finish rfl
      | going _ hst =>
        refine hst.done ?_
        simp only [RunSummary.gist, hst.batches, hst.failures, stuckSetbacks_eq hg]

end Pairing
end Publishing
