import Publishing.Proofs.Phases

/-
How a run can go, batch by batch.

A run over a document whose entities are kept under their ids never fails to find an
entity.  What is left of the ways in which a batch can end are the two saves that may
fail and the pool that may not exist.
-/

namespace Publishing

/-- The entities `ids` wait at `s` with attempts left, and no id comes twice. -/
structure Document.Awaits (d : Document) (s : Step) (ids : List String) : Prop where
  nodup : ids.Nodup
  waiting : ∀ id ∈ ids, ∃ e, d.find? id = some e ∧ e.isPendingAt s ∧ (e.step s).hasAttemptsLeft

namespace Document

theorem nodup_pendingAt {d : Document} (h : d.IsFiled) (s : Step) : (d.pendingAt s).Nodup :=
  nodup_filter_ids h _

theorem mem_pendingAt {d : Document} (h : d.IsFiled) {s : Step} {id : String} :
    id ∈ d.pendingAt s ↔ ∃ e, d.find? id = some e ∧ e.isPendingAt s :=
  mem_filter_ids h

theorem document_select (now : Timestamp) (s : Step) {d : Document} (h : d.IsFiled) :
    (d.select now s).document = d.mapEntities (selected now s (d.pendingAt s)) :=
  document_selectEach now s (nodup_pendingAt h s) d

theorem mem_eligible_select (now : Timestamp) (s : Step) {d : Document} (h : d.IsFiled)
    {id : String} : id ∈ (d.select now s).eligible ↔
      ∃ e, d.find? id = some e ∧ e.isPendingAt s ∧ (e.step s).hasAttemptsLeft := by
  rw [select, eligible_selectEach now s (nodup_pendingAt h s), List.mem_filter, mem_pendingAt h]
  constructor
  · rintro ⟨⟨e, he, hp⟩, hm⟩
    rw [mayRun, he] at hm
    exact ⟨e, he, hp, hm⟩
  · rintro ⟨e, he, hp, hl⟩
    refine ⟨⟨e, he, hp⟩, ?_⟩
    rw [mayRun, he]
    exact hl

theorem find?_blockStuck (now : Timestamp) (d : Document) (id : String) :
    (d.blockStuck now).1.find? id = (d.find? id).map fun e => (e.blockStuck now).1 :=
  find?_mapEntities (fun _ e => (e.blockStuck now).1) d id

theorem find?_select (now : Timestamp) (s : Step) {d : Document} (h : d.IsFiled) (id : String) :
    (d.select now s).document.find? id =
      (d.find? id).map (selected now s (d.pendingAt s) id) := by
  rw [document_select now s h, find?_mapEntities]

theorem related_blockStuck (now : Timestamp) (d : Document) :
    d.Related Entity.SameWork (d.blockStuck now).1 :=
  related_mapEntities (f := fun _ e => (e.blockStuck now).1)
    fun _ e _ => Entity.sameWork_blockStuck now e

theorem related_select (now : Timestamp) (s : Step) {d : Document} (h : d.IsFiled) :
    d.Related Entity.SameWork (d.select now s).document := by
  rw [document_select now s h]
  refine related_mapEntities fun id e _ => ?_
  rw [selected]
  split
  · exact Entity.sameWork_exhaust now s e
  · exact .refl e

theorem isFiled_of_related {d d₀ : Document} (h : d.Related Entity.SameWork d₀) (hd : d.IsFiled) :
    d₀.IsFiled := by
  intro id e he
  obtain ⟨e₀, he₀, hw⟩ := h.left he
  exact hw.id.trans (hd id e₀ he₀)

/-- Those that a selection calls eligible wait in the document that it leaves. -/
theorem awaits_select (now : Timestamp) (s : Step) {d : Document} (h : d.IsFiled) :
    (d.select now s).document.Awaits s (d.select now s).eligible where
  nodup := by
    rw [select, eligible_selectEach now s (nodup_pendingAt h s)]
    exact (nodup_pendingAt h s).sublist List.filter_sublist
  waiting id hid := by
    obtain ⟨e, he, hp, hl⟩ := (mem_eligible_select now s h).mp hid
    refine ⟨e, ?_, hp, hl⟩
    rw [find?_select now s h, he, Option.map_some, selected, if_neg]
    rintro ⟨-, hf⟩
    rw [hl] at hf
    cases hf

theorem Awaits.contains {d : Document} {s : Step} {ids : List String} (h : d.Awaits s ids) :
    ∀ id ∈ ids, d.contains id := by
  intro id hid
  obtain ⟨e, he, -⟩ := h.waiting id hid
  exact contains_iff.mpr ⟨e, he⟩

/-- The marks of a batch leave its entities where they are. -/
theorem Awaits.contains_withMarks {d : Document} {s : Step} {ids : List String}
    (h : d.Awaits s ids) (now : Timestamp) (runId : RunId) :
    ∀ id ∈ ids, (d.withMarks now runId s ids).contains id := by
  intro id hid
  obtain ⟨e, he, -⟩ := h.waiting id hid
  rw [contains_iff, find?_withMarks, he]
  exact ⟨_, rfl⟩

end Document

namespace RunState

variable {σ : Type}

/-- A run after the selection for `s`. -/
def choose (r : RunSetup σ) (s : Step) (st : RunState σ) : RunState σ :=
  let found := st.document.select (r.clock st.world) s
  { st.update found.document found.records with
    failures := st.failures ++ found.setbacks
    changed := st.changed || !found.setbacks.isEmpty || !found.eligible.isEmpty }

/-- A run with the marks of a batch, not yet saved. -/
def mark (s : Step) (ids : List String) (d : Document) (records : List AuditRecord)
    (st : RunState σ) : RunState σ :=
  (st.log [.batchStarted s ids.length]).update (d.setCurrentStep (some s)) records

/-- The summary of a batch that began at `start`. -/
def batch (r : RunSetup σ) (s : Step) (start : Timestamp) (ids : List String)
    (tally : Document.Tally) (st : RunState σ) : Batch where
  step := s
  timestamp := r.clock st.world
  processed := ids.length
  succeeded := tally.succeeded
  failed := tally.failed
  durationMs := (r.clock st.world).millisSince start
  runId := some r.runId

/-- A run with the outcomes of a batch, not yet saved. -/
def enter (r : RunSetup σ) (s : Step) (start : Timestamp) (ids : List String)
    (tally : Document.Tally) (st : RunState σ) : RunState σ :=
  let batch := st.batch r s start ids tally
  { (st.log (progress s ids.length 0 tally.results)).update (tally.document.addBatch batch)
      (tally.records ++ [.ofBatch batch]) with
    failures := st.failures ++ tally.setbacks }

/-- The ways in which a batch can go. -/
inductive BatchRun (r : RunSetup σ) (s : Step) (ids : List String) (st : RunState σ) :
    Except Halt Unit → RunState σ → Prop
  /-- The marks could not be saved. -/
  | unmarked {d records calls h st₁}
      (marked : st.document.markEach (r.clock st.world) r.runId s ids = .ok (d, records, calls))
      (save : (st.mark s ids d records).save r = (.error h, st₁)) :
      BatchRun r s ids st (.error h) st₁
  /-- There is no pool with so many permits. -/
  | overfull {d records calls st₁}
      (marked : st.document.markEach (r.clock st.world) r.runId s ids = .ok (d, records, calls))
      (save : (st.mark s ids d records).save r = (.ok (), st₁)) :
      BatchRun r s ids st (.error (.tooManyPermits r.permits)) st₁
  /-- The outcomes could not be saved. -/
  | unfolded {d records calls st₁ ending st₂ tally h st₃}
      (marked : st.document.markEach (r.clock st.world) r.runId s ids = .ok (d, records, calls))
      (save : (st.mark s ids d records).save r = (.ok (), st₁))
      (execute : st₁.execute r calls = (ending, st₂))
      (folded : st₂.document.foldEach (r.clock st₂.world) s ending ids = .ok tally)
      (save₂ : (st₂.enter r s (r.clock st.world) ids tally).save r = (.error h, st₃)) :
      BatchRun r s ids st (.error h) st₃
  | folded {d records calls st₁ ending st₂ tally st₃}
      (marked : st.document.markEach (r.clock st.world) r.runId s ids = .ok (d, records, calls))
      (save : (st.mark s ids d records).save r = (.ok (), st₁))
      (execute : st₁.execute r calls = (ending, st₂))
      (folded : st₂.document.foldEach (r.clock st₂.world) s ending ids = .ok tally)
      (save₂ : (st₂.enter r s (r.clock st.world) ids tally).save r = (.ok (), st₃)) :
      BatchRun r s ids st (.ok ())
        { st₃ with batches := st₃.batches ++ [st₂.batch r s (r.clock st.world) ids tally] }

/-! ## What a save and an execution leave as it was -/

theorem save_fst_cases (r : RunSetup σ) (st : RunState σ) :
    (∃ w, r.store.save (r.clock st.world) st.document st.world = (.ok (), w) ∧
      st.save r = (.ok (), { st.log [.saving st.document] with
        emitter := (st.emitter.flush w).1, world := (st.emitter.flush w).2 })) ∨
    ∃ e w, r.store.save (r.clock st.world) st.document st.world = (.error e, w) ∧
      st.save r = (.error (.error e), { st.log [.saving st.document] with
        emitter := st.emitter.discard, world := w }) := by
  rcases hs : r.store.save (r.clock st.world) st.document st.world with ⟨_ | ⟨⟩, w⟩
  · refine Or.inr ⟨_, w, rfl, ?_⟩
    simp only [save, log]
    rw [hs]
  · refine Or.inl ⟨w, rfl, ?_⟩
    simp only [save, log]
    rw [hs]

theorem save_spec {r : RunSetup σ} {st st' : RunState σ} {res : Except Halt Unit}
    (h : st.save r = (res, st')) : st'.document = st.document ∧
      st'.trace = st.trace ++ [.saving st.document] ∧ st'.emitter.queue = [] ∧
      st'.emitter.sinks = st.emitter.sinks := by
  rcases save_fst_cases r st with ⟨w, -, hs⟩ | ⟨e, w, -, hs⟩ <;>
  · rw [hs] at h
    obtain ⟨-, rfl⟩ := Prod.mk.inj h
    exact ⟨rfl, rfl, rfl, rfl⟩

theorem execute_spec {r : RunSetup σ} {calls : List Call} {st st' : RunState σ}
    {ending : String → Ending} (h : st.execute r calls = (ending, st')) :
    st'.document = st.document ∧ st'.emitter = st.emitter ∧
      st'.trace = st.trace ++
        ((Pool.ofCalls calls st.world).drain r.permits r.executor r.schedule).2.map .pool ∧
      st'.world =
        ((Pool.ofCalls calls st.world).drain r.permits r.executor r.schedule).1.world := by
  obtain ⟨-, rfl⟩ := Prod.mk.inj h
  exact ⟨rfl, rfl, rfl, rfl⟩

/-- Closing a run is a save of the document without a current step, or nothing if nothing has
changed. -/
theorem close_cases {r : RunSetup σ} {st st' : RunState σ} {res : Except Halt Unit}
    (h : st.close r = (res, st')) :
    (st.changed ∧ { st with document := st.document.setCurrentStep none }.save r = (res, st')) ∨
      st.changed = false ∧ res = .ok () ∧ st' = st := by
  unfold close at h
  split at h
  · next hc => exact Or.inl ⟨hc, h⟩
  · next hc =>
    obtain ⟨rfl, rfl⟩ := Prod.mk.inj h
    exact Or.inr ⟨Bool.eq_false_iff.mpr hc, rfl, rfl⟩

theorem runStep_eq (r : RunSetup σ) (s : Step) (st : RunState σ) :
    st.runStep r s =
      let ids := (st.document.select (r.clock st.world) s).eligible
      if ids.isEmpty then (.ok (), st.choose r s) else (st.choose r s).runBatch r s ids := rfl

/-- Marking a batch is saving its marks. -/
theorem markBatch_eq {r : RunSetup σ} {s : Step} {ids : List String} {st : RunState σ}
    {d : Document} {records : List AuditRecord} {calls : List Call}
    (hm : st.document.markEach (r.clock st.world) r.runId s ids = .ok (d, records, calls)) :
    st.markBatch r s ids =
      match (st.mark s ids d records).save r with
      | (.ok (), st₁) => (.ok calls, st₁)
      | (.error h, st₁) => (.error h, st₁) := by
  simp only [markBatch, log]
  rw [hm]
  rfl

/-- Folding a batch is saving its outcomes. -/
theorem foldBatch_eq {r : RunSetup σ} {s : Step} {ids : List String} {st : RunState σ}
    {ending : String → Ending} {tally : Document.Tally}
    (hf : st.document.foldEach (r.clock st.world) s ending ids = .ok tally) (start : Timestamp) :
    st.foldBatch r s start ids ending =
      match (st.enter r s start ids tally).save r with
      | (.ok (), st₁) => (.ok (), { st₁ with
          batches := st₁.batches ++ [st.batch r s start ids tally] })
      | (.error h, st₁) => (.error h, st₁) := by
  simp only [foldBatch]
  rw [hf]
  rfl

/-- The entities of a batch are still there when its calls are over. -/
theorem foldEach_of_execute {r : RunSetup σ} {s : Step} {ids : List String}
    {st st₁ st₂ : RunState σ} (hw : st.document.Awaits s ids) {records : List AuditRecord}
    (hs : (st.mark s ids (st.document.mapEntities
      (Document.marked (r.clock st.world) r.runId s ids)) records).save r = (.ok (), st₁))
    {calls : List Call} {ending : String → Ending} (hx : st₁.execute r calls = (ending, st₂)) :
    ∃ tally, st₂.document.foldEach (r.clock st₂.world) s ending ids = .ok tally := by
  have hc : ∀ id ∈ ids, st₂.document.contains id := by
    rw [(execute_spec hx).1, (save_spec hs).1]
    exact hw.contains_withMarks _ _
  obtain ⟨tally, hf, -, -⟩ :=
    Document.foldEach_eq (r.clock st₂.world) s ending hw.nodup st₂.document hc
  exact ⟨tally, hf⟩

/-- The batch of entities that wait goes one of these ways. -/
theorem runBatch_spec (r : RunSetup σ) (s : Step) {ids : List String} {st : RunState σ}
    (hw : st.document.Awaits s ids) {res : Except Halt Unit} {st' : RunState σ}
    (h : st.runBatch r s ids = (res, st')) : BatchRun r s ids st res st' := by
  obtain ⟨records, calls, hm, -, -⟩ :=
    Document.markEach_eq (r.clock st.world) r.runId s hw.nodup st.document hw.contains
  rw [runBatch, markBatch_eq hm] at h
  rcases hs : (st.mark s ids (st.document.mapEntities
      (Document.marked (r.clock st.world) r.runId s ids)) records).save r with ⟨_ | ⟨⟩, st₁⟩
  · rw [hs] at h
    obtain ⟨rfl, rfl⟩ := Prod.mk.inj h
    exact .unmarked hm hs
  · rw [hs] at h
    dsimp only at h
    by_cases hp : Pool.greatestPermits < r.permits
    · rw [if_pos hp] at h
      obtain ⟨rfl, rfl⟩ := Prod.mk.inj h
      exact .overfull hm hs
    · rw [if_neg hp] at h
      rcases hx : st₁.execute r calls with ⟨ending, st₂⟩
      rw [hx] at h
      obtain ⟨tally, hf⟩ := foldEach_of_execute hw hs hx
      dsimp only at h
      rw [foldBatch_eq hf] at h
      rcases hs₂ : (st₂.enter r s (r.clock st.world) ids tally).save r with ⟨_ | ⟨⟩, st₃⟩
      · rw [hs₂] at h
        obtain ⟨rfl, rfl⟩ := Prod.mk.inj h
        exact .unfolded hm hs hx hf hs₂
      · rw [hs₂] at h
        obtain ⟨rfl, rfl⟩ := Prod.mk.inj h
        exact .folded hm hs hx hf hs₂

/-- Steps that go well are a first one that does and the others after it. -/
theorem runSteps_cons {r : RunSetup σ} {s : Step} {rest : List Step} {st st' : RunState σ}
    (h : st.runSteps r (s :: rest) = (.ok (), st')) :
    ∃ st₁, st.runStep r s = (.ok (), st₁) ∧ st₁.runSteps r rest = (.ok (), st') := by
  rw [runSteps] at h
  rcases hstep : st.runStep r s with ⟨_ | ⟨⟩, st₁⟩
  · rw [hstep] at h
    cases h
  · rw [hstep] at h
    exact ⟨st₁, rfl, h⟩

/-- What one step of a run keeps while it goes on, and what it leaves when it halts, all
the steps keep and leave. -/
theorem runSteps_induct {r : RunSetup σ} (Going Halted : RunState σ → Prop)
    (step : ∀ s st res st', Going st → st.runStep r s = (res, st') →
      (res = .ok () → Going st') ∧ (res ≠ .ok () → Halted st'))
    (steps : List Step) {st : RunState σ} (h : Going st) {res : Except Halt Unit}
    {st' : RunState σ} (hr : st.runSteps r steps = (res, st')) :
    (res = .ok () → Going st') ∧ (res ≠ .ok () → Halted st') := by
  induction steps generalizing st with
  | nil =>
    obtain ⟨rfl, rfl⟩ := Prod.mk.inj hr
    exact ⟨fun _ => h, fun hne => absurd rfl hne⟩
  | cons s rest ih =>
    rw [runSteps] at hr
    rcases hs : st.runStep r s with ⟨res₁, st₁⟩
    have hstep := step s st res₁ st₁ h hs
    rw [hs] at hr
    match res₁, hr with
    | .ok (), hr => exact ih (hstep.1 rfl) hr
    | .error e, hr =>
      obtain ⟨rfl, rfl⟩ := Prod.mk.inj hr
      exact ⟨nofun, fun _ => hstep.2 nofun⟩

/-- A step with nothing to run is the selection alone, and otherwise the batch of all that
is eligible. -/
theorem runStep_cases_eligible {r : RunSetup σ} {s : Step} {st st' : RunState σ}
    {res : Except Halt Unit} (hf : st.document.IsFiled) (h : st.runStep r s = (res, st')) :
    ((st.document.select (r.clock st.world) s).eligible = [] ∧ res = .ok () ∧
      st' = st.choose r s) ∨
    (st.document.select (r.clock st.world) s).eligible ≠ [] ∧
      (st.choose r s).document.Awaits s (st.document.select (r.clock st.world) s).eligible ∧
      BatchRun r s (st.document.select (r.clock st.world) s).eligible (st.choose r s) res st' := by
  rw [runStep_eq] at h
  dsimp only at h
  split at h
  · next hnil =>
    obtain ⟨rfl, rfl⟩ := Prod.mk.inj h
    exact Or.inl ⟨List.isEmpty_iff.mp hnil, rfl, rfl⟩
  · next hnil =>
    have hw := Document.awaits_select (r.clock st.world) s hf
    exact Or.inr ⟨fun h => hnil (List.isEmpty_iff.mpr h), hw, runBatch_spec r s hw h⟩

theorem runStep_cases {r : RunSetup σ} {s : Step} {st st' : RunState σ}
    {res : Except Halt Unit} (hf : st.document.IsFiled) (h : st.runStep r s = (res, st')) :
    (res = .ok () ∧ st' = st.choose r s) ∨
      ∃ ids, (st.choose r s).document.Awaits s ids ∧ BatchRun r s ids (st.choose r s) res st' := by
  rcases runStep_cases_eligible hf h with ⟨-, hres, hst⟩ | ⟨-, hb⟩
  · exact Or.inl ⟨hres, hst⟩
  · exact Or.inr ⟨_, hb⟩

end RunState

/-- How a run over a document ends: in one of the steps, in the last save, or well. -/
theorem RunSetup.run_cases_of_load {σ : Type} {r : RunSetup σ} (m : Emitter σ) {w : σ}
    {d : Document} (hl : r.store.load (r.clock w) w = .ok d) :
    (∃ h st, (RunState.opening r d m w).runSteps r Step.all = (.error h, st) ∧
      r.run m w = st.finish (.error h)) ∨
    ∃ st₁, (RunState.opening r d m w).runSteps r Step.all = (.ok (), st₁) ∧
      ((∃ h st, st₁.close r = (.error h, st) ∧ r.run m w = st.finish (.error h)) ∨
      ∃ st summary, st₁.close r = (.ok (), st) ∧
        r.run m w = (st.log [.done summary]).finish (.ok summary)) := by
  rw [RunSetup.run, hl]
  dsimp only
  rcases hs : (RunState.opening r d m w).runSteps r Step.all with ⟨_ | ⟨⟩, st₁⟩
  · exact Or.inl ⟨_, _, rfl, rfl⟩
  · refine Or.inr ⟨st₁, rfl, ?_⟩
    dsimp only
    rcases hc : st₁.close r with ⟨_ | ⟨⟩, st⟩
    · exact Or.inl ⟨_, _, rfl, rfl⟩
    · exact Or.inr ⟨_, _, rfl, rfl⟩

/-- A run ends in loading, or as a run over the document that it loads. -/
theorem RunSetup.run_cases {σ : Type} (r : RunSetup σ) (m : Emitter σ) (w : σ) :
    (∃ e, r.store.load (r.clock w) w = .error e ∧ r.run m w = ⟨.error (.error e), m, w, []⟩) ∨
    ∃ d, r.store.load (r.clock w) w = .ok d ∧
      ((∃ h st, (RunState.opening r d m w).runSteps r Step.all = (.error h, st) ∧
        r.run m w = st.finish (.error h)) ∨
      ∃ st₁, (RunState.opening r d m w).runSteps r Step.all = (.ok (), st₁) ∧
        ((∃ h st, st₁.close r = (.error h, st) ∧ r.run m w = st.finish (.error h)) ∨
        ∃ st summary, st₁.close r = (.ok (), st) ∧
          r.run m w = (st.log [.done summary]).finish (.ok summary))) := by
  cases hl : r.store.load (r.clock w) w with
  | error e =>
    rw [RunSetup.run, hl]
    exact Or.inl ⟨e, rfl, rfl⟩
  | ok d => exact Or.inr ⟨d, rfl, run_cases_of_load m hl⟩

/-- A run that gets through all steps is over when it is closed. -/
theorem RunSetup.run_of_runSteps {σ : Type} {r : RunSetup σ} {m : Emitter σ} {w : σ} {d : Document}
    (hl : r.store.load (r.clock w) w = .ok d)
    (hs : ((RunState.opening r d m w).runSteps r Step.all).1 = .ok ()) :
    (r.run m w).emitter =
        (((RunState.opening r d m w).runSteps r Step.all).2.close r).2.emitter ∧
      (r.run m w).world = (((RunState.opening r d m w).runSteps r Step.all).2.close r).2.world := by
  rcases run_cases_of_load m hl with ⟨halt, st, hsteps, -⟩ | ⟨st, hsteps, hclose⟩
  · rw [hsteps] at hs
    cases hs
  rw [hsteps]
  rcases hclose with ⟨halt, st', hc, hrun⟩ | ⟨st', summary, hc, hrun⟩
  all_goals
    rw [hrun, hc]
    exact ⟨rfl, rfl⟩

end Publishing
