import Publishing.Proofs.Announcements
import Publishing.Proofs.Barriers
import Publishing.Proofs.Gists

/-
What comes of a run does not depend on the schedule.

In the ideal run over a document nothing can go wrong and no time passes: there is one worker,
the store takes everything and the calls end at once.  Whatever the clock, the schedule and the
number of workers, a run with the same answers is a copy of the ideal one: after each step both
have the same gist, and if a save is refused, all that the run has told by then is how the
ideal one begins.  So any two runs tell the same, as far as both get.
-/

namespace Publishing

variable {g : String → String}

/-! ## What a run tells -/

def RunSummary.gist (g : String → String) (x : RunSummary) : RunSummary where
  runId := ⟨0⟩
  batches := x.batches.map Batch.blur
  failures := x.failures.map (Setback.mask g)
  stuck := x.stuck
  durationMs := 0

namespace RunEvent

/-- The gist of an event that is told outside the pool. -/
def gist? (g : String → String) : RunEvent → Option RunEvent
  | pool _ => none
  | saving d => some (saving (d.gist g))
  | done summary => some (done (summary.gist g))
  | e => some e

def gists (g : String → String) (l : List RunEvent) : List RunEvent := l.filterMap (gist? g)

@[simp] theorem gists_append (l k : List RunEvent) : gists g (l ++ k) = gists g l ++ gists g k :=
  List.filterMap_append

@[simp] theorem gists_pool (l : List PoolEvent) : gists g (l.map .pool) = [] := by
  simp [gists, gist?]

theorem savings_gists (l : List RunEvent) :
    savings (gists g l) = (savings l).map (Document.gist g) := by
  induction l with
  | nil => rfl
  | cons e rest ih =>
    cases e with
    | saving d => exact congrArg (d.gist g :: ·) ih
    | batchStarted s n => exact ih
    | pool e => exact ih
    | entityFinished id s ok current total => exact ih
    | done summary => exact ih

theorem lastSaved_gists (l : List RunEvent) :
    lastSaved (gists g l) = (lastSaved l).map (Document.gist g) := by
  rw [lastSaved, savings_gists, List.getLast?_map]
  rfl

end RunEvent

/-- Whether `δ` says what a run with this emitter has delivered, and nothing waits for that at
its beginning. -/
structure RunSetup.Logs {σ : Type} (r : RunSetup σ) (m : Emitter σ) (δ : σ → List AuditRecord) :
    Prop where
  records : Emitter.Records m.sinks δ
  queue : m.queue = []
  save : ∀ now d w, δ (r.store.save now d w).2 = δ w
  call : ∀ c w, δ (r.executor c w).2 = δ w

/-! ## The ideal run -/

/-- The run over `d` in which nothing can go wrong. -/
def RunSetup.ideal (f : Call → Outcome) (d : Document) : RunSetup (List AuditRecord) where
  store := ⟨fun _ _ => .ok d, fun _ _ w => (.ok (), w)⟩
  executor := fun c w => (.returned (f c) 0, w)
  clock _ := .ofSeconds 0
  runId := ⟨0⟩
  concurrency := 1
  schedule := Pool.eager

/-- Writes down what is delivered. -/
def Emitter.ideal : Emitter (List AuditRecord) := .ofSinks [fun record w => (.ok (), w ++ [record])]

theorem Emitter.records_ideal : Records Emitter.ideal.sinks id := fun _ _ => rfl

namespace RunState

variable {f : Call → Outcome} {d : Document} {s : Step} {ids : List String}

/-- Whether one state of an ideal run comes before the other. -/
structure Begins (st st' : RunState (List AuditRecord)) : Prop where
  trace : st.trace <+: st'.trace
  world : st.world <+: st'.world
  sinks : st'.emitter.sinks = st.emitter.sinks

section

variable {st st' st'' : RunState (List AuditRecord)} {res : Except Halt Unit}

theorem Begins.refl (st : RunState (List AuditRecord)) : st.Begins st :=
  ⟨List.prefix_rfl, List.prefix_rfl, rfl⟩

theorem Begins.trans (h : st.Begins st') (h' : st'.Begins st'') : st.Begins st'' :=
  ⟨h.trace.trans h'.trace, h.world.trans h'.world, h'.sinks.trans h.sinks⟩

theorem begins_update (d : Document) (records : List AuditRecord)
    (st : RunState (List AuditRecord)) : st.Begins (st.update d records) :=
  ⟨List.prefix_rfl, List.prefix_rfl, Emitter.sinks_enqueue ..⟩

theorem begins_log (l : List RunEvent) (st : RunState (List AuditRecord)) :
    st.Begins (st.log l) := ⟨List.prefix_append .., List.prefix_rfl, rfl⟩

theorem begins_choose (s : Step) (st : RunState (List AuditRecord)) :
    st.Begins (st.choose (.ideal f d) s) :=
  ⟨List.prefix_rfl, List.prefix_rfl, Emitter.sinks_enqueue ..⟩

theorem begins_mark (s : Step) (ids : List String) (d : Document) (records : List AuditRecord)
    (st : RunState (List AuditRecord)) : st.Begins (st.mark s ids d records) :=
  (begins_log ..).trans (begins_update ..)

theorem begins_enter (s : Step) (start : Timestamp) (ids : List String) (tally : Document.Tally)
    (st : RunState (List AuditRecord)) : st.Begins (st.enter (.ideal f d) s start ids tally) :=
  ⟨List.prefix_append .., List.prefix_rfl, Emitter.sinks_enqueue ..⟩

/-- In an ideal run no save is refused. -/
theorem save_ideal (h : st.save (.ideal f d) = (res, st'))
    (hm : st.emitter.sinks = Emitter.ideal.sinks) : res = .ok () ∧ st.Begins st' := by
  obtain ⟨rfl, rfl⟩ := Prod.mk.inj h
  refine ⟨rfl, List.prefix_append .., ?_, rfl⟩
  have hrecords : Emitter.Records st.emitter.sinks id := hm ▸ Emitter.records_ideal
  exact ⟨_, (hrecords.flush st.world).symm⟩

theorem begins_execute {calls : List Call} {ending : String → Ending}
    (h : st.execute (.ideal f d) calls = (ending, st')) : st.Begins st' := by
  obtain ⟨-, hm, ht, hw⟩ := execute_spec h
  refine ⟨ht ▸ List.prefix_append .., ?_, congrArg (·.sinks) hm⟩
  have hworld := Pool.world_runFor (P := (· = st.world)) 1 (x := (RunSetup.ideal f d).executor)
    (fun c w hw => hw) Pool.eager (Pool.ofCalls calls st.world).work
    (p := Pool.ofCalls calls st.world) rfl
  rw [hw]
  exact hworld.symm ▸ List.prefix_rfl

theorem fold_ideal {st₁ st₂ : RunState (List AuditRecord)} {d' : Document}
    {records : List AuditRecord} {calls : List Call} {ending : String → Ending}
    {tally : Document.Tally} {start : Timestamp} (hm : st.emitter.sinks = Emitter.ideal.sinks)
    (hs : (st.mark s ids d' records).save (.ideal f d) = (.ok (), st₁))
    (hx : st₁.execute (.ideal f d) calls = (ending, st₂))
    (hs₂ : (st₂.enter (.ideal f d) s start ids tally).save (.ideal f d) = (res, st')) :
    res = .ok () ∧ st.Begins st' := by
  have hmark := begins_mark s ids d' records st
  have hsaved := (save_ideal hs (hmark.sinks.trans hm)).2
  have henter := begins_enter (f := f) (d := d) s start ids tally st₂
  have hentered := (hmark.trans hsaved).trans ((begins_execute hx).trans henter)
  obtain ⟨hres, hsaved₂⟩ := save_ideal hs₂ (hentered.sinks.trans hm)
  exact ⟨hres, hentered.trans hsaved₂⟩

/-- An ideal run does not halt. -/
theorem runStep_ideal (hf : st.document.IsFiled) (hm : st.emitter.sinks = Emitter.ideal.sinks)
    (h : st.runStep (.ideal f d) s = (res, st')) : res = .ok () ∧ st.Begins st' := by
  have hchoose := begins_choose (f := f) (d := d) s st
  have hm₁ := hchoose.sinks.trans hm
  rcases runStep_cases_eligible hf h with ⟨-, rfl, rfl⟩ | ⟨-, hw, hb⟩
  · exact ⟨rfl, hchoose⟩
  · cases hb with
    | unmarked _ hs =>
      obtain ⟨hok, -⟩ := save_ideal hs ((begins_mark ..).sinks.trans hm₁)
      cases hok
    | overfull =>
      have hp : (RunSetup.ideal f d).permits ≤ Pool.greatestPermits :=
        (by decide : 1 ≤ Pool.greatestPermits)
      exact absurd h (not_overfull hp hf)
    | unfolded _ hs hx _ hs₂ =>
      obtain ⟨hok, -⟩ := fold_ideal hm₁ hs hx hs₂
      cases hok
    | folded _ hs hx _ hs₂ =>
      obtain ⟨-, hfolded⟩ := fold_ideal hm₁ hs hx hs₂
      have hall := hchoose.trans hfolded
      exact ⟨rfl, hall.trace, hall.world, hall.sinks⟩

theorem close_ideal (hm : st.emitter.sinks = Emitter.ideal.sinks)
    (h : st.close (.ideal f d) = (res, st')) : res = .ok () ∧ st.Begins st' := by
  rcases close_cases h with ⟨-, hsave⟩ | ⟨-, rfl, rfl⟩
  · obtain ⟨hres, hb⟩ := save_ideal hsave hm
    exact ⟨hres, hb.trace, hb.world, hb.sinks⟩
  · exact ⟨rfl, .refl st'⟩

theorem runSteps_ideal {steps : List Step} (hf : st.document.IsFiled)
    (hm : st.emitter.sinks = Emitter.ideal.sinks)
    (h : st.runSteps (.ideal f d) steps = (res, st')) : res = .ok () ∧ st.Begins st' := by
  induction steps generalizing st with
  | nil =>
    obtain ⟨rfl, rfl⟩ := Prod.mk.inj h
    exact ⟨rfl, .refl st⟩
  | cons s rest ih =>
    rcases hs : st.runStep (.ideal f d) s with ⟨res₁, st₁⟩
    obtain ⟨rfl, hbegins⟩ := runStep_ideal hf hm hs
    rw [runSteps, hs] at h
    obtain ⟨rfl, hrest⟩ := ih (isFiled_of_runStep hf hs) (hbegins.sinks.trans hm) h
    exact ⟨rfl, hbegins.trans hrest⟩

end

/-! ## A run beside the ideal one -/

variable {σ : Type} {r : RunSetup σ} {m : Emitter σ} {w : σ}

/-- Whether a run is where the ideal one is: both have the same gist. -/
structure Mirrors (g : String → String) (r : RunSetup σ) (m : Emitter σ) (w : σ)
    (st : RunState σ) (st₀ : RunState (List AuditRecord)) : Prop where
  document : st.document.gist g = st₀.document.gist g
  batches : st.batches.map Batch.blur = st₀.batches.map Batch.blur
  failures : st.failures.map (Setback.mask g) = st₀.failures.map (Setback.mask g)
  changed : st.changed = st₀.changed
  trace : RunEvent.gists g st.trace = RunEvent.gists g st₀.trace
  sinks : st.emitter.sinks = m.sinks
  ideal : st₀.emitter.sinks = Emitter.ideal.sinks
  queue : ∀ δ, r.Logs m δ →
    st.emitter.queue.map (AuditRecord.gist g) = st₀.emitter.queue.map (AuditRecord.gist g)
  world : ∀ δ, r.Logs m δ → ∃ new, δ st.world = δ w ++ new ∧
    new.map (AuditRecord.gist g) = st₀.world.map (AuditRecord.gist g)

/-- Whether a run has told how the ideal one begins. -/
structure Trails (g : String → String) (r : RunSetup σ) (m : Emitter σ) (w : σ)
    (st : RunState σ) (st₀ : RunState (List AuditRecord)) : Prop where
  trace : RunEvent.gists g st.trace <+: RunEvent.gists g st₀.trace
  world : ∀ δ, r.Logs m δ → ∃ new, δ st.world = δ w ++ new ∧
    new.map (AuditRecord.gist g) <+: st₀.world.map (AuditRecord.gist g)

section

variable {st st' : RunState σ} {st₀ st₀' : RunState (List AuditRecord)} {res : Except Halt Unit}

theorem Trails.mono (h : Trails g r m w st st₀) (hb : st₀.Begins st₀') :
    Trails g r m w st st₀' where
  trace := h.trace.trans (hb.trace.filterMap _)
  world δ hδ := by
    obtain ⟨new, hnew, hprefix⟩ := h.world δ hδ
    exact ⟨new, hnew, hprefix.trans (hb.world.map _)⟩

theorem Mirrors.log (h : Mirrors g r m w st st₀) (l l₀ : List RunEvent)
    (hl : RunEvent.gists g l = RunEvent.gists g l₀) :
    Mirrors g r m w (st.log l) (st₀.log l₀) := by
  refine { h with trace := ?_ }
  show RunEvent.gists g (st.trace ++ l) = RunEvent.gists g (st₀.trace ++ l₀)
  rw [RunEvent.gists_append, RunEvent.gists_append, h.trace, hl]

theorem Mirrors.update (h : Mirrors g r m w st st₀) {d d₀ : Document}
    (hd : d.gist g = d₀.gist g) {records records₀ : List AuditRecord}
    (hr : records.map (AuditRecord.gist g) = records₀.map (AuditRecord.gist g)) :
    Mirrors g r m w (st.update d records) (st₀.update d₀ records₀) := by
  refine { h with document := hd, sinks := ?_, ideal := ?_, queue := fun δ hδ => ?_ }
  · exact (Emitter.sinks_enqueue ..).trans h.sinks
  · exact (Emitter.sinks_enqueue ..).trans h.ideal
  · have hrecords : Emitter.Records st.emitter.sinks δ := h.sinks ▸ hδ.records
    have hrecords₀ : Emitter.Records st₀.emitter.sinks id := h.ideal ▸ Emitter.records_ideal
    show (st.emitter.enqueue records).queue.map _ = (st₀.emitter.enqueue records₀).queue.map _
    rw [hrecords.queue_enqueue w, hrecords₀.queue_enqueue [], List.map_append, List.map_append,
      h.queue δ hδ, hr]

/-- What is saved is told alike, and when the store has taken it, the queued records go out. -/
theorem Mirrors.save (h : Mirrors g r m w st st₀) (hs : st.save r = (res, st'))
    (hs₀ : st₀.save (.ideal f d) = (.ok (), st₀')) :
    (res = .ok () → Mirrors g r m w st' st₀') ∧ (res ≠ .ok () → Trails g r m w st' st₀') := by
  obtain ⟨-, rfl⟩ := Prod.mk.inj hs₀
  have hlog := h.log [.saving st.document] [.saving st₀.document]
    (congrArg (fun d => [RunEvent.saving d]) h.document)
  have hrecords₀ : Emitter.Records st₀.emitter.sinks id := h.ideal ▸ Emitter.records_ideal
  have hflush₀ := hrecords₀.flush st₀.world
  rcases save_fst_cases r st with ⟨w', hsave, hst⟩ | ⟨e, w', hsave, hst⟩
  · obtain ⟨rfl, rfl⟩ := Prod.mk.inj (hst.symm.trans hs)
    refine ⟨fun _ => { hlog with queue := fun _ _ => rfl, world := fun δ hδ => ?_ }, nofun⟩
    obtain ⟨new, hnew, hworld⟩ := h.world δ hδ
    have hrecords : Emitter.Records st.emitter.sinks δ := h.sinks ▸ hδ.records
    have hkept := hδ.save (r.clock st.world) st.document st.world
    rw [hsave] at hkept
    refine ⟨new ++ st.emitter.queue, ?_, ?_⟩
    · show δ (st.emitter.flush w').2 = _
      rw [hrecords.flush, hkept, hnew, List.append_assoc]
    · refine Eq.trans ?_ (congrArg (List.map (AuditRecord.gist g)) hflush₀.symm)
      rw [List.map_append, hworld, h.queue δ hδ]
      exact List.map_append.symm
  · obtain ⟨rfl, rfl⟩ := Prod.mk.inj (hst.symm.trans hs)
    refine ⟨nofun, fun _ => ⟨hlog.trace ▸ List.prefix_rfl, fun δ hδ => ?_⟩⟩
    obtain ⟨new, hnew, hworld⟩ := h.world δ hδ
    have hkept := hδ.save (r.clock st.world) st.document st.world
    rw [hsave] at hkept
    refine ⟨new, hkept.trans hnew, ?_⟩
    rw [hworld]
    exact List.IsPrefix.map _ ⟨_, hflush₀.symm⟩

theorem Mirrors.choose (h : Mirrors g r m w st st₀) (s : Step) :
    Mirrors g r m w (st.choose r s) (st₀.choose (.ideal f d) s) ∧
      (st.document.select (r.clock st.world) s).eligible =
        (st₀.document.select ((RunSetup.ideal f d).clock st₀.world) s).eligible := by
  have hgist := Document.gist_select h.document ((RunSetup.ideal f d).clock st₀.world)
    (r.clock st.world) s
  obtain ⟨hd, hr, heligible, hsetbacks⟩ := Document.Selection.mk.inj hgist
  refine ⟨{ h.update hd hr with failures := ?_, changed := ?_ }, heligible⟩
  · show (st.failures ++ _).map _ = (st₀.failures ++ _).map _
    rw [List.map_append, List.map_append, h.failures, hsetbacks]
  · have hnone := congrArg List.isEmpty hsetbacks
    rw [List.isEmpty_map, List.isEmpty_map] at hnone
    show (st.changed || !_ || !_) = (st₀.changed || !_ || !_)
    rw [h.changed, hnone, heligible]

theorem Mirrors.mark (h : Mirrors g r m w st st₀) {d₁ d₂ : Document}
    {records records₀ : List AuditRecord} {calls calls₀ : List Call}
    (hm : st.document.markEach (r.clock st.world) r.runId s ids = .ok (d₁, records, calls))
    (hm₀ : st₀.document.markEach ((RunSetup.ideal f d).clock st₀.world)
      (RunSetup.ideal f d).runId s ids = .ok (d₂, records₀, calls₀)) :
    Mirrors g r m w (st.mark s ids d₁ records) (st₀.mark s ids d₂ records₀) ∧ calls = calls₀ := by
  have hgist := Document.gist_markEach h.document ((RunSetup.ideal f d).clock st₀.world)
    (r.clock st.world) (RunSetup.ideal f d).runId r.runId s ids
  rw [hm, hm₀] at hgist
  obtain ⟨hd, hrc⟩ := Prod.mk.inj (Except.ok.inj hgist)
  obtain ⟨hr, hc⟩ := Prod.mk.inj hrc
  exact ⟨(h.log _ _ rfl).update (Document.gist_setCurrentStep hd (some s)) hr, hc⟩

/-- The pool changes nothing but the world, and there the calls deliver no records. -/
theorem Mirrors.execute (h : Mirrors g r m w st st₀) (hx : r.executor.AnswersAs g f)
    {calls : List Call} (hn : (calls.map (·.entity)).Nodup) {ending ending₀ : String → Ending}
    (he : st.execute r calls = (ending, st'))
    (he₀ : st₀.execute (.ideal f d) calls = (ending₀, st₀')) :
    Mirrors g r m w st' st₀' ∧ ∀ c ∈ calls,
      (ending c.entity).outcome.mask g = (ending₀ c.entity).outcome.mask g := by
  obtain ⟨rfl, rfl⟩ := Prod.mk.inj he
  obtain ⟨rfl, hst₀⟩ := Prod.mk.inj he₀
  have hx₀ : (RunSetup.ideal f d).executor.AnswersAs g f := fun _ _ => rfl
  refine ⟨?_, fun c hc => ?_⟩
  · have hlog := h.log
      (((Pool.ofCalls calls st.world).drain r.permits r.executor r.schedule).2.map .pool)
      (((Pool.ofCalls calls st₀.world).drain (RunSetup.ideal f d).permits
        (RunSetup.ideal f d).executor (RunSetup.ideal f d).schedule).2.map .pool)
      (by rw [RunEvent.gists_pool, RunEvent.gists_pool])
    subst hst₀
    refine { hlog with world := fun δ hδ => ?_ }
    obtain ⟨new, hnew, hmap⟩ := h.world δ hδ
    have hkept := Pool.world_runFor (P := fun w' => δ w' = δ st.world) r.permits (x := r.executor)
      (fun c w' hw' => (hδ.call c w').trans hw') r.schedule (Pool.ofCalls calls st.world).work
      (p := Pool.ofCalls calls st.world) rfl
    have hkept₀ := Pool.world_runFor (P := (· = st₀.world)) 1
      (x := (RunSetup.ideal f d).executor) (fun c w hw => hw) Pool.eager
      (Pool.ofCalls calls st₀.world).work (p := Pool.ofCalls calls st₀.world) rfl
    exact ⟨new, hkept.trans hnew, hmap.trans (congrArg _ hkept₀.symm)⟩
  · have hanswer := Pool.endingOf_drain (permits_pos r) hx r.schedule hn st.world hc
    exact hanswer.trans (Pool.endingOf_drain Nat.one_pos hx₀ Pool.eager hn st₀.world hc).symm

theorem gist_ofBatch {b b' : Batch} (h : b'.blur = b.blur) :
    (AuditRecord.ofBatch b').gist g = (AuditRecord.ofBatch b).gist g := by
  obtain ⟨hs, -, hp, hk, hf, -, -⟩ := Batch.mk.inj h
  simp [AuditRecord.gist, AuditRecord.ofBatch, AuditRecord.mask, AuditRecord.blur,
    Json.mask_ofMembers, Json.blur_ofMembers, hs, hp, hk, hf]

theorem Mirrors.enter (h : Mirrors g r m w st st₀) {start start₀ : Timestamp}
    {tally tally₀ : Document.Tally} (ht : tally.gist g = tally₀.gist g) :
    Mirrors g r m w (st.enter r s start ids tally)
        (st₀.enter (.ideal f d) s start₀ ids tally₀) ∧
      (st.batch r s start ids tally).blur =
        (st₀.batch (.ideal f d) s start₀ ids tally₀).blur := by
  obtain ⟨hd, hr, hsetbacks, hresults⟩ := Document.Tally.mk.inj ht
  have hbatch : (st.batch r s start ids tally).blur =
      (st₀.batch (.ideal f d) s start₀ ids tally₀).blur := by
    simp only [batch, Batch.blur, Document.Tally.succeeded, Document.Tally.failed, hresults,
      Option.map_some]
  refine ⟨?_, hbatch⟩
  have hlog := h.log (progress s ids.length 0 tally.results)
    (progress s ids.length 0 tally₀.results) (by rw [hresults])
  have hrecords : (tally.records ++ [AuditRecord.ofBatch (st.batch r s start ids tally)]).map
      (AuditRecord.gist g) =
      (tally₀.records ++ [AuditRecord.ofBatch (st₀.batch (.ideal f d) s start₀ ids tally₀)]).map
        (AuditRecord.gist g) := by
    rw [List.map_append, List.map_append, hr, List.map_singleton, List.map_singleton,
      gist_ofBatch hbatch]
  refine { hlog.update (Document.gist_addBatch hd hbatch) hrecords with failures := ?_ }
  show (st.failures ++ _).map _ = (st₀.failures ++ _).map _
  rw [List.map_append, List.map_append, h.failures, hsetbacks]

/-- The calls of a batch are those of the ideal one, so its outcomes are, and both enter them. -/
theorem Mirrors.fold (h : Mirrors g r m w st st₀) (hx : r.executor.AnswersAs g f)
    (hw : st.document.Awaits s ids) {d₁ d₂ : Document} {records records₀ : List AuditRecord}
    {calls calls₀ : List Call} {st₁ st₂ : RunState σ} {st₀₁ st₀₂ : RunState (List AuditRecord)}
    {ending ending₀ : String → Ending} {tally tally₀ : Document.Tally}
    (hm : st.document.markEach (r.clock st.world) r.runId s ids = .ok (d₁, records, calls))
    (hs : (st.mark s ids d₁ records).save r = (.ok (), st₁))
    (he : st₁.execute r calls = (ending, st₂))
    (hf : st₂.document.foldEach (r.clock st₂.world) s ending ids = .ok tally)
    (hm₀ : st₀.document.markEach ((RunSetup.ideal f d).clock st₀.world)
      (RunSetup.ideal f d).runId s ids = .ok (d₂, records₀, calls₀))
    (hs₀ : (st₀.mark s ids d₂ records₀).save (.ideal f d) = (.ok (), st₀₁))
    (he₀ : st₀₁.execute (.ideal f d) calls₀ = (ending₀, st₀₂))
    (hf₀ : st₀₂.document.foldEach ((RunSetup.ideal f d).clock st₀₂.world) s ending₀ ids =
      .ok tally₀) :
    Mirrors g r m w st₂ st₀₂ ∧ tally.gist g = tally₀.gist g := by
  obtain ⟨hmark, rfl⟩ := h.mark hm hm₀
  obtain ⟨-, hids, -⟩ := Document.markEach_eq_ok hw.nodup hw.contains hm
  have hn : (calls.map (·.entity)).Nodup := hids ▸ hw.nodup
  have hsaved := (hmark.save hs hs₀).1 rfl
  obtain ⟨hexecuted, hending⟩ := hsaved.execute hx hn he he₀
  refine ⟨hexecuted, ?_⟩
  have hendings : ∀ id ∈ ids, (ending id).outcome.mask g = (ending₀ id).outcome.mask g := by
    intro id hid
    obtain ⟨c, hc, rfl⟩ := List.mem_map.mp (hids.symm ▸ hid)
    exact hending c hc
  have hgist := Document.gist_foldEach hexecuted.document ((RunSetup.ideal f d).clock st₀₂.world)
    (r.clock st₂.world) s hendings
  rw [hf, hf₀] at hgist
  exact Except.ok.inj hgist

/-- After the batch of one step both are in the same place again, or the run has halted. -/
theorem Mirrors.batchRun (h : Mirrors g r m w st st₀) (hx : r.executor.AnswersAs g f)
    (hp : ∀ permits, res ≠ .error (.tooManyPermits permits)) (hw : st.document.Awaits s ids)
    (hb : BatchRun r s ids st res st') (hb₀ : BatchRun (.ideal f d) s ids st₀ (.ok ()) st₀') :
    (res = .ok () → Mirrors g r m w st' st₀') ∧ (res ≠ .ok () → Trails g r m w st' st₀') := by
  cases hb₀ with
  | @folded _ _ _ st₀₁ _ st₀₂ tally₀ st₀₃ hm₀ hs₀ he₀ hf₀ hs₂₀ =>
    cases hb with
    | unmarked hm hs =>
      refine ⟨nofun, fun hne => ?_⟩
      have htrails := ((h.mark hm hm₀).1.save hs hs₀).2 hne
      have hideal₁ := (save_ideal hs₀ ((begins_mark ..).sinks.trans h.ideal)).2
      have henter := (begins_execute he₀).trans (begins_enter (f := f) (d := d) s
        ((RunSetup.ideal f d).clock st₀.world) ids tally₀ st₀₂)
      have hsinks := (((begins_mark ..).trans hideal₁).trans henter).sinks.trans h.ideal
      have hmore := htrails.mono (henter.trans (save_ideal hs₂₀ hsinks).2)
      exact ⟨hmore.trace, hmore.world⟩
    | overfull => exact absurd rfl (hp _)
    | unfolded hm hs he hf hs₂ =>
      obtain ⟨hmirrors, htally⟩ := h.fold hx hw hm hs he hf hm₀ hs₀ he₀ hf₀
      refine ⟨nofun, fun hne => ?_⟩
      have htrails := ((hmirrors.enter htally).1.save hs₂ hs₂₀).2 hne
      exact ⟨htrails.trace, htrails.world⟩
    | folded hm hs he hf hs₂ =>
      obtain ⟨hmirrors, htally⟩ := h.fold hx hw hm hs he hf hm₀ hs₀ he₀ hf₀
      obtain ⟨hentered, hbatch⟩ := hmirrors.enter htally
      have hsaved := (hentered.save hs₂ hs₂₀).1 rfl
      refine ⟨fun _ => { hsaved with batches := ?_ }, fun hne => absurd rfl hne⟩
      rw [List.map_append, List.map_append, hsaved.batches, List.map_singleton,
        List.map_singleton, hbatch]

theorem Mirrors.runStep (h : Mirrors g r m w st st₀) (hx : r.executor.AnswersAs g f)
    (hp : r.permits ≤ Pool.greatestPermits) (hf : st.document.IsFiled)
    (hf₀ : st₀.document.IsFiled) (hs : st.runStep r s = (res, st'))
    (hs₀ : st₀.runStep (.ideal f d) s = (.ok (), st₀')) :
    (res = .ok () → Mirrors g r m w st' st₀') ∧ (res ≠ .ok () → Trails g r m w st' st₀') := by
  obtain ⟨hchoose, heligible⟩ := h.choose (f := f) (d := d) s
  have hover : ∀ permits, res ≠ .error (.tooManyPermits permits) := by
    rintro permits rfl
    exact not_overfull hp hf hs
  rcases runStep_cases_eligible hf hs with ⟨hnone, rfl, rfl⟩ | ⟨hsome, hw, hb⟩
  · rcases runStep_cases_eligible hf₀ hs₀ with ⟨-, -, rfl⟩ | ⟨hsome, -, -⟩
    · exact ⟨fun _ => hchoose, fun hne => absurd rfl hne⟩
    · exact absurd (heligible.symm.trans hnone) hsome
  · rcases runStep_cases_eligible hf₀ hs₀ with ⟨hnone, -, -⟩ | ⟨-, -, hb₀⟩
    · exact absurd (heligible.trans hnone) hsome
    · rw [← heligible] at hb₀
      exact hchoose.batchRun hx hover hw hb hb₀

theorem Mirrors.runSteps {steps : List Step} (h : Mirrors g r m w st st₀)
    (hx : r.executor.AnswersAs g f) (hp : r.permits ≤ Pool.greatestPermits)
    (hf : st.document.IsFiled) (hf₀ : st₀.document.IsFiled)
    (hs : st.runSteps r steps = (res, st'))
    (hs₀ : st₀.runSteps (.ideal f d) steps = (.ok (), st₀')) :
    (res = .ok () → Mirrors g r m w st' st₀') ∧ (res ≠ .ok () → Trails g r m w st' st₀') := by
  induction steps generalizing st st₀ with
  | nil =>
    obtain ⟨rfl, rfl⟩ := Prod.mk.inj hs
    obtain ⟨-, rfl⟩ := Prod.mk.inj hs₀
    exact ⟨fun _ => h, fun hne => absurd rfl hne⟩
  | cons s rest ih =>
    rcases hstep : st.runStep r s with ⟨res₁, st₁⟩
    rcases hstep₀ : st₀.runStep (.ideal f d) s with ⟨res₀, st₀₁⟩
    obtain ⟨rfl, hbegins⟩ := runStep_ideal hf₀ h.ideal hstep₀
    have hf₁ := isFiled_of_runStep hf₀ hstep₀
    obtain ⟨hmirrors, htrails⟩ := h.runStep hx hp hf hf₀ hstep hstep₀
    rw [RunState.runSteps, hstep] at hs
    rw [RunState.runSteps, hstep₀] at hs₀
    cases res₁ with
    | ok => exact ih (hmirrors rfl) (isFiled_of_runStep hf hstep) hf₁ hs hs₀
    | error halt =>
      obtain ⟨rfl, rfl⟩ := Prod.mk.inj hs
      have hne : (.error halt : Except Halt Unit) ≠ .ok () := fun he => by cases he
      have hrest := (runSteps_ideal hf₁ (hbegins.sinks.trans h.ideal) hs₀).2
      exact ⟨fun he => absurd he hne, fun _ => (htrails hne).mono hrest⟩

theorem Mirrors.close (h : Mirrors g r m w st st₀) (hs : st.close r = (res, st'))
    (hs₀ : st₀.close (.ideal f d) = (.ok (), st₀')) :
    (res = .ok () → Mirrors g r m w st' st₀') ∧ (res ≠ .ok () → Trails g r m w st' st₀') := by
  have hcleared : Mirrors g r m w { st with document := st.document.setCurrentStep none }
      { st₀ with document := st₀.document.setCurrentStep none } :=
    { h with document := Document.gist_setCurrentStep h.document none }
  unfold RunState.close at hs hs₀
  by_cases hchanged : st₀.changed
  · rw [if_pos (h.changed.trans hchanged)] at hs
    rw [if_pos hchanged] at hs₀
    exact hcleared.save hs hs₀
  · rw [if_neg (h.changed ▸ hchanged)] at hs
    rw [if_neg hchanged] at hs₀
    obtain ⟨rfl, rfl⟩ := Prod.mk.inj hs
    obtain ⟨-, rfl⟩ := Prod.mk.inj hs₀
    exact ⟨fun _ => h, fun hne => absurd rfl hne⟩

end

theorem mirrors_opening (g : String → String) (f : Call → Outcome) (r : RunSetup σ) (d : Document)
    (m : Emitter σ) (w : σ) :
    Mirrors g r m w (opening r d m w) (opening (.ideal f d) d .ideal []) := by
  obtain ⟨hd, hr⟩ := Document.gist_blockStuck (g := g) (d := d) rfl (.ofSeconds 0) (r.clock w)
  refine ⟨hd, rfl, rfl, ?_, rfl, Emitter.sinks_enqueue .., Emitter.sinks_enqueue .., fun δ hδ => ?_,
    fun δ _ => ⟨[], (List.append_nil _).symm, rfl⟩⟩
  · have hnone := congrArg List.isEmpty hr
    rw [List.isEmpty_map, List.isEmpty_map] at hnone
    exact congrArg (! ·) hnone
  · show (m.enqueue _).queue.map _ = (Emitter.ideal.enqueue _).queue.map _
    rw [hδ.records.queue_enqueue w, Emitter.records_ideal.queue_enqueue [], hδ.queue]
    exact hr

end RunState

namespace RunSetup

variable {σ : Type} {r : RunSetup σ} {m : Emitter σ} {w : σ} {d : Document} {f : Call → Outcome}

/-- The ideal run reports. -/
theorem exists_ideal (f : Call → Outcome) (hf : d.IsFiled) :
    ∃ summary, ((ideal f d).run .ideal []).result = .ok summary := by
  have hopen := RunState.isFiled_opening hf (ideal f d) .ideal []
  have hsinks : (RunState.opening (ideal f d) d .ideal []).emitter.sinks = Emitter.ideal.sinks :=
    Emitter.sinks_enqueue ..
  rcases run_cases_of_load (r := ideal f d) .ideal (w := []) rfl with
    ⟨halt, st, hs, -⟩ | ⟨st, hs, hclose⟩
  · cases (RunState.runSteps_ideal hopen hsinks hs).1
  · have hbegins := (RunState.runSteps_ideal hopen hsinks hs).2
    rcases hclose with ⟨halt, st', hc, -⟩ | ⟨st', summary, -, hrun⟩
    · cases (RunState.close_ideal (hbegins.sinks.trans hsinks) hc).1
    · exact ⟨summary, congrArg RunResult.result hrun⟩

/-- Whether a run tells how another begins, and if it reports, all of it. -/
structure Retells (g : String → String) (r : RunSetup σ) (m : Emitter σ) (w : σ)
    (x₀ : RunResult (List AuditRecord)) : Prop where
  trace : RunEvent.gists g (r.run m w).trace <+: RunEvent.gists g x₀.trace
  trace_of_ok : ∀ summary, (r.run m w).result = .ok summary →
    RunEvent.gists g (r.run m w).trace = RunEvent.gists g x₀.trace
  world : ∀ δ, r.Logs m δ → ∃ new, δ (r.run m w).world = δ w ++ new ∧
    new.map (AuditRecord.gist g) <+: x₀.world.map (AuditRecord.gist g) ∧
    ∀ summary, (r.run m w).result = .ok summary →
      new.map (AuditRecord.gist g) = x₀.world.map (AuditRecord.gist g)

theorem retells_of_trails {halt : Halt} {st : RunState σ} {st₀ : RunState (List AuditRecord)}
    {x₀ : RunResult (List AuditRecord)} (h : RunState.Trails g r m w st st₀)
    (hrun : r.run m w = st.finish (.error halt))
    (ht : st₀.trace <+: x₀.trace) (hw : st₀.world <+: x₀.world) : r.Retells g m w x₀ := by
  refine ⟨?_, ?_, fun δ hδ => ?_⟩
  · rw [hrun]
    exact h.trace.trans (ht.filterMap _)
  · rw [hrun]
    exact nofun
  · obtain ⟨new, hnew, hprefix⟩ := h.world δ hδ
    rw [hrun]
    exact ⟨new, hnew, hprefix.trans (hw.map _), nofun⟩

theorem retells_ideal (hl : r.store.load (r.clock w) w = .ok d) (hf : d.IsFiled)
    (hp : r.permits ≤ Pool.greatestPermits) (hx : r.executor.AnswersAs g f) :
    r.Retells g m w ((ideal f d).run .ideal []) := by
  obtain ⟨summary₀, hok₀⟩ := exists_ideal f hf
  obtain ⟨st₀, st₀', hs₀, hc₀, hrun₀, rfl⟩ := run_of_ok (r := ideal f d) rfl hok₀
  have hopen := RunState.isFiled_opening hf r m w
  have hopen₀ := RunState.isFiled_opening hf (ideal f d) .ideal []
  have hopening := RunState.mirrors_opening g f r d m w
  have hsinks := (RunState.runSteps_ideal hopen₀ hopening.ideal hs₀).2.sinks.trans hopening.ideal
  have hclosing := (RunState.close_ideal hsinks hc₀).2
  have htrace : st₀'.trace <+: ((ideal f d).run .ideal []).trace := by
    rw [hrun₀]
    exact List.prefix_append ..
  have hworld : ((ideal f d).run .ideal []).world = st₀'.world := by rw [hrun₀]; rfl
  cases hres : (r.run m w).result with
  | ok summary =>
    obtain ⟨st, st', hs, hc, hrun, rfl⟩ := run_of_ok hl hres
    have hmirrors := (hopening.runSteps hx hp hopen hopen₀ hs hs₀).1 rfl
    have hclosed := (hmirrors.close hc hc₀).1 rfl
    have htold : RunEvent.gists g (r.run m w).trace =
        RunEvent.gists g ((ideal f d).run .ideal []).trace := by
      rw [hrun, hrun₀]
      show RunEvent.gists g (st'.trace ++ [.done _]) = RunEvent.gists g (st₀'.trace ++ [.done _])
      rw [RunEvent.gists_append, RunEvent.gists_append, hclosed.trace]
      simp only [RunEvent.gists, List.filterMap_cons, RunEvent.gist?, RunSummary.gist,
        hclosed.batches, hclosed.failures]
    refine ⟨htold ▸ List.prefix_rfl, fun _ _ => htold, fun δ hδ => ?_⟩
    obtain ⟨new, hnew, hmap⟩ := hclosed.world δ hδ
    rw [hworld]
    refine ⟨new, ?_, hmap ▸ List.prefix_rfl, fun _ _ => hmap⟩
    rw [hrun]
    exact hnew
  | error halt =>
    rcases run_cases_of_load m hl with ⟨halt, st, hs, hrun⟩ |
      ⟨st, hs, ⟨halt, st', hc, hrun⟩ | ⟨st', summary, -, hrun⟩⟩
    · have htrails := (hopening.runSteps hx hp hopen hopen₀ hs hs₀).2 nofun
      exact retells_of_trails htrails hrun (hclosing.trace.trans htrace) (hworld ▸ hclosing.world)
    · have hmirrors := (hopening.runSteps hx hp hopen hopen₀ hs hs₀).1 rfl
      exact retells_of_trails ((hmirrors.close hc hc₀).2 nofun) hrun htrace
        (hworld ▸ List.prefix_rfl)
    · rw [hrun] at hres
      cases hres

theorem getLast?_gists_of_ok (hl : r.store.load (r.clock w) w = .ok d) {summary : RunSummary}
    (hok : (r.run m w).result = .ok summary) :
    (RunEvent.gists g (r.run m w).trace).getLast? = some (.done (summary.gist g)) := by
  obtain ⟨st, st', -, -, hrun, -⟩ := run_of_ok hl hok
  rw [hrun]
  show (RunEvent.gists g (st'.trace ++ [.done summary])).getLast? = _
  rw [RunEvent.gists_append]
  exact List.getLast?_append ..

theorem gist_left (r : RunSetup σ) (m : Emitter σ) (w : σ) (d : Document) :
    (r.left m w d).gist g =
      (RunEvent.lastSaved (RunEvent.gists g (r.run m w).trace)).getD (d.gist g) := by
  rw [left, RunEvent.lastSaved_gists]
  cases RunEvent.lastSaved (r.run m w).trace <;> rfl

/-- Whether two runs over `d` come to the same, as far as both get: in the events outside the
pool, with each document as it is saved, and in the records that are delivered. -/
structure Agrees {τ : Type} (g : String → String) (d : Document) (r : RunSetup σ) (m : Emitter σ)
    (w : σ) (r' : RunSetup τ) (m' : Emitter τ) (w' : τ) : Prop where
  trace : RunEvent.gists g (r.run m w).trace <+: RunEvent.gists g (r'.run m' w').trace ∨
    RunEvent.gists g (r'.run m' w').trace <+: RunEvent.gists g (r.run m w).trace
  reports : ∀ summary summary', (r.run m w).result = .ok summary →
    (r'.run m' w').result = .ok summary' →
    RunEvent.gists g (r.run m w).trace = RunEvent.gists g (r'.run m' w').trace ∧
      summary.gist g = summary'.gist g ∧ (r.left m w d).gist g = (r'.left m' w' d).gist g
  records : ∀ δ δ', r.Logs m δ → r'.Logs m' δ' → ∃ new new', δ (r.run m w).world = δ w ++ new ∧
    δ' (r'.run m' w').world = δ' w' ++ new' ∧
    (new.map (AuditRecord.gist g) <+: new'.map (AuditRecord.gist g) ∨
      new'.map (AuditRecord.gist g) <+: new.map (AuditRecord.gist g)) ∧
    ∀ summary summary', (r.run m w).result = .ok summary →
      (r'.run m' w').result = .ok summary' →
      new.map (AuditRecord.gist g) = new'.map (AuditRecord.gist g)

theorem agrees_of_retells {τ : Type} {r' : RunSetup τ} {m' : Emitter τ} {w' : τ}
    (hl : r.store.load (r.clock w) w = .ok d) (hl' : r'.store.load (r'.clock w') w' = .ok d)
    {x₀ : RunResult (List AuditRecord)} (h : r.Retells g m w x₀) (h' : r'.Retells g m' w' x₀) :
    Agrees g d r m w r' m' w' := by
  refine ⟨List.prefix_or_prefix_of_prefix h.trace h'.trace, fun summary summary' hok hok' => ?_,
    fun δ δ' hδ hδ' => ?_⟩
  · have htrace := (h.trace_of_ok _ hok).trans (h'.trace_of_ok _ hok').symm
    refine ⟨htrace, ?_, by rw [gist_left, gist_left, htrace]⟩
    have hlast := congrArg List.getLast? htrace
    rw [getLast?_gists_of_ok hl hok, getLast?_gists_of_ok hl' hok'] at hlast
    exact RunEvent.done.inj (Option.some.inj hlast)
  · obtain ⟨new, hnew, hprefix, hall⟩ := h.world δ hδ
    obtain ⟨new', hnew', hprefix', hall'⟩ := h'.world δ' hδ'
    exact ⟨new, new', hnew, hnew', List.prefix_or_prefix_of_prefix hprefix hprefix',
      fun summary summary' hok hok' => (hall _ hok).trans (hall' _ hok').symm⟩

/-- Whatever the schedule: no more calls are at work at once than there are permits; each call
that a step asks for begins once and ends once, unless the marks of the step could not be saved,
and there are no other calls; none begins before those of the earlier steps have ended and their
outcomes are saved; only a refused save keeps the run from its report; and another run over the
same document, with whatever schedule and workers, comes to the same if the answers for each
call are the same. -/
theorem run_of_schedule (hl : r.store.load (r.clock w) w = .ok d) (hf : d.IsFiled)
    (hp : r.permits ≤ Pool.greatestPermits) :
    RunEvent.Within r.permits (r.run m w).trace ∧
    (∀ s st, r.Reaches m w d s st →
      (∀ c, c.step = s → st.document.Asks c → (RunEvent.calls (r.run m w).trace).count c = 1 ∧
        (RunEvent.endings (r.run m w).trace).count c = 1) ∨
      (∀ c ∈ RunEvent.calls (r.run m w).trace, c.step ≠ s) ∧
        ∃ e, (r.run m w).result = .error (.error e)) ∧
    (∀ c ∈ RunEvent.calls (r.run m w).trace,
      ∃ st, r.Reaches m w d c.step st ∧ st.document.Asks c) ∧
    RunEvent.AtEach r.Barred (r.run m w).trace ∧
    (∀ halt, (r.run m w).result = .error halt → ∃ now d' w₁ e w₂,
      r.store.save now d' w₁ = (.error e, w₂) ∧ halt = .error e) ∧
    ∀ {τ : Type} {r' : RunSetup τ} {m' : Emitter τ} {w' : τ} {g : String → String}
      {f : Call → Outcome}, r'.store.load (r'.clock w') w' = .ok d →
      r'.permits ≤ Pool.greatestPermits → r.executor.AnswersAs g f →
      r'.executor.AnswersAs g f → Agrees g d r m w r' m' w' := by
  obtain ⟨hwithin, -, hbarred⟩ := isPaced_run (m := m) hl hf hp
  refine ⟨hwithin, fun s st hr => calls_of_reaches hl hf hp hr,
    fun c hc => reaches_of_mem_calls hl hf hp hc, hbarred, fun halt hres => ?_, ?_⟩
  · obtain ⟨l, k, -, -, hstops⟩ := moment_of_error hl hf hres
    cases hstops with
    | refused save => exact ⟨_, _, _, _, _, save, rfl⟩
    | overfull hover => exact absurd hp (Nat.not_le.mpr hover)
  · intro τ r' m' w' g f hl' hp' hx hx'
    exact agrees_of_retells hl hl' (retells_ideal hl hf hp hx) (retells_ideal hl' hf hp' hx')

/-- The call for one entity breaks off in the task `n`, and every other succeeds after `n`
milliseconds. -/
def numbered (n : Nat) : RunSetup Document where
  store := plain.store
  executor := fun c w =>
    (if c.entity = "broken" then .aborted ("task " ++ toString n ++ " panicked")
      else .returned (.succeeded none) n, w)
  clock _ := .ofSeconds n
  runId := ⟨BitVec.ofNat 128 n⟩
  concurrency := n
  schedule := fun turn => turn * n

/-- Shows a text without its digits. -/
def withoutDigits (text : String) : String := .ofList (text.toList.filter fun c => !c.isDigit)

/-- What `numbered` answers, whatever the task. -/
def unnumbered (c : Call) : Outcome :=
  if c.entity = "broken" then .failed "executor task aborted: task  panicked" else .succeeded none

theorem withoutDigits_append (s t : String) :
    withoutDigits (s ++ t) = withoutDigits s ++ withoutDigits t := by
  rw [withoutDigits, String.toList_append, List.filter_append, String.ofList_append]
  rfl

theorem answersAs_numbered {n : Nat} (hn : withoutDigits (toString n) = "") :
    (numbered n).executor.AnswersAs withoutDigits unnumbered := by
  intro c w
  show (Ending.outcome (if c.entity = "broken" then _ else _)).mask withoutDigits = _
  unfold unnumbered
  split
  · refine congrArg Outcome.failed ?_
    rw [withoutDigits_append, withoutDigits_append, withoutDigits_append, hn]
    decide +kernel
  · rfl

theorem run_of_schedule_crowd :
    crowd.check = .ok () ∧ ((numbered 1).run (.ofSinks []) crowd).result.isOk ∧
      ((numbered 23).run (.ofSinks []) crowd).result.isOk ∧
      (numbered 1).left (.ofSinks []) crowd crowd ≠ (numbered 23).left (.ofSinks []) crowd crowd ∧
      ((numbered 1).left (.ofSinks []) crowd crowd).gist withoutDigits =
        ((numbered 23).left (.ofSinks []) crowd crowd).gist withoutDigits := by
  have hok : ((numbered 1).run (.ofSinks []) crowd).result.isOk := by decide +kernel
  have hok' : ((numbered 23).run (.ofSinks []) crowd).result.isOk := by decide +kernel
  obtain ⟨summary, hs⟩ := result_of_isOk hok
  obtain ⟨summary', hs'⟩ := result_of_isOk hok'
  have hcheck : crowd.check = .ok () := by decide +kernel
  have hfiled := Document.isFiled_of_check hcheck
  have hagrees : Agrees withoutDigits crowd (numbered 1) (.ofSinks []) crowd (numbered 23)
      (.ofSinks []) crowd :=
    (run_of_schedule rfl hfiled (by decide)).2.2.2.2.2 rfl (by decide)
      (answersAs_numbered (by decide +kernel)) (answersAs_numbered (by decide +kernel))
  exact ⟨hcheck, hok, hok', by decide +kernel, (hagrees.reports _ _ hs hs').2.2⟩

/-- With more workers than a pool can have, a call that a step asks for is not made, although no
save is refused. -/
theorem exists_schedule_disagrees :
    ∃ r r' : RunSetup Document, r'.store = r.store ∧ r'.executor = r.executor ∧
      (∀ now d w, (r'.store.save now d w).1 = .ok ()) ∧
      r'.store.load (r'.clock .oneDraft) .oneDraft = .ok .oneDraft ∧
      Document.oneDraft.check = .ok () ∧ Document.oneDraft.Asks ⟨"post", .null, .ingested⟩ ∧
      RunEvent.calls (r'.run (.ofSinks []) .oneDraft).trace = [] ∧
      (r.left (.ofSinks []) .oneDraft .oneDraft).gist id ≠
        (r'.left (.ofSinks []) .oneDraft .oneDraft).gist id := by
  refine ⟨plain, { plain with concurrency := Pool.greatestPermits + 1 }, rfl, rfl,
    fun _ _ _ => rfl, rfl, by decide +kernel, ?_, by decide +kernel, by decide +kernel⟩
  exact ⟨_, rfl, rfl, by decide +kernel, by decide +kernel⟩

end RunSetup
end Publishing
