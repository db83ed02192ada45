import Publishing.Proofs.Draining

/-
What a run makes of one entity.

A step of a run does to each entity what it would do to it alone: it executes the entity
if it waits at the step with attempts left, blocks it if it waits without, and otherwise
leaves it.  From the other entities of the batch it has nothing but the moments at which
the batch was marked and entered.
-/

namespace Publishing

/-- When a batch was marked and entered, and how long the call of the entity took. -/
structure Turn where
  start : Timestamp
  finish : Timestamp
  ms : Nat

namespace Entity

/-- Execute `s` with this outcome. -/
def attempt (o : Outcome) (runId : RunId) (t : Turn) (s : Step) (e : Entity) : Entity :=
  ((e.mark t.start runId s).1.fold t.finish s o t.ms).1

/-- What the step `s` of a run makes of an entity whose call would have the outcome `o`. -/
def pass (o : Outcome) (runId : RunId) (t : Turn) (s : Step) (e : Entity) : Entity :=
  if e.isPendingAt s then
    if (e.step s).hasAttemptsLeft then e.attempt o runId t s else (e.exhaust t.start s).1
  else e

def passes (o : Step → Outcome) (runId : RunId) (t : Step → Turn) : List Step → Entity → Entity
  | [], e => e
  | s :: rest, e => passes o runId t rest (e.pass (o s) runId (t s) s)

theorem id_fold (now : Timestamp) (s : Step) (o : Outcome) (ms : Nat) (e : Entity) :
    (e.fold now s o ms).1.id = e.id := by
  cases o <;> rfl

theorem metadata_fold (now : Timestamp) (s : Step) (o : Outcome) (ms : Nat) (e : Entity) :
    (e.fold now s o ms).1.metadata = e.metadata := by
  cases o <;> rfl

theorem id_attempt (o : Outcome) (runId : RunId) (t : Turn) (s : Step) (e : Entity) :
    (e.attempt o runId t s).id = e.id := id_fold ..

theorem metadata_attempt (o : Outcome) (runId : RunId) (t : Turn) (s : Step) (e : Entity) :
    (e.attempt o runId t s).metadata = e.metadata := metadata_fold ..

theorem metadata_pass (o : Outcome) (runId : RunId) (t : Turn) (s : Step) (e : Entity) :
    (e.pass o runId t s).metadata = e.metadata := by
  unfold pass
  split
  · split
    · exact metadata_attempt ..
    · rfl
  · rfl

theorem pass_of_not_pending {o : Outcome} {runId : RunId} {t : Turn} {s : Step} {e : Entity}
    (h : ¬ e.isPendingAt s) : e.pass o runId t s = e := if_neg h

theorem pass_of_left {o : Outcome} {runId : RunId} {t : Turn} {s : Step} {e : Entity}
    (h : e.isPendingAt s) (hl : (e.step s).hasAttemptsLeft) :
    e.pass o runId t s = e.attempt o runId t s := by
  rw [pass, if_pos h, if_pos hl]

theorem pass_of_exhausted {o : Outcome} {runId : RunId} {t : Turn} {s : Step} {e : Entity}
    (h : e.isPendingAt s) (hl : (e.step s).hasAttemptsLeft = false) :
    e.pass o runId t s = (e.exhaust t.start s).1 := by
  rw [pass, if_pos h, if_neg (by simp [hl])]

theorem passes_congr {o o' : Step → Outcome} {t t' : Step → Turn} {steps : List Step}
    (h : ∀ s ∈ steps, o s = o' s ∧ t s = t' s) (runId : RunId) (e : Entity) :
    e.passes o runId t steps = e.passes o' runId t' steps := by
  induction steps generalizing e with
  | nil => rfl
  | cons s rest ih =>
    obtain ⟨ho, ht⟩ := h s List.mem_cons_self
    rw [passes, passes, ho, ht]
    exact ih (fun s' hs' => h s' (List.mem_cons_of_mem _ hs')) _

/-- After a failure or a block an entity waits nowhere. -/
theorem not_pending_of_not_schedulable {e : Entity} (h : e.status.isSchedulable = false)
    (s : Step) : ¬ e.isPendingAt s := by
  intro hp
  rw [(isPendingAt_iff.mp hp).2.2] at h
  cases h

end Entity

/-- A batch asks for the calls of its entities with their metadata. -/
theorem Document.mem_calls_markEach {now : Timestamp} {runId : RunId} {s : Step}
    {ids : List String} (hn : ids.Nodup) {d d' : Document} {records : List AuditRecord}
    {calls : List Call} (h : d.markEach now runId s ids = .ok (d', records, calls)) {id : String}
    {e : Entity} (hid : id ∈ ids) (he : d.find? id = some e) :
    (⟨id, e.metadata, s⟩ : Call) ∈ calls := by
  induction ids generalizing d d' records calls with
  | nil => cases hid
  | cons a rest ih =>
    obtain ⟨ha, hrest⟩ := List.nodup_cons.mp hn
    obtain ⟨ea, hea, h⟩ := bind_eq_ok.mp h
    obtain ⟨⟨d₁, records₁, calls₁⟩, hm, h⟩ := bind_eq_ok.mp h
    obtain ⟨-, -, rfl⟩ := by simpa using Except.ok.inj h
    rcases List.mem_cons.mp hid with rfl | hid
    · obtain rfl := Option.some.inj (he.symm.trans (get_eq_ok.mp hea))
      exact List.mem_cons_self
    · refine List.mem_cons_of_mem _ (ih hrest hm hid ?_)
      rw [find?_replace_of_not_mem ha hid]
      exact he

namespace RunState

variable {σ : Type} {P : Call → Ending → Prop} {r : RunSetup σ} {s : Step}

/-- Every entity of a batch has an ending that the executor gave to its call. -/
theorem gives_execute (hx : r.executor.Gives P) {ids : List String} {st st' : RunState σ}
    {now : Timestamp} (hn : ids.Nodup) {d d' : Document} (hc : ∀ id ∈ ids, d.contains id)
    {records : List AuditRecord} {calls : List Call} {ending : String → Ending}
    (hm : d.markEach now r.runId s ids = .ok (d', records, calls))
    (he : st.execute r calls = (ending, st')) :
    ∀ id ∈ ids, ∀ e, d.find? id = some e → P ⟨id, e.metadata, s⟩ (ending id) := by
  intro id hid e hfind
  obtain ⟨rfl, -⟩ := Prod.mk.inj he
  have hcall := Document.mem_calls_markEach hn hm hid hfind
  have hids := (Document.markEach_eq_ok hn hc hm).2.1
  have hnodup : (calls.map (·.entity)).Nodup := hids ▸ hn
  exact Pool.endingOf_drain (Nat.le_max_left 1 _) hx r.schedule hnodup st.world hcall

/-- A batch that goes well leaves the document with its outcomes. -/
theorem document_of_batchRun (hx : r.executor.Gives P) {ids : List String}
    {st st' : RunState σ} (hw : st.document.Awaits s ids)
    (h : BatchRun r s ids st (.ok ()) st') :
    ∃ finish ending batch,
      (∀ id ∈ ids, ∀ e, st.document.find? id = some e → P ⟨id, e.metadata, s⟩ (ending id)) ∧
      st'.document = (st.marked r s ids).withOutcomes finish s ending ids batch := by
  cases h with
  | folded hm hs he hf hs₂ =>
    have hdoc := Round.document_save ⟨hw, hm, hs, he, hf⟩ hs₂
    exact ⟨_, _, _, gives_execute hx hw.nodup hw.contains hm he, hdoc⟩

theorem find?_batchRun_of_not_mem {ids : List String} {st st' : RunState σ}
    (hw : st.document.Awaits s ids) (h : BatchRun r s ids st (.ok ()) st') {id : String}
    (hid : id ∉ ids) : st'.document.find? id = st.document.find? id := by
  obtain ⟨finish, ending, batch, -, hdoc⟩ :=
    document_of_batchRun (P := fun _ _ => True) (fun _ _ => trivial) hw h
  rw [hdoc, Document.find?_withOutcomes, marked, Document.find?_withMarks]
  cases st.document.find? id with
  | none => rfl
  | some e =>
    rw [Option.map_some, Option.map_some, Document.folded, if_neg hid, Document.marked, if_neg hid]

theorem find?_choose (r : RunSetup σ) (s : Step) {st : RunState σ} (hf : st.document.IsFiled)
    (id : String) : (st.choose r s).document.find? id = (st.document.find? id).map
      (Document.selected (r.clock st.world) s (st.document.pendingAt s) id) :=
  Document.find?_select _ s hf id

/-- Selecting for a step leaves alone who has attempts left. -/
theorem find?_choose_of_left {st : RunState σ} (hf : st.document.IsFiled) {id : String}
    {e : Entity} (he : st.document.find? id = some e) (hl : (e.step s).hasAttemptsLeft) :
    (st.choose r s).document.find? id = some e := by
  rw [find?_choose r s hf, he, Option.map_some, Document.selected, if_neg (by simp [hl])]

/-- A step of a run that goes well, for an entity that is not executed. -/
theorem find?_runStep_of_not_eligible {st st' : RunState σ} (hf : st.document.IsFiled)
    (h : st.runStep r s = (.ok (), st')) {id : String}
    (hid : id ∉ (st.document.select (r.clock st.world) s).eligible) :
    st'.document.find? id = (st.choose r s).document.find? id := by
  rcases runStep_cases_eligible hf h with ⟨-, -, rfl⟩ | ⟨-, hw, hb⟩
  · rfl
  · exact find?_batchRun_of_not_mem hw hb hid

/-- And for one that is. -/
theorem find?_runStep_of_eligible (hx : r.executor.Gives P) {st st' : RunState σ}
    (hf : st.document.IsFiled) (h : st.runStep r s = (.ok (), st')) {id : String} {e : Entity}
    (he : st.document.find? id = some e) (hp : e.isPendingAt s)
    (hl : (e.step s).hasAttemptsLeft) :
    ∃ t x, t.ms = x.durationMs ∧ P ⟨id, e.metadata, s⟩ x ∧
      st'.document.find? id = some (e.attempt x.outcome r.runId t s) := by
  have hid : id ∈ (st.document.select (r.clock st.world) s).eligible :=
    (Document.mem_eligible_select _ s hf).mpr ⟨e, he, hp, hl⟩
  have he' := find?_choose_of_left (r := r) hf he hl
  rcases runStep_cases_eligible hf h with ⟨hnil, -⟩ | ⟨-, hw, hb⟩
  · rw [hnil] at hid
    cases hid
  · obtain ⟨finish, ending, batch, hgive, hdoc⟩ := document_of_batchRun hx hw hb
    refine ⟨⟨r.clock st.world, finish, (ending id).durationMs⟩, ending id, rfl,
      hgive id hid e he', ?_⟩
    rw [hdoc, Document.find?_withOutcomes, marked, Document.find?_withMarks, he', Option.map_some,
      Option.map_some, Document.marked, if_pos hid, Document.folded, if_pos hid]
    rfl

/-- The step `s` of a run that goes well, for one entity. -/
theorem find?_runStep (hx : r.executor.Gives P) {st st' : RunState σ}
    (hf : st.document.IsFiled) (h : st.runStep r s = (.ok (), st')) {id : String} {e : Entity}
    (he : st.document.find? id = some e) :
    ∃ t x, t.ms = x.durationMs ∧ P ⟨id, e.metadata, s⟩ x ∧
      st'.document.find? id = some (e.pass x.outcome r.runId t s) := by
  by_cases hrun : e.isPendingAt s ∧ (e.step s).hasAttemptsLeft
  · obtain ⟨hp, hl⟩ := hrun
    rw [Entity.isPendingAt_iff] at hp
    obtain ⟨t, x, hms, hP, hfind⟩ := find?_runStep_of_eligible hx hf h he
      (Entity.isPendingAt_iff.mpr hp) hl
    refine ⟨t, x, hms, hP, ?_⟩
    rw [hfind, Entity.pass_of_left (Entity.isPendingAt_iff.mpr hp) hl]
  · -- no call is made, and whatever the executor would answer is as good as any other
    have hid : id ∉ (st.document.select (r.clock st.world) s).eligible := by
      intro hid
      obtain ⟨e', he', hp, hl⟩ := (Document.mem_eligible_select _ s hf).mp hid
      obtain rfl := Option.some.inj (he.symm.trans he')
      exact hrun ⟨hp, hl⟩
    let x := (r.executor ⟨id, e.metadata, s⟩ st.world).1
    refine ⟨⟨r.clock st.world, r.clock st.world, x.durationMs⟩, x, rfl, hx _ _, ?_⟩
    rw [find?_runStep_of_not_eligible hf h hid, find?_choose r s hf, he, Option.map_some]
    congr 1
    by_cases hp : e.isPendingAt s
    · have hl : (e.step s).hasAttemptsLeft = false := by
        cases hl : (e.step s).hasAttemptsLeft with
        | false => rfl
        | true => exact absurd ⟨hp, hl⟩ hrun
      rw [Entity.pass_of_exhausted hp hl, Document.selected,
        if_pos ⟨(Document.mem_pendingAt hf).mpr ⟨e, he, hp⟩, hl⟩]
    · rw [Entity.pass_of_not_pending hp, Document.selected, if_neg]
      rintro ⟨hmem, -⟩
      obtain ⟨e', he', hp'⟩ := (Document.mem_pendingAt hf).mp hmem
      obtain rfl := Option.some.inj (he.symm.trans he')
      exact hp hp'

theorem find?_runStep_eq_none {st st' : RunState σ} (hf : st.document.IsFiled)
    (h : st.runStep r s = (.ok (), st')) {id : String} (he : st.document.find? id = none) :
    st'.document.find? id = none := by
  have hid : id ∉ (st.document.select (r.clock st.world) s).eligible := by
    intro hid
    obtain ⟨e, he', -⟩ := (Document.mem_eligible_select _ s hf).mp hid
    rw [he] at he'
    cases he'
  rw [find?_runStep_of_not_eligible hf h hid, find?_choose r s hf, he, Option.map_none]

/-- The steps of a run that goes well pass over each entity by itself. -/
theorem find?_runSteps (hx : r.executor.Gives P) {steps : List Step} (hn : steps.Nodup)
    {st st' : RunState σ} (hf : st.document.IsFiled) (h : st.runSteps r steps = (.ok (), st'))
    {id : String} {e : Entity} (he : st.document.find? id = some e) :
    ∃ (t : Step → Turn) (x : Step → Ending),
      (∀ s ∈ steps, (t s).ms = (x s).durationMs ∧ P ⟨id, e.metadata, s⟩ (x s)) ∧
      st'.document.find? id = some (e.passes (fun s => (x s).outcome) r.runId t steps) := by
  induction steps generalizing st e with
  | nil =>
    obtain ⟨-, rfl⟩ := Prod.mk.inj h
    exact ⟨fun _ => ⟨r.clock st.world, r.clock st.world, 0⟩, fun _ => .aborted "", nofun, he⟩
  | cons s rest ih =>
    obtain ⟨hs, hrest⟩ := List.nodup_cons.mp hn
    obtain ⟨st₁, hstep, h⟩ := runSteps_cons h
    obtain ⟨t₁, x₁, hms, hP, hfind⟩ := find?_runStep hx hf hstep he
    obtain ⟨t, x, hall, hlast⟩ := ih hrest (isFiled_of_runStep hf hstep) h hfind
    rw [Entity.metadata_pass] at hall
    refine ⟨Function.update t s t₁, Function.update x s x₁, fun s' hs' => ?_, ?_⟩
    · rcases List.mem_cons.mp hs' with rfl | hs'
      · simp only [Function.update_self]
        exact ⟨hms, hP⟩
      · have hne : s' ≠ s := fun heq => hs (heq ▸ hs')
        simp only [Function.update_of_ne hne]
        exact hall s' hs'
    · rw [hlast, Entity.passes, Function.update_self, Function.update_self]
      refine congrArg some (Entity.passes_congr (fun s' hs' => ?_) _ _)
      have hne : s' ≠ s := fun heq => hs (heq ▸ hs')
      simp only [Function.update_of_ne hne, and_self]

theorem find?_runSteps_eq_none {steps : List Step} {st st' : RunState σ}
    (hf : st.document.IsFiled) (h : st.runSteps r steps = (.ok (), st')) {id : String}
    (he : st.document.find? id = none) : st'.document.find? id = none := by
  induction steps generalizing st with
  | nil =>
    obtain ⟨-, rfl⟩ := Prod.mk.inj h
    exact he
  | cons s rest ih =>
    obtain ⟨st₁, hstep, h⟩ := runSteps_cons h
    exact ih (isFiled_of_runStep hf hstep) h (find?_runStep_eq_none hf hstep he)

/-! ## A run that changes nothing -/

theorem changed_save {st st' : RunState σ} {res : Except Halt Unit} (h : st.save r = (res, st')) :
    st'.changed = st.changed := by
  rcases save_fst_cases r st with ⟨w, -, hs⟩ | ⟨e, w, -, hs⟩ <;>
  · rw [hs] at h
    obtain ⟨-, rfl⟩ := Prod.mk.inj h
    rfl

theorem BatchRun.changed {ids : List String} {st st' : RunState σ} {res : Except Halt Unit}
    (h : BatchRun r s ids st res st') : st'.changed = st.changed := by
  -- marking and entering touch the document and the queue only
  have hmark : ∀ d records, (st.mark s ids d records).changed = st.changed := fun _ _ => rfl
  have henter : ∀ {calls ending} {st₁ st₂ : RunState σ}, st₁.execute r calls = (ending, st₂) →
      ∀ start tally, (st₂.enter r s start ids tally).changed = st₁.changed := by
    intro calls ending st₁ st₂ h start tally
    obtain ⟨-, rfl⟩ := Prod.mk.inj h
    rfl
  cases h with
  | unmarked hm hs => rw [changed_save hs, hmark]
  | overfull hm hs => rw [changed_save hs, hmark]
  | unfolded hm hs hx hf hs₂ => rw [changed_save hs₂, henter hx, changed_save hs, hmark]
  | folded hm hs hx hf hs₂ => rw [changed_save hs₂, henter hx, changed_save hs, hmark]

end RunState

theorem Entity.blockStuck_of_records {now : Timestamp} {e : Entity}
    (h : (e.blockStuck now).2 = []) : (e.blockStuck now).1 = e := by
  rcases blockStuck_cases now e with hsame | ⟨s, data, -, -, hblock⟩
  · rw [hsame]
  · rw [hblock] at h
    cases h

theorem Document.blockStuck_of_records {now : Timestamp} {d : Document}
    (h : (d.blockStuck now).2 = []) : (d.blockStuck now).1 = d := by
  refine (mapEntities_congr fun id e he => ?_).trans (mapEntities_id d)
  exact Entity.blockStuck_of_records (List.flatMap_eq_nil_iff.mp h e (mem_all.mpr ⟨id, he⟩))

namespace RunState

variable {σ : Type} {r : RunSetup σ} {s : Step}

/-- A step after which nothing is marked as changed has changed nothing. -/
theorem runStep_of_unchanged {st st' : RunState σ} (hf : st.document.IsFiled)
    (h : st.runStep r s = (.ok (), st')) (hc : st'.changed = false) :
    st.changed = false ∧ st'.document = st.document ∧ st'.trace = st.trace := by
  have hchoose : ∀ {b : RunState σ}, b.changed = (st.choose r s).changed → b.changed = false →
      st.changed = false ∧ (st.document.select (r.clock st.world) s).setbacks = [] ∧
        (st.document.select (r.clock st.world) s).eligible = [] := by
    intro b hb hbf
    have hc : (st.changed || !(st.document.select (r.clock st.world) s).setbacks.isEmpty ||
        !(st.document.select (r.clock st.world) s).eligible.isEmpty) = false := hb.symm.trans hbf
    simpa [and_assoc] using hc
  rcases runStep_cases_eligible hf h with ⟨-, -, rfl⟩ | ⟨hne, -, hb⟩
  · obtain ⟨hst, hs, -⟩ := hchoose rfl hc
    exact ⟨hst, (Document.selectEach_of_setbacks hs).1, rfl⟩
  · exact absurd (hchoose hb.changed hc).2.2 hne

theorem runSteps_of_unchanged {steps : List Step} {st st' : RunState σ}
    (hf : st.document.IsFiled) (h : st.runSteps r steps = (.ok (), st'))
    (hc : st'.changed = false) :
    st.changed = false ∧ st'.document = st.document ∧ st'.trace = st.trace := by
  induction steps generalizing st with
  | nil =>
    obtain ⟨-, rfl⟩ := Prod.mk.inj h
    exact ⟨hc, rfl, rfl⟩
  | cons s rest ih =>
    obtain ⟨st₁, hstep, h⟩ := runSteps_cons h
    obtain ⟨hc₁, hd₁, ht₁⟩ := ih (isFiled_of_runStep hf hstep) h
    obtain ⟨hc₀, hd₀, ht₀⟩ := runStep_of_unchanged hf hstep hc₁
    exact ⟨hc₀, hd₁.trans hd₀, ht₁.trans ht₀⟩

theorem document_opening_of_unchanged {d : Document} {m : Emitter σ} {w : σ}
    (h : (opening r d m w).changed = false) : (opening r d m w).document = d := by
  have hnone : (d.blockStuck (r.clock w)).2 = [] := by simpa [opening] using h
  exact Document.blockStuck_of_records hnone

theorem close_of_changed {st st' : RunState σ} {res : Except Halt Unit} (hc : st.changed = true)
    (h : st.close r = (res, st')) :
    RunEvent.lastSaved st'.trace = some (st.document.setCurrentStep none) := by
  rw [close, if_pos hc] at h
  rw [(save_spec h).2.1, RunEvent.lastSaved_append]
  rfl

theorem close_of_unchanged {st : RunState σ} (hc : st.changed = false) :
    st.close r = (.ok (), st) := by
  rw [close, if_neg (by simp [hc])]

end RunState

namespace RunSetup

variable {σ : Type} {r : RunSetup σ} {m : Emitter σ} {w : σ} {d : Document}
  {summary : RunSummary}

/-- What a run that reports has gone through. -/
theorem run_of_ok (hl : r.store.load (r.clock w) w = .ok d)
    (hok : (r.run m w).result = .ok summary) :
    ∃ st st', (RunState.opening r d m w).runSteps r Step.all = (.ok (), st) ∧
      st.close r = (.ok (), st') ∧ r.run m w = (st'.log [.done summary]).finish (.ok summary) ∧
      summary = ⟨r.runId, st'.batches, st'.failures, d.stuckSetbacks,
        (r.clock st'.world).millisSince (r.clock w)⟩ := by
  rw [RunSetup.run, hl] at hok ⊢
  dsimp only at hok ⊢
  rcases hs : (RunState.opening r d m w).runSteps r Step.all with ⟨_ | ⟨⟩, st⟩
  · rw [hs] at hok
    cases hok
  rw [hs] at hok
  dsimp only at hok ⊢
  rcases hc : st.close r with ⟨_ | ⟨⟩, st'⟩
  · rw [hc] at hok
    cases hok
  rw [hc] at hok
  obtain rfl := Except.ok.inj hok
  exact ⟨st, st', rfl, hc, rfl, rfl⟩

/-- The document that a run over `d` leaves behind. -/
def left (r : RunSetup σ) (m : Emitter σ) (w : σ) (d : Document) : Document :=
  (RunEvent.lastSaved (r.run m w).trace).getD d

/-- A run that reports leaves the document of its last state, which no batch is at work on any
more, or all as it was. -/
theorem left_of_ok (hl : r.store.load (r.clock w) w = .ok d) (hf : d.IsFiled)
    (hok : (r.run m w).result = .ok summary) :
    ∃ st, (RunState.opening r d m w).runSteps r Step.all = (.ok (), st) ∧
      (r.left m w d = st.document.setCurrentStep none ∨ r.left m w d = st.document) := by
  obtain ⟨st, st', hsteps, hclose, hrun, -⟩ := run_of_ok hl hok
  refine ⟨st, hsteps, ?_⟩
  have htrace : (r.run m w).trace = st'.trace ++ [.done summary] := by
    rw [hrun]
    rfl
  have hlast : RunEvent.lastSaved (r.run m w).trace = RunEvent.lastSaved st'.trace := by
    rw [htrace]
    exact RunEvent.lastSaved_append_of_savings_eq_nil rfl
  rw [left, hlast]
  cases hc : st.changed with
  | true =>
    rw [RunState.close_of_changed hc hclose]
    exact Or.inl rfl
  | false =>
    have hf' := RunState.isFiled_opening hf r m w
    obtain ⟨hopen, hdoc, ht⟩ := RunState.runSteps_of_unchanged hf' hsteps hc
    rw [RunState.close_of_unchanged hc] at hclose
    obtain ⟨-, rfl⟩ := Prod.mk.inj hclose
    rw [hdoc, ht, RunState.document_opening_of_unchanged hopen]
    exact Or.inr rfl

theorem find?_left (hl : r.store.load (r.clock w) w = .ok d) (hf : d.IsFiled)
    (hok : (r.run m w).result = .ok summary) :
    ∃ st, (RunState.opening r d m w).runSteps r Step.all = (.ok (), st) ∧
      ∀ id, (r.left m w d).find? id = st.document.find? id := by
  obtain ⟨st, hsteps, hleft⟩ := left_of_ok hl hf hok
  refine ⟨st, hsteps, fun id => ?_⟩
  rcases hleft with hleft | hleft
  · rw [hleft]
    rfl
  · rw [hleft]

/-- A run that reports has passed over each entity by itself, stuck ones being blocked
before. -/
theorem find?_left_of_gives {P : Call → Ending → Prop} (hx : r.executor.Gives P)
    (hl : r.store.load (r.clock w) w = .ok d) (hf : d.IsFiled)
    (hok : (r.run m w).result = .ok summary) {id : String} {e : Entity}
    (he : d.find? id = some e) :
    ∃ (t : Step → Turn) (x : Step → Ending),
      (∀ s, (t s).ms = (x s).durationMs ∧ P ⟨id, e.metadata, s⟩ (x s)) ∧
      (r.left m w d).find? id = some
        ((e.blockStuck (r.clock w)).1.passes (fun s => (x s).outcome) r.runId t Step.all) := by
  obtain ⟨st, hsteps, hleft⟩ := find?_left hl hf hok
  have hf' := RunState.isFiled_opening hf r m w
  have hopen :
      (RunState.opening r d m w).document.find? id = some (e.blockStuck (r.clock w)).1 := by
    rw [RunState.find?_opening, he, Option.map_some]
  obtain ⟨t, x, hall, hfind⟩ :=
    RunState.find?_runSteps hx (by decide) hf' hsteps hopen
  rw [Entity.metadata_blockStuck] at hall
  exact ⟨t, x, fun s => hall s (Step.mem_all s), (hleft id).trans hfind⟩

theorem find?_left_eq_none (hl : r.store.load (r.clock w) w = .ok d) (hf : d.IsFiled)
    (hok : (r.run m w).result = .ok summary) {id : String} (he : d.find? id = none) :
    (r.left m w d).find? id = none := by
  obtain ⟨st, hsteps, hleft⟩ := find?_left hl hf hok
  have hf' := RunState.isFiled_opening hf r m w
  have hopen : (RunState.opening r d m w).document.find? id = none := by
    rw [RunState.find?_opening, he, Option.map_none]
  rw [hleft, RunState.find?_runSteps_eq_none hf' hsteps hopen]

end RunSetup
end Publishing
