import Mathlib.Logic.Relation
import Publishing.Proofs.Announcements
import Publishing.Proofs.Histories

/-
What has been delivered is what is on disk.

One emitter is shared by all operations and runs, and all that it delivers is written down
in a ledger.  Records wait in the queue only while the document with their checkpoints is not
yet saved, so the ledger with the queue behind it always tells of the document in memory, and
without it of the document on disk.

A document that is loaded and saved again has had its numbers read, and reading is not exact
for every double.  So the data of a checkpoint on disk is the delivered one after a number of
readings.
-/

namespace Publishing

/-- Whether the second checkpoint comes of the first one by writing and reading. -/
def Checkpoint.Rereads : Checkpoint → Checkpoint → Prop :=
  Relation.ReflTransGen Checkpoint.ReadsBack

namespace Document

/-- The records tell of all checkpoints of a document and of its batches, each in order. -/
structure IsToldBy (d : Document) (records : List AuditRecord) : Prop where
  checkpoints : ∀ id s, ∃ told, records.filter (·.concerns id s) = told.map (.ofCheckpoint id s) ∧
    List.Forall₂ Checkpoint.Rereads told (d.checkpoints id s)
  batches : records.filter (·.entity.isNone) = d.global.stepHistory.map .ofBatch

variable {d d' : Document} {records more : List AuditRecord}

theorem forall₂_rereads_refl (l : List Checkpoint) : List.Forall₂ Checkpoint.Rereads l l :=
  List.forall₂_same.mpr fun _ _ => .refl

theorem forall₂_rereads {told l l' : List Checkpoint} (h : List.Forall₂ Checkpoint.Rereads told l)
    (h' : List.Forall₂ Checkpoint.ReadsBack l l') : List.Forall₂ Checkpoint.Rereads told l' := by
  induction h' generalizing told with
  | nil => exact h
  | cons hab _ ih =>
    cases h with
    | cons hc hrest => exact .cons (hc.tail hab) (ih hrest)

theorem isToldBy_empty (now : Timestamp) : (empty now).IsToldBy [] :=
  ⟨fun _ _ => ⟨[], rfl, .nil⟩, rfl⟩

theorem IsToldBy.append (h : d.IsToldBy records) (ha : d.Announces more d') :
    d'.IsToldBy (records ++ more) where
  checkpoints id s := by
    obtain ⟨told, hr, hc⟩ := h.checkpoints id s
    obtain ⟨new, hd, hm⟩ := ha.added id s
    refine ⟨told ++ new, ?_, ?_⟩
    · rw [List.filter_append, hr, hm, List.map_append]
    · rw [hd]
      exact List.rel_append hc (forall₂_rereads_refl new)
  batches := by
    obtain ⟨new, hd, hm⟩ := ha.batches
    rw [List.filter_append, h.batches, hm, hd, List.map_append]

theorem IsToldBy.reads (h : d.IsToldBy records) (hr : d.ReadsBack d') : d'.IsToldBy records where
  checkpoints id s := by
    obtain ⟨told, hrecords, hc⟩ := h.checkpoints id s
    refine ⟨told, hrecords, forall₂_rereads hc ?_⟩
    unfold Document.checkpoints
    obtain ⟨hn, hn'⟩ | ⟨e, e', he, he', hread⟩ := hr.related.cases id
    · rw [hn, hn']
      exact .nil
    · rw [he, he']
      exact (hread.step s).checkpoints
  batches := by rw [h.batches, hr.global]

/-- The records tell of a document with the very data of its checkpoints. -/
structure IsToldExactlyBy (d : Document) (records : List AuditRecord) : Prop where
  checkpoints : ∀ id s, records.filter (·.concerns id s) =
    (d.checkpoints id s).map (.ofCheckpoint id s)
  batches : records.filter (·.entity.isNone) = d.global.stepHistory.map .ofBatch

theorem ofCheckpoint_injective (id : String) (s : Step) :
    Function.Injective (AuditRecord.ofCheckpoint id s) := by
  intro c c' h
  cases c
  cases c'
  simpa [AuditRecord.ofCheckpoint] using h

/-- What is told exactly stays so if reading has changed no checkpoint, and only then. -/
theorem isToldExactlyBy_append_iff {d₀ : Document} (h : d₀.IsToldExactlyBy records)
    (hg : d₀.global.stepHistory = d.global.stepHistory) (ha : d.Announces more d') :
    d'.IsToldExactlyBy (records ++ more) ↔
      ∀ id s, d.checkpoints id s = d₀.checkpoints id s := by
  have hfilter : ∀ id s, ∃ new, d'.checkpoints id s = d.checkpoints id s ++ new ∧
      (records ++ more).filter (·.concerns id s) =
        (d₀.checkpoints id s ++ new).map (.ofCheckpoint id s) := by
    intro id s
    obtain ⟨new, hd, hm⟩ := ha.added id s
    refine ⟨new, hd, ?_⟩
    rw [List.filter_append, h.checkpoints, hm, List.map_append]
  constructor
  · intro h' id s
    obtain ⟨new, hd, hm⟩ := hfilter id s
    rw [h'.checkpoints, hd] at hm
    exact List.append_cancel_right ((List.map_injective_iff.mpr (ofCheckpoint_injective id s)) hm)
  · intro heq
    refine ⟨fun id s => ?_, ?_⟩
    · obtain ⟨new, hd, hm⟩ := hfilter id s
      rw [hm, hd, heq]
    · obtain ⟨new, hd, hm⟩ := ha.batches
      rw [List.filter_append, h.batches, hm, hd, hg, List.map_append]

end Document

/-- What is delivered to some sinks, written down in the world. -/
structure Site.Ledger {σ : Type} (S : Site σ) where
  sinks : List (Sink σ)
  delivered : σ → List AuditRecord
  delivered_deliver (r : AuditRecord) (w : σ) :
    delivered (Emitter.deliver sinks r w) = delivered w ++ [r]
  delivered_save (now : Timestamp) (d : Document) (w : σ) :
    delivered (S.store.save now d w).2 = delivered w
  spared : S.SparedBySinks sinks

namespace Site.Ledger

variable {σ : Type} {S : Site σ} {L : S.Ledger}

/-- An executor that touches neither the text nor the ledger. -/
def SparedByCalls (L : S.Ledger) (x : Executor σ) : Prop :=
  S.SparedByCalls x ∧ ∀ c w, L.delivered (x c w).2 = L.delivered w

/-- An operation or a run with a shared emitter, or a change of the rest of the world. -/
inductive Turn (L : S.Ledger) (m : Emitter σ) (w : σ) : Emitter σ → σ → Prop
  | operation (op : Operation) (now : Timestamp) :
      Turn L m w (op.perform S.store now m w).2.1 (op.perform S.store now m w).2.2
  | run (r : RunSetup σ) (store : r.store = S.store) (calls : L.SparedByCalls r.executor) :
      Turn L m w (r.run m w).emitter (r.run m w).world
  | meanwhile {w' : σ} (text : S.text? w' = S.text? w)
      (delivered : L.delivered w' = L.delivered w) : Turn L m w m w'

/-- What operations and runs that share an emitter can lead to, beginning with no text and
an empty ledger. -/
inductive Session (L : S.Ledger) : Emitter σ → σ → Prop
  | start {w : σ} (text : S.text? w = none) (delivered : L.delivered w = []) :
      Session L (.ofSinks L.sinks) w
  | turn {m m' : Emitter σ} {w w' : σ} (h : Session L m w) (ht : L.Turn m w m' w') :
      Session L m' w'

theorem queue_enqueue {m : Emitter σ} (hm : m.sinks = L.sinks) (w : σ)
    (records : List AuditRecord) :
    (m.enqueue records).queue = m.queue ++ records := by
  have h : Emitter.Records m.sinks L.delivered := hm ▸ L.delivered_deliver
  exact h.queue_enqueue w records

theorem delivered_flush {m : Emitter σ} (hm : m.sinks = L.sinks) (w : σ) :
    L.delivered (m.flush w).2 = L.delivered w ++ m.queue := by
  have h : Emitter.Records m.sinks L.delivered := hm ▸ L.delivered_deliver
  exact h.flush w

/-- What can come of an operation or a run: nothing, or a document that has more than the one
that was loaded just what was delivered meanwhile. -/
inductive Leads (L : S.Ledger) (w w' : σ) : Prop
  | unsaved (text : S.text? w' = S.text? w) (delivered : L.delivered w' = L.delivered w)
  | saved {now : Timestamp} {d b : Document} {new : List AuditRecord}
      (load : S.store.load now w = .ok d) (text : S.text? w' = some b.text)
      (delivered : L.delivered w' = L.delivered w ++ new) (announces : d.Announces new b)

theorem Leads.congr {w₀ w w' : σ} (h : L.Leads w₀ w) (htext : S.text? w' = S.text? w)
    (hdelivered : L.delivered w' = L.delivered w) : L.Leads w₀ w' := by
  cases h with
  | unsaved text delivered => exact .unsaved (htext.trans text) (hdelivered.trans delivered)
  | saved load text delivered announces =>
    exact .saved load (htext.trans text) (hdelivered.trans delivered) announces

theorem Leads.unsave {w₀ w w' : σ} (h : L.Leads w₀ w) {now : Timestamp} {d : Document} {e : Error}
    (hs : S.store.save now d w = (.error e, w')) : L.Leads w₀ w' := by
  have hsave := L.delivered_save now d w
  rw [hs] at hsave
  exact h.congr (S.save_error hs) hsave

/-- Once the announcements of a document are in the queue and it is saved, they can go out. -/
theorem leads_flush {w₀ : σ} {now : Timestamp} {d : Document} (hl : S.store.load now w₀ = .ok d)
    {m : Emitter σ} (hm : m.sinks = L.sinks) {now' : Timestamp} {d' : Document} {w w' : σ}
    (hs : S.store.save now' d' w = (.ok (), w')) {new : List AuditRecord}
    (hw : L.delivered w = L.delivered w₀ ++ new) (ha : d.Announces (new ++ m.queue) d') :
    L.Leads w₀ (m.flush w').2 ∧
      L.delivered (m.flush w').2 = L.delivered w₀ ++ (new ++ m.queue) := by
  have hdelivered : L.delivered (m.flush w').2 = L.delivered w₀ ++ (new ++ m.queue) := by
    have hsave := L.delivered_save now' d' w
    rw [hs] at hsave
    rw [delivered_flush hm, hsave, hw, List.append_assoc]
  refine ⟨.saved (b := d'.stamp now') hl ?_ hdelivered ⟨ha.added, ha.batches⟩, hdelivered⟩
  rw [text?_flush (hm ▸ L.spared), S.save_ok hs]

/-! ## Operations -/

/-- An operation leaves the queue empty, whether it is refused, cannot be saved, or succeeds,
and has delivered what it has saved. -/
theorem leads_perform {m : Emitter σ} (hm : m.sinks = L.sinks) (hq : m.queue = [])
    (op : Operation) (now : Timestamp) (w : σ) :
    (op.perform S.store now m w).2.1.sinks = L.sinks ∧
      (op.perform S.store now m w).2.1.queue = [] ∧
      L.Leads w (op.perform S.store now m w).2.2 := by
  have ho := op.outcome_perform S.store now m w
  have hsinks : ∀ records, (m.enqueue records).sinks = L.sinks :=
    fun records => (Emitter.sinks_enqueue records m).trans hm
  generalize op.perform S.store now m w = res at ho ⊢
  cases ho with
  | refused e => exact ⟨hm, hq, .unsaved rfl rfl⟩
  | idle => exact ⟨hsinks _, rfl, .unsaved rfl rfl⟩
  | unsaved _ _ hs => exact ⟨hsinks _, rfl, Leads.unsave (.unsaved rfl rfl) hs⟩
  | saved hl hmk _ hs =>
    have ha := hmk.changes.announces (isFiled_of_load hl)
    refine ⟨hsinks _, rfl, (leads_flush hl (hsinks _) hs (List.append_nil _).symm ?_).1⟩
    rw [queue_enqueue hm w, hq]
    exact ha

/-! ## The queue -/

section

variable {r : RunSetup σ} {s : Step} {st st' : RunState σ} {res : Except Halt Unit}

/-- A save leaves the queue empty, whether it succeeds or not. -/
theorem queue_save (hs : st.save r = (res, st')) : st'.emitter.queue = [] := by
  rcases RunState.save_fst_cases r st with ⟨w, -, hst⟩ | ⟨e, w, -, hst⟩
  all_goals
    obtain ⟨-, rfl⟩ := Prod.mk.inj (hst.symm.trans hs)
    rfl

theorem queue_batch {ids : List String} (hb : RunState.BatchRun r s ids st res st') :
    st'.emitter.queue = [] := by
  cases hb with
  | unmarked _ hs => exact queue_save hs
  | overfull _ hs => exact queue_save hs
  | unfolded _ _ _ _ hs => exact queue_save hs
  | folded _ _ _ _ hs =>
    have hqueue := queue_save hs
    exact hqueue

/-- A run that has changed nothing has nothing to deliver. -/
def Clean (st : RunState σ) : Prop := st.changed = false → st.emitter.queue = []

theorem Clean.choose {st : RunState σ} (h : Clean st) (r : RunSetup σ) (s : Step) :
    Clean (st.choose r s) := by
  intro hc
  change (st.changed || !(st.document.select (r.clock st.world) s).setbacks.isEmpty ||
    !(st.document.select (r.clock st.world) s).eligible.isEmpty) = false at hc
  simp only [Bool.or_eq_false_iff, Bool.not_eq_false', List.isEmpty_iff] at hc
  show (st.emitter.enqueue (st.document.select (r.clock st.world) s).records).queue = []
  rw [Document.select, (Document.selectEach_of_setbacks hc.1.2).2]
  have hq := h hc.1.1
  unfold Emitter.enqueue
  split
  · exact hq
  · rw [hq]
    rfl

theorem Clean.runStep (hc : Clean st) (hf : st.document.IsFiled)
    (hs : st.runStep r s = (res, st')) :
    Clean st' ∧ (res ≠ .ok () → st'.emitter.queue = []) := by
  rcases RunState.runStep_cases hf hs with ⟨rfl, rfl⟩ | ⟨ids, -, hb⟩
  · exact ⟨hc.choose r s, fun hne => absurd rfl hne⟩
  · exact ⟨fun _ => queue_batch hb, fun _ => queue_batch hb⟩

theorem Clean.close (hc : Clean st) (hs : st.close r = (res, st')) : st'.emitter.queue = [] := by
  rcases RunState.close_cases hs with ⟨-, hsave⟩ | ⟨hn, -, rfl⟩
  · exact queue_save hsave
  · exact hc hn

theorem clean_opening (r : RunSetup σ) (d : Document) {m : Emitter σ} (hq : m.queue = []) (w : σ) :
    Clean (.opening r d m w) := by
  intro hc
  change (!(d.blockStuck (r.clock w)).2.isEmpty) = false at hc
  rw [Bool.not_eq_false', List.isEmpty_iff] at hc
  show (m.enqueue (d.blockStuck (r.clock w)).2).queue = []
  rw [hc, Emitter.enqueue]
  split
  · exact hq
  · rw [hq]
    rfl

/-- However a run ends, nothing waits in the queue then. -/
theorem queue_run {m : Emitter σ} (hq : m.queue = []) {w : σ}
    (hf : ∀ d, r.store.load (r.clock w) w = .ok d → d.IsFiled) :
    (r.run m w).emitter.queue = [] := by
  rcases r.run_cases m w with ⟨e, -, hrun⟩ | ⟨d, hl, hrun⟩
  · rw [hrun]
    exact hq
  have hend : ∀ {halt st}, (RunState.opening r d m w).runSteps r Step.all = (halt, st) →
      (halt = .ok () → st.document.IsFiled ∧ Clean st) ∧ (halt ≠ .ok () → st.emitter.queue = []) :=
    RunState.runSteps_induct (fun st => st.document.IsFiled ∧ Clean st)
      (fun st => st.emitter.queue = []) (fun s st res st' h hs => by
        obtain ⟨hclean, hqueue⟩ := h.2.runStep h.1 hs
        exact ⟨fun _ => ⟨RunState.isFiled_of_runStep h.1 hs, hclean⟩, hqueue⟩)
      Step.all ⟨RunState.isFiled_opening (hf d hl) r m w, clean_opening r d hq w⟩
  rcases hrun with ⟨halt, st, hs, hrun⟩ | ⟨st, hs, hclose⟩
  · rw [hrun]
    exact (hend hs).2 nofun
  · obtain ⟨-, hclean⟩ := (hend hs).1 rfl
    rcases hclose with ⟨halt, st', hc, hrun⟩ | ⟨st', summary, hc, hrun⟩
    · rw [hrun]
      exact hclean.close hc
    · rw [hrun]
      have hqueue := hclean.close hc
      exact hqueue

end

/-! ## Runs -/

/-- What a run that began at `w₀` by loading `d` keeps while it goes on. -/
structure Goes (L : S.Ledger) (d : Document) (w₀ : σ) (st : RunState σ) : Prop where
  loaded : ∃ now, S.store.load now w₀ = .ok d
  filed : st.document.IsFiled
  sinks : st.emitter.sinks = L.sinks
  leads : L.Leads w₀ st.world
  announces : ∃ new, L.delivered st.world = L.delivered w₀ ++ new ∧
    d.Announces (new ++ st.emitter.queue) st.document

/-- What it leaves when it ends. -/
structure Ends (L : S.Ledger) (w₀ : σ) (st : RunState σ) : Prop where
  sinks : st.emitter.sinks = L.sinks
  queue : st.emitter.queue = []
  leads : L.Leads w₀ st.world

variable {d : Document} {w₀ : σ}

theorem Goes.update {st : RunState σ} (h : L.Goes d w₀ st) (d' : Document)
    {records : List AuditRecord} (hf : d'.IsFiled) (ha : st.document.Announces records d') :
    L.Goes d w₀ (st.update d' records) where
  loaded := h.loaded
  filed := hf
  sinks := (Emitter.sinks_enqueue records st.emitter).trans h.sinks
  leads := h.leads
  announces := by
    obtain ⟨new, hw, hd⟩ := h.announces
    refine ⟨new, hw, ?_⟩
    show d.Announces (new ++ (st.emitter.enqueue records).queue) d'
    rw [queue_enqueue h.sinks st.world, ← List.append_assoc]
    exact hd.trans ha

/-- Only these parts of a run matter here. -/
theorem Goes.congr {st st' : RunState σ} (h : L.Goes d w₀ st) (hd : st'.document = st.document)
    (hm : st'.emitter = st.emitter) (htext : S.text? st'.world = S.text? st.world)
    (hdelivered : L.delivered st'.world = L.delivered st.world) : L.Goes d w₀ st' where
  loaded := h.loaded
  filed := hd ▸ h.filed
  sinks := hm ▸ h.sinks
  leads := h.leads.congr htext hdelivered
  announces := by
    rw [hd, hm, hdelivered]
    exact h.announces

theorem Goes.save {r : RunSetup σ} (hr : r.store = S.store) {st st' : RunState σ}
    (h : L.Goes d w₀ st) {res : Except Halt Unit} (hs : st.save r = (res, st')) :
    (res = .ok () → L.Goes d w₀ st') ∧ (res ≠ .ok () → L.Ends w₀ st') := by
  rcases RunState.save_fst_cases r st with ⟨w, hw, hst⟩ | ⟨e, w, hw, hst⟩
  · rw [hst] at hs
    obtain ⟨rfl, rfl⟩ := Prod.mk.inj hs
    rw [hr] at hw
    obtain ⟨now, hl⟩ := h.loaded
    obtain ⟨new, hnew, ha⟩ := h.announces
    obtain ⟨hleads, hdelivered⟩ := leads_flush hl h.sinks hw hnew ha
    refine ⟨fun _ => ⟨h.loaded, h.filed, h.sinks, hleads, _, hdelivered, ?_⟩,
      fun hne => absurd rfl hne⟩
    show d.Announces (new ++ st.emitter.queue ++ []) st.document
    rw [List.append_nil]
    exact ha
  · rw [hst] at hs
    obtain ⟨rfl, rfl⟩ := Prod.mk.inj hs
    rw [hr] at hw
    exact ⟨nofun, fun _ => ⟨h.sinks, rfl, h.leads.unsave hw⟩⟩

theorem Goes.execute {r : RunSetup σ} (hx : L.SparedByCalls r.executor) {calls : List Call}
    {st st' : RunState σ} {ending : String → Ending} (h : L.Goes d w₀ st)
    (he : st.execute r calls = (ending, st')) : L.Goes d w₀ st' := by
  obtain ⟨hd, hm, -, hw⟩ := RunState.execute_spec he
  obtain ⟨htext, hdelivered⟩ : S.text? st'.world = S.text? st.world ∧
      L.delivered st'.world = L.delivered st.world := by
    rw [hw]
    exact Pool.world_runFor (P := fun w => S.text? w = S.text? st.world ∧
      L.delivered w = L.delivered st.world) _
      (fun c w hw => ⟨(hx.1 c w).trans hw.1, (hx.2 c w).trans hw.2⟩) _ _ ⟨rfl, rfl⟩
  exact h.congr hd hm htext hdelivered

theorem Goes.choose {st : RunState σ} (h : L.Goes d w₀ st) (r : RunSetup σ) (s : Step) :
    L.Goes d w₀ (st.choose r s) := by
  have hc := Document.changes_select (L := fun _ => True) (r.clock st.world) trivial s h.filed
  exact (h.update _ (hc.isFiled h.filed) (hc.announces h.filed)).congr rfl rfl rfl rfl

theorem Goes.mark {st : RunState σ} (h : L.Goes d w₀ st) {s : Step} {ids : List String}
    (hw : st.document.Awaits s ids) {now : Timestamp} {runId : RunId} {d' : Document}
    {records : List AuditRecord} {calls : List Call}
    (hm : st.document.markEach now runId s ids = .ok (d', records, calls)) :
    L.Goes d w₀ (st.mark s ids d' records) := by
  have hc := Document.changes_markEach (L := fun _ => True) trivial hw hm
  have ha := (hc.announces h.filed).trans (Document.announces_setCurrentStep (some s) d')
  rw [List.append_nil] at ha
  exact (h.update (d'.setCurrentStep (some s)) (hc.isFiled h.filed) ha).congr rfl rfl rfl rfl

theorem Goes.enter {st : RunState σ} (h : L.Goes d w₀ st) {r : RunSetup σ} {s : Step}
    {ids : List String} (hn : ids.Nodup)
    (hrun : ∀ id ∈ ids, ∀ e, st.document.find? id = some e → (e.step s).status = .running)
    {ending : String → Ending} {tally : Document.Tally}
    (hf : st.document.foldEach (r.clock st.world) s ending ids = .ok tally) (start : Timestamp) :
    L.Goes d w₀ (st.enter r s start ids tally) := by
  have hc := Document.changes_foldEach (L := fun _ => True) trivial hn hrun hf
  have ha := (hc.announces h.filed).trans
    (Document.announces_addBatch (st.batch r s start ids tally) tally.document)
  exact (h.update (tally.document.addBatch _) (hc.isFiled h.filed) ha).congr rfl rfl rfl rfl

theorem Goes.batch {r : RunSetup σ} (hr : r.store = S.store) (hx : L.SparedByCalls r.executor)
    {s : Step} {ids : List String} {st st' : RunState σ} {res : Except Halt Unit}
    (h : L.Goes d w₀ st) (hw : st.document.Awaits s ids) (hb : RunState.BatchRun r s ids st res st') :
    (res = .ok () → L.Goes d w₀ st') ∧ (res ≠ .ok () → L.Ends w₀ st') := by
  -- after the marks are saved, the batch is at work on the document with the marks
  have hentered : ∀ {d' records calls st₁ ending st₂ tally start},
      st.document.markEach (r.clock st.world) r.runId s ids = .ok (d', records, calls) →
      (st.mark s ids d' records).save r = (.ok (), st₁) → st₁.execute r calls = (ending, st₂) →
      st₂.document.foldEach (r.clock st₂.world) s ending ids = .ok tally →
      L.Goes d w₀ (st₂.enter r s start ids tally) := by
    intro d' records calls st₁ ending st₂ tally start hm hs hexec hf
    have h₁ := ((h.mark hw hm).save hr hs).1 rfl
    refine (h₁.execute hx hexec).enter hw.nodup ?_ hf start
    rw [RunState.Round.document_execute ⟨hw, hm, hs, hexec, hf⟩]
    exact Document.running_withMarks _ _ hw
  cases hb with
  | unmarked hm hs => exact ⟨nofun, ((h.mark hw hm).save hr hs).2⟩
  | overfull hm hs =>
    have h₁ := ((h.mark hw hm).save hr hs).1 rfl
    exact ⟨nofun, fun _ => ⟨h₁.sinks, queue_save hs, h₁.leads⟩⟩
  | unfolded hm hs hexec hf hs₂ => exact ⟨nofun, ((hentered hm hs hexec hf).save hr hs₂).2⟩
  | folded hm hs hexec hf hs₂ =>
    have h₃ := ((hentered hm hs hexec hf).save hr hs₂).1 rfl
    exact ⟨fun _ => h₃.congr rfl rfl rfl rfl, fun hne => absurd rfl hne⟩

theorem Goes.runStep {r : RunSetup σ} (hr : r.store = S.store) (hx : L.SparedByCalls r.executor)
    {s : Step} {st st' : RunState σ} {res : Except Halt Unit} (h : L.Goes d w₀ st)
    (hs : st.runStep r s = (res, st')) :
    (res = .ok () → L.Goes d w₀ st') ∧ (res ≠ .ok () → L.Ends w₀ st') := by
  rcases RunState.runStep_cases h.filed hs with ⟨rfl, rfl⟩ | ⟨ids, hw, hb⟩
  · exact ⟨fun _ => h.choose r s, fun hne => absurd rfl hne⟩
  · exact (h.choose r s).batch hr hx hw hb

theorem Goes.close {r : RunSetup σ} (hr : r.store = S.store) {st st' : RunState σ}
    {res : Except Halt Unit} (h : L.Goes d w₀ st) (hs : st.close r = (res, st')) :
    st'.emitter.sinks = L.sinks ∧ L.Leads w₀ st'.world := by
  rcases RunState.close_cases hs with ⟨-, hsave⟩ | ⟨-, -, rfl⟩
  · have hst : L.Goes d w₀ { st with document := st.document.setCurrentStep none } := by
      obtain ⟨new, hnew, ha⟩ := h.announces
      have ha := ha.trans (Document.announces_setCurrentStep none st.document)
      rw [List.append_nil] at ha
      exact ⟨h.loaded, h.filed, h.sinks, h.leads, new, hnew, ha⟩
    obtain ⟨hok, herr⟩ := hst.save hr hsave
    by_cases hres : res = .ok ()
    · exact ⟨(hok hres).sinks, (hok hres).leads⟩
    · exact ⟨(herr hres).sinks, (herr hres).leads⟩
  · exact ⟨h.sinks, h.leads⟩

/-- A run leaves the queue empty and has delivered what it has saved, however it ends. -/
theorem leads_run {m : Emitter σ} (hm : m.sinks = L.sinks) (hq : m.queue = []) {r : RunSetup σ}
    (hr : r.store = S.store) (hx : L.SparedByCalls r.executor) (w : σ) :
    (r.run m w).emitter.sinks = L.sinks ∧ (r.run m w).emitter.queue = [] ∧
      L.Leads w (r.run m w).world := by
  suffices h : (r.run m w).emitter.sinks = L.sinks ∧ L.Leads w (r.run m w).world from
    ⟨h.1, queue_run hq fun d hl => isFiled_of_load (hr ▸ hl), h.2⟩
  rcases r.run_cases m w with ⟨e, -, hrun⟩ | ⟨d, hl, hrun⟩
  · rw [hrun]
    exact ⟨hm, .unsaved rfl rfl⟩
  rw [hr] at hl
  have hf := isFiled_of_load hl
  have hopen : L.Goes d w (RunState.opening r d m w) := by
    have hc := Document.changes_blockStuck (L := fun _ => True) (r.clock w) trivial d
    refine ⟨⟨_, hl⟩, hc.isFiled hf, (Emitter.sinks_enqueue _ m).trans hm, .unsaved rfl rfl, [],
      (List.append_nil _).symm, ?_⟩
    show d.Announces (m.enqueue _).queue _
    rw [queue_enqueue hm w, hq, List.nil_append]
    exact hc.announces hf
  have hend : ∀ {halt st}, (RunState.opening r d m w).runSteps r Step.all = (halt, st) →
      (halt = .ok () → L.Goes d w st) ∧ (halt ≠ .ok () → L.Ends w st) :=
    RunState.runSteps_induct (L.Goes d w) (L.Ends w)
      (fun s st res st' h hs => h.runStep hr hx hs) Step.all hopen
  rcases hrun with ⟨halt, st, hs, hrun⟩ | ⟨st, hs, hclose⟩
  · rw [hrun]
    have hst := (hend hs).2 nofun
    exact ⟨hst.sinks, hst.leads⟩
  · have hgoes := (hend hs).1 rfl
    rcases hclose with ⟨halt, st', hc, hrun⟩ | ⟨st', summary, hc, hrun⟩
    · rw [hrun]
      exact hgoes.close hr hc
    · rw [hrun]
      have hend := hgoes.close hr hc
      exact hend

theorem Turn.leads {m m' : Emitter σ} {w w' : σ} (h : L.Turn m w m' w') (hm : m.sinks = L.sinks)
    (hq : m.queue = []) : m'.sinks = L.sinks ∧ m'.queue = [] ∧ L.Leads w w' := by
  cases h with
  | operation op now => exact leads_perform hm hq op now w
  | run r hr hx => exact leads_run hm hq hr hx w
  | meanwhile text delivered => exact ⟨hm, hq, .unsaved text delivered⟩

/-! ## What a session leaves -/

/-- What is loaded has the history that is on disk, and checkpoints that were read. -/
theorem reads_of_load {now : Timestamp} {w : σ} {d₀ d : Document} (hd : d₀.IsOn (S.text? w))
    (hl : S.store.load now w = .ok d) :
    d₀.ReadsBack d ∨ ∃ now', d₀ = .empty now' ∧ d = .empty now := by
  rcases S.load_ok hl with ⟨hw, rfl⟩ | ⟨t, hw, ht, -⟩
  · rw [hw] at hd
    obtain ⟨now', rfl⟩ := hd
    exact Or.inr ⟨now', rfl, rfl⟩
  · rw [hw] at hd
    obtain rfl := hd
    exact Or.inl (Document.readsBack_of_ofText ht)

/-- The queue is always empty, and the ledger tells of what is on disk. -/
theorem Session.told {m : Emitter σ} {w : σ} (h : L.Session m w) :
    m.sinks = L.sinks ∧ m.queue = [] ∧
      ∃ d : Document, d.IsOn (S.text? w) ∧ d.IsToldBy (L.delivered w) := by
  induction h with
  | start text delivered =>
    refine ⟨rfl, rfl, .empty default, ?_, ?_⟩
    · rw [text]
      exact ⟨_, rfl⟩
    · rw [delivered]
      exact Document.isToldBy_empty _
  | turn _ ht ih =>
    obtain ⟨hm, hq, d₀, hd₀, htold⟩ := ih
    obtain ⟨hm', hq', hleads⟩ := ht.leads hm hq
    refine ⟨hm', hq', ?_⟩
    cases hleads with
    | unsaved text delivered => exact ⟨d₀, text ▸ hd₀, delivered ▸ htold⟩
    | @saved now d b new load text delivered announces =>
      refine ⟨b, text ▸ rfl, ?_⟩
      rw [delivered]
      rcases reads_of_load hd₀ load with hr | ⟨now', rfl, rfl⟩
      · exact (htold.reads hr).append announces
      · have htold : (Document.empty now).IsToldBy _ := ⟨htold.checkpoints, htold.batches⟩
        exact htold.append announces

theorem rereads_spec {c c' : Checkpoint} (h : c.Rereads c') :
    c.operation = c'.operation ∧ c.timestamp = c'.timestamp ∧
      Relation.ReflTransGen Json.ReadsBack c.data c'.data ∧
        (c.data.IsStable → c'.data = c.data) := by
  induction h with
  | refl => exact ⟨rfl, rfl, .refl, fun _ => rfl⟩
  | tail _ hr ih =>
    obtain ⟨hop, htime, hdata, hsame⟩ := ih
    refine ⟨hop.trans hr.operation, htime.trans hr.timestamp, hdata.tail hr.data, fun hs => ?_⟩
    have hread := hr.data
    rw [hsame hs] at hread
    exact hs _ hread

theorem eq_nil_of_isToldBy_empty {now : Timestamp} {records : List AuditRecord}
    (h : (Document.empty now).IsToldBy records) : records = [] := by
  refine List.eq_nil_iff_forall_not_mem.mpr fun r hr => ?_
  cases he : r.entity with
  | none =>
    have hmem : r ∈ records.filter (·.entity.isNone) :=
      List.mem_filter.mpr ⟨hr, by rw [he]; rfl⟩
    rw [h.batches] at hmem
    cases hmem
  | some id =>
    obtain ⟨told, hrecords, htold⟩ := h.checkpoints id r.step
    have hmem : r ∈ records.filter (·.concerns id r.step) :=
      List.mem_filter.mpr ⟨hr, by simp [AuditRecord.concerns, he]⟩
    obtain rfl := List.forall₂_nil_right_iff.mp htold
    rw [hrecords] at hmem
    cases hmem

/-- After any operation or run of a session, whether it failed or not, nothing waits in the
queue.  What was delivered for batches is the history on disk, and what was delivered for a
step of an entity are its checkpoints on disk, in order, with the data that was delivered, but
for what reading and writing make of data that does not read as itself.  The agreement is
exact as long as every load reads the checkpoints as they are on disk, and no longer. -/
theorem delivered_of_session {m : Emitter σ} {w : σ} (h : L.Session m w) :
    m.queue = [] ∧ (S.text? w = none → L.delivered w = []) ∧
    (∀ t, S.text? w = some t → ∃ d : Document, t = d.text ∧
      (∀ id s, List.Forall₂ (fun (r : AuditRecord) (c : Checkpoint) =>
          r.operation = c.operation ∧ r.timestamp = c.timestamp ∧
            Relation.ReflTransGen Json.ReadsBack r.data c.data ∧
            (r.data.IsStable → c.data = r.data))
        ((L.delivered w).filter (·.concerns id s)) (d.checkpoints id s)) ∧
      (L.delivered w).filter (·.entity.isNone) = d.global.stepHistory.map .ofBatch) ∧
    ∀ (d : Document) m' w', d.IsOn (S.text? w) → d.IsToldExactlyBy (L.delivered w) →
      L.Turn m w m' w' →
        (S.text? w' = S.text? w ∧ L.delivered w' = L.delivered w) ∨
        ∃ (now : Timestamp) (d₁ b : Document), S.store.load now w = .ok d₁ ∧
          S.text? w' = some b.text ∧
          (b.IsToldExactlyBy (L.delivered w') ↔
            ∀ id s, d₁.checkpoints id s = d.checkpoints id s) := by
  obtain ⟨hm, hq, d, hd, htold⟩ := h.told
  refine ⟨hq, fun hnone => ?_, fun t ht => ?_, fun d₀ m' w' hd₀ hexact hturn => ?_⟩
  · rw [hnone] at hd
    obtain ⟨now, rfl⟩ := hd
    exact eq_nil_of_isToldBy_empty htold
  · rw [ht] at hd
    refine ⟨d, hd, fun id s => ?_, htold.batches⟩
    obtain ⟨told, hrecords, hc⟩ := htold.checkpoints id s
    rw [hrecords, List.forall₂_map_left_iff]
    exact hc.imp fun c c' h => rereads_spec h
  · obtain ⟨-, -, hleads⟩ := hturn.leads hm hq
    cases hleads with
    | unsaved text delivered => exact Or.inl ⟨text, delivered⟩
    | @saved now d₁ b new load text delivered announces =>
      refine Or.inr ⟨now, d₁, b, load, text, ?_⟩
      rw [delivered]
      refine Document.isToldExactlyBy_append_iff hexact ?_ announces
      rcases reads_of_load hd₀ load with hr | ⟨now', rfl, rfl⟩
      · rw [hr.global]
      · rfl

end Site.Ledger

/-! ## A session in memory -/

namespace Memory

def ledger : site.Ledger where
  sinks := [fun r w => (.ok (), { w with delivered := w.delivered ++ [r] })]
  delivered := delivered
  delivered_deliver _ _ := rfl
  delivered_save now d w := by
    show (store.save now d w).2.delivered = w.delivered
    dsimp only [store]
    split <;> rfl
  spared _ _ := rfl

def emitter : Emitter Memory := .ofSinks ledger.sinks

def announced : Memory := { blank with saved? := some tracked, delivered := [post.2] }

theorem session_announced : ledger.Session emitter announced := by
  have hperformed := (Site.Ledger.Session.start (L := ledger) (w := blank) rfl rfl).turn
    (.operation (.register "post" .null) (.ofSeconds 0))
  rw [show site.store = store from rfl,
    Operation.perform_register (by decide) load_blank (by decide)] at hperformed
  exact hperformed

/-- Runs with an executor that reports a number for the first step and fails at the next. -/
def metering (n : Number) : RunSetup Memory :=
  { setup with
    executor := fun c w =>
      let outcome : Outcome := match c.step with
        | .ingested => .succeeded (some (.object [("value", .number n)]))
        | _ => .failed "rejected"
      (.returned outcome 0, w) }

/-- How such a run ends, up to the summary in its trace. -/
def metered (n : Number) : RunState Memory :=
  (((RunState.opening (metering n) tracked emitter announced).runSteps (metering n)
    Step.all).2.close (metering n)).2

def measurements (n : Number) : Document := (metered n).world.saved?.getD default

/-- A double that is read as the next greater one. -/
def drifting : Number := .float ⟨false, 5838055938764555, -79⟩

def drifted : Number := .float ⟨false, 5838055938764556, -79⟩

theorem session_metered : ledger.Session (metered drifting).emitter (metered drifting).world := by
  have hran := session_announced.turn
    (.run (metering drifting) rfl ⟨fun _ _ => rfl, fun _ _ => rfl⟩)
  have hsteps : ((RunState.opening (metering drifting) tracked emitter announced).runSteps
      (metering drifting) Step.all).1 = .ok () := by
    decide +kernel
  obtain ⟨hemitter, hworld⟩ := RunSetup.run_of_runSteps (load_tracked rfl) hsteps
  rw [hemitter, hworld] at hran
  exact hran

theorem saved_metered : (metered drifting).world.saved? = some (measurements drifting) := by
  decide +kernel

theorem delivered_of_session_metered :
    ledger.Session (metered drifting).emitter (metered drifting).world ∧
    (metered drifting).emitter.queue = [] ∧
    ∃ d : Document, (measurements drifting).text = d.text ∧
      (metered drifting).world.delivered.filter (·.entity.isNone) =
        d.global.stepHistory.map .ofBatch := by
  obtain ⟨hq, -, htold, -⟩ := Site.Ledger.delivered_of_session session_metered
  obtain ⟨d, hd, -, hbatches⟩ := htold _ (text?_of_saved? saved_metered)
  exact ⟨session_metered, hq, d, hd, hbatches⟩

theorem load_drifting :
    store.load (.ofSeconds 0) (metered drifting).world = .ok (measurements drifted) := by
  refine load_of_ofText saved_metered ?_ (by decide +kernel)
  rw [Document.ofText_text]
  decide +kernel

/-- The data that was delivered with a checkpoint need not be the data on disk. -/
theorem exists_session_not_isToldExactlyBy : ∃ (m : Emitter Memory) (w : Memory) (d : Document),
    ledger.Session m w ∧ w.saved? = some d ∧ ¬ d.IsToldExactlyBy (ledger.delivered w) := by
  have hperformed := session_metered.turn
    (.operation (.register "next" .null) (.ofSeconds 0))
  rw [show site.store = store from rfl,
    Operation.perform_register (by decide) load_drifting (by decide +kernel)] at hperformed
  refine ⟨_, _, ((measurements drifted).insert "next"
    (Entity.registered (.ofSeconds 0) "next" .null).1).stamp (.ofSeconds 0), hperformed, ?_, ?_⟩
  · decide +kernel
  · intro h
    have hc := h.checkpoints "post" .ingested
    revert hc
    decide +kernel

end Memory
end Publishing
