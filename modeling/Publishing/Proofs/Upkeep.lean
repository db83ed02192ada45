import Publishing.Proofs.Contents
import Publishing.Proofs.Histories

/-
What operations and runs keep of what is in a document.

Whatever an operation or a run saves fits, if the document that it has loaded does, and what
comes in from outside: the metadata that an operation brings, the instants that the clock shows,
the durations and the metrics that an executor gives.  A batch counts entities, so there must
not be more of them than counts can hold.
-/

namespace Publishing

variable {M D P : Json → Prop}

namespace Document

variable {d : Document} {now : Timestamp}

theorem Fits.mapEntities (h : d.Fits M D) {f : String → Entity → Entity}
    (hf : ∀ id e, d.find? id = some e → e.Fits M D → (f id e).Fits M D) :
    (d.mapEntities f).Fits M D :=
  ⟨h.lastUpdated, h.entities.mapEntities hf, h.batches⟩

theorem Fits.insert (h : d.Fits M D) (id : String) {e : Entity} (he : e.Fits M D) :
    (d.insert id e).Fits M D :=
  ⟨h.lastUpdated, Every.insert h.entities he, h.batches⟩

theorem Fits.stamp (h : d.Fits M D) (hnow : now.InRange) : (d.stamp now).Fits M D :=
  ⟨hnow, h.entities, h.batches⟩

theorem Fits.setCurrentStep (h : d.Fits M D) (s : Option Step) : (d.setCurrentStep s).Fits M D :=
  ⟨h.lastUpdated, h.entities, h.batches⟩

theorem Fits.addBatch (h : d.Fits M D) {b : Batch} (hb : b.Fits) : (d.addBatch b).Fits M D :=
  ⟨h.lastUpdated, h.entities, fun b' hb' => (List.mem_append.mp hb').elim (h.batches b')
    fun hm => (List.mem_singleton.mp hm) ▸ hb⟩

theorem fits_empty (hnow : now.InRange) : (empty now).Fits M D := by
  refine ⟨hnow, fun id e he => ?_, List.forall_mem_nil _⟩
  rw [find?_empty] at he
  cases he

end Document

/-! ## Operations -/

/-- Whether `M` holds of all metadata that an operation brings. -/
def Operation.Admits (M : Json → Prop) : Operation → Prop
  | register _ metadata => M metadata
  | migrate items => ∀ item ∈ items, M item.metadata
  | _ => True

namespace Document

variable {d : Document} {now : Timestamp}

theorem forceComplete_eq_ok {id : String} {c : Change} (h : d.forceComplete now id = .ok c) :
    ∃ e s, d.find? id = some e ∧ c.document = d.replace id
      ((e.completeStep now s (e.elapsed now s)).emit now s OperationName.forceCompleted
        (.object [("durationMs", .nat (e.elapsed now s))])).1 := by
  obtain ⟨e, he, h⟩ := bind_eq_ok.mp h
  obtain ⟨s, -, h⟩ := bind_eq_ok.mp h
  obtain rfl := Except.ok.inj h
  exact ⟨e, s, get_eq_ok.mp he, rfl⟩

theorem forceFail_eq_ok {id reason : String} {c : Change}
    (h : d.forceFail now id reason = .ok c) :
    ∃ e s, d.find? id = some e ∧ c.document = d.replace id
      ((e.failStep now s reason (e.elapsed now s)).emit now s OperationName.forceFailed
        (.ofMembers [("reason", .string reason), ("attempt", .nat (e.step s).attempts)])).1 := by
  obtain ⟨e, he, h⟩ := bind_eq_ok.mp h
  obtain ⟨s, -, h⟩ := bind_eq_ok.mp h
  obtain rfl := Except.ok.inj h
  exact ⟨e, s, get_eq_ok.mp he, rfl⟩

theorem every_retryEach (hD : ∀ v, v.IsNote P → D v) (hnow : now.InRange) (s : Step)
    (ids : List String) (h : d.Every (Entity.Fits M D)) :
    (retryEach now s ids d).1.Every (Entity.Fits M D) := by
  induction ids generalizing d with
  | nil => exact h
  | cons id rest ih =>
    rw [retryEach]
    cases hr : d.retry now id s with
    | error e => exact ih h
    | ok p =>
      have hp : d.retry now id s = .ok (p.1, p.2) := hr
      obtain ⟨e, e', he, hret, hd⟩ := retry_eq_ok hp
      refine ih (d := p.1) ?_
      rw [hd]
      exact h.replace ((h id e he).retry hD hnow hret)

theorem every_insertFinalized (hD : ∀ v, v.IsNote P → D v) (hnow : now.InRange)
    {items : List ContentItem} (hm : ∀ item ∈ items, M item.metadata)
    (h : d.Every (Entity.Fits M D)) :
    (d.insertFinalized now items).document.Every (Entity.Fits M D) := by
  induction items generalizing d with
  | nil => exact h
  | cons item rest ih =>
    obtain ⟨hitem, hrest⟩ := List.forall_mem_cons.mp hm
    rw [insertFinalized]
    split
    · exact ih hrest h
    · exact ih hrest (h.insert ((Entity.fits_finalized hnow item.id hitem).emit hnow _ _
        (hD _ (Or.inl rfl))))

/-- A change that an operation makes leaves what fits, if what the operation brings does. -/
theorem every_change (hD : ∀ v, v.IsNote P → D v) (hnow : now.InRange)
    (h : d.Every (Entity.Fits M D)) {op : Operation} (hop : op.Admits M)
    {f : Timestamp → Document → Except Error Change} (hp : op.prepare = .ok f) {c : Change}
    (hc : f now d = .ok c) : c.document.Every (Entity.Fits M D) := by
  cases Operation.makes hp hc with
  | retryOne hs he hr => exact h.replace ((h _ _ he).retry hD hnow hr)
  | retryAll hs => exact every_retryEach hD hnow _ _ h
  | skipOne hs he hcheck => exact h.replace ((h _ _ he).skipTo hD hnow _)
  | skipAll hs hall =>
    obtain rfl := Except.ok.inj hall
    refine h.mapEntities fun id e _ hf => ?_
    unfold Entity.skipVerdict
    split
    · exact hf
    · split
      · exact hf
      · exact hf.skipTo hD hnow _
  | reset hs regex =>
    refine h.mapEntities fun id e _ hf => ?_
    dsimp only
    split
    · rcases e.resetVerdict_cases now _ with ⟨-, he, -⟩ | ⟨hv, -, -⟩
      · rw [he]
        exact hf
      · rw [hv]
        exact hf.reset hD hnow _
    · exact hf
  | complete he hs data =>
    obtain rfl := Except.ok.inj hp
    obtain ⟨e, s, he, hdoc⟩ := forceComplete_eq_ok hc
    have hf := h _ _ he
    rw [hdoc]
    refine h.replace ((hf.completeStep hnow s (hf.elapsed_lt hnow s)).emit hnow s _ ?_)
    exact hD _ (Json.isNote_singleton _ (Json.isScalar_nat (hf.elapsed_lt hnow s)))
  | fail he hs data =>
    obtain rfl := Except.ok.inj hp
    obtain ⟨e, s, he, hdoc⟩ := forceFail_eq_ok hc
    have hf := h _ _ he
    rw [hdoc]
    refine h.replace ((hf.failStep hnow s _ (hf.elapsed_lt hnow s)).emit hnow s _
      (hD _ (Json.isNote_ofMembers ?_)))
    simp only [List.forall_mem_cons]
    exact ⟨Or.inl trivial, Or.inl (hf.isScalar_attempts s), List.forall_mem_nil _⟩
  | register hnew ha =>
    subst ha
    exact h.insert ((Entity.fits_draft hnow _ hop).emit hnow _ _ (hD _ (Or.inl rfl)))
  | migrate items => exact every_insertFinalized hD hnow hop h

theorem Fits.change (hD : ∀ v, v.IsNote P → D v) (hnow : now.InRange) (h : d.Fits M D)
    {op : Operation} (hop : op.Admits M) {f : Timestamp → Document → Except Error Change}
    (hp : op.prepare = .ok f) {c : Change} (hc : f now d = .ok c) : c.document.Fits M D := by
  have hchanges := (Operation.makes hp hc).changes
  refine ⟨?_, every_change hD hnow h.entities hop hp hc, ?_⟩
  · rw [hchanges.lastUpdated]
    exact h.lastUpdated
  · rw [hchanges.global]
    exact h.batches

end Document

/-- What an operation that leaves the world changed has loaded, changed and saved. -/
theorem Operation.perform_cases {σ : Type} (op : Operation) (store : Store σ) (now : Timestamp)
    (m : Emitter σ) (w : σ) :
    (∃ e, op.perform store now m w = (.error e, m, w)) ∨
      ∃ d f c, store.load now w = .ok d ∧ op.prepare = .ok f ∧ f now d = .ok c ∧
        op.perform store now m w = c.commit store now m w := by
  rw [Operation.perform]
  cases hx : (do let change ← op.prepare; change now (← store.load now w) :
      Except Error Change) with
  | error e => exact Or.inl ⟨e, rfl⟩
  | ok c =>
    obtain ⟨f, hp, hx'⟩ := bind_eq_ok.mp hx
    obtain ⟨d, hl, hc⟩ := bind_eq_ok.mp hx'
    exact Or.inr ⟨d, f, c, hl, hp, hc, rfl⟩

/-! ## Runs -/

/-- Whether the clock shows instants that can be written, and all that the executor gives can
be entered. -/
structure RunSetup.Fits {σ : Type} (P : Json → Prop) (r : RunSetup σ) : Prop where
  clock : ∀ w, (r.clock w).InRange
  endings : r.executor.Gives fun _ x => x.Fits P

/-- A document that fits and does not have too many entities to be counted. -/
structure Document.IsCountable (M D : Json → Prop) (d : Document) : Prop where
  fits : d.Fits M D
  size : d.entities.size < 2 ^ 64

namespace Document

variable {d : Document} {now : Timestamp} {s : Step} {ids : List String}

theorem size_mapEntities (f : String → Entity → Entity) (d : Document) :
    (d.mapEntities f).entities.size = d.entities.size :=
  List.length_map ..

theorem IsCountable.mapEntities (h : d.IsCountable M D) {f : String → Entity → Entity}
    (hf : ∀ id e, d.find? id = some e → e.Fits M D → (f id e).Fits M D) :
    (d.mapEntities f).IsCountable M D :=
  ⟨h.fits.mapEntities hf, (size_mapEntities f d).symm ▸ h.size⟩

/-- A batch has no more entities than the document. -/
theorem Awaits.length_le (h : d.Awaits s ids) : ids.length ≤ d.entities.size := by
  have hkeys : ids ⊆ d.entities.keys := by
    intro id hid
    obtain ⟨e, he, -⟩ := h.waiting id hid
    exact List.mem_map_of_mem (f := Prod.fst) (Keyed.find?_eq_some_iff.mp he)
  have := h.nodup.length_le_of_subset hkeys
  rwa [Keyed.keys, List.length_map] at this

theorem IsCountable.withMarks (hD : ∀ v, v.IsNote P → D v) (h : d.IsCountable M D)
    (hnow : now.InRange) (runId : RunId) (s : Step) (ids : List String) :
    (d.withMarks now runId s ids).IsCountable M D := by
  have hm : (d.mapEntities (marked now runId s ids)).IsCountable M D := by
    refine h.mapEntities fun id e _ hf => ?_
    rw [marked]
    split
    · exact hf.mark hD hnow runId s
    · exact hf
  exact ⟨hm.fits.setCurrentStep _, hm.size⟩

theorem IsCountable.withOutcomes (hD : ∀ v, v.IsNote P → D v) (h : d.IsCountable M D)
    (hnow : now.InRange) {ending : String → Ending}
    (hx : ∀ id ∈ ids, ∀ e, d.find? id = some e → (ending id).Fits P) {batch : Batch}
    (hb : batch.Fits) : (d.withOutcomes now s ending ids batch).IsCountable M D := by
  have hm : (d.mapEntities (folded now s ending ids)).IsCountable M D := by
    refine h.mapEntities fun id e he hf => ?_
    rw [folded]
    split
    · next hid => exact hf.fold hD hnow s (hx id hid e he)
    · exact hf
  exact ⟨hm.fits.addBatch hb, hm.size⟩

end Document

namespace RunState

variable {σ : Type} {r : RunSetup σ} {s : Step} {ids : List String} {st st' : RunState σ}

/-- What a run keeps: its document fits, and so do all that it has handed to the store. -/
structure Fits (M D : Json → Prop) (st : RunState σ) : Prop where
  document : st.document.IsCountable M D
  saved : ∀ d ∈ RunEvent.savings st.trace, d.IsCountable M D

theorem fits_batch (hr : r.Fits P) {ids : List String} (hids : ids.length < 2 ^ 64)
    (start : σ) {tally : Document.Tally} (ht : tally.results.length = ids.length) :
    (st.batch r s (r.clock start) ids tally).Fits where
  timestamp := hr.clock _
  processed := hids
  succeeded := Nat.lt_of_le_of_lt List.countP_le_length (ht ▸ hids)
  failed := Nat.lt_of_le_of_lt List.countP_le_length (ht ▸ hids)
  durationMs := Timestamp.millisSince_lt (hr.clock _) (hr.clock _)

theorem fits_opening (hD : ∀ v, v.IsNote P → D v) (hr : r.Fits P) {d : Document}
    (hd : d.IsCountable M D) (m : Emitter σ) (w : σ) : (opening r d m w).Fits M D :=
  ⟨hd.mapEntities fun _ _ _ hfits => hfits.blockStuck hD (hr.clock w), nofun⟩

theorem Fits.choose (hD : ∀ v, v.IsNote P → D v) (hr : r.Fits P) (h : st.Fits M D)
    (hf : st.document.IsFiled) (s : Step) : (st.choose r s).Fits M D := by
  refine ⟨?_, h.saved⟩
  show (st.document.select (r.clock st.world) s).document.IsCountable M D
  rw [Document.document_select _ s hf]
  refine h.document.mapEntities fun id e _ hfits => ?_
  rw [Document.selected]
  split
  · exact hfits.exhaust hD (hr.clock _) s
  · exact hfits

/-- The document that a batch leaves, once it is entered, is countable like the one before. -/
theorem Round.isCountable {st₁ st₂ st₃ : RunState σ} {d : Document} {records : List AuditRecord}
    {calls : List Call} {ending : String → Ending} {tally : Document.Tally}
    {res : Except Halt Unit} (hround : Round r s ids st d records calls st₁ ending st₂ tally)
    (hD : ∀ v, v.IsNote P → D v) (hr : r.Fits P) (h : st.document.IsCountable M D)
    (hs : (st₂.enter r s (r.clock st.world) ids tally).save r = (res, st₃)) :
    st₃.document.IsCountable M D := by
  have hw := hround.awaits
  have hgive := gives_execute hr.endings hw.nodup hw.contains hround.marked hround.execute
  have hends : ∀ id ∈ ids, (ending id).Fits P := by
    intro id hid
    obtain ⟨e, he, -⟩ := hw.waiting id hid
    exact hgive id hid e he
  have hresults : tally.results.length = ids.length := by
    rw [(hround.foldEach (st₂.batch r s (r.clock st.world) ids tally)).2, List.length_map]
  have hlen : ids.length < 2 ^ 64 := Nat.lt_of_le_of_lt hw.length_le h.size
  rw [hround.document_save hs]
  exact (h.withMarks hD (hr.clock _) r.runId s ids).withOutcomes hD (hr.clock _)
    (fun id hid _ _ => hends id hid) (fits_batch hr hlen _ hresults)

theorem Fits.batch (hD : ∀ v, v.IsNote P → D v) (hr : r.Fits P) (h : st.Fits M D)
    (hw : st.document.Awaits s ids) {res : Except Halt Unit} (hb : BatchRun r s ids st res st') :
    st'.Fits M D := by
  have hm : (st.marked r s ids).IsCountable M D :=
    h.document.withMarks hD (hr.clock _) r.runId s ids
  have hdoc : st'.document.IsCountable M D := by
    cases hb with
    | unmarked hmark hs => exact (save_mark hw hmark hs).1 ▸ hm
    | overfull hmark hs => exact (save_mark hw hmark hs).1 ▸ hm
    | unfolded hmark hs hx hf hs₂ =>
      exact Round.isCountable ⟨hw, hmark, hs, hx, hf⟩ hD hr h.document hs₂
    | folded hmark hs hx hf hs₂ =>
      have := Round.isCountable ⟨hw, hmark, hs, hx, hf⟩ hD hr h.document hs₂
      exact this
  refine ⟨hdoc, fun d hd => ?_⟩
  rcases (hb.outline hw).mem_savings hd with hd | rfl | rfl
  · exact h.saved d hd
  · exact hm
  · exact hdoc

end RunState

/-- A run over a document that fits saves nothing but such documents. -/
theorem RunSetup.isCountable_savings {σ : Type} {r : RunSetup σ} (hD : ∀ v, v.IsNote P → D v)
    (hr : r.Fits P) (m : Emitter σ) (w : σ) {d : Document}
    (hl : r.store.load (r.clock w) w = .ok d) (hf : d.IsFiled) (hd : d.IsCountable M D) :
    ∀ d ∈ RunEvent.savings (r.run m w).trace, d.IsCountable M D := by
  obtain ⟨st, h, hends⟩ := r.trace_run_batchRun m w hl hf (RunState.fits_opening hD hr hd m w)
    (fun s st hf h => h.choose hD hr hf s) fun s ids st res st' h hw hb => h.batch hD hr hw hb
  intro d' hd'
  rcases hends.mem_savings hd' with hd' | rfl
  · exact h.saved d' hd'
  · exact ⟨h.document.fits.setCurrentStep none, h.document.size⟩

end Publishing
