import Publishing.Proofs.Histories

/-
Whatever happens, no entity on disk is in a state that it cannot have got into.
-/

namespace Publishing

namespace Document

variable {d : Document} {s : Step} {ids : List String}

theorem every_isSound_of_related {d' : Document} (h : d.Related Entity.SameProgress d')
    (hd : d.Every Entity.IsSound) : d'.Every Entity.IsSound := by
  intro id e he
  obtain ⟨e₀, he₀, hs⟩ := h.left he
  exact (hd id e₀ he₀).congr hs

theorem every_isSound_withMarks (now : Timestamp) (runId : RunId) (hw : d.Awaits s ids)
    (hd : d.Every Entity.IsSound) : (d.withMarks now runId s ids).Every Entity.IsSound := by
  refine hd.mapEntities fun id e he hs => ?_
  rw [marked]
  split
  · next hid =>
    obtain ⟨e', he', hp, hl⟩ := hw.waiting id hid
    obtain rfl := Option.some.inj (he.symm.trans he')
    exact hs.changed (.marked s hp hl runId)
  · exact hs

theorem every_isSound_withOutcomes (now now' : Timestamp) (runId : RunId)
    (ending : String → Ending) (batch : Batch) (hw : d.Awaits s ids)
    (hd : d.Every Entity.IsSound) :
    ((d.withMarks now runId s ids).withOutcomes now' s ending ids batch).Every
      Entity.IsSound := by
  refine (every_isSound_withMarks now runId hw hd).mapEntities fun id e he hs => ?_
  rw [folded]
  split
  · next hid =>
    have hrun := running_withMarks now runId hw id hid e he
    exact hs.changed (Entity.changed_fold hrun ..)
  · exact hs

end Document

namespace RunState

variable {σ : Type}

/-- The document of a run is sound, and so are all that it has saved. -/
structure IsSound (st : RunState σ) : Prop where
  document : st.document.Every Entity.IsSound
  saved : ∀ d ∈ RunEvent.savings st.trace, d.Every Entity.IsSound

theorem IsSound.choose {st : RunState σ} (h : st.IsSound) (hf : st.document.IsFiled)
    (r : RunSetup σ) (s : Step) : (st.choose r s).IsSound :=
  ⟨(Document.changes_select (L := fun _ => True) (r.clock st.world) trivial s hf).isSound
    h.document, h.saved⟩

theorem IsSound.batch {r : RunSetup σ} {s : Step} {ids : List String} {st st' : RunState σ}
    (h : st.IsSound) (hw : st.document.Awaits s ids) (ho : Outline r s ids st st') :
    st'.IsSound := by
  have hm : (st.marked r s ids).Every Entity.IsSound :=
    Document.every_isSound_withMarks _ _ hw h.document
  have hdoc : st'.document.Every Entity.IsSound := by
    cases ho with
    | marked hdoc _ => exact hdoc ▸ hm
    | folded _ _ _ _ _ _ _ _ _ _ _ hdoc _ =>
      exact hdoc ▸ Document.every_isSound_withOutcomes _ _ _ _ _ hw h.document
  refine ⟨hdoc, fun d hd => ?_⟩
  rcases ho.mem_savings hd with hd | rfl | rfl
  · exact h.saved d hd
  · exact hm
  · exact hdoc

end RunState

/-- A run over a sound document saves nothing but sound documents. -/
theorem RunSetup.isSound_savings {σ : Type} (r : RunSetup σ) (m : Emitter σ) (w : σ) {d : Document}
    (hl : r.store.load (r.clock w) w = .ok d) (hf : d.IsFiled) (hd : d.Every Entity.IsSound) :
    ∀ d ∈ RunEvent.savings (r.run m w).trace, d.Every Entity.IsSound := by
  have hopen : (RunState.opening r d m w).IsSound :=
    ⟨(Document.changes_blockStuck (L := fun _ => True) (r.clock w) trivial d).isSound hd, nofun⟩
  obtain ⟨st, h, hends⟩ := r.trace_run m w hl hf hopen (fun s st hf h => h.choose hf r s)
    fun s ids st st' h hw ho => h.batch hw ho
  intro d' hd'
  rcases hends.mem_savings hd' with hd' | rfl
  · exact h.saved d' hd'
  · exact h.document

namespace Site

variable {σ : Type}

theorem isKept_isSound (S : Site σ) : S.IsKept fun _ d => d.Every Entity.IsSound where
  empty now id e he := by
    rw [Document.find?_empty] at he
    cases he
  same hs hd := Document.every_isSound_of_related hs hd
  unchanged _ _ _ hd := hd
  changed hf hm hd := hm.changes.isSound hd
  unloaded hd := hd
  run := by
    intro h d r m w seen rest hl hf ht hd
    cases hs : RunEvent.lastSaved seen with
    | none => exact hd
    | some d' =>
      refine r.isSound_savings m w hl hf hd d' ?_
      rw [ht, RunEvent.savings_append]
      exact List.mem_append_left _ (List.mem_of_getLast? hs)

/-- After any history, all steps of an entity on disk are done, or there is one step that the
entity stands at, with the earlier ones done and the later ones pending; its current step, its
attempts and its status agree with that. -/
theorem isSound_of_history (S : Site σ) {h : List Episode} {t : String}
    (hh : S.History h (some t)) :
    (∃ d : Document, t = d.text ∧ d.Every fun e => e.IsSound ∧
        (e.status = .completed ↔ ∀ s, (e.step s).status.isDone)) ∧
      ∀ d, Document.ofText t = .ok d → d.Every fun e => e.IsSound ∧
        (e.status = .completed ↔ ∀ s, (e.step s).status.isDone) := by
  obtain ⟨d, rfl, hd⟩ := S.isKept_isSound.history hh
  have hall : ∀ {d : Document}, d.Every Entity.IsSound → d.Every fun e => e.IsSound ∧
      (e.status = .completed ↔ ∀ s, (e.step s).status.isDone) :=
    fun hd id e he => ⟨hd id e he, (hd id e he).completed_iff⟩
  refine ⟨⟨d, rfl, hall hd⟩, fun d' hd' => hall ?_⟩
  exact Document.every_isSound_of_related (Document.readsBack_of_ofText hd').sameProgress hd

theorem isSound_of_history_memory : ∃ t, Memory.site.History
      [.operation (.register "post" .null) (.ok ⟨"post registered", ["post"], []⟩),
        .run (Step.all.map fun s => ⟨"post", .null, s⟩)] (some t) ∧
    (∃ d : Document, t = d.text ∧ d.Every fun e => e.IsSound ∧
        (e.status = .completed ↔ ∀ s, (e.step s).status.isDone)) ∧
      ∀ d, Document.ofText t = .ok d → d.Every fun e => e.IsSound ∧
        (e.status = .completed ↔ ∀ s, (e.step s).status.isDone) := by
  obtain ⟨t, ht⟩ := Memory.history_run
  exact ⟨t, ht, isSound_of_history Memory.site ht⟩

end Site
end Publishing
