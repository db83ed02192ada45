import Publishing.Proofs.Announcements
import Publishing.Proofs.Moves
import Publishing.Proofs.Nesting

/-
Nothing is deleted, and history is only added to.

A reset forgets attempts and results, a skip reopens records and a batch moves entities through
its calls, but none of them takes away a tracked entity, an error, a checkpoint or a batch of
the history.  This is one statement about each change of an entity, and it goes over to
documents, to operations and to runs however they end.
-/

namespace Publishing

namespace Entity

variable {e e' e'' : Entity} {now : Timestamp}

/-- Whether `e'` is the same entity with nothing taken away from its history. -/
structure GrowsInto (e e' : Entity) : Prop where
  id : e'.id = e.id
  metadata : e'.metadata = e.metadata
  createdAt : e'.createdAt = e.createdAt
  errors : e.errors <+: e'.errors
  checkpoints : ∀ s, (e.step s).checkpoints <+: (e'.step s).checkpoints

theorem GrowsInto.refl (e : Entity) : e.GrowsInto e :=
  ⟨rfl, rfl, rfl, List.prefix_rfl, fun _ => List.prefix_rfl⟩

theorem GrowsInto.trans (h : e.GrowsInto e') (h' : e'.GrowsInto e'') : e.GrowsInto e'' :=
  ⟨h'.id.trans h.id, h'.metadata.trans h.metadata, h'.createdAt.trans h.createdAt,
    h.errors.trans h'.errors, fun s => (h.checkpoints s).trans (h'.checkpoints s)⟩

/-- Settling decides on the current step and the status, and on nothing else. -/
theorem fields_settle (e : Entity) : e.settle.metadata = e.metadata ∧
    e.settle.createdAt = e.createdAt ∧ e.settle.errors = e.errors := by
  unfold settle
  split
  · exact ⟨rfl, rfl, rfl⟩
  · exact ⟨rfl, rfl, rfl⟩

/-- No change takes anything away. -/
theorem Changed.growsInto {c : AttemptChange} {records : List AuditRecord}
    (h : e.Changed now c e' records) : e.GrowsInto e' := by
  have hcheckpoints : ∀ s, (e.step s).checkpoints <+: (e'.step s).checkpoints := by
    intro s
    obtain ⟨new, hnew, -⟩ := h.announces.added s
    exact ⟨new, hnew.symm⟩
  have hid := h.id
  cases h with
  | retried h =>
    obtain ⟨-, data, rfl, -⟩ := retry_eq_ok h
    exact ⟨hid, rfl, rfl, List.prefix_rfl, hcheckpoints⟩
  | reset s =>
    obtain ⟨hmetadata, hcreated, herrors⟩ := fields_settle (e.clearFrom s)
    exact ⟨hid, hmetadata, hcreated, herrors ▸ List.prefix_rfl, hcheckpoints⟩
  | failed => exact ⟨hid, rfl, rfl, List.prefix_append .., hcheckpoints⟩
  | skipped | completed | blocked | marked => exact ⟨hid, rfl, rfl, List.prefix_rfl, hcheckpoints⟩

end Entity

namespace Document

variable {d d' d'' : Document} {now : Timestamp} {id : String} {e e' : Entity}

/-- Whether `d'` holds all that `d` does, with nothing taken away from any history. -/
structure GrowsInto (d d' : Document) : Prop where
  version : d'.version = d.version
  entities : ∀ id e, d.find? id = some e → ∃ e', d'.find? id = some e' ∧ e.GrowsInto e'
  stepHistory : d.global.stepHistory <+: d'.global.stepHistory

theorem GrowsInto.refl (d : Document) : d.GrowsInto d :=
  ⟨rfl, fun _ e he => ⟨e, he, .refl e⟩, List.prefix_rfl⟩

theorem GrowsInto.trans (h : d.GrowsInto d') (h' : d'.GrowsInto d'') : d.GrowsInto d'' where
  version := h'.version.trans h.version
  entities id e he := by
    obtain ⟨e', he', hgrows⟩ := h.entities id e he
    obtain ⟨e'', he'', hgrows'⟩ := h'.entities id e' he'
    exact ⟨e'', he'', hgrows.trans hgrows'⟩
  stepHistory := h.stepHistory.trans h'.stepHistory

theorem growsInto_replace (he : d.find? id = some e) (h : e.GrowsInto e') :
    d.GrowsInto (d.replace id e') := by
  refine ⟨rfl, fun id' v hv => ?_, List.prefix_rfl⟩
  rw [find?_replace]
  split
  · next heq =>
    subst heq
    obtain rfl := Option.some.inj (he.symm.trans hv)
    exact ⟨e', by rw [hv, Option.map_some], h⟩
  · exact ⟨v, hv, .refl v⟩

theorem growsInto_insert (hn : d.find? id = none) (e : Entity) : d.GrowsInto (d.insert id e) := by
  refine ⟨rfl, fun id' v hv => ⟨v, ?_, .refl v⟩, List.prefix_rfl⟩
  rw [find?_insert, if_neg]
  · exact hv
  · rintro rfl
    rw [hn] at hv
    cases hv

theorem Changes.growsInto {L : AttemptChange → Prop} {records : List AuditRecord}
    (h : Changes now L d records d') : d.GrowsInto d' := by
  induction h with
  | done d => exact .refl d
  | change he _ h _ ih => exact (growsInto_replace he h.growsInto).trans ih
  | track hn _ _ ih => exact (growsInto_insert hn _).trans ih

theorem growsInto_setCurrentStep (s : Option Step) (d : Document) :
    d.GrowsInto (d.setCurrentStep s) :=
  ⟨rfl, fun _ e he => ⟨e, he, .refl e⟩, List.prefix_rfl⟩

theorem growsInto_addBatch (b : Batch) (d : Document) : d.GrowsInto (d.addBatch b) :=
  ⟨rfl, fun _ e he => ⟨e, he, .refl e⟩, List.prefix_append ..⟩

theorem growsInto_stamp (now : Timestamp) (d : Document) : d.GrowsInto (d.stamp now) :=
  ⟨rfl, fun _ e he => ⟨e, he, .refl e⟩, List.prefix_rfl⟩

theorem growsInto_empty (now now' : Timestamp) : (empty now).GrowsInto (empty now') := by
  refine ⟨rfl, fun id e he => ?_, List.nil_prefix⟩
  rw [find?_empty] at he
  cases he

theorem MovesTo.growsInto (h : d.MovesTo d') : d.GrowsInto d' := by
  have hmarks : ∀ {now runId s ids d' records calls}, d.Awaits s ids →
      d.markEach now runId s ids = .ok (d', records, calls) →
      d.GrowsInto (d'.setCurrentStep (some s)) := fun hw hm =>
    (changes_markEach (L := fun _ => True) trivial hw hm).growsInto.trans
      (growsInto_setCurrentStep _ _)
  cases h with
  | blocked now => exact (changes_blockStuck (L := fun _ => True) now trivial d).growsInto
  | selected now s hd => exact (changes_select (L := fun _ => True) now trivial s hd).growsInto
  | marked hw hm => exact hmarks hw hm
  | folded _ hw hm hf =>
    exact ((hmarks hw hm).trans (changes_folded hw hm hf).1.growsInto).trans
      (growsInto_addBatch ..)
  | closed => exact growsInto_setCurrentStep none d

/-- Whatever an operation or a run saves, nothing is taken away. -/
theorem MayBecome.growsInto (h : d.MayBecome d') : d.GrowsInto d' := by
  cases h with
  | changed hm => exact hm.changes.growsInto
  | moved h =>
    induction h with
    | refl => exact .refl d
    | tail _ h ih => exact ih.trans h.growsInto

end Document

/-! ## What is read -/

/-- Whether integers are the only numbers in a value. -/
def Json.IsIntegral (v : Json) : Prop := v.EveryNumber fun n => ∃ i, n = .int i

theorem Json.Decoder.yields_isExact {depth : Nat} :
    Decoder.json.Yields depth fun v => v.IsIntegral → v.isExact := by
  intro s t v hs ht h hi
  dsimp only [json] at h
  split at h
  · next hv =>
    obtain rfl := Except.ok.inj h
    exact Tree.isExact_of_toJson? hv (Tree.toJson?_spec ht hv).2 hi
  · cases h

namespace Document

variable {d d' b : Document}

/-- Whether integers are the only numbers in the metadata and in the data of checkpoints. -/
def IsIntegral (d : Document) : Prop :=
  d.Every fun e => e.metadata.IsIntegral ∧
    ∀ s, ∀ c ∈ (e.step s).checkpoints, c.data.IsIntegral

/-- Whether these values read as themselves when they are written. -/
def IsStable (d : Document) : Prop :=
  d.Every fun e => e.metadata.IsStable ∧ ∀ s, ∀ c ∈ (e.step s).checkpoints, c.data.IsStable

/-- Integers that were read are read again as they were. -/
theorem isStable_of_ofText {t : String} (h : ofText t = .ok d) (hi : d.IsIntegral) :
    d.IsStable := by
  have hfits := fits_of_yields (F := fun _ v => v.IsIntegral → v.isExact)
    (fun _ => Json.Decoder.yields_isExact) (fun _ _ => rfl) h
  intro id e he
  obtain ⟨hmetadata, hdata⟩ := hi id e he
  have hentity := hfits.entities id e he
  exact ⟨Json.isStable_of_isExact (hentity.metadata hmetadata), fun s c hc =>
    Json.isStable_of_isExact (((hentity.step s).checkpoints c hc).data (hdata s c hc))⟩

/-- What is read of checkpoints begins with those that read as themselves. -/
theorem prefix_of_readsBack {l l₁ l₂ : List Checkpoint} (h : l <+: l₁)
    (hr : List.Forall₂ Checkpoint.ReadsBack l₁ l₂) (hl : ∀ c ∈ l, c.data.IsStable) : l <+: l₂ := by
  induction l generalizing l₁ l₂ with
  | nil => exact List.nil_prefix
  | cons c rest ih =>
    obtain ⟨more, rfl⟩ := h
    obtain ⟨hc, hrest⟩ := List.forall_mem_cons.mp hl
    cases hr with
    | @cons _ c' _ rest' hread hmore =>
      have hsame : c' = c := by
        cases c
        cases c'
        exact Checkpoint.mk.injEq .. ▸ ⟨hread.operation.symm, hread.timestamp.symm,
          hc _ hread.data⟩
      exact List.cons_prefix_cons.mpr ⟨hsame.symm, ih (List.prefix_append ..) hmore hrest⟩

theorem GrowsInto.reads (h : d.GrowsInto b) (hr : b.ReadsBack d') (hd : d.IsStable) :
    d.GrowsInto d' where
  version := hr.version.symm.trans h.version
  entities id e he := by
    obtain ⟨e₁, he₁, hgrows⟩ := h.entities id e he
    obtain ⟨e', he', hread⟩ := hr.related.right he₁
    obtain ⟨hmetadata, hdata⟩ := hd id e he
    refine ⟨e', he', ?_⟩
    have hread₁ := hread.metadata
    rw [hgrows.metadata] at hread₁
    exact ⟨hread.id.symm.trans hgrows.id, hmetadata _ hread₁,
      hread.createdAt.symm.trans hgrows.createdAt, hread.errors ▸ hgrows.errors,
      fun s => prefix_of_readsBack (hgrows.checkpoints s) (hread.step s).checkpoints (hdata s)⟩
  stepHistory := hr.global ▸ h.stepHistory

end Document

namespace Site

variable {σ : Type} {S : Site σ} {w w' : σ} {now now' : Timestamp} {d d' : Document}

/-- Two loads from one text agree. -/
theorem growsInto_of_loads (h : S.store.load now w = .ok d) (h' : S.store.load now' w = .ok d') :
    d.GrowsInto d' := by
  rcases S.load_ok h with ⟨hw, rfl⟩ | ⟨t, hw, ht, -⟩
  · rcases S.load_ok h' with ⟨-, rfl⟩ | ⟨t, hw', -, -⟩
    · exact Document.growsInto_empty now now'
    · rw [hw] at hw'
      cases hw'
  · rcases S.load_ok h' with ⟨hw', -⟩ | ⟨t', hw', ht', -⟩
    · rw [hw] at hw'
      cases hw'
    · obtain rfl := Option.some.inj (hw.symm.trans hw')
      obtain rfl := Except.ok.inj (ht.symm.trans ht')
      exact .refl d

theorem isStable_of_load (h : S.store.load now w = .ok d) (hi : d.IsIntegral) : d.IsStable := by
  rcases S.load_ok h with ⟨-, rfl⟩ | ⟨t, -, ht, -⟩
  · intro id e he
    rw [Document.find?_empty] at he
    cases he
  · exact Document.isStable_of_ofText ht hi

/-- Whatever an operation or a run does, and wherever the run ends or is cut off, the text on
disk stays as it was or is that of a document which has all that was loaded: every entity with
its id, its metadata and the time of its creation, and the errors, checkpoints and batches at
the beginning of those that are there then.  With integers as its only numbers, what was
loaded is also all there when the text is read again. -/
theorem growsInto_of_turn (h : S.Turn w w') (hl : S.store.load now w = .ok d) :
    (S.text? w' = S.text? w ∨ ∃ b : Document, S.text? w' = some b.text ∧ d.GrowsInto b) ∧
    (d.IsIntegral → ∀ t d', S.text? w' = some t → Document.ofText t = .ok d' →
      d.GrowsInto d') := by
  have hwrites := h.writes
  generalize S.text? w' = after at hwrites ⊢
  cases hwrites with
  | nothing =>
    refine ⟨.inl rfl, fun _ t d' ht hd' => ?_⟩
    rcases S.load_ok hl with ⟨hw, -⟩ | ⟨t', hw, hd, -⟩
    · rw [hw] at ht
      cases ht
    · obtain rfl := Option.some.inj (hw.symm.trans ht)
      obtain rfl := Except.ok.inj (hd.symm.trans hd')
      exact .refl d
  | @document now' time d₁ b load becomes =>
    have hgrows : d.GrowsInto (b.stamp time) :=
      ((growsInto_of_loads hl load).trans becomes.growsInto).trans (Document.growsInto_stamp ..)
    refine ⟨.inr ⟨_, rfl, hgrows⟩, fun hi t d' ht hd' => ?_⟩
    obtain rfl := Option.some.inj ht
    exact hgrows.reads (Document.readsBack_of_ofText hd') (isStable_of_load hl hi)

theorem isIntegral_tracked : Memory.tracked.IsIntegral := by
  have hdraft : ∀ s, ((Entity.draft (.ofSeconds 0) "post" .null).step s).checkpoints = [] := by
    intro s
    cases s <;> rfl
  intro id e he
  rw [Memory.tracked, Document.find?_insert] at he
  split at he
  · obtain rfl := Option.some.inj he
    refine ⟨trivial, fun s c hc => ?_⟩
    rw [Memory.post, Entity.registered, Entity.step_emit] at hc
    split at hc
    · rw [StepRecord.note, hdraft] at hc
      obtain rfl := List.mem_singleton.mp hc
      exact trivial
    · rw [hdraft] at hc
      cases hc
  · rw [Document.find?_empty] at he
    cases he

/-- A run takes an entity through all steps. -/
theorem growsInto_of_turn_memory : ∃ (w' : Memory) (t : String),
    Memory.site.Turn Memory.registered w' ∧
    Memory.site.store.load (.ofSeconds 0) Memory.registered = .ok Memory.tracked ∧
    w'.saved?.map (·.global.stepHistory.length) = some 5 ∧ Memory.site.text? w' = some t ∧
    ∀ d', Document.ofText t = .ok d' → Memory.tracked.GrowsInto d' := by
  have hstore : Memory.site.store = Memory.store := rfl
  have hload : Memory.site.store.load (.ofSeconds 0) Memory.registered = .ok Memory.tracked := by
    rw [hstore]
    exact Memory.load_tracked rfl
  have hturn : Memory.site.Turn Memory.registered
      (Memory.setup.run (.ofSinks []) Memory.registered).world :=
    .run rfl (fun _ _ => rfl) fun _ _ => rfl
  have hbatches : (Memory.setup.run (.ofSinks []) Memory.registered).world.saved?.map
      (·.global.stepHistory.length) = some 5 := by
    rw [RunSetup.run, Memory.setup_store, Memory.setup_clock, ← hstore, hload]
    decide +kernel
  obtain ⟨b, hb, -⟩ := Option.map_eq_some_iff.mp hbatches
  have htext := Memory.text?_of_saved? hb
  have hgrows := (growsInto_of_turn hturn hload).2 isIntegral_tracked
  exact ⟨_, b.text, hturn, hload, hbatches, htext, fun d' => hgrows _ d' htext⟩

end Site
end Publishing
