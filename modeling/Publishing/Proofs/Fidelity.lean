import Publishing.Proofs.Upkeep

/-
When a saved document loads back.

A check asks only for what survives writing and reading, so whether a saved document loads is
up to whether it fits.  A document without doubles loads as itself.
-/

namespace Publishing

/-! ## Checks -/

namespace Entity

variable {e e' : Entity}

theorem scanSteps_congr (h : SameProgress e e') (opened : Bool) (l : List Step) :
    e'.scanSteps opened l = e.scanSteps opened l := by
  induction l generalizing opened with
  | nil => rfl
  | cons s rest ih => simp only [scanSteps, h.id, h.stepStatus, h.attempts, ih]

theorem check_congr (h : SameProgress e e') : e'.check = e.check := by
  have hcount : e'.runningCount = e.runningCount := by
    simp only [runningCount, h.stepStatus]
  have hfrontier : e'.frontier = e.frontier := by
    simp only [frontier, firstOpenStep?, h.stepStatus]
  simp only [check, scanSteps_congr h, hcount, hfrontier, h.id, h.currentStep]

end Entity

namespace Document

theorem checkEntries_congr {l l' : List (String × Entity)}
    (h : List.Forall₂ (fun a b => a.1 = b.1 ∧ Entity.SameProgress a.2 b.2) l l') :
    checkEntries l' = checkEntries l := by
  induction h with
  | nil => rfl
  | @cons a b rest rest' hab _ ih =>
    obtain ⟨key, e⟩ := a
    obtain ⟨key', e'⟩ := b
    obtain ⟨rfl, he⟩ := hab
    have hid : e'.id = e.id := he.id
    simp only [checkEntries, hid, Entity.check_congr he, ih]

/-- A document that is written and read passes the check as before. -/
theorem check_congr {d d' : Document} (h : d.ReadsBack d') : d'.check = d.check := by
  have hentries := h.entities.imp fun _ _ hab => And.intro hab.1 hab.2.sameProgress
  simp only [check, ← h.version, checkEntries_congr hentries]

theorem check_empty (now : Timestamp) : (empty now).check = .ok () := by
  have hversion : isVersion currentVersion := by decide +kernel
  rw [check, if_neg (by rw [empty, hversion]; decide)]
  rfl

theorem check_stamp (now : Timestamp) (d : Document) : (d.stamp now).check = d.check := rfl

end Document

/-! ## Documents without doubles -/

theorem Checkpoint.ReadsBack.eq {c c' : Checkpoint} (h : c.ReadsBack c')
    (hc : c.Fits (·.isExact)) : c' = c :=
  h.eq_of_data (h.data.eq_of_isExact hc.data)

theorem StepRecord.ReadsBack.eq {r r' : StepRecord} (h : r.ReadsBack r')
    (hr : r.Fits (·.isExact)) : r' = r := by
  have hcheckpoints : r'.checkpoints = r.checkpoints := by
    have hall := hr.checkpoints
    have hread := h.checkpoints
    generalize r.checkpoints = l at hall hread ⊢
    generalize r'.checkpoints = l' at hread ⊢
    induction hread with
    | nil => rfl
    | cons hab _ ih =>
      obtain ⟨ha, hrest⟩ := List.forall_mem_cons.mp hall
      rw [hab.eq ha, ih hrest]
  exact h.eq_of_checkpoints hcheckpoints

theorem Entity.ReadsBack.eq {e e' : Entity} (h : e.ReadsBack e')
    (he : e.Fits (·.isExact) (·.isExact)) : e' = e := by
  have hsteps : e'.steps = e.steps := StepTable.ext_get fun s => (h.step s).eq (he.step s)
  have hmeta : e'.metadata = e.metadata := h.metadata.eq_of_isExact he.metadata
  cases e
  cases e'
  exact Entity.mk.injEq .. ▸ ⟨h.id.symm, h.status.symm, h.currentStep.symm, hsteps, hmeta,
    h.errors.symm, h.createdAt.symm, h.updatedAt.symm⟩

/-- Without doubles a document reads as itself. -/
theorem Document.ReadsBack.eq {d d' : Document} (h : d.ReadsBack d')
    (hd : d.Fits (·.isExact) (·.isExact)) : d' = d := by
  have hentries : d'.entities = d.entities := by
    apply Keyed.ext
    have hread := h.entities
    have hall : ∀ p ∈ d.entities.entries, p.2.Fits (·.isExact) (·.isExact) :=
      fun p hp => hd.entities p.1 p.2 (Keyed.find?_eq_some_iff.mpr hp)
    generalize d.entities.entries = l at hall hread ⊢
    generalize d'.entities.entries = l' at hread ⊢
    induction hread with
    | nil => rfl
    | @cons a b _ _ hab _ ih =>
      obtain ⟨ha, hrest⟩ := List.forall_mem_cons.mp hall
      rw [show b = a from Prod.ext hab.1.symm (hab.2.eq ha), ih hrest]
  cases d
  cases d'
  exact Document.mk.injEq .. ▸ ⟨h.version.symm, h.lastUpdated.symm, hentries, h.global.symm⟩

/-! ## Stores that can be relied on -/

/-- A store that loads whatever is there and can be read, and saves nothing that it would not
load for the sake of the check. -/
structure Site.IsFaithful {σ : Type} (S : Site σ) : Prop where
  load_none {now : Timestamp} {w : σ} (h : S.text? w = none) :
    S.store.load now w = .ok (.empty now)
  load_some {now : Timestamp} {w : σ} {t : String} {d : Document} (h : S.text? w = some t)
    (hd : Document.ofText t = .ok d) (hc : d.check = .ok ()) : S.store.load now w = .ok d
  check_of_save {now : Timestamp} {d : Document} {w w' : σ}
    (h : S.store.save now d w = (.ok (), w')) : d.check = .ok ()

/-- Whether the text on disk, if there is one, is that of a document that can be loaded. -/
def Document.IsLoadable : Option String → Prop
  | none => True
  | some t => ∃ d, Document.ofText t = .ok d ∧ d.check = .ok ()

namespace Site

variable {σ : Type} {S : Site σ} {now : Timestamp} {w w' : σ} {d : Document}

theorem check_of_load (h : S.store.load now w = .ok d) : d.check = .ok () := by
  rcases S.load_ok h with ⟨-, rfl⟩ | ⟨t, -, -, hc⟩
  · exact Document.check_empty now
  · exact hc

end Site

/-- A document that fits and passes the check is loadable once it is written. -/
theorem Document.isLoadable_text {d : Document} (hd : d.Fits (Json.Fits 124) (Json.Fits 120))
    (hc : d.check = .ok ()) : IsLoadable (some d.text) := by
  obtain ⟨d', hd'⟩ := (exists_ofText_text d).mpr hd
  exact ⟨d', hd', (check_congr (readsBack_of_ofText hd')).trans hc⟩

/-! ## What can be on disk -/

/-- What goes with documents whose metadata are in `M` and whose data are in `D`: `Q` holds of
the text of each that passes the check, and of no text that anything else is read from. -/
structure Document.Covers (M D : Json → Prop) (Q : Option String → Prop) : Prop where
  none : Q none
  text {d : Document} (hd : d.Fits M D) (hc : d.check = .ok ()) : Q (some d.text)
  fits {t : String} {d : Document} (ht : Q (some t)) (hd : ofText t = .ok d) : d.Fits M D

namespace Site

variable {σ : Type} {S : Site σ} {M D P : Json → Prop} {Q : Option String → Prop} {r : RunSetup σ}
  {m : Emitter σ} {w : σ}

theorem fits_of_load (hQ : Document.Covers M D Q) {now : Timestamp} {d : Document}
    (hw : Q (S.text? w)) (hnow : now.InRange) (hl : S.store.load now w = .ok d) : d.Fits M D := by
  rcases S.load_ok hl with ⟨-, rfl⟩ | ⟨t, ht, hd, -⟩
  · exact Document.fits_empty hnow
  · exact hQ.fits (ht ▸ hw) hd

/-- What is asked of a run and of where it starts: it uses the store of the site, what it gets
fits, nobody else touches the text, and the entities can be counted. -/
structure Hosts (S : Site σ) (P : Json → Prop) (r : RunSetup σ) (m : Emitter σ) (w : σ) :
    Prop where
  store : r.store = S.store
  fits : r.Fits P
  sinks : S.SparedBySinks m.sinks
  calls : S.SparedByCalls r.executor
  size : ∀ d, r.store.load (r.clock w) w = .ok d → d.entities.size < 2 ^ 64

theorem Hosts.keeps (hr : S.Hosts P r m w) {l : List RunEvent} {w' : σ}
    (h : r.Moment m w l w') : Keeps r (S.text? w) l (S.text? w') :=
  keeps_of_moment hr.store hr.sinks hr.calls h

/-- What holds of all that is written, holds of what is on disk at every moment of a run. -/
theorem text_moment (hQ : Document.Covers M D Q) (hS : S.IsFaithful) (hD : ∀ v, v.IsNote P → D v)
    (hr : S.Hosts P r m w) {seen : List RunEvent} {w' : σ} (hm : r.Moment m w seen w')
    (hw : Q (S.text? w)) : Q (S.text? w') := by
  have hkeeps := hr.keeps hm
  have hleaves := hkeeps.leaves
  unfold LeavesBy at hleaves
  split at hleaves
  · rwa [hleaves]
  next d hlast =>
  obtain ⟨w₀, ht⟩ := hleaves
  have hseen : d ∈ RunEvent.savings seen := List.mem_of_getLast? hlast
  have hsaved : d ∈ RunEvent.savings (r.run m w).trace :=
    (hm.isPrefix.filterMap _).subset hseen
  rcases r.run_cases m w with ⟨_, -, hrun⟩ | ⟨d₀, hl, -⟩
  · rw [hrun] at hsaved
    cases hsaved
  have hl' := hl
  rw [hr.store] at hl'
  have hd := RunSetup.isCountable_savings hD hr.fits m w hl (isFiled_of_load hl')
    ⟨fits_of_load hQ hw (hr.fits.clock w) hl', hr.size d₀ hl⟩ d hsaved
  obtain ⟨w₁, w₂, hs⟩ := hkeeps.taken d hseen
  rw [hr.store] at hs
  rw [ht]
  exact hQ.text (hd.fits.stamp (hr.fits.clock w₀))
    ((Document.check_stamp _ _).trans (hS.check_of_save hs))

end Site

/-! ## A store in memory that checks what it saves -/

namespace Memory

def checkedStore : Store Memory where
  load := store.load
  save now d w :=
    match d.check with
    | .error v => (.error (.corruptState "" (.unsavable v)), w)
    | .ok () => store.save now d w

theorem save_of_checked {now : Timestamp} {d : Document} {w w' : Memory}
    (h : checkedStore.save now d w = (.ok (), w')) :
    d.check = .ok () ∧ store.save now d w = (.ok (), w') := by
  simp only [checkedStore] at h
  split at h
  · cases h
  · next hc => exact ⟨hc, h⟩

def checkedSite : Site Memory where
  store := checkedStore
  text? := text?
  load_ok := site.load_ok
  save_ok h := site.save_ok (save_of_checked h).2
  save_error := by
    intro now d w w' e h
    simp only [checkedStore] at h
    split at h
    · obtain ⟨-, rfl⟩ := Prod.mk.inj h
      rfl
    · exact site.save_error h

/-- The first entity that is registered is on disk then. -/
theorem perform_register_blank {id : String} (hid : Text.isBlankText id = false) {metadata : Json}
    {d : Document}
    (hd : (Document.empty (.ofSeconds 0)).insert id
      (Entity.registered (.ofSeconds 0) id metadata).1 = d) (hc : d.check = .ok ()) :
    (Operation.register id metadata).perform checkedStore (.ofSeconds 0) (.ofSinks []) blank =
      (.ok ⟨id ++ " registered", [id], []⟩, .ofSinks [], { blank with saved? := some d }) := by
  subst hd
  have hl : checkedStore.load (.ofSeconds 0) blank = .ok (.empty (.ofSeconds 0)) := load_blank
  rw [Operation.perform_register hid hl rfl, Change.commit]
  simp only [checkedStore, hc]
  rfl

/-- Runs as those of `setup`, with a store that checks what it saves. -/
def checkedSetup : RunSetup Memory := { setup with store := checkedStore }

end Memory
end Publishing
