import Publishing.Proofs.Fidelity
import Publishing.Proofs.Repetition

/-
What is on disk stays readable as far as moments, durations and run ids go.

Whatever is read from a text is timely, and operations and the phases of runs leave it so,
however large the metadata and the metrics are that come in.  So what two histories have saved
can be compared by reading it again.
-/

namespace Publishing

open Json

variable {g : String → String} {now : Timestamp}

theorem Operation.admits_true (op : Operation) : op.Admits fun _ => True := by
  cases op with
  | migrate items => exact fun _ _ => trivial
  | _ => trivial

theorem Json.isTimed_ofMembers {members : List (String × Json)}
    (h : ∀ m ∈ members, m.1 = "durationMs" ∨ m.1 = "runId" → m.2.Fits 119) :
    (ofMembers members).IsTimed := by
  obtain ⟨l, hl, -, hmem⟩ := exists_ofMembers members
  rw [hl]
  exact fun m hm => h m (hmem m hm)

/-- What the outcome of a call leaves can hold any metrics, but its duration can be written. -/
theorem Entity.IsTimely.fold {e : Entity} (h : e.IsTimely) (hnow : now.InRange) (s : Step)
    {x : Ending} (hx : x.durationMs < 2 ^ 64) :
    (e.fold now s x.outcome x.durationMs).1.IsTimely := by
  have hms : (Json.nat x.durationMs).Fits 119 := fits_of_isScalar (isScalar_nat hx) 119
  cases x.outcome with
  | succeeded metrics =>
    refine (Entity.Fits.completeStep h hnow s hx).emit hnow s _ (isTimed_ofMembers ?_)
    simp [hms]
  | failed message =>
    refine (Entity.Fits.failStep h hnow s message hx).emit hnow s _ (isTimed_ofMembers ?_)
    simp [hms]

namespace Document

variable {d d' : Document} {s : Step} {ids : List String}

theorem isTimely_of_ofText {text : String} (h : ofText text = .ok d) : d.IsTimely := by
  have hfits := fits_of_ofText h
  refine ⟨hfits.lastUpdated, fun id e he => ?_, fun b hb => ?_⟩
  · have hentity := hfits.entities id e he
    refine ⟨fun s => ?_, trivial, hentity.errors, hentity.createdAt, hentity.updatedAt⟩
    have hr := hentity.step s
    exact ⟨hr.attempts, hr.startedAt, hr.completedAt, hr.durationMs, fun c hc =>
      ⟨(hr.checkpoints c hc).timestamp, isTimed_of_fits (hr.checkpoints c hc).data⟩⟩
  · exact ⟨(hfits.batches b hb).timestamp, (hfits.batches b hb).durationMs⟩

theorem isTimely_empty (hnow : now.InRange) : (empty now).IsTimely := by
  refine ⟨hnow, fun id e he => ?_, List.forall_mem_nil _⟩
  rw [find?_empty] at he
  cases he

namespace IsTimely

theorem stamp (h : d.IsTimely) (hnow : now.InRange) : (d.stamp now).IsTimely :=
  ⟨hnow, h.entities, h.batches⟩

theorem setCurrentStep (h : d.IsTimely) (s : Option Step) : (d.setCurrentStep s).IsTimely :=
  ⟨h.lastUpdated, h.entities, h.batches⟩

theorem addBatch (h : d.IsTimely) {b : Batch} (hb : b.IsTimely) : (d.addBatch b).IsTimely :=
  ⟨h.lastUpdated, h.entities, fun b' hb' => (List.mem_append.mp hb').elim (h.batches b')
    fun hm => (List.mem_singleton.mp hm) ▸ hb⟩

theorem replace (h : d.IsTimely) (id : String) {e : Entity} (he : e.IsTimely) :
    (d.replace id e).IsTimely :=
  ⟨h.lastUpdated, h.entities.replace he, h.batches⟩

/-! ## The phases of a run -/

theorem blockStuck (h : d.IsTimely) (hnow : now.InRange) : (d.blockStuck now).1.IsTimely :=
  ⟨h.lastUpdated, h.entities.mapEntities fun _ _ _ he =>
    he.blockStuck (fun _ => isTimed_of_isNote) hnow, h.batches⟩

theorem selectEach (h : d.IsTimely) (hnow : now.InRange) (s : Step) (ids : List String) :
    (Document.selectEach now s ids d).document.IsTimely := by
  induction ids generalizing d with
  | nil => exact h
  | cons id rest ih =>
    rw [Document.selectEach]
    cases he : d.find? id with
    | none => exact ih h
    | some e =>
      dsimp only
      split
      · exact ih h
      · exact ih (h.replace id ((h.entities id e he).exhaust (fun _ => isTimed_of_isNote) hnow s))

theorem markEach (h : d.IsTimely) (hnow : now.InRange) {runId : RunId}
    {records : List AuditRecord} {calls : List Call}
    (hm : d.markEach now runId s ids = .ok (d', records, calls)) : d'.IsTimely := by
  induction ids generalizing d records calls with
  | nil =>
    obtain ⟨rfl, -⟩ := Prod.mk.inj (Except.ok.inj hm)
    exact h
  | cons id rest ih =>
    obtain ⟨e, he, hm⟩ := bind_eq_ok.mp hm
    obtain ⟨_, hrest, hm⟩ := bind_eq_ok.mp hm
    obtain ⟨rfl, -⟩ := Prod.mk.inj (Except.ok.inj hm)
    have he := h.entities id e (get_eq_ok.mp he)
    exact ih (h.replace id (he.mark (fun _ => isTimed_of_isNote) hnow runId s)) hrest

theorem foldEach (h : d.IsTimely) (hnow : now.InRange) {ending : String → Ending} {tally : Tally}
    (hx : ∀ id, (ending id).durationMs < 2 ^ 64)
    (hf : d.foldEach now s ending ids = .ok tally) : tally.document.IsTimely := by
  induction ids generalizing d tally with
  | nil =>
    obtain rfl := Except.ok.inj hf
    exact h
  | cons id rest ih =>
    obtain ⟨e, he, hf⟩ := bind_eq_ok.mp hf
    obtain ⟨_, hrest, hf⟩ := bind_eq_ok.mp hf
    obtain rfl := Except.ok.inj hf
    have he := h.entities id e (get_eq_ok.mp he)
    have htally := ih (h.replace id (he.fold hnow s (hx id))) hrest
    exact htally

/-! ## Operations -/

theorem change (h : d.IsTimely) (hnow : now.InRange) {op : Operation}
    {f : Timestamp → Document → Except Error Change} (hp : op.prepare = .ok f) {c : Change}
    (hc : f now d = .ok c) : c.document.IsTimely := by
  have hchanges := (Operation.makes hp hc).changes
  refine ⟨?_, every_change (fun _ => isTimed_of_isNote) hnow h.entities op.admits_true hp hc, ?_⟩
  · rw [hchanges.lastUpdated]
    exact h.lastUpdated
  · rw [hchanges.global]
    exact h.batches

end IsTimely

/-! ## Checks and texts -/

/-- A check looks at nothing that differs from run to run. -/
theorem check_of_gist (h : d'.gist g = d.gist g) : d'.check = d.check := by
  have hentries := congrArg (·.entities.entries) h
  have hprogress : List.Forall₂ (fun a b => a.1 = b.1 ∧ Entity.SameProgress a.2 b.2)
      d.entities.entries d'.entities.entries := by
    refine forall₂_of_map_eq hentries fun p _ p' _ hp => ?_
    obtain ⟨hid, he⟩ := Prod.mk.inj hp
    exact ⟨hid.symm, ⟨⟨Entity.id_of_gist he, Entity.currentStep_of_gist he,
      Entity.stepStatus_of_gist he, Entity.attempts_of_gist he⟩, Entity.status_of_gist he⟩⟩
  have hversion : d'.version = d.version := congrArg (·.version) h
  simp only [check, hversion, checkEntries_congr hprogress]

/-- What is wrong with a text as that of a state file, if anything. -/
def fault? (text : String) : Option Corruption :=
  match ofText text with
  | .error fault => some (.unparseable fault)
  | .ok d =>
    match d.check with
    | .error v => some (.violation v)
    | .ok () => none

/-- Whether two state files are the same, or hold documents that differ in nothing but moments,
durations, run ids and what `g` does not show of the texts of errors. -/
inductive SameText (g : String → String) : Option String → Option String → Prop
  | same (t : Option String) : SameText g t t
  | texts {d d' : Document} (gist : d'.gist g = d.gist g) (timely : d.IsTimely)
      (timely' : d'.IsTimely) : SameText g (some d.text) (some d'.text)

namespace SameText

variable {t t' : Option String}

theorem isSome_eq (h : SameText g t t') : t'.isSome = t.isSome := by
  cases h <;> simp only [Option.isSome_some]

/-- The same is wrong with both of them. -/
theorem fault?_eq (h : SameText g t t') : t'.map fault? = t.map fault? := by
  cases h with
  | same => rfl
  | @texts d d' gist timely timely' =>
    have hread := agree_ofText gist timely timely'
    refine congrArg some ?_
    unfold fault?
    generalize ofText d.text = x, ofText d'.text = x' at hread ⊢
    cases hread with
    | error e => rfl
    | ok h =>
      dsimp only
      rw [check_of_gist h]

/-- What is read from them has one gist. -/
theorem gist_of_ofText {text text' : String} (h : SameText g (some text) (some text'))
    (hd : ofText text = .ok d) (hd' : ofText text' = .ok d') : d'.gist g = d.gist g := by
  generalize ht : some text = t, ht' : some text' = t' at h
  cases h with
  | same =>
    obtain rfl := Option.some.inj (ht.trans ht'.symm)
    rw [hd] at hd'
    rw [Except.ok.inj hd']
  | texts gist timely timely' =>
    have hread := agree_ofText gist timely timely'
    rw [← Option.some.inj ht, ← Option.some.inj ht', hd, hd'] at hread
    cases hread with
    | ok h => exact h

end SameText

end Document
end Publishing
