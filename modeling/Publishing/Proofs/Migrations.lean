import Publishing.Proofs.Naming
import Publishing.Proofs.Resets

/-
Imports, from what the store holds to what it holds then, and once more.

An import asks of each item whether its id is tracked by now, by what was loaded or by an item
before it.  So of the items of one id the first is added, and only if the id is new; each of the
others is reported as tracked already.  An import in two parts goes on where the first part has
left off, and comes to what one import of all the items comes to.  Between the two parts lies a
load, though, and it need not give back what was saved: that is a matter of the doubles in it.
-/

namespace Publishing

/-- What tracking an item comes to. -/
structure Entity.IsImportOf (now : Timestamp) (item : ContentItem) (e : Entity) : Prop where
  id : e.id = item.id
  metadata : e.metadata = item.metadata
  status : e.status = .completed
  currentStep : e.currentStep = .finalized
  completed : ∀ s, (e.step s).status = .completed ∧ (e.step s).attempts = 0
  checkpoints : ∀ s, (e.step s).checkpoints =
    if s = .finalized then [⟨OperationName.migrated, now, .null⟩] else []
  errors : e.errors = []

/-- A record with all its instants put back to the first. -/
def StepRecord.untimed (r : StepRecord) : StepRecord :=
  { r with
    startedAt := r.startedAt.map fun _ => .ofSeconds 0
    completedAt := r.completedAt.map fun _ => .ofSeconds 0
    checkpoints := r.checkpoints.map fun c => { c with timestamp := .ofSeconds 0 } }

/-- An entity with all its instants put back to the first. -/
def Entity.untimed (e : Entity) : Entity :=
  { e with
    steps := e.steps.mapSteps fun _ r => r.untimed
    errors := e.errors.map fun f => { f with timestamp := .ofSeconds 0 }
    createdAt := .ofSeconds 0
    updatedAt := .ofSeconds 0 }

namespace Document

variable {d d' : Document} {now now' : Timestamp} {items more : List ContentItem} {id : String}

theorem isImportOf_imported (now : Timestamp) (item : ContentItem) :
    (imported now item).1.IsImportOf now item where
  id := rfl
  metadata := rfl
  status := rfl
  currentStep := rfl
  completed s := by cases s <;> exact ⟨rfl, rfl⟩
  checkpoints s := by cases s <;> rfl
  errors := rfl

/-- Whether the item at a place is new: its id is not tracked, and no item before it has the same
id. -/
def isNew (d : Document) (items : List ContentItem) (p : ContentItem × Nat) : Bool :=
  !d.contains p.1.id && (items.take p.2).all fun other => other.id ≠ p.1.id

theorem contains_insert (d : Document) (id : String) (e : Entity) (id' : String) :
    (d.insert id e).contains id' = (id' = id || d.contains id') := by
  rw [contains_eq_isSome, find?_insert]
  by_cases hid : id' = id <;> simp [hid, contains_eq_isSome]

/-- What there is to compare the next item with. -/
def withItem (now : Timestamp) (item : ContentItem) (d : Document) : Document :=
  if d.contains item.id then d else d.insert item.id (imported now item).1

/-- What is new behind a first item is new once that has been dealt with. -/
theorem isNew_cons (now : Timestamp) (item : ContentItem) (p : ContentItem × Nat) :
    d.isNew (item :: items) (p.1, p.2 + 1) = (d.withItem now item).isNew items p := by
  simp only [isNew, withItem, List.take_succ_cons, List.all_cons]
  by_cases hid : item.id = p.1.id
  · cases hc : d.contains item.id <;> simp [← hid, hc, contains_insert]
  · have hid' : ¬ p.1.id = item.id := fun h => hid h.symm
    cases hc : d.contains item.id <;> simp [hid, hid', contains_insert]

/-- An import adds the items that are new and reports the others, each of them in their order. -/
theorem insertFinalized_report (now : Timestamp) (items : List ContentItem) (d : Document) :
    (d.insertFinalized now items).added = (items.zipIdx.filter (d.isNew items)).map (·.1.id) ∧
      (d.insertFinalized now items).skipped =
        (items.zipIdx.filter fun p => !d.isNew items p).map (·.1.id) := by
  induction items generalizing d with
  | nil => exact ⟨rfl, rfl⟩
  | cons item rest ih =>
    have hfirst : d.isNew (item :: rest) (item, 0) = !d.contains item.id := by simp [isNew]
    have hbehind : ∀ q : Bool → Bool,
        ((rest.zipIdx 1).filter fun p => q (d.isNew (item :: rest) p)).map (·.1.id) =
          (rest.zipIdx.filter fun p => q ((d.withItem now item).isNew rest p)).map (·.1.id) := by
      intro q
      rw [List.zipIdx_succ, List.filter_map, List.map_map]
      simp only [Function.comp_def, isNew_cons now]
    obtain ⟨ha, hs⟩ := ih (d.withItem now item)
    have hadded := ha.trans (hbehind fun b => b).symm
    have hskipped := hs.trans (hbehind not).symm
    rw [insertFinalized, List.zipIdx_cons, List.filter_cons, List.filter_cons, hfirst]
    unfold withItem at hadded hskipped
    cases hc : d.contains item.id with
    | true =>
      rw [if_pos hc] at hadded hskipped
      exact ⟨hadded, congrArg (item.id :: ·) hskipped⟩
    | false =>
      rw [if_neg (Bool.eq_false_iff.mp hc)] at hadded hskipped
      exact ⟨congrArg (item.id :: ·) hadded, hskipped⟩

/-- Where all items are tracked, nothing is added. -/
theorem insertFinalized_of_contains (h : ∀ item ∈ items, d.contains item.id) :
    d.insertFinalized now items = ⟨d, [], items.map (·.id), []⟩ := by
  induction items with
  | nil => rfl
  | cons item rest ih =>
    obtain ⟨hitem, hrest⟩ := List.forall_mem_cons.mp h
    rw [insertFinalized, if_pos hitem, ih hrest]
    rfl

theorem migrate_of_contains (h : ∀ item ∈ items, d.contains item.id) :
    (d.migrate now items).report.entities = [] ∧ (d.migrate now items).report.skipped =
      items.map fun item => ⟨item.id, .alreadyTracked⟩ := by
  rw [migrate, insertFinalized_of_contains h, List.map_map]
  exact ⟨rfl, rfl⟩

/-- An import of two lists goes on with the second where it is done with the first. -/
theorem insertFinalized_append (now : Timestamp) (items more : List ContentItem) (d : Document) :
    d.insertFinalized now (items ++ more) =
      let front := d.insertFinalized now items
      let behind := front.document.insertFinalized now more
      ⟨behind.document, front.added ++ behind.added, front.skipped ++ behind.skipped,
        front.records ++ behind.records⟩ := by
  induction items generalizing d with
  | nil => rfl
  | cons item rest ih =>
    rw [List.cons_append, insertFinalized, insertFinalized]
    split
    · rw [ih]
      rfl
    · generalize imported now item = tracked
      obtain ⟨e, record⟩ := tracked
      dsimp only
      rw [ih]
      rfl

end Document

/-! ## Instants aside -/

theorem StepRecord.ReadsBack.eq_of_untimed {r r' : StepRecord} (h : r.ReadsBack r')
    (hu : r'.untimed = r.untimed) : r' = r := by
  have hcheckpoints : r'.checkpoints = r.checkpoints := by
    have hmap := congrArg StepRecord.checkpoints hu
    have hread := h.checkpoints
    simp only [untimed] at hmap
    generalize r.checkpoints = l at hmap hread ⊢
    generalize r'.checkpoints = l' at hmap hread ⊢
    induction hread with
    | nil => rfl
    | @cons c c' _ _ hc _ ih =>
      obtain ⟨hfirst, hrest⟩ := List.cons.inj hmap
      have hdata : c'.data = c.data := (Checkpoint.mk.inj hfirst).2.2
      rw [hc.eq_of_data hdata, ih hrest]
  exact h.eq_of_checkpoints hcheckpoints

/-- What is read back is the same only if it is the same with the instants put aside. -/
theorem Entity.ReadsBack.eq_of_untimed {e e' : Entity} (h : e.ReadsBack e')
    (hu : e'.untimed = e.untimed) : e' = e := by
  have hsteps : e'.steps = e.steps := by
    refine StepTable.ext_get fun s => (h.step s).eq_of_untimed ?_
    have hget := congrArg (fun v => v.steps.get s) hu
    show (e'.steps.get s).untimed = (e.steps.get s).untimed
    simpa only [untimed, StepTable.get_mapSteps] using hget
  have hmetadata := congrArg Entity.metadata hu
  dsimp only [untimed] at hmetadata
  cases e
  cases e'
  exact Entity.mk.injEq .. ▸ ⟨h.id.symm, h.status.symm, h.currentStep.symm, hsteps, hmetadata,
    h.errors.symm, h.createdAt.symm, h.updatedAt.symm⟩

/-! ## One import and two -/

/-- Whether a change of `d` adds exactly the items that are new and leaves all else as it was. -/
structure Change.Imports (c : Change) (d : Document) (now : Timestamp) (items : List ContentItem) :
    Prop where
  added : c.report.entities = (items.zipIdx.filter (d.isNew items)).map (·.1.id)
  skipped : c.report.skipped =
    (items.zipIdx.filter fun p => !d.isNew items p).map fun p => ⟨p.1.id, .alreadyTracked⟩
  kept : ∀ id e, d.find? id = some e → c.document.find? id = some e
  /-- Under an id that was not tracked is the first item of that id. -/
  first : ∀ id, d.find? id = none →
    Option.Rel (Entity.IsImportOf now) (items.find? (·.id = id)) (c.document.find? id)
  version : c.document.version = d.version
  global : c.document.global = d.global
  valid : c.document.check = .ok ()

/-- Whether a change in one go reports what two changes report one after the other, and comes to
the same entities, instants aside, where the document `d₁` in between is what the first left. -/
structure Change.Joins (both c c' : Change) (d₁ : Document) : Prop where
  added : both.report.entities = c.report.entities ++ c'.report.entities
  skipped : both.report.skipped = c.report.skipped ++ c'.report.skipped
  entities : ∀ id, (both.document.find? id).map Entity.untimed =
    (c'.document.find? id).map Entity.untimed ↔ d₁.find? id = c.document.find? id

namespace Document

variable {d d₁ d₂ : Document} {now : Timestamp} {items more : List ContentItem}

theorem find?_migrate (now : Timestamp) (items : List ContentItem) (d : Document) (id : String) :
    (d.migrate now items).document.find? id =
      (d.find? id).or ((items.find? (·.id = id)).map fun item => (imported now item).1) :=
  find?_insertFinalized_eq items d id

theorem imports_migrate (hd : d.check = .ok ()) (now : Timestamp) (items : List ContentItem) :
    (d.migrate now items).Imports d now items where
  added := (insertFinalized_report now items d).1
  skipped := by
    show (d.insertFinalized now items).skipped.map _ = _
    rw [(insertFinalized_report now items d).2, List.map_map]
    rfl
  kept id e he := by rw [find?_migrate, he, Option.some_or]
  first id hnone := by
    rw [find?_migrate, hnone, Option.none_or]
    cases items.find? (·.id = id) with
    | none => exact .none
    | some item => exact .some (isImportOf_imported now item)
  version := (Operation.Makes.migrate items).changes.version
  global := (Operation.Makes.migrate items).changes.global
  valid := by
    -- an import acts at no step of its own
    exact ((Operation.Makes.migrate items).check_iff hd).mpr fun _ _ _ _ _ ha => nomatch ha

/-- An import of two lists comes to what two imports come to, as far as the load in between gives
back what the first has left. -/
theorem joins_migrate (hsame : ∀ id, d₂.find? id = d.find? id)
    (hread : (d.migrate now items).document.Related (fun e e' => e' = e ∨ e.ReadsBack e') d₁)
    (now' now'' : Timestamp) :
    (d₂.migrate now'' (items ++ more)).Joins (d.migrate now items) (d₁.migrate now' more) d₁ := by
  have hfront : (d₂.insertFinalized now'' items).added = (d.insertFinalized now items).added ∧
      (d₂.insertFinalized now'' items).skipped = (d.insertFinalized now items).skipped :=
    insertFinalized_congr rfl fun id => congrArg Option.isSome (hsame id)
  have hcontains : ∀ id, (d₂.insertFinalized now'' items).document.contains id =
      d₁.contains id := by
    intro id
    rw [hread.contains, contains_eq_isSome, contains_eq_isSome, find?_insertFinalized_eq,
      find?_migrate, hsame]
    simp
  have hbehind :
      ((d₂.insertFinalized now'' items).document.insertFinalized now'' more).added =
          (d₁.insertFinalized now' more).added ∧
        ((d₂.insertFinalized now'' items).document.insertFinalized now'' more).skipped =
          (d₁.insertFinalized now' more).skipped :=
    insertFinalized_congr rfl hcontains
  refine ⟨?_, ?_, fun id => ?_⟩
  · show (d₂.insertFinalized now'' (items ++ more)).added =
      (d.insertFinalized now items).added ++ (d₁.insertFinalized now' more).added
    rw [insertFinalized_append]
    dsimp only
    rw [hbehind.1, hfront.1]
  · show (d₂.insertFinalized now'' (items ++ more)).skipped.map _ =
      (d.insertFinalized now items).skipped.map _ ++ (d₁.insertFinalized now' more).skipped.map _
    rw [insertFinalized_append]
    dsimp only
    rw [hbehind.2, hfront.2, List.map_append]
  · have huntimed : ((d₂.migrate now'' (items ++ more)).document.find? id).map Entity.untimed =
        (((d.migrate now items).document.find? id).or
          ((more.find? (·.id = id)).map fun item => (imported now' item).1)).map
            Entity.untimed := by
      rw [find?_migrate, find?_migrate, hsame, List.find?_append]
      cases d.find? id <;> cases items.find? (·.id = id) <;> cases more.find? (·.id = id) <;> rfl
    rw [huntimed, find?_migrate now' more d₁]
    have hid := hread id
    generalize (d.migrate now items).document.find? id = left at hid ⊢
    generalize d₁.find? id = found at hid ⊢
    cases hid with
    | none => exact iff_of_true rfl rfl
    | @some e e' h =>
      rw [Option.some_or, Option.some_or, Option.map_some, Option.map_some]
      constructor
      · intro hu
        rcases h with rfl | h
        · rfl
        · rw [h.eq_of_untimed (Option.some.inj hu).symm]
      · intro he
        rw [Option.some.inj he]

/-- Without doubles in it an entity is found as it was. -/
theorem Related.find?_of_fits {d d' : Document}
    (h : d.Related (fun e e' => e' = e ∨ e.ReadsBack e') d') {id : String} {e : Entity}
    (he : d.find? id = some e) (hfits : e.Fits (·.isExact) (·.isExact)) : d'.find? id = some e := by
  obtain ⟨e', he', heq | hread⟩ := h.right he
  · rw [he', heq]
  · rw [he', hread.eq hfits]

end Document

/-! ## Imports on disk -/

theorem Operation.prepare_migrate (items : List ContentItem) :
    (migrate items).prepare = .ok fun now d => .ok (d.migrate now items) := rfl

namespace FileStore

variable {σ : Type} [HasFiles σ] {s : FileStore} {now : Timestamp} {m : Emitter σ} {w : σ}
  {d : Document} {items : List ContentItem}

theorem migrate_commits (hm : s.SparedBySinks m.sinks) (hl : s.load now (files w) = .ok d)
    (items : List ContentItem) :
    s.Commits now w (d.migrate now items) ((Operation.migrate items).perform s.store now m w) := by
  have hload : s.store.load now w = .ok d := hl
  rw [Operation.perform_eq_commit (Operation.prepare_migrate items) hload rfl]
  exact commits hm _ now w

/-- An import of what is tracked reports all of it and leaves the world as it is. -/
theorem perform_of_contains (hl : s.load now (files w) = .ok d)
    (h : ∀ item ∈ items, d.contains item.id) (m : Emitter σ) :
    ∃ report, ((Operation.migrate items).perform s.store now m w).1 = .ok report ∧
      report.entities = [] ∧ report.skipped = items.map (fun item => ⟨item.id, .alreadyTracked⟩) ∧
      ((Operation.migrate items).perform s.store now m w).2.2 = w := by
  have hload : s.store.load now w = .ok d := hl
  obtain ⟨hnone, hskipped⟩ : (d.migrate now items).report.entities = [] ∧
      (d.migrate now items).report.skipped = items.map fun item => ⟨item.id, .alreadyTracked⟩ :=
    Document.migrate_of_contains h
  refine ⟨_, ?_, hnone, hskipped, ?_⟩ <;>
    rw [Operation.perform_eq_commit (Operation.prepare_migrate items) hload rfl, Change.commit,
      hnone] <;> rfl

/-- What an import has left on disk loads, with every entity as it was or read back. -/
theorem exists_load_of_migrate (hm : s.SparedBySinks m.sinks) (hnow : now.InRange)
    (hl : s.load now (files w) = .ok d) (hitems : ∀ item ∈ items, item.metadata.IsModest)
    {report : Report} (hok : ((Operation.migrate items).perform s.store now m w).1 = .ok report)
    {w' : σ} (hw' : (files w').stat s.path =
      (files ((Operation.migrate items).perform s.store now m w).2.2).stat s.path)
    (now' : Timestamp) :
    ∃ d₁, s.load now' (files w') = .ok d₁ ∧
      (d.migrate now items).document.Related (fun e e' => e' = e ∨ e.ReadsBack e') d₁ := by
  have hadmits : (Operation.migrate items).Admits (Json.Fits 124) :=
    fun item hitem => (hitems item hitem).fits (by decide)
  have hfits : (d.migrate now items).document.Fits (Json.Fits 124) (Json.Fits 120) :=
    (fits_of_load hnow hl).change (fun _ => Json.fits_of_isNote_isModest) hnow hadmits rfl rfl
  have hvalid := (Document.imports_migrate (check_of_load hl) now items).valid
  have hwritable := Document.isLoadable_text (hfits.stamp hnow)
    ((Document.check_stamp now _).trans hvalid)
  have hothers : ∀ id, id ∉ (d.migrate now items).report.entities →
      (d.migrate now items).document.find? id = d.find? id := fun id hid =>
    (Operation.Makes.migrate items).find?_of_not_mem (isFiled_of_load hl) hid
  exact (exists_load_of_commits hl (migrate_commits hm hl items) hothers hwritable hok hw' now').2

/-- An import adds each item whose id is new, in their order, and reports the others; it leaves all
else as it was and comes to a document that passes the check.  Once it has gone through, the same
one finds nothing to add, and an import of further items comes to what one import of all of them
comes to, if the load in between gives back what was saved.  That is so of every entity without
doubles. -/
theorem perform_migrate (hm : s.SparedBySinks m.sinks) (hl : s.load now (files w) = .ok d)
    (hitems : ∀ item ∈ items, item.metadata.IsModest) {out : Except Error Report × Emitter σ × σ}
    (hout : (Operation.migrate items).perform s.store now m w = out) :
    s.Commits now w (d.migrate now items) out ∧
    (d.migrate now items).Imports d now items ∧
    (∀ d₀ : Document, s.content? w = some d₀.text.toUTF8 →
      ∀ id e, d₀.find? id = some e → e.Fits (·.isExact) (·.isExact) →
        (d.migrate now items).document.find? id = some e) ∧
    (now.InRange → ∀ report, out.1 = .ok report →
      s.IsIdle (.migrate items) out.2.2 (items.map fun item => ⟨item.id, .alreadyTracked⟩) ∧
      ∀ (more : List ContentItem) (now' : Timestamp) (m' : Emitter σ) (w' : σ),
        s.SparedBySinks m'.sinks → (files w').stat s.path = (files out.2.2).stat s.path →
        ∃ d₁, s.load now' (files w') = .ok d₁ ∧
          s.Commits now' w' (d₁.migrate now' more)
            ((Operation.migrate more).perform s.store now' m' w') ∧
          (∀ now'' d₂, s.load now'' (files w) = .ok d₂ →
            (d₂.migrate now'' (items ++ more)).Joins (d.migrate now items)
              (d₁.migrate now' more) d₁) ∧
          ∀ id e, (d.migrate now items).document.find? id = some e →
            e.Fits (·.isExact) (·.isExact) → d₁.find? id = some e) := by
  subst hout
  have himports := Document.imports_migrate (check_of_load hl) now items
  refine ⟨migrate_commits hm hl items, himports, fun d₀ hd₀ id e he hfits => ?_,
    fun hnow report hok => ?_⟩
  · have hread : d₀.Related (fun e e' => e' = e ∨ e.ReadsBack e') d :=
      (readsBack_of_load hd₀ hl).related.mono Or.inr
    exact himports.kept id e (hread.find?_of_fits he hfits)
  refine ⟨fun now' m' w' hw' => ?_, fun more now' m' w' hm' hw' => ?_⟩
  · obtain ⟨d₁, hl₁, hread⟩ := exists_load_of_migrate hm hnow hl hitems hok hw' now'
    refine perform_of_contains hl₁ (fun item hitem => ?_) m'
    rw [hread.contains, (Operation.Makes.migrate items).contains_iff (isFiled_of_load hl)]
    exact Or.inr (List.mem_map_of_mem hitem)
  · obtain ⟨d₁, hl₁, hread⟩ := exists_load_of_migrate hm hnow hl hitems hok hw' now'
    refine ⟨d₁, hl₁, migrate_commits hm' hl₁ more, fun now'' d₂ hl₂ => ?_, fun id e => ?_⟩
    · obtain ⟨d', hl', hsame⟩ := exists_load_again hl now''
      obtain rfl := Except.ok.inj (hl₂.symm.trans hl')
      refine Document.joins_migrate (fun id => ?_) hread now' now''
      rw [Document.find?, Document.find?, hsame]
    · exact hread.find?_of_fits

/-! ## Imports beside a tracked entity -/

/-- Items of a tracked id, of a new one, and of that once more. -/
def repeating : List ContentItem := [⟨"post", .null⟩, ⟨"next", .bool true⟩, ⟨"next", .null⟩]

/-- Of three items one is new.  It is there after the load, and the others are not looked at. -/
theorem perform_migrate_repeating : ∃ (out : Except Error Report × Emitter FileSystem × FileSystem)
    (report : Report) (d₁ : Document) (e : Entity),
    (Operation.migrate repeating).perform atRoot.store (.ofSeconds 0) (.ofSinks [])
      (holding Memory.interrupted) = out ∧
    out.1 = .ok report ∧ report.entities = ["next"] ∧
    report.skipped = [⟨"post", .alreadyTracked⟩, ⟨"next", .alreadyTracked⟩] ∧
    atRoot.IsIdle (.migrate repeating) out.2.2
      (repeating.map fun item => ⟨item.id, .alreadyTracked⟩) ∧
    atRoot.load (.ofSeconds 0) (files out.2.2) = .ok d₁ ∧ d₁.find? "next" = some e ∧
    e.IsImportOf (.ofSeconds 0) ⟨"next", .bool true⟩ := by
  have hsinks : atRoot.SparedBySinks (Emitter.ofSinks [] : Emitter FileSystem).sinks :=
    fun _ _ => rfl
  have hnow : (Timestamp.ofSeconds 0).InRange := by decide +kernel
  have hitems : ∀ item ∈ repeating, item.metadata.IsModest := by
    have hnull : Json.null.IsModest := ⟨Nat.zero_le _, by simp [Json.EveryNumber]⟩
    have htrue : (Json.bool true).IsModest := ⟨Nat.zero_le _, by simp [Json.EveryNumber]⟩
    simp only [repeating, List.forall_mem_cons]
    exact ⟨hnull, htrue, hnull, List.forall_mem_nil _⟩
  obtain ⟨hcommits, himports, -, hagain⟩ := perform_migrate (m := .ofSinks []) hsinks
    (load_interrupted (.ofSeconds 0)) hitems rfl
  have hentities : (Memory.interrupted.migrate (.ofSeconds 0) repeating).report.entities =
      ["next"] := himports.added.trans (by decide +kernel)
  have hskipped : (Memory.interrupted.migrate (.ofSeconds 0) repeating).report.skipped =
      [⟨"post", .alreadyTracked⟩, ⟨"next", .alreadyTracked⟩] :=
    himports.skipped.trans (by decide +kernel)
  have hok : ((Operation.migrate repeating).perform atRoot.store (.ofSeconds 0) (.ofSinks [])
      (holding Memory.interrupted)).1.isOk := by
    rw [Operation.perform, load_store, load_interrupted]
    decide +kernel
  have hreport : ((Operation.migrate repeating).perform atRoot.store (.ofSeconds 0) (.ofSinks [])
      (holding Memory.interrupted)).1 =
        .ok (Memory.interrupted.migrate (.ofSeconds 0) repeating).report := by
    rw [Commits, if_neg (by rw [hentities]; exact List.cons_ne_nil _ _)] at hcommits
    rcases hcommits with ⟨e, -, he⟩ | ⟨h, -⟩
    · rw [he] at hok
      cases hok
    · exact h
  obtain ⟨hidle, hmore⟩ := hagain hnow _ hreport
  obtain ⟨d₁, hl, -, -, hfound⟩ := hmore [] (.ofSeconds 0) (.ofSinks []) _ hsinks rfl
  obtain ⟨e, he, himport⟩ : ∃ e, (Memory.interrupted.migrate (.ofSeconds 0)
      repeating).document.find? "next" = some e ∧
        e = (Document.imported (.ofSeconds 0) ⟨"next", .bool true⟩).1 :=
    ⟨_, by decide +kernel, rfl⟩
  have hfinalized : (Entity.finalized (.ofSeconds 0) "next" (.bool true)).Fits
      (·.isExact) (·.isExact) := Entity.fits_finalized hnow "next" rfl
  have hfits : e.Fits (·.isExact) (·.isExact) := by
    rw [himport]
    exact hfinalized.emit hnow _ _ rfl
  exact ⟨_, _, d₁, e, rfl, hreport, hentities, hskipped, hidle, hl, hfound "next" e he hfits,
    himport ▸ Document.isImportOf_imported _ _⟩

/-- A double that is not read as it was written is another one after an import. -/
theorem exists_tracked_changed : ∃ (items : List ContentItem) (w : FileSystem)
    (d d₁ d' : Document) (report : Report), atRoot.content? w = some d.text.toUTF8 ∧
      atRoot.store.load (.ofSeconds 0) w = .ok d₁ ∧
      ((Operation.migrate items).perform atRoot.store (.ofSeconds 0) (.ofSinks []) w).1 =
        .ok report ∧
      report.entities = ["next"] ∧
      atRoot.content? ((Operation.migrate items).perform atRoot.store (.ofSeconds 0)
        (.ofSinks []) w).2.2 = some d'.text.toUTF8 ∧
      (d.find? "post").isSome ∧ d'.find? "post" ≠ d.find? "post" := by
  let c := (measured Memory.drifted).migrate (.ofSeconds 0) [⟨"next", .null⟩]
  have hadded : c.report.entities = ["next"] := by decide +kernel
  have hsaved : (atRoot.save (.ofSeconds 0) c.document
      (holding (measured Memory.drifting))).1 = .ok () := by decide +kernel
  have hsave : atRoot.store.save (.ofSeconds 0) c.document
      (holding (measured Memory.drifting)) = (.ok (), _) := Prod.ext hsaved rfl
  have hperform := Operation.perform_eq_commit (Operation.prepare_migrate [⟨"next", .null⟩])
    load_drifting rfl (.ofSinks [])
  rw [Change.commit_of_save (hadded ▸ List.cons_ne_nil _ _) hsave] at hperform
  refine ⟨[⟨"next", .null⟩], holding (measured Memory.drifting), measured Memory.drifting,
    measured Memory.drifted, c.document.stamp (.ofSeconds 0), c.report, content?_holding _,
    load_drifting, ?_, hadded, ?_, by decide +kernel, by decide +kernel⟩
  · rw [hperform]
  · rw [hperform]
    exact content?_save hsave

end FileStore
end Publishing
