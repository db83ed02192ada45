import Publishing.Proofs.Isolation

/-
What a run makes of a document, but for moments, durations, run ids and some texts.

The text of an abort may name whatever worker the call broke off in, so texts of errors are
compared as a function shows them, and with the identity as they are.  The gist of a document
is the document without what differs from run to run.  A phase of a run depends on nothing
else: of two documents with one gist it chooses the same entities, asks for the same calls and
makes documents with one gist again.
-/

namespace Publishing

variable {g : String → String}

/-! ## Texts of errors -/

namespace Json

def maskText (g : String → String) : Json → Json
  | .string text => .string (g text)
  | v => v

/-- The same value with the text of its error as `g` shows it. -/
def mask (g : String → String) : Json → Json
  | .object members => .object (members.map fun m =>
      if m.1 = "error" then (m.1, m.2.maskText g) else m)
  | v => v

theorem mask_stuck (attempt : Json) :
    (object [("attempt", attempt)]).mask g = object [("attempt", attempt)] := by
  simp [mask]

theorem mask_ofMembers (members : List (String × Json)) :
    (ofMembers members).mask g = ofMembers (members.map fun m =>
      if m.1 = "error" then (m.1, m.2.maskText g) else m) :=
  map_ofMembers (fun m => by split <;> rfl) members

/-- Without an error there is nothing to mask. -/
theorem mask_of_not_error {members : List (String × Json)} (h : ∀ m ∈ members, m.1 ≠ "error") :
    (ofMembers members).mask g = ofMembers members := by
  rw [mask_ofMembers]
  refine congrArg ofMembers ((List.map_congr_left fun m hm => ?_).trans (List.map_id _))
  exact if_neg (h m hm)

theorem mask_failed (attempt ms blocked : Json) (message : String) :
    (ofMembers [("attempt", attempt), ("durationMs", ms), ("error", .string message),
        ("blocked", blocked)]).mask g =
      ofMembers [("attempt", attempt), ("durationMs", ms), ("error", .string (g message)),
        ("blocked", blocked)] := by
  simp [mask_ofMembers, maskText]

end Json

def Outcome.mask (g : String → String) : Outcome → Outcome
  | succeeded metrics => succeeded metrics
  | failed message => failed (g message)

@[simp] theorem Outcome.isSuccess_mask (o : Outcome) : (o.mask g).isSuccess = o.isSuccess := by
  cases o <;> rfl

theorem Outcome.mask_eq_cases {o o' : Outcome} (h : o'.mask g = o.mask g) :
    (∃ metrics, o' = .succeeded metrics ∧ o = .succeeded metrics) ∨
      ∃ message message', o' = .failed message' ∧ o = .failed message ∧ g message' = g message := by
  cases o' with
  | succeeded metrics' =>
    cases o with
    | succeeded metrics => exact Or.inl ⟨metrics, h, rfl⟩
    | failed message => cases h
  | failed message' =>
    cases o with
    | succeeded metrics => cases h
    | failed message => exact Or.inr ⟨message, message', rfl, rfl, Outcome.failed.inj h⟩

/-- Whether the outcome of every call is the one that `f` gives, but for texts of errors. -/
def Executor.AnswersAs {σ : Type} (g : String → String) (f : Call → Outcome) (x : Executor σ) :
    Prop :=
  x.Gives fun c ending => ending.outcome.mask g = (f c).mask g

def Checkpoint.mask (g : String → String) (c : Checkpoint) : Checkpoint :=
  { c with data := c.data.mask g }

def Failure.mask (g : String → String) (f : Failure) : Failure :=
  { f with message := g f.message }

def AuditRecord.mask (g : String → String) (r : AuditRecord) : AuditRecord :=
  { r with data := r.data.mask g }

def Setback.mask (g : String → String) (f : Setback) : Setback :=
  { f with message := g f.message }

namespace StepRecord

def mask (g : String → String) (r : StepRecord) : StepRecord :=
  { r with error := r.error.map g, checkpoints := r.checkpoints.map (Checkpoint.mask g) }

@[simp] theorem status_mask (r : StepRecord) : (r.mask g).status = r.status := rfl
@[simp] theorem attempts_mask (r : StepRecord) : (r.mask g).attempts = r.attempts := rfl
@[simp] theorem hasAttemptsLeft_mask (r : StepRecord) :
    (r.mask g).hasAttemptsLeft = r.hasAttemptsLeft := rfl

theorem mask_note (c : Checkpoint) (r : StepRecord) :
    (r.note c).mask g = (r.mask g).note (c.mask g) := by
  simp [mask, note]

end StepRecord

namespace Entity

def mask (g : String → String) (e : Entity) : Entity :=
  { e with
    steps := e.steps.mapSteps fun _ r => r.mask g
    errors := e.errors.map (Failure.mask g) }

@[simp] theorem step_mask (e : Entity) (s : Step) : (e.mask g).step s = (e.step s).mask g :=
  StepTable.get_mapSteps ..

@[simp] theorem isPendingAt_mask (e : Entity) (s : Step) :
    (e.mask g).isPendingAt s = e.isPendingAt s := by
  simp only [isPendingAt, step_mask, StepRecord.status_mask]
  rfl

@[simp] theorem runningStep?_mask (e : Entity) : (e.mask g).runningStep? = e.runningStep? := by
  simp only [runningStep?, step_mask, StepRecord.status_mask]

theorem mask_modifyStep (s : Step) (f f' : StepRecord → StepRecord)
    (hf : ∀ r : StepRecord, (f r).mask g = f' (r.mask g)) (e : Entity) :
    (e.modifyStep s f).mask g = (e.mask g).modifyStep s f' := by
  have hsteps : (e.steps.modify s f).mapSteps (fun _ r => r.mask g) =
      (e.steps.mapSteps fun _ r => r.mask g).modify s f' := by
    refine StepTable.ext_get fun s' => ?_
    simp only [StepTable.get_mapSteps, StepTable.get_modify]
    split
    · exact hf _
    · rfl
  simp only [mask, modifyStep, hsteps]

theorem mask_emit (now : Timestamp) (s : Step) (operation : String) (data : Json) (e : Entity) :
    Prod.map (mask g) (AuditRecord.mask g) (e.emit now s operation data) =
      (e.mask g).emit now s operation (data.mask g) :=
  Prod.ext (mask_modifyStep s _ _ (fun r => StepRecord.mask_note _ r) e) rfl

theorem mask_beginStep (now : Timestamp) (s : Step) (e : Entity) :
    (e.beginStep now s).mask g = (e.mask g).beginStep now s := by
  have h := mask_modifyStep (g := g) s (.start now) (.start now) (fun _ => rfl) e
  simp only [beginStep, ← h]
  rfl

theorem mask_completeStep (now : Timestamp) (s : Step) (ms : Nat) (e : Entity) :
    (e.completeStep now s ms).mask g = (e.mask g).completeStep now s ms := by
  have h := mask_modifyStep (g := g) s (.succeed now ms) (.succeed now ms) (fun _ => rfl) e
  simp only [completeStep, ← h]
  rfl

theorem mask_failStep (now : Timestamp) (s : Step) (message : String) (ms : Nat) (e : Entity) :
    (e.failStep now s message ms).mask g = (e.mask g).failStep now s (g message) ms := by
  have h := mask_modifyStep (g := g) s (.fail now message ms) (.fail now (g message) ms)
    (fun _ => rfl) e
  simp only [failStep, ← h, step_mask, StepRecord.hasAttemptsLeft_mask, StepRecord.attempts_mask]
  simp [mask, Failure.mask]

/-- Masking a change of an entity and its record is changing the masked entity. -/
theorem mask_mark (now : Timestamp) (runId : RunId) (s : Step) (e : Entity) :
    Prod.map (mask g) (AuditRecord.mask g) (e.mark now runId s) = (e.mask g).mark now runId s := by
  rw [mark, mask_emit, Json.mask_of_not_error (by simp), mask_beginStep, mark, ← mask_beginStep,
    step_mask]
  rfl

theorem mask_fold (now : Timestamp) (s : Step) (o : Outcome) (ms : Nat) (e : Entity) :
    Prod.map (mask g) (AuditRecord.mask g) (e.fold now s o ms) =
      (e.mask g).fold now s (o.mask g) ms := by
  cases o with
  | succeeded metrics =>
    show Prod.map _ _ (emit ..) = emit ..
    rw [mask_emit, Json.mask_of_not_error (by simp), mask_completeStep, step_mask]
    rfl
  | failed message =>
    show Prod.map _ _ (emit ..) = emit ..
    rw [mask_emit, Json.mask_failed, mask_failStep, step_mask, ← mask_failStep]
    rfl

theorem mask_exhaust (now : Timestamp) (s : Step) (e : Entity) :
    Prod.map (mask g) (AuditRecord.mask g) (e.exhaust now s) = (e.mask g).exhaust now s := by
  rw [exhaust, mask_emit, Json.mask_of_not_error (by simp), exhaust, step_mask]
  rfl

theorem mask_blockStuck (now : Timestamp) (e : Entity) :
    Prod.map (mask g) (List.map (AuditRecord.mask g)) (e.blockStuck now) =
      (e.mask g).blockStuck now := by
  unfold blockStuck
  rw [runningStep?_mask]
  cases e.runningStep? with
  | none => rfl
  | some s =>
    dsimp only
    rw [show (e.mask g).status = e.status from rfl, step_mask]
    by_cases hb : e.status = .blocked
    · rw [if_pos hb, if_pos hb]
      rfl
    · rw [if_neg hb, if_neg hb]
      have hemit := mask_emit (g := g) now s OperationName.stuckDetected
        (.object [("attempt", .nat (e.step s).attempts)]) (e.block now)
      rw [Json.mask_stuck] at hemit
      exact congrArg (fun p => (p.1, [p.2])) hemit

end Entity

/-! ## Gists -/

/-- An entity without moments, durations and run ids. -/
def Entity.blur (e : Entity) : Entity :=
  { e with
    steps := e.steps.mapSteps fun _ r => r.blur
    errors := e.errors.map Failure.blur
    createdAt := .ofSeconds 0
    updatedAt := .ofSeconds 0 }

theorem Entity.blur_eq_iff {e e' : Entity} : e'.blur = e.blur ↔ e.Alike e' := by
  constructor
  · intro h
    have hsteps : ∀ s, (e'.step s).blur = (e.step s).blur := by
      intro s
      have := congrArg (fun e => e.step s) h
      simpa only [blur, step, StepTable.get_mapSteps] using this
    exact ⟨congrArg (·.id) h, congrArg (·.status) h, congrArg (·.currentStep) h,
      congrArg (·.metadata) h, hsteps, congrArg (·.errors) h⟩
  · intro h
    have hsteps : e'.steps.mapSteps (fun _ r => r.blur) = e.steps.mapSteps fun _ r => r.blur := by
      refine StepTable.ext_get fun s => ?_
      rw [StepTable.get_mapSteps, StepTable.get_mapSteps]
      exact h.steps s
    simp only [blur, h.id, h.status, h.currentStep, h.metadata, h.errors, hsteps]

def Entity.gist (g : String → String) (e : Entity) : Entity := (e.mask g).blur

def AuditRecord.gist (g : String → String) (r : AuditRecord) : AuditRecord := (r.mask g).blur

def Batch.blur (b : Batch) : Batch :=
  { b with timestamp := .ofSeconds 0, durationMs := 0, runId := b.runId.map fun _ => ⟨0⟩ }

/-- The gists of an entity and of the records that came with it. -/
def Entity.gists (g : String → String) (p : Entity × AuditRecord) : Entity × AuditRecord :=
  (p.1.gist g, p.2.gist g)

namespace Entity

variable {e e' : Entity}

theorem gist_eq_iff : e'.gist g = e.gist g ↔ (e.mask g).Alike (e'.mask g) := blur_eq_iff

theorem gists_mark (h : e'.gist g = e.gist g) (now now' : Timestamp) (runId runId' : RunId)
    (s : Step) : gists g (e'.mark now' runId' s) = gists g (e.mark now runId s) := by
  obtain ⟨he, hr⟩ := (gist_eq_iff.mp h).mark now now' runId runId' s
  rw [← mask_mark, ← mask_mark] at he hr
  exact Prod.ext (gist_eq_iff.mpr he) hr

theorem gists_fold (h : e'.gist g = e.gist g) {o o' : Outcome} (ho : o'.mask g = o.mask g)
    (now now' : Timestamp) (s : Step) (ms ms' : Nat) :
    gists g (e'.fold now' s o' ms') = gists g (e.fold now s o ms) := by
  obtain ⟨he, hr⟩ := (gist_eq_iff.mp h).fold now now' s (o.mask g) ms ms'
  rw [← mask_fold now s o ms e, ← ho, ← mask_fold now' s o' ms' e'] at he hr
  exact Prod.ext (gist_eq_iff.mpr he) hr

theorem gists_exhaust (h : e'.gist g = e.gist g) (now now' : Timestamp) (s : Step) :
    gists g (e'.exhaust now' s) = gists g (e.exhaust now s) := by
  obtain ⟨he, hr⟩ := (gist_eq_iff.mp h).exhaust now now' s
  rw [← mask_exhaust, ← mask_exhaust] at he hr
  exact Prod.ext (gist_eq_iff.mpr he) hr

theorem gist_blockStuck (h : e'.gist g = e.gist g) (now now' : Timestamp) :
    (e'.blockStuck now').1.gist g = (e.blockStuck now).1.gist g ∧
      (e'.blockStuck now').2.map (AuditRecord.gist g) =
        (e.blockStuck now).2.map (AuditRecord.gist g) := by
  obtain ⟨he, hr⟩ := (gist_eq_iff.mp h).blockStuck now now'
  rw [← mask_blockStuck, ← mask_blockStuck] at he hr
  refine ⟨gist_eq_iff.mpr he, ?_⟩
  rw [Prod.map_snd, Prod.map_snd, List.map_map, List.map_map] at hr
  exact hr

theorem hasAttemptsLeft_of_gist (h : e'.gist g = e.gist g) (s : Step) :
    (e'.step s).hasAttemptsLeft = (e.step s).hasAttemptsLeft := by
  have := (gist_eq_iff.mp h).hasAttemptsLeft s
  rwa [step_mask, step_mask] at this

theorem attempts_of_gist (h : e'.gist g = e.gist g) (s : Step) :
    (e'.step s).attempts = (e.step s).attempts := by
  have := (gist_eq_iff.mp h).attempts s
  rwa [step_mask, step_mask] at this

theorem metadata_of_gist (h : e'.gist g = e.gist g) : e'.metadata = e.metadata :=
  (gist_eq_iff.mp h).metadata

end Entity

/-! ## Documents of one gist -/

/-- Lists that a function takes to one list are taken to one list by whatever depends on its
values only. -/
theorem map_eq_of_map_eq {α β γ : Type} {b : α → β} {f f' : α → γ}
    (h : ∀ x y, b x = b y → f x = f' y) {l l' : List α} (hl : l.map b = l'.map b) :
    l.map f = l'.map f' := by
  induction l generalizing l' with
  | nil =>
    cases l' with
    | nil => rfl
    | cons y rest => cases hl
  | cons x rest ih =>
    cases l' with
    | nil => cases hl
    | cons y rest' =>
      obtain ⟨hxy, hrest⟩ := List.cons.inj hl
      exact List.cons_eq_cons.mpr ⟨h x y hxy, ih hrest⟩

theorem map_eq_map_cases {ε α β : Type} {f : α → β} {x x' : Except ε α} (h : x'.map f = x.map f) :
    (∃ e, x' = .error e ∧ x = .error e) ∨ ∃ a a', x' = .ok a' ∧ x = .ok a ∧ f a' = f a := by
  cases x' with
  | error e' =>
    cases x with
    | error e => exact Or.inl ⟨e', rfl, congrArg Except.error (Except.error.inj h).symm⟩
    | ok a => cases h
  | ok a' =>
    cases x with
    | error e => cases h
    | ok a => exact Or.inr ⟨a, a', rfl, rfl, Except.ok.inj h⟩

namespace Document

/-- A document without what differs from run to run, the texts of errors as `g` shows them. -/
def gist (g : String → String) (d : Document) : Document where
  version := d.version
  lastUpdated := .ofSeconds 0
  entities := d.entities.map fun _ e => e.gist g
  global := ⟨d.global.currentStep, d.global.stepHistory.map Batch.blur⟩

variable {d d' : Document} {s : Step} {now now' : Timestamp} {runId runId' : RunId}

theorem find?_gist (d : Document) (id : String) :
    (d.gist g).find? id = (d.find? id).map (Entity.gist g) := Keyed.find?_map ..

theorem all_gist (d : Document) : (d.gist g).all = d.all.map (Entity.gist g) := by
  show List.map _ (List.map _ _) = List.map _ (List.map _ _)
  rw [List.map_map, List.map_map]
  rfl

section

variable (h : d'.gist g = d.gist g)
include h

theorem map_all_eq {γ : Type} {f f' : Entity → γ}
    (hf : ∀ e e' : Entity, e'.gist g = e.gist g → f' e' = f e) : d'.all.map f' = d.all.map f := by
  refine map_eq_of_map_eq (fun x y hxy => hf y x hxy) ?_
  rw [← all_gist, ← all_gist, h]

theorem find?_cases (id : String) : d'.find? id = none ∧ d.find? id = none ∨
    ∃ e e', d'.find? id = some e' ∧ d.find? id = some e ∧ e'.gist g = e.gist g := by
  have hfind := congrArg (·.find? id) h
  simp only [find?_gist] at hfind
  cases he : d.find? id with
  | none =>
    rw [he] at hfind
    exact Or.inl ⟨Option.map_eq_none_iff.mp hfind, rfl⟩
  | some e =>
    rw [he] at hfind
    obtain ⟨e', he', heq⟩ := Option.map_eq_some_iff.mp hfind
    exact Or.inr ⟨e, e', he', rfl, heq⟩

theorem filterMap_all_eq {γ : Type} {f f' : Entity → Option γ}
    (hf : ∀ e e' : Entity, e'.gist g = e.gist g → f' e' = f e) :
    d'.all.filterMap f' = d.all.filterMap f := by
  have hmap : ∀ (l : List Entity) (f : Entity → Option γ), l.filterMap f = (l.map f).filterMap id :=
    fun l f => by rw [List.filterMap_map, Function.id_comp]
  rw [hmap, hmap, map_all_eq h hf]

theorem flatMap_all_eq {γ : Type} {f f' : Entity → List γ}
    (hf : ∀ e e' : Entity, e'.gist g = e.gist g → f' e' = f e) :
    d'.all.flatMap f' = d.all.flatMap f := by
  rw [List.flatMap_def, List.flatMap_def, map_all_eq h hf]

/-- The ids of the entities that a property selects. -/
theorem ids_filter_eq {p p' : Entity → Bool}
    (hp : ∀ e e' : Entity, e'.gist g = e.gist g → p' e' = p e) :
    (d'.all.filter p').map (·.id) = (d.all.filter p).map (·.id) := by
  have hids : ∀ (l : List Entity) (p : Entity → Bool),
      (l.filter p).map (·.id) = ((l.map fun e => (p e, e.id)).filter (·.1)).map (·.2) := by
    intro l p
    rw [List.filter_map, List.map_map]
    rfl
  have hall : (d'.all.map fun e => (p' e, e.id)) = d.all.map fun e => (p e, e.id) :=
    map_all_eq h fun e e' he => Prod.ext (hp e e' he) (Entity.gist_eq_iff.mp he).id
  rw [hids, hids, hall]

theorem pendingAt_congr (s : Step) : d'.pendingAt s = d.pendingAt s := by
  refine ids_filter_eq h fun e e' he => ?_
  rw [← Entity.isPendingAt_mask (g := g), ← Entity.isPendingAt_mask (g := g) e,
    (Entity.gist_eq_iff.mp he).isPendingAt]

theorem gist_mapEntities {f f' : String → Entity → Entity}
    (hf : ∀ id, ∀ e e' : Entity, e'.gist g = e.gist g → (f' id e').gist g = (f id e).gist g) :
    (d'.mapEntities f').gist g = (d.mapEntities f).gist g := by
  have hentries := congrArg (·.entities.entries) h
  have hmapped : ((d'.mapEntities f').gist g).entities = ((d.mapEntities f).gist g).entities := by
    refine Keyed.ext ?_
    show (d'.entities.entries.map _).map _ = (d.entities.entries.map _).map _
    rw [List.map_map, List.map_map]
    refine map_eq_of_map_eq (fun x y hxy => ?_) hentries
    obtain ⟨hid, he⟩ := Prod.mk.inj hxy
    refine Prod.ext hid ?_
    show (f' x.1 x.2).gist g = (f y.1 y.2).gist g
    exact hid ▸ hf x.1 y.2 x.2 he
  rw [Document.mk.injEq]
  exact ⟨congrArg (·.version) h, rfl, hmapped, congrArg (·.global) h⟩

theorem gist_blockStuck (now now' : Timestamp) :
    (d'.blockStuck now').1.gist g = (d.blockStuck now).1.gist g ∧
      (d'.blockStuck now').2.map (AuditRecord.gist g) =
        (d.blockStuck now).2.map (AuditRecord.gist g) := by
  refine ⟨gist_mapEntities h fun _ e e' he => (Entity.gist_blockStuck he now now').1, ?_⟩
  rw [blockStuck, blockStuck, List.map_flatMap, List.map_flatMap]
  exact flatMap_all_eq h fun e e' he => (Entity.gist_blockStuck he now now').2

theorem gist_replace (id : String) {e e' : Entity} (he : e'.gist g = e.gist g) :
    (d'.replace id e').gist g = (d.replace id e).gist g := by
  refine gist_mapEntities h fun k v v' hv => ?_
  split
  · exact he
  · exact hv

theorem gist_setCurrentStep (s : Option Step) :
    (d'.setCurrentStep s).gist g = (d.setCurrentStep s).gist g := by
  have hglobal : d'.global.stepHistory.map Batch.blur = d.global.stepHistory.map Batch.blur :=
    congrArg (·.global.stepHistory) h
  rw [gist, gist, Document.mk.injEq]
  exact ⟨congrArg (·.version) h, rfl, congrArg (·.entities) h, congrArg (GlobalState.mk s) hglobal⟩

theorem gist_addBatch {b b' : Batch} (hb : b'.blur = b.blur) :
    (d'.addBatch b').gist g = (d.addBatch b).gist g := by
  have hglobal : (d'.global.stepHistory ++ [b']).map Batch.blur =
      (d.global.stepHistory ++ [b]).map Batch.blur := by
    rw [List.map_append, List.map_append, List.map_singleton, List.map_singleton, hb]
    exact congrArg (·.global.stepHistory ++ _) h
  rw [gist, gist, Document.mk.injEq]
  exact ⟨congrArg (·.version) h, rfl, congrArg (·.entities) h,
    GlobalState.mk.injEq .. |>.mpr ⟨congrArg (·.global.currentStep) h, hglobal⟩⟩

end

/-! ## The phases of a batch -/

def Selection.gist (g : String → String) (x : Selection) : Selection :=
  ⟨x.document.gist g, x.records.map (AuditRecord.gist g), x.eligible,
    x.setbacks.map (Setback.mask g)⟩

def Tally.gist (g : String → String) (x : Tally) : Tally :=
  ⟨x.document.gist g, x.records.map (AuditRecord.gist g), x.setbacks.map (Setback.mask g),
    x.results⟩

/-- The gists of what marking a batch gives. -/
def gistOfMarks (g : String → String) (x : Document × List AuditRecord × List Call) :
    Document × List AuditRecord × List Call :=
  (x.1.gist g, x.2.1.map (AuditRecord.gist g), x.2.2)

theorem gist_selectEach (h : d'.gist g = d.gist g) (now now' : Timestamp) (s : Step)
    (ids : List String) :
    (d'.selectEach now' s ids).gist g = (d.selectEach now s ids).gist g := by
  induction ids generalizing d d' with
  | nil => exact congrArg (Selection.mk · [] [] []) h
  | cons id rest ih =>
    rw [selectEach, selectEach]
    rcases find?_cases h id with ⟨hn', hn⟩ | ⟨e, e', hs', hs, he⟩
    · rw [hn', hn]
      exact ih h
    · rw [hs', hs]
      dsimp only
      rw [Entity.hasAttemptsLeft_of_gist he]
      split
      · have hrest := ih h
        exact congrArg (fun x : Selection => { x with eligible := id :: x.eligible }) hrest
      · obtain ⟨hblocked, hrecord⟩ := Prod.mk.inj (Entity.gists_exhaust he now now' s)
        have hrest := ih (gist_replace h id hblocked)
        obtain ⟨hd, hr, hel, hb⟩ := Selection.mk.inj hrest
        refine Selection.mk.injEq .. |>.mpr ⟨hd, List.cons_eq_cons.mpr ⟨hrecord, hr⟩, hel, ?_⟩
        rw [Entity.attempts_of_gist he]
        exact congrArg (_ :: ·) hb

theorem gist_select (h : d'.gist g = d.gist g) (now now' : Timestamp) (s : Step) :
    (d'.select now' s).gist g = (d.select now s).gist g := by
  rw [select, select, pendingAt_congr h]
  exact gist_selectEach h now now' s _

theorem gist_markEach (h : d'.gist g = d.gist g) (now now' : Timestamp) (runId runId' : RunId)
    (s : Step) (ids : List String) :
    (d'.markEach now' runId' s ids).map (gistOfMarks g) =
      (d.markEach now runId s ids).map (gistOfMarks g) := by
  induction ids generalizing d d' with
  | nil => exact congrArg (fun x => Except.ok (x, [], [])) h
  | cons id rest ih =>
    rw [markEach, markEach, get, get]
    rcases find?_cases h id with ⟨hn', hn⟩ | ⟨e, e', hs', hs, he⟩
    · rw [hn', hn]
      rfl
    · rw [hs', hs]
      obtain ⟨hmarked, hrecord⟩ := Prod.mk.inj (Entity.gists_mark he now now' runId runId' s)
      have hrest := ih (gist_replace h id hmarked)
      simp only [bind, Except.bind]
      rcases map_eq_map_cases hrest with ⟨error, hx', hx⟩ | ⟨x, x', hx', hx, hgist⟩
      · rw [hx', hx]
      · rw [hx', hx]
        obtain ⟨hd, hrc⟩ := Prod.mk.inj hgist
        obtain ⟨hr, hc⟩ := Prod.mk.inj hrc
        refine congrArg Except.ok
          (Prod.ext hd (Prod.ext (List.cons_eq_cons.mpr ⟨hrecord, hr⟩) ?_))
        rw [Entity.metadata_of_gist he]
        exact congrArg (_ :: ·) hc

theorem gist_foldEach (h : d'.gist g = d.gist g) (now now' : Timestamp) (s : Step)
    {ending ending' : String → Ending} {ids : List String}
    (he : ∀ id ∈ ids, (ending' id).outcome.mask g = (ending id).outcome.mask g) :
    (d'.foldEach now' s ending' ids).map (Tally.gist g) =
      (d.foldEach now s ending ids).map (Tally.gist g) := by
  induction ids generalizing d d' with
  | nil => exact congrArg (fun d => Except.ok (Tally.mk d [] [] [])) h
  | cons id rest ih =>
    rw [foldEach, foldEach, get, get]
    rcases find?_cases h id with ⟨hn', hn⟩ | ⟨e, e', hs', hs, heq⟩
    · rw [hn', hn]
      rfl
    · rw [hs', hs]
      have ho := he id List.mem_cons_self
      obtain ⟨hfolded, hrecord⟩ := Prod.mk.inj (Entity.gists_fold heq ho now now' s
        (ending id).durationMs (ending' id).durationMs)
      have hrest := ih (gist_replace h id hfolded)
        fun id' hid' => he id' (List.mem_cons_of_mem _ hid')
      simp only [bind, Except.bind]
      rcases map_eq_map_cases hrest with ⟨error, hx', hx⟩ | ⟨x, x', hx', hx, hgist⟩
      · rw [hx', hx]
      · rw [hx', hx]
        obtain ⟨hd, hr, hb, hok⟩ := Tally.mk.inj hgist
        refine congrArg Except.ok (Tally.mk.injEq .. |>.mpr
          ⟨hd, List.cons_eq_cons.mpr ⟨hrecord, hr⟩, ?_, ?_⟩)
        · rw [Entity.attempts_of_gist heq]
          rcases Outcome.mask_eq_cases ho with ⟨metrics, ho', ho⟩ | ⟨text, text', ho', ho, htext⟩
          · rw [ho', ho]
            exact hb
          · rw [ho', ho]
            have hsetback := congrArg (Setback.mk id s (e.step s).attempts) htext
            exact List.cons_eq_cons.mpr ⟨hsetback, hb⟩
        · have hsuccess := congrArg Outcome.isSuccess ho
          rw [Outcome.isSuccess_mask, Outcome.isSuccess_mask] at hsuccess
          exact List.cons_eq_cons.mpr ⟨congrArg (id, ·) hsuccess, hok⟩

end Document
end Publishing
