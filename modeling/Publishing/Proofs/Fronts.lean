import Publishing.Proofs.Preservation
import Publishing.Proofs.Reports

/-
An accepted operation keeps a valid document valid just when it acts at the front.

A skip and a reset settle where an entity stands, and what is newly tracked stands right.
But a retry makes current the step that it is asked for, and a forced outcome the step
that it finds running, or the one after.  In a valid document that may be a step behind
the first open one, and then the document that the operation makes is not valid, and a
file store refuses it.
-/

namespace Publishing

/-- The step that an operation makes current, or leaves, without a look at the others. -/
def Operation.actsAt (e : Entity) : Operation → Option Step
  | retry step _ _ => Step.ofName? step
  | complete _ | fail _ _ => e.runningStep?
  | skipTo _ _ | reset _ _ | register _ _ | migrate _ => none

/-- Whether an operation acts at the current step of each entity that it changes. -/
def Change.IsAtFront (c : Change) (op : Operation) (d : Document) : Prop :=
  ∀ id ∈ c.report.entities, ∀ e s, d.find? id = some e → op.actsAt e = some s → e.currentStep = s

namespace Entity

variable {e e' : Entity} {now : Timestamp} {s : Step}

theorem IsValid.retry_iff (h : e.IsValid) {record : AuditRecord}
    (hr : e.retry now s = .ok (e', record)) : e'.IsValid ↔ e.currentStep = s := by
  obtain ⟨hfailed, data, rfl, -⟩ := retry_eq_ok hr
  rw [isValid_congr (sameProgress_emit ..).toSameWork]
  exact h.requeue_iff now hfailed

theorem IsValid.reset (h : e.IsValid) (now : Timestamp) (s : Step) : (e.reset now s).1.IsValid :=
  (h.settle_clearFrom s).congr (step_reset now s e).toSameWork

theorem IsValid.entity_skipVerdict (h : e.IsValid) (now : Timestamp) (s : Step) :
    ((e.skipVerdict now s).entity e).IsValid := by
  unfold skipVerdict
  split
  · exact h
  · split
    · exact h
    · exact h.skipTo now s

theorem IsValid.entity_resetVerdict (h : e.IsValid) (now : Timestamp) (s : Step) :
    ((e.resetVerdict now s).entity e).IsValid := by
  rcases resetVerdict_cases now s e with ⟨-, he, -⟩ | ⟨hv, -, -⟩
  · rw [he]
    exact h
  · rw [hv]
    exact h.reset now s

theorem Tracked.isValid {id : String} {records : List AuditRecord} (h : Tracked now id e records) :
    e.IsValid := by
  cases h with
  | registered metadata =>
    exact (isValid_draft now id metadata).congr (sameProgress_emit ..).toSameWork
  | imported metadata =>
    exact (isValid_finalized now id metadata).congr (sameProgress_emit ..).toSameWork

end Entity

namespace Document

variable {d : Document} {now : Timestamp}

theorem Changes.version {L : AttemptChange → Prop} {d' : Document} {records : List AuditRecord}
    (h : Changes now L d records d') : d'.version = d.version := by
  induction h with
  | done d => rfl
  | change _ _ _ _ ih => exact ih
  | track _ _ _ ih => exact ih

/-- A sweep that keeps entities valid leaves those that it names valid. -/
theorem entry_sweep (hf : d.IsFiled) (hv : d.Every Entity.IsValid) {f : Entity → Verdict}
    (hkeep : ∀ e : Entity, e.IsValid → ((f e).entity e).IsValid) {message : Nat → String}
    {id : String} (hid : id ∈ (d.sweep f message).report.entities) :
    ∃ e', (d.sweep f message).document.find? id = some e' ∧ e'.IsValid := by
  obtain ⟨e, he, -⟩ := (mem_entities_sweep hf).mp hid
  exact ⟨_, by rw [find?_document_sweep, he, Option.map_some], hkeep e (hv id e he)⟩

end Document

namespace Operation

variable {op : Operation} {now : Timestamp} {d : Document} {c : Change} {id : String}

/-- What an operation makes of an entity that it names. -/
theorem Makes.entry (h : op.Makes now d c) (hf : d.IsFiled) (hv : d.Every Entity.IsValid)
    (hid : id ∈ c.report.entities) : ∃ e', c.document.find? id = some e' ∧
      (e'.IsValid ↔ ∀ e s, d.find? id = some e → op.actsAt e = some s → e.currentStep = s) := by
  -- an operation that acts nowhere has to leave a valid entity
  have hnowhere : ∀ {e' : Entity}, (∀ e, op.actsAt e = none) →
      c.document.find? id = some e' ∧ e'.IsValid → ∃ e', c.document.find? id = some e' ∧
        (e'.IsValid ↔ ∀ e s, d.find? id = some e → op.actsAt e = some s → e.currentStep = s) := by
    intro e' hacts ⟨he', hvalid⟩
    refine ⟨e', he', fun _ e s _ hs => ?_, fun _ => hvalid⟩
    rw [hacts e] at hs
    cases hs
  -- and one that acts at `s` is judged by the entity that was there before
  have hacting : ∀ {e e' : Entity} {s : Step}, d.find? id = some e → op.actsAt e = some s →
      c.document.find? id = some e' → (e'.IsValid ↔ e.currentStep = s) →
      ∃ e', c.document.find? id = some e' ∧
        (e'.IsValid ↔ ∀ e s, d.find? id = some e → op.actsAt e = some s → e.currentStep = s) := by
    intro e e' s he hs he' hiff
    refine ⟨e', he', hiff.trans ⟨fun hc e₀ s₀ he₀ hs₀ => ?_, fun hc => hc e s he hs⟩⟩
    obtain rfl := Option.some.inj (he.symm.trans he₀)
    exact hc.trans (Option.some.inj (hs.symm.trans hs₀))
  have hreplace : ∀ {e : Entity} (e' : Entity), d.find? id = some e →
      (d.replace id e').find? id = some e' := by
    intro e e' he
    rw [Document.find?_replace, if_pos rfl, he, Option.map_some]
  cases h with
  | retryOne hs he hr =>
    obtain rfl := List.mem_singleton.mp hid
    exact hacting he hs (hreplace _ he) ((hv _ _ he).retry_iff hr)
  | retryAll hs =>
    obtain ⟨hmem, hfind⟩ := Document.retryReport_eq hf id
    obtain ⟨e', he'⟩ := Option.isSome_iff_exists.mp (hmem.mp hid)
    obtain ⟨e, record, he, hr⟩ := Document.retried?_eq_some.mp he'
    exact hacting he hs (by rw [hfind, he', Option.some_or]) ((hv _ _ he).retry_iff hr)
  | skipOne _ he =>
    obtain rfl := List.mem_singleton.mp hid
    exact hnowhere (fun _ => rfl) ⟨hreplace _ he, (hv _ _ he).skipTo now _⟩
  | skipAll _ hc =>
    obtain rfl := Except.ok.inj hc
    obtain ⟨e', he'⟩ := Document.entry_sweep hf hv
      (fun e h => h.entity_skipVerdict now _) hid
    exact hnowhere (fun _ => rfl) he'
  | reset _ regex =>
    obtain ⟨e', he'⟩ := Document.entry_sweep hf hv (fun e h => by
      split
      · exact h.entity_resetVerdict now _
      · exact h) hid
    exact hnowhere (fun _ => rfl) he'
  | complete he hs data =>
    obtain rfl := List.mem_singleton.mp hid
    refine hacting he hs (hreplace _ he) ?_
    rw [Entity.isValid_congr (Entity.sameProgress_emit ..).toSameWork]
    exact (hv _ _ he).completeStep_iff now _ (Entity.runningStep?_spec hs)
  | fail he hs data =>
    obtain rfl := List.mem_singleton.mp hid
    refine hacting he hs (hreplace _ he) ?_
    rw [Entity.isValid_congr (Entity.sameProgress_emit ..).toSameWork]
    exact (hv _ _ he).failStep_iff now _ _ (Entity.runningStep?_spec hs)
  | register _ ha =>
    obtain rfl := List.mem_singleton.mp hid
    subst ha
    exact hnowhere (fun _ => rfl) ⟨by rw [Document.find?_insert, if_pos rfl],
      (Entity.Tracked.registered _).isValid⟩
  | migrate items =>
    obtain ⟨item, rfl, hitem⟩ := (Document.insertFinalized_eq items d).1 id hid
    exact hnowhere (fun _ => rfl) ⟨hitem, (Entity.Tracked.imported item.metadata).isValid⟩

/-- The document of an operation is valid just when the operation acts at the front. -/
theorem Makes.check_iff (h : op.Makes now d c) (hd : d.check = .ok ()) :
    c.document.check = .ok () ↔ c.IsAtFront op d := by
  obtain ⟨hversion, hf, hv⟩ := Document.check_eq_ok_iff.mp hd
  rw [Document.check_eq_ok_iff]
  constructor
  · rintro ⟨-, -, hv'⟩ id hid
    obtain ⟨e', he', hiff⟩ := h.entry hf hv hid
    exact hiff.mp (hv' id e' he')
  · intro hfront
    refine ⟨h.changes.version ▸ hversion, h.changes.isFiled hf, fun id e' he' => ?_⟩
    by_cases hid : id ∈ c.report.entities
    · obtain ⟨e'', he'', hiff⟩ := h.entry hf hv hid
      obtain rfl := Option.some.inj (he''.symm.trans he')
      exact hiff.mpr (hfront id hid)
    · rw [h.find?_of_not_mem hf hid] at he'
      exact hv id e' he'

end Operation

/-! ## What a file store makes of it -/

theorem Operation.perform_eq_commit {σ : Type} {op : Operation}
    {f : Timestamp → Document → Except Error Change} (hp : op.prepare = .ok f) {store : Store σ}
    {now : Timestamp} {d : Document} {w : σ} (hl : store.load now w = .ok d) {c : Change}
    (hc : f now d = .ok c) (m : Emitter σ) :
    op.perform store now m w = c.commit store now m w := by
  have hchange : (do let change ← op.prepare; change now (← store.load now w) :
      Except Error Change) = .ok c := by
    rw [hp, hl]
    exact hc
  unfold perform
  simp only [hchange]

theorem Change.result_commit {σ : Type} (c : Change) (store : Store σ) (now : Timestamp)
    (m : Emitter σ) (w : σ) (hn : c.report.entities ≠ []) :
    (c.commit store now m w).1 = (store.save now c.document w).1.map fun _ => c.report := by
  unfold commit
  simp only [List.isEmpty_iff, hn, if_false]
  rcases store.save now c.document w with ⟨e | ⟨⟩, w'⟩ <;> rfl

theorem FileStore.refuses_iff (s : FileStore) (now : Timestamp) (d : Document) (fs : FileSystem) :
    (∃ v, (s.save now d fs).1 = .error (.corruptState s.path (.unsavable v))) ↔
      s.readOnly = false ∧ d.check ≠ .ok () := by
  constructor
  · rintro ⟨v, hv⟩
    refine ⟨Bool.eq_false_iff.mpr fun hr => ?_, fun hc => ?_⟩
    · rw [save, if_pos hr] at hv
      cases hv
    · obtain ⟨path, fault, he⟩ := save_error hc hv
      cases he
  · rintro ⟨hr, hc⟩
    cases hd : d.check with
    | ok u => exact absurd hd hc
    | error v =>
      refine ⟨v, ?_⟩
      rw [save, if_neg (Bool.eq_false_iff.mp hr), hd]

namespace Document

variable {d : Document}

/-- Of the operations that a valid document admits, those and only those leave a valid one
that act at the current step of each entity that they change.  The others end in the refusal
of a file store to save the document, and a retry of one entity in memory leaves a document
that is not valid. -/
theorem check_iff_isAtFront (hd : d.check = .ok ()) :
    (∀ (op : Operation) f now c, op.prepare = .ok f → f now d = .ok c →
      (c.document.check = .ok () ↔ c.IsAtFront op d) ∧
      ∀ {σ : Type} [HasFiles σ] (s : FileStore) (m : Emitter σ) (w : σ),
        s.load now (files w) = .ok d →
        ((∃ v, (op.perform s.store now m w).1 = .error (.corruptState s.path (.unsavable v))) ↔
          s.readOnly = false ∧ ¬ c.IsAtFront op d)) ∧
    ∀ now id s d' record, d.retry now id s = .ok (d', record) →
      (d'.check = .ok () ↔ ∀ e, d.find? id = some e → e.currentStep = s) := by
  refine ⟨fun op f now c hp hc => ?_, fun now id s d' record hr => ?_⟩
  · have hiff := (Operation.makes hp hc).check_iff hd
    refine ⟨hiff, fun {σ} _ s m w hl => ?_⟩
    have hload : s.store.load now w = .ok d := hl
    rw [Operation.perform_eq_commit hp hload hc]
    by_cases hn : c.report.entities = []
    · -- nothing is saved, and there is nothing to act at
      have hfront : c.IsAtFront op d := by
        intro id hid
        rw [hn] at hid
        cases hid
      refine ⟨fun ⟨v, hv⟩ => ?_, fun h => absurd hfront h.2⟩
      rw [Change.commit, hn] at hv
      cases hv
    · rw [← hiff, ← FileStore.refuses_iff s now c.document (files w)]
      refine exists_congr fun v => ?_
      rw [c.result_commit s.store now m w hn]
      show (s.save now c.document (files w)).1.map _ = _ ↔ _
      cases (s.save now c.document (files w)).1 <;> simp [Except.map]
  · obtain ⟨e, e', he, hret, rfl⟩ := retry_eq_ok hr
    obtain ⟨hversion, hf, hv⟩ := check_eq_ok_iff.mp hd
    have hreplaced : (d.replace id e').check = .ok () ↔ e'.IsValid := by
      rw [check_eq_ok_iff]
      refine ⟨fun h => h.2.2 id e' (by rw [find?_replace, if_pos rfl, he, Option.map_some]),
        fun h => ⟨hversion, hf.replace ?_, hv.replace h⟩⟩
      exact ((Entity.Changed.retried hret).id).trans (hf id e he)
    rw [hreplaced, (hv id e he).retry_iff hret]
    refine ⟨fun h e₀ he₀ => ?_, fun h => h e he⟩
    exact Option.some.inj (he.symm.trans he₀) ▸ h

/-- One entity waits at its first step, and a later one is as `r` says. -/
def behind (r : StepRecord) : Document :=
  oneDraft.replace "post" ((Entity.draft (.ofSeconds 0) "post" .null).modifyStep .tested fun _ => r)

def overtaken : Document := behind { StepRecord.fresh with status := .running, attempts := 1 }

def lagging : Document := behind { StepRecord.fresh with status := .failed, attempts := 1 }

theorem exists_broken {α : Type} {x : Except Error α} {f : α → Document}
    (h : x.toOption.any fun a => !(f a).isValid) : ∃ a, x = .ok a ∧ (f a).check ≠ .ok () := by
  cases x with
  | error e => cases h
  | ok a =>
    refine ⟨a, rfl, fun hc => ?_⟩
    change (!(f a).isValid) = true at h
    rw [isValid, hc] at h
    cases h

theorem check_iff_isAtFront_overtaken :
    overtaken.check = .ok () ∧ ∃ c, overtaken.forceComplete (.ofSeconds 0) "post" = .ok c ∧
      ¬ c.IsAtFront (.complete "post") overtaken := by
  have hd : overtaken.check = .ok () := by decide +kernel
  obtain ⟨c, hc, hbroken⟩ := exists_broken
    (x := overtaken.forceComplete (.ofSeconds 0) "post") (f := Change.document) (by decide +kernel)
  exact ⟨hd, c, hc, fun hfront =>
    hbroken (((check_iff_isAtFront hd).1 (.complete "post") _ _ c rfl hc).1.mpr hfront)⟩

/-- Of a valid document an accepted retry and accepted forced outcomes make documents that
are not valid. -/
theorem exists_accepted_not_valid :
    (lagging.check = .ok () ∧ ∃ d' record,
      lagging.retry (.ofSeconds 0) "post" .tested = .ok (d', record) ∧ d'.check ≠ .ok ()) ∧
    overtaken.check = .ok () ∧
      (∃ c, overtaken.forceComplete (.ofSeconds 0) "post" = .ok c ∧ c.document.check ≠ .ok ()) ∧
      ∃ c, overtaken.forceFail (.ofSeconds 0) "post" "no" = .ok c ∧ c.document.check ≠ .ok () := by
  refine ⟨⟨by decide +kernel, ?_⟩, by decide +kernel, exists_broken (by decide +kernel),
    exists_broken (by decide +kernel)⟩
  obtain ⟨p, hp, hc⟩ := exists_broken (x := lagging.retry (.ofSeconds 0) "post" .tested)
    (f := Prod.fst) (by decide +kernel)
  exact ⟨p.1, p.2, hp, hc⟩

end Document
end Publishing
