import Mathlib.Algebra.GroupWithZero.Nat
import Publishing.Proofs.Announcements
import Publishing.Proofs.Moves

/-
The history of the batches agrees with the checkpoints of the entities.

A batch sums up the outcomes of its calls, and each outcome is a checkpoint of its entity.  The
two are made in different places but saved together, so on disk they always agree: what was
marked but never came to an outcome is in neither.  What carries this is that all checkpoints
are announced: so many as the records of a change tell of are there more than before, and only
batches tell of starts and outcomes.
-/

namespace Publishing

/-! ## Sums over the values of a map -/

namespace Keyed

variable {α : Type u}

theorem sum_insertEntry {key : String} {l : List (String × α)} (h : l.lookup key = none)
    (value : α) (f : α → Nat) :
    ((insertEntry key value l).map fun p => f p.2).sum = f value + (l.map fun p => f p.2).sum := by
  induction l with
  | nil => rfl
  | cons p rest ih =>
    rw [List.lookup_cons] at h
    have hne : key ≠ p.1 := by
      rintro rfl
      rw [beq_self_eq_true] at h
      cases h
    rw [beq_eq_false_iff_ne.mpr hne] at h
    unfold insertEntry
    rw [if_neg hne]
    split
    · rfl
    · rw [List.map_cons, List.sum_cons, ih h, List.map_cons, List.sum_cons]
      exact Nat.add_left_comm ..

theorem sum_values_insert {m : Keyed α} {key : String} (h : m.find? key = none) (value : α)
    (f : α → Nat) : ((m.insert key value).values.map f).sum = f value + (m.values.map f).sum := by
  simp only [values, List.map_map]
  exact sum_insertEntry h value f

theorem sum_modifyEntry {key : String} {value : α} {l : List (String × α)}
    (hn : (l.map (·.1)).Nodup) (h : (key, value) ∈ l) (value' : α) (f : α → Nat) :
    (l.map fun p => f (if p.1 = key then value' else p.2)).sum + f value =
      (l.map fun p => f p.2).sum + f value' := by
  induction l with
  | nil => cases h
  | cons p rest ih =>
    obtain ⟨hp, hrest⟩ := List.nodup_cons.mp hn
    rcases List.mem_cons.mp h with rfl | h
    · -- the others have other keys
      have hothers : (rest.map fun p => f (if p.1 = key then value' else p.2)) =
          rest.map fun p => f p.2 := by
        refine List.map_congr_left fun p hmem => ?_
        rw [if_neg fun heq => hp (List.mem_map.mpr ⟨p, hmem, heq⟩)]
      simp only [List.map_cons, List.sum_cons, hothers, if_true]
      omega
    · have hne : p.1 ≠ key := fun heq => hp (List.mem_map.mpr ⟨_, h, heq.symm⟩)
      simp only [List.map_cons, List.sum_cons]
      rw [if_neg hne, Nat.add_assoc, ih hrest h, Nat.add_assoc]

theorem sum_values_modify {m : Keyed α} {key : String} {value : α} (h : m.find? key = some value)
    (value' : α) (f : α → Nat) :
    ((m.modify key fun _ => value').values.map f).sum + f value =
      (m.values.map f).sum + f value' := by
  simp only [values, modify, entries_map, List.map_map]
  exact sum_modifyEntry (nodup_keys m) (find?_eq_some_iff.mp h) value' f

end Keyed

/-! ## Checkpoints and records, counted -/

/-- Whether a record tells of an operation at a step. -/
def AuditRecord.tells (operation : String) (s : Step) (r : AuditRecord) : Bool :=
  r.operation = operation && r.step = s

namespace Entity

variable {e e' : Entity} {records : List AuditRecord}

/-- How many checkpoints an entity has of an operation at a step. -/
def recorded (operation : String) (s : Step) (e : Entity) : Nat :=
  (e.step s).checkpoints.countP (·.operation = operation)

theorem Announces.recorded (h : e.Announces records e') (operation : String) (s : Step) :
    e'.recorded operation s = e.recorded operation s + records.countP (·.tells operation s) := by
  obtain ⟨new, hnew, hrecords⟩ := h.added s
  have hcount : new.countP (·.operation = operation) =
      (records.filter (·.concerns e.id s)).countP (·.operation = operation) := by
    rw [hrecords, List.countP_map]
    rfl
  rw [Entity.recorded, hnew, List.countP_append, hcount, List.countP_filter, Entity.recorded]
  congr 1
  refine List.countP_congr fun r hr => ?_
  simp [AuditRecord.tells, AuditRecord.concerns, h.own r hr]

theorem Tracked.recorded {now : Timestamp} {id : String} (h : Tracked now id e records)
    (operation : String) (s : Step) :
    e.recorded operation s = records.countP (·.tells operation s) := by
  have hnew : ∀ (x : Entity) (k : Step) (name : String) (data : Json),
      (x.step s).checkpoints = [] → (x.emit now k name data).1.recorded operation s =
        [(x.emit now k name data).2].countP (·.tells operation s) := by
    intro x k name data hx
    rw [(announces_emit rfl (fun _ => rfl) now k name data).recorded operation s, Entity.recorded,
      hx, List.countP_nil, Nat.zero_add]
  cases h with
  | registered metadata => exact hnew _ _ _ _ (by cases s <;> rfl)
  | imported metadata => exact hnew _ _ _ _ (by cases s <;> rfl)

theorem ReadsBack.recorded (h : e.ReadsBack e') (operation : String) (s : Step) :
    e'.recorded operation s = e.recorded operation s := by
  have hread := (h.step s).checkpoints
  unfold Entity.recorded
  generalize (e.step s).checkpoints = l at hread ⊢
  generalize (e'.step s).checkpoints = l' at hread ⊢
  induction hread with
  | nil => rfl
  | cons hc _ ih => rw [List.countP_cons, List.countP_cons, ih, hc.operation]

end Entity

namespace Document

variable {d d' : Document} {now : Timestamp} {records : List AuditRecord}

/-- How many checkpoints there are of an operation at a step. -/
def recorded (operation : String) (s : Step) (d : Document) : Nat :=
  (d.all.map (·.recorded operation s)).sum

/-- There are so many more checkpoints as the records of a change tell of. -/
theorem Changes.recorded {L : AttemptChange → Prop} (h : Changes now L d records d')
    (operation : String) (s : Step) :
    d'.recorded operation s = d.recorded operation s + records.countP (·.tells operation s) := by
  induction h with
  | done d => rfl
  | @change d _ id e e' _ _ _ he _ h _ ih =>
    have hreplace : (d.replace id e').recorded operation s + e.recorded operation s =
        d.recorded operation s + e'.recorded operation s :=
      Keyed.sum_values_modify he e' (·.recorded operation s)
    rw [h.announces.recorded operation s] at hreplace
    rw [ih, List.countP_append]
    omega
  | @track d _ id e _ _ hn h _ ih =>
    have hinsert : (d.insert id e).recorded operation s =
        e.recorded operation s + d.recorded operation s :=
      Keyed.sum_values_insert hn e (·.recorded operation s)
    rw [h.recorded operation s] at hinsert
    rw [ih, List.countP_append]
    omega

theorem ReadsBack.recorded (h : d.ReadsBack d') (operation : String) (s : Step) :
    d'.recorded operation s = d.recorded operation s := by
  have hread := h.entities
  simp only [Document.recorded, all, Keyed.values, List.map_map]
  generalize d.entities.entries = l at hread ⊢
  generalize d'.entities.entries = l' at hread ⊢
  induction hread with
  | nil => rfl
  | cons hab _ ih =>
    rw [List.map_cons, List.map_cons, List.sum_cons, List.sum_cons, ih]
    exact congrArg (· + _) (hab.2.recorded operation s)

end Document

/-! ## What the records of operations and runs tell of -/

/-- The operations that only batches record. -/
def OperationName.ofBatches : List String := [stepStarted, stepCompleted, stepFailed]

/-- Whether records tell of no start and of no outcome. -/
def AuditRecord.Quiet (records : List AuditRecord) : Prop :=
  ∀ r ∈ records, r.operation ∉ OperationName.ofBatches

namespace AuditRecord.Quiet

variable {r : AuditRecord} {records more : List AuditRecord}

theorem nil : Quiet [] := nofun

theorem cons (hr : r.operation ∉ OperationName.ofBatches) (h : Quiet records) :
    Quiet (r :: records) := List.forall_mem_cons.mpr ⟨hr, h⟩

theorem one (hr : r.operation ∉ OperationName.ofBatches) : Quiet [r] := cons hr nil

theorem flatMap {α : Type} {l : List α} {f : α → List AuditRecord} (h : ∀ a ∈ l, Quiet (f a)) :
    Quiet (l.flatMap f) := by
  intro r hr
  obtain ⟨a, ha, hr⟩ := List.mem_flatMap.mp hr
  exact h a ha r hr

theorem countP {operation : String} (h : Quiet records) (ho : operation ∈ OperationName.ofBatches)
    (s : Step) : records.countP (·.tells operation s) = 0 := by
  refine List.countP_eq_zero.mpr fun r hr ht => h r hr ?_
  simp only [tells, Bool.and_eq_true, decide_eq_true_eq] at ht
  exact ht.1 ▸ ho

end AuditRecord.Quiet

open AuditRecord (Quiet)

namespace Entity

variable {now : Timestamp} {e e' : Entity} {s : Step}

theorem quiet_skipRecords (now : Timestamp) (s : Step) (e : Entity) :
    Quiet (e.skipRecords now s) := by
  intro r hr
  obtain ⟨k, -, rfl⟩ := List.mem_map.mp hr
  exact (by decide : OperationName.stepSkipped ∉ OperationName.ofBatches)

theorem quiet_retry {record : AuditRecord} (h : e.retry now s = .ok (e', record)) :
    record.operation ∉ OperationName.ofBatches := by
  obtain ⟨-, data, -, rfl⟩ := retry_eq_ok h
  exact (by decide : OperationName.retryRequested ∉ OperationName.ofBatches)

theorem quiet_skipVerdict (now : Timestamp) (s : Step) (e : Entity) :
    Quiet (e.skipVerdict now s).records := by
  unfold skipVerdict
  split
  · exact .nil
  · split
    · exact .nil
    · exact quiet_skipRecords now s e

theorem quiet_resetVerdict (now : Timestamp) (s : Step) (e : Entity) :
    Quiet (e.resetVerdict now s).records := by
  rcases e.resetVerdict_cases now s with ⟨-, -, hr⟩ | ⟨hv, -⟩
  · exact hr ▸ .nil
  · exact hv ▸ .one (by decide : OperationName.stepReset ∉ OperationName.ofBatches)

theorem quiet_blockStuck (now : Timestamp) (e : Entity) : Quiet (e.blockStuck now).2 := by
  rcases blockStuck_cases now e with h | ⟨s, data, -, -, h⟩
  · exact h ▸ .nil
  · exact h ▸ .one (by decide : OperationName.stuckDetected ∉ OperationName.ofBatches)

end Entity

namespace Document

variable {d d' : Document} {now : Timestamp} {s : Step} {ids : List String}

theorem quiet_retryEach (now : Timestamp) (s : Step) (ids : List String) (d : Document) :
    Quiet (retryEach now s ids d).2.1 := by
  induction ids generalizing d with
  | nil => exact .nil
  | cons id rest ih =>
    rw [retryEach]
    cases hr : d.retry now id s with
    | error e => exact ih d
    | ok p =>
      have hp : d.retry now id s = .ok (p.1, p.2) := hr
      obtain ⟨_, _, -, hret, -⟩ := retry_eq_ok hp
      exact .cons (Entity.quiet_retry hret) (ih p.1)

theorem quiet_insertFinalized (now : Timestamp) (items : List ContentItem) (d : Document) :
    Quiet (d.insertFinalized now items).records := by
  induction items generalizing d with
  | nil => exact .nil
  | cons item rest ih =>
    rw [insertFinalized]
    split
    · exact ih d
    · exact .cons (by decide : OperationName.migrated ∉ OperationName.ofBatches) (ih _)

theorem quiet_selectEach (now : Timestamp) (s : Step) (ids : List String) (d : Document) :
    Quiet (selectEach now s ids d).records := by
  induction ids generalizing d with
  | nil => exact .nil
  | cons id rest ih =>
    rw [selectEach]
    cases d.find? id with
    | none => exact ih d
    | some e =>
      dsimp only
      split
      · exact ih d
      · exact .cons (by decide : OperationName.attemptsExhausted ∉ OperationName.ofBatches) (ih _)

/-- Marks tell of one start for each entity, and of nothing else. -/
theorem countP_markEach {runId : RunId} {records : List AuditRecord} {calls : List Call}
    (h : d.markEach now runId s ids = .ok (d', records, calls)) (operation : String) (k : Step) :
    records.countP (·.tells operation k) =
      if operation = OperationName.stepStarted ∧ s = k then ids.length else 0 := by
  induction ids generalizing d d' records calls with
  | nil =>
    obtain ⟨rfl, rfl, rfl⟩ := by simpa [markEach] using h
    simp
  | cons id rest ih =>
    obtain ⟨e, he, h⟩ := bind_eq_ok.mp h
    obtain ⟨⟨d₁, more, calls₁⟩, hm, h⟩ := bind_eq_ok.mp h
    obtain ⟨-, hrecords⟩ := Prod.mk.inj (Except.ok.inj h)
    obtain ⟨rfl, -⟩ := Prod.mk.inj hrecords
    have htells : (e.mark now runId s).2.tells operation k ↔
        operation = OperationName.stepStarted ∧ s = k := by
      rw [eq_comm (a := operation), AuditRecord.tells, Bool.and_eq_true, decide_eq_true_iff,
        decide_eq_true_iff]
      rfl
    rw [List.countP_cons, ih hm, List.length_cons]
    by_cases ho : operation = OperationName.stepStarted ∧ s = k
    · rw [if_pos ho, if_pos ho]
      exact congrArg (rest.length + ·) (if_pos (htells.mpr ho))
    · rw [if_neg ho, if_neg ho]
      exact congrArg (0 + ·) (if_neg (ho ∘ htells.mp))

/-- Outcomes tell of so many successes and failures as are tallied, and of nothing else. -/
theorem countP_foldEach {ending : String → Ending} {tally : Tally}
    (h : d.foldEach now s ending ids = .ok tally) (k : Step) :
    tally.records.countP (·.tells OperationName.stepStarted k) = 0 ∧
    (tally.records.countP (·.tells OperationName.stepCompleted k) =
      if s = k then tally.succeeded else 0) ∧
    tally.records.countP (·.tells OperationName.stepFailed k) =
      if s = k then tally.failed else 0 := by
  induction ids generalizing d tally with
  | nil =>
    obtain rfl := Except.ok.inj h
    simp [Tally.succeeded, Tally.failed]
  | cons id rest ih =>
    obtain ⟨e, he, h⟩ := bind_eq_ok.mp h
    obtain ⟨more, ht, h⟩ := bind_eq_ok.mp h
    obtain rfl := Except.ok.inj h
    obtain ⟨hstarted, hcompleted, hfailed⟩ := ih ht
    simp only [List.countP_cons, Tally.succeeded, Tally.failed] at hcompleted hfailed ⊢
    rw [hstarted, hcompleted, hfailed]
    cases (ending id).outcome with
    | succeeded _ | failed _ =>
      by_cases hk : s = k <;>
        simp [Entity.emit, AuditRecord.ofCheckpoint, AuditRecord.tells,
          Outcome.isSuccess, hk, OperationName.stepStarted, OperationName.stepCompleted,
          OperationName.stepFailed]

end Document

/-- No operation tells of starts or outcomes of batches, not even a forced one. -/
theorem Operation.Makes.quiet {op : Operation} {now : Timestamp} {d : Document} {c : Change}
    (h : op.Makes now d c) : Quiet c.records := by
  cases h with
  | retryOne _ _ hr => exact .one (Entity.quiet_retry hr)
  | retryAll => exact Document.quiet_retryEach now _ _ d
  | skipOne => exact Entity.quiet_skipRecords now _ _
  | skipAll _ hc =>
    obtain rfl := Except.ok.inj hc
    exact .flatMap fun e _ => e.quiet_skipVerdict now _
  | reset =>
    refine .flatMap fun e _ => ?_
    dsimp only
    split
    · exact e.quiet_resetVerdict now _
    · exact .nil
  | complete => exact .one (by decide : OperationName.forceCompleted ∉ OperationName.ofBatches)
  | fail => exact .one (by decide : OperationName.forceFailed ∉ OperationName.ofBatches)
  | register _ ha =>
    obtain rfl := ha
    exact .one (by decide : OperationName.registered ∉ OperationName.ofBatches)
  | migrate items => exact Document.quiet_insertFinalized now items d

/-! ## The balance -/

namespace Document

variable {d d' : Document} {now : Timestamp} {s : Step} {ids : List String}
  {records : List AuditRecord}

/-- A figure summed up over the batches of a step. -/
def total (figure : Batch → Nat) (s : Step) (d : Document) : Nat :=
  ((d.global.stepHistory.filter (·.step = s)).map figure).sum

/-- Whether the history of the batches and the checkpoints tell of the same outcomes. -/
structure IsBalanced (d : Document) : Prop where
  succeeded : ∀ s, d.total (·.succeeded) s = d.recorded OperationName.stepCompleted s
  failed : ∀ s, d.total (·.failed) s = d.recorded OperationName.stepFailed s
  processed : ∀ s, d.total (·.processed) s ≤ d.recorded OperationName.stepStarted s
  batches : ∀ b ∈ d.global.stepHistory, b.processed = b.succeeded + b.failed ∧ 1 ≤ b.processed

theorem isBalanced_empty (now : Timestamp) : (empty now).IsBalanced :=
  ⟨fun _ => rfl, fun _ => rfl, fun _ => Nat.le_refl 0, List.forall_mem_nil _⟩

/-- Only the batches and these counts matter. -/
theorem IsBalanced.congr (h : d.IsBalanced) (hg : d'.global.stepHistory = d.global.stepHistory)
    (hc : ∀ s, d'.recorded OperationName.stepCompleted s = d.recorded OperationName.stepCompleted s)
    (hf : ∀ s, d'.recorded OperationName.stepFailed s = d.recorded OperationName.stepFailed s)
    (hs : ∀ s, d.recorded OperationName.stepStarted s ≤ d'.recorded OperationName.stepStarted s) :
    d'.IsBalanced := by
  have htotal : ∀ figure s, d'.total figure s = d.total figure s := by
    intro figure s
    rw [total, total, hg]
  exact ⟨fun s => by rw [htotal, hc, h.succeeded], fun s => by rw [htotal, hf, h.failed],
    fun s => htotal _ s ▸ (h.processed s).trans (hs s), hg ▸ h.batches⟩

theorem IsBalanced.reads (h : d.IsBalanced) (hr : d.ReadsBack d') : d'.IsBalanced :=
  h.congr (by rw [hr.global]) (hr.recorded _) (hr.recorded _)
    fun s => Nat.le_of_eq (hr.recorded _ s).symm

theorem IsBalanced.quiet {L : AttemptChange → Prop} (h : d.IsBalanced)
    (hc : Changes now L d records d') (hq : Quiet records) : d'.IsBalanced := by
  have hsame : ∀ operation ∈ OperationName.ofBatches, ∀ s,
      d'.recorded operation s = d.recorded operation s := by
    intro operation ho s
    rw [hc.recorded, hq.countP ho, Nat.add_zero]
  exact h.congr (by rw [hc.global]) (hsame _ (by decide)) (hsame _ (by decide))
    fun s => Nat.le_of_eq (hsame _ (by decide) s).symm

theorem IsBalanced.setCurrentStep (h : d.IsBalanced) (s : Option Step) :
    (d.setCurrentStep s).IsBalanced :=
  ⟨h.succeeded, h.failed, h.processed, h.batches⟩

theorem IsBalanced.stamp (h : d.IsBalanced) (now : Timestamp) : (d.stamp now).IsBalanced :=
  ⟨h.succeeded, h.failed, h.processed, h.batches⟩

/-- The marks of a batch add starts at its step and nothing else. -/
theorem recorded_marks {runId : RunId} {calls : List Call} (hw : d.Awaits s ids)
    (hm : d.markEach now runId s ids = .ok (d', records, calls)) (k : Step) :
    ((d'.setCurrentStep (some s)).recorded OperationName.stepStarted k =
      d.recorded OperationName.stepStarted k + if s = k then ids.length else 0) ∧
    ∀ operation, operation ≠ OperationName.stepStarted →
      (d'.setCurrentStep (some s)).recorded operation k = d.recorded operation k := by
  have hcount : ∀ operation, (d'.setCurrentStep (some s)).recorded operation k =
      d.recorded operation k + records.countP (·.tells operation k) :=
    fun operation => (changes_markEach (L := fun _ => True) trivial hw hm).recorded operation k
  refine ⟨?_, fun operation ho => ?_⟩
  · rw [hcount, countP_markEach hm]
    simp only [true_and]
  · rw [hcount, countP_markEach hm, if_neg fun h => ho h.1, Nat.add_zero]

theorem stepHistory_marks {runId : RunId} {calls : List Call} (hw : d.Awaits s ids)
    (hm : d.markEach now runId s ids = .ok (d', records, calls)) :
    (d'.setCurrentStep (some s)).global.stepHistory = d.global.stepHistory := by
  show d'.global.stepHistory = _
  rw [(changes_markEach (L := fun _ => True) trivial hw hm).global]

theorem IsBalanced.marks {runId : RunId} {calls : List Call} (h : d.IsBalanced)
    (hw : d.Awaits s ids) (hm : d.markEach now runId s ids = .ok (d', records, calls)) :
    (d'.setCurrentStep (some s)).IsBalanced :=
  h.congr (stepHistory_marks hw hm) (fun k => (recorded_marks hw hm k).2 _ (by decide))
    (fun k => (recorded_marks hw hm k).2 _ (by decide))
    fun k => (recorded_marks hw hm k).1 ▸ Nat.le_add_right ..

theorem total_addBatch (figure : Batch → Nat) (k : Step) (b : Batch) (d : Document) :
    (d.addBatch b).total figure k = d.total figure k + if b.step = k then figure b else 0 := by
  rw [total, addBatch, List.filter_append, List.map_append, List.sum_append]
  by_cases hk : b.step = k
  · rw [if_pos hk, List.filter_cons_of_pos (by simpa using hk)]
    rfl
  · rw [if_neg hk, List.filter_cons_of_neg (by simpa using hk)]
    rfl

theorem Tally.succeeded_add_failed (tally : Tally) :
    tally.succeeded + tally.failed = tally.results.length := by
  rw [List.length_eq_countP_add_countP (fun r => r.2), succeeded, failed]
  simp

/-- A batch adds to the history what its outcomes add to the entities. -/
theorem IsBalanced.folds {now' : Timestamp} {runId : RunId} {calls : List Call}
    {ending : String → Ending} {tally : Tally} {b : Batch} (h : d.IsBalanced) (hne : ids ≠ [])
    (hw : d.Awaits s ids) (hm : d.markEach now runId s ids = .ok (d', records, calls))
    (hf : (d'.setCurrentStep (some s)).foldEach now' s ending ids = .ok tally)
    (hb : b.Sums s ids tally) : (tally.document.addBatch b).IsBalanced := by
  obtain ⟨hchanges, hresults⟩ := changes_folded hw hm hf
  have hhistory : tally.document.global.stepHistory = d.global.stepHistory := by
    rw [hchanges.global]
    exact stepHistory_marks hw hm
  have htotal : ∀ figure k, (tally.document.addBatch b).total figure k =
      d.total figure k + if s = k then figure b else 0 := by
    intro figure k
    rw [total_addBatch, hb.step, total, hhistory, total]
  have hrecorded : ∀ operation k, (tally.document.addBatch b).recorded operation k =
      (d'.setCurrentStep (some s)).recorded operation k +
        tally.records.countP (·.tells operation k) := fun _ _ => hchanges.recorded ..
  refine ⟨fun k => ?_, fun k => ?_, fun k => ?_, ?_⟩
  · rw [htotal, hrecorded, (recorded_marks hw hm k).2 _ (by decide), (countP_foldEach hf k).2.1,
      h.succeeded, hb.succeeded]
  · rw [htotal, hrecorded, (recorded_marks hw hm k).2 _ (by decide), (countP_foldEach hf k).2.2,
      h.failed, hb.failed]
  · rw [htotal, hrecorded, (recorded_marks hw hm k).1, (countP_foldEach hf k).1, hb.processed]
    exact Nat.add_le_add_right (h.processed k) _
  · show ∀ b' ∈ tally.document.global.stepHistory ++ [b], _
    rw [hhistory]
    refine List.forall_mem_append.mpr ⟨h.batches, List.forall_mem_singleton.mpr ⟨?_, ?_⟩⟩
    · rw [hb.processed, hb.succeeded, hb.failed, tally.succeeded_add_failed, hresults,
        List.length_map]
    · rw [hb.processed]
      exact List.length_pos_iff.mpr hne

theorem IsBalanced.moves (h : d.IsBalanced) (ha : d.MovesTo d') : d'.IsBalanced := by
  cases ha with
  | blocked now =>
    exact h.quiet (changes_blockStuck (L := fun _ => True) now trivial d)
      (.flatMap fun e _ => e.quiet_blockStuck now)
  | selected now s hd =>
    exact h.quiet (changes_select (L := fun _ => True) now trivial s hd)
      (quiet_selectEach now s _ d)
  | marked hw hm => exact h.marks hw hm
  | folded hne hw hm hf hb => exact h.folds hne hw hm hf hb
  | closed => exact h.setCurrentStep none

/-- Whatever an operation or a run saves is balanced if what it has loaded is. -/
theorem IsBalanced.becomes (h : d.IsBalanced) (hd : d.MayBecome d') : d'.IsBalanced := by
  cases hd with
  | changed hm => exact h.quiet hm.changes hm.quiet
  | moved ha =>
    induction ha with
    | refl => exact h
    | tail _ ha ih => exact ih.moves ha

end Document

namespace Site

variable {σ : Type}

/-- After any history, with whatever runs were halted or cut off, the batches of each step have
as many successes as the entities have checkpoints of its completion, as many failures as they
have of its failing, and have not processed more than were started; and each batch has processed
something and gives its outcome.  So it is of the document on disk, and of what is read there. -/
theorem isBalanced_of_history (S : Site σ) {h : List Episode} {t : String}
    (hh : S.History h (some t)) :
    (∃ d : Document, t = d.text ∧ d.IsBalanced) ∧
      ∀ d, Document.ofText t = .ok d → d.IsBalanced := by
  have hdisk : ∀ text, some t = some text → ∃ d : Document, text = d.text ∧ d.IsBalanced := by
    refine hh.induct_writes (P := fun t => ∀ text, t = some text →
      ∃ d : Document, text = d.text ∧ d.IsBalanced) nofun fun w t hbefore hwrites => ?_
    cases hwrites with
    | nothing => exact hbefore
    | @document now time d d' load becomes =>
      have hloaded : d.IsBalanced := by
        rcases S.load_ok load with ⟨-, rfl⟩ | ⟨t, hw, ht, -⟩
        · exact Document.isBalanced_empty now
        · obtain ⟨d₀, rfl, hd₀⟩ := hbefore t hw
          exact hd₀.reads (Document.readsBack_of_ofText ht)
      rintro _ ⟨⟩
      exact ⟨_, rfl, (hloaded.becomes becomes).stamp time⟩
  obtain ⟨d, rfl, hd⟩ := hdisk t rfl
  exact ⟨⟨d, rfl, hd⟩, fun d' hd' => hd.reads (Document.readsBack_of_ofText hd')⟩

theorem isBalanced_of_history_memory : ∃ t, Memory.site.History
      [.operation (.register "post" .null) (.ok ⟨"post registered", ["post"], []⟩),
        .run (Step.all.map fun s => ⟨"post", .null, s⟩)] (some t) ∧
    (∃ d : Document, t = d.text ∧ d.IsBalanced) ∧
      ∀ d, Document.ofText t = .ok d → d.IsBalanced := by
  obtain ⟨t, ht⟩ := Memory.history_run
  exact ⟨t, ht, isBalanced_of_history Memory.site ht⟩

end Site
end Publishing
