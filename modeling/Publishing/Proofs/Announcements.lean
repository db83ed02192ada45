import Publishing.Proofs.Stages

/-
Every checkpoint is announced once.

A change that adds checkpoints to an entity leaves one audit record for each of them, in the
same order at each step, and a batch that is added to the history leaves one of its own.
-/

namespace Publishing

/-- Whether a record is about a step of the entity with this id. -/
def AuditRecord.concerns (id : String) (s : Step) (r : AuditRecord) : Bool :=
  r.entity = some id && r.step = s

namespace Entity

/-- `records` are the announcements of what `e'` has more checkpoints than `e`. -/
structure Announces (e : Entity) (records : List AuditRecord) (e' : Entity) : Prop where
  own : ∀ r ∈ records, r.entity = some e.id
  added : ∀ s, ∃ new, (e'.step s).checkpoints = (e.step s).checkpoints ++ new ∧
    records.filter (·.concerns e.id s) = new.map (.ofCheckpoint e.id s)

theorem concerns_ofCheckpoint (id : String) (s k : Step) (c : Checkpoint) :
    (AuditRecord.ofCheckpoint id s c).concerns id k ↔ s = k := by
  simp only [AuditRecord.concerns, AuditRecord.ofCheckpoint, decide_true, Bool.true_and]
  exact decide_eq_true_iff

/-- Leaving a checkpoint announces it. -/
theorem announces_emit {e x : Entity} (hid : x.id = e.id)
    (hc : ∀ s, (x.step s).checkpoints = (e.step s).checkpoints) (now : Timestamp) (s : Step)
    (operation : String) (data : Json) :
    e.Announces [(x.emit now s operation data).2] (x.emit now s operation data).1 where
  own := by
    intro r hr
    obtain rfl := List.mem_singleton.mp hr
    exact congrArg some hid
  added := by
    intro k
    have hrecord : (x.emit now s operation data).2 =
        .ofCheckpoint e.id s ⟨operation, now, data⟩ := by
      rw [← hid]
      rfl
    rw [step_emit, hrecord]
    by_cases hk : k = s
    · subst hk
      refine ⟨[⟨operation, now, data⟩], ?_, ?_⟩
      · rw [if_pos rfl, ← hc]
        rfl
      · rw [List.filter_cons_of_pos ((concerns_ofCheckpoint ..).mpr rfl)]
        rfl
    · refine ⟨[], ?_, ?_⟩
      · rw [if_neg hk, hc, List.append_nil]
      · rw [List.filter_cons_of_neg (fun h => hk ((concerns_ofCheckpoint ..).mp h).symm)]
        rfl

/-- A skip leaves a checkpoint at each step that it passes over. -/
theorem announces_skipTo (now : Timestamp) (s : Step) (e : Entity) :
    e.Announces (e.skipRecords now s) (e.skipTo now s) where
  own := by
    intro r hr
    obtain ⟨k, -, rfl⟩ := List.mem_map.mp hr
    rfl
  added := by
    intro k
    let c := skipCheckpoint now s
    have hfilter : (e.skipRecords now s).filter (·.concerns e.id k) =
        ((s.predecessors.filter fun s' => !(e.step s').status.isDone).filter (· = k)).map
          fun s' => .ofCheckpoint e.id s' c := by
      rw [skipRecords, List.filter_map]
      congr 1
      refine List.filter_congr fun s' _ => ?_
      exact Bool.eq_iff_iff.mpr ((concerns_ofCheckpoint ..).trans decide_eq_true_iff.symm)
    have hnodup : (s.predecessors.filter fun s' => !(e.step s').status.isDone).Nodup :=
      (show s.predecessors.Nodup by cases s <;> decide).filter _
    have hmem : k ∈ s.predecessors.filter (fun s' => !(e.step s').status.isDone) ↔
        k < s ∧ (e.step k).status.isDone = false := by
      simp [Step.mem_predecessors]
    rw [hfilter, List.filter_eq, hnodup.count, step_skipTo]
    by_cases hk : k < s ∧ (e.step k).status.isDone = false
    · refine ⟨[c], ?_, ?_⟩
      · rw [if_pos hk.1, if_neg (by rw [hk.2]; exact nofun)]
        rfl
      · rw [if_pos (hmem.mpr hk)]
        rfl
    · refine ⟨[], ?_, ?_⟩
      · rw [List.append_nil]
        split
        · next hlt =>
          rw [if_pos]
          cases hd : (e.step k).status.isDone with
          | true => rfl
          | false => exact absurd ⟨hlt, hd⟩ hk
        · rfl
      · rw [if_neg (fun h => hk (hmem.mp h))]
        rfl

/-- Every change announces the checkpoints that it leaves. -/
theorem Changed.announces {now : Timestamp} {c : AttemptChange} {e e' : Entity}
    {records : List AuditRecord} (h : e.Changed now c e' records) : e.Announces records e' := by
  cases h with
  | retried h =>
    obtain ⟨-, data, rfl, rfl⟩ := retry_eq_ok h
    refine announces_emit (e := e) (x := e.requeue now _) rfl (fun k => ?_) ..
    rw [step_requeue]
    split <;> rfl
  | skipped _ s => exact announces_skipTo now s e
  | reset s =>
    refine announces_emit (e := e) (x := (e.clearFrom s).settle.touch now) (id_settle _)
      (fun k => ?_) ..
    show (((e.clearFrom s).settle).step k).checkpoints = _
    rw [step_settle, step_clearFrom]
    split <;> rfl
  | completed =>
    refine announces_emit (e := e) (x := e.completeStep now _ _) rfl (fun k => ?_) ..
    rw [step_completeStep]
    split <;> rfl
  | failed =>
    refine announces_emit (e := e) (x := e.failStep now _ _ _) rfl (fun k => ?_) ..
    rw [step_failStep]
    split <;> rfl
  | blocked => exact announces_emit (e := e) (x := e.block now) rfl (fun k => rfl) ..
  | marked s =>
    refine announces_emit (e := e) (x := e.beginStep now s) rfl (fun k => ?_) ..
    rw [step_beginStep]
    split <;> rfl

end Entity
namespace Document

/-- The checkpoints at a step of the entity under `id`; none if there is no such entity. -/
def checkpoints (d : Document) (id : String) (s : Step) : List Checkpoint :=
  ((d.find? id).map fun e => (e.step s).checkpoints).getD []

/-- `records` are the announcements of what `d'` has more than `d`: checkpoints, and batches
in the history. -/
structure Announces (d : Document) (records : List AuditRecord) (d' : Document) : Prop where
  added : ∀ id s, ∃ new, d'.checkpoints id s = d.checkpoints id s ++ new ∧
    records.filter (·.concerns id s) = new.map (.ofCheckpoint id s)
  batches : ∃ new, d'.global.stepHistory = d.global.stepHistory ++ new ∧
    records.filter (·.entity.isNone) = new.map .ofBatch

variable {d d' d'' : Document} {records more : List AuditRecord}

theorem Announces.refl (d : Document) : d.Announces [] d :=
  ⟨fun _ _ => ⟨[], (List.append_nil _).symm, rfl⟩, [], (List.append_nil _).symm, rfl⟩

theorem Announces.trans (h : d.Announces records d') (h' : d'.Announces more d'') :
    d.Announces (records ++ more) d'' where
  added id s := by
    obtain ⟨new, hd, hr⟩ := h.added id s
    obtain ⟨new', hd', hr'⟩ := h'.added id s
    refine ⟨new ++ new', ?_, ?_⟩
    · rw [hd', hd, List.append_assoc]
    · rw [List.filter_append, hr, hr', List.map_append]
  batches := by
    obtain ⟨new, hd, hr⟩ := h.batches
    obtain ⟨new', hd', hr'⟩ := h'.batches
    refine ⟨new ++ new', ?_, ?_⟩
    · rw [hd', hd, List.append_assoc]
    · rw [List.filter_append, hr, hr', List.map_append]

/-- Records about one entity say nothing of the others, nor of batches. -/
theorem filter_of_own {id : String} (h : ∀ r ∈ records, r.entity = some id) :
    (∀ id' s, id' ≠ id → records.filter (·.concerns id' s) = []) ∧
      records.filter (·.entity.isNone) = [] := by
  constructor
  · intro id' s hne
    refine List.filter_eq_nil_iff.mpr fun r hr hc => hne ?_
    simp only [AuditRecord.concerns, h r hr, Bool.and_eq_true, decide_eq_true_eq,
      Option.some.injEq] at hc
    exact hc.1.symm
  · refine List.filter_eq_nil_iff.mpr fun r hr hn => ?_
    rw [h r hr] at hn
    cases hn

/-- What one entity announces, the document with it announces. -/
theorem announces_of_entity {id : String} (e' : Entity)
    (hown : ∀ r ∈ records, r.entity = some id)
    (hfind : ∀ id', d'.find? id' = if id' = id then some e' else d.find? id')
    (hadded : ∀ s, ∃ new, (e'.step s).checkpoints = d.checkpoints id s ++ new ∧
      records.filter (·.concerns id s) = new.map (.ofCheckpoint id s))
    (hglobal : d'.global = d.global) : d.Announces records d' where
  added id' s := by
    by_cases hid : id' = id
    · subst hid
      obtain ⟨new, hc, hr⟩ := hadded s
      refine ⟨new, ?_, hr⟩
      rw [checkpoints, hfind, if_pos rfl]
      exact hc
    · refine ⟨[], ?_, (filter_of_own hown).1 id' s hid⟩
      rw [checkpoints, hfind, if_neg hid, List.append_nil]
      rfl
  batches := ⟨[], by rw [hglobal, List.append_nil], (filter_of_own hown).2⟩

theorem announces_replace {id : String} {e e' : Entity} (hd : d.IsFiled) (he : d.find? id = some e)
    (h : e.Announces records e') : d.Announces records (d.replace id e') := by
  obtain rfl := hd id e he
  refine announces_of_entity e' h.own (fun id' => ?_) (fun s => ?_) rfl
  · rw [find?_replace]
    split
    · next heq => rw [heq, he, Option.map_some]
    · rfl
  · rw [checkpoints, he]
    exact h.added s

theorem announces_insert {now : Timestamp} {id : String} {e : Entity} (hn : d.find? id = none)
    (h : Entity.Tracked now id e records) : d.Announces records (d.insert id e) := by
  have hdraft : ∀ (x : Entity) (s : Step) (operation : String), x.id = id →
      (∀ s, (x.step s).checkpoints = []) →
      (∀ r ∈ [(x.emit now s operation .null).2], r.entity = some id) ∧
        ∀ k, ∃ new, ((x.emit now s operation .null).1.step k).checkpoints =
            d.checkpoints id k ++ new ∧
          [(x.emit now s operation .null).2].filter (·.concerns id k) =
            new.map (.ofCheckpoint id k) := by
    intro x s operation hid hnone
    have hx := Entity.announces_emit (e := x) rfl (fun _ => rfl) now s operation .null
    obtain rfl := hid
    refine ⟨hx.own, fun k => ?_⟩
    have := hx.added k
    rw [hnone] at this
    rw [checkpoints, hn]
    exact this
  cases h with
  | registered metadata =>
    obtain ⟨hown, hadded⟩ := hdraft (.draft now id metadata) .ingested OperationName.registered rfl
      fun s => by cases s <;> rfl
    exact announces_of_entity _ hown (find?_insert d id _) hadded rfl
  | imported metadata =>
    obtain ⟨hown, hadded⟩ := hdraft (.finalized now id metadata) .finalized OperationName.migrated
      rfl fun s => by cases s <;> rfl
    exact announces_of_entity _ hown (find?_insert d id _) hadded rfl

/-- A sequence of changes announces all that they leave. -/
theorem Changes.announces {now : Timestamp} {L : AttemptChange → Prop}
    (h : Changes now L d records d') (hd : d.IsFiled) : d.Announces records d' := by
  induction h with
  | done d => exact .refl d
  | change he _ h _ ih =>
    exact (announces_replace hd he h.announces).trans (ih (hd.replace (h.id.trans (hd _ _ he))))
  | track hn h _ ih => exact (announces_insert hn h).trans (ih (hd.insert h.id))

theorem announces_setCurrentStep (s : Option Step) (d : Document) :
    d.Announces [] (d.setCurrentStep s) :=
  ⟨fun _ _ => ⟨[], (List.append_nil _).symm, rfl⟩, [], (List.append_nil _).symm, rfl⟩

theorem announces_addBatch (b : Batch) (d : Document) :
    d.Announces [.ofBatch b] (d.addBatch b) where
  added _ _ := ⟨[], (List.append_nil _).symm, rfl⟩
  batches := ⟨[b], rfl, rfl⟩

end Document

/-! ## What is delivered -/

namespace Emitter

variable {σ : Type} {sinks : List (Sink σ)} {δ : σ → List AuditRecord} {m : Emitter σ}

/-- Whether `δ` says what has been delivered to the sinks. -/
def Records (sinks : List (Sink σ)) (δ : σ → List AuditRecord) : Prop :=
  ∀ (record : AuditRecord) (w : σ), δ (deliver sinks record w) = δ w ++ [record]

theorem Records.sinks_ne_nil (h : Records sinks δ) (w : σ) : sinks ≠ [] := by
  rintro rfl
  have hlen := congrArg List.length (h default w)
  simp [deliver] at hlen

theorem Records.queue_enqueue (h : Records m.sinks δ) (w : σ) (records : List AuditRecord) :
    (m.enqueue records).queue = m.queue ++ records := by
  unfold enqueue
  rw [if_neg]
  rw [List.isEmpty_iff]
  exact h.sinks_ne_nil w

theorem Records.flush (h : Records m.sinks δ) (w : σ) :
    δ (m.flush w).2 = δ w ++ m.queue := by
  show δ (m.queue.foldl (fun w r => deliver m.sinks r w) w) = _
  induction m.queue generalizing w with
  | nil => exact (List.append_nil _).symm
  | cons record rest ih => rw [List.foldl_cons, ih, h, List.append_assoc]; rfl

end Emitter
end Publishing
