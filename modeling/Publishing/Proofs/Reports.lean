import Publishing.Proofs.Operations

/-
The report of an operation names every entity that the operation changed.

An operation on one entity names it.  One on many decides about each by itself, and what
it decides does not depend on what it did to the others, so that its report and the
document that it leaves can be read off the document that it was given.
-/

namespace Publishing
namespace Document

variable {d : Document} {id : String} {now : Timestamp} {s : Step}

/-- What a retry makes of the entity under `id`, if it accepts it. -/
def retried? (now : Timestamp) (s : Step) (d : Document) (id : String) : Option Entity :=
  (d.find? id).bind fun e => (e.retry now s).toOption.map (·.1)

theorem retried?_eq_some {e' : Entity} : d.retried? now s id = some e' ↔
    ∃ e record, d.find? id = some e ∧ e.retry now s = .ok (e', record) := by
  unfold retried?
  rw [Option.bind_eq_some_iff]
  constructor
  · rintro ⟨e, he, hr⟩
    obtain ⟨⟨e'', record⟩, hp, rfl⟩ := Option.map_eq_some_iff.mp hr
    cases hret : e.retry now s with
    | error err => rw [hret] at hp; cases hp
    | ok p =>
      rw [hret] at hp
      obtain rfl := Option.some.inj hp
      exact ⟨e, record, he, hret⟩
  · rintro ⟨e, record, he, hr⟩
    exact ⟨e, he, by rw [hr]; rfl⟩

/-- The ids of the outcomes that are no refusals. -/
def accepted (outcomes : List RetryOutcome) : List String :=
  (outcomes.filter (·.refusal.isNone)).map (·.id)

theorem retried?_congr {d' : Document} (h : d'.find? id = d.find? id) :
    d'.retried? now s id = d.retried? now s id := by
  rw [retried?, h, retried?]

/-- Retries of several entities accept those that a retry of each alone would accept, and
make the same of them. -/
theorem retryEach_eq (now : Timestamp) (s : Step) {ids : List String} (hn : ids.Nodup)
    (d : Document) :
    accepted (retryEach now s ids d).2.2 = ids.filter (fun id => (d.retried? now s id).isSome) ∧
      ∀ id, (retryEach now s ids d).1.find? id =
        if id ∈ ids then (d.retried? now s id).or (d.find? id) else d.find? id := by
  induction ids generalizing d with
  | nil => exact ⟨rfl, fun id => by rw [if_neg List.not_mem_nil, retryEach]⟩
  | cons id₀ rest ih =>
    obtain ⟨hnew, hrest⟩ := List.nodup_cons.mp hn
    rw [retryEach]
    cases hr : d.retry now id₀ s with
    | error err =>
      have hnone : d.retried? now s id₀ = none := by
        rw [Option.eq_none_iff_forall_ne_some]
        intro e' he'
        obtain ⟨e, record, he, hret⟩ := retried?_eq_some.mp he'
        rw [Document.retry, get_eq_ok.mpr he] at hr
        simp [bind, Except.bind, hret, pure, Except.pure] at hr
      obtain ⟨hacc, hfind⟩ := ih hrest d
      refine ⟨?_, fun id => ?_⟩
      · rw [List.filter_cons_of_neg (by rw [hnone]; exact Bool.false_ne_true), ← hacc]
        rfl
      · rw [hfind id]
        by_cases hid : id = id₀
        · subst hid
          rw [if_neg hnew, if_pos List.mem_cons_self, hnone, Option.none_or]
        · simp only [List.mem_cons, hid, false_or]
    | ok p =>
      have hp : d.retry now id₀ s = .ok (p.1, p.2) := hr
      obtain ⟨e, e', he, hret, hd⟩ := retry_eq_ok hp
      have hself : d.retried? now s id₀ = some e' := retried?_eq_some.mpr ⟨e, p.2, he, hret⟩
      have hother : ∀ id, id ≠ id₀ → p.1.find? id = d.find? id := by
        intro id hid
        rw [hd, find?_replace, if_neg hid]
      obtain ⟨hacc, hfind⟩ := ih hrest p.1
      refine ⟨?_, fun id => ?_⟩
      · rw [List.filter_cons_of_pos (by rw [hself]; rfl)]
        refine congrArg (id₀ :: ·) (hacc.trans (List.filter_congr fun id hid => ?_))
        rw [retried?_congr (hother id fun h => hnew (h ▸ hid))]
      · rw [hfind id]
        by_cases hid : id = id₀
        · subst hid
          rw [if_neg hnew, if_pos List.mem_cons_self, hself, Option.some_or, hd, find?_replace,
            if_pos rfl, he, Option.map_some]
        · simp only [List.mem_cons, hid, false_or, hother id hid, retried?_congr (hother id hid)]

/-- A retry of all does to each entity what a retry of it alone would do. -/
theorem retryReport_eq (hf : d.IsFiled) (id : String) :
    (id ∈ (d.retryReport now s).report.entities ↔ (d.retried? now s id).isSome) ∧
      (d.retryReport now s).document.find? id = (d.retried? now s id).or (d.find? id) := by
  have hnodup : (d.failedAt s).Nodup := nodup_filter_ids hf _
  obtain ⟨hacc, hfind⟩ := retryEach_eq now s hnodup d
  have hfailed : (d.retried? now s id).isSome → id ∈ d.failedAt s := by
    intro h
    obtain ⟨e', he'⟩ := Option.isSome_iff_exists.mp h
    obtain ⟨e, record, he, hret⟩ := retried?_eq_some.mp he'
    exact (mem_filter_ids hf).mpr ⟨e, he, decide_eq_true (Entity.retry_eq_ok hret).1⟩
  constructor
  · show id ∈ accepted (retryEach now s (d.failedAt s) d).2.2 ↔ _
    rw [hacc, List.mem_filter]
    exact ⟨fun h => h.2, fun h => ⟨hfailed h, h⟩⟩
  · refine (hfind id).trans ?_
    split
    · rfl
    · next hid =>
      rw [Option.not_isSome_iff_eq_none.mp (mt hfailed hid), Option.none_or]

/-- The items that a migration adds are tracked as finalized, and all else stays. -/
theorem insertFinalized_eq (items : List ContentItem) (d : Document) :
    (∀ id ∈ (d.insertFinalized now items).added, ∃ item : ContentItem, item.id = id ∧
      (d.insertFinalized now items).document.find? id = some (imported now item).1) ∧
    ∀ id, id ∉ (d.insertFinalized now items).added →
      (d.insertFinalized now items).document.find? id = d.find? id := by
  induction items generalizing d with
  | nil => exact ⟨fun _ h => absurd h List.not_mem_nil, fun _ _ => rfl⟩
  | cons item rest ih =>
    rw [insertFinalized]
    split
    · exact ih d
    · obtain ⟨hadded, hother⟩ := ih (d.insert item.id (imported now item).1)
      refine ⟨fun id hid => ?_, fun id hid => ?_⟩
      · by_cases hmem :
            id ∈ ((d.insert item.id (imported now item).1).insertFinalized now rest).added
        · exact hadded id hmem
        · obtain rfl := (List.mem_cons.mp hid).resolve_right hmem
          exact ⟨item, rfl, (hother _ hmem).trans (by rw [find?_insert, if_pos rfl])⟩
      · obtain ⟨hne, hmem⟩ := not_or.mp (mt List.mem_cons.mpr hid)
        exact (hother id hmem).trans (by rw [find?_insert, if_neg hne])

theorem find?_document_sweep (f : Entity → Verdict) (message : Nat → String) (d : Document)
    (id : String) :
    (d.sweep f message).document.find? id = (d.find? id).map fun e => (f e).entity e :=
  find?_mapEntities ..

theorem mem_entities_sweep (hf : d.IsFiled) {f : Entity → Verdict} {message : Nat → String} :
    id ∈ (d.sweep f message).report.entities ↔ ∃ e, d.find? id = some e ∧ (f e).isChanged :=
  mem_filter_ids hf

theorem find?_sweep_of_not_mem (hf : d.IsFiled) {f : Entity → Verdict} {message : Nat → String}
    (hid : id ∉ (d.sweep f message).report.entities) :
    (d.sweep f message).document.find? id = d.find? id := by
  rw [find?_document_sweep]
  cases he : d.find? id with
  | none => rfl
  | some e =>
    rw [Option.map_some]
    cases hv : f e with
    | untouched | skipped => rfl
    | changed e' records =>
      exact absurd ((mem_entities_sweep hf).mpr ⟨e, he, by rw [hv]; rfl⟩) hid

end Document

/-- An entity that the report does not name is as it was. -/
theorem Operation.Makes.find?_of_not_mem {op : Operation} {now : Timestamp} {d : Document}
    {c : Change} (h : op.Makes now d c) (hf : d.IsFiled) {id : String}
    (hid : id ∉ c.report.entities) : c.document.find? id = d.find? id := by
  have hone : ∀ {id' : String} (e : Entity), id ∉ [id'] →
      (d.replace id' e).find? id = d.find? id := by
    intro id' e hne
    rw [Document.find?_replace, if_neg (mt List.mem_singleton.mpr hne)]
  cases h with
  | retryOne => exact hone _ hid
  | retryAll =>
    obtain ⟨hmem, hfind⟩ := Document.retryReport_eq hf id
    rw [hfind, Option.not_isSome_iff_eq_none.mp (mt hmem.mpr hid), Option.none_or]
  | skipOne => exact hone _ hid
  | skipAll _ hc =>
    obtain rfl := Except.ok.inj hc
    exact Document.find?_sweep_of_not_mem hf hid
  | reset => exact Document.find?_sweep_of_not_mem hf hid
  | complete => exact hone _ hid
  | fail => exact hone _ hid
  | register =>
    show (d.insert _ _).find? id = _
    rw [Document.find?_insert, if_neg (mt List.mem_singleton.mpr hid)]
  | migrate items => exact (Document.insertFinalized_eq items d).2 id hid

end Publishing
