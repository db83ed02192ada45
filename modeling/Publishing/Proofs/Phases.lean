import Publishing.Proofs.Entries

/-
The phases of a batch as changes of the entities one by one.

Selecting, marking and folding go through lists of ids and look each entity up in the
document that the ids before it have left.  As long as no id comes twice, what they do
to an entity depends on that entity alone.
-/

namespace Publishing
namespace Document

/-- What the selection of the entities that wait at `s` makes of one of them. -/
def selected (now : Timestamp) (s : Step) (ids : List String) (id : String) (e : Entity) :
    Entity :=
  if id ∈ ids ∧ (e.step s).hasAttemptsLeft = false then (e.exhaust now s).1 else e

/-- Whether the entity under `id` may be executed once more at `s`. -/
def mayRun (d : Document) (s : Step) (id : String) : Bool :=
  (d.find? id).any fun e => (e.step s).hasAttemptsLeft

def marked (now : Timestamp) (runId : RunId) (s : Step) (ids : List String) (id : String)
    (e : Entity) : Entity :=
  if id ∈ ids then (e.mark now runId s).1 else e

def folded (now : Timestamp) (s : Step) (ending : String → Ending) (ids : List String)
    (id : String) (e : Entity) : Entity :=
  if id ∈ ids then (e.fold now s (ending id).outcome (ending id).durationMs).1 else e

/-- A change of one entity and then of others is a change of all of them. -/
theorem replace_mapEntities {d : Document} {id : String} {e e' : Entity}
    (he : d.find? id = some e) {f g : String → Entity → Entity} (hself : g id e = f id e')
    (hother : ∀ id' v, id' ≠ id → g id' v = f id' v) :
    (d.replace id e').mapEntities f = d.mapEntities g := by
  rw [replace_eq, mapEntities_mapEntities]
  refine mapEntities_congr fun id' v hv => ?_
  by_cases h : id' = id
  · subst h
    rw [he] at hv
    obtain rfl := Option.some.inj hv
    rw [if_pos rfl, hself]
  · rw [if_neg h, hother id' v h]

theorem find?_replace_of_not_mem {d : Document} {id : String} {e : Entity} {rest : List String}
    (h : id ∉ rest) {id' : String} (h' : id' ∈ rest) :
    (d.replace id e).find? id' = d.find? id' := by
  rw [find?_replace, if_neg]
  rintro rfl
  exact h h'

theorem document_selectEach (now : Timestamp) (s : Step) {ids : List String} (hn : ids.Nodup)
    (d : Document) :
    (selectEach now s ids d).document = d.mapEntities (selected now s ids) := by
  induction ids generalizing d with
  | nil =>
    rw [selectEach]
    refine (mapEntities_id d).symm.trans (mapEntities_congr fun id e _ => ?_)
    simp [selected]
  | cons id rest ih =>
    obtain ⟨hid, hrest⟩ := List.nodup_cons.mp hn
    rw [selectEach]
    cases he : d.find? id with
    | none =>
      dsimp only
      rw [ih hrest]
      refine mapEntities_congr fun id' e he' => ?_
      have hne : id' ≠ id := by
        rintro rfl
        rw [he] at he'
        cases he'
      simp [selected, hne]
    | some e =>
      dsimp only
      cases hl : (e.step s).hasAttemptsLeft with
      | true =>
        rw [if_pos rfl]
        dsimp only
        rw [ih hrest]
        refine mapEntities_congr fun id' e' he' => ?_
        by_cases hne : id' = id
        · subst hne
          rw [he] at he'
          obtain rfl := Option.some.inj he'
          simp [selected, hl]
        · simp [selected, hne]
      | false =>
        rw [if_neg (by simp)]
        dsimp only
        rw [ih hrest]
        refine replace_mapEntities he ?_ fun id' v hne => ?_
        · simp [selected, hl, hid]
        · simp [selected, hne]

theorem eligible_selectEach (now : Timestamp) (s : Step) {ids : List String} (hn : ids.Nodup)
    (d : Document) : (selectEach now s ids d).eligible = ids.filter (d.mayRun s) := by
  induction ids generalizing d with
  | nil => rfl
  | cons id rest ih =>
    obtain ⟨hid, hrest⟩ := List.nodup_cons.mp hn
    rw [selectEach]
    cases he : d.find? id with
    | none =>
      dsimp only
      rw [ih hrest, List.filter_cons_of_neg (by simp [mayRun, he])]
    | some e =>
      dsimp only
      cases hl : (e.step s).hasAttemptsLeft with
      | true =>
        rw [if_pos rfl]
        dsimp only
        rw [ih hrest, List.filter_cons_of_pos (by simp [mayRun, he, hl])]
      | false =>
        rw [if_neg (by simp)]
        dsimp only
        rw [ih hrest, List.filter_cons_of_neg (by simp [mayRun, he, hl])]
        refine List.filter_congr fun id' hid' => ?_
        rw [mayRun, mayRun, find?_replace_of_not_mem hid hid']

/-- A selection that sets nobody back leaves the document. -/
theorem selectEach_of_setbacks {now : Timestamp} {s : Step} {ids : List String}
    {d : Document} (h : (selectEach now s ids d).setbacks = []) :
    (selectEach now s ids d).document = d ∧ (selectEach now s ids d).records = [] := by
  induction ids generalizing d with
  | nil => exact ⟨rfl, rfl⟩
  | cons id rest ih =>
    rw [selectEach] at h ⊢
    cases he : d.find? id with
    | none =>
      rw [he] at h
      exact ih h
    | some e =>
      rw [he] at h
      dsimp only at h ⊢
      split at h
      · next hl =>
        rw [if_pos hl]
        exact ih h
      · cases h

/-- Marking succeeds when all entities are tracked, and asks for one call for each. -/
theorem markEach_eq (now : Timestamp) (runId : RunId) (s : Step) {ids : List String}
    (hn : ids.Nodup) (d : Document) (hc : ∀ id ∈ ids, d.contains id) :
    ∃ records calls, d.markEach now runId s ids =
        .ok (d.mapEntities (marked now runId s ids), records, calls) ∧
      calls.map (·.entity) = ids ∧ ∀ c ∈ calls, c.step = s := by
  induction ids generalizing d with
  | nil =>
    refine ⟨[], [], ?_, rfl, nofun⟩
    have : d.mapEntities (marked now runId s []) = d :=
      (mapEntities_congr fun id e _ => by simp [marked]).trans (mapEntities_id d)
    rw [this]
    rfl
  | cons id rest ih =>
    obtain ⟨hid, hrest⟩ := List.nodup_cons.mp hn
    obtain ⟨e, he⟩ := contains_iff.mp (hc id List.mem_cons_self)
    obtain ⟨records, calls, hm, hcalls, hsteps⟩ :=
      ih hrest (d.replace id (e.mark now runId s).1) fun id' hid' => by
        rw [contains_iff, find?_replace_of_not_mem hid hid']
        exact contains_iff.mp (hc id' (List.mem_cons_of_mem _ hid'))
    refine ⟨(e.mark now runId s).2 :: records, ⟨id, e.metadata, s⟩ :: calls, ?_, ?_, ?_⟩
    · have hdoc : (d.replace id (e.mark now runId s).1).mapEntities (marked now runId s rest) =
          d.mapEntities (marked now runId s (id :: rest)) := by
        refine replace_mapEntities he ?_ fun id' v hne => ?_
        · simp [marked, hid]
        · simp [marked, hne]
      rw [markEach, get_eq_ok.mpr he]
      change (markEach now runId s rest (d.replace id (e.mark now runId s).1) >>= _) = _
      rw [hm, hdoc]
      rfl
    · rw [List.map_cons, hcalls]
    · intro c hc'
      rcases List.mem_cons.mp hc' with rfl | hc'
      · rfl
      · exact hsteps c hc'

/-- Folding succeeds when all entities are tracked, and gives a result for each. -/
theorem foldEach_eq (now : Timestamp) (s : Step) (ending : String → Ending) {ids : List String}
    (hn : ids.Nodup) (d : Document) (hc : ∀ id ∈ ids, d.contains id) :
    ∃ tally, d.foldEach now s ending ids = .ok tally ∧
      tally.document = d.mapEntities (folded now s ending ids) ∧
      tally.results = ids.map fun id => (id, (ending id).outcome.isSuccess) := by
  induction ids generalizing d with
  | nil =>
    refine ⟨⟨d, [], [], []⟩, rfl, ?_, rfl⟩
    exact ((mapEntities_congr fun id e _ => by simp [folded]).trans (mapEntities_id d)).symm
  | cons id rest ih =>
    obtain ⟨hid, hrest⟩ := List.nodup_cons.mp hn
    obtain ⟨e, he⟩ := contains_iff.mp (hc id List.mem_cons_self)
    let e' := (e.fold now s (ending id).outcome (ending id).durationMs).1
    obtain ⟨tally, ht, hdoc, hres⟩ :=
      ih hrest (d.replace id e') fun id' hid' => by
        rw [contains_iff, find?_replace_of_not_mem hid hid']
        exact contains_iff.mp (hc id' (List.mem_cons_of_mem _ hid'))
    have hdoc' : (d.replace id e').mapEntities (folded now s ending rest) =
        d.mapEntities (folded now s ending (id :: rest)) := by
      refine replace_mapEntities he ?_ fun id' v hne => ?_
      · simp [folded, hid, e']
      · simp [folded, hne]
    -- what is collected is read off the run
    constructor
    refine ⟨?run, ?_, ?_⟩
    case run =>
      rw [foldEach, get_eq_ok.mpr he]
      change (foldEach now s ending rest (d.replace id e') >>= _) = _
      rw [ht]
      rfl
    · rw [← hdoc', ← hdoc]
    · rw [List.map_cons, ← hres]

/-- A document with the marks of a batch. -/
def withMarks (now : Timestamp) (runId : RunId) (s : Step) (ids : List String) (d : Document) :
    Document :=
  (d.mapEntities (marked now runId s ids)).setCurrentStep (some s)

/-- A document with the outcomes of a batch. -/
def withOutcomes (now : Timestamp) (s : Step) (ending : String → Ending) (ids : List String)
    (batch : Batch) (d : Document) : Document :=
  (d.mapEntities (folded now s ending ids)).addBatch batch

theorem find?_withMarks (now : Timestamp) (runId : RunId) (s : Step) (ids : List String)
    (d : Document) (id : String) : (d.withMarks now runId s ids).find? id =
      (d.find? id).map (marked now runId s ids id) :=
  find?_mapEntities ..

theorem find?_withOutcomes (now : Timestamp) (s : Step) (ending : String → Ending)
    (ids : List String) (batch : Batch) (d : Document) (id : String) :
    (d.withOutcomes now s ending ids batch).find? id =
      (d.find? id).map (folded now s ending ids id) :=
  find?_mapEntities ..

theorem isFiled_withMarks (now : Timestamp) (runId : RunId) (s : Step) (ids : List String)
    {d : Document} (h : d.IsFiled) : (d.withMarks now runId s ids).IsFiled :=
  h.mapEntities fun id e _ => by
    rw [marked]
    split <;> rfl

theorem isFiled_withOutcomes (now : Timestamp) (s : Step) (ending : String → Ending)
    (ids : List String) (batch : Batch) {d : Document} (h : d.IsFiled) :
    (d.withOutcomes now s ending ids batch).IsFiled :=
  h.mapEntities fun id e _ => by
    rw [folded]
    split
    · cases (ending id).outcome <;> rfl
    · rfl

theorem markEach_eq_ok {now : Timestamp} {runId : RunId} {s : Step} {ids : List String}
    (hn : ids.Nodup) {d : Document} (hc : ∀ id ∈ ids, d.contains id) {d' : Document}
    {records : List AuditRecord} {calls : List Call}
    (h : d.markEach now runId s ids = .ok (d', records, calls)) :
    d'.setCurrentStep (some s) = d.withMarks now runId s ids ∧ calls.map (·.entity) = ids ∧
      ∀ c ∈ calls, c.step = s := by
  obtain ⟨_, _, hm, hids, hs⟩ := markEach_eq now runId s hn d hc
  rw [hm] at h
  obtain ⟨rfl, rfl, rfl⟩ := by simpa using h
  exact ⟨rfl, hids, hs⟩

theorem foldEach_eq_ok {now : Timestamp} {s : Step} {ending : String → Ending}
    {ids : List String} (hn : ids.Nodup) {d : Document} (hc : ∀ id ∈ ids, d.contains id)
    {tally : Tally} (h : d.foldEach now s ending ids = .ok tally) (batch : Batch) :
    tally.document.addBatch batch = d.withOutcomes now s ending ids batch ∧
      tally.results = ids.map fun id => (id, (ending id).outcome.isSuccess) := by
  obtain ⟨_, hf, hdoc, hres⟩ := foldEach_eq now s ending hn d hc
  rw [hf] at h
  obtain rfl := Except.ok.inj h
  exact ⟨by rw [hdoc]; rfl, hres⟩

end Document
end Publishing
