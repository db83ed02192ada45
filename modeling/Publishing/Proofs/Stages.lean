import Publishing.Proofs.Operations

/-
The phases of a run as sequences of changes.

No id comes twice in a batch, so while a phase goes through the ids, the entities that are
still to come are as they were before it.
-/

namespace Publishing
namespace Document

variable {now : Timestamp} {L : AttemptChange → Prop} {d : Document}

theorem changes_blockStuck (now : Timestamp) (hL : L .kept) (d : Document) :
    Changes now L d (d.blockStuck now).2 (d.blockStuck now).1 := by
  refine changes_all (fun e => (e.blockStuck now).1)
    (fun e => (e.blockStuck now).2) d fun id e _ => ?_
  rcases Entity.blockStuck_cases now e with h | ⟨s, data, hs, -, h⟩
  · rw [h]
    exact Or.inl ⟨rfl, rfl⟩
  · rw [h]
    exact Or.inr ⟨.kept, hL, .blocked (Or.inl (Entity.runningStep?_spec hs)) ..⟩

theorem changes_selectEach (now : Timestamp) (hL : L .kept) (s : Step) {ids : List String}
    (hn : ids.Nodup) (hp : ∀ id ∈ ids, ∀ e, d.find? id = some e → e.isPendingAt s) :
    Changes now L d (selectEach now s ids d).records (selectEach now s ids d).document := by
  induction ids generalizing d with
  | nil => exact .done d
  | cons id rest ih =>
    obtain ⟨hid, hrest⟩ := List.nodup_cons.mp hn
    have hp' : ∀ id' ∈ rest, ∀ e, d.find? id' = some e → e.isPendingAt s :=
      fun id' hid' => hp id' (List.mem_cons_of_mem _ hid')
    rw [selectEach]
    cases he : d.find? id with
    | none => exact ih hrest hp'
    | some e =>
      dsimp only
      cases hl : (e.step s).hasAttemptsLeft with
      | true => exact ih hrest hp'
      | false =>
        refine .change (c := .kept) he hL
          (.blocked (Or.inr ⟨hp id List.mem_cons_self e he, hl⟩) ..) (ih hrest ?_)
        intro id' hid' e' he'
        rw [find?_replace_of_not_mem hid hid'] at he'
        exact hp' id' hid' e' he'

theorem changes_select (now : Timestamp) (hL : L .kept) (s : Step) (hd : d.IsFiled) :
    Changes now L d (d.select now s).records (d.select now s).document := by
  refine changes_selectEach now hL s (nodup_pendingAt hd s) fun id hid e he => ?_
  obtain ⟨e', he', hp⟩ := (mem_pendingAt hd).mp hid
  obtain rfl := Option.some.inj (he.symm.trans he')
  exact hp

theorem Awaits.tail {s : Step} {id : String} {rest : List String} (h : d.Awaits s (id :: rest))
    (e : Entity) : (d.replace id e).Awaits s rest where
  nodup := (List.nodup_cons.mp h.nodup).2
  waiting id' hid' := by
    rw [find?_replace_of_not_mem (List.nodup_cons.mp h.nodup).1 hid']
    exact h.waiting id' (List.mem_cons_of_mem _ hid')

theorem changes_markEach {runId : RunId} {s : Step} (hL : L (.counted s)) {ids : List String}
    (hw : d.Awaits s ids) {d' : Document} {records : List AuditRecord} {calls : List Call}
    (h : d.markEach now runId s ids = .ok (d', records, calls)) : Changes now L d records d' := by
  induction ids generalizing d d' records calls with
  | nil =>
    obtain ⟨rfl, rfl, rfl⟩ := by simpa [markEach] using h
    exact .done d
  | cons id rest ih =>
    obtain ⟨e, he, hp, hl⟩ := hw.waiting id List.mem_cons_self
    obtain ⟨e', he', h⟩ := bind_eq_ok.mp h
    obtain rfl := Option.some.inj (he.symm.trans (get_eq_ok.mp he'))
    obtain ⟨⟨d₁, more, calls₁⟩, hm, h⟩ := bind_eq_ok.mp h
    obtain ⟨rfl, rfl, -⟩ := by simpa using Except.ok.inj h
    exact .change he hL (.marked s hp hl runId) (ih (hw.tail _) hm)

theorem changes_foldEach (hL : L .kept) {s : Step} {ending : String → Ending} {ids : List String}
    (hn : ids.Nodup)
    (hr : ∀ id ∈ ids, ∀ e, d.find? id = some e → (e.step s).status = .running) {tally : Tally}
    (h : d.foldEach now s ending ids = .ok tally) :
    Changes now L d tally.records tally.document := by
  induction ids generalizing d tally with
  | nil =>
    obtain rfl := Except.ok.inj h
    exact .done d
  | cons id rest ih =>
    obtain ⟨hid, hrest⟩ := List.nodup_cons.mp hn
    obtain ⟨e, he, h⟩ := bind_eq_ok.mp h
    have he := get_eq_ok.mp he
    obtain ⟨tally₁, ht, h⟩ := bind_eq_ok.mp h
    obtain rfl := Except.ok.inj h
    refine .change he hL (Entity.changed_fold (hr id List.mem_cons_self e he) _ _)
      (ih hrest (fun id' hid' e' he' => ?_) ht)
    rw [find?_replace_of_not_mem hid hid'] at he'
    exact hr id' (List.mem_cons_of_mem _ hid') e' he'

/-- Among the marks of a batch, its entities are at work. -/
theorem running_withMarks (now : Timestamp) (runId : RunId) {s : Step} {ids : List String}
    (hw : d.Awaits s ids) :
    ∀ id ∈ ids, ∀ e, (d.withMarks now runId s ids).find? id = some e →
      (e.step s).status = .running := by
  intro id hid e he
  obtain ⟨e₀, he₀, -, hl⟩ := hw.waiting id hid
  rw [find?_withMarks, he₀, Option.map_some, marked, if_pos hid] at he
  obtain rfl := Option.some.inj he
  rw [(Entity.step_mark now runId hl s).1, if_pos rfl]

end Document
end Publishing
