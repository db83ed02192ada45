import Publishing.Proofs.FreshStarts

/-
Whether a batch is in progress, as the document on disk tells it.

A run that saves anything says last that no batch is in progress any more, but one that finds
nothing to do says nothing.  Operations leave the current step as it is.  So the step of a run that
was cut off stays there until the next run that saves something, and stays out for as long as the
runs that save come to their ends.
-/

namespace Publishing

/-- Whether a document with this text, and whatever is read from it, has no step in progress. -/
def Document.IsTextAtRest (t : String) : Prop :=
  (∃ d : Document, t = d.text ∧ d.global.currentStep = none) ∧
    ∀ d, Document.ofText t = .ok d → d.global.currentStep = none

theorem Document.isTextAtRest_text {d : Document} (h : d.global.currentStep = none) :
    IsTextAtRest d.text :=
  ⟨⟨d, rfl, h⟩, fun _ hd => (readsBack_of_ofText hd).global ▸ h⟩

namespace RunSetup

variable {σ : Type} {r : RunSetup σ} {m : Emitter σ} {w : σ} {d : Document} {summary : RunSummary}

/-- A run that reports has saved nothing, or last of all that it is done. -/
theorem lastSaved_of_ok (hl : r.store.load (r.clock w) w = .ok d) (hf : d.IsFiled)
    (hok : (r.run m w).result = .ok summary) :
    RunEvent.savings (r.run m w).trace = [] ∨
      ∃ d' : Document, RunEvent.lastSaved (r.run m w).trace = some (d'.setCurrentStep none) := by
  obtain ⟨st, st', hsteps, hclose, hrun, -⟩ := run_of_ok hl hok
  have hsavings : RunEvent.savings (r.run m w).trace = RunEvent.savings st'.trace := by
    rw [hrun]
    show RunEvent.savings (st'.trace ++ [.done summary]) = _
    rw [RunEvent.savings_append]
    exact List.append_nil _
  rw [RunEvent.lastSaved, hsavings]
  cases hc : st.changed with
  | true => exact Or.inr ⟨_, RunState.close_of_changed hc hclose⟩
  | false =>
    rw [RunState.close_of_unchanged hc] at hclose
    obtain ⟨-, rfl⟩ := Prod.mk.inj hclose
    have hopen := RunState.isFiled_opening hf r m w
    obtain ⟨-, -, htrace⟩ := RunState.runSteps_of_unchanged hopen hsteps hc
    rw [htrace]
    exact Or.inl rfl

end RunSetup

namespace Site

variable {σ : Type} {S : Site σ} {h : List Episode} {t : Option String}

/-- What can have happened if the last run that left another text came to its end. -/
inductive RestsAfter (S : Site σ) : List Episode → Option String → Prop
  | absent : RestsAfter S [] none
  | operation {h : List Episode} (op : Operation) (now : Timestamp) (m : Emitter σ) (w : σ)
      (sinks : S.SparedBySinks m.sinks) (before : RestsAfter S h (S.text? w)) :
      RestsAfter S (h ++ [.operation op (op.perform S.store now m w).1])
        (S.text? (op.perform S.store now m w).2.2)
  | reported {h : List Episode} {summary : RunSummary} (r : RunSetup σ) (m : Emitter σ) (w : σ)
      (store : r.store = S.store) (sinks : S.SparedBySinks m.sinks)
      (calls : S.SparedByCalls r.executor) (result : (r.run m w).result = .ok summary)
      (saved : RunEvent.savings (r.run m w).trace ≠ []) (before : S.History h (S.text? w)) :
      RestsAfter S (h ++ [.run (RunEvent.calls (r.run m w).trace)]) (S.text? (r.run m w).world)
  /-- What was left as it was, by a run that found nothing to do or saved nothing before it was
  cut off. -/
  | unsaved {h : List Episode} {t : Option String} {ep : Episode} (before : RestsAfter S h t)
      (after : S.History (h ++ [ep]) t) : RestsAfter S (h ++ [ep]) t

theorem RestsAfter.history (hh : S.RestsAfter h t) : S.History h t := by
  induction hh with
  | absent => exact .absent
  | operation op now m w sinks _ ih => exact .operation op now m w sinks ih
  | reported r m w store sinks calls _ _ before => exact .run r m w store sinks calls before
  | unsaved _ after _ => exact after

variable {r : RunSetup σ} {m : Emitter σ} {w : σ} {summary : RunSummary}

/-- What a run leaves that reports: the text as it was, or one that tells of no batch. -/
theorem text?_of_ok (hr : r.store = S.store) (hm : S.SparedBySinks m.sinks)
    (hx : S.SparedByCalls r.executor) (hok : (r.run m w).result = .ok summary) :
    (RunEvent.savings (r.run m w).trace = [] ∧ S.text? (r.run m w).world = S.text? w) ∨
      RunEvent.savings (r.run m w).trace ≠ [] ∧
        ∃ t, S.text? (r.run m w).world = some t ∧ Document.IsTextAtRest t := by
  rcases r.run_cases m w with ⟨e, -, hrun⟩ | ⟨d, hl, -⟩
  · rw [hrun] at hok
    cases hok
  have hleaves := (keeps_of_ok hr hm hx hl hok).leaves
  unfold LeavesBy at hleaves
  rcases RunSetup.lastSaved_of_ok hl (isFiled_of_load (hr ▸ hl)) hok with hnone | ⟨d', hlast⟩
  · have hlast : RunEvent.lastSaved (r.run m w).trace = none := by
      rw [RunEvent.lastSaved, hnone]
      rfl
    rw [hlast] at hleaves
    exact Or.inl ⟨hnone, hleaves⟩
  · rw [hlast] at hleaves
    obtain ⟨w', ht⟩ := hleaves
    refine Or.inr ⟨fun hnone => ?_, _, ht, Document.isTextAtRest_text rfl⟩
    rw [RunEvent.lastSaved, hnone] at hlast
    cases hlast

theorem RestsAfter.isTextAtRest (hh : S.RestsAfter h t) :
    ∀ text ∈ t, Document.IsTextAtRest text := by
  induction hh with
  | absent => exact nofun
  | operation op now m w sinks _ ih =>
    rcases text?_perform op now sinks w with ⟨ht, -⟩ | ⟨d, f, c, w', hl, hf, hc, -, -, ht⟩
    · rw [ht]
      exact ih
    · have hloaded : d.global.currentStep = none := by
        rcases S.load_ok hl with ⟨-, rfl⟩ | ⟨text, hw, hd, -⟩
        · rfl
        · exact (ih text hw).2 d hd
      simp only [ht, Option.mem_some_iff, forall_eq']
      refine Document.isTextAtRest_text ?_
      rw [← hloaded, ← (Operation.makes hf hc).changes.global]
      rfl
  | reported r m w store sinks calls result saved _ =>
    rcases text?_of_ok store sinks calls result with ⟨hnone, -⟩ | ⟨-, text, ht, hrest⟩
    · exact absurd hnone saved
    · simpa only [ht, Option.mem_some_iff, forall_eq'] using hrest
  | unsaved _ _ ih => exact ih

/-- Whatever happened before, a run that reports leaves no batch in progress if it has saved
anything.  If it has not, the text is as it was, and there is no batch in progress unless the last
run that left another text did not come to its end. -/
theorem currentStep_of_ok (hr : r.store = S.store) (hm : S.SparedBySinks m.sinks)
    (hx : S.SparedByCalls r.executor) (hok : (r.run m w).result = .ok summary) :
    (RunEvent.savings (r.run m w).trace ≠ [] →
        ∃ t, S.text? (r.run m w).world = some t ∧ Document.IsTextAtRest t) ∧
      (RunEvent.savings (r.run m w).trace = [] → S.text? (r.run m w).world = S.text? w) ∧
      ∀ h, S.RestsAfter h (S.text? w) →
        ∀ t ∈ S.text? (r.run m w).world, Document.IsTextAtRest t := by
  rcases text?_of_ok hr hm hx hok with ⟨hnone, ht⟩ | ⟨hsome, t, ht, hrest⟩
  · refine ⟨fun hsome => absurd hnone hsome, fun _ => ht, fun h hh => ?_⟩
    rw [ht]
    exact hh.isTextAtRest
  · refine ⟨fun _ => ⟨t, ht, hrest⟩, fun hnone => absurd hnone hsome, fun _ _ => ?_⟩
    simpa only [ht, Option.mem_some_iff, forall_eq'] using hrest

end Site

namespace Memory

theorem restsAfter_registered : checkedSite.RestsAfter
    [.operation (.register "post" .null) (.ok ⟨"post registered", ["post"], []⟩)]
    (checkedSite.text? registered) := by
  have hsinks : checkedSite.SparedBySinks (Emitter.ofSinks []).sinks := fun _ _ => rfl
  have hstore : checkedSite.store = checkedStore := rfl
  have hrests : checkedSite.RestsAfter _ _ :=
    .operation (.register "post" .null) (.ofSeconds 0) (.ofSinks []) blank hsinks .absent
  rw [hstore, perform_register_blank (d := tracked) (by decide) rfl (by decide +kernel)] at hrests
  exact hrests

/-- A registered entity goes through all steps in a run, and no batch is in progress then. -/
theorem currentStep_of_ok_registered : ∃ (summary : RunSummary) (t : String),
    (checkedSetup.run (.ofSinks []) registered).result = .ok summary ∧
      RunEvent.savings (checkedSetup.run (.ofSinks []) registered).trace ≠ [] ∧
      checkedSite.text? (checkedSetup.run (.ofSinks []) registered).world = some t ∧
      Document.IsTextAtRest t := by
  have hran : (checkedSetup.run (.ofSinks []) registered).result.isOk ∧
      RunEvent.savings (checkedSetup.run (.ofSinks []) registered).trace ≠ [] := by
    rw [checkedSetup, checkedStore_eq]
    decide +kernel
  obtain ⟨hok, hsaved⟩ := hran
  obtain ⟨summary, hs⟩ := RunSetup.result_of_isOk hok
  have hsinks : checkedSite.SparedBySinks (Emitter.ofSinks []).sinks := fun _ _ => rfl
  obtain ⟨hclosed, -, hrests⟩ :=
    Site.currentStep_of_ok (S := checkedSite) rfl hsinks (fun _ _ => rfl) hs
  obtain ⟨t, ht, -⟩ := hclosed hsaved
  exact ⟨summary, t, hs, hsaved, ht, hrests _ restsAfter_registered t ht⟩

/-- A run breaks off for want of permits, the entity that it leaves at work is declared failed, and
the next run finds nothing to do: the document still says that the first step is in progress. -/
theorem exists_currentStep_of_ok : ∃ (h : List Episode) (w : Memory) (summary : RunSummary)
    (d : Document),
    checkedSite.History h (checkedSite.text? w) ∧
      (checkedSetup.run (.ofSinks []) w).result = .ok summary ∧
      checkedStore.load (.ofSeconds 0) (checkedSetup.run (.ofSinks []) w).world = .ok d ∧
      d.global.currentStep = some .ingested := by
  let r := permitted (Pool.greatestPermits + 1)
  let w₁ := (r.run (.ofSinks []) registered).world
  let w₂ := acts checkedStore [.inl (.fail "post" "stopped")] w₁
  have hcut : checkedSite.History _ (checkedSite.text? w₁) :=
    .run r (.ofSinks []) registered rfl (fun _ _ => rfl) (fun _ _ => rfl) history_registered
  obtain ⟨h, hh⟩ := history_acts [.inl (.fail "post" "stopped")] hcut
  have hend : (checkedSetup.run (.ofSinks []) w₂).result.isOk ∧
      ((checkedStore.load (.ofSeconds 0) (checkedSetup.run (.ofSinks []) w₂).world).map
        (·.global.currentStep)).toOption = some (some .ingested) := by
    simp only [w₂, w₁, r, permitted, checkedSetup, checkedStore_eq]
    decide +kernel
  obtain ⟨hok, hstep⟩ := hend
  obtain ⟨summary, hs⟩ := RunSetup.result_of_isOk hok
  cases hl : checkedStore.load (.ofSeconds 0) (checkedSetup.run (.ofSinks []) w₂).world with
  | error e =>
    rw [hl] at hstep
    cases hstep
  | ok d =>
    rw [hl] at hstep
    exact ⟨h, w₂, summary, d, hh, hs, hl, Option.some.inj hstep⟩

end Memory
end Publishing
