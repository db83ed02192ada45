import Publishing.Proofs.Barriers
import Publishing.Proofs.Nesting
import Publishing.Proofs.Views

/-
What an outlook says of the next run.

An entity that is listed as ready waits at its current step.  If it has attempts left there, the
next run begins its work on it with that step.  If it has none, the run blocks it instead,
although the outlook announces it.  Entities that are not listed are not called for.
-/

namespace Publishing

namespace Entity

variable {e : Entity} {k s : Step} {now : Timestamp}

/-- Whether a run has no call to make for the entity. -/
def IsIdle (e : Entity) : Prop := ∀ s, e.isPendingAt s → (e.step s).hasAttemptsLeft = false

theorem isIdle_of_not_schedulable (h : e.status.isSchedulable = false) : e.IsIdle :=
  fun s hp => absurd hp (not_pending_of_not_schedulable h s)

theorem IsIdle.blockStuck (h : e.IsIdle) (now : Timestamp) : (e.blockStuck now).1.IsIdle := by
  cases hr : e.runningStep? with
  | none => rwa [blockStuck_of_none hr]
  | some s =>
    refine isIdle_of_not_schedulable ?_
    rw [status_blockStuck (by rw [hr]; rfl)]
    rfl

/-- A run leaves it without a call to make. -/
theorem IsIdle.passes (h : e.IsIdle) (o : Step → Outcome) (runId : RunId) (t : Step → Turn)
    (steps : List Step) : (e.passes o runId t steps).IsIdle := by
  induction steps generalizing e with
  | nil => exact h
  | cons s rest ih =>
    refine ih ?_
    by_cases hp : e.isPendingAt s
    · rw [pass_of_exhausted hp (h s hp)]
      exact isIdle_of_not_schedulable rfl
    · rwa [pass_of_not_pending hp]

end Entity

namespace RunSetup

variable {σ : Type} {r : RunSetup σ} {m : Emitter σ} {w : σ} {d : Document} {s k : Step}
  {id : String} {e : Entity} {st : RunState σ} {summary : RunSummary}

/-- Where a run begins with a step, it has passed over each entity with the earlier ones. -/
theorem Reaches.find? (h : r.Reaches m w d s st) (hf : d.IsFiled) (he : d.find? id = some e) :
    ∃ o t, st.document.find? id =
      some ((e.blockStuck (r.clock w)).1.passes o r.runId t s.predecessors) := by
  have hopen :
      (RunState.opening r d m w).document.find? id = some (e.blockStuck (r.clock w)).1 := by
    rw [RunState.find?_opening, he, Option.map_some]
  have hnodup : s.predecessors.Nodup := by cases s <;> decide
  obtain ⟨t, x, -, hfind⟩ := RunState.find?_runSteps (P := fun _ _ => True)
    (fun _ _ => trivial) hnodup (RunState.isFiled_opening hf r m w) h hopen
  exact ⟨_, t, hfind⟩

/-- Whether a run halts because the store does not take a document. -/
def IsRefused (r : RunSetup σ) (m : Emitter σ) (w : σ) : Prop :=
  ∃ e seen d, (r.run m w).result = .error (.error e) ∧
    (r.run m w).trace = seen ++ [.saving d] ∧ r.Stops (.error e) [.saving d]

/-- If there can be a pool, a run that has loaded a document reports unless it is refused. -/
theorem ok_or_isRefused (hl : r.store.load (r.clock w) w = .ok d) (hf : d.IsFiled)
    (hp : r.permits ≤ Pool.greatestPermits) :
    r.IsRefused m w ∨ ∃ summary, (r.run m w).result = .ok summary := by
  cases hres : (r.run m w).result with
  | ok summary => exact Or.inr ⟨summary, rfl⟩
  | error halt =>
    obtain ⟨seen, events, -, htrace, hstops⟩ := moment_of_error hl hf hres
    cases hstops with
    | overfull hover => exact absurd hp (Nat.not_le.mpr hover)
    | refused save => exact Or.inl ⟨_, seen, _, hres, htrace, .refused save⟩

end RunSetup

namespace Memory

/-- As `checkedStore`, without the detour by the text where it leads back to the same document. -/
def directStore : Store Memory where
  load now w :=
    match w.saved? with
    | none => .ok (.empty now)
    | some d =>
      if d.Fits (·.isExact) (·.isExact) ∧ d.IsShallow then
        match d.check with
        | .error v => .error (.corruptState "" (.violation v))
        | .ok () => .ok d
      else store.load now w
  save := checkedStore.save

theorem checkedStore_eq : checkedStore = directStore := by
  have hload : checkedStore.load = directStore.load := by
    funext now w
    cases hw : w.saved? with
    | none => simp only [checkedStore, store, directStore, text?, hw, Option.map_none]
    | some d =>
      simp only [checkedStore, directStore, hw]
      split
      · next h =>
        have hread := Document.ofText_text_of_isShallow h.1 h.2
        cases hc : d.check
        all_goals simp only [store, text?, hw, Option.map_some, hread, hc]
      · rfl
  exact congrArg (fun load => (⟨load, checkedStore.save⟩ : Store Memory)) hload

end Memory

namespace Site

variable {σ : Type} {S : Site σ} {w w' : σ} {now now' : Timestamp} {d d' : Document}

end Site

/-! ## Entities that are announced in vain -/

namespace Memory

/-- Runs that get these endings of their calls. -/
def answered (store : Store Memory) (f : Call → Ending) : RunSetup Memory :=
  { setup with store := store, executor := fun c w => (f c, w) }

/-- What is done to a store, one thing after the other. -/
def acts (store : Store Memory) : List (Operation ⊕ (Call → Ending)) → Memory → Memory
  | [], w => w
  | .inl op :: rest, w =>
    acts store rest (op.perform store (.ofSeconds 0) (.ofSinks []) w).2.2
  | .inr f :: rest, w => acts store rest ((answered store f).run (.ofSinks []) w).world

theorem history_acts (l : List (Operation ⊕ (Call → Ending))) {w : Memory} {h : List Episode}
    (hh : checkedSite.History h (checkedSite.text? w)) :
    ∃ h', checkedSite.History h' (checkedSite.text? (acts checkedStore l w)) := by
  induction l generalizing w h with
  | nil => exact ⟨h, hh⟩
  | cons a rest ih =>
    have hsinks : checkedSite.SparedBySinks (Emitter.ofSinks []).sinks := fun _ _ => rfl
    cases a with
    | inl op => exact ih (.operation op (.ofSeconds 0) (.ofSinks []) w hsinks hh)
    | inr f =>
      exact ih (.run (answered checkedStore f) (.ofSinks []) w rfl hsinks (fun _ _ => rfl) hh)

/-- Fails at the second step. -/
def untested (c : Call) : Ending :=
  .returned (if c.step = .tested then .failed "rejected" else .succeeded none) 0

end Memory
end Publishing
