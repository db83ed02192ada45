import Mathlib.Data.List.Infix
import Publishing.Proofs.Draining
import Publishing.Proofs.Passes

/-
The moments of a run.

A process can die at any moment.  A moment is what has happened by then, with the world as it
is, and its events are the first ones of the run.  The store takes a document or leaves the text
alone, so at every moment the document of the last save that succeeded is on disk, or what was
there before the run.
-/

namespace Publishing

namespace Pool

variable {σ : Type}

/-- As far as a pool gets in the first `n` of the turns that it takes to run all calls. -/
def drainFor (permits : Nat) (x : Executor σ) (schedule : Schedule) (n : Nat) (p : Pool σ) :
    Pool σ × List PoolEvent :=
  runFor permits x (fun t => schedule (t + (p.work - n))) n p

theorem runFor_prefix (permits : Nat) (x : Executor σ) (schedule : Schedule) {n turns : Nat}
    (h : n ≤ turns) (p : Pool σ) :
    (runFor permits x (fun t => schedule (t + (turns - n))) n p).2 <+:
      (runFor permits x schedule turns p).2 := by
  induction n generalizing turns p with
  | zero => exact List.nil_prefix
  | succ n ih =>
    obtain ⟨turns, rfl⟩ := Nat.exists_eq_add_of_lt (Nat.lt_of_lt_of_le n.succ_pos h)
    rw [Nat.zero_add] at h ⊢
    have hle : n ≤ turns := Nat.le_of_succ_le_succ h
    rw [runFor, runFor]
    cases p.moves permits with
    | nil => exact List.prefix_rfl
    | cons m ms =>
      -- both begin with the same turn
      dsimp only
      rw [Nat.add_sub_add_right, Nat.add_sub_cancel' hle]
      exact (List.prefix_append_right_inj _).mpr (ih hle _)

theorem drainFor_prefix (permits : Nat) (x : Executor σ) (schedule : Schedule) {n : Nat}
    {p : Pool σ} (h : n ≤ p.work) :
    (p.drainFor permits x schedule n).2 <+: (p.drain permits x schedule).2 :=
  runFor_prefix permits x schedule h p

end Pool

/-! ## Where a run can be -/

namespace RunState

variable {σ : Type}

/-- The moments of a save: before the store has done anything, after it has refused, and after
it has taken the document, when some of the queued records are out. -/
inductive SaveMoment (r : RunSetup σ) (st : RunState σ) : List RunEvent → σ → Prop
  | asked : SaveMoment r st st.trace st.world
  | refused {e : Error} {w : σ}
      (save : r.store.save (r.clock st.world) st.document st.world = (.error e, w)) :
      SaveMoment r st st.trace w
  | taken {w : σ} (save : r.store.save (r.clock st.world) st.document st.world = (.ok (), w))
      (sent : Nat) :
      SaveMoment r st (st.trace ++ [.saving st.document])
        (({ st.emitter with queue := st.emitter.queue.take sent } : Emitter σ).flush w).2

/-- The moments of a batch: as its marks are saved, while its calls are at work, as they are
reported one by one, and as their outcomes are saved. -/
inductive BatchMoment (r : RunSetup σ) (s : Step) (ids : List String) (st : RunState σ) :
    List RunEvent → σ → Prop
  | marking {d records calls l w}
      (marked : st.document.markEach (r.clock st.world) r.runId s ids = .ok (d, records, calls))
      (moment : (st.mark s ids d records).SaveMoment r l w) : BatchMoment r s ids st l w
  | working {d records calls st₁} {turns : Nat}
      (marked : st.document.markEach (r.clock st.world) r.runId s ids = .ok (d, records, calls))
      (save : (st.mark s ids d records).save r = (.ok (), st₁))
      (permits : r.permits ≤ Pool.greatestPermits)
      (turns_le : turns ≤ (Pool.ofCalls calls st₁.world).work) :
      BatchMoment r s ids st
        (st₁.trace ++ ((Pool.ofCalls calls st₁.world).drainFor r.permits r.executor r.schedule
          turns).2.map .pool)
        ((Pool.ofCalls calls st₁.world).drainFor r.permits r.executor r.schedule turns).1.world
  | reporting {d records calls st₁ ending st₂ tally} (reported : Nat)
      (marked : st.document.markEach (r.clock st.world) r.runId s ids = .ok (d, records, calls))
      (save : (st.mark s ids d records).save r = (.ok (), st₁))
      (permits : r.permits ≤ Pool.greatestPermits)
      (execute : st₁.execute r calls = (ending, st₂))
      (folded : st₂.document.foldEach (r.clock st₂.world) s ending ids = .ok tally) :
      BatchMoment r s ids st
        (st₂.trace ++ (progress s ids.length 0 tally.results).take reported) st₂.world
  | folding {d records calls st₁ ending st₂ tally l w}
      (marked : st.document.markEach (r.clock st.world) r.runId s ids = .ok (d, records, calls))
      (save : (st.mark s ids d records).save r = (.ok (), st₁))
      (permits : r.permits ≤ Pool.greatestPermits)
      (execute : st₁.execute r calls = (ending, st₂))
      (folded : st₂.document.foldEach (r.clock st₂.world) s ending ids = .ok tally)
      (moment : (st₂.enter r s (r.clock st.world) ids tally).SaveMoment r l w) :
      BatchMoment r s ids st l w

/-- The moments of a run from one step on. -/
inductive StepsMoment (r : RunSetup σ) : List Step → RunState σ → List RunEvent → σ → Prop
  | between (steps : List Step) (st : RunState σ) : StepsMoment r steps st st.trace st.world
  | batch {s rest st l w} (some : (st.document.select (r.clock st.world) s).eligible ≠ [])
      (moment : (st.choose r s).BatchMoment r s
        (st.document.select (r.clock st.world) s).eligible l w) :
      StepsMoment r (s :: rest) st l w
  | next {s rest st st' l w} (step : st.runStep r s = (.ok (), st'))
      (moment : StepsMoment r rest st' l w) : StepsMoment r (s :: rest) st l w

end RunState

/-- The moments of a run, from its start to its report. -/
inductive RunSetup.Moment {σ : Type} (r : RunSetup σ) (m : Emitter σ) (w : σ) :
    List RunEvent → σ → Prop
  | start : Moment r m w [] w
  | steps {d l w'} (load : r.store.load (r.clock w) w = .ok d)
      (moment : (RunState.opening r d m w).StepsMoment r Step.all l w') : Moment r m w l w'
  | closing {d st l w'} (load : r.store.load (r.clock w) w = .ok d)
      (steps : (RunState.opening r d m w).runSteps r Step.all = (.ok (), st))
      (changed : st.changed)
      (moment : ({ st with document := st.document.setCurrentStep none } :
        RunState σ).SaveMoment r l w') :
      Moment r m w l w'
  | over {d summary} (load : r.store.load (r.clock w) w = .ok d)
      (result : (r.run m w).result = .ok summary) :
      Moment r m w (r.run m w).trace (r.run m w).world

/-! ## The events of a moment are the first ones of the run -/

namespace RunState

variable {σ : Type} {r : RunSetup σ} {s : Step} {ids : List String} {st st' : RunState σ}
  {l : List RunEvent} {w : σ}

theorem SaveMoment.isPrefix (h : st.SaveMoment r l w) : l <+: (st.save r).2.trace := by
  rw [show (st.save r).2.trace = st.trace ++ [.saving st.document] from (save_spec rfl).2.1]
  cases h with
  | asked | refused => exact List.prefix_append ..
  | taken => exact List.prefix_rfl

theorem trace_prefix_save (r : RunSetup σ) (st : RunState σ) : st.trace <+: (st.save r).2.trace :=
  SaveMoment.asked.isPrefix

theorem save_enter_prefix_foldBatch {start : Timestamp} {ending : String → Ending}
    {tally : Document.Tally}
    (hf : st.document.foldEach (r.clock st.world) s ending ids = .ok tally) :
    ((st.enter r s start ids tally).save r).2.trace <+:
      (st.foldBatch r s start ids ending).2.trace := by
  rw [foldBatch_eq hf]
  split
  · next h => rw [h]
  · next h => rw [h]

theorem trace_prefix_foldBatch (r : RunSetup σ) (s : Step) (start : Timestamp) (ids : List String)
    (ending : String → Ending) (st : RunState σ) :
    st.trace <+: (st.foldBatch r s start ids ending).2.trace := by
  cases hf : st.document.foldEach (r.clock st.world) s ending ids with
  | error e => rw [foldBatch, hf]
  | ok tally =>
    exact (List.prefix_append _ _).trans
      ((trace_prefix_save r _).trans (save_enter_prefix_foldBatch hf))

theorem runBatch_of_save_mark {d : Document} {records : List AuditRecord} {calls : List Call}
    {st₁ : RunState σ}
    (hm : st.document.markEach (r.clock st.world) r.runId s ids = .ok (d, records, calls))
    (hs : (st.mark s ids d records).save r = (.ok (), st₁))
    (hp : r.permits ≤ Pool.greatestPermits) :
    st.runBatch r s ids =
      (st₁.execute r calls).2.foldBatch r s (r.clock st.world) ids (st₁.execute r calls).1 := by
  rw [runBatch, markBatch_eq hm, hs]
  exact if_neg (Nat.not_lt.mpr hp)

theorem save_mark_prefix_runBatch {d : Document} {records : List AuditRecord} {calls : List Call}
    (hm : st.document.markEach (r.clock st.world) r.runId s ids = .ok (d, records, calls)) :
    ((st.mark s ids d records).save r).2.trace <+: (st.runBatch r s ids).2.trace := by
  rcases hs : (st.mark s ids d records).save r with ⟨h | ⟨⟩, st₁⟩
  · rw [runBatch, markBatch_eq hm, hs]
  · by_cases hp : r.permits ≤ Pool.greatestPermits
    · rw [runBatch_of_save_mark hm hs hp]
      have hexecute : st₁.trace <+: (st₁.execute r calls).2.trace := List.prefix_append _ _
      exact hexecute.trans (trace_prefix_foldBatch ..)
    · rw [runBatch, markBatch_eq hm, hs]
      dsimp only
      rw [if_pos (Nat.not_le.mp hp)]

theorem trace_prefix_runBatch (r : RunSetup σ) (s : Step) (ids : List String) (st : RunState σ) :
    st.trace <+: (st.runBatch r s ids).2.trace := by
  cases hm : st.document.markEach (r.clock st.world) r.runId s ids with
  | error e =>
    simp only [runBatch, markBatch, log]
    rw [hm]
    exact List.prefix_append _ _
  | ok p =>
    obtain ⟨d, records, calls⟩ := p
    exact (List.prefix_append _ _).trans
      ((trace_prefix_save r _).trans (save_mark_prefix_runBatch hm))

theorem BatchMoment.isPrefix (h : st.BatchMoment r s ids l w) :
    l <+: (st.runBatch r s ids).2.trace := by
  cases h with
  | marking hm h => exact h.isPrefix.trans (save_mark_prefix_runBatch hm)
  | working hm hs hp hle =>
    rw [runBatch_of_save_mark hm hs hp]
    refine List.IsPrefix.trans ?_ (trace_prefix_foldBatch ..)
    exact (List.prefix_append_right_inj _).mpr ((Pool.drainFor_prefix _ _ _ hle).map _)
  | reporting n hm hs hp hx hf =>
    rw [runBatch_of_save_mark hm hs hp, hx]
    refine List.IsPrefix.trans ?_ ((trace_prefix_save r _).trans (save_enter_prefix_foldBatch hf))
    exact (List.prefix_append_right_inj _).mpr (List.take_prefix _ _)
  | folding hm hs hp hx hf h =>
    rw [runBatch_of_save_mark hm hs hp, hx]
    exact h.isPrefix.trans (save_enter_prefix_foldBatch hf)

theorem trace_prefix_runStep (r : RunSetup σ) (s : Step) (st : RunState σ) :
    st.trace <+: (st.runStep r s).2.trace := by
  rw [runStep_eq]
  dsimp only
  split
  · exact List.prefix_rfl
  · exact trace_prefix_runBatch r s _ (st.choose r s)

theorem trace_prefix_runSteps (r : RunSetup σ) (steps : List Step) (st : RunState σ) :
    st.trace <+: (st.runSteps r steps).2.trace := by
  induction steps generalizing st with
  | nil => exact List.prefix_rfl
  | cons s rest ih =>
    have hstep := trace_prefix_runStep r s st
    rw [runSteps]
    split
    · next h => exact (h ▸ hstep).trans (ih _)
    · next h => exact h ▸ hstep

theorem StepsMoment.isPrefix {steps : List Step} (h : st.StepsMoment r steps l w) :
    l <+: (st.runSteps r steps).2.trace := by
  induction h with
  | between steps st => exact trace_prefix_runSteps r steps st
  | @batch s rest st l w hsome hb =>
    have hstep : l <+: (st.runStep r s).2.trace := by
      rw [runStep_eq]
      dsimp only
      rw [if_neg (by rwa [List.isEmpty_iff])]
      exact hb.isPrefix
    rw [runSteps]
    split
    · next h => exact (h ▸ hstep).trans (trace_prefix_runSteps r rest _)
    · next h => exact h ▸ hstep
  | next hs _ ih =>
    rw [runSteps, hs]
    exact ih

end RunState

namespace RunSetup

variable {σ : Type} {r : RunSetup σ} {m : Emitter σ} {w w' : σ} {d : Document} {st : RunState σ}
  {l : List RunEvent}

theorem close_prefix_run (hl : r.store.load (r.clock w) w = .ok d)
    (hs : (RunState.opening r d m w).runSteps r Step.all = (.ok (), st)) :
    (st.close r).2.trace <+: (r.run m w).trace := by
  rw [run, hl]
  dsimp only
  rw [hs]
  dsimp only
  split
  · next h => rw [h]; exact List.prefix_rfl
  · next h => rw [h]; exact List.prefix_append _ _

theorem runSteps_prefix_run (hl : r.store.load (r.clock w) w = .ok d) :
    ((RunState.opening r d m w).runSteps r Step.all).2.trace <+: (r.run m w).trace := by
  rcases hs : (RunState.opening r d m w).runSteps r Step.all with ⟨h | ⟨⟩, st⟩
  · rw [run, hl]
    dsimp only
    rw [hs]
    exact List.prefix_rfl
  · refine List.IsPrefix.trans ?_ (close_prefix_run hl hs)
    rw [RunState.close]
    split
    · exact RunState.trace_prefix_save r { st with document := st.document.setCurrentStep none }
    · exact List.prefix_rfl

theorem Moment.isPrefix (h : r.Moment m w l w') : l <+: (r.run m w).trace := by
  cases h with
  | start => exact List.nil_prefix
  | steps hl h => exact h.isPrefix.trans (runSteps_prefix_run hl)
  | closing hl hs hch h =>
    refine List.IsPrefix.trans ?_ (close_prefix_run hl hs)
    rw [RunState.close, if_pos hch]
    exact h.isPrefix
  | «over» => exact List.prefix_rfl

end RunSetup

/-! ## The end of a run is one of its moments -/

/-- Why a run that has loaded a document halts, and with which event: the store refuses to save, or
there is no pool. -/
inductive RunSetup.Stops {σ : Type} (r : RunSetup σ) : Halt → List RunEvent → Prop
  | refused {now : Timestamp} {d : Document} {e : Error} {w w' : σ}
      (save : r.store.save now d w = (.error e, w')) : Stops r (.error e) [.saving d]
  | overfull (permits : Pool.greatestPermits < r.permits) :
      Stops r (.tooManyPermits r.permits) []

theorem RunSetup.Stops.calls {σ : Type} {r : RunSetup σ} {h : Halt} {k : List RunEvent}
    (hs : r.Stops h k) : RunEvent.calls k = [] := by
  cases hs <;> rfl

namespace RunState

variable {σ : Type} {r : RunSetup σ} {s : Step} {ids : List String} {st st' : RunState σ} {h : Halt}

/-- A save that succeeds is over at its last moment. -/
theorem saveMoment_of_ok (hs : st.save r = (.ok (), st')) :
    st.SaveMoment r st'.trace st'.world := by
  rcases save_fst_cases r st with ⟨w, hw, hst⟩ | ⟨e, w, -, hst⟩
  · rw [hst] at hs
    obtain ⟨-, rfl⟩ := Prod.mk.inj hs
    have hall := SaveMoment.taken hw st.emitter.queue.length
    rwa [List.take_length] at hall
  · rw [hst] at hs
    cases hs

/-- A save that fails is over once the store has refused. -/
theorem saveMoment_of_error (hs : st.save r = (.error h, st')) :
    ∃ l k, st.SaveMoment r l st'.world ∧ st'.trace = l ++ k ∧ r.Stops h k := by
  rcases save_fst_cases r st with ⟨w, -, hst⟩ | ⟨e, w, hw, hst⟩
  · rw [hst] at hs
    cases hs
  · rw [hst] at hs
    obtain ⟨hh, rfl⟩ := Prod.mk.inj hs
    obtain rfl := Except.error.inj hh
    exact ⟨_, _, .refused hw, rfl, .refused hw⟩

theorem batchMoment_of_error (hw : st.document.Awaits s ids)
    (hb : st.runBatch r s ids = (.error h, st')) :
    ∃ l k, st.BatchMoment r s ids l st'.world ∧ st'.trace = l ++ k ∧ r.Stops h k := by
  obtain ⟨records, calls, hm, -, -⟩ :=
    Document.markEach_eq (r.clock st.world) r.runId s hw.nodup st.document hw.contains
  rcases hs : (st.mark s ids (st.document.mapEntities
      (Document.marked (r.clock st.world) r.runId s ids)) records).save r with ⟨h' | ⟨⟩, st₁⟩
  · rw [runBatch, markBatch_eq hm, hs] at hb
    obtain ⟨hh, rfl⟩ := Prod.mk.inj hb
    obtain rfl := Except.error.inj hh
    obtain ⟨l, k, hl, ht, hk⟩ := saveMoment_of_error hs
    exact ⟨l, k, .marking hm hl, ht, hk⟩
  by_cases hp : r.permits ≤ Pool.greatestPermits
  · rw [runBatch_of_save_mark hm hs hp] at hb
    rcases hx : st₁.execute r calls with ⟨ending, st₂⟩
    obtain ⟨tally, hf⟩ := foldEach_of_execute hw hs hx
    rw [hx, foldBatch_eq hf] at hb
    split at hb
    · cases hb
    · next hs₂ =>
      obtain ⟨hh, rfl⟩ := Prod.mk.inj hb
      obtain rfl := Except.error.inj hh
      obtain ⟨l, k, hl, ht, hk⟩ := saveMoment_of_error hs₂
      exact ⟨l, k, .folding hm hs hp hx hf hl, ht, hk⟩
  · -- there is no pool, so the save of the marks is the last thing that happens
    rw [runBatch, markBatch_eq hm, hs] at hb
    dsimp only at hb
    rw [if_pos (Nat.not_le.mp hp)] at hb
    obtain ⟨hh, rfl⟩ := Prod.mk.inj hb
    obtain rfl := Except.error.inj hh
    exact ⟨_, [], .marking hm (saveMoment_of_ok hs), (List.append_nil _).symm,
      .overfull (Nat.not_le.mp hp)⟩

theorem stepsMoment_of_error {steps : List Step} (hf : st.document.IsFiled)
    (hs : st.runSteps r steps = (.error h, st')) :
    ∃ l k, st.StepsMoment r steps l st'.world ∧ st'.trace = l ++ k ∧ r.Stops h k := by
  induction steps generalizing st with
  | nil => cases hs
  | cons s rest ih =>
    rw [runSteps] at hs
    rcases hstep : st.runStep r s with ⟨h' | ⟨⟩, st₁⟩
    · rw [hstep] at hs
      obtain ⟨hh, rfl⟩ := Prod.mk.inj hs
      obtain rfl := Except.error.inj hh
      rw [runStep_eq] at hstep
      dsimp only at hstep
      split at hstep
      · cases hstep
      · next hsome =>
        obtain ⟨l, k, hl, ht, hk⟩ :=
          batchMoment_of_error (Document.awaits_select (r.clock st.world) s hf) hstep
        exact ⟨l, k, .batch (fun hn => hsome (List.isEmpty_iff.mpr hn)) hl, ht, hk⟩
    · rw [hstep] at hs
      obtain ⟨l, k, hl, ht, hk⟩ := ih (isFiled_of_runStep hf hstep) hs
      exact ⟨l, k, .next hstep hl, ht, hk⟩

end RunState

/-- The end of a run that halts is a moment of it, but for the event that it halts with. -/
theorem RunSetup.moment_of_error {σ : Type} {r : RunSetup σ} {m : Emitter σ} {w : σ} {d : Document}
    (hl : r.store.load (r.clock w) w = .ok d) (hf : d.IsFiled) {h : Halt}
    (hres : (r.run m w).result = .error h) :
    ∃ l k, r.Moment m w l (r.run m w).world ∧ (r.run m w).trace = l ++ k ∧ r.Stops h k := by
  rcases run_cases_of_load m hl with ⟨h', st, hs, hrun⟩ |
    ⟨st, hs, ⟨h', st', hc, hrun⟩ | ⟨_, _, -, hrun⟩⟩
  · rw [hrun] at hres ⊢
    obtain rfl := Except.error.inj hres
    obtain ⟨l, k, hm, ht, hk⟩ := RunState.stepsMoment_of_error
      (RunState.isFiled_opening hf r m w) hs
    exact ⟨l, k, .steps hl hm, ht, hk⟩
  · rw [hrun] at hres ⊢
    obtain rfl := Except.error.inj hres
    rcases RunState.close_cases hc with ⟨hch, hsave⟩ | ⟨-, hok, -⟩
    · obtain ⟨l, k, hm, ht, hk⟩ := RunState.saveMoment_of_error hsave
      exact ⟨l, k, .closing hl hs hch hm, ht, hk⟩
    · cases hok
  · rw [hrun] at hres
    cases hres

/-- However a run ends, all its calls come before a moment that has the same world. -/
theorem RunSetup.moment_run {σ : Type} (r : RunSetup σ) (m : Emitter σ) (w : σ)
    (hf : ∀ d, r.store.load (r.clock w) w = .ok d → d.IsFiled) :
    ∃ l, r.Moment m w l (r.run m w).world ∧
      RunEvent.calls (r.run m w).trace = RunEvent.calls l := by
  cases hl : r.store.load (r.clock w) w with
  | error e =>
    rw [run, hl]
    exact ⟨[], .start, rfl⟩
  | ok d =>
    cases hres : (r.run m w).result with
    | ok summary => exact ⟨_, .over hl hres, rfl⟩
    | error h =>
      obtain ⟨l, k, hm, ht, hk⟩ := moment_of_error hl (hf d hl) hres
      refine ⟨l, hm, ?_⟩
      rw [ht, RunEvent.calls_append, hk.calls, List.append_nil]

/-! ## There is a moment between any two events -/

namespace Pool

variable {σ : Type}

theorem exists_runFor (permits : Nat) (x : Executor σ) (schedule : Schedule) {turns : Nat}
    {p : Pool σ} {l : List PoolEvent} (h : l <+: (runFor permits x schedule turns p).2) :
    ∃ n ≤ turns, (runFor permits x (fun t => schedule (t + (turns - n))) n p).2 = l := by
  induction turns generalizing p l with
  | zero =>
    obtain rfl := List.prefix_nil.mp h
    exact ⟨0, Nat.le_refl 0, rfl⟩
  | succ turns ih =>
    cases l with
    | nil => exact ⟨0, Nat.zero_le _, rfl⟩
    | cons e l =>
      rw [runFor] at h
      cases hm : p.moves permits with
      | nil =>
        rw [hm] at h
        exact absurd (List.prefix_nil.mp h) (by simp)
      | cons m ms =>
        rw [hm] at h
        dsimp only at h
        obtain ⟨e', he', -⟩ := moves_apply x (chosen_mem_moves hm (schedule turns))
        rw [he'] at h
        obtain ⟨rfl, hl⟩ := List.cons_prefix_cons.mp h
        obtain ⟨n, hn, hevents⟩ := ih hl
        refine ⟨n + 1, Nat.succ_le_succ hn, ?_⟩
        rw [runFor, hm]
        dsimp only
        rw [Nat.add_sub_add_right, Nat.add_sub_cancel' hn, he', hevents]
        rfl

end Pool

namespace RunState

variable {σ : Type} {r : RunSetup σ} {s : Step} {ids : List String} {st st' : RunState σ}
  {l : List RunEvent}

theorem prefix_append_cases {a b : List RunEvent} (h : l <+: a ++ b) :
    l <+: a ∨ ∃ k, k <+: b ∧ l = a ++ k := by
  rcases List.prefix_or_prefix_of_prefix h (List.prefix_append a b) with hl | ⟨k, rfl⟩
  · exact Or.inl hl
  · exact Or.inr ⟨k, (List.prefix_append_right_inj a).mp h, rfl⟩

end RunState

end Publishing
