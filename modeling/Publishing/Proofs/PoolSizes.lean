import Publishing.Proofs.Forecasts
import Publishing.Proofs.Preservation
import Publishing.Proofs.Routes
import Publishing.Proofs.Summaries
import Publishing.Run.Configured

/-
What becomes of a batch once it is marked.

A batch is marked and saved before there is a pool for its calls, and there is none with too many
permits.  With a count of permits that a pool can have, every batch that is marked is entered too,
and nothing is left running that did not run before.  With a greater one, the first batch stays as
it was marked: the run breaks off, and all its entities are left running.  Which batch that is can
be read off the document, since the steps without work before it change nothing that counts.
-/

namespace Publishing

/-- The count of permits is the one of the configuration or, if there is one, that of the request;
nothing bounds it from above. -/
theorem RunConfig.permits_of_ofConfig {σ : Type} [HasFiles σ] {c : Config} {rc : RunConfig}
    (h : RunConfig.ofConfig c = .ok rc) (requested? : Option Nat) (launcher : Launcher σ)
    (clock : σ → Timestamp) (runId : RunId) :
    ({ rc with concurrency := requested?.getD rc.concurrency }.setup launcher clock runId).permits =
      max 1 (requested?.getD c.defaults.concurrency) := by
  rw [ofConfig_eq] at h
  split at h
  · cases h
  · split at h
    · cases h
    · obtain rfl := Except.ok.inj h
      rfl

namespace Document

variable {d : Document} {s k : Step} {ids : List String} {id : String}

/-- Whether a run over `d` finds work at `s` with the entity under `id`: it waits there with
attempts left, and none of its steps is running. -/
def HasWork (d : Document) (s : Step) (id : String) : Prop :=
  ∃ e, d.find? id = some e ∧ e.runningStep? = none ∧ e.isPendingAt s ∧ (e.step s).hasAttemptsLeft

/-- With what is stuck being blocked, those are due that there is work with. -/
theorem isDue_blockStuck (now : Timestamp) : (d.blockStuck now).1.IsDue s id ↔ d.HasWork s id := by
  unfold IsDue HasWork
  rw [find?_blockStuck]
  cases d.find? id with
  | none => simp
  | some e =>
    simp only [Option.map_some, Option.some.injEq, exists_eq_left']
    cases hr : e.runningStep? with
    | none => simp [Entity.blockStuck_of_none hr]
    | some a =>
      have hblocked : (e.blockStuck now).1.status = .blocked :=
        Entity.status_blockStuck (by rw [hr]; rfl)
      refine iff_of_false (fun h => ?_) nofun
      exact Entity.not_pending_of_not_schedulable (by rw [hblocked]; rfl) s h.1

/-- The marks of a batch set its entities running at the step, and change the status of no other
step. -/
theorem running_withMarks_iff (now : Timestamp) (runId : RunId) (hw : d.Awaits s ids) :
    (d.withMarks now runId s ids).statusAt? id k = some .running ↔
      d.statusAt? id k = some .running ∨ k = s ∧ id ∈ ids := by
  unfold statusAt?
  rw [find?_withMarks]
  by_cases hid : id ∈ ids
  · obtain ⟨e, he, hp, hl⟩ := hw.waiting id hid
    have hm : marked now runId s ids id e = (e.mark now runId s).1 := if_pos hid
    simp only [he, Option.map_some, Option.some.injEq, hm, (Entity.step_mark now runId hl k).1]
    by_cases hk : k = s <;> simp [hk, hid]
  · have hm : ∀ e, marked now runId s ids id e = e := fun e => if_neg hid
    simp [hm, hid]

end Document

/-! ## Steps without work -/

namespace RunState

variable {σ : Type} {r : RunSetup σ} {s : Step} {ids : List String} {st st' : RunState σ}

theorem runStep_of_no_due (hf : st.document.IsFiled) (hn : ∀ id, ¬ st.document.IsDue s id) :
    st.runStep r s = (.ok (), st.choose r s) := by
  have hnil : (st.document.select (r.clock st.world) s).eligible = [] :=
    List.eq_nil_iff_forall_not_mem.mpr fun id hid =>
      hn id (((Document.roster_select (r.clock st.world) s hf).mem id).mp hid)
  rw [runStep_eq]
  dsimp only
  rw [hnil]
  rfl

theorem runStep_of_due (hf : st.document.IsFiled) {id : String} (h : st.document.IsDue s id) :
    st.runStep r s =
      (st.choose r s).runBatch r s (st.document.select (r.clock st.world) s).eligible := by
  have hid := ((Document.roster_select (r.clock st.world) s hf).mem id).mpr h
  rw [runStep_eq]
  dsimp only
  rw [if_neg]
  rw [List.isEmpty_iff]
  exact List.ne_nil_of_mem hid

/-- Steps at which nobody is due show nothing, and leave who is due where and the work of all
entities as they are. -/
theorem runSteps_of_no_due (steps : List Step) (hf : st.document.IsFiled)
    (hn : ∀ s ∈ steps, ∀ id, ¬ st.document.IsDue s id) :
    ∃ st', st.runSteps r steps = (.ok (), st') ∧ st'.trace = st.trace ∧
      st.document.SameDue st'.document ∧ st.document.Related Entity.SameWork st'.document := by
  induction steps generalizing st with
  | nil => exact ⟨st, rfl, rfl, .refl _, .refl Entity.SameWork.refl _⟩
  | cons s rest ih =>
    obtain ⟨hs, hrest⟩ := List.forall_mem_cons.mp hn
    have hdue : st.document.SameDue (st.choose r s).document := Document.sameDue_select _ s hf
    have hwork : st.document.Related Entity.SameWork (st.choose r s).document :=
      Document.related_select _ s hf
    obtain ⟨st', hsteps, htrace, hdue', hwork'⟩ := ih (Document.isFiled_of_related hwork hf)
      fun k hk id h => hrest k hk id ((hdue k id).mp h)
    refine ⟨st', ?_, htrace, hdue.trans hdue', hwork.trans hwork' Entity.SameWork.trans⟩
    rw [runSteps, runStep_of_no_due hf hs]
    exact hsteps

theorem error_of_close {h : Halt} (hc : st.close r = (.error h, st')) : ∃ e, h = .error e := by
  rcases close_cases hc with ⟨-, hsave⟩ | ⟨-, hok, -⟩
  · exact error_of_save hsave
  · cases hok

/-! ## Batches without a pool -/

/-- A batch that there is no pool for ends with the save of its marks. -/
theorem runBatch_of_overfull (hp : Pool.greatestPermits < r.permits)
    (hw : st.document.Awaits s ids) {res : Except Halt Unit}
    (h : st.runBatch r s ids = (res, st')) :
    (∃ e, res = .error (.error e)) ∨ res = .error (.tooManyPermits r.permits) ∧
      st'.trace = st.trace ++ [.batchStarted s ids.length, .saving (st.marked r s ids)] := by
  obtain ⟨records, calls, hm, -, -⟩ :=
    Document.markEach_eq (r.clock st.world) r.runId s hw.nodup st.document hw.contains
  rw [runBatch, markBatch_eq hm] at h
  rcases hs : (st.mark s ids (st.document.mapEntities
      (Document.marked (r.clock st.world) r.runId s ids)) records).save r with ⟨halt | ⟨⟩, st₁⟩
  · rw [hs] at h
    obtain ⟨rfl, -⟩ := Prod.mk.inj h
    obtain ⟨e, rfl⟩ := error_of_save hs
    exact .inl ⟨e, rfl⟩
  · rw [hs] at h
    dsimp only at h
    rw [if_pos hp] at h
    obtain ⟨rfl, rfl⟩ := Prod.mk.inj h
    exact .inr ⟨rfl, (save_mark hw hm hs).2⟩

end RunState

/-! ## Batches with a pool -/

theorem Batch.Counts.succeeded_add_failed {b : Batch} {runId : RunId} {s : Step}
    {ended : List (Call × Ending)} (h : b.Counts runId s ended) :
    b.succeeded + b.failed = b.processed := by
  rw [h.succeeded, h.failed, h.processed,
    List.length_eq_countP_add_countP fun p : Call × Ending => p.2.outcome.isSuccess]
  simp only [Bool.not_eq_true, Bool.decide_eq_false]

/-- A run leaves no step of an entity running that it found at rest, and ends none that it found
running. -/
theorem Entity.running_passes_iff (o : Step → Outcome) (runId : RunId) (t : Step → Turn)
    (steps : List Step) (e : Entity) (k : Step) :
    ((e.passes o runId t steps).step k).status = .running ↔ (e.step k).status = .running := by
  induction steps generalizing e with
  | nil => exact Iff.rfl
  | cons s rest ih =>
    refine (ih (e.pass (o s) runId (t s) s)).trans ?_
    by_cases hp : e.isPendingAt s
    · cases hl : (e.step s).hasAttemptsLeft with
      | true =>
        rw [pass_of_left hp hl, status_attempt]
        by_cases hk : k = s
        · subst hk
          rw [if_pos rfl, (isPendingAt_iff.mp hp).2.1]
          split <;> exact iff_of_false nofun nofun
        · rw [if_neg hk]
      | false => rw [pass_of_exhausted hp hl, (sameWork_exhaust _ s e).stepStatus]
    · rw [pass_of_not_pending hp]

namespace RunSetup

variable {σ : Type} {r : RunSetup σ} {m : Emitter σ} {w : σ} {d : Document} {s : Step}
  {x : RunSummary}

/-- Whether a run over `d` has entered all that it marked, and reported it as `x`. -/
structure Enters (r : RunSetup σ) (m : Emitter σ) (w : σ) (d : Document) (x : RunSummary) :
    Prop where
  result : (r.run m w).result = .ok x
  batches : ∀ s n, .batchStarted s n ∈ (r.run m w).trace →
    ∃ b ∈ x.batches, b.step = s ∧ b.processed = n ∧ b.succeeded + b.failed = n
  history : (r.left m w d).global.stepHistory = d.global.stepHistory ++ x.batches
  running : ∀ id s, (r.left m w d).statusAt? id s = some .running ↔
    d.statusAt? id s = some .running

/-- Whether a run over `d` has marked all that there was work with at `s`, and left it at that. -/
structure Strands (r : RunSetup σ) (m : Emitter σ) (w : σ) (d : Document) (s : Step) : Prop where
  result : (r.run m w).result = .error (.tooManyPermits r.permits)
  trace : ∃ n, (r.run m w).trace = [.batchStarted s n, .saving (r.left m w d)]
  running : ∀ id k, (r.left m w d).statusAt? id k = some .running ↔
    d.statusAt? id k = some .running ∨ k = s ∧ d.HasWork s id

theorem running_left_iff (hl : r.store.load (r.clock w) w = .ok d) (hf : d.IsFiled)
    (hok : (r.run m w).result = .ok x) (id : String) (k : Step) :
    (r.left m w d).statusAt? id k = some .running ↔ d.statusAt? id k = some .running := by
  unfold Document.statusAt?
  cases he : d.find? id with
  | none => rw [find?_left_eq_none hl hf hok he]
  | some e =>
    obtain ⟨t, o, -, hfind⟩ := find?_left_of_gives (P := fun _ _ => True) (fun _ _ => trivial) hl hf
      hok he
    rw [hfind]
    simp only [Option.map_some, Option.some.injEq, Entity.running_passes_iff,
      (Entity.sameWork_blockStuck (r.clock w) e).stepStatus]

/-- A run that reports has entered all that it marked. -/
theorem enters_of_ok (hl : r.store.load (r.clock w) w = .ok d) (hc : d.check = .ok ())
    (hok : (r.run m w).result = .ok x) : r.Enters m w d x := by
  obtain ⟨-, hf, hv⟩ := Document.check_eq_ok_iff.mp hc
  obtain ⟨st, st', hsteps, hclose, hrun, hx⟩ := run_of_ok hl hok
  obtain ⟨ended, hlegs⟩ :=
    RunState.exists_legs Step.nodup_all (RunState.isFiled_opening hf r m w) hsteps
  have h : RunState.Ledger r d ended Step.all st :=
    (RunState.ledger_opening hf hv).legs hlegs (Step.pairwise_all.mpr fun _ _ hlt => hlt)
  have hbatches : x.batches = st.batches := by
    rw [hx]
    exact (RunState.account_close hclose).1
  have hreports : RunEvent.reports (r.run m w).trace =
      (x.batches.flatMap fun b => b.reports (ended b.step)) ++ [.done x] := by
    rw [hbatches, ← h.reports, hrun]
    exact (trace_of_close hclose).2
  constructor
  case result => exact hok
  case running => exact running_left_iff hl hf hok
  case batches =>
    intro s n hstarted
    have hmem : RunEvent.batchStarted s n ∈ RunEvent.reports (r.run m w).trace :=
      List.mem_filter.mpr ⟨hstarted, rfl⟩
    rw [hreports] at hmem
    rcases List.mem_append.mp hmem with hmem | hmem
    · obtain ⟨b, hb, hmem⟩ := List.mem_flatMap.mp hmem
      have hcounts := h.counts b (hbatches ▸ hb)
      rcases List.mem_cons.mp hmem with heq | hmem
      · obtain ⟨rfl, rfl⟩ := RunEvent.batchStarted.inj heq
        exact ⟨b, hb, rfl, rfl, hcounts.succeeded_add_failed⟩
      · obtain ⟨_, _, heq⟩ := List.mem_mapIdx.mp hmem
        cases heq
    · cases List.mem_singleton.mp hmem
  case history =>
    obtain ⟨st₂, hsteps₂, hleft⟩ := left_of_ok hl hf hok
    obtain rfl : st = st₂ := congrArg Prod.snd (hsteps.symm.trans hsteps₂)
    rw [hbatches, ← h.history]
    rcases hleft with hleft | hleft <;> rw [hleft]
    rfl

/-! ## How a run ends that is not refused -/

/-- A run halts for want of a pool, if the store takes all that is to be saved. -/
theorem overfull_of_error (hl : r.store.load (r.clock w) w = .ok d) (hf : d.IsFiled)
    (hs : ¬ r.IsRefused m w) {h : Halt} (hres : (r.run m w).result = .error h) :
    h = .tooManyPermits r.permits ∧ Pool.greatestPermits < r.permits := by
  obtain ⟨seen, events, -, htrace, hstops⟩ := moment_of_error hl hf hres
  cases hstops with
  | refused save => exact absurd ⟨_, seen, _, hres, htrace, .refused save⟩ hs
  | overfull permits => exact ⟨rfl, permits⟩

theorem not_isRefused_of_saves (h : ∀ now d' w', (r.store.save now d' w').1 = .ok ()) :
    ¬ r.IsRefused m w := by
  rintro ⟨e, seen, d', -, -, hstops⟩
  cases hstops with
  | @refused now _ _ w₁ _ save =>
    have hsave := h now d' w₁
    rw [save] at hsave
    cases hsave

/-- A run that finds no work needs no pool. -/
theorem ok_of_no_work (hl : r.store.load (r.clock w) w = .ok d) (hf : d.IsFiled)
    (hs : ¬ r.IsRefused m w) (hn : ∀ s id, ¬ d.HasWork s id) :
    ∃ x, (r.run m w).result = .ok x := by
  obtain ⟨st, hsteps, -⟩ := RunState.runSteps_of_no_due Step.all
    (RunState.isFiled_opening hf r m w)
    fun s _ id h => hn s id ((Document.isDue_blockStuck (r.clock w)).mp h)
  rcases run_cases_of_load m hl with ⟨h, st', hs', -⟩ |
    ⟨st', -, ⟨h, st'', hclose, hrun⟩ | ⟨_, x, -, hrun⟩⟩
  · rw [hsteps] at hs'
    cases hs'
  · -- nothing but the store can keep the last save from its end
    obtain ⟨e, rfl⟩ := RunState.error_of_close hclose
    have hres : (r.run m w).result = .error (.error e) := by rw [hrun]; rfl
    cases (overfull_of_error hl hf hs hres).1
  · exact ⟨x, by rw [hrun]; rfl⟩

/-- On its way to the first step with work a run shows nothing, and changes neither with whom there
is work nor what has been done. -/
theorem exists_reaches_of_no_work (hf : d.IsFiled)
    (hfirst : ∀ k, k < s → ∀ id, ¬ d.HasWork k id) :
    ∃ st, r.Reaches m w d s st ∧ st.trace = [] ∧
      (∀ id, st.document.IsDue s id ↔ d.HasWork s id) ∧
      d.Related Entity.SameWork st.document := by
  have hblock : d.Related Entity.SameWork (RunState.opening r d m w).document :=
    Document.related_blockStuck (r.clock w) d
  have hdue : ∀ k id, (RunState.opening r d m w).document.IsDue k id ↔ d.HasWork k id :=
    fun _ _ => Document.isDue_blockStuck (r.clock w)
  obtain ⟨st, hreach, htrace, hsame, hrelated⟩ :=
    RunState.runSteps_of_no_due (r := r) s.predecessors (RunState.isFiled_opening hf r m w)
      fun k hk id h => hfirst k (Step.mem_predecessors.mp hk) id ((hdue k id).mp h)
  exact ⟨st, hreach, htrace, fun id => (hsame s id).trans (hdue s id),
    hblock.trans hrelated Entity.SameWork.trans⟩

/-- A run ends with the step that halts. -/
theorem Reaches.run_of_error {st st' : RunState σ} (h : r.Reaches m w d s st)
    (hl : r.store.load (r.clock w) w = .ok d) {halt : Halt}
    (hstep : st.runStep r s = (.error halt, st')) : r.run m w = st'.finish (.error halt) := by
  have hsteps : (RunState.opening r d m w).runSteps r Step.all = (.error halt, st') := by
    rw [← Step.predecessors_append_onward s, RunState.runSteps_append, h, Step.onward_eq_next]
    dsimp only
    rw [RunState.runSteps, hstep]
  rw [run, hl]
  dsimp only
  rw [hsteps]

/-- Without a pool, a run that is not refused leaves the first batch as it was marked. -/
theorem strands_of_overfull (hl : r.store.load (r.clock w) w = .ok d) (hf : d.IsFiled)
    (hs : ¬ r.IsRefused m w) (hp : Pool.greatestPermits < r.permits) {id : String}
    (hwork : d.HasWork s id) (hfirst : ∀ k, k < s → ∀ id, ¬ d.HasWork k id) :
    r.Strands m w d s := by
  obtain ⟨st, hreach, htrace, hdue, hrelated⟩ :=
    exists_reaches_of_no_work (r := r) (m := m) (w := w) hf hfirst
  have hfst := Document.isFiled_of_related hrelated hf
  have hstep := RunState.runStep_of_due (r := r) hfst ((hdue id).mpr hwork)
  have hw : (st.choose r s).document.Awaits s _ :=
    Document.awaits_select (r.clock st.world) s hfst
  have hids := (Document.roster_select (r.clock st.world) s hfst).mem
  generalize (st.document.select (r.clock st.world) s).eligible = ids at hstep hw hids
  rcases hb : (st.choose r s).runBatch r s ids with ⟨res, st'⟩
  rw [hb] at hstep
  rcases RunState.runBatch_of_overfull hp hw hb with ⟨e, rfl⟩ | ⟨rfl, hend⟩
  · have herror : (r.run m w).result = .error (.error e) := by
      rw [hreach.run_of_error hl hstep]
      rfl
    cases (overfull_of_error hl hf hs herror).1
  have hrun := hreach.run_of_error hl hstep
  have hevents : (r.run m w).trace =
      [.batchStarted s ids.length, .saving ((st.choose r s).marked r s ids)] := by
    rw [hrun]
    show st'.trace = _
    rw [hend]
    show st.trace ++ _ = _
    rw [htrace]
    rfl
  have hleft : r.left m w d = (st.choose r s).marked r s ids := by
    rw [left, hevents]
    rfl
  refine ⟨by rw [hrun]; rfl, ⟨ids.length, hleft ▸ hevents⟩, fun id k => ?_⟩
  have hchoose : st.document.Related Entity.SameWork (st.choose r s).document :=
    Document.related_select (r.clock st.world) s hfst
  have hsame : (st.choose r s).document.statusAt? id k = d.statusAt? id k :=
    (Document.attempts_of_related (hrelated.trans hchoose Entity.SameWork.trans) id k).2
  rw [hleft, RunState.marked, Document.running_withMarks_iff _ _ hw, hsame, hids, hdue]

/-- If there can be a pool, or if there is no work, a run over a valid document whose saves succeed
enters all that it marks, and leaves nothing running that did not run before.  Otherwise it marks
all that there is work with at the first such step, and breaks off before any call. -/
theorem enters_or_strands (hl : r.store.load (r.clock w) w = .ok d) (hc : d.check = .ok ())
    (hs : ¬ r.IsRefused m w) :
    (r.permits ≤ Pool.greatestPermits ∨ (∀ s id, ¬ d.HasWork s id) → ∃ x, r.Enters m w d x) ∧
    (Pool.greatestPermits < r.permits → ∀ s id, d.HasWork s id →
      (∀ k, k < s → ∀ id, ¬ d.HasWork k id) → r.Strands m w d s) := by
  have hf := Document.isFiled_of_check hc
  refine ⟨fun h => ?_, fun hp s id hwork hfirst => strands_of_overfull hl hf hs hp hwork hfirst⟩
  obtain ⟨x, hok⟩ : ∃ x, (r.run m w).result = .ok x := by
    rcases h with hp | hn
    · exact (ok_or_isRefused hl hf hp).resolve_left hs
    · exact ok_of_no_work hl hf hs hn
  exact ⟨x, enters_of_ok hl hc hok⟩

/-- As `faulty`, with more permits than a pool can have. -/
def crowded : RunSetup Document := { faulty with concurrency := Pool.greatestPermits + 1 }

theorem enters_or_strands_crowd :
    crowd.check = .ok () ∧ (∃ x, faulty.Enters (.ofSinks []) crowd crowd x) ∧
      crowd.HasWork .ingested "post" ∧ crowded.Strands (.ofSinks []) crowd crowd .ingested := by
  have hcheck : crowd.check = .ok () := by decide +kernel
  have hsaves : ∀ now d' w', (faulty.store.save now d' w').1 = .ok () := fun _ _ _ => rfl
  have hwork : crowd.HasWork .ingested "post" :=
    ⟨.draft (.ofSeconds 0) "post" .null, by decide +kernel, by decide, by decide, by decide⟩
  have hentered := enters_or_strands (r := faulty) (m := .ofSinks []) (w := crowd) rfl hcheck
    (not_isRefused_of_saves hsaves)
  have hstranded := enters_or_strands (r := crowded) (m := .ofSinks []) (w := crowd) rfl hcheck
    (not_isRefused_of_saves hsaves)
  exact ⟨hcheck, hentered.1 (.inl (by decide)), hwork,
    hstranded.2 (by decide) .ingested "post" hwork fun k hk => absurd hk (Nat.not_lt_zero _)⟩

/-- The standard configuration with one permit too many. -/
def greedy : Config :=
  { Config.standard with
    defaults := { Config.standard.defaults with concurrency := Pool.greatestPermits + 1 } }

/-- A configuration with a count of 62 bits is accepted, and a run with it over a valid document
leaves an entity running that it has marked itself, although its store never fails. -/
theorem exists_config_stranded : ∃ (rc : RunConfig) (d : Document),
    RunConfig.ofConfig greedy = .ok rc ∧ rc.concurrency < 18446744073709551616 ∧
    d.check = .ok () ∧ d.statusAt? "post" .ingested = some .pending ∧
    (∀ now d' w', (plain.store.save now d' w').1 = .ok ()) ∧
    plain.store.load (plain.clock d) d = .ok d ∧
    (∀ x, ({ plain with concurrency := rc.concurrency }.run (.ofSinks []) d).result ≠ .ok x) ∧
    ({ plain with concurrency := rc.concurrency }.left (.ofSinks []) d d).statusAt? "post"
      .ingested = some .running := by
  refine ⟨_, .oneDraft, rfl, by decide, by decide +kernel, by decide +kernel, fun _ _ _ => rfl, rfl,
    fun x h => ?_, by decide +kernel⟩
  have herror : ({ plain with concurrency := Pool.greatestPermits + 1 }.run (.ofSinks [])
    .oneDraft).result.isOk = false := by decide +kernel
  exact absurd (congrArg Except.isOk h) (Bool.eq_false_iff.mp herror)

end RunSetup
end Publishing
