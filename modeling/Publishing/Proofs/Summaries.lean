import Publishing.Proofs.Accounts

/-
What the summary of a run says.

`RunSummary.Accounts` reads a summary against the document that was loaded, the one that was left,
and the calls that were made with the way they ended: which batches it lists and with which counts,
who is listed as set back and as stuck, and what the progress has shown on the way.  Every run that
reports gives such a summary.
-/

namespace Publishing

theorem Step.flatMap_all_if {α : Type} (k : Step) (f : Step → List α) :
    (Step.all.flatMap fun a => if a = k then f a else []) = f k := by
  cases k <;> simp [Step.all]

namespace Entity

variable {e : Entity} {k : Step}

theorem IsValid.runningStep?_eq_some (h : e.IsValid) :
    e.runningStep? = some k ↔ (e.step k).status = .running := by
  refine ⟨fun hk => by simpa using List.find?_some hk, fun hk => ?_⟩
  cases hr : e.runningStep? with
  | none => exact absurd hk (runningStep?_eq_none.mp hr k)
  | some a =>
    have ha : (e.step a).status = .running := by simpa using List.find?_some hr
    rw [h.running_unique a k ha hk]

theorem IsOnCourse.runningStep? (h : e.IsOnCourse) (hv : e.IsValid) : e.runningStep? = none := by
  refine runningStep?_eq_none.mpr fun a ha => ?_
  rcases Step.lt_or_eq_or_gt a e.currentStep with hlt | rfl | hgt
  · have hdone := hv.before a hlt
    rw [ha] at hdone
    cases hdone
  · rw [(isPendingAt_iff.mp h.1).2.1] at ha
    cases ha
  · rw [h.2 a hgt] at ha
    cases ha

/-- What the start of a run makes of an entity. -/
theorem comes_blockStuck (hv : e.IsValid) (now : Timestamp) :
    Comes [] [] e (e.blockStuck now).1 := by
  have hsame : e.runningStep? = none → (e.blockStuck now).1 = e := by
    intro hr
    rw [blockStuck, hr]
  constructor
  case stays =>
    intro h
    refine ⟨?_, List.not_mem_nil⟩
    unfold blockStuck
    split
    · next hr => exact h.resolve_right (not_not.mpr hr)
    · split
      · assumption
      · rfl
  case blocked =>
    intro hb hn hr
    rw [hsame hr] at hb
    exact absurd hb hn
  case setBack =>
    intro h
    cases h
  case course =>
    intro h
    rw [hsame (h.runningStep? hv)]
    exact Or.inr (Or.inr ⟨h, List.not_mem_nil⟩)

end Entity

namespace Document

variable {d : Document}

theorem pairwise_stuckSetbacks (hf : d.IsFiled) :
    (d.stuckSetbacks.map (·.id)).Pairwise (· < ·) :=
  pairwise_filterMap hf fun e x hx => by
    obtain ⟨s, -, rfl⟩ := Option.map_eq_some_iff.mp hx
    rfl

theorem mem_stuckSetbacks (hf : d.IsFiled) (hv : d.Every Entity.IsValid) {f : Setback} :
    f ∈ d.stuckSetbacks ↔ ∃ e k, d.find? f.id = some e ∧ (e.step k).status = .running ∧
      f = ⟨f.id, k, (e.step k).attempts, "step was left running by an interrupted run"⟩ := by
  rw [stuckSetbacks, List.mem_filterMap]
  constructor
  · rintro ⟨e, hmem, hf'⟩
    obtain ⟨id, he⟩ := mem_all.mp hmem
    obtain rfl := hf id e he
    obtain ⟨k, hk, rfl⟩ := Option.map_eq_some_iff.mp hf'
    exact ⟨e, k, he, (hv _ e he).runningStep?_eq_some.mp hk, rfl⟩
  · rintro ⟨e, k, he, hk, hf'⟩
    refine ⟨e, mem_all.mpr ⟨_, he⟩, ?_⟩
    rw [Entity.stuckSetback?, (hv _ e he).runningStep?_eq_some.mpr hk, hf', hf _ e he,
      Option.map_some]

end Document

/-- Whether `x` is what is to be said of a run over `d` that has left `d'`, with these events,
when its calls at each step, in the order of the ids, have ended like this. -/
structure RunSummary.Accounts {σ : Type} (x : RunSummary) (r : RunSetup σ) (d d' : Document)
    (l : List RunEvent) (ended : Step → List (Call × Ending)) : Prop where
  calls : ∀ k, ((RunEvent.calls l).filter fun c => c.step = k).Perm ((ended k).map (·.1))
  ordered : ∀ k, ((ended k).map (·.1.entity)).Pairwise (· < ·)
  given : ∀ k, ∀ p ∈ ended k, ∃ w, (r.executor p.1 w).1 = p.2
  /-- How a call has ended is to be seen in its entity. -/
  entered : ∀ k, ∀ p ∈ ended k,
    ∃ e, d'.find? p.1.entity = some e ∧ e.Enters k p.2.outcome
  runId : x.runId = r.runId
  /-- There is one batch for each step with calls, in the order of the steps. -/
  batches : x.batches.map (·.step) = Step.all.filter fun k => !(ended k).isEmpty
  rising : (x.batches.map (·.step)).Pairwise (· < ·)
  counts : ∀ b ∈ x.batches, b.Counts x.runId b.step (ended b.step)
  totals : ∀ b ∈ x.batches, b.processed = (RunEvent.calls l).countP (fun c => c.step = b.step) ∧
    b.succeeded + b.failed = b.processed
  history : d'.global.stepHistory = d.global.stepHistory ++ x.batches
  /-- Step by step, those without attempts left come first, and then those that have failed. -/
  failures : x.failures =
    Step.all.flatMap fun k => d.refusals k d' ++ (ended k).filterMap d'.setback?
  refused : ∀ k, ((d.refusals k d').map (·.id)).Pairwise (· < ·)
  stuck : ∀ f, f ∈ x.stuck ↔ ∃ e k, d.find? f.id = some e ∧ (e.step k).status = .running ∧
    f = ⟨f.id, k, (e.step k).attempts, "step was left running by an interrupted run"⟩
  stuckOrdered : (x.stuck.map (·.id)).Pairwise (· < ·)
  once : ((x.failures ++ x.stuck).map (·.id)).Nodup
  /-- Whoever is on course either gets to the end or is set back. -/
  settled : ∀ id e, d.find? id = some e → e.IsOnCourse → ∃ e', d'.find? id = some e' ∧
    (e'.status = .completed ↔ id ∉ x.failures.map (·.id))
  reports : RunEvent.reports l =
    (x.batches.flatMap fun b => b.reports (ended b.step)) ++ [.done x]

/-- Which step a document shows at work is not part of the account. -/
theorem RunSummary.Accounts.setCurrentStep {σ : Type} {x : RunSummary} {r : RunSetup σ}
    {d d' : Document} {l : List RunEvent} {ended : Step → List (Call × Ending)}
    (h : x.Accounts r d d' l ended) (s? : Option Step) :
    x.Accounts r d (d'.setCurrentStep s?) l ended := by
  cases h
  constructor <;> assumption

namespace RunState

variable {σ : Type} {r : RunSetup σ} {st st' : RunState σ} {d : Document} {m : Emitter σ} {w : σ}
  {ended : Step → List (Call × Ending)} {done : List Step}

theorem ledger_opening (hf : d.IsFiled) (hv : d.Every Entity.IsValid) :
    Ledger r d ended [] (opening r d m w) where
  filed := isFiled_opening hf r m w
  entities := Document.related_mapEntities fun id e he =>
    Entity.comes_blockStuck (hv id e he) (r.clock w)
  calls := .nil
  ordered := nofun
  given := nofun
  batches := rfl
  counts := nofun
  history := (List.append_nil _).symm
  failures := rfl
  entered := nofun
  once := .nil
  reports := rfl

theorem account_close {res : Except Halt Unit} (h : st.close r = (res, st')) :
    st'.batches = st.batches ∧ st'.failures = st.failures := by
  rcases close_cases h with ⟨-, hsave⟩ | ⟨-, -, rfl⟩
  · obtain ⟨hbatches, hfailures⟩ := account_save hsave
    exact ⟨hbatches, hfailures⟩
  · exact ⟨rfl, rfl⟩

namespace Ledger

theorem calls_at (h : Ledger r d ended Step.all st) (k : Step) :
    ((RunEvent.calls st.trace).filter fun c => c.step = k).Perm ((ended k).map (·.1)) := by
  refine (h.calls.filter _).trans (.of_eq ?_)
  rw [List.filter_flatMap, ← Step.flatMap_all_if k fun a => (ended a).map (·.1)]
  refine List.flatMap_congr fun a ha => ?_
  have hstep : ∀ c ∈ (ended a).map (·.1), c.step = a := by
    intro c hc
    obtain ⟨p, hp, rfl⟩ := List.mem_map.mp hc
    exact (h.given a ha p hp).1
  split
  · next hk => exact List.filter_eq_self.mpr fun c hc => by simp [hstep c hc, hk]
  · next hk => exact List.filter_eq_nil_iff.mpr fun c hc => by simp [hstep c hc, hk]

theorem settled (h : Ledger r d ended Step.all st) {id : String} {e₀ : Entity}
    (he₀ : d.find? id = some e₀) (hcourse : e₀.IsOnCourse) :
    ∃ e, st.document.find? id = some e ∧
      (e.status = .completed ↔ id ∉ st.failures.map (·.id)) := by
  obtain ⟨e, he, hcomes⟩ := h.entities.right he₀
  obtain rfl := h.filed id e he
  refine ⟨e, he, fun hdone hmem => ?_, fun hmem => ?_⟩
  · have hneeds := hcomes.setBack hmem
    rw [hdone] at hneeds
    cases hneeds
  · rcases hcomes.course hcourse with hback | hdone | ⟨-, hrest⟩
    · exact absurd hback hmem
    · exact hdone
    · exact absurd (Step.mem_all e.currentStep) hrest

theorem once_stuck (h : Ledger r d ended Step.all st) (hf : d.IsFiled) :
    ((st.failures ++ d.stuckSetbacks).map (·.id)).Nodup := by
  rw [List.map_append]
  refine List.nodup_append.mpr
    ⟨h.once, (Document.pairwise_stuckSetbacks hf).imp String.ne_of_lt, ?_⟩
  rintro id hback _ hstuck rfl
  obtain ⟨e₀, he₀, hrunning⟩ := (Document.mem_ids_stuckSetbacks hf).mp hstuck
  obtain ⟨e, he, hcomes⟩ := h.entities.right he₀
  obtain rfl := h.filed id e he
  refine (hcomes.stays (Or.inr ?_)).2 hback
  rw [ne_eq, Entity.runningStep?_eq_none]
  simpa using hrunning

/-- At the end the account is the one that a summary of it gives. -/
theorem accounts (h : Ledger r d ended Step.all st) (hf : d.IsFiled) (hv : d.Every Entity.IsValid)
    {x : RunSummary} {l : List RunEvent} (hrunId : x.runId = r.runId)
    (hbatches : x.batches = st.batches) (hfailures : x.failures = st.failures)
    (hstuck : x.stuck = d.stuckSetbacks) (hcalls : RunEvent.calls l = RunEvent.calls st.trace)
    (hreports : RunEvent.reports l = RunEvent.reports st.trace ++ [.done x]) :
    x.Accounts r d st.document l ended := by
  have hmem := Step.mem_all
  have hcounts : ∀ b ∈ x.batches, b.Counts x.runId b.step (ended b.step) := by
    rw [hbatches, hrunId]
    exact h.counts
  have hat : ∀ k, ((RunEvent.calls l).filter fun c => c.step = k).Perm ((ended k).map (·.1)) :=
    hcalls ▸ h.calls_at
  have hsteps : x.batches.map (·.step) = Step.all.filter fun k => !(ended k).isEmpty :=
    hbatches ▸ h.batches
  constructor
  case calls => exact hat
  case ordered => exact fun k => h.ordered k (hmem k)
  case given => exact fun k p hp => (h.given k (hmem k) p hp).2
  case entered => exact fun k => h.entered k (hmem k)
  case runId => exact hrunId
  case batches => exact hsteps
  case rising =>
    rw [hsteps]
    exact (Step.pairwise_all.mpr fun _ _ hlt => hlt).sublist List.filter_sublist
  case counts => exact hcounts
  case totals =>
    intro b hb
    have hcount := hcounts b hb
    rw [hcount.processed, hcount.succeeded, hcount.failed, List.countP_eq_length_filter,
      (hat b.step).length_eq, List.length_map]
    refine ⟨rfl, ?_⟩
    rw [List.length_eq_countP_add_countP fun p : Call × Ending => p.2.outcome.isSuccess]
    simp only [Bool.not_eq_true, Bool.decide_eq_false]
  case history => rw [h.history, hbatches]
  case failures => exact hfailures.trans h.failures
  case refused => exact fun k => Document.pairwise_refusals h.filed k
  case stuck => exact hstuck ▸ fun f => Document.mem_stuckSetbacks hf hv
  case stuckOrdered => exact hstuck ▸ Document.pairwise_stuckSetbacks hf
  case once => exact hfailures ▸ hstuck ▸ h.once_stuck hf
  case settled => exact hfailures ▸ fun id e he => h.settled he
  case reports => rw [hreports, h.reports, hbatches]

end Ledger
end RunState

namespace RunSetup

variable {σ : Type} {r : RunSetup σ} {m : Emitter σ} {w : σ} {d : Document} {x : RunSummary}

/-- The events of a run that reports are those of its steps, with nothing but the summary to be
shown after them. -/
theorem trace_of_close {st st' : RunState σ} (h : st.close r = (.ok (), st')) :
    RunEvent.calls (st'.log [.done x]).trace = RunEvent.calls st.trace ∧
      RunEvent.reports (st'.log [.done x]).trace = RunEvent.reports st.trace ++ [.done x] := by
  have hdone : RunEvent.calls [.done x] = [] ∧ RunEvent.reports [.done x] = [.done x] :=
    ⟨rfl, rfl⟩
  have hsaving : ∀ d', RunEvent.calls [.saving d'] = [] ∧ RunEvent.reports [.saving d'] = [] :=
    fun _ => ⟨rfl, rfl⟩
  show RunEvent.calls (st'.trace ++ _) = _ ∧ RunEvent.reports (st'.trace ++ _) = _
  rcases RunState.trace_close h with ht | ht
  · rw [ht, RunEvent.calls_append, RunEvent.reports_append, hdone.1, hdone.2, List.append_nil]
    exact ⟨rfl, rfl⟩
  · rw [ht, RunEvent.calls_append, RunEvent.reports_append, hdone.1, hdone.2,
      RunEvent.calls_append, RunEvent.reports_append, (hsaving _).1, (hsaving _).2]
    simp only [List.append_nil, and_self]

/-- The account of a run: whatever the executor does, a run that reports lists exactly the batches
it has entered, with the numbers of the calls it has made, exactly those it has set back, each
once, with what is entered of them, and exactly those it has found stuck; and whoever is on course
is completed or listed. -/
theorem accounts_of_run (hl : r.store.load (r.clock w) w = .ok d) (hc : d.check = .ok ())
    (hok : (r.run m w).result = .ok x) :
    ∃ ended, x.Accounts r d (r.left m w d) (r.run m w).trace ended := by
  obtain ⟨-, hf, hv⟩ := Document.check_eq_ok_iff.mp hc
  obtain ⟨st, st', hsteps, hclose, hrun, hx⟩ := run_of_ok hl hok
  obtain ⟨ended, hlegs⟩ :=
    RunState.exists_legs Step.nodup_all (RunState.isFiled_opening hf r m w) hsteps
  have h : RunState.Ledger r d ended Step.all st :=
    (RunState.ledger_opening hf hv).legs hlegs (Step.pairwise_all.mpr fun _ _ hlt => hlt)
  obtain ⟨hbatches, hfailures⟩ := RunState.account_close hclose
  obtain ⟨hcalls, hreports⟩ := trace_of_close (x := x) hclose
  have haccounts : x.Accounts r d st.document (r.run m w).trace ended := by
    refine h.accounts hf hv ?_ ?_ ?_ ?_ (hrun ▸ hcalls) (hrun ▸ hreports)
    · rw [hx]
    · rw [hx, ← hbatches]
    · rw [hx, ← hfailures]
    · rw [hx]
  obtain ⟨st₂, hsteps₂, hleft⟩ := left_of_ok hl hf hok
  obtain rfl : st = st₂ := congrArg Prod.snd (hsteps.symm.trans hsteps₂)
  refine ⟨ended, ?_⟩
  rcases hleft with hleft | hleft
  · exact hleft ▸ haccounts.setCurrentStep none
  · exact hleft ▸ haccounts

/-- Beside the entities of `crowd` one that has used up its attempts. -/
def spentCrowd : Document :=
  crowd.insert "spent" ((Entity.draft (.ofSeconds 0) "spent" .null).modifyStep .ingested
    fun record => { record with attempts := maxAttempts })

theorem accounts_of_run_spentCrowd :
    spentCrowd.check = .ok () ∧
      (∃ x ended, (faulty.run (.ofSinks []) spentCrowd).result = .ok x ∧
        x.Accounts faulty spentCrowd (faulty.left (.ofSinks []) spentCrowd spentCrowd)
          (faulty.run (.ofSinks []) spentCrowd).trace ended) ∧
      (faulty.run (.ofSinks []) spentCrowd).result.toOption.map (fun x =>
          (x.failures.map fun f => (f.id, f.attempts), x.stuck.map (·.id),
            x.batches.map (·.processed))) =
        some ([("spent", 3), ("broken", 1)], ["stuck"], [2, 1, 1, 1, 1]) := by
  have hcheck : spentCrowd.check = .ok () := by decide +kernel
  obtain ⟨x, hx⟩ := result_of_isOk (r := faulty) (m := .ofSinks []) (w := spentCrowd)
    (by decide +kernel)
  have hl : faulty.store.load (faulty.clock spentCrowd) spentCrowd = .ok spentCrowd := rfl
  obtain ⟨ended, haccounts⟩ := accounts_of_run hl hcheck hx
  exact ⟨hcheck, ⟨x, ended, hx, haccounts⟩, by decide +kernel⟩

end RunSetup
end Publishing
