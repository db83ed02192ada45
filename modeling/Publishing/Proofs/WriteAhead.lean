import Publishing.Proofs.Trace

/-
No call begins before its mark is saved.

A run changes a document in memory and saves it in between, so at each event of a call
two documents matter: the one saved last, which has the mark of the call, and the one
saved before that, or loaded, in which the entity still waits.  What carries the proof
from batch to batch is that selection changes no step, so that between two batches the
document in memory agrees step by step with the one that was saved last.
-/

namespace Publishing

namespace Entity

/-- The steps before the current one are done. -/
def HasPassed (e : Entity) : Prop := ∀ s, s < e.currentStep → (e.step s).status.isDone

theorem HasPassed.congr {e e' : Entity} (h : SameWork e e') (he : e.HasPassed) :
    e'.HasPassed := by
  intro s hs
  rw [h.currentStep] at hs
  rw [h.stepStatus]
  exact he s hs

theorem isDone_of_lt_firstOpenStep? {e : Entity} {k s : Step} (h : e.firstOpenStep? = some k)
    (hs : s < k) : (e.step s).status.isDone := by
  cases hd : (e.step s).status.isDone with
  | true => rfl
  | false =>
    -- the open step before `k` would have been found first
    obtain ⟨s', hs'⟩ : ∃ s', k.predecessors.find? (fun s => !(e.step s).status.isDone) =
        some s' := by
      cases hf : k.predecessors.find? (fun s => !(e.step s).status.isDone) with
      | some s' => exact ⟨s', rfl⟩
      | none =>
        have := List.find?_eq_none.mp hf s (Step.mem_predecessors.mpr hs)
        rw [hd] at this
        exact absurd rfl this
    have hlt := Step.mem_predecessors.mp (List.mem_of_find?_eq_some hs')
    rw [firstOpenStep?, ← Step.predecessors_append_onward k, List.find?_append, hs',
      Option.some_or] at h
    obtain rfl := Option.some.inj h
    exact absurd hlt (Step.lt_irrefl _)

theorem HasPassed.mark {e : Entity} (he : e.HasPassed) (now : Timestamp) (runId : RunId)
    {s : Step} (hs : e.isPendingAt s) : (e.mark now runId s).1.HasPassed := by
  refine HasPassed.congr (sameProgress_mark now runId s e).toSameWork fun s' hs' => ?_
  have hlt : s' < s := hs'
  rw [step_beginStep, if_neg (Step.ne_of_lt hlt)]
  exact he s' ((isPendingAt_iff.mp hs).1 ▸ hlt)

/-- Folding the outcome of the current step leads at most to the next one. -/
theorem HasPassed.fold {e : Entity} (he : e.HasPassed) (now : Timestamp) {s : Step}
    (hs : e.currentStep = s) (outcome : Outcome) (ms : Nat) :
    (e.fold now s outcome ms).1.HasPassed := by
  cases outcome with
  | succeeded metrics =>
    refine HasPassed.congr (sameProgress_emit ..).toSameWork fun s' hs' => ?_
    rw [step_completeStep]
    split
    · rfl
    · next hne =>
      apply he
      rw [hs]
      change s' < s.next?.getD s at hs'
      cases hn : s.next? with
      | none =>
        rw [hn] at hs'
        exact hs'
      | some n =>
        rw [hn] at hs'
        exact (Step.le_iff_eq_or_lt.mp ((Step.le_iff_lt_next hn s').mpr hs')).resolve_left hne
  | failed message =>
    refine HasPassed.congr (sameProgress_emit ..).toSameWork fun s' hs' => ?_
    have hlt : s' < s := hs'
    rw [step_failStep, if_neg (Step.ne_of_lt hlt)]
    exact he s' (hs ▸ hlt)

end Entity

namespace Document

/-- `d` marks the call `c` as the next attempt at a step that waits in `before`. -/
structure Marks (d : Document) (c : Call) (before : Document) : Prop where
  current : d.global.currentStep = some c.step
  entry : ∃ e₀ e, before.find? c.entity = some e₀ ∧ d.find? c.entity = some e ∧
    (e₀.step c.step).status = .pending ∧ (e.step c.step).status = .running ∧
    (e.step c.step).attempts = (e₀.step c.step).attempts + 1 ∧
    ∀ s, s < c.step → (e.step s).status.isDone

variable {d d₀ : Document} {s : Step} {ids : List String}

theorem every_hasPassed_of_related (h : d.Related Entity.SameWork d₀)
    (hd : d.Every Entity.HasPassed) : d₀.Every Entity.HasPassed := by
  intro id e he
  obtain ⟨e₀, he₀, hw⟩ := h.left he
  exact (hd id e₀ he₀).congr hw

/-- The marks of a batch mark each call for one of its entities. -/
theorem marks_withMarks (now : Timestamp) (runId : RunId) (hw : d.Awaits s ids)
    (hr : d₀.Related Entity.SameWork d) (hp : d.Every Entity.HasPassed) {c : Call}
    (hid : c.entity ∈ ids) (hs : c.step = s) : (d.withMarks now runId s ids).Marks c d₀ := by
  subst hs
  obtain ⟨e, he, hpend, hl⟩ := hw.waiting c.entity hid
  obtain ⟨e₀, he₀, hsame⟩ := hr.left he
  refine ⟨rfl, e₀, (e.mark now runId c.step).1, he₀, ?_, ?_, ?_, ?_, fun s hs => ?_⟩
  · rw [find?_withMarks, he, Option.map_some, marked, if_pos hid]
  · rw [← hsame.stepStatus]
    exact (Entity.isPendingAt_iff.mp hpend).2.1
  · rw [(Entity.step_mark now runId hl c.step).1, if_pos rfl]
  · rw [(Entity.step_mark now runId hl c.step).2, if_pos rfl, hsame.attempts]
  · exact (hp _ _ he).mark now runId hpend s hs

/-- Marking and folding a batch passes no step that is not done. -/
theorem every_hasPassed_withMarks (now : Timestamp) (runId : RunId) (hw : d.Awaits s ids)
    (hp : d.Every Entity.HasPassed) : (d.withMarks now runId s ids).Every Entity.HasPassed := by
  refine hp.mapEntities fun id e he hpe => ?_
  rw [marked]
  split
  · next hid =>
    obtain ⟨e', he', hpend, -⟩ := hw.waiting id hid
    obtain rfl := Option.some.inj (he.symm.trans he')
    exact hpe.mark now runId hpend
  · exact hpe

theorem every_hasPassed_withOutcomes (now now' : Timestamp) (runId : RunId)
    (ending : String → Ending) (batch : Batch) (hw : d.Awaits s ids)
    (hp : d.Every Entity.HasPassed) :
    ((d.withMarks now runId s ids).withOutcomes now' s ending ids batch).Every
      Entity.HasPassed := by
  refine (every_hasPassed_withMarks now runId hw hp).mapEntities fun id e he hpe => ?_
  rw [folded]
  split
  · next hid =>
    refine hpe.fold now' ?_ _ _
    obtain ⟨e', he', -⟩ := hw.waiting id hid
    rw [find?_withMarks, he', Option.map_some, marked, if_pos hid] at he
    exact (Option.some.inj he) ▸ rfl
  · exact hpe

end Document

variable {σ : Type}

/-- Whether a call may come to pass after these events of a run that loaded `d`: the
document saved last marks the call, against the one saved before it. -/
def RunSetup.WrittenAhead (r : RunSetup σ) (d : Document) (before : List RunEvent) :
    RunEvent → Prop
  | .pool e => ∃ saved marked, RunEvent.savings before = saved ++ [marked] ∧
      r.Accepts marked ∧ marked.Marks e.call (saved.getLast?.getD d)
  | _ => True

namespace RunState

/-- What a run keeps between two batches, having loaded `d`. -/
structure IsAhead (r : RunSetup σ) (d : Document) (st : RunState σ) : Prop where
  trace : RunEvent.AtEach (r.WrittenAhead d) st.trace
  passed : st.document.Every Entity.HasPassed
  saved : st.Follows d

theorem IsAhead.choose {r : RunSetup σ} {d : Document} {st : RunState σ} (h : st.IsAhead r d)
    (hf : st.document.IsFiled) (s : Step) : (st.choose r s).IsAhead r d := by
  have hr := Document.related_select (r.clock st.world) s hf
  exact ⟨h.trace, Document.every_hasPassed_of_related hr h.passed,
    h.saved.choose hf r s⟩

/-- A batch has all its calls behind the save of its marks. -/
theorem IsAhead.batch {r : RunSetup σ} {d : Document} {s : Step} {ids : List String}
    {st st' : RunState σ} (h : st.IsAhead r d) (hw : st.document.Awaits s ids)
    (ho : Outline r s ids st st') : st'.IsAhead r d := by
  -- the marks come before all calls
  have hstart : RunEvent.AtEach (r.WrittenAhead d)
      (st.trace ++ [.batchStarted s ids.length, .saving (st.marked r s ids)]) := by
    rw [List.append_cons]
    exact RunEvent.atEach_concat (RunEvent.atEach_concat h.trace trivial) trivial
  have hfollows := ho.follows d
  cases ho with
  | marked hdoc htrace =>
    refine ⟨htrace ▸ hstart, ?_, hfollows⟩
    rw [hdoc]
    exact Document.every_hasPassed_withMarks _ _ hw h.passed
  | folded calls events now ending batch results hacc hids hsteps hasked hbegun hdoc htrace =>
    have hpool : ∀ before e after, events.map RunEvent.pool = before ++ e :: after →
        r.WrittenAhead d
          ((st.trace ++ [.batchStarted s ids.length, .saving (st.marked r s ids)]) ++ before)
          e := by
      intro before e after heq
      obtain ⟨events₁, events₂, rfl, hb, ha⟩ := List.map_eq_append_iff.mp heq
      obtain ⟨p, rest, rfl, rfl, -⟩ := List.map_eq_cons_iff.mp ha
      refine ⟨RunEvent.savings st.trace, st.marked r s ids, ?_, hacc, ?_⟩
      · rw [← hb, RunEvent.savings_append, RunEvent.savings_append, RunEvent.savings_pool,
          List.append_nil]
        rfl
      · have hp := hasked p (List.mem_append_right _ List.mem_cons_self)
        refine Document.marks_withMarks _ _ hw h.saved h.passed ?_ (hsteps _ hp)
        rw [← hids]
        exact List.mem_map_of_mem hp
    refine ⟨?_, ?_, hfollows⟩
    · rw [htrace]
      refine RunEvent.atEach_concat (RunEvent.atEach_append_of_forall
        (RunEvent.atEach_append hstart hpool) fun before e he => ?_) trivial
      obtain ⟨_, _, _, rfl⟩ := mem_progress he
      trivial
    · rw [hdoc]
      exact Document.every_hasPassed_withOutcomes _ _ _ _ _ hw h.passed

end RunState

/-- A run of one new entity through all steps, with a store that always works. -/
def RunSetup.plain : RunSetup Document where
  store := ⟨fun _ d => .ok d, fun now d _ => (.ok (), { d with lastUpdated := now })⟩
  executor := .passThrough
  clock d := d.lastUpdated
  runId := ⟨0⟩
  concurrency := 1
  schedule := Pool.eager

def Document.oneDraft : Document :=
  (Document.empty (.ofSeconds 0)).insert "post" (.draft (.ofSeconds 0) "post" .null)

end Publishing
