import Publishing.Proofs.Preservation
import Publishing.Proofs.Rosters
import Publishing.Proofs.Workers

/-
The batches of a run come one after the other.

A step of a run adds to its events none, or those of one batch: the marks are saved, the calls
of all that are eligible begin and end, and the outcomes are saved.  `Segment` says what these
events are.  From it follow the bound on the calls at work, that each call is made once, and
the barrier between the batches: when a call begins, every call of an earlier step has ended
and its outcome is in a document that the store has taken.
-/

namespace Publishing

/-- Whether the batch at the step of a call asks for it. -/
def Document.Asks (d : Document) (c : Call) : Prop :=
  ∃ e, d.find? c.entity = some e ∧ e.metadata = c.metadata ∧ e.isPendingAt c.step ∧
    (e.step c.step).hasAttemptsLeft

/-- Whether the outcome of a call is entered in a document, and its batch with it. -/
structure Document.Settles (d : Document) (runId : RunId) (c : Call) : Prop where
  entity : ∃ e, d.find? c.entity = some e ∧
    ((e.step c.step).status = .completed ∨ (e.step c.step).status = .failed)
  batch : ∃ b ∈ d.global.stepHistory, b.step = c.step ∧ b.runId = some runId

/-- Whether a call has ended before a document with its outcome was saved. -/
def RunSetup.Settled {σ : Type} (r : RunSetup σ) (l : List RunEvent) (c : Call) : Prop :=
  ∃ seen d rest, l = seen ++ .saving d :: rest ∧ c ∈ RunEvent.endings seen ∧ r.Accepts d ∧
    d.Settles r.runId c

theorem RunSetup.Settled.append {σ : Type} {r : RunSetup σ} {l : List RunEvent} {c : Call}
    (h : r.Settled l c) (k : List RunEvent) : r.Settled (l ++ k) c := by
  obtain ⟨seen, d, rest, rfl, hrest⟩ := h
  exact ⟨seen, d, rest ++ k, by rw [List.append_assoc, List.cons_append], hrest⟩

/-- Where an event may stand: a call begins only when each call of an earlier step has ended
and its outcome is saved, and when none of a later step has begun. -/
def RunSetup.Barred {σ : Type} (r : RunSetup σ) (before : List RunEvent) : RunEvent → Prop
  | .pool (.began c _) => ∀ c' ∈ RunEvent.calls before,
      c'.step ≤ c.step ∧ (c'.step < c.step → r.Settled before c')
  | _ => True

/-- An outcome leaves the step completed or failed. -/
theorem Entity.status_fold (now : Timestamp) (s : Step) (o : Outcome) (ms : Nat) (e : Entity) :
    ((e.fold now s o ms).1.step s).status = .completed ∨
      ((e.fold now s o ms).1.step s).status = .failed := by
  cases o with
  | succeeded metrics =>
    left
    show (((e.completeStep now s ms).emit ..).1.step s).status = _
    rw [(sameProgress_emit ..).stepStatus, step_completeStep, if_pos rfl]
    rfl
  | failed message =>
    right
    show (((e.failStep now s message ms).emit ..).1.step s).status = _
    rw [(sameProgress_emit ..).stepStatus, step_failStep, if_pos rfl]
    rfl

/-- The outcomes of a batch settle its calls. -/
theorem Document.settles_withOutcomes {d : Document} {now : Timestamp} {s : Step}
    {ending : String → Ending} {ids : List String} {batch : Batch} {runId : RunId}
    (hb : batch.step = s ∧ batch.runId = some runId) (hd : ∀ id ∈ ids, d.contains id) {c : Call}
    (hid : c.entity ∈ ids) (hs : c.step = s) :
    (d.withOutcomes now s ending ids batch).Settles runId c := by
  obtain ⟨e, he⟩ := contains_iff.mp (hd _ hid)
  have hfold : (d.withOutcomes now s ending ids batch).find? c.entity =
      some (e.fold now s (ending c.entity).outcome (ending c.entity).durationMs).1 := by
    rw [find?_withOutcomes, he, Option.map_some, folded, if_pos hid]
  refine ⟨⟨_, hfold, ?_⟩, batch, List.mem_append_right _ List.mem_cons_self, hs ▸ hb.1, hb.2⟩
  rw [hs]
  exact e.status_fold ..

/-! ## The events of one step -/

namespace RunState

variable {σ : Type} {r : RunSetup σ} {s : Step} {ids : List String} {st st' : RunState σ}
  {res : Except Halt Unit}

/-- What a step of a run adds to its events, when `asked` are the calls that it asks for. -/
inductive Segment (r : RunSetup σ) (s : Step) (asked : Call → Prop) :
    Except Halt Unit → List RunEvent → Prop
  /-- There is nothing to call for. -/
  | idle (none : ∀ c, c.step = s → ¬ asked c) : Segment r s asked (.ok ()) []
  /-- The marks could not be saved. -/
  | unmarked (total : Nat) (d : Document) (e : Error) :
      Segment r s asked (.error (.error e)) [.batchStarted s total, .saving d]
  | worked {res : Except Halt Unit} (total : Nat) (d : Document) {calls : List Call} (w : σ)
      (nodup : calls.Nodup) (mem : ∀ c, c ∈ calls ↔ c.step = s ∧ asked c)
      (results : List (String × Bool)) {d' : Document}
      (settles : ∀ c ∈ calls, d'.Settles r.runId c)
      (ends : res = .ok () ∧ r.Accepts d' ∨ ∃ e, res = .error (.error e)) :
      Segment r s asked res ([.batchStarted s total, .saving d] ++
        ((Pool.ofCalls calls w).drain r.permits r.executor r.schedule).2.map .pool ++
        (progress s total 0 results ++ [.saving d']))

theorem error_of_save {h : Halt} (hs : st.save r = (.error h, st')) : ∃ e, h = .error e := by
  rcases save_fst_cases r st with ⟨w, -, hst⟩ | ⟨e, w, -, hst⟩
  · rw [hst] at hs
    cases hs
  · rw [hst] at hs
    exact ⟨e, (Except.error.inj (Prod.mk.inj hs).1).symm⟩

theorem mem_calls_iff (hw : st.document.Awaits s ids) {now : Timestamp} {runId : RunId}
    {d : Document} {records : List AuditRecord} {calls : List Call}
    (hm : st.document.markEach now runId s ids = .ok (d, records, calls)) {c : Call} :
    c ∈ calls ↔ c.step = s ∧ c.entity ∈ ids ∧
      ∃ e, st.document.find? c.entity = some e ∧ e.metadata = c.metadata := by
  obtain ⟨-, hids, hsteps⟩ := Document.markEach_eq_ok hw.nodup hw.contains hm
  have hcall : ∀ {id e}, id ∈ ids → st.document.find? id = some e →
      (⟨id, e.metadata, s⟩ : Call) ∈ calls := Document.mem_calls_markEach hw.nodup hm
  constructor
  · intro hc
    have hid : c.entity ∈ ids := hids ▸ List.mem_map_of_mem hc
    obtain ⟨e, he, -⟩ := hw.waiting _ hid
    have hnodup : (calls.map (·.entity)).Nodup := hids ▸ hw.nodup
    have heq := List.inj_on_of_nodup_map hnodup (hcall hid he) hc rfl
    exact ⟨hsteps c hc, hid, e, he, congrArg Call.metadata heq⟩
  · rintro ⟨hs, hid, e, he, hmeta⟩
    have hc := hcall hid he
    rwa [hmeta, ← hs] at hc

/-- The batch of a step asks for the calls of all that wait there with attempts left. -/
theorem mem_calls_choose_iff (hf : st.document.IsFiled) {now : Timestamp} {runId : RunId}
    {d : Document} {records : List AuditRecord} {calls : List Call}
    (hm : (st.choose r s).document.markEach now runId s
      (st.document.select (r.clock st.world) s).eligible = .ok (d, records, calls)) {c : Call} :
    c ∈ calls ↔ c.step = s ∧ st.document.Asks c := by
  rw [mem_calls_iff (Document.awaits_select (r.clock st.world) s hf) hm,
    Document.mem_eligible_select _ s hf]
  constructor
  · rintro ⟨rfl, ⟨e, he, hp, hl⟩, e', he', hmeta⟩
    obtain rfl := Option.some.inj ((find?_choose_of_left hf he hl).symm.trans he')
    exact ⟨rfl, e, he, hmeta, hp, hl⟩
  · rintro ⟨rfl, e, he, hmeta, hp, hl⟩
    exact ⟨rfl, ⟨e, he, hp, hl⟩, e, find?_choose_of_left hf he hl, hmeta⟩

theorem nodup_of_entities {calls : List Call} (h : (calls.map (·.entity)).Nodup) : calls.Nodup :=
  h.of_map _

/-- The events of a batch whose marks are saved. -/
theorem Round.segment {asked : Call → Prop} {d : Document} {records : List AuditRecord}
    {calls : List Call} {st₁ st₂ st₃ : RunState σ} {ending : String → Ending}
    {tally : Document.Tally} (h : Round r s ids st d records calls st₁ ending st₂ tally)
    (hmem : ∀ c, c ∈ calls ↔ c.step = s ∧ asked c)
    (hs₂ : (st₂.enter r s (r.clock st.world) ids tally).save r = (res, st₃)) :
    ∃ k, st₃.trace = st.trace ++ k ∧ Segment r s asked res k := by
  have hw := h.awaits
  obtain ⟨-, hids, hsteps⟩ := Document.markEach_eq_ok hw.nodup hw.contains h.marked
  have hdoc := h.document_save hs₂
  obtain ⟨-, htrace⟩ := save_mark hw h.marked h.save
  obtain ⟨-, -, htrace₂, -⟩ := execute_spec h.execute
  obtain ⟨hdoc₃, htrace₃, -⟩ := save_spec hs₂
  have hmarked : ∀ id ∈ ids, (st.marked r s ids).contains id := hw.contains_withMarks _ _
  have hnodup : calls.Nodup := nodup_of_entities (hids ▸ hw.nodup)
  have hsettles : ∀ c ∈ calls, st₃.document.Settles r.runId c := by
    intro c hc
    rw [hdoc]
    exact Document.settles_withOutcomes (s := s) ⟨rfl, rfl⟩ hmarked
      (hids ▸ List.mem_map_of_mem hc) (hsteps c hc)
  refine ⟨_, ?_, .worked ids.length (st.marked r s ids) st₁.world hnodup hmem tally.results
    hsettles ?_⟩
  · rw [htrace₃, hdoc₃]
    show (st₂.trace ++ _) ++ _ = _
    rw [htrace₂, htrace]
    simp only [List.append_assoc]
  · cases res with
    | ok u => exact Or.inl ⟨rfl, hdoc₃ ▸ accepts_of_save hs₂⟩
    | error h =>
      obtain ⟨e, rfl⟩ := error_of_save hs₂
      exact Or.inr ⟨e, rfl⟩

/-- Where there can be a pool, a step does not halt for want of one. -/
theorem not_overfull (hp : r.permits ≤ Pool.greatestPermits) (hf : st.document.IsFiled)
    {permits : Nat} : st.runStep r s ≠ (.error (.tooManyPermits permits), st') := by
  intro h
  have hs : st.runSteps r [s] = (.error (.tooManyPermits permits), st') := by rw [runSteps, h]
  obtain ⟨l, k, -, -, hstops⟩ := stepsMoment_of_error hf hs
  cases hstops with
  | overfull hover => exact absurd hp (Nat.not_le.mpr hover)

theorem segment_runStep (hp : r.permits ≤ Pool.greatestPermits) (hf : st.document.IsFiled)
    (h : st.runStep r s = (res, st')) :
    ∃ k, st'.trace = st.trace ++ k ∧ Segment r s st.document.Asks res k := by
  rcases runStep_cases_eligible hf h with ⟨hnil, rfl, rfl⟩ | ⟨-, hw, hb⟩
  · refine ⟨[], (List.append_nil _).symm, .idle ?_⟩
    rintro c rfl ⟨e, he, -, hpend, hl⟩
    have hmem := (Document.mem_eligible_select (r.clock st.world) c.step hf).mpr
      ⟨e, he, hpend, hl⟩
    rw [hnil] at hmem
    cases hmem
  · cases hb with
    | unmarked hm hs =>
      obtain ⟨e, rfl⟩ := error_of_save hs
      exact ⟨_, (save_mark hw hm hs).2, .unmarked _ _ e⟩
    | overfull => exact absurd h (not_overfull hp hf)
    | unfolded hm hs hx hfold hs₂ =>
      have hround : Round r s _ (st.choose r s) _ _ _ _ _ _ _ := ⟨hw, hm, hs, hx, hfold⟩
      exact hround.segment (fun c => mem_calls_choose_iff hf hm) hs₂
    | folded hm hs hx hfold hs₂ =>
      have hround : Round r s _ (st.choose r s) _ _ _ _ _ _ _ := ⟨hw, hm, hs, hx, hfold⟩
      obtain ⟨k, hk, hsegment⟩ := hround.segment (fun c => mem_calls_choose_iff hf hm) hs₂
      exact ⟨k, hk, hsegment⟩

/-! ## What these events are like -/

variable {asked : Call → Prop} {k : List RunEvent}

theorem permits_pos (r : RunSetup σ) : 0 < r.permits := Nat.le_max_left 1 _

theorem endings_progress (s : Step) (total current : Nat) (l : List (String × Bool)) :
    RunEvent.endings (progress s total current l) = [] := by
  induction l generalizing current with
  | nil => rfl
  | cons p rest ih =>
    obtain ⟨id, ok⟩ := p
    rw [progress]
    exact ih (current + 1)

theorem calls_outcomes (s : Step) (total : Nat) (results : List (String × Bool)) (d : Document) :
    RunEvent.calls (progress s total 0 results ++ [.saving d]) = [] ∧
      RunEvent.endings (progress s total 0 results ++ [.saving d]) = [] := by
  rw [RunEvent.calls_append, RunEvent.endings_append, calls_progress, endings_progress]
  exact ⟨rfl, rfl⟩

theorem Segment.within (h : Segment r s asked res k) : RunEvent.Within r.permits k := by
  cases h with
  | idle none => exact RunEvent.within_of_calls_eq_nil rfl rfl
  | unmarked total d e => exact RunEvent.within_of_calls_eq_nil rfl rfl
  | worked total d w nodup mem results settles ends =>
    obtain ⟨hcalls, hendings⟩ := calls_outcomes s total results _
    have hstart : RunEvent.Within r.permits [.batchStarted s total, .saving d] :=
      RunEvent.within_of_calls_eq_nil rfl rfl
    refine (hstart.append (.refl _) RunEvent.within_drain).append ?_
      (RunEvent.within_of_calls_eq_nil hcalls hendings)
    exact RunEvent.atWork_append (.refl _) (RunEvent.atWork_drain (permits_pos r))

/-- Every call of a batch begins once and ends once. -/
theorem Segment.perm (h : Segment r s asked res k) :
    RunEvent.calls k = [] ∧ RunEvent.endings k = [] ∧
      ((∀ c, c.step = s → ¬ asked c) ∨ ∃ e, res = .error (.error e)) ∨
    ∃ calls : List Call, (RunEvent.calls k).Perm calls ∧ (RunEvent.endings k).Perm calls ∧
      calls.Nodup ∧ ∀ c, c ∈ calls ↔ c.step = s ∧ asked c := by
  cases h with
  | idle none => exact Or.inl ⟨rfl, rfl, Or.inl none⟩
  | unmarked total d e => exact Or.inl ⟨rfl, rfl, Or.inr ⟨e, rfl⟩⟩
  | @worked _ total d calls w nodup mem results d' settles ends =>
    obtain ⟨hcalls, hendings⟩ := calls_outcomes s total results d'
    obtain ⟨hbegun, hended⟩ :=
      Pool.perm_events_drain (permits_pos r) r.executor r.schedule calls w
    refine Or.inr ⟨calls, ?_, ?_, nodup, mem⟩
    · rw [RunEvent.calls_append, RunEvent.calls_append, hcalls, List.append_nil,
        RunEvent.calls_pool]
      exact hbegun
    · rw [RunEvent.endings_append, RunEvent.endings_append, hendings, List.append_nil,
        RunEvent.endings_pool]
      exact hended

theorem Segment.atWork (h : Segment r s asked res k) : RunEvent.AtWork k [] := by
  rw [RunEvent.AtWork, List.append_nil]
  rcases h.perm with ⟨hcalls, hendings, -⟩ | ⟨calls, hcalls, hendings, -⟩
  · rw [hcalls, hendings]
  · exact hcalls.trans hendings.symm

theorem Segment.asked_of_mem (h : Segment r s asked res k) {c : Call}
    (hc : c ∈ RunEvent.calls k) : c.step = s ∧ asked c := by
  rcases h.perm with ⟨hcalls, -⟩ | ⟨calls, hcalls, -, -, hmem⟩
  · rw [hcalls] at hc
    cases hc
  · exact (hmem c).mp (hcalls.subset hc)

/-- When a batch has gone well, each of its calls is settled. -/
theorem Segment.settled (h : Segment r s asked (.ok ()) k) :
    ∀ c ∈ RunEvent.calls k, r.Settled k c := by
  cases h with
  | idle none => exact nofun
  | @worked _ total d calls w nodup mem results d' settles ends =>
    intro c hc
    obtain ⟨hcalls, hendings⟩ := calls_outcomes s total results d'
    obtain ⟨hbegun, hended⟩ :=
      Pool.perm_events_drain (permits_pos r) r.executor r.schedule calls w
    rw [RunEvent.calls_append, RunEvent.calls_append, hcalls, List.append_nil,
      RunEvent.calls_pool] at hc
    have hmem : c ∈ calls := hbegun.subset hc
    refine ⟨_, d', [], by rw [← List.append_assoc], ?_, ?_, settles c hmem⟩
    · rw [RunEvent.endings_append, RunEvent.endings_append, RunEvent.endings_pool]
      exact List.mem_append_left _ (List.mem_append_right _ (hended.symm.subset hmem))
    · rcases ends with ⟨-, haccepts⟩ | ⟨e, he⟩
      · exact haccepts
      · cases he

/-- No call of a batch begins before those of the earlier steps are settled. -/
theorem Segment.barred (h : Segment r s asked res k) {l : List RunEvent}
    (hl : ∀ c ∈ RunEvent.calls l, c.step < s ∧ r.Settled l c) :
    ∀ before e after, k = before ++ e :: after → r.Barred (l ++ before) e := by
  intro before e after hk
  have hstep : ∀ c ∈ RunEvent.calls (before ++ e :: after), c.step = s :=
    fun c hc => (h.asked_of_mem (hk ▸ hc)).1
  rw [RunEvent.calls_append] at hstep
  match e with
  | .batchStarted _ _ | .saving _ | .entityFinished _ _ _ _ _ | .done _ | .pool (.ended _) =>
    trivial
  | .pool (.began c n) =>
    obtain rfl : c.step = s := hstep c (List.mem_append_right _ List.mem_cons_self)
    intro c' hc'
    rw [RunEvent.calls_append] at hc'
    rcases List.mem_append.mp hc' with hearlier | hsame
    · obtain ⟨hlt, hsettled⟩ := hl c' hearlier
      exact ⟨Step.le_iff_eq_or_lt.mpr (Or.inr hlt), fun _ => hsettled.append before⟩
    · have heq := hstep c' (List.mem_append_left _ hsame)
      exact ⟨Step.le_iff_eq_or_lt.mpr (Or.inl heq), fun hlt => absurd heq (Step.ne_of_lt hlt)⟩

/-! ## The steps of a run -/

/-- What holds of the events of a run at any time. -/
structure IsPaced (r : RunSetup σ) (st : RunState σ) : Prop where
  within : RunEvent.Within r.permits st.trace
  atWork : RunEvent.AtWork st.trace []
  barred : RunEvent.AtEach r.Barred st.trace

theorem isPaced_runStep (hp : r.permits ≤ Pool.greatestPermits) (hf : st.document.IsFiled)
    (h : st.IsPaced r) (hc : ∀ c ∈ RunEvent.calls st.trace, c.step < s ∧ r.Settled st.trace c)
    (hs : st.runStep r s = (res, st')) : st'.IsPaced r ∧
      (res = .ok () → ∀ c ∈ RunEvent.calls st'.trace, c.step ≤ s ∧ r.Settled st'.trace c) := by
  obtain ⟨k, hk, hsegment⟩ := segment_runStep hp hf hs
  refine ⟨⟨?_, ?_, ?_⟩, ?_⟩
  · exact hk ▸ h.within.append h.atWork hsegment.within
  · exact hk ▸ RunEvent.atWork_append h.atWork hsegment.atWork
  · exact hk ▸ RunEvent.atEach_append h.barred (hsegment.barred hc)
  · rintro rfl c hmem
    rw [hk, RunEvent.calls_append] at hmem
    rw [hk, Step.le_iff_eq_or_lt]
    rcases List.mem_append.mp hmem with hearlier | hnow
    · exact ⟨Or.inr (hc c hearlier).1, (hc c hearlier).2.append k⟩
    · obtain ⟨seen, d', rest, heq, hended, hsettles⟩ := hsegment.settled c hnow
      refine ⟨Or.inl (hsegment.asked_of_mem hnow).1, st.trace ++ seen, d', rest, ?_, ?_, hsettles⟩
      · rw [heq, List.append_assoc]
      · exact RunEvent.endings_append _ _ ▸ List.mem_append_right _ hended

/-- The steps come in their order, so a batch finds the calls of the earlier ones settled. -/
theorem isPaced_runSteps (hp : r.permits ≤ Pool.greatestPermits) {steps : List Step}
    (hsteps : steps.Pairwise (· < ·)) (hf : st.document.IsFiled) (h : st.IsPaced r)
    (hc : ∀ c ∈ RunEvent.calls st.trace, (∀ s ∈ steps, c.step < s) ∧ r.Settled st.trace c)
    (hs : st.runSteps r steps = (res, st')) : st'.IsPaced r := by
  induction steps generalizing st with
  | nil =>
    obtain ⟨-, rfl⟩ := Prod.mk.inj hs
    exact h
  | cons s rest ih =>
    obtain ⟨hfirst, hrest⟩ := List.pairwise_cons.mp hsteps
    rcases hstep : st.runStep r s with ⟨res₁, st₁⟩
    obtain ⟨hpaced, hsettled⟩ := isPaced_runStep hp hf h
      (fun c hmem => ⟨(hc c hmem).1 s List.mem_cons_self, (hc c hmem).2⟩) hstep
    rw [runSteps, hstep] at hs
    cases res₁ with
    | ok =>
      refine ih hrest (isFiled_of_runStep hf hstep) hpaced (fun c hmem => ?_) hs
      obtain ⟨hle, hsettle⟩ := hsettled rfl c hmem
      exact ⟨fun s' hs' => Nat.lt_of_le_of_lt hle (hfirst s' hs'), hsettle⟩
    | error halt =>
      obtain ⟨-, rfl⟩ := Prod.mk.inj hs
      exact hpaced

/-- The steps of a run add calls at these steps only. -/
theorem calls_runSteps (hp : r.permits ≤ Pool.greatestPermits) {steps : List Step}
    (hf : st.document.IsFiled) (hs : st.runSteps r steps = (res, st')) :
    ∃ k, st'.trace = st.trace ++ k ∧ RunEvent.AtWork k [] ∧
      ∀ c ∈ RunEvent.calls k, c.step ∈ steps := by
  induction steps generalizing st with
  | nil =>
    obtain ⟨-, rfl⟩ := Prod.mk.inj hs
    exact ⟨[], (List.append_nil _).symm, .refl _, fun _ hc => absurd hc List.not_mem_nil⟩
  | cons s rest ih =>
    rcases hstep : st.runStep r s with ⟨res₁, st₁⟩
    obtain ⟨k, hk, hsegment⟩ := segment_runStep hp hf hstep
    have hcalls : ∀ c ∈ RunEvent.calls k, c.step ∈ s :: rest :=
      fun c hc => (hsegment.asked_of_mem hc).1 ▸ List.mem_cons_self
    rw [runSteps, hstep] at hs
    cases res₁ with
    | ok =>
      obtain ⟨k', hk', hwork, hcalls'⟩ := ih (isFiled_of_runStep hf hstep) hs
      refine ⟨k ++ k', ?_, RunEvent.atWork_append hsegment.atWork hwork, fun c hc => ?_⟩
      · rw [hk', hk, List.append_assoc]
      · rw [RunEvent.calls_append] at hc
        rcases List.mem_append.mp hc with hc | hc
        · exact hcalls c hc
        · exact List.mem_cons_of_mem _ (hcalls' c hc)
    | error halt =>
      obtain ⟨-, rfl⟩ := Prod.mk.inj hs
      exact ⟨k, hk, hsegment.atWork, hcalls⟩

theorem runSteps_append (r : RunSetup σ) (l k : List Step) (st : RunState σ) :
    st.runSteps r (l ++ k) =
      match st.runSteps r l with
      | (.ok (), st') => st'.runSteps r k
      | (.error h, st') => (.error h, st') := by
  induction l generalizing st with
  | nil => rfl
  | cons s rest ih =>
    rw [List.cons_append, runSteps, runSteps]
    rcases st.runStep r s with ⟨_ | ⟨⟩, st₁⟩
    · rfl
    · exact ih st₁

/-- After its steps a run calls no more. -/
theorem Ends.append {events : List RunEvent} (h : st.Ends events) (r : RunSetup σ) :
    ∃ k, events = st.trace ++ k ∧ RunEvent.calls k = [] ∧ RunEvent.endings k = [] ∧
      ∀ before, ∀ e ∈ k, r.Barred before e := by
  cases h with
  | halted => exact ⟨[], (List.append_nil _).symm, rfl, rfl, fun _ => nofun⟩
  | closing => exact ⟨_, rfl, rfl, rfl, fun before => by simp [RunSetup.Barred]⟩
  | done summary => exact ⟨_, rfl, rfl, rfl, fun before => by simp [RunSetup.Barred]⟩
  | closed summary =>
    exact ⟨_, List.append_assoc .., rfl, rfl, fun before => by simp [RunSetup.Barred]⟩

end RunState

namespace RunSetup

variable {σ : Type} {r : RunSetup σ} {m : Emitter σ} {w : σ} {d : Document}

/-- Whether `st` is where a run that loaded `d` begins with the step `s`. -/
def Reaches (r : RunSetup σ) (m : Emitter σ) (w : σ) (d : Document) (s : Step)
    (st : RunState σ) : Prop :=
  (RunState.opening r d m w).runSteps r s.predecessors = (.ok (), st)

/-- At any time of a run there are no more calls at work than permits, when the run is over none
is, and no call of a step begins before those of the earlier steps are settled. -/
theorem isPaced_run (hl : r.store.load (r.clock w) w = .ok d) (hf : d.IsFiled)
    (hp : r.permits ≤ Pool.greatestPermits) :
    RunEvent.Within r.permits (r.run m w).trace ∧ RunEvent.AtWork (r.run m w).trace [] ∧
      RunEvent.AtEach r.Barred (r.run m w).trace := by
  obtain ⟨res, st, hs, hends, -⟩ := exists_runSteps m hl
  have hopening : (RunState.opening r d m w).IsPaced r :=
    ⟨RunEvent.within_of_calls_eq_nil rfl rfl, .refl _, RunEvent.atEach_nil _⟩
  have hpaced := RunState.isPaced_runSteps hp (by decide : Step.all.Pairwise (· < ·))
    (RunState.isFiled_opening hf r m w) hopening nofun hs
  obtain ⟨k, hk, hcalls, hendings, hbarred⟩ := hends.append r
  rw [hk]
  refine ⟨hpaced.within.append hpaced.atWork (RunEvent.within_of_calls_eq_nil hcalls hendings),
    RunEvent.atWork_append hpaced.atWork ?_, RunEvent.atEach_append_of_forall hpaced.barred hbarred⟩
  rw [RunEvent.AtWork, hcalls, hendings, List.append_nil]

/-- The calls of a run, seen from where it begins with a step. -/
theorem exists_segment {s : Step} {st : RunState σ} (hl : r.store.load (r.clock w) w = .ok d)
    (hf : d.IsFiled) (hp : r.permits ≤ Pool.greatestPermits) (hr : r.Reaches m w d s st) :
    ∃ earlier res k later, RunEvent.calls (r.run m w).trace = earlier ++ RunEvent.calls k ++ later ∧
      RunState.Segment r s st.document.Asks res k ∧ (∀ c ∈ earlier, c.step < s) ∧
      (∀ c ∈ later, s < c.step) ∧ ∀ h, res = .error h → (r.run m w).result = .error h := by
  obtain ⟨res, st₂, hs, hends, herror⟩ := exists_runSteps m hl
  have hopening := RunState.isFiled_opening hf r m w
  have hfst := RunState.isFiled_of_runSteps hopening hr
  obtain ⟨k₀, hk₀, -, hearlier⟩ := RunState.calls_runSteps hp hopening hr
  rw [← Step.predecessors_append_onward s, RunState.runSteps_append, hr, Step.onward_eq_next] at hs
  dsimp only at hs
  rcases hstep : st.runStep r s with ⟨res₁, st₁⟩
  obtain ⟨k, hk, hsegment⟩ := RunState.segment_runStep hp hfst hstep
  rw [RunState.runSteps, hstep] at hs
  have hbefore : ∀ c ∈ RunEvent.calls st.trace, c.step < s := by
    rw [hk₀]
    exact fun c hc => Step.mem_predecessors.mp (hearlier c hc)
  rw [hends.calls]
  cases res₁ with
  | ok =>
    obtain ⟨k', hk', -, hlater⟩ :=
      RunState.calls_runSteps hp (RunState.isFiled_of_runStep hfst hstep) hs
    refine ⟨_, _, k, RunEvent.calls k', ?_, hsegment, hbefore,
      fun c hc => Step.lt_of_mem_next (hlater c hc), fun _ he => by cases he⟩
    rw [hk', hk, RunEvent.calls_append, RunEvent.calls_append]
  | error h =>
    obtain ⟨rfl, rfl⟩ := Prod.mk.inj hs
    refine ⟨_, _, k, [], ?_, hsegment, hbefore, fun _ hc => absurd hc List.not_mem_nil, herror⟩
    rw [hk, RunEvent.calls_append, List.append_nil]

/-- Each call that a step of a run asks for begins once and ends once, unless the marks of the
step could not be saved. -/
theorem calls_of_reaches {s : Step} {st : RunState σ} (hl : r.store.load (r.clock w) w = .ok d)
    (hf : d.IsFiled) (hp : r.permits ≤ Pool.greatestPermits) (hr : r.Reaches m w d s st) :
    (∀ c, c.step = s → st.document.Asks c → (RunEvent.calls (r.run m w).trace).count c = 1 ∧
      (RunEvent.endings (r.run m w).trace).count c = 1) ∨
    (∀ c ∈ RunEvent.calls (r.run m w).trace, c.step ≠ s) ∧
      ∃ e, (r.run m w).result = .error (.error e) := by
  obtain ⟨earlier, res, k, later, hcalls, hsegment, hearlier, hlater, herror⟩ :=
    exists_segment hl hf hp hr
  rcases hsegment.perm with ⟨hk, -, hnone | ⟨e, he⟩⟩ | ⟨calls, hk, -, hnodup, hmem⟩
  · exact Or.inl fun c hs hasks => absurd hasks (hnone c hs)
  · refine Or.inr ⟨fun c hc => ?_, e, herror _ he⟩
    rw [hcalls, hk, List.append_nil] at hc
    rcases List.mem_append.mp hc with hc | hc
    · exact Step.ne_of_lt (hearlier c hc)
    · exact (Step.ne_of_lt (hlater c hc)).symm
  · refine Or.inl fun c hs hasks => ?_
    have hcount : (RunEvent.calls (r.run m w).trace).count c = 1 := by
      have hbefore : c ∉ earlier := fun hc => Step.ne_of_lt (hearlier c hc) hs
      have hafter : c ∉ later := fun hc => Step.ne_of_lt (hlater c hc) hs.symm
      rw [hcalls, List.count_append, List.count_append, List.count_eq_zero_of_not_mem hbefore,
        List.count_eq_zero_of_not_mem hafter, hk.count_eq,
        List.count_eq_one_of_mem hnodup ((hmem c).mpr ⟨hs, hasks⟩)]
    have hwork := (isPaced_run (m := m) hl hf hp).2.1
    rw [RunEvent.AtWork, List.append_nil] at hwork
    exact ⟨hcount, hwork.count_eq c ▸ hcount⟩

/-- A run calls only for what the step asks for. -/
theorem reaches_of_mem_calls (hl : r.store.load (r.clock w) w = .ok d) (hf : d.IsFiled)
    (hp : r.permits ≤ Pool.greatestPermits) {c : Call}
    (hc : c ∈ RunEvent.calls (r.run m w).trace) :
    ∃ st, r.Reaches m w d c.step st ∧ st.document.Asks c := by
  rcases hs : (RunState.opening r d m w).runSteps r c.step.predecessors with ⟨_ | ⟨⟩, st⟩
  · -- a run that halts before the step does not call at it
    obtain ⟨k, hk, -, hcalls⟩ :=
      RunState.calls_runSteps hp (RunState.isFiled_opening hf r m w) hs
    obtain ⟨res, st', hs', hends, -⟩ := exists_runSteps m hl
    rw [← Step.predecessors_append_onward c.step, RunState.runSteps_append, hs] at hs'
    obtain ⟨-, rfl⟩ := Prod.mk.inj hs'
    rw [hends.calls, hk] at hc
    exact absurd (Step.mem_predecessors.mp (hcalls c hc)) (Step.lt_irrefl _)
  · refine ⟨st, hs, ?_⟩
    obtain ⟨earlier, res, k, later, hcalls, hsegment, hearlier, hlater, -⟩ :=
      exists_segment hl hf hp hs
    rw [hcalls] at hc
    rcases List.mem_append.mp hc with hc | hc
    · rcases List.mem_append.mp hc with hc | hc
      · exact absurd (hearlier c hc) (Step.lt_irrefl _)
      · exact (hsegment.asked_of_mem hc).2
    · exact absurd (hlater c hc) (Step.lt_irrefl _)

end RunSetup
end Publishing
