import Publishing.Proofs.Barriers
import Publishing.Proofs.FreshStarts
import Publishing.Proofs.Sweeps

/-
What one step of a run does, in full.

A step goes through the entities three times: it selects those that wait, marks those with
attempts left, and enters how their calls have ended.  `Leg` says what comes of it, given the
calls in the order of the ids, each with its ending: what becomes of each entity, who is set back,
which batch is entered and reported, and what the progress shows.
-/

namespace Publishing

/-! ## Who is set back -/

namespace Document

variable {d : Document} {now : Timestamp} {s : Step} {ids : List String}

/-- Those that wait at `s` without attempts left, as they are reported. -/
def spent (s : Step) (d : Document) : List Setback :=
  d.all.filterMap fun e =>
    if e.isPendingAt s && !(e.step s).hasAttemptsLeft then
      some ⟨e.id, s, (e.step s).attempts, "attempts exhausted"⟩
    else none

/-- The failure of a call, with the attempts that are entered for it. -/
def setback? (d : Document) (p : Call × Ending) : Option Setback :=
  match p.2.outcome with
  | .succeeded _ => none
  | .failed message =>
    some ⟨p.1.entity, p.1.step, d.attempts p.1.entity p.1.step, message⟩

theorem setbacks_selectEach (hn : ids.Nodup) (d : Document) :
    (selectEach now s ids d).setbacks = ids.filterMap fun id => (d.find? id).bind fun e =>
      if (e.step s).hasAttemptsLeft then none
      else some ⟨id, s, (e.step s).attempts, "attempts exhausted"⟩ := by
  induction ids generalizing d with
  | nil => rfl
  | cons id rest ih =>
    obtain ⟨hid, hrest⟩ := List.nodup_cons.mp hn
    rw [selectEach, List.filterMap_cons]
    cases he : d.find? id with
    | none => exact ih hrest d
    | some e =>
      rw [Option.bind_some]
      dsimp only
      split
      · exact ih hrest d
      · dsimp only
        rw [ih hrest]
        refine congrArg (_ :: ·) (List.filterMap_congr fun id' hid' => ?_)
        rw [find?_replace_of_not_mem hid hid']

theorem setbacks_select (now : Timestamp) (s : Step) (hf : d.IsFiled) :
    (d.select now s).setbacks = d.spent s := by
  rw [select, setbacks_selectEach (nodup_pendingAt hf s), pendingAt, List.filterMap_map,
    List.filterMap_filter, spent]
  refine List.filterMap_congr fun e hmem => ?_
  obtain ⟨id, he⟩ := mem_all.mp hmem
  obtain rfl := hf id e he
  rw [Function.comp_apply, he, Option.bind_some]
  cases e.isPendingAt s <;> cases (e.step s).hasAttemptsLeft <;> rfl

/-- Each failure is reported with the attempts that its entity has then. -/
theorem setbacks_foldEach {ending : String → Ending} {calls : List Call}
    (hn : (calls.map (·.entity)).Nodup) (hs : ∀ c ∈ calls, c.step = s) {tally : Tally}
    (h : d.foldEach now s ending (calls.map (·.entity)) = .ok tally) :
    tally.setbacks = (calls.map fun c => (c, ending c.entity)).filterMap d.setback? := by
  induction calls generalizing d tally with
  | nil =>
    obtain rfl := Except.ok.inj h
    rfl
  | cons c rest ih =>
    obtain ⟨hc, hrest⟩ := List.nodup_cons.mp hn
    obtain ⟨e, he, h⟩ := bind_eq_ok.mp h
    obtain ⟨more, hmore, h⟩ := bind_eq_ok.mp h
    have htail : more.setbacks = (rest.map fun c => (c, ending c.entity)).filterMap d.setback? := by
      rw [ih hrest (fun c' hc' => hs c' (List.mem_cons_of_mem _ hc')) hmore]
      refine List.filterMap_congr fun p hp => ?_
      rw [setback?, setback?, attempts_replace (get_eq_ok.mp he)]
      exact fun s' => Entity.attempts_fold _ _ _ _ e s'
    have hhead : d.attempts c.entity c.step = (e.step s).attempts := by
      rw [attempts_of_find? (get_eq_ok.mp he), hs c List.mem_cons_self]
    obtain rfl := Except.ok.inj h
    rw [List.map_cons, List.filterMap_cons, setback?, hhead, hs c List.mem_cons_self]
    cases (ending c.entity).outcome with
    | succeeded _ => exact htail
    | failed message => exact congrArg (_ :: ·) htail

end Document

/-! ## What is reported -/

/-- Whether a batch is entered for these calls. -/
structure Batch.Counts (b : Batch) (runId : RunId) (s : Step) (ended : List (Call × Ending)) :
    Prop where
  step : b.step = s
  runId : b.runId = some runId
  processed : b.processed = ended.length
  succeeded : b.succeeded = ended.countP fun p => p.2.outcome.isSuccess
  failed : b.failed = ended.countP fun p => !p.2.outcome.isSuccess

/-- The progress reports for a batch of these calls: its start, and then each call by its place. -/
def Batch.reports (b : Batch) (ended : List (Call × Ending)) : List RunEvent :=
  .batchStarted b.step b.processed :: ended.mapIdx fun i p =>
    .entityFinished p.1.entity b.step p.2.outcome.isSuccess (i + 1) b.processed

namespace RunEvent

/-- Whether an event is one that the progress shows. -/
def isReport : RunEvent → Bool
  | batchStarted _ _ | entityFinished _ _ _ _ _ | done _ => true
  | pool _ | saving _ => false

def reports (l : List RunEvent) : List RunEvent := l.filter (·.isReport)

@[simp] theorem reports_append (l k : List RunEvent) : reports (l ++ k) = reports l ++ reports k :=
  List.filter_append ..

@[simp] theorem reports_pool (l : List PoolEvent) : reports (l.map .pool) = [] := by
  simp [reports, isReport]

end RunEvent

namespace RunState

variable {σ : Type} {r : RunSetup σ} {s : Step} {ids : List String} {st st' : RunState σ}

theorem progress_eq (s : Step) (total current : Nat) (ended : List (Call × Ending)) :
    progress s total current (ended.map fun p => (p.1.entity, p.2.outcome.isSuccess)) =
      ended.mapIdx fun i p =>
        .entityFinished p.1.entity s p.2.outcome.isSuccess (current + i + 1) total := by
  induction ended generalizing current with
  | nil => rfl
  | cons p rest ih =>
    rw [List.map_cons, progress, ih, List.mapIdx_cons]
    refine congrArg (_ :: ·) (List.mapIdx_eq_mapIdx_iff.mpr fun i _ => ?_)
    rw [Nat.add_right_comm current, Nat.add_assoc current]

theorem reports_progress (s : Step) (total : Nat) (ended : List (Call × Ending)) :
    RunEvent.reports (progress s total 0
        (ended.map fun p => (p.1.entity, p.2.outcome.isSuccess))) =
      ended.mapIdx fun i p =>
        .entityFinished p.1.entity s p.2.outcome.isSuccess (i + 1) total := by
  rw [progress_eq, RunEvent.reports, List.filter_eq_self.mpr ?_]
  · simp only [Nat.zero_add]
  · intro e he
    obtain ⟨i, -, rfl⟩ := List.mem_mapIdx.mp he
    rfl

end RunState

/-! ## One step -/

/-- What a step makes of an entity when its calls end like this: it is executed if it waits with
attempts left, blocked if it waits without, and passed over if it does not wait. -/
inductive Entity.GoesOn (runId : RunId) (s : Step) (ended : List (Call × Ending)) (e : Entity) :
    Entity → Prop
  | executed (u : Turn) (x : Ending) (waits : e.isPendingAt s) (left : (e.step s).hasAttemptsLeft)
      (call : (⟨e.id, e.metadata, s⟩, x) ∈ ended) :
      GoesOn runId s ended e (e.attempt x.outcome runId u s)
  | blocked (now : Timestamp) (waits : e.isPendingAt s)
      (spent : (e.step s).hasAttemptsLeft = false) : GoesOn runId s ended e (e.exhaust now s).1
  | passed (rests : ¬ e.isPendingAt s) : GoesOn runId s ended e e

namespace RunState

variable {σ : Type} {r : RunSetup σ} {s : Step} {ids : List String} {st st' : RunState σ}
  {ended : List (Call × Ending)}

/-- What a step of a run that goes well does when its calls, in the order of the ids, end like
this. -/
structure Leg (r : RunSetup σ) (s : Step) (ended : List (Call × Ending)) (st st' : RunState σ) :
    Prop where
  ordered : (ended.map (·.1.entity)).Pairwise (· < ·)
  asked : ∀ c, c ∈ ended.map (·.1) ↔ c.step = s ∧ st.document.Asks c
  given : ∀ p ∈ ended, ∃ w, (r.executor p.1 w).1 = p.2
  entities : st.document.Related (Entity.GoesOn r.runId s ended) st'.document
  failures : st'.failures =
    st.failures ++ (st.document.spent s ++ ended.filterMap st'.document.setback?)
  batch : ∃ (entered : List Batch) (events : List RunEvent),
    (ended = [] ∧ entered = [] ∨ ended ≠ [] ∧ ∃ b, entered = [b] ∧ b.Counts r.runId s ended) ∧
    st'.batches = st.batches ++ entered ∧
    st'.document.global.stepHistory = st.document.global.stepHistory ++ entered ∧
    st'.trace = st.trace ++ events ∧ (RunEvent.calls events).Perm (ended.map (·.1)) ∧
    RunEvent.reports events = entered.flatMap (·.reports ended)

theorem account_save {res : Except Halt Unit} (h : st.save r = (res, st')) :
    st'.batches = st.batches ∧ st'.failures = st.failures := by
  rcases save_fst_cases r st with ⟨w, -, hs⟩ | ⟨e, w, -, hs⟩ <;>
  · rw [hs] at h
    obtain ⟨-, rfl⟩ := Prod.mk.inj h
    exact ⟨rfl, rfl⟩

theorem account_execute {calls : List Call} {ending : String → Ending}
    (h : st.execute r calls = (ending, st')) :
    st'.batches = st.batches ∧ st'.failures = st.failures := by
  obtain ⟨-, rfl⟩ := Prod.mk.inj h
  exact ⟨rfl, rfl⟩

/-- Whom a step does not execute it blocks or passes over. -/
theorem goesOn_of_not_eligible (hf : st.document.IsFiled) (h : st.runStep r s = (.ok (), st'))
    {id : String} {e : Entity} (he : st.document.find? id = some e)
    (hn : ¬ (e.isPendingAt s ∧ (e.step s).hasAttemptsLeft)) :
    ∃ e', st'.document.find? id = some e' ∧ e.GoesOn r.runId s ended e' := by
  have hid : id ∉ (st.document.select (r.clock st.world) s).eligible := by
    intro hid
    obtain ⟨e', he', hwaits⟩ := (Document.mem_eligible_select _ s hf).mp hid
    obtain rfl := Option.some.inj (he.symm.trans he')
    exact hn hwaits
  have hpending : id ∈ st.document.pendingAt s ↔ e.isPendingAt s := by
    rw [Document.mem_pendingAt hf]
    simp only [he, Option.some.injEq, exists_eq_left']
  rw [find?_runStep_of_not_eligible hf h hid, find?_choose r s hf, he, Option.map_some,
    Document.selected]
  by_cases hp : e.isPendingAt s
  · have hl : (e.step s).hasAttemptsLeft = false := Bool.eq_false_iff.mpr fun hl => hn ⟨hp, hl⟩
    exact ⟨_, by rw [if_pos ⟨hpending.mpr hp, hl⟩], .blocked _ hp hl⟩
  · exact ⟨_, by rw [if_neg fun h => hp (hpending.mp h.1)], .passed hp⟩

theorem related_goesOn (hf : st.document.IsFiled) (h : st.runStep r s = (.ok (), st'))
    (hexecuted : ∀ id e, st.document.find? id = some e → e.isPendingAt s →
      (e.step s).hasAttemptsLeft →
      ∃ e', st'.document.find? id = some e' ∧ e.GoesOn r.runId s ended e') :
    st.document.Related (Entity.GoesOn r.runId s ended) st'.document := by
  intro id
  cases he : st.document.find? id with
  | none =>
    rw [find?_runStep_eq_none hf h he]
    exact .none
  | some e =>
    obtain ⟨e', he', hgoes⟩ : ∃ e', st'.document.find? id = some e' ∧
        e.GoesOn r.runId s ended e' := by
      by_cases hwaits : e.isPendingAt s ∧ (e.step s).hasAttemptsLeft
      · exact hexecuted id e he hwaits.1 hwaits.2
      · exact goesOn_of_not_eligible hf h he hwaits
    rw [he']
    exact .some hgoes

theorem pairwise_eligible (now : Timestamp) (s : Step) {d : Document} (hf : d.IsFiled) :
    (d.select now s).eligible.Pairwise (· < ·) := by
  rw [Document.select, Document.eligible_selectEach now s (Document.nodup_pendingAt hf s)]
  exact (Document.pairwise_filter_ids hf _).sublist List.filter_sublist

theorem stepHistory_choose (r : RunSetup σ) (s : Step) (hf : st.document.IsFiled) :
    (st.choose r s).document.global.stepHistory = st.document.global.stepHistory := by
  show (st.document.select (r.clock st.world) s).document.global.stepHistory = _
  rw [Document.document_select _ s hf]
  rfl

/-- A step without calls. -/
theorem leg_of_idle (hf : st.document.IsFiled) (h : st.runStep r s = (.ok (), st.choose r s))
    (hnil : (st.document.select (r.clock st.world) s).eligible = []) :
    Leg r s [] st (st.choose r s) := by
  have hnone : ∀ id e, st.document.find? id = some e → e.isPendingAt s →
      ¬ (e.step s).hasAttemptsLeft := by
    intro id e he hp hl
    have hid := (Document.mem_eligible_select (r.clock st.world) s hf).mpr ⟨e, he, hp, hl⟩
    rw [hnil] at hid
    cases hid
  constructor
  case ordered => exact .nil
  case asked =>
    refine fun c => iff_of_false List.not_mem_nil ?_
    rintro ⟨rfl, e, he, -, hp, hl⟩
    exact hnone _ e he hp hl
  case given => exact nofun
  case entities =>
    exact related_goesOn hf h fun id e he hp hl => absurd hl (hnone id e he hp)
  case failures =>
    show st.failures ++ (st.document.select (r.clock st.world) s).setbacks = _
    rw [Document.setbacks_select _ s hf, List.filterMap_nil, List.append_nil]
  case batch =>
    exact ⟨[], [], Or.inl ⟨rfl, rfl⟩, (List.append_nil _).symm,
      (stepHistory_choose r s hf).trans (List.append_nil _).symm, (List.append_nil _).symm, .nil,
      rfl⟩

/-- What a batch that goes well leaves behind, for its calls and their endings. -/
structure Batched (r : RunSetup σ) (s : Step) (ids : List String) (calls : List Call)
    (ending : String → Ending) (st st' : RunState σ) : Prop where
  entities : calls.map (·.entity) = ids
  given : ∀ c ∈ calls, ∃ w, (r.executor c w).1 = ending c.entity
  failures : st'.failures =
    st.failures ++ (calls.map fun c => (c, ending c.entity)).filterMap st'.document.setback?
  batch : ∃ (finish : Timestamp) (b : Batch) (events : List RunEvent),
    st'.document = (st.marked r s ids).withOutcomes finish s ending ids b ∧
    st'.batches = st.batches ++ [b] ∧ b.Counts r.runId s (calls.map fun c => (c, ending c.entity)) ∧
    st'.trace = st.trace ++ events ∧ (RunEvent.calls events).Perm calls ∧
    RunEvent.reports events = b.reports (calls.map fun c => (c, ending c.entity))

/-- The batch that is entered counts the calls by how they have ended. -/
theorem counts_batch {tally : Document.Tally} (start : Timestamp) (st : RunState σ)
    (hlength : ids.length = ended.length)
    (hresults : tally.results = ended.map fun p => (p.1.entity, p.2.outcome.isSuccess)) :
    (st.batch r s start ids tally).Counts r.runId s ended := by
  have hcount : ∀ f : Bool → Bool, tally.results.countP (fun p => f p.2) =
      ended.countP fun p => f p.2.outcome.isSuccess := by
    intro f
    rw [hresults, List.countP_map]
    rfl
  exact ⟨rfl, rfl, hlength, hcount id, hcount not⟩

/-- The events of a batch that goes well: `d` is saved before its calls, which begin in the world
`w`, and `d'` after them. -/
def batchEvents (r : RunSetup σ) (s : Step) (total : Nat) (calls : List Call)
    (results : List (String × Bool)) (d : Document) (w : σ) (d' : Document) : List RunEvent :=
  [.batchStarted s total, .saving d] ++
    ((Pool.ofCalls calls w).drain r.permits r.executor r.schedule).2.map .pool ++
    (progress s total 0 results ++ [.saving d'])

theorem calls_batchEvents (total : Nat) (calls : List Call) (results : List (String × Bool))
    (d : Document) (w : σ) (d' : Document) :
    (RunEvent.calls (batchEvents r s total calls results d w d')).Perm calls := by
  have hstart : RunEvent.calls [.batchStarted s total, .saving d] = [] := rfl
  rw [batchEvents, RunEvent.calls_append, RunEvent.calls_append,
    (calls_outcomes s total results d').1, List.append_nil, RunEvent.calls_pool, hstart,
    List.nil_append]
  exact (Pool.perm_events_drain (permits_pos r) r.executor r.schedule calls w).1

theorem reports_batchEvents {b : Batch} (hb : b.Counts r.runId s ended) (calls : List Call)
    (d : Document) (w : σ) (d' : Document) :
    RunEvent.reports (batchEvents r s ended.length calls
      (ended.map fun p => (p.1.entity, p.2.outcome.isSuccess)) d w d') = b.reports ended := by
  have hstart : RunEvent.reports [.batchStarted s ended.length, .saving d] =
      [.batchStarted s ended.length] := rfl
  have hquiet : RunEvent.reports [.saving d'] = [] := rfl
  rw [batchEvents, RunEvent.reports_append, RunEvent.reports_append, RunEvent.reports_pool,
    RunEvent.reports_append, reports_progress, hquiet, hstart, List.append_nil, List.append_nil,
    Batch.reports, hb.step, hb.processed]
  rfl

/-- A batch that goes well says of each call how it has ended. -/
theorem batched_of_batchRun (hw : st.document.Awaits s ids)
    (hb : BatchRun r s ids st (.ok ()) st') :
    ∃ d records calls ending,
      st.document.markEach (r.clock st.world) r.runId s ids = .ok (d, records, calls) ∧
      Batched r s ids calls ending st st' := by
  cases hb with
  | @folded d records calls st₁ ending st₂ tally st₃ hm hs hx hfold hs₂ =>
    refine ⟨d, records, calls, ending, hm, ?_⟩
    obtain ⟨-, hids, hsteps⟩ := Document.markEach_eq_ok hw.nodup hw.contains hm
    have hround : Round r s ids st d records calls st₁ ending st₂ tally :=
      ⟨hw, hm, hs, hx, hfold⟩
    have hdoc := hround.document_save hs₂
    obtain ⟨-, htrace₁⟩ := save_mark hw hm hs
    obtain ⟨-, -, htrace₂, -⟩ := execute_spec hx
    obtain ⟨hdocument₃, htrace₃, -⟩ := save_spec hs₂
    obtain ⟨hbatches₁, hfailures₁⟩ := account_save hs
    obtain ⟨hbatches₃, hfailures₃⟩ := account_save hs₂
    obtain ⟨hbatches₂, hfailures₂⟩ := account_execute hx
    let ended := calls.map fun c => (c, ending c.entity)
    let b := st₂.batch r s (r.clock st.world) ids tally
    have hlength : ids.length = ended.length := by
      rw [← hids, List.length_map, List.length_map]
    have hresults : tally.results = ended.map fun p => (p.1.entity, p.2.outcome.isSuccess) := by
      rw [(hround.foldEach b).2, ← hids, List.map_map, List.map_map]
      rfl
    have hcounts : b.Counts r.runId s ended := counts_batch _ st₂ hlength hresults
    constructor
    case entities => exact hids
    case given =>
      intro c hc
      obtain ⟨hstep, hid, e, he, hmeta⟩ := (mem_calls_iff hw hm).mp hc
      obtain ⟨w, hgiven⟩ := gives_execute (P := fun c x => ∃ w, (r.executor c w).1 = x)
        (fun c w => ⟨w, rfl⟩) hw.nodup hw.contains hm hx c.entity hid e he
      rw [hmeta, ← hstep] at hgiven
      exact ⟨w, hgiven⟩
    case failures =>
      -- The outcomes leave the attempts as they were.
      have hattempts : st₃.document.setback? = st₂.document.setback? := by
        funext p
        rw [Document.setback?, Document.setback?, hdoc, (Document.attempts_withOutcomes ..).1,
          hround.document_execute]
      have hnodup : (calls.map (·.entity)).Nodup := hids ▸ hw.nodup
      show st₃.failures = st.failures ++ ended.filterMap st₃.document.setback?
      rw [hattempts, ← Document.setbacks_foldEach hnodup hsteps (hids ▸ hfold), hfailures₃]
      show st₂.failures ++ tally.setbacks = _
      rw [hfailures₂, hfailures₁]
      rfl
    case batch =>
      refine ⟨_, b, batchEvents r s ids.length calls tally.results (st.marked r s ids) st₁.world
        st₃.document, hdoc, ?_, hcounts, ?_, calls_batchEvents .., ?_⟩
      · show st₃.batches ++ _ = _
        rw [hbatches₃]
        show st₂.batches ++ _ = _
        rw [hbatches₂, hbatches₁]
        rfl
      · show st₃.trace = _
        rw [htrace₃, hdocument₃]
        show (st₂.trace ++ _) ++ _ = _
        rw [htrace₂, htrace₁, batchEvents]
        simp only [List.append_assoc]
      · rw [hresults, hlength]
        exact reports_batchEvents hcounts ..

/-- A step with a batch. -/
theorem leg_of_batch (hf : st.document.IsFiled) (h : st.runStep r s = (.ok (), st'))
    (hw : (st.choose r s).document.Awaits s
      (st.document.select (r.clock st.world) s).eligible)
    (hne : (st.document.select (r.clock st.world) s).eligible ≠ [])
    (hb : BatchRun r s (st.document.select (r.clock st.world) s).eligible (st.choose r s) (.ok ())
      st') :
    ∃ ended, Leg r s ended st st' := by
  obtain ⟨d, records, calls, ending, hm, hbatched⟩ := batched_of_batchRun hw hb
  let ended := calls.map fun c => (c, ending c.entity)
  have hcalls : ended.map (·.1) = calls := by
    rw [List.map_map]
    exact List.map_id calls
  have hentities : ended.map (·.1.entity) =
      (st.document.select (r.clock st.world) s).eligible := by
    rw [List.map_map]
    exact hbatched.entities
  refine ⟨ended, ?_⟩
  constructor
  case ordered =>
    rw [hentities]
    exact pairwise_eligible _ s hf
  case asked =>
    intro c
    rw [hcalls]
    exact mem_calls_choose_iff hf hm
  case given =>
    intro p hp
    obtain ⟨c, hc, rfl⟩ := List.mem_map.mp hp
    exact hbatched.given c hc
  case entities =>
    refine related_goesOn hf h fun id e he hp hl => ?_
    have hid : id ∈ (st.document.select (r.clock st.world) s).eligible :=
      (Document.mem_eligible_select _ s hf).mpr ⟨e, he, hp, hl⟩
    obtain ⟨finish, b, -, hdoc, -⟩ := hbatched.batch
    obtain rfl := hf id e he
    have hfound := find?_choose_of_left (r := r) hf he hl
    have hcall : (⟨e.id, e.metadata, s⟩ : Call) ∈ calls :=
      Document.mem_calls_markEach hw.nodup hm hid hfound
    refine ⟨_, ?_, .executed ⟨r.clock st.world, finish, (ending e.id).durationMs⟩ (ending e.id) hp
      hl (List.mem_map_of_mem hcall)⟩
    rw [hdoc, Document.find?_withOutcomes, marked, Document.find?_withMarks, hfound,
      Option.map_some, Option.map_some, Document.marked, if_pos hid, Document.folded, if_pos hid]
    rfl
  case failures =>
    rw [hbatched.failures]
    show (st.failures ++ (st.document.select (r.clock st.world) s).setbacks) ++ _ = _
    rw [Document.setbacks_select _ s hf, List.append_assoc]
  case batch =>
    obtain ⟨finish, b, events, hdoc, hbatches, hcounts, htrace, hperm, hreports⟩ := hbatched.batch
    refine ⟨[b], events, Or.inr ⟨fun hnil => ?_, b, rfl, hcounts⟩, hbatches, ?_, htrace,
      hcalls ▸ hperm, ?_⟩
    · rw [← hentities, hnil] at hne
      exact hne rfl
    · rw [hdoc]
      show (st.choose r s).document.global.stepHistory ++ [b] = _
      rw [stepHistory_choose r s hf]
    · rw [hreports, List.flatMap_singleton]

/-- A step that goes well is a leg. -/
theorem exists_leg (hf : st.document.IsFiled) (h : st.runStep r s = (.ok (), st')) :
    ∃ ended, Leg r s ended st st' := by
  rcases runStep_cases_eligible hf h with ⟨hnil, -, rfl⟩ | ⟨hne, hw, hb⟩
  · exact ⟨[], leg_of_idle hf h hnil⟩
  · exact leg_of_batch hf h hw hne hb

end RunState
end Publishing
