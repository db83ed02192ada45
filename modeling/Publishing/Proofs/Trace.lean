import Mathlib.Data.List.Perm.Basic
import Publishing.Proofs.Batches
import Publishing.Proofs.Turns

/-
What the events of a run tell: the documents that were saved and the calls that were
made, in order.
-/

namespace Publishing

def PoolEvent.call : PoolEvent → Call
  | began c _ | ended c => c

/-- The call that begins with the event. -/
def PoolEvent.begun? : PoolEvent → Option Call
  | began c _ => some c
  | ended _ => none

namespace Pool

variable {σ : Type} {permits : Nat} {x : Executor σ} {p q : Pool σ} {e : PoolEvent}
  {l : List PoolEvent}

/-- A turn starts what waits or ends what is at work. -/
theorem Moves.call_mem (h : p.Moves permits x e q) : e.call ∈ p.waiting ++ p.active := by
  cases h with
  | start hi _ => exact List.mem_append_left _ (List.getElem_mem hi)
  | finish hi => exact List.mem_append_right _ (List.getElem_mem hi)

theorem Moves.subset (h : p.Moves permits x e q) :
    q.waiting ++ q.active ⊆ p.waiting ++ p.active := by
  cases h with
  | start hi _ =>
    intro c hc
    rcases List.mem_append.mp hc with hc | hc
    · exact List.mem_append_left _ (List.mem_of_mem_eraseIdx hc)
    · rcases List.mem_append.mp hc with hc | hc
      · exact List.mem_append_right _ hc
      · obtain rfl := List.mem_singleton.mp hc
        exact List.mem_append_left _ (List.getElem_mem hi)
  | finish hi =>
    intro c hc
    rcases List.mem_append.mp hc with hc | hc
    · exact List.mem_append_left _ hc
    · exact List.mem_append_right _ (List.mem_of_mem_eraseIdx hc)

theorem Turns.call_mem (h : p.Turns permits x l q) : ∀ e ∈ l, e.call ∈ p.waiting ++ p.active := by
  induction h with
  | rest p => exact nofun
  | turn move _ ih =>
    intro e he
    rcases List.mem_cons.mp he with rfl | he
    · exact move.call_mem
    · exact move.subset (ih e he)

/-- What has begun and what still waits are what waited. -/
theorem Turns.perm_waiting (h : p.Turns permits x l q) :
    (l.filterMap PoolEvent.begun? ++ q.waiting).Perm p.waiting := by
  induction h with
  | rest p => exact List.Perm.refl _
  | turn move _ ih =>
    cases move with
    | start hi _ => exact (ih.cons _).trans (List.getElem_cons_eraseIdx_perm hi)
    | finish _ => exact ih

/-- The calls of a batch are the only ones that begin, and each begins at most as often
as it stands in the batch. -/
theorem drain_spec (permits : Nat) (x : Executor σ) (schedule : Schedule) (calls : List Call)
    (w : σ) :
    (∀ e ∈ ((ofCalls calls w).drain permits x schedule).2, e.call ∈ calls) ∧
      (((ofCalls calls w).drain permits x schedule).2.filterMap PoolEvent.begun?).Subperm
        calls := by
  have hturns := turns_runFor permits x schedule (ofCalls calls w).work (ofCalls calls w)
  refine ⟨fun e he => ?_, ?_⟩
  · exact (List.mem_append.mp (hturns.call_mem e he)).resolve_right nofun
  · exact (List.sublist_append_left _ _).subperm.trans hturns.perm_waiting.subperm

end Pool

namespace RunEvent

def saved? : RunEvent → Option Document
  | saving d => some d
  | _ => none

def begun? : RunEvent → Option Call
  | pool e => e.begun?
  | _ => none

/-- The documents that were handed to the store. -/
def savings (l : List RunEvent) : List Document := l.filterMap saved?

def lastSaved (l : List RunEvent) : Option Document := (savings l).getLast?

/-- The calls that were begun. -/
def calls (l : List RunEvent) : List Call := l.filterMap begun?

@[simp] theorem savings_append (l k : List RunEvent) : savings (l ++ k) = savings l ++ savings k :=
  List.filterMap_append

@[simp] theorem calls_append (l k : List RunEvent) : calls (l ++ k) = calls l ++ calls k :=
  List.filterMap_append

@[simp] theorem savings_pool (l : List PoolEvent) : savings (l.map .pool) = [] := by
  simp [savings, List.filterMap_map, Function.comp_def, saved?]

@[simp] theorem calls_pool (l : List PoolEvent) :
    calls (l.map .pool) = l.filterMap PoolEvent.begun? := by
  simp [calls, List.filterMap_map, Function.comp_def, begun?]

theorem lastSaved_append (l k : List RunEvent) :
    lastSaved (l ++ k) = (lastSaved k).or (lastSaved l) := by
  simp only [lastSaved, savings_append, List.getLast?_append]

theorem lastSaved_append_of_savings_eq_nil {l k : List RunEvent} (h : savings k = []) :
    lastSaved (l ++ k) = lastSaved l := by
  rw [lastSaved_append, lastSaved, h]
  rfl

/-- Whether each event stands in a place where `P` allows it, given the events before. -/
def AtEach (P : List RunEvent → RunEvent → Prop) (l : List RunEvent) : Prop :=
  ∀ before e after, l = before ++ e :: after → P before e

theorem atEach_nil (P : List RunEvent → RunEvent → Prop) : AtEach P [] := by
  intro before e after h
  exact absurd h (by simp)

theorem atEach_append {P : List RunEvent → RunEvent → Prop} {l k : List RunEvent}
    (hl : AtEach P l) (hk : ∀ before e after, k = before ++ e :: after → P (l ++ before) e) :
    AtEach P (l ++ k) := by
  intro before e after h
  rcases List.append_eq_append_iff.mp h with ⟨as, hb, hk'⟩ | ⟨bs, hl', ha⟩
  · rw [hb]
    exact hk as e after hk'
  · cases bs with
    | nil =>
      rw [List.append_nil] at hl'
      have := hk [] e after ha.symm
      rw [List.append_nil, hl'] at this
      exact this
    | cons b bs =>
      rw [List.cons_append, List.cons.injEq] at ha
      obtain ⟨rfl, -⟩ := ha
      exact hl before e bs hl'

/-- Events that are allowed anywhere. -/
theorem atEach_append_of_forall {P : List RunEvent → RunEvent → Prop} {l k : List RunEvent}
    (hl : AtEach P l) (hk : ∀ before, ∀ e ∈ k, P before e) : AtEach P (l ++ k) := by
  refine atEach_append hl fun before e after h => hk _ e ?_
  exact h ▸ List.mem_append_right _ List.mem_cons_self

theorem atEach_concat {P : List RunEvent → RunEvent → Prop} {l : List RunEvent} {e : RunEvent}
    (hl : AtEach P l) (he : P l e) : AtEach P (l ++ [e]) := by
  refine atEach_append hl fun before e' after h => ?_
  cases before with
  | nil =>
    obtain ⟨rfl, -⟩ := List.cons.inj h
    rw [List.append_nil]
    exact he
  | cons b bs => simp at h

end RunEvent

namespace RunState

variable {σ : Type}

theorem mem_progress {s : Step} {total current : Nat} {l : List (String × Bool)} {e : RunEvent}
    (h : e ∈ progress s total current l) :
    ∃ id ok n, e = .entityFinished id s ok n total := by
  induction l generalizing current with
  | nil => cases h
  | cons p rest ih =>
    rcases List.mem_cons.mp h with rfl | h
    · exact ⟨_, _, _, rfl⟩
    · exact ih h

@[simp] theorem savings_progress (s : Step) (total current : Nat) (l : List (String × Bool)) :
    RunEvent.savings (progress s total current l) = [] := by
  induction l generalizing current with
  | nil => rfl
  | cons p rest ih =>
    obtain ⟨id, ok⟩ := p
    rw [progress]
    exact ih (current + 1)

@[simp] theorem calls_progress (s : Step) (total current : Nat) (l : List (String × Bool)) :
    RunEvent.calls (progress s total current l) = [] := by
  induction l generalizing current with
  | nil => rfl
  | cons p rest ih =>
    obtain ⟨id, ok⟩ := p
    rw [progress]
    exact ih (current + 1)

end RunState

/-- Whether the store takes a document at some time of the run. -/
def RunSetup.Accepts {σ : Type} (r : RunSetup σ) (d : Document) : Prop :=
  ∃ w w', r.store.save (r.clock w) d w = (.ok (), w')

namespace RunState

variable {σ : Type}

theorem accepts_of_save {r : RunSetup σ} {st st' : RunState σ} (h : st.save r = (.ok (), st')) :
    r.Accepts st.document := by
  rcases save_fst_cases r st with ⟨w, hw, -⟩ | ⟨e, w, -, hs⟩
  · exact ⟨st.world, w, hw⟩
  · rw [hs] at h
    cases h

/-- The document of a run with the marks of a batch. -/
def marked (r : RunSetup σ) (s : Step) (ids : List String) (st : RunState σ) : Document :=
  st.document.withMarks (r.clock st.world) r.runId s ids

/-- How far a batch gets.  The document with its marks is saved, and unless the batch ends
there, calls begin for some of its entities and the document with the outcomes is
saved. -/
inductive Outline (r : RunSetup σ) (s : Step) (ids : List String) (st st' : RunState σ) : Prop
  | marked (document : st'.document = st.marked r s ids)
      (trace : st'.trace = st.trace ++
        [.batchStarted s ids.length, .saving (st.marked r s ids)])
  | folded (calls : List Call) (events : List PoolEvent) (now : Timestamp)
      (ending : String → Ending) (batch : Batch) (results : List (String × Bool))
      (accepted : r.Accepts (st.marked r s ids))
      (entities : calls.map (·.entity) = ids)
      (steps : ∀ c ∈ calls, c.step = s)
      (asked : ∀ e ∈ events, e.call ∈ calls)
      (begun : (events.filterMap PoolEvent.begun?).Subperm calls)
      (document : st'.document = (st.marked r s ids).withOutcomes now s ending ids batch)
      (trace : st'.trace = st.trace ++
        [.batchStarted s ids.length, .saving (st.marked r s ids)] ++
        events.map .pool ++ progress s ids.length 0 results ++ [.saving st'.document])

theorem save_mark {r : RunSetup σ} {s : Step} {ids : List String} {st st₁ : RunState σ}
    (hw : st.document.Awaits s ids) {d : Document} {records : List AuditRecord}
    {calls : List Call} {res : Except Halt Unit}
    (hm : st.document.markEach (r.clock st.world) r.runId s ids = .ok (d, records, calls))
    (hs : (st.mark s ids d records).save r = (res, st₁)) :
    st₁.document = st.marked r s ids ∧
      st₁.trace = st.trace ++ [.batchStarted s ids.length, .saving (st.marked r s ids)] := by
  have hd : (st.mark s ids d records).document = st.marked r s ids :=
    (Document.markEach_eq_ok hw.nodup hw.contains hm).1
  obtain ⟨hdoc, htrace, -⟩ := save_spec hs
  rw [hd] at hdoc htrace
  refine ⟨hdoc, ?_⟩
  rw [htrace]
  show (st.trace ++ [_]) ++ [_] = _
  rw [List.append_assoc]
  rfl

/-- A batch that gets as far as its outcomes: entities that wait are marked and saved, their calls
end, and how they ended is folded into the document. -/
structure Round (r : RunSetup σ) (s : Step) (ids : List String) (st : RunState σ) (d : Document)
    (records : List AuditRecord) (calls : List Call) (st₁ : RunState σ) (ending : String → Ending)
    (st₂ : RunState σ) (tally : Document.Tally) : Prop where
  awaits : st.document.Awaits s ids
  marked : st.document.markEach (r.clock st.world) r.runId s ids = .ok (d, records, calls)
  save : (st.mark s ids d records).save r = (.ok (), st₁)
  execute : st₁.execute r calls = (ending, st₂)
  folded : st₂.document.foldEach (r.clock st₂.world) s ending ids = .ok tally

namespace Round

variable {r : RunSetup σ} {s : Step} {ids : List String} {st st₁ st₂ st₃ : RunState σ}
  {d : Document} {records : List AuditRecord} {calls : List Call} {ending : String → Ending}
  {tally : Document.Tally} {res : Except Halt Unit}

/-- The calls leave the document with the marks as it is. -/
theorem document_execute (h : Round r s ids st d records calls st₁ ending st₂ tally) :
    st₂.document = st.marked r s ids :=
  (execute_spec h.execute).1.trans (save_mark h.awaits h.marked h.save).1

theorem foldEach (h : Round r s ids st d records calls st₁ ending st₂ tally) (batch : Batch) :
    tally.document.addBatch batch =
        (st.marked r s ids).withOutcomes (r.clock st₂.world) s ending ids batch ∧
      tally.results = ids.map fun id => (id, (ending id).outcome.isSuccess) := by
  have hf := h.folded
  rw [h.document_execute] at hf
  exact Document.foldEach_eq_ok h.awaits.nodup (h.awaits.contains_withMarks _ _) hf batch

/-- The document with the outcomes, once it was handed to the store. -/
theorem document_save (h : Round r s ids st d records calls st₁ ending st₂ tally)
    (hs : (st₂.enter r s (r.clock st.world) ids tally).save r = (res, st₃)) :
    st₃.document = (st.marked r s ids).withOutcomes (r.clock st₂.world) s ending ids
      (st₂.batch r s (r.clock st.world) ids tally) := by
  rw [(save_spec hs).1]
  exact (h.foldEach _).1

theorem outline (h : Round r s ids st d records calls st₁ ending st₂ tally)
    (hs : (st₂.enter r s (r.clock st.world) ids tally).save r = (res, st₃)) :
    Outline r s ids st st₃ := by
  obtain ⟨hd, hids, hsteps⟩ :=
    Document.markEach_eq_ok h.awaits.nodup h.awaits.contains h.marked
  obtain ⟨-, htrace⟩ := save_mark h.awaits h.marked h.save
  obtain ⟨-, -, htrace₂, -⟩ := execute_spec h.execute
  obtain ⟨hdoc₃, htrace₃, -⟩ := save_spec hs
  obtain ⟨hcalls, hbegun⟩ := Pool.drain_spec r.permits r.executor r.schedule calls st₁.world
  refine .folded calls _ (r.clock st₂.world) ending (st₂.batch r s (r.clock st.world) ids tally)
    tally.results ?_ hids hsteps hcalls hbegun (h.document_save hs) ?_
  · exact Eq.subst (motive := r.Accepts) hd (accepts_of_save h.save)
  · rw [htrace₃, hdoc₃]
    show (st₂.trace ++ _) ++ _ = _
    rw [htrace₂, htrace]

end Round

theorem BatchRun.outline {r : RunSetup σ} {s : Step} {ids : List String} {st st' : RunState σ}
    {res : Except Halt Unit} (hw : st.document.Awaits s ids) (h : BatchRun r s ids st res st') :
    Outline r s ids st st' := by
  cases h with
  | unmarked hm hs =>
    obtain ⟨hdoc, htrace⟩ := save_mark hw hm hs
    exact .marked hdoc htrace
  | overfull hm hs =>
    obtain ⟨hdoc, htrace⟩ := save_mark hw hm hs
    exact .marked hdoc htrace
  | unfolded hm hs hx hf hs₂ => exact Round.outline ⟨hw, hm, hs, hx, hf⟩ hs₂
  | folded hm hs hx hf hs₂ =>
    -- the summary of the batch is beside the document and the trace
    cases Round.outline ⟨hw, hm, hs, hx, hf⟩ hs₂ with
    | marked hdoc htrace => exact .marked hdoc htrace
    | folded calls events now ending batch results ha hids hst hask hbeg hdoc htrace =>
      exact .folded calls events now ending batch results ha hids hst hask hbeg hdoc htrace

/-- A batch saves the document with its marks, and the one that it leaves. -/
theorem Outline.mem_savings {r : RunSetup σ} {s : Step} {ids : List String} {st st' : RunState σ}
    (h : Outline r s ids st st') {d : Document} (hd : d ∈ RunEvent.savings st'.trace) :
    d ∈ RunEvent.savings st.trace ∨ d = st.marked r s ids ∨ d = st'.document := by
  have hmarked : RunEvent.savings [.batchStarted s ids.length, .saving (st.marked r s ids)] =
      [st.marked r s ids] := rfl
  have hlast : RunEvent.savings [.saving st'.document] = [st'.document] := rfl
  cases h with
  | marked _ htrace =>
    rw [htrace, RunEvent.savings_append, hmarked] at hd
    exact (List.mem_append.mp hd).imp id fun hd => Or.inl (List.mem_singleton.mp hd)
  | folded _ _ _ _ _ _ _ _ _ _ _ _ htrace =>
    simp only [htrace, RunEvent.savings_append, RunEvent.savings_pool, savings_progress, hmarked,
      hlast, List.append_nil, List.mem_append, List.mem_singleton, or_assoc] at hd
    exact hd

/-- A batch calls for its entities, at its step. -/
theorem Outline.mem_calls {r : RunSetup σ} {s : Step} {ids : List String} {st st' : RunState σ}
    (h : Outline r s ids st st') {c : Call} (hc : c ∈ RunEvent.calls st'.trace) :
    c ∈ RunEvent.calls st.trace ∨ (c.entity ∈ ids ∧ c.step = s) := by
  have hstart : RunEvent.calls
      [.batchStarted s ids.length, .saving (st.marked r s ids)] = [] := rfl
  have hlast : RunEvent.calls [.saving st'.document] = [] := rfl
  cases h with
  | marked _ htrace =>
    rw [htrace, RunEvent.calls_append, hstart, List.append_nil] at hc
    exact Or.inl hc
  | folded _ _ _ _ _ _ _ hids hsteps _ hbegun _ htrace =>
    simp only [htrace, RunEvent.calls_append, RunEvent.calls_pool, calls_progress, hstart, hlast,
      List.append_nil] at hc
    refine (List.mem_append.mp hc).imp id fun hc => ?_
    have hmem := hbegun.subset hc
    exact ⟨hids ▸ List.mem_map_of_mem hmem, hsteps c hmem⟩

/-- Step by step the document is the one that was saved last, or else the loaded one. -/
def Follows (d : Document) (st : RunState σ) : Prop :=
  ((RunEvent.lastSaved st.trace).getD d).Related Entity.SameWork st.document

theorem follows_opening (r : RunSetup σ) (d : Document) (m : Emitter σ) (w : σ) :
    (opening r d m w).Follows d :=
  Document.related_blockStuck (r.clock w) d

theorem Follows.choose {d : Document} {st : RunState σ} (h : st.Follows d)
    (hf : st.document.IsFiled) (r : RunSetup σ) (s : Step) : (st.choose r s).Follows d :=
  h.trans (Document.related_select (r.clock st.world) s hf) Entity.SameWork.trans

/-- A batch ends with saving the document that it leaves. -/
theorem Outline.lastSaved_eq {r : RunSetup σ} {s : Step} {ids : List String} {st st' : RunState σ}
    (h : Outline r s ids st st') : RunEvent.lastSaved st'.trace = some st'.document := by
  cases h with
  | marked hdoc htrace =>
    rw [htrace, hdoc, List.append_cons, RunEvent.lastSaved_append]
    rfl
  | folded _ _ _ _ _ _ _ _ _ _ _ _ htrace =>
    rw [htrace, RunEvent.lastSaved_append]
    rfl

theorem Outline.follows {r : RunSetup σ} {s : Step} {ids : List String} {st st' : RunState σ}
    (h : Outline r s ids st st') (d : Document) : st'.Follows d := by
  rw [Follows, h.lastSaved_eq]
  exact .refl Entity.SameWork.refl _

/-- The events of a run whose steps have left this state: a document is saved once more if
anything has changed, and the run reports unless it has failed. -/
inductive Ends (st : RunState σ) : List RunEvent → Prop
  | halted : Ends st st.trace
  | closing : Ends st (st.trace ++ [.saving (st.document.setCurrentStep none)])
  | done (summary : RunSummary) : Ends st (st.trace ++ [.done summary])
  | closed (summary : RunSummary) :
      Ends st (st.trace ++ [.saving (st.document.setCurrentStep none)] ++ [.done summary])

/-- All that is saved after the steps is the last document. -/
theorem Ends.mem_savings {st : RunState σ} {events : List RunEvent} (h : st.Ends events)
    {d : Document} (hd : d ∈ RunEvent.savings events) :
    d ∈ RunEvent.savings st.trace ∨ d = st.document.setCurrentStep none := by
  have hlast : ∀ {d},
      d ∈ RunEvent.savings (st.trace ++ [.saving (st.document.setCurrentStep none)]) →
      d ∈ RunEvent.savings st.trace ∨ d = st.document.setCurrentStep none := by
    intro d hd
    rw [RunEvent.savings_append] at hd
    exact (List.mem_append.mp hd).imp id List.mem_singleton.mp
  cases h with
  | halted => exact Or.inl hd
  | closing => exact hlast hd
  | done summary =>
    rw [RunEvent.savings_append, show RunEvent.savings [.done summary] = [] from rfl,
      List.append_nil] at hd
    exact Or.inl hd
  | closed summary =>
    rw [RunEvent.savings_append, show RunEvent.savings [.done summary] = [] from rfl,
      List.append_nil] at hd
    exact hlast hd

theorem Ends.calls {st : RunState σ} {events : List RunEvent} (h : st.Ends events) :
    RunEvent.calls events = RunEvent.calls st.trace := by
  have hnone : RunEvent.calls [.saving (st.document.setCurrentStep none)] = [] ∧
      ∀ summary, RunEvent.calls [.done summary] = [] := ⟨rfl, fun _ => rfl⟩
  cases h <;> simp only [RunEvent.calls_append, hnone.1, hnone.2, List.append_nil]

theorem isFiled_of_outline {r : RunSetup σ} {s : Step} {ids : List String} {st st' : RunState σ}
    (hf : st.document.IsFiled) (h : Outline r s ids st st') : st'.document.IsFiled := by
  have hm : (st.marked r s ids).IsFiled := Document.isFiled_withMarks _ _ _ _ hf
  cases h with
  | marked hdoc _ => rwa [hdoc]
  | folded _ _ now ending batch _ _ _ _ _ _ hdoc _ =>
    rw [hdoc]
    exact Document.isFiled_withOutcomes _ _ _ _ _ hm

theorem isFiled_of_runStep {r : RunSetup σ} {s : Step} {st st' : RunState σ}
    {res : Except Halt Unit} (hf : st.document.IsFiled) (h : st.runStep r s = (res, st')) :
    st'.document.IsFiled := by
  have hc := Document.isFiled_of_related (Document.related_select (r.clock st.world) s hf) hf
  rcases runStep_cases hf h with ⟨-, rfl⟩ | ⟨ids, hw, hb⟩
  · exact hc
  · exact isFiled_of_outline hc (hb.outline hw)

/-- What a step of a run keeps, however it goes, all the steps keep. -/
theorem runSteps_keep_runStep {r : RunSetup σ} {P : RunState σ → Prop}
    (step : ∀ s st res st', st.document.IsFiled → P st → st.runStep r s = (res, st') → P st')
    (steps : List Step) {st : RunState σ} (hf : st.document.IsFiled) (h : P st)
    {res : Except Halt Unit} {st' : RunState σ} (hr : st.runSteps r steps = (res, st')) :
    P st' := by
  have hstep : ∀ s (st : RunState σ) res (st' : RunState σ), st.document.IsFiled ∧ P st →
      st.runStep r s = (res, st') → st'.document.IsFiled ∧ P st' :=
    fun s st res st' ⟨hf, h⟩ hs => ⟨isFiled_of_runStep hf hs, step s st res st' hf h hs⟩
  have hend := runSteps_induct _ (fun st => st.document.IsFiled ∧ P st)
    (fun s st res st' h hs => ⟨fun _ => hstep s st res st' h hs, fun _ => hstep s st res st' h hs⟩)
    steps ⟨hf, h⟩ hr
  by_cases hres : res = .ok ()
  · exact (hend.1 hres).2
  · exact (hend.2 hres).2

theorem isFiled_opening {d : Document} (hf : d.IsFiled) (r : RunSetup σ) (m : Emitter σ) (w : σ) :
    (opening r d m w).document.IsFiled :=
  Document.isFiled_of_related (Document.related_blockStuck (r.clock w) d) hf

theorem find?_opening (r : RunSetup σ) (d : Document) (m : Emitter σ) (w : σ) (id : String) :
    (opening r d m w).document.find? id =
      (d.find? id).map fun e => (e.blockStuck (r.clock w)).1 :=
  Document.find?_blockStuck (r.clock w) d id

theorem isFiled_of_runSteps {r : RunSetup σ} {steps : List Step} {st st' : RunState σ}
    {res : Except Halt Unit} (hf : st.document.IsFiled) (h : st.runSteps r steps = (res, st')) :
    st'.document.IsFiled :=
  runSteps_keep_runStep (P := fun st => st.document.IsFiled)
    (fun _ _ _ _ hf _ hs => isFiled_of_runStep hf hs) steps hf hf h

/-- What selecting for a step and running its batch keep, the step keeps. -/
theorem runStep_keep_batchRun {r : RunSetup σ} {P : RunState σ → Prop}
    (choose : ∀ s st, st.document.IsFiled → P st → P (st.choose r s))
    (batch : ∀ s ids st res st', P st → st.document.Awaits s ids → BatchRun r s ids st res st' →
      P st')
    (s : Step) (st : RunState σ) (res : Except Halt Unit) (st' : RunState σ)
    (hf : st.document.IsFiled) (h : P st) (hs : st.runStep r s = (res, st')) : P st' := by
  rcases runStep_cases hf hs with ⟨-, rfl⟩ | ⟨ids, hw, hb⟩
  · exact choose s st hf h
  · exact batch s ids _ _ _ (choose s st hf h) hw hb

theorem trace_close {r : RunSetup σ} {st st' : RunState σ} {res : Except Halt Unit}
    (h : st.close r = (res, st')) : st'.trace = st.trace ∨
      st'.trace = st.trace ++ [.saving (st.document.setCurrentStep none)] := by
  rcases close_cases h with ⟨-, hsave⟩ | ⟨-, -, rfl⟩
  · exact Or.inr (save_spec hsave).2.1
  · exact Or.inl rfl

end RunState

/-- A run ends where its steps lead to, and if they halt, it halts with them. -/
theorem RunSetup.exists_runSteps {σ : Type} {r : RunSetup σ} (m : Emitter σ) {w : σ}
    {d : Document} (hl : r.store.load (r.clock w) w = .ok d) :
    ∃ res st, (RunState.opening r d m w).runSteps r Step.all = (res, st) ∧
      st.Ends (r.run m w).trace ∧ ∀ h, res = .error h → (r.run m w).result = .error h := by
  rcases run_cases_of_load m hl with ⟨h, st, hs, hr⟩ | ⟨st, hs, hclose⟩
  · refine ⟨_, st, hs, hr ▸ .halted, fun h' he => ?_⟩
    obtain rfl := Except.error.inj he
    rw [hr]
    rfl
  · refine ⟨_, st, hs, ?_, nofun⟩
    rcases hclose with ⟨h, st', hc, hr⟩ | ⟨st', summary, hc, hr⟩
    · rw [hr]
      show st.Ends st'.trace
      rcases RunState.trace_close hc with ht | ht
      · exact ht ▸ .halted
      · exact ht ▸ .closing
    · rw [hr]
      show st.Ends (st'.trace ++ [.done summary])
      rcases RunState.trace_close hc with ht | ht
      · exact ht ▸ .done summary
      · exact ht ▸ .closed summary

/-- The events of a run are those of a state that its steps lead to. -/
theorem RunSetup.trace_run_runStep {σ : Type} (r : RunSetup σ) (m : Emitter σ) (w : σ)
    {d : Document} (hl : r.store.load (r.clock w) w = .ok d) (hf : d.IsFiled)
    {P : RunState σ → Prop} (opening : P (.opening r d m w))
    (step : ∀ s st res st', st.document.IsFiled → P st → st.runStep r s = (res, st') → P st') :
    ∃ st, P st ∧ st.Ends (r.run m w).trace := by
  obtain ⟨res, st, hs, hends, -⟩ := exists_runSteps m hl
  have hf' := RunState.isFiled_opening hf r m w
  exact ⟨st, RunState.runSteps_keep_runStep step _ hf' opening hs, hends⟩

theorem RunSetup.trace_run_batchRun {σ : Type} (r : RunSetup σ) (m : Emitter σ) (w : σ)
    {d : Document} (hl : r.store.load (r.clock w) w = .ok d) (hf : d.IsFiled)
    {P : RunState σ → Prop} (opening : P (.opening r d m w))
    (choose : ∀ s st, st.document.IsFiled → P st → P (st.choose r s))
    (batch : ∀ s ids st res st', P st → st.document.Awaits s ids →
      RunState.BatchRun r s ids st res st' → P st') :
    ∃ st, P st ∧ st.Ends (r.run m w).trace :=
  r.trace_run_runStep m w hl hf opening (RunState.runStep_keep_batchRun choose batch)

theorem RunSetup.trace_run {σ : Type} (r : RunSetup σ) (m : Emitter σ) (w : σ) {d : Document}
    (hl : r.store.load (r.clock w) w = .ok d) (hf : d.IsFiled) {P : RunState σ → Prop}
    (opening : P (.opening r d m w))
    (choose : ∀ s st, st.document.IsFiled → P st → P (st.choose r s))
    (batch : ∀ s ids st st', P st → st.document.Awaits s ids →
      RunState.Outline r s ids st st' → P st') :
    ∃ st, P st ∧ st.Ends (r.run m w).trace :=
  r.trace_run_batchRun m w hl hf opening choose
    fun s ids st _ st' h hw hb => batch s ids st st' h hw (hb.outline hw)

end Publishing
