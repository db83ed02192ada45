import Publishing.Proofs.Format
import Publishing.Proofs.Moments
import Publishing.Proofs.Stages

/-
What can be on disk after any sequence of operations and runs.

Of a store only this matters here: which text it holds, and what loading and saving have to
do with that text.  A save may fail whenever it likes, as long as it leaves the text alone
then.  An episode is one operation, or as much of one run as there was of it.
-/

namespace Publishing

/-- A document as a save at this time writes it. -/
def Document.stamp (now : Timestamp) (d : Document) : Document := { d with lastUpdated := now }

/-- A store that holds one text. -/
structure Site (σ : Type) where
  store : Store σ
  text? : σ → Option String
  load_ok {now : Timestamp} {w : σ} {d : Document} (h : store.load now w = .ok d) :
    (text? w = none ∧ d = .empty now) ∨
      ∃ t, text? w = some t ∧ Document.ofText t = .ok d ∧ d.check = .ok ()
  save_ok {now : Timestamp} {d : Document} {w w' : σ} (h : store.save now d w = (.ok (), w')) :
    text? w' = some (d.stamp now).text
  save_error {now : Timestamp} {d : Document} {w w' : σ} {e : Error}
    (h : store.save now d w = (.error e, w')) : text? w' = text? w

/-- A world that is nothing but a document, kept as its text, and the records that were
delivered. -/
structure Memory where
  saved? : Option Document
  delivered : List AuditRecord
  /-- Whether the store takes nothing for now. -/
  refuses : Bool

namespace Memory

def text? (w : Memory) : Option String := w.saved?.map (·.text)

def store : Store Memory where
  load now w :=
    match w.text? with
    | none => .ok (.empty now)
    | some t =>
      match Document.ofText t with
      | .error fault => .error (.corruptState "" (.unparseable fault))
      | .ok d =>
        match d.check with
        | .error v => .error (.corruptState "" (.violation v))
        | .ok () => .ok d
  save now d w :=
    if w.refuses then (.error (.file "" .readOnlyStore), w)
    else (.ok (), { w with saved? := some (d.stamp now) })

def site : Site Memory where
  store := store
  text? := text?
  load_ok := by
    intro now w d h
    dsimp only [store] at h
    split at h
    · next hw => exact Or.inl ⟨hw, (Except.ok.inj h).symm⟩
    · next t hw =>
      split at h
      · cases h
      · next d' hd =>
        split at h
        · cases h
        · next hc =>
          obtain rfl := Except.ok.inj h
          exact Or.inr ⟨t, hw, hd, hc⟩
  save_ok := by
    intro now d w w' h
    dsimp only [store] at h
    split at h
    · cases h
    · obtain ⟨-, rfl⟩ := Prod.mk.inj h
      rfl
  save_error := by
    intro now d w w' e h
    dsimp only [store] at h
    split at h
    · obtain ⟨-, rfl⟩ := Prod.mk.inj h
      rfl
    · cases h

end Memory

/-- What happened to the document in one go. -/
inductive Episode where
  | operation (op : Operation) (result : Except Error Report)
  /-- The calls of a run. -/
  | run (calls : List Call)

/-- The ways in which an operation can go. -/
inductive Operation.Outcome {σ : Type} (op : Operation) (store : Store σ) (now : Timestamp)
    (m : Emitter σ) (w : σ) : Except Error Report × Emitter σ × σ → Prop
  | refused (e : Error) : Outcome op store now m w (.error e, m, w)
  | idle {d : Document} {c : Change} (load : store.load now w = .ok d) (makes : op.Makes now d c)
      (none : c.report.entities = []) :
      Outcome op store now m w (.ok c.report, (m.enqueue c.records).discard, w)
  | unsaved {d : Document} {c : Change} {e : Error} {w' : σ} (load : store.load now w = .ok d)
      (makes : op.Makes now d c) (save : store.save now c.document w = (.error e, w')) :
      Outcome op store now m w (.error e, (m.enqueue c.records).discard, w')
  | saved {d : Document} {c : Change} {w' : σ} (load : store.load now w = .ok d)
      (makes : op.Makes now d c) (some : c.report.entities ≠ [])
      (save : store.save now c.document w = (.ok (), w')) :
      Outcome op store now m w (.ok c.report, (m.enqueue c.records).flush w')

theorem Operation.outcome_perform {σ : Type} (op : Operation) (store : Store σ) (now : Timestamp)
    (m : Emitter σ) (w : σ) : op.Outcome store now m w (op.perform store now m w) := by
  unfold perform
  cases hp : op.prepare with
  | error e => exact .refused e
  | ok f =>
    cases hl : store.load now w with
    | error e => exact .refused e
    | ok d =>
      cases hc : f now d with
      | error e =>
        have : (do let change ← Except.ok f; change now (← Except.ok d) :
            Except Error Change) = .error e := hc
        simp only [this]
        exact .refused e
      | ok c =>
        have : (do let change ← Except.ok f; change now (← Except.ok d) :
            Except Error Change) = .ok c := hc
        simp only [this]
        have hm := makes hp hc
        unfold Change.commit
        by_cases hn : c.report.entities = []
        · simp only [hn, List.isEmpty_nil, if_true]
          exact .idle hl hm hn
        · rcases hs : store.save now c.document w with ⟨e | ⟨⟩, w'⟩
          · simp only [List.isEmpty_iff, hn, if_false]
            exact .unsaved hl hm hs
          · simp only [List.isEmpty_iff, hn, if_false]
            exact .saved hl hm hn hs

/-- What no delivery touches, is left alone when the queue goes out. -/
theorem Emitter.eq_flush {σ α : Type} {f : σ → α} (m : Emitter σ)
    (h : ∀ record w, f (deliver m.sinks record w) = f w) (w : σ) : f (m.flush w).2 = f w := by
  show f (m.queue.foldl (fun w r => deliver m.sinks r w) w) = f w
  induction m.queue generalizing w with
  | nil => rfl
  | cons r rest ih => rw [List.foldl_cons, ih, h]

namespace Site

variable {σ : Type} {S : Site σ}

/-- Whether delivery to these sinks leaves the text alone. -/
def SparedBySinks (S : Site σ) (sinks : List (Sink σ)) : Prop :=
  ∀ record w, S.text? (Emitter.deliver sinks record w) = S.text? w

def SparedByCalls (S : Site σ) (x : Executor σ) : Prop := ∀ c w, S.text? (x c w).2 = S.text? w

/-- What the saves among these events leave, when `before` was there. -/
def Leaves (before : Option String) (events : List RunEvent) (after : Option String) : Prop :=
  match RunEvent.lastSaved events with
  | none => after = before
  | some d => ∃ now, after = some (d.stamp now).text

/-- What can have happened to a store that held nothing at first, and the text that it holds
then.  A run may be cut off between any two of its events. -/
inductive History (S : Site σ) : List Episode → Option String → Prop
  | absent : History S [] none
  | operation {h : List Episode} (op : Operation) (now : Timestamp) (m : Emitter σ) (w : σ)
      (sinks : S.SparedBySinks m.sinks) (before : History S h (S.text? w)) :
      History S (h ++ [.operation op (op.perform S.store now m w).1])
        (S.text? (op.perform S.store now m w).2.2)
  | run {h : List Episode} (r : RunSetup σ) (m : Emitter σ) (w : σ) (store : r.store = S.store)
      (sinks : S.SparedBySinks m.sinks) (calls : S.SparedByCalls r.executor)
      (before : History S h (S.text? w)) :
      History S (h ++ [.run (RunEvent.calls (r.run m w).trace)]) (S.text? (r.run m w).world)
  | cut {h : List Episode} {seen rest : List RunEvent} {e : RunEvent} {t : Option String}
      (r : RunSetup σ) (m : Emitter σ) (w : σ) (store : r.store = S.store)
      (trace : (r.run m w).trace = seen ++ e :: rest) (leaves : Leaves (S.text? w) seen t)
      (before : History S h (S.text? w)) :
      History S (h ++ [.run (RunEvent.calls seen)]) t

theorem text?_flush {m : Emitter σ} (h : S.SparedBySinks m.sinks) (w : σ) :
    S.text? (m.flush w).2 = S.text? w :=
  m.eq_flush h w

/-- What is held once a document is saved and its records have gone out. -/
theorem text?_flush_save {m : Emitter σ} (h : S.SparedBySinks m.sinks) {now : Timestamp}
    {d : Document} {w w' : σ} (hs : S.store.save now d w = (.ok (), w'))
    (records : List AuditRecord) :
    S.text? ((m.enqueue records).flush w').2 = some (d.stamp now).text := by
  have hsinks : S.SparedBySinks (m.enqueue records).sinks := by
    rw [Emitter.sinks_enqueue]
    exact h
  rw [text?_flush hsinks, S.save_ok hs]

/-! ## What a run leaves -/

theorem isFiled_of_load {now : Timestamp} {w : σ} {d : Document}
    (h : S.store.load now w = .ok d) : d.IsFiled := by
  rcases S.load_ok h with ⟨-, rfl⟩ | ⟨t, -, -, hc⟩
  · intro id e he
    rw [Document.find?_empty] at he
    cases he
  · exact Document.isFiled_of_check hc

/-- Whether the store has taken all that was handed to it in these events. -/
def AllTaken (r : RunSetup σ) (events : List RunEvent) : Prop :=
  ∀ d ∈ RunEvent.savings events, r.Accepts d

/-- What the saves among these events of a run leave: each was made at an instant that the clock
of the run showed. -/
def LeavesBy (r : RunSetup σ) (before : Option String) (events : List RunEvent)
    (after : Option String) : Prop :=
  match RunEvent.lastSaved events with
  | none => after = before
  | some d => ∃ w, after = some (d.stamp (r.clock w)).text

variable {r : RunSetup σ} {before after : Option String} {s : Step} {ids : List String}
  {st st' : RunState σ} {l k : List RunEvent} {w : σ}

theorem LeavesBy.leaves (h : LeavesBy r before l after) : Leaves before l after := by
  unfold LeavesBy at h
  unfold Leaves
  cases hl : RunEvent.lastSaved l with
  | none =>
    rw [hl] at h
    exact h
  | some d =>
    rw [hl] at h
    obtain ⟨w, h⟩ := h
    exact ⟨_, h⟩

theorem AllTaken.append (hk : RunEvent.savings k = []) (h : AllTaken r l) :
    AllTaken r (l ++ k) := by
  intro d hd
  rw [RunEvent.savings_append, hk, List.append_nil] at hd
  exact h d hd

theorem LeavesBy.append (hk : RunEvent.savings k = []) (h : LeavesBy r before l after) :
    LeavesBy r before (l ++ k) after := by
  unfold LeavesBy at h ⊢
  rw [RunEvent.lastSaved_append_of_savings_eq_nil hk]
  exact h

/-- What is to be said of the disk at any time: the store has taken all that the run has saved, and
the last of it is there. -/
structure Keeps (r : RunSetup σ) (before : Option String) (events : List RunEvent)
    (after : Option String) : Prop where
  taken : AllTaken r events
  leaves : LeavesBy r before events after

theorem Keeps.append (hk : RunEvent.savings k = []) (h : Keeps r before l after) :
    Keeps r before (l ++ k) after :=
  ⟨h.taken.append hk, h.leaves.append hk⟩

/-- What is so of the state of a run between its saves. -/
structure IsCurrent (S : Site σ) (r : RunSetup σ) (before : Option String) (st : RunState σ) :
    Prop where
  sinks : S.SparedBySinks st.emitter.sinks
  keeps : Keeps r before st.trace (S.text? st.world)

theorem IsCurrent.log (h : S.IsCurrent r before st) (k : List RunEvent)
    (hk : RunEvent.savings k = []) (hm : st'.emitter.sinks = st.emitter.sinks)
    (ht : st'.trace = st.trace ++ k) (hw : S.text? st'.world = S.text? st.world) :
    S.IsCurrent r before st' := by
  refine ⟨hm ▸ h.sinks, ?_⟩
  rw [ht, hw]
  exact h.keeps.append hk

theorem IsCurrent.saveMoment (hr : r.store = S.store) (h : S.IsCurrent r before st)
    (hm : st.SaveMoment r l w) : Keeps r before l (S.text? w) := by
  cases hm with
  | asked => exact h.keeps
  | refused hs =>
    rw [hr] at hs
    rw [S.save_error hs]
    exact h.keeps
  | taken hs sent =>
    refine ⟨fun d hd => ?_, ?_⟩
    · rw [RunEvent.savings_append] at hd
      rcases List.mem_append.mp hd with hd | hd
      · exact h.keeps.taken d hd
      · obtain rfl := List.mem_singleton.mp hd
        exact ⟨_, _, hs⟩
    · have hsinks : S.SparedBySinks
          ({ st.emitter with queue := st.emitter.queue.take sent } : Emitter σ).sinks := h.sinks
      rw [hr] at hs
      rw [text?_flush hsinks, S.save_ok hs, LeavesBy, RunEvent.lastSaved_append]
      exact ⟨_, rfl⟩

theorem IsCurrent.save (hr : r.store = S.store) (h : S.IsCurrent r before st)
    (hs : st.save r = (.ok (), st')) : S.IsCurrent r before st' := by
  refine ⟨?_, h.saveMoment hr (RunState.saveMoment_of_ok hs)⟩
  rw [(RunState.save_spec hs).2.2.2]
  exact h.sinks

theorem text?_runFor (hx : S.SparedByCalls r.executor) (schedule : Schedule) (turns : Nat)
    (calls : List Call) (w : σ) :
    S.text? ((Pool.ofCalls calls w).runFor r.permits r.executor schedule turns).1.world =
      S.text? w :=
  Pool.world_runFor (P := fun w' => S.text? w' = S.text? w) _ (fun c w' hw => (hx c w').trans hw)
    _ _ rfl

theorem IsCurrent.execute (hx : S.SparedByCalls r.executor) (h : S.IsCurrent r before st)
    {calls : List Call} {ending : String → Ending} (he : st.execute r calls = (ending, st')) :
    S.IsCurrent r before st' := by
  obtain ⟨-, hm, ht, hw⟩ := RunState.execute_spec he
  refine h.log _ (RunEvent.savings_pool _) (congrArg Emitter.sinks hm) ht ?_
  rw [hw]
  exact text?_runFor hx ..

theorem IsCurrent.choose (h : S.IsCurrent r before st) (s : Step) :
    S.IsCurrent r before (st.choose r s) :=
  h.log [] rfl (Emitter.sinks_enqueue _ st.emitter) (List.append_nil _).symm rfl

theorem IsCurrent.mark (h : S.IsCurrent r before st) (s : Step) (ids : List String) (d : Document)
    (records : List AuditRecord) : S.IsCurrent r before (st.mark s ids d records) :=
  h.log [.batchStarted s ids.length] rfl (Emitter.sinks_enqueue _ st.emitter) rfl rfl

theorem IsCurrent.enter (h : S.IsCurrent r before st) (s : Step) (start : Timestamp)
    (ids : List String) (tally : Document.Tally) :
    S.IsCurrent r before (st.enter r s start ids tally) :=
  h.log _ (RunState.savings_progress s ids.length 0 tally.results)
    (Emitter.sinks_enqueue _ st.emitter) rfl rfl

theorem IsCurrent.batchMoment (hr : r.store = S.store) (hx : S.SparedByCalls r.executor)
    (h : S.IsCurrent r before st) (hm : st.BatchMoment r s ids l w) :
    Keeps r before l (S.text? w) := by
  cases hm with
  | marking _ hm => exact (h.mark ..).saveMoment hr hm
  | working _ hs _ _ =>
    refine Keeps.append (RunEvent.savings_pool _) ?_
    rw [Pool.drainFor, text?_runFor hx]
    exact ((h.mark ..).save hr hs).keeps
  | @reporting _ _ _ _ _ _ tally n _ hs _ he _ =>
    have hreports : RunEvent.savings ((RunState.progress s ids.length 0 tally.results).take n) ⊆
        RunEvent.savings (RunState.progress s ids.length 0 tally.results) :=
      ((List.take_sublist _ _).filterMap _).subset
    rw [RunState.savings_progress] at hreports
    exact (((h.mark ..).save hr hs).execute hx he).keeps.append
      (List.subset_nil.mp hreports)
  | folding _ hs _ he _ hm =>
    exact ((((h.mark ..).save hr hs).execute hx he).enter ..).saveMoment hr hm

theorem IsCurrent.batch (hr : r.store = S.store) (hx : S.SparedByCalls r.executor)
    (h : S.IsCurrent r before st) (hb : RunState.BatchRun r s ids st (.ok ()) st') :
    S.IsCurrent r before st' := by
  cases hb with
  | folded _ hs he _ hs₂ =>
    have h₃ := ((((h.mark ..).save hr hs).execute hx he).enter ..).save hr hs₂
    exact ⟨h₃.sinks, h₃.keeps⟩

theorem IsCurrent.runStep (hr : r.store = S.store) (hx : S.SparedByCalls r.executor)
    (hf : st.document.IsFiled) (h : S.IsCurrent r before st)
    (hs : st.runStep r s = (.ok (), st')) : S.IsCurrent r before st' := by
  rcases RunState.runStep_cases hf hs with ⟨-, rfl⟩ | ⟨ids, -, hb⟩
  · exact h.choose s
  · exact (h.choose s).batch hr hx hb

theorem IsCurrent.stepsMoment (hr : r.store = S.store) (hx : S.SparedByCalls r.executor)
    {steps : List Step} (hf : st.document.IsFiled) (h : S.IsCurrent r before st)
    (hm : st.StepsMoment r steps l w) : Keeps r before l (S.text? w) := by
  induction hm with
  | between => exact h.keeps
  | batch _ hm => exact (h.choose _).batchMoment hr hx hm
  | next hs _ ih => exact ih (RunState.isFiled_of_runStep hf hs) (h.runStep hr hx hf hs)

theorem IsCurrent.runSteps (hr : r.store = S.store) (hx : S.SparedByCalls r.executor)
    (steps : List Step) (hf : st.document.IsFiled) (h : S.IsCurrent r before st)
    (hs : st.runSteps r steps = (.ok (), st')) : S.IsCurrent r before st' := by
  induction steps generalizing st with
  | nil =>
    obtain ⟨-, rfl⟩ := Prod.mk.inj hs
    exact h
  | cons s rest ih =>
    obtain ⟨st₁, hstep, hrest⟩ := RunState.runSteps_cons hs
    exact ih (RunState.isFiled_of_runStep hf hstep) (h.runStep hr hx hf hstep) hrest

theorem isCurrent_opening {m : Emitter σ} (hm : S.SparedBySinks m.sinks) (d : Document) (w : σ) :
    S.IsCurrent r (S.text? w) (.opening r d m w) := by
  refine ⟨?_, nofun, rfl⟩
  show S.SparedBySinks (m.enqueue _).sinks
  rw [Emitter.sinks_enqueue]
  exact hm

variable {m : Emitter σ} {d : Document}

theorem isFiled_opening (hr : r.store = S.store) (hl : r.store.load (r.clock w) w = .ok d) :
    (RunState.opening r d m w).document.IsFiled :=
  RunState.isFiled_opening (isFiled_of_load (hr ▸ hl)) r m w

/-- The state of a run that has gone through all steps. -/
theorem isCurrent_runSteps (hr : r.store = S.store) (hm : S.SparedBySinks m.sinks)
    (hx : S.SparedByCalls r.executor) (hl : r.store.load (r.clock w) w = .ok d)
    (hs : (RunState.opening r d m w).runSteps r Step.all = (.ok (), st)) :
    S.IsCurrent r (S.text? w) { st with document := st.document.setCurrentStep none } := by
  have hst := (isCurrent_opening hm d w).runSteps hr hx _ (isFiled_opening hr hl) hs
  exact ⟨hst.sinks, hst.keeps⟩

/-- A run that reports has saved last when it was closed, or not at all. -/
theorem keeps_of_ok (hr : r.store = S.store) (hm : S.SparedBySinks m.sinks)
    (hx : S.SparedByCalls r.executor) (hl : r.store.load (r.clock w) w = .ok d)
    {summary : RunSummary} (hok : (r.run m w).result = .ok summary) :
    Keeps r (S.text? w) (r.run m w).trace (S.text? (r.run m w).world) := by
  obtain ⟨st, st', hs, hc, hrun, -⟩ := RunSetup.run_of_ok hl hok
  have hst := isCurrent_runSteps hr hm hx hl hs
  have hclosed : Keeps r (S.text? w) st'.trace (S.text? st'.world) := by
    rcases RunState.close_cases hc with ⟨-, hsave⟩ | ⟨-, -, rfl⟩
    · exact (hst.save hr hsave).keeps
    · exact hst.keeps
  rw [hrun]
  exact hclosed.append rfl

/-- At every moment of a run the store has taken all that was saved, and the document that was
saved last is on disk. -/
theorem keeps_of_moment (hr : r.store = S.store) (hm : S.SparedBySinks m.sinks)
    (hx : S.SparedByCalls r.executor) {w' : σ} (h : r.Moment m w l w') :
    Keeps r (S.text? w) l (S.text? w') := by
  cases h with
  | start => exact ⟨nofun, rfl⟩
  | steps hl h => exact (isCurrent_opening hm _ w).stepsMoment hr hx (isFiled_opening hr hl) h
  | closing hl hs _ h => exact (isCurrent_runSteps hr hm hx hl hs).saveMoment hr h
  | «over» hl hok => exact keeps_of_ok hr hm hx hl hok

end Site

/-! ## What every history keeps -/

/-- Whether `d` is what is on disk, or would be read if nothing is there. -/
def Document.IsOn (d : Document) : Option String → Prop
  | none => ∃ now, d = .empty now
  | some t => t = d.text

theorem Entity.ReadsBack.sameProgress {e e' : Entity} (h : e.ReadsBack e') :
    Entity.SameProgress e e' :=
  ⟨⟨h.id.symm, h.currentStep.symm, fun s => (h.step s).status.symm,
    fun s => (h.step s).attempts.symm⟩, h.status.symm⟩

theorem Entity.SameProgress.symm {e e' : Entity} (h : Entity.SameProgress e e') :
    Entity.SameProgress e' e :=
  ⟨⟨h.id.symm, h.currentStep.symm, fun s => (h.stepStatus s).symm, fun s => (h.attempts s).symm⟩,
    h.status.symm⟩

theorem Document.ReadsBack.sameProgress {d d' : Document} (h : d.ReadsBack d') :
    d.Related Entity.SameProgress d' :=
  h.related.mono Entity.ReadsBack.sameProgress

/-- What single episodes keep of the document and of what has happened to it so far. -/
structure Site.IsKept {σ : Type} (S : Site σ) (P : List Episode → Document → Prop) : Prop where
  empty (now : Timestamp) : P [] (.empty now)
  same {h : List Episode} {d d' : Document} (hs : d.Related Entity.SameProgress d') (hp : P h d) :
    P h d'
  /-- An operation that changes nothing, or cannot be saved. -/
  unchanged {h : List Episode} {d : Document} (op : Operation) {result : Except Error Report}
    (hr : ∀ report, result = .ok report → report.entities = []) (hp : P h d) :
    P (h ++ [.operation op result]) d
  changed {h : List Episode} {d : Document} {op : Operation} {now : Timestamp} {c : Change}
    (hf : d.IsFiled) (hm : op.Makes now d c) (hp : P h d) :
    P (h ++ [.operation op (.ok c.report)]) c.document
  /-- A run that finds nothing that it can read. -/
  unloaded {h : List Episode} {d : Document} (hp : P h d) : P (h ++ [.run []]) d
  run {h : List Episode} {d : Document} (r : RunSetup σ) (m : Emitter σ) (w : σ)
    {seen rest : List RunEvent} (hl : r.store.load (r.clock w) w = .ok d) (hf : d.IsFiled)
    (ht : (r.run m w).trace = seen ++ rest) (hp : P h d) :
    P (h ++ [.run (RunEvent.calls seen)]) ((RunEvent.lastSaved seen).getD d)

namespace Site

variable {σ : Type} {S : Site σ}

theorem related_of_load {now : Timestamp} {w : σ} {d d' : Document} (hd : d.IsOn (S.text? w))
    (hl : S.store.load now w = .ok d') : d.Related Entity.SameProgress d' := by
  rcases S.load_ok hl with ⟨hw, rfl⟩ | ⟨t, hw, ht, -⟩
  · rw [hw] at hd
    obtain ⟨now', rfl⟩ := hd
    exact fun id => .none
  · rw [hw] at hd
    obtain rfl := hd
    exact (Document.readsBack_of_ofText ht).sameProgress

theorem related_stamp (now : Timestamp) (d : Document) :
    d.Related Entity.SameProgress (d.stamp now) :=
  .refl Entity.SameProgress.refl d

/-- After the saves of a run, the document saved last is on disk, or the one before. -/
theorem isOn_of_leaves {before after : Option String} {events : List RunEvent}
    (h : Leaves before events after) {d d' : Document} (hd : d.IsOn before)
    (hs : d.Related Entity.SameProgress d') :
    ∃ d₁, d₁.IsOn after ∧
      ((RunEvent.lastSaved events).getD d').Related Entity.SameProgress d₁ := by
  unfold Leaves at h
  cases hl : RunEvent.lastSaved events with
  | none =>
    rw [hl] at h
    obtain rfl := h
    exact ⟨d, hd, hs.symm Entity.SameProgress.symm⟩
  | some d₁ =>
    rw [hl] at h
    obtain ⟨now, rfl⟩ := h
    exact ⟨d₁.stamp now, rfl, related_stamp now d₁⟩

theorem IsKept.run_leaves {P : List Episode → Document → Prop} (hk : S.IsKept P)
    {h : List Episode} {r : RunSetup σ} (hr : r.store = S.store) {m : Emitter σ} {w : σ}
    {seen rest : List RunEvent} (ht : (r.run m w).trace = seen ++ rest) {t : Option String}
    (hleaves : Leaves (S.text? w) seen t) {d : Document} (hd : d.IsOn (S.text? w)) (hp : P h d) :
    ∃ d', d'.IsOn t ∧ P (h ++ [.run (RunEvent.calls seen)]) d' := by
  rcases r.run_cases m w with ⟨e, -, hrun⟩ | ⟨d₀, hl, -⟩
  · rw [hrun] at ht
    obtain ⟨rfl, -⟩ := List.append_eq_nil_iff.mp ht.symm
    exact ⟨d, (show t = S.text? w from hleaves) ▸ hd, hk.unloaded hp⟩
  · have hl' := hl
    rw [hr] at hl'
    have hs := related_of_load hd hl'
    obtain ⟨d₁, hd₁, hs₁⟩ := isOn_of_leaves hleaves hd hs
    exact ⟨d₁, hd₁, hk.same hs₁ (hk.run r m w hl (isFiled_of_load hl') ht (hk.same hs hp))⟩

theorem IsKept.and {P Q : List Episode → Document → Prop} (hP : S.IsKept P) (hQ : S.IsKept Q) :
    S.IsKept fun h d => P h d ∧ Q h d where
  empty now := ⟨hP.empty now, hQ.empty now⟩
  same hs hp := ⟨hP.same hs hp.1, hQ.same hs hp.2⟩
  unchanged op _ hr hp := ⟨hP.unchanged op hr hp.1, hQ.unchanged op hr hp.2⟩
  changed hf hm hp := ⟨hP.changed hf hm hp.1, hQ.changed hf hm hp.2⟩
  unloaded hp := ⟨hP.unloaded hp.1, hQ.unloaded hp.2⟩
  run r m w _ _ hl hf ht hp := ⟨hP.run r m w hl hf ht hp.1, hQ.run r m w hl hf ht hp.2⟩

theorem IsKept.perform {P : List Episode → Document → Prop} (hk : S.IsKept P) {h : List Episode}
    (op : Operation) (now : Timestamp) {m : Emitter σ} (hm : S.SparedBySinks m.sinks) {w : σ}
    {d : Document} (hd : d.IsOn (S.text? w)) (hp : P h d) :
    ∃ d', d'.IsOn (S.text? (op.perform S.store now m w).2.2) ∧
      P (h ++ [.operation op (op.perform S.store now m w).1]) d' := by
  generalize hres : op.perform S.store now m w = res
  have ho := op.outcome_perform S.store now m w
  rw [hres] at ho
  cases ho with
  | refused e => exact ⟨d, hd, hk.unchanged op nofun hp⟩
  | idle hl hmk hn =>
    refine ⟨d, hd, hk.unchanged op (fun report hr => ?_) hp⟩
    rw [← Except.ok.inj hr, hn]
  | unsaved hl hmk hs => exact ⟨d, (S.save_error hs).symm ▸ hd, hk.unchanged op nofun hp⟩
  | saved hl hmk hn hs =>
    have hp := hk.changed (isFiled_of_load hl) hmk (hk.same (related_of_load hd hl) hp)
    refine ⟨_, ?_, hk.same (related_stamp now _) hp⟩
    rw [text?_flush_save hm hs]
    rfl

/-- What episodes keep is so of what is on disk after any history. -/
theorem IsKept.history {P : List Episode → Document → Prop} (hk : S.IsKept P) {h : List Episode}
    {t : Option String} (hh : S.History h t) : ∃ d, d.IsOn t ∧ P h d := by
  induction hh with
  | absent => exact ⟨.empty default, ⟨_, rfl⟩, hk.empty _⟩
  | operation op now m w hm _ ih =>
    obtain ⟨d, hd, hp⟩ := ih
    exact hk.perform op now hm hd hp
  | run r m w hr hm hx _ ih =>
    obtain ⟨d, hd, hp⟩ := ih
    obtain ⟨seen, hmoment, hcalls⟩ := r.moment_run m w fun d hl => isFiled_of_load (hr ▸ hl)
    obtain ⟨rest, ht⟩ := hmoment.isPrefix
    rw [hcalls]
    exact hk.run_leaves hr ht.symm (keeps_of_moment hr hm hx hmoment).leaves.leaves hd hp
  | cut r m w hr ht hleaves _ ih =>
    obtain ⟨d, hd, hp⟩ := ih
    exact hk.run_leaves hr ht hleaves hd hp

end Site
/-! ## A history in memory -/

/-- A draft that was just registered, and the record of that. -/
def Entity.registered (now : Timestamp) (id : String) (metadata : Json) : Entity × AuditRecord :=
  (draft now id metadata).emit now .ingested OperationName.registered .null

theorem Operation.perform_register {σ : Type} {store : Store σ} {now : Timestamp} {w : σ}
    {id : String} {d : Document} (hid : Text.isBlankText id = false)
    (hl : store.load now w = .ok d) (hd : d.contains id = false) (metadata : Json)
    (m : Emitter σ) :
    (register id metadata).perform store now m w =
      Change.commit ⟨d.insert id (Entity.registered now id metadata).1,
        [(Entity.registered now id metadata).2], ⟨id ++ " registered", [id], []⟩⟩
        store now m w := by
  have hprepare : (register id metadata).prepare = .ok fun now d => d.register now id metadata := by
    simp only [prepare]
    rw [if_neg (Bool.eq_false_iff.mp hid)]
    rfl
  have hchange : d.register now id metadata =
      .ok ⟨d.insert id (Entity.registered now id metadata).1,
        [(Entity.registered now id metadata).2], ⟨id ++ " registered", [id], []⟩⟩ := by
    simp only [Document.register]
    rw [if_neg (Bool.eq_false_iff.mp hd)]
    rfl
  have hbind : (do let change ← (register id metadata).prepare; change now (← store.load now w) :
      Except Error Change) = d.register now id metadata := by
    rw [hprepare, hl]
    rfl
  simp only [perform, hbind, hchange]

namespace Memory

/-- Runs in memory, with an executor that does nothing and a clock that stands still. -/
def setup : RunSetup Memory where
  store := store
  executor := .passThrough
  clock _ := .ofSeconds 0
  runId := ⟨0⟩
  concurrency := 1
  schedule := Pool.eager

theorem setup_store : setup.store = store := rfl

theorem setup_clock (w : Memory) : setup.clock w = .ofSeconds 0 := rfl

def blank : Memory := ⟨none, [], false⟩

def post : Entity × AuditRecord := Entity.registered (.ofSeconds 0) "post" .null

def tracked : Document := (Document.empty (.ofSeconds 0)).insert "post" post.1

def registered : Memory := { blank with saved? := some tracked }

theorem text?_of_saved? {w : Memory} {d : Document} (h : w.saved? = some d) :
    site.text? w = some d.text :=
  congrArg (Option.map Document.text) h

theorem load_of_ofText {now : Timestamp} {w : Memory} {d d' : Document} (hw : w.saved? = some d)
    (hd : Document.ofText d.text = .ok d') (hc : d'.check = .ok ()) :
    store.load now w = .ok d' := by
  have ht : w.text? = some d.text := text?_of_saved? hw
  simp only [store, ht, hd, hc]

theorem load_blank : store.load (.ofSeconds 0) blank = .ok (.empty (.ofSeconds 0)) := rfl

theorem load_tracked {now : Timestamp} {w : Memory} (hw : w.saved? = some tracked) :
    store.load now w = .ok tracked := by
  refine load_of_ofText hw ?_ (by decide +kernel)
  rw [Document.ofText_text]
  decide +kernel

/-- An entity is registered and goes through all steps in one run. -/
theorem history_run : ∃ t, site.History
    [.operation (.register "post" .null) (.ok ⟨"post registered", ["post"], []⟩),
      .run (Step.all.map fun s => ⟨"post", .null, s⟩)] (some t) := by
  have hsinks : site.SparedBySinks (Emitter.ofSinks []).sinks := fun _ _ => rfl
  have hregistered := Site.History.operation (S := site) (.register "post" .null) (.ofSeconds 0)
    (.ofSinks []) blank hsinks .absent
  have hcalls : RunEvent.calls (setup.run (.ofSinks []) registered).trace =
      Step.all.map fun s => ⟨"post", .null, s⟩ := by
    rw [RunSetup.run, setup_store, setup_clock, load_tracked rfl]
    decide +kernel
  have hsaved : (setup.run (.ofSinks []) registered).world.saved?.isSome := by
    rw [RunSetup.run, setup_store, setup_clock, load_tracked rfl]
    decide +kernel
  obtain ⟨d, hd⟩ := Option.isSome_iff_exists.mp hsaved
  refine ⟨d.text, ?_⟩
  rw [show site.store = store from rfl,
    Operation.perform_register (by decide) load_blank (by decide)] at hregistered
  change site.History _ (site.text? registered) at hregistered
  have hrun := Site.History.run (S := site) setup (.ofSinks []) registered rfl hsinks
    (fun _ _ => rfl) hregistered
  rw [hcalls, text?_of_saved? hd] at hrun
  exact hrun

end Memory
end Publishing
