import Publishing.Proofs.Sweeps

/-
Skipping to a step, from what the store holds to what it holds then.

Of one entity the operation asks only that it is tracked, has no running step and has attempts
left at the step.  Of all entities it moves those that are behind the step and have no running
one.  The loaded document may hold anything that passes the check, with later steps failed or
running: whoever is moved stands right afterwards.
-/

namespace Publishing

namespace Entity

variable {e : Entity} {s : Step}

/-- What skipping to `s` makes of an entity: the open steps before `s` are skipped over, with a
checkpoint that says so, and from `s` on all steps are pending, with the attempts that they had. -/
structure SkippedTo (now : Timestamp) (s : Step) (e e' : Entity) : Prop where
  done : ∀ a, a < s → (e.step a).status = .completed ∨ (e.step a).status = .skipped →
    e'.step a = e.step a
  skipped : ∀ a, a < s → (e.step a).status ≠ .completed → (e.step a).status ≠ .skipped →
    e'.step a = { e.step a with
      status := .skipped
      error := none
      checkpoints := (e.step a).checkpoints ++
        [⟨OperationName.stepSkipped, now, .object [("skipTo", s.toJson)]⟩] }
  reopened : ∀ a, s ≤ a → e'.step a = { e.step a with
      status := .pending
      startedAt := none
      completedAt := none
      durationMs := none
      error := none }
  currentStep : e'.currentStep = s
  status : e'.status = .ready
  updatedAt : e'.updatedAt = now
  id : e'.id = e.id
  metadata : e'.metadata = e.metadata
  errors : e'.errors = e.errors
  createdAt : e'.createdAt = e.createdAt

theorem skippedTo_skipTo (now : Timestamp) (s : Step) (e : Entity) :
    e.SkippedTo now s (e.skipTo now s) where
  done a ha hd := by rw [step_skipTo, if_pos ha, if_pos (StepStatus.isDone_iff.mpr hd)]
  skipped a ha hc hs := by
    have hopen : ¬ (e.step a).status.isDone := fun hd => (StepStatus.isDone_iff.mp hd).elim hc hs
    rw [step_skipTo, if_pos ha, if_neg hopen]
    rfl
  reopened a ha := by
    rw [step_skipTo, if_neg (Step.not_lt_iff.mpr ha)]
    rfl
  currentStep := rfl
  status := rfl
  updatedAt := rfl
  id := rfl
  metadata := rfl
  errors := rfl
  createdAt := rfl

/-- Whether an entity that is not completed waits before `s`. -/
def IsBehind (s : Step) (e : Entity) : Prop := e.status ≠ .completed ∧ e.currentStep < s

theorem skipVerdict_cases (now : Timestamp) (s : Step) (e : Entity) :
    (¬ e.IsBehind s ∧ e.skipVerdict now s = .untouched) ∨
    (e.IsBehind s ∧ ∃ k, e.runningStep? = some k ∧
      e.skipVerdict now s = .skipped (.running k)) ∨
    (e.IsBehind s ∧ e.runningStep? = none ∧
      e.skipVerdict now s = .changed (e.skipTo now s) (e.skipRecords now s)) := by
  unfold skipVerdict
  by_cases hb : e.IsBehind s
  · have hne : ¬ (e.status = .completed ∨ s ≤ e.currentStep) :=
      not_or.mpr ⟨hb.1, Step.not_le_of_lt hb.2⟩
    rw [if_neg hne]
    cases hr : e.runningStep? with
    | some k => exact Or.inr (Or.inl ⟨hb, k, rfl, rfl⟩)
    | none => exact Or.inr (Or.inr ⟨hb, rfl, rfl⟩)
  · have hout : e.status = .completed ∨ s ≤ e.currentStep := by
      by_contra hne
      obtain ⟨hstatus, hstep⟩ := not_or.mp hne
      exact hb ⟨hstatus, Nat.not_le.mp hstep⟩
    rw [if_pos hout]
    exact Or.inl ⟨hb, rfl⟩

theorem isChanged_skipVerdict (now : Timestamp) (s : Step) (e : Entity) :
    (e.skipVerdict now s).isChanged ↔ e.IsBehind s ∧ ∀ k, (e.step k).status ≠ .running := by
  rw [← runningStep?_eq_none]
  rcases e.skipVerdict_cases now s with ⟨hb, hv⟩ | ⟨hb, k, hk, hv⟩ | ⟨hb, hn, hv⟩
  · rw [hv]
    exact iff_of_false Bool.false_ne_true fun h => hb h.1
  · rw [hv, hk]
    exact iff_of_false Bool.false_ne_true fun h => nomatch h.2
  · rw [hv]
    exact iff_of_true rfl ⟨hb, hn⟩

theorem skipReason?_skipVerdict (he : e.IsValid) (now : Timestamp) (reason : SkipReason) :
    (e.skipVerdict now s).skipReason? = some reason ↔
      e.IsBehind s ∧ ∃ k, (e.step k).status = .running ∧ reason = .running k := by
  rcases e.skipVerdict_cases now s with ⟨hb, hv⟩ | ⟨hb, k, hk, hv⟩ | ⟨hb, hn, hv⟩
  · rw [hv]
    exact iff_of_false nofun fun h => hb h.1
  · have hrunning := runningStep?_spec hk
    rw [hv]
    refine ⟨fun h => ⟨hb, k, hrunning, (Option.some.inj h).symm⟩, ?_⟩
    rintro ⟨-, k', hk', rfl⟩
    rw [he.running_unique k' k hk' hrunning]
    rfl
  · rw [hv]
    exact iff_of_false nofun fun ⟨_, k, hk, _⟩ => runningStep?_eq_none.mp hn k hk

theorem checkSkip_of_running {k : Step} (h : e.runningStep? = some k) (s : Step) :
    e.checkSkip s = .error (.stuckStep e.id k (e.step k).attempts) := by
  rw [checkSkip, h]
  rfl

theorem checkSkip_of_idle (h : e.runningStep? = none) (s : Step) :
    e.checkSkip s = if maxAttempts ≤ (e.step s).attempts
      then .error (.retryLimit e.id s (e.step s).attempts) else .ok () := by
  rw [checkSkip, h]
  by_cases hl : (e.step s).attempts < maxAttempts
  · rw [if_neg (Nat.not_le.mpr hl)]
    simp only [StepRecord.hasAttemptsLeft, hl, decide_true, Bool.not_true]
    rfl
  · rw [if_pos (Nat.not_lt.mp hl)]
    simp only [StepRecord.hasAttemptsLeft, hl, decide_false, Bool.not_false]
    rfl

end Entity

namespace Document

variable {d : Document} {s : Step} {id : String}

/-- Why the entity under `id` is not skipped to `s` by itself.  An entity that is tracked is first
asked for a running step, and then for the attempts that it has left. -/
inductive RefusesSkip (d : Document) (s : Step) (id : String) : Error → Prop
  | unknown (hn : d.find? id = none) : RefusesSkip d s id (.notFound id)
  | running {e : Entity} {k : Step} (he : d.find? id = some e)
      (hk : (e.step k).status = .running) :
      RefusesSkip d s id (.stuckStep id k (e.step k).attempts)
  | exhausted {e : Entity} (he : d.find? id = some e) (hidle : ∀ k, (e.step k).status ≠ .running)
      (hs : maxAttempts ≤ (e.step s).attempts) :
      RefusesSkip d s id (.retryLimit id s (e.step s).attempts)

theorem skipTo_one_cases (hf : d.IsFiled) (now : Timestamp) (s : Step) (id : String) :
    (∃ error, d.RefusesSkip s id error ∧ d.skipTo now s (.one id) = .error error) ∨
    ∃ e, d.find? id = some e ∧ (∀ error, ¬ d.RefusesSkip s id error) ∧
      d.skipTo now s (.one id) = .ok ⟨d.replace id (e.skipTo now s), e.skipRecords now s,
        ⟨id ++ " moved to " ++ s.name, [id], []⟩⟩ := by
  cases he : d.find? id with
  | none => exact Or.inl ⟨_, .unknown he, by simp only [skipTo, get, he]; rfl⟩
  | some e =>
    obtain rfl := hf id e he
    have hskip : d.skipTo now s (.one e.id) = (do
        e.checkSkip s
        return ⟨d.replace e.id (e.skipTo now s), e.skipRecords now s,
          ⟨e.id ++ " moved to " ++ s.name, [e.id], []⟩⟩) := by
      simp only [skipTo, get, he]
      rfl
    rw [hskip]
    cases hr : e.runningStep? with
    | some k =>
      refine Or.inl ⟨_, .running he (Entity.runningStep?_spec hr), ?_⟩
      rw [Entity.checkSkip_of_running hr]
      rfl
    | none =>
      have hidle := Entity.runningStep?_eq_none.mp hr
      rw [Entity.checkSkip_of_idle hr]
      by_cases hs : maxAttempts ≤ (e.step s).attempts
      · rw [if_pos hs]
        exact Or.inl ⟨_, .exhausted he hidle hs, rfl⟩
      · rw [if_neg hs]
        refine Or.inr ⟨e, rfl, fun error herror => ?_, rfl⟩
        cases herror with
        | unknown hn =>
          rw [he] at hn
          cases hn
        | running he' hk =>
          obtain rfl := Option.some.inj (he.symm.trans he')
          exact hidle _ hk
        | exhausted he' _ hs' =>
          obtain rfl := Option.some.inj (he.symm.trans he')
          exact hs hs'

/-- Why a skip is refused.  For all entities it never is. -/
def RefusesSkipTo (d : Document) (s : Step) (error : Error) : Target → Prop
  | .one id => d.RefusesSkip s id error
  | .all => False

theorem skipTo_cases (hf : d.IsFiled) (now : Timestamp) (s : Step) (target : Target) :
    (∃ error, d.RefusesSkipTo s error target ∧ d.skipTo now s target = .error error) ∨
    (∀ error, ¬ d.RefusesSkipTo s error target) ∧ ∃ c, d.skipTo now s target = .ok c := by
  cases target with
  | one id =>
    rcases skipTo_one_cases hf now s id with hrefused | ⟨e, -, hopen, hok⟩
    · exact Or.inl hrefused
    · exact Or.inr ⟨hopen, _, hok⟩
  | all => exact Or.inr ⟨fun _ h => h, _, rfl⟩

end Document

namespace Target

/-- Which entities are skipped to `s`, if the target is not refused. -/
def Moves (s : Step) : Target → Entity → Prop
  | one id, e => e.id = id
  | all, e => e.IsBehind s ∧ ∀ k, (e.step k).status ≠ .running

/-- Which entities are reported as left behind, and why. -/
def LeavesBehind (s : Step) : Target → Entity → SkipReason → Prop
  | one _, _, _ => False
  | all, e, reason => e.IsBehind s ∧ ∃ k, (e.step k).status = .running ∧ reason = .running k

end Target

namespace Document

variable {d : Document} {now : Timestamp} {s : Step} {target : Target} {c : Change}

theorem alters_replace {id : String} {e e' : Entity} {R : Entity → Entity → Prop} (hf : d.IsFiled)
    (he : d.find? id = some e) (hR : R e e') (records : List AuditRecord) (message : String) :
    Change.Alters ⟨d.replace id e', records, ⟨message, [id], []⟩⟩ d (fun e => e.id = id) R where
  named id' := by
    refine List.mem_singleton.trans ⟨?_, fun ⟨v, hv, hid⟩ => (hf id' v hv).symm.trans hid⟩
    rintro rfl
    exact ⟨e, he, hf _ e he⟩
  ordered := List.pairwise_singleton ..
  changed id' v hv hid := by
    obtain rfl := (hf id' v hv).symm.trans hid
    obtain rfl := Option.some.inj (he.symm.trans hv)
    exact ⟨e', by rw [find?_replace, if_pos rfl, he, Option.map_some], hR⟩
  others id' hid := by
    rw [find?_replace, if_neg (mt List.mem_singleton.mpr hid)]
  version := rfl
  global := rfl

/-- A skip that is not refused moves whom its target asks for. -/
theorem alters_skipTo (hf : d.IsFiled) (hc : d.skipTo now s target = .ok c) :
    c.Alters d (target.Moves s) (Entity.SkippedTo now s) := by
  cases target with
  | one id =>
    rcases skipTo_one_cases hf now s id with ⟨error, -, herror⟩ | ⟨e, he, -, hok⟩
    · rw [herror] at hc
      cases hc
    · obtain rfl := Except.ok.inj (hok.symm.trans hc)
      exact alters_replace hf he (e.skippedTo_skipTo now s) _ _
  | all =>
    obtain rfl := Except.ok.inj hc
    refine alters_sweep hf (fun e _ => e.isChanged_skipVerdict now s) fun e _ hm => ?_
    rcases e.skipVerdict_cases now s with ⟨hb, -⟩ | ⟨-, k, hk, -⟩ | ⟨-, -, hv⟩
    · exact absurd hm.1 hb
    · exact absurd (Entity.runningStep?_spec hk) (hm.2 k)
    · rw [hv]
      exact e.skippedTo_skipTo now s

theorem passesOver_skipTo (hd : d.check = .ok ()) (hc : d.skipTo now s target = .ok c) :
    c.PassesOver d (target.LeavesBehind s) := by
  obtain ⟨-, hf, hv⟩ := check_eq_ok_iff.mp hd
  cases target with
  | one id =>
    rcases skipTo_one_cases hf now s id with ⟨error, -, herror⟩ | ⟨e, -, -, hok⟩
    · rw [herror] at hc
      cases hc
    · obtain rfl := Except.ok.inj (hok.symm.trans hc)
      exact ⟨fun x => iff_of_false List.not_mem_nil fun ⟨_, _, h⟩ => h, .nil⟩
  | all =>
    obtain rfl := Except.ok.inj hc
    refine passesOver_sweep hf fun e hmem reason => ?_
    obtain ⟨id, he⟩ := mem_all.mp hmem
    exact Entity.skipReason?_skipVerdict (hv id e he) now reason

end Document

theorem Operation.prepare_skipTo {step : String} {s : Step} (hs : Step.ofName? step = some s)
    (target : Target) :
    (skipTo step target).prepare = .ok fun now d => d.skipTo now s target := by
  simp only [prepare, readStep, hs]
  rfl

namespace FileStore

variable {σ : Type} [HasFiles σ] {s : FileStore} {now : Timestamp} {m : Emitter σ} {w : σ}
  {d : Document}

/-- A skip of one entity is refused for the first of three reasons, and then nothing happens.
Any other skip moves exactly the entities that it is for, names exactly those that it leaves
behind because they have a running step, and comes to a document that passes the check. -/
theorem perform_skipTo (hm : s.SparedBySinks m.sinks) (hl : s.load now (files w) = .ok d)
    {name : String} {step : Step} (hstep : Step.ofName? name = some step) (target : Target) :
    (∃ error, d.RefusesSkipTo step error target ∧
      (Operation.skipTo name target).perform s.store now m w = (.error error, m, w)) ∨
    (∀ error, ¬ d.RefusesSkipTo step error target) ∧
      ∃ c : Change, s.Commits now w c ((Operation.skipTo name target).perform s.store now m w) ∧
        c.Alters d (target.Moves step) (Entity.SkippedTo now step) ∧
        c.PassesOver d (target.LeavesBehind step) ∧ c.document.check = .ok () := by
  have hd := check_of_load hl
  have hf := isFiled_of_load hl
  have hp := Operation.prepare_skipTo hstep target
  have hload : s.store.load now w = .ok d := hl
  rcases d.skipTo_cases hf now step target with ⟨error, hrefused, herror⟩ | ⟨hopen, c, hc⟩
  · exact Or.inl ⟨error, hrefused, Operation.perform_of_refused hp hload herror m⟩
  · refine Or.inr ⟨hopen, c, ?_, Document.alters_skipTo hf hc, Document.passesOver_skipTo hd hc, ?_⟩
    · rw [Operation.perform_eq_commit hp hload hc]
      exact commits hm c now w
    · -- a skip acts at no step of its own
      exact ((Operation.makes hp hc).check_iff hd).mpr fun _ _ _ _ _ ha => nomatch ha

/-- Of two entities at the first step one is moved on, and the other, which a run has left at
work, is reported. -/
theorem perform_skipTo_interrupted : ∃ (c : Change) (e : Entity),
    atRoot.Commits (.ofSeconds 0) (holding Memory.interrupted) c
      ((Operation.skipTo "tested" .all).perform atRoot.store (.ofSeconds 0) (.ofSinks [])
        (holding Memory.interrupted)) ∧
    c.document.find? "post" = some e ∧ e.currentStep = .tested ∧
    (e.step .ingested).status = .skipped ∧ ⟨"stuck", .running .ingested⟩ ∈ c.report.skipped := by
  have hsinks : atRoot.SparedBySinks (Emitter.ofSinks [] : Emitter FileSystem).sinks :=
    fun _ _ => rfl
  have hstep : Step.ofName? "tested" = some .tested := by decide +kernel
  have hpost : Memory.interrupted.find? "post" = some Memory.post.1 := by decide +kernel
  have hmoves : Target.all.Moves .tested Memory.post.1 := by
    refine ⟨⟨by decide +kernel, by decide +kernel⟩, fun k => ?_⟩
    cases k <;> decide +kernel
  obtain ⟨stuck, hstuck, hbehind, hrunning⟩ : ∃ e, Memory.interrupted.find? "stuck" = some e ∧
      e.IsBehind .tested ∧ (e.step .ingested).status = .running :=
    ⟨_, rfl, ⟨by decide +kernel, by decide +kernel⟩, by decide +kernel⟩
  rcases perform_skipTo (m := .ofSinks []) hsinks (load_interrupted _) hstep .all with
    ⟨_, hnever, -⟩ | ⟨-, c, hc, ha, ho, -⟩
  · exact hnever.elim
  obtain ⟨e, he, hskipped⟩ := ha.changed "post" _ hpost hmoves
  refine ⟨c, e, hc, he, hskipped.currentStep, ?_, ?_⟩
  · rw [hskipped.skipped .ingested (by decide) (by decide +kernel) (by decide +kernel)]
  · exact (ho.reported _).mpr ⟨stuck, hstuck, hbehind, .ingested, hrunning, rfl⟩

end FileStore
end Publishing
