import Publishing.Proofs.Growth
import Publishing.Proofs.Patterns
import Publishing.Proofs.Sweeps

/-
Resets, from what the store holds to what it holds then, and once more.

Four questions are asked of an entity one after the other, and the predicates here are the
answers: whether its filter selects it, whether it failed before the step, whether it holds
anything from the step on, and whether a step before is running.  A reset settles an entity so
that it holds nothing from the step on and has not failed or is running before it.  So whoever was
reset is left alone by the same reset, without a report, and everybody else is asked the same
questions with the same answers.
-/

namespace Publishing

/-- Whether a filter is for an entity: its pattern matches the id, and the status is as asked. -/
def ResetFilter.Matches (filter : ResetFilter) (e : Entity) : Prop :=
  (∀ pattern, filter.pattern = some pattern →
    ∃ r, Glob.compile? pattern = some r ∧ r.isMatch e.id) ∧
  (filter.onlyFailed → e.status = .failed ∨ e.status = .blocked)

theorem ResetFilter.matches_any (e : Entity) : (ResetFilter.mk none false).Matches e := by
  simp [Matches]

theorem EntityStatus.needsAttention_iff {s : EntityStatus} :
    s.needsAttention ↔ s = .failed ∨ s = .blocked := by
  cases s <;> decide

theorem ResetFilter.selects_iff {filter : ResetFilter} {e : Entity} :
    selects (filter.pattern.bind Glob.compile?) filter.onlyFailed e ↔ filter.Matches e := by
  have hstatus : (!filter.onlyFailed || e.status.needsAttention) ↔
      (filter.onlyFailed → e.status = .failed ∨ e.status = .blocked) := by
    rw [← EntityStatus.needsAttention_iff]
    cases filter.onlyFailed <;> simp
  unfold selects Matches
  rw [Bool.and_eq_true, hstatus]
  refine and_congr_left fun _ => ?_
  cases filter.pattern with
  | none => exact iff_of_true rfl nofun
  | some pattern =>
    rw [Option.bind_some, Glob.compile?_eq]
    refine ⟨fun h p hp => ?_, fun h => ?_⟩
    · obtain rfl := Option.some.inj hp
      exact ⟨_, Glob.compile?_eq pattern, h⟩
    · obtain ⟨r, hr, hmatch⟩ := h pattern rfl
      rw [Glob.compile?_eq] at hr
      obtain rfl := Option.some.inj hr
      exact hmatch

/-- No filter is refused: every pattern has an expression. -/
theorem Operation.prepare_reset {step : String} {s : Step} (hs : Step.ofName? step = some s)
    (filter : ResetFilter) : (reset step filter).prepare = .ok fun now d =>
      .ok (d.reset now s (filter.pattern.bind Glob.compile?) filter.onlyFailed) := by
  obtain ⟨pattern, onlyFailed⟩ := filter
  cases pattern with
  | none =>
    simp only [prepare, readStep, hs]
    rfl
  | some pattern =>
    simp only [prepare, readStep, hs, Glob.compile?_eq, Option.bind_some]
    rfl

namespace Entity

variable {e e' : Entity} {s k : Step} {now : Timestamp}

/-- Whether `k`, the first unfinished step, has failed and lies before `s`. -/
def FailedBefore (s k : Step) (e : Entity) : Prop :=
  k < s ∧ (e.step k).status = .failed ∧ ∀ a, a < k → (e.step a).status.isDone

def RunsBefore (s k : Step) (e : Entity) : Prop := k < s ∧ (e.step k).status = .running

/-- Whether some step from `s` on is not as it is before its first attempt. -/
def HoldsFrom (s : Step) (e : Entity) : Prop :=
  ∃ a, s ≤ a ∧ ((e.step a).status ≠ .pending ∨ 0 < (e.step a).attempts ∨ (e.step a).error ≠ none)

/-- Whether an entity is one that a reset from `s` changes, if its filter selects it. -/
structure TakesReset (s : Step) (e : Entity) : Prop where
  unfailed : ∀ k, ¬ e.FailedBefore s k
  idle : ∀ k, ¬ e.RunsBefore s k
  holds : e.HoldsFrom s

/-- Whether an entity is one that a reset from `s` reports as left alone, if its filter selects it,
and why. -/
def EvadesReset (s : Step) (e : Entity) (reason : SkipReason) : Prop :=
  (∃ k, e.FailedBefore s k ∧ reason = .failedBefore k s) ∨
    (∀ k, ¬ e.FailedBefore s k) ∧ e.HoldsFrom s ∧ ∃ k, e.RunsBefore s k ∧ reason = .running k

theorem failedBefore?_eq_some : e.failedBefore? s = some k ↔ e.FailedBefore s k := by
  simp only [failedBefore?, Option.filter_eq_some_iff, Bool.and_eq_true, decide_eq_true_eq]
  constructor
  · rintro ⟨hopen, hlt, hfailed⟩
    exact ⟨hlt, hfailed, fun a ha => isDone_of_lt_firstOpenStep? hopen ha⟩
  · rintro ⟨hlt, hfailed, hbefore⟩
    exact ⟨firstOpenStep?_eq_some (by rw [hfailed]; rfl) hbefore, hlt, hfailed⟩

theorem failedBefore?_eq_none : e.failedBefore? s = none ↔ ∀ k, ¬ e.FailedBefore s k := by
  simp only [Option.eq_none_iff_forall_ne_some, ne_eq, failedBefore?_eq_some]

theorem needsReset_iff : e.needsReset s ↔ e.HoldsFrom s := by
  simp only [needsReset, List.any_eq_true, Step.mem_onward, Bool.or_eq_true, decide_eq_true_eq,
    Option.isSome_iff_ne_none, or_assoc, HoldsFrom]

theorem IsValid.runsBefore_iff (h : e.IsValid) :
    e.runningStep?.filter (· < s) = some k ↔ e.RunsBefore s k := by
  simp only [Option.filter_eq_some_iff, decide_eq_true_eq]
  constructor
  · rintro ⟨hr, hlt⟩
    exact ⟨hlt, runningStep?_spec hr⟩
  · rintro ⟨hlt, hk⟩
    cases hr : e.runningStep? with
    | none => exact absurd hk (runningStep?_eq_none.mp hr k)
    | some r => exact ⟨congrArg some (h.running_unique r k (runningStep?_spec hr) hk), hlt⟩

/-- What a reset makes of a selected entity, by the answers to the three questions. -/
theorem IsValid.resetVerdict_cases (h : e.IsValid) (now : Timestamp) (s : Step) :
    (∃ k, e.FailedBefore s k ∧ e.resetVerdict now s = .skipped (.failedBefore k s)) ∨
    (∀ k, ¬ e.FailedBefore s k) ∧
      (¬ e.HoldsFrom s ∧ e.resetVerdict now s = .untouched ∨
        e.HoldsFrom s ∧
          ((∃ k, e.RunsBefore s k ∧ e.resetVerdict now s = .skipped (.running k)) ∨
            (∀ k, ¬ e.RunsBefore s k) ∧
              e.resetVerdict now s = .changed (e.reset now s).1 [(e.reset now s).2])) := by
  unfold resetVerdict
  cases hf : e.failedBefore? s with
  | some k => exact Or.inl ⟨k, failedBefore?_eq_some.mp hf, rfl⟩
  | none =>
    refine Or.inr ⟨failedBefore?_eq_none.mp hf, ?_⟩
    dsimp only
    by_cases hn : e.needsReset s
    · rw [hn, Bool.not_true, if_neg Bool.false_ne_true]
      refine Or.inr ⟨needsReset_iff.mp hn, ?_⟩
      cases hr : e.runningStep?.filter (· < s) with
      | some k => exact Or.inl ⟨k, h.runsBefore_iff.mp hr, rfl⟩
      | none =>
        refine Or.inr ⟨fun k hk => ?_, rfl⟩
        rw [h.runsBefore_iff.mpr hk] at hr
        cases hr
    · rw [Bool.eq_false_iff.mpr hn, Bool.not_false, if_pos rfl]
      exact Or.inl ⟨mt needsReset_iff.mpr hn, rfl⟩

theorem IsValid.isChanged_resetVerdict (h : e.IsValid) (now : Timestamp) (s : Step) :
    (e.resetVerdict now s).isChanged ↔ e.TakesReset s := by
  rcases h.resetVerdict_cases now s with ⟨k, hk, hv⟩ | ⟨hf, ⟨hn, hv⟩ | ⟨hn, ⟨k, hk, hv⟩ | ⟨hi, hv⟩⟩⟩
  · rw [hv]
    exact iff_of_false Bool.false_ne_true fun ht => ht.unfailed k hk
  · rw [hv]
    exact iff_of_false Bool.false_ne_true fun ht => hn ht.holds
  · rw [hv]
    exact iff_of_false Bool.false_ne_true fun ht => ht.idle k hk
  · rw [hv]
    exact iff_of_true rfl ⟨hf, hi, hn⟩

theorem IsValid.skipReason?_resetVerdict (h : e.IsValid) (now : Timestamp) (s : Step)
    (reason : SkipReason) :
    (e.resetVerdict now s).skipReason? = some reason ↔ e.EvadesReset s reason := by
  have hfirst : ∀ {k k'}, e.FailedBefore s k → e.FailedBefore s k' → k = k' := fun hk hk' =>
    Option.some.inj ((failedBefore?_eq_some.mpr hk).symm.trans (failedBefore?_eq_some.mpr hk'))
  rcases h.resetVerdict_cases now s with ⟨k, hk, hv⟩ | ⟨hf, ⟨hn, hv⟩ | ⟨hn, ⟨k, hk, hv⟩ | ⟨hi, hv⟩⟩⟩
  · rw [hv]
    refine ⟨fun hr => Or.inl ⟨k, hk, (Option.some.inj hr).symm⟩, ?_⟩
    rintro (⟨k', hk', rfl⟩ | ⟨hf, -⟩)
    · rw [hfirst hk hk']
      rfl
    · exact absurd hk (hf k)
  · rw [hv]
    refine iff_of_false nofun ?_
    rintro (⟨k, hk, -⟩ | ⟨-, hn', -⟩)
    · exact hf k hk
    · exact hn hn'
  · rw [hv]
    refine ⟨fun hr => Or.inr ⟨hf, hn, k, hk, (Option.some.inj hr).symm⟩, ?_⟩
    rintro (⟨k', hk', -⟩ | ⟨-, -, k', hk', rfl⟩)
    · exact absurd hk' (hf k')
    · rw [h.running_unique k k' hk.2 hk'.2]
      rfl
  · rw [hv]
    refine iff_of_false nofun ?_
    rintro (⟨k, hk, -⟩ | ⟨-, -, k, hk, -⟩)
    · exact hf k hk
    · exact hi k hk

/-! ## What a reset makes of an entity -/

/-- What a reset from `s` makes of an entity. -/
structure ResetFrom (now : Timestamp) (s : Step) (e e' : Entity) : Prop where
  before : ∀ a, a < s → e'.step a = e.step a
  first : e'.step s = { e.step s with
      status := .pending
      attempts := 0
      startedAt := none
      completedAt := none
      durationMs := none
      error := none
      checkpoints := (e.step s).checkpoints ++
        [⟨OperationName.stepReset, now, .ofMembers
          [("previousStatus", (e.step s).status.toJson),
            ("previousAttempts", .nat (e.step s).attempts)]⟩] }
  after : ∀ a, s < a → e'.step a = { e.step a with
      status := .pending
      attempts := 0
      startedAt := none
      completedAt := none
      durationMs := none
      error := none }
  open_current : (e'.step e'.currentStep).status.isDone = false
  done_before : ∀ a, a < e'.currentStep → (e'.step a).status.isDone
  ready : (∃ a, (e'.step a).status.isDone) → e'.status = .ready
  draft : (∀ a, (e'.step a).status.isDone = false) → e'.status = .draft
  updatedAt : e'.updatedAt = now
  id : e'.id = e.id
  metadata : e'.metadata = e.metadata
  errors : e'.errors = e.errors
  createdAt : e'.createdAt = e.createdAt

/-- Without a failed or running step before the one that is reset, the first step that is open
then is pending. -/
theorem exists_front_clearFrom (hf : ∀ k, ¬ e.FailedBefore s k) (hi : ∀ k, ¬ e.RunsBefore s k) :
    ∃ k, (e.clearFrom s).firstOpenStep? = some k ∧
      ((e.clearFrom s).step k).status = .pending := by
  have hcleared : ((e.clearFrom s).step s).status = .pending := by
    rw [step_clearFrom, if_pos s.le_refl]
    rfl
  cases hk : (e.clearFrom s).firstOpenStep? with
  | none =>
    have hdone := firstOpenStep?_eq_none.mp hk s
    rw [hcleared] at hdone
    cases hdone
  | some k =>
    refine ⟨k, rfl, ?_⟩
    have hopen : ((e.clearFrom s).step k).status.isDone = false := by
      simpa using List.find?_some hk
    have hbefore := fun a => isDone_of_lt_firstOpenStep? (s := a) hk
    by_cases hle : s ≤ k
    · rw [step_clearFrom, if_pos hle]
      rfl
    -- what is before `s` is as it was
    have hlt : k < s := Nat.not_le.mp hle
    have hsame : ∀ a, a ≤ k → (e.clearFrom s).step a = e.step a := fun a ha => by
      have has : a < s := Nat.lt_of_le_of_lt ha hlt
      rw [step_clearFrom, if_neg (Step.not_le_of_lt has)]
    rw [hsame k k.le_refl] at hopen ⊢
    cases hs : (e.step k).status with
    | pending => rfl
    | running => exact absurd ⟨hlt, hs⟩ (hi k)
    | failed =>
      refine absurd ⟨hlt, hs, fun a ha => ?_⟩ (hf k)
      have hdone := hbefore a ha
      rwa [hsame a (Step.le_of_lt ha)] at hdone
    | completed | skipped =>
      rw [hs] at hopen
      cases hopen

theorem resetFrom_reset (now : Timestamp) (hf : ∀ k, ¬ e.FailedBefore s k)
    (hi : ∀ k, ¬ e.RunsBefore s k) : e.ResetFrom now s (e.reset now s).1 := by
  obtain ⟨k, hk, hpending⟩ := exists_front_clearFrom hf hi
  have hopen : ((e.clearFrom s).step k).status.isDone = false := by
    rw [hpending]
    rfl
  have hsettle : (e.clearFrom s).settle.currentStep = k ∧ (e.clearFrom s).settle.status =
      if Step.all.any fun a => ((e.clearFrom s).step a).status.isDone then .ready else .draft := by
    rw [settle, hk]
    exact ⟨rfl, by simp only [statusAt, hpending]⟩
  have hsame := step_reset now s e
  have hstep : ∀ a, ((e.reset now s).1.step a).status = ((e.clearFrom s).step a).status := by
    intro a
    rw [hsame.stepStatus, step_settle]
  have hcurrent := hsame.currentStep.trans hsettle.1
  have hcoarse := hsame.status.trans hsettle.2
  have hrecord : ∀ a, (e.reset now s).1.step a =
      if a = s then ((e.clearFrom s).step a).note ⟨OperationName.stepReset, now, .ofMembers
        [("previousStatus", (e.step s).status.toJson),
          ("previousAttempts", .nat (e.step s).attempts)]⟩
      else (e.clearFrom s).step a := by
    intro a
    have h := step_emit now s OperationName.stepReset (.ofMembers
      [("previousStatus", (e.step s).status.toJson),
        ("previousAttempts", .nat (e.step s).attempts)]) ((e.clearFrom s).settle.touch now) a
    have htouch : ((e.clearFrom s).settle.touch now).step a = (e.clearFrom s).step a :=
      step_settle _ a
    rw [htouch] at h
    exact h
  constructor
  case before =>
    intro a ha
    rw [hrecord, if_neg (Step.ne_of_lt ha), step_clearFrom, if_neg (Step.not_le_of_lt ha)]
  case first =>
    rw [hrecord, if_pos rfl, step_clearFrom, if_pos s.le_refl]
    rfl
  case after =>
    intro a ha
    rw [hrecord, if_neg (Step.ne_of_lt ha).symm, step_clearFrom, if_pos (Step.le_of_lt ha)]
    rfl
  case open_current => rw [hcurrent, hstep, hopen]
  case done_before =>
    intro a ha
    rw [hstep]
    exact isDone_of_lt_firstOpenStep? hk (hcurrent ▸ ha)
  case ready =>
    rintro ⟨a, ha⟩
    rw [hstep] at ha
    rw [hcoarse, if_pos (List.any_eq_true.mpr ⟨a, Step.mem_all a, ha⟩)]
  case draft =>
    intro hnone
    rw [hcoarse, if_neg]
    intro hany
    obtain ⟨a, -, ha⟩ := List.any_eq_true.mp hany
    rw [← hstep, hnone a] at ha
    cases ha
  case updatedAt => rfl
  case id => exact hsame.id.trans (id_settle _)
  case metadata => exact (fields_settle (e.clearFrom s)).1
  case errors => exact (fields_settle (e.clearFrom s)).2.2
  case createdAt => exact (fields_settle (e.clearFrom s)).2.1

/-- After a reset nothing from the step on asks for another. -/
theorem ResetFrom.not_holdsFrom (h : e.ResetFrom now s e') : ¬ e'.HoldsFrom s := by
  rintro ⟨a, ha, hheld⟩
  rcases Step.le_iff_eq_or_lt.mp ha with rfl | hlt
  · rw [h.first] at hheld
    simp at hheld
  · rw [h.after a hlt] at hheld
    simp at hheld

theorem ResetFrom.failedBefore (h : e.ResetFrom now s e') (hk : e'.FailedBefore s k) :
    e.FailedBefore s k := by
  obtain ⟨hlt, hfailed, hdone⟩ := hk
  rw [h.before k hlt] at hfailed
  refine ⟨hlt, hfailed, fun a ha => ?_⟩
  rw [← h.before a (Step.lt_trans ha hlt)]
  exact hdone a ha

/-- What two entities have in common that a reset treats alike. -/
structure SameResults (e e' : Entity) : Prop extends SameProgress e e' where
  error : ∀ s, (e'.step s).error = (e.step s).error

theorem SameResults.refl (e : Entity) : SameResults e e := ⟨.refl e, fun _ => rfl⟩

theorem ReadsBack.sameResults (h : e.ReadsBack e') : SameResults e e' :=
  ⟨h.sameProgress, fun s => (h.step s).error.symm⟩

namespace SameResults

theorem takesReset_iff (h : SameResults e e') : e'.TakesReset s ↔ e.TakesReset s := by
  have hfields : e'.TakesReset s ↔ (∀ k, ¬ e'.FailedBefore s k) ∧ (∀ k, ¬ e'.RunsBefore s k) ∧
      e'.HoldsFrom s := ⟨fun h => ⟨h.1, h.2, h.3⟩, fun h => ⟨h.1, h.2.1, h.2.2⟩⟩
  rw [hfields]
  simp only [FailedBefore, RunsBefore, HoldsFrom, h.stepStatus, h.attempts, h.error]
  exact ⟨fun h => ⟨h.1, h.2.1, h.2.2⟩, fun h => ⟨h.1, h.2, h.3⟩⟩

theorem evadesReset_iff (h : SameResults e e') {reason : SkipReason} :
    e'.EvadesReset s reason ↔ e.EvadesReset s reason := by
  simp only [EvadesReset, FailedBefore, RunsBefore, HoldsFrom, h.stepStatus, h.attempts, h.error]

theorem matches_iff (h : SameResults e e') {filter : ResetFilter} :
    filter.Matches e' ↔ filter.Matches e := by
  simp only [ResetFilter.Matches, h.id, h.status]

end SameResults

/-- Whether a reset treats `e'` as it should treat what has become of `e` by it: `e'` is not reset
again, and is reported if `e` was. -/
structure IsResetBy (filter : ResetFilter) (s : Step) (e e' : Entity) : Prop where
  settled : ¬ (filter.Matches e' ∧ e'.TakesReset s)
  reported : ∀ reason, filter.Matches e' ∧ e'.EvadesReset s reason ↔
    filter.Matches e ∧ e.EvadesReset s reason

theorem IsResetBy.congr {filter : ResetFilter} {e'' : Entity} (h : e.IsResetBy filter s e')
    (hs : SameResults e' e'') : e.IsResetBy filter s e'' where
  settled := by
    rw [hs.matches_iff, hs.takesReset_iff]
    exact h.settled
  reported reason := by
    rw [hs.matches_iff, hs.evadesReset_iff]
    exact h.reported reason

theorem TakesReset.not_evadesReset (h : e.TakesReset s) (reason : SkipReason) :
    ¬ e.EvadesReset s reason := by
  rintro (⟨k, hk, -⟩ | ⟨-, -, k, hk, -⟩)
  · exact h.unfailed k hk
  · exact h.idle k hk

theorem ResetFrom.isResetBy {filter : ResetFilter} (h : e.ResetFrom now s e')
    (he : e.TakesReset s) : e.IsResetBy filter s e' where
  settled hagain := h.not_holdsFrom hagain.2.holds
  reported reason := by
    refine iff_of_false ?_ fun hr => he.not_evadesReset reason hr.2
    rintro ⟨-, ⟨k, hk, -⟩ | ⟨-, hheld, -⟩⟩
    · exact he.unfailed k (h.failedBefore hk)
    · exact h.not_holdsFrom hheld

end Entity

namespace Document

variable {d : Document} {now : Timestamp} {s : Step} {filter : ResetFilter} {c : Change}

/-- A reset alters whom its filter selects and the questions leave over. -/
theorem alters_reset (hd : d.check = .ok ())
    (hc : d.reset now s (filter.pattern.bind Glob.compile?) filter.onlyFailed = c) :
    c.Alters d (fun e => filter.Matches e ∧ e.TakesReset s) (Entity.ResetFrom now s) := by
  obtain ⟨-, hf, hv⟩ := check_eq_ok_iff.mp hd
  subst hc
  refine alters_sweep hf (fun e hmem => ?_) fun e hmem ⟨hm, ht⟩ => ?_ <;>
    obtain ⟨id, he⟩ := mem_all.mp hmem
  · by_cases hm : filter.Matches e
    · rw [if_pos (ResetFilter.selects_iff.mpr hm), (hv id e he).isChanged_resetVerdict]
      exact ⟨fun ht => ⟨hm, ht⟩, And.right⟩
    · rw [if_neg (mt ResetFilter.selects_iff.mp hm)]
      exact iff_of_false Bool.false_ne_true fun h => hm h.1
  · rw [if_pos (ResetFilter.selects_iff.mpr hm)]
    rcases (hv id e he).resetVerdict_cases now s with
      ⟨k, hk, -⟩ | ⟨-, ⟨hn, -⟩ | ⟨-, ⟨k, hk, -⟩ | ⟨-, hverdict⟩⟩⟩
    · exact absurd hk (ht.unfailed k)
    · exact absurd ht.holds hn
    · exact absurd hk (ht.idle k)
    · rw [hverdict]
      exact Entity.resetFrom_reset now ht.unfailed ht.idle

theorem passesOver_reset (hd : d.check = .ok ())
    (hc : d.reset now s (filter.pattern.bind Glob.compile?) filter.onlyFailed = c) :
    c.PassesOver d fun e reason => filter.Matches e ∧ e.EvadesReset s reason := by
  obtain ⟨-, hf, hv⟩ := check_eq_ok_iff.mp hd
  subst hc
  refine passesOver_sweep hf fun e hmem reason => ?_
  obtain ⟨id, he⟩ := mem_all.mp hmem
  by_cases hm : filter.Matches e
  · rw [if_pos (ResetFilter.selects_iff.mpr hm), (hv id e he).skipReason?_resetVerdict]
    exact ⟨fun hr => ⟨hm, hr⟩, And.right⟩
  · rw [if_neg (mt ResetFilter.selects_iff.mp hm)]
    exact iff_of_false nofun fun h => hm h.1

/-- Whoever was not reset is as before, and whoever was has nothing left to reset. -/
theorem related_isResetBy
    (h : c.Alters d (fun e => filter.Matches e ∧ e.TakesReset s) (Entity.ResetFrom now s)) :
    d.Related (Entity.IsResetBy filter s) c.document := by
  intro id
  cases he : d.find? id with
  | none =>
    rw [h.others id fun hid => ?_, he]
    · exact .none
    · obtain ⟨e, he', -⟩ := (h.named id).mp hid
      rw [he] at he'
      cases he'
  | some e =>
    by_cases ht : filter.Matches e ∧ e.TakesReset s
    · obtain ⟨e', he', hreset⟩ := h.changed id e he ht
      rw [he']
      exact .some (hreset.isResetBy ht.2)
    · rw [h.others id fun hid => ?_, he]
      · exact .some ⟨ht, fun _ => Iff.rfl⟩
      · obtain ⟨e', he', ht'⟩ := (h.named id).mp hid
        obtain rfl := Option.some.inj (he.symm.trans he')
        exact ht ht'

/-- A reset of what is left of a reset changes nobody and reports the same. -/
theorem reset_again {d' : Document} {c' : Change} {now' : Timestamp}
    (hc : c.PassesOver d fun e reason => filter.Matches e ∧ e.EvadesReset s reason)
    (hr : d.Related (Entity.IsResetBy filter s) d') (hd' : d'.check = .ok ())
    (hc' : d'.reset now' s (filter.pattern.bind Glob.compile?) filter.onlyFailed = c') :
    c'.report.entities = [] ∧ c'.report.skipped = c.report.skipped := by
  constructor
  · refine List.eq_nil_iff_forall_not_mem.mpr fun id hid => ?_
    obtain ⟨e', he', ht⟩ := ((alters_reset hd' hc').named id).mp hid
    obtain ⟨e, -, h⟩ := hr.left he'
    exact h.settled ht
  · refine hc.skipped_eq (passesOver_reset hd' hc') fun id reason => ⟨?_, ?_⟩
    · rintro ⟨e', he', hreason⟩
      obtain ⟨e, he, h⟩ := hr.left he'
      exact ⟨e, he, (h.reported reason).mp hreason⟩
    · rintro ⟨e, he, hreason⟩
      obtain ⟨e', he', h⟩ := hr.right he
      exact ⟨e', he', (h.reported reason).mpr hreason⟩

end Document

namespace FileStore

variable {s : FileStore} {now now' : Timestamp} {d d' : Document} {c : Change}

theorem load_congr {fs fs' : FileSystem} (h : fs'.stat s.path = fs.stat s.path) :
    s.load now fs' = s.load now fs := by
  have hcontains : fs'.contains s.path = fs.contains s.path := by
    rw [FileSystem.contains, FileSystem.contains, h]
  have htext : fs'.readText s.path = fs.readText s.path := by
    rw [FileSystem.readText, FileSystem.readText, FileSystem.read, FileSystem.read, h]
  rw [load, load, hcontains, htext]

/-- What can be loaded at one time can be loaded at another. -/
theorem exists_load_again {fs : FileSystem} (hl : s.load now fs = .ok d) (now' : Timestamp) :
    ∃ d', s.load now' fs = .ok d' ∧ d'.entities = d.entities := by
  unfold load at hl ⊢
  by_cases hc : fs.contains s.path
  · simp only [hc, Bool.not_true, Bool.false_eq_true, if_false] at hl ⊢
    exact ⟨d, hl, rfl⟩
  · simp only [hc, Bool.not_false, if_true] at hl ⊢
    exact ⟨_, rfl, by rw [← Except.ok.inj hl]; rfl⟩

theorem fits_of_load {fs : FileSystem} (hnow : now.InRange) (hl : s.load now fs = .ok d) :
    d.Fits (Json.Fits 124) (Json.Fits 120) := by
  rcases load_eq_ok hl with ⟨-, rfl⟩ | ⟨t, -, hd, -⟩
  · exact Document.fits_empty hnow
  · exact Document.fits_of_ofText hd

variable {σ : Type} [HasFiles σ] {m : Emitter σ} {w w' : σ}

/-- What can be loaded after an operation was carried out is what its change has made: as it is, if
nothing was saved, and otherwise as it reads back. -/
theorem exists_load_of_commits {out : Except Error Report × Emitter σ × σ}
    (hl : s.load now (files w) = .ok d) (hc : s.Commits now w c out)
    (hothers : ∀ id, id ∉ c.report.entities → c.document.find? id = d.find? id)
    (hwritable : Document.IsLoadable (some (c.document.stamp now).text)) {report : Report}
    (hok : out.1 = .ok report) (hw' : (files w').stat s.path = (files out.2.2).stat s.path)
    (now' : Timestamp) :
    report = c.report ∧ ∃ d', s.load now' (files w') = .ok d' ∧
      c.document.Related (fun e e' => e' = e ∨ e.ReadsBack e') d' := by
  unfold Commits at hc
  rw [load_congr hw']
  split at hc
  · next hn =>
    obtain ⟨hreport, hworld⟩ := hc
    refine ⟨Except.ok.inj (hok.symm.trans hreport), ?_⟩
    obtain ⟨d', hl', hsame⟩ := exists_load_again hl now'
    refine ⟨d', hworld ▸ hl', fun id => ?_⟩
    rw [hothers id (by rw [hn]; exact List.not_mem_nil), Document.find?, Document.find?, hsame]
    exact Document.Related.refl (fun _ => Or.inl rfl) d id
  · rcases hc with ⟨e, -, herror⟩ | ⟨hreport, hcontent⟩
    · rw [hok] at herror
      cases herror
    · refine ⟨Except.ok.inj (hok.symm.trans hreport), ?_⟩
      obtain ⟨d', hread, hcheck⟩ := hwritable
      exact ⟨d', load_of_read (content?_eq_some.mp hcontent) hread hcheck,
        (Document.readsBack_of_ofText hread).related.mono Or.inr⟩

/-- Whether an operation finds nothing to do as long as the state file is as it is in `w`: it
reports these entities as left alone, and leaves the world as it is. -/
def IsIdle (s : FileStore) (op : Operation) (w : σ) (skipped : List Skipped) : Prop :=
  ∀ (now : Timestamp) (m : Emitter σ) (w' : σ),
    (files w').stat s.path = (files w).stat s.path →
    ∃ report, (op.perform s.store now m w').1 = .ok report ∧ report.entities = [] ∧
      report.skipped = skipped ∧ (op.perform s.store now m w').2.2 = w'

/-- A reset changes exactly the entities that its filter is for, that have not failed and are not
running before the step and that hold something from the step on, and comes to a document that
passes the check.  Once it has gone through, the same reset finds nobody to change and reports the
same entities as left alone. -/
theorem perform_reset (hm : s.SparedBySinks m.sinks) (hl : s.load now (files w) = .ok d)
    {name : String} {step : Step} (hstep : Step.ofName? name = some step) (filter : ResetFilter) :
    ∃ c : Change, s.Commits now w c ((Operation.reset name filter).perform s.store now m w) ∧
      c.Alters d (fun e => filter.Matches e ∧ e.TakesReset step) (Entity.ResetFrom now step) ∧
      c.document.check = .ok () ∧
      (now.InRange → ∀ report,
        ((Operation.reset name filter).perform s.store now m w).1 = .ok report →
          s.IsIdle (.reset name filter)
            ((Operation.reset name filter).perform s.store now m w).2.2 report.skipped) := by
  have hd := check_of_load hl
  have hp := Operation.prepare_reset hstep filter
  have hload : s.store.load now w = .ok d := hl
  let c := d.reset now step (filter.pattern.bind Glob.compile?) filter.onlyFailed
  have halters : c.Alters d _ _ := Document.alters_reset hd rfl
  have hcommits : s.Commits now w c ((Operation.reset name filter).perform s.store now m w) := by
    rw [Operation.perform_eq_commit hp hload rfl]
    exact commits hm c now w
  have hcheck : c.document.check = .ok () :=
    -- a reset acts at no step of its own
    ((Operation.makes hp rfl).check_iff hd).mpr fun _ _ _ _ _ ha => nomatch ha
  refine ⟨c, hcommits, halters, hcheck, fun hnow report hok now' m' w' hw' => ?_⟩
  have hadmits : (Operation.reset name filter).Admits (Json.Fits 124) := trivial
  have hfits : c.document.Fits (Json.Fits 124) (Json.Fits 120) :=
    (fits_of_load hnow hl).change (fun _ => Json.fits_of_isNote_isModest) hnow hadmits hp rfl
  have hwritable := Document.isLoadable_text (hfits.stamp hnow)
    ((Document.check_stamp now c.document).trans hcheck)
  obtain ⟨hreport, d', hl', hread⟩ :=
    exists_load_of_commits hl hcommits halters.others hwritable hok hw' now'
  have hload' : s.store.load now' w' = .ok d' := hl'
  have hsame : c.document.Related Entity.SameResults d' := hread.mono fun h =>
    h.elim (fun heq => heq ▸ .refl _) Entity.ReadsBack.sameResults
  have hreset := (Document.related_isResetBy halters).trans hsame fun h hs => h.congr hs
  let c' := d'.reset now' step (filter.pattern.bind Glob.compile?) filter.onlyFailed
  obtain ⟨hnone, hskipped⟩ : c'.report.entities = [] ∧ c'.report.skipped = c.report.skipped :=
    Document.reset_again (Document.passesOver_reset hd rfl) hreset (check_of_load hl') rfl
  refine ⟨_, ?_, hnone, hskipped.trans (congrArg Report.skipped hreport).symm, ?_⟩ <;>
    rw [Operation.perform_eq_commit hp hload' rfl, Change.commit, hnone] <;> rfl

/-- The second entity of `Memory.interrupted`, as a run has left it. -/
def stuck : Entity :=
  (Entity.draft (.ofSeconds 0) "stuck" .null).beginStep (.ofSeconds 0) .ingested

/-- Of two entities at the first step the one that a run has left at work is reset, and then has
its attempts back. -/
theorem perform_reset_interrupted : ∃ (c : Change) (e : Entity) (report : Report),
    "stuck" ∈ c.report.entities ∧ "post" ∉ c.report.entities ∧
    c.document.find? "stuck" = some e ∧ e.status = .draft ∧ (e.step .ingested).attempts = 0 ∧
    ((Operation.reset "ingested" ⟨some "s*", false⟩).perform atRoot.store (.ofSeconds 0)
      (.ofSinks []) (holding Memory.interrupted)).1 = .ok report ∧
    atRoot.IsIdle (.reset "ingested" ⟨some "s*", false⟩)
      ((Operation.reset "ingested" ⟨some "s*", false⟩).perform atRoot.store (.ofSeconds 0)
        (.ofSinks []) (holding Memory.interrupted)).2.2 report.skipped := by
  have hsinks : atRoot.SparedBySinks (Emitter.ofSinks [] : Emitter FileSystem).sinks :=
    fun _ _ => rfl
  have hstep : Step.ofName? "ingested" = some .ingested := by decide +kernel
  have hnow : (Timestamp.ofSeconds 0).InRange := by decide +kernel
  have hok : ((Operation.reset "ingested" ⟨some "s*", false⟩).perform atRoot.store (.ofSeconds 0)
      (.ofSinks []) (holding Memory.interrupted)).1.isOk := by
    rw [Operation.perform, load_store, load_interrupted]
    decide +kernel
  have hfind : Memory.interrupted.find? "stuck" = some stuck := by decide +kernel
  have hstuck : (ResetFilter.mk (some "s*") false).Matches stuck :=
    ResetFilter.selects_iff.mp (by decide +kernel)
  -- there is no step before the first
  have htakes : stuck.TakesReset .ingested :=
    ⟨fun _ hk => Nat.not_lt_zero _ hk.1, fun _ hk => Nat.not_lt_zero _ hk.1,
      .ingested, Step.le_refl _, Or.inl (by decide +kernel)⟩
  have hpost : Memory.interrupted.find? "post" = some Memory.post.1 := by decide +kernel
  have hpasses : ¬ (ResetFilter.mk (some "s*") false).Matches Memory.post.1 :=
    mt ResetFilter.selects_iff.mpr (by decide +kernel)
  obtain ⟨c, -, ha, -, hidle⟩ := perform_reset (m := .ofSinks []) hsinks
    (load_interrupted (.ofSeconds 0)) hstep ⟨some "s*", false⟩
  obtain ⟨e, he, hreset⟩ := ha.changed "stuck" stuck hfind ⟨hstuck, htakes⟩
  obtain ⟨report, hreport⟩ : ∃ report, ((Operation.reset "ingested" ⟨some "s*", false⟩).perform
      atRoot.store (.ofSeconds 0) (.ofSinks []) (holding Memory.interrupted)).1 = .ok report := by
    revert hok
    rcases (Operation.perform _ _ _ _ _).1 with e | report
    · intro h
      cases h
    · exact fun _ => ⟨report, rfl⟩
  refine ⟨c, e, report, (ha.named "stuck").mpr ⟨stuck, hfind, hstuck, htakes⟩, fun hmem => ?_, he,
    ?_, ?_, hreport, hidle hnow report hreport⟩
  · obtain ⟨e', he', hmatches, -⟩ := (ha.named "post").mp hmem
    obtain rfl := Option.some.inj (hpost.symm.trans he')
    exact hpasses hmatches
  · refine hreset.draft fun k => ?_
    rcases Step.le_iff_eq_or_lt.mp (show Step.ingested ≤ k from Nat.zero_le _) with rfl | hk
    · rw [hreset.first]
      rfl
    · rw [hreset.after k hk]
      rfl
  · rw [hreset.first]

end FileStore
end Publishing
