import Publishing.Proofs.Setbacks
import Publishing.Proofs.Validity

/-
The account of a run.

A run reports batches, failures and what is stuck, and all three are put together in different
places: the failures in the selection and in the entering of the outcomes, the batches with each
entering, the stuck entities before the first step.  The account says what they come to, given
which calls were made and how they ended.  It is kept leg by leg: whoever is set back is
scheduled nowhere any more, so no later leg changes what is reported of it or reports it again.
-/

namespace Publishing

namespace Entity

/-- Whether an entity that was `e₀` before a run has been blocked by it at `k`, for want of
attempts, and is `e` then. -/
def RefusedAt (k : Step) (e₀ e : Entity) : Prop :=
  (e₀.status ≠ .blocked ∧ e₀.runningStep? = none) ∧ e.status = .blocked ∧ e.currentStep = k ∧
    (e.step k).status = .pending ∧ (e.step k).hasAttemptsLeft = false

instance (k : Step) (e₀ e : Entity) : Decidable (RefusedAt k e₀ e) :=
  inferInstanceAs (Decidable (_ ∧ _))

/-- Whether the failure of a call at `k` is entered in its entity. -/
structure Records (k : Step) (message : String) (e : Entity) : Prop where
  status : e.status.needsAttention
  step : (e.step k).status = .failed
  error : (e.step k).error = some message
  last : ∃ now, e.errors.getLast? = some ⟨k, message, (e.step k).attempts, now⟩

/-- Whether the outcome of a call at `k` is entered in its entity. -/
def Enters (k : Step) (e : Entity) : Outcome → Prop
  | .succeeded _ => (e.step k).status = .completed
  | .failed message => e.Records k message

/-- Whether an entity waits at its current step, with the later ones pending. -/
def IsOnCourse (e : Entity) : Prop :=
  e.isPendingAt e.currentStep ∧ ∀ k, e.currentStep < k → (e.step k).status = .pending

variable {e e' e₀ : Entity} {s k : Step} {runId : RunId} {ended : List (Call × Ending)}

theorem records_attempt {o : Outcome} {message : String} (ho : o = .failed message)
    (hl : (e.step s).hasAttemptsLeft) (u : Turn) :
    (e.attempt o runId u s).Records s message := by
  have hfail : o.isSuccess = false := by rw [ho]; rfl
  refine ⟨?_, ?_, ?_, u.finish, ?_⟩
  · rw [(attempt_of_failure hfail hl u).2]
    split <;> rfl
  · rw [status_attempt, if_pos rfl, hfail]
    rfl
  all_goals
    rw [ho, attempt, fold]
  · rw [step_emit, if_pos rfl, step_failStep, if_pos rfl]
    rfl
  · rw [step_emit, if_pos rfl, step_failStep, if_pos rfl]
    show (_ ++ [_]).getLast? = _
    rw [List.getLast?_concat]
    rfl

theorem enters_attempt (o : Outcome) (hl : (e.step s).hasAttemptsLeft) (u : Turn) :
    (e.attempt o runId u s).Enters s o := by
  cases o with
  | succeeded metrics =>
    rw [Enters, status_attempt, if_pos rfl]
    rfl
  | failed message => exact records_attempt rfl hl u

theorem refusedAt_exhaust (now : Timestamp) : e₀.RefusedAt s (e.exhaust now s).1 ↔
    (e₀.status ≠ .blocked ∧ e₀.runningStep? = none) ∧ e.currentStep = s ∧
      (e.step s).status = .pending ∧ (e.step s).hasAttemptsLeft = false := by
  have hw := sameWork_exhaust now s e
  have hblocked : (e.exhaust now s).1.status = .blocked := rfl
  simp only [RefusedAt, hblocked, true_and, hw.currentStep, hw.stepStatus,
    StepRecord.hasAttemptsLeft, hw.attempts]

/-- Whoever is scheduled nowhere is passed over. -/
theorem GoesOn.eq_of_not_schedulable (h : e.GoesOn runId s ended e')
    (he : e.status.isSchedulable = false) : e' = e := by
  cases h with
  | executed u x hp => exact absurd hp (not_pending_of_not_schedulable he s)
  | blocked now hp => exact absurd hp (not_pending_of_not_schedulable he s)
  | passed => rfl

/-- What has been entered for another step stays. -/
theorem GoesOn.enters (h : e.GoesOn runId s ended e') (hk : k ≠ s) {o : Outcome}
    (ho : e.Enters k o) : e'.Enters k o := by
  cases o with
  | succeeded metrics =>
    cases h with
    | executed u x =>
      rw [Enters, status_attempt, if_neg hk]
      exact ho
    | blocked now =>
      rw [Enters, (sameWork_exhaust now s e).stepStatus]
      exact ho
    | passed => exact ho
  | failed message =>
    rw [h.eq_of_not_schedulable (EntityStatus.not_schedulable_of_needsAttention ho.status)]
    exact ho

/-- An entity that comes to need attention is at the step then. -/
theorem GoesOn.currentStep_of_needsAttention (h : e.GoesOn runId s ended e')
    (hp : e.isPendingAt s) (he' : e'.status.needsAttention) : e'.currentStep = s := by
  cases h with
  | executed u x _ hl =>
    cases hx : x.outcome.isSuccess with
    | true =>
      rw [(attempt_of_success hx u).2] at he'
      split at he' <;> cases he'
    | false => exact (attempt_of_failure hx hl u).1
  | blocked => exact (isPendingAt_iff.mp hp).1
  | passed hn => exact absurd hp hn

/-- What a run that has come through `done`, and has set back `ids`, has made of an entity. -/
structure Comes (done : List Step) (ids : List String) (e₀ e : Entity) : Prop where
  /-- Who was blocked, or is stuck, is blocked, and not for a setback. -/
  stays : e₀.status = .blocked ∨ e₀.runningStep? ≠ none → e.status = .blocked ∧ e.id ∉ ids
  blocked : e.status = .blocked → e₀.status ≠ .blocked → e₀.runningStep? = none →
    e.currentStep ∈ done
  setBack : e.id ∈ ids → e.status.needsAttention
  course : e₀.IsOnCourse →
    e.id ∈ ids ∨ e.status = .completed ∨ e.IsOnCourse ∧ e.currentStep ∉ done

/-- A success brings an entity on its way, or to the end. -/
theorem IsOnCourse.attempt {o : Outcome} (h : e.IsOnCourse) (hs : e.currentStep = s)
    (ho : o.isSuccess) (u : Turn) : (e.attempt o runId u s).status = .completed ∨
      (e.attempt o runId u s).IsOnCourse ∧ s < (e.attempt o runId u s).currentStep := by
  obtain ⟨hcurrent, hstatus⟩ : (e.attempt o runId u s).currentStep = s.next?.getD s ∧
      (e.attempt o runId u s).status = if s.next?.isSome then .ready else .completed :=
    attempt_of_success ho u
  cases hn : s.next? with
  | none =>
    rw [hn] at hstatus
    exact Or.inl hstatus
  | some n =>
    rw [hn] at hcurrent hstatus
    have hpending : ∀ k, s < k → ((e.attempt o runId u s).step k).status = .pending := by
      intro k hk
      rw [status_attempt, if_neg (Step.ne_of_lt hk).symm]
      exact h.2 k (hs.symm ▸ hk)
    have hlt : s < n := (Step.lt_iff_next_le hn n).mpr n.le_refl
    refine Or.inr ⟨⟨isPendingAt_iff.mpr ⟨rfl, ?_, ?_⟩, fun k hk => ?_⟩, ?_⟩
    · rw [hcurrent]
      exact hpending n hlt
    · rw [hstatus]
      rfl
    · rw [hcurrent] at hk
      exact hpending k (Step.lt_trans hlt hk)
    · rw [hcurrent]
      exact hlt

/-- A leg that sets back `new` carries an entity on. -/
theorem Comes.goesOn {done : List Step} {ids new : List String} (h : Comes done ids e₀ e)
    (hgo : e.GoesOn runId s ended e') (hid : e'.id = e.id) (hlater : ∀ k ∈ done, k < s)
    (hnew : e.id ∈ new ↔ e.isPendingAt s ∧ e'.status.needsAttention) :
    Comes (done ++ [s]) (ids ++ new) e₀ e' where
  stays h₀ := by
    obtain ⟨hb, hids⟩ := h.stays h₀
    have hrests : e.status.isSchedulable = false := by rw [hb]; rfl
    rw [hgo.eq_of_not_schedulable hrests, List.mem_append, not_or]
    refine ⟨hb, hids, fun hmem => ?_⟩
    exact not_pending_of_not_schedulable hrests s (hnew.mp hmem).1
  blocked hb' h₀ hr := by
    by_cases hp : e.isPendingAt s
    · have hcurrent := hgo.currentStep_of_needsAttention hp (by rw [hb']; rfl)
      exact List.mem_append_right _ (List.mem_singleton.mpr hcurrent)
    · cases hgo with
      | executed _ _ hp' => exact absurd hp' hp
      | blocked _ hp' => exact absurd hp' hp
      | passed => exact List.mem_append_left _ (h.blocked hb' h₀ hr)
  setBack hmem := by
    rw [hid] at hmem
    rcases List.mem_append.mp hmem with hold | hmem
    · have hneeds := h.setBack hold
      rw [hgo.eq_of_not_schedulable (EntityStatus.not_schedulable_of_needsAttention hneeds)]
      exact hneeds
    · exact (hnew.mp hmem).2
  course h₀ := by
    rw [hid, List.mem_append]
    rcases h.course h₀ with hold | hdone | ⟨hcourse, hcurrent⟩
    · exact Or.inl (Or.inl hold)
    · rw [hgo.eq_of_not_schedulable (by rw [hdone]; rfl)]
      exact Or.inr (Or.inl hdone)
    have hbeyond : ∀ {a : Step}, s < a → a ∉ done ++ [s] := by
      intro a ha hmem
      rcases List.mem_append.mp hmem with hmem | hmem
      · exact Step.lt_irrefl a (Step.lt_trans (hlater a hmem) ha)
      · exact Step.lt_irrefl s (List.mem_singleton.mp hmem ▸ ha)
    cases hgo with
    | executed u x hp hl =>
      have hs := (isPendingAt_iff.mp hp).1
      cases hx : x.outcome.isSuccess with
      | true =>
        rcases hcourse.attempt hs hx u with hdone | ⟨hcourse', hlt⟩
        · exact Or.inr (Or.inl hdone)
        · exact Or.inr (Or.inr ⟨hcourse', hbeyond hlt⟩)
      | false =>
        refine Or.inl (Or.inr (hnew.mpr ⟨hp, ?_⟩))
        rw [(attempt_of_failure hx hl u).2]
        split <;> rfl
    | blocked now hp => exact Or.inl (Or.inr (hnew.mpr ⟨hp, rfl⟩))
    | passed hn =>
      refine Or.inr (Or.inr ⟨hcourse, fun hmem => ?_⟩)
      rcases List.mem_append.mp hmem with hmem | hmem
      · exact hcurrent hmem
      · have hs := List.mem_singleton.mp hmem
        exact hn (hs ▸ hcourse.1)

end Entity

namespace Document

variable {d d' d'' : Document} {s k : Step} {ended : List (Call × Ending)}

/-- Those that a run over `d` has blocked at `k` for want of attempts, as they are reported; `d'` is
what the run has made of `d`. -/
def refusals (k : Step) (d d' : Document) : List Setback :=
  d'.all.filterMap fun e => (d.find? e.id).bind fun e₀ =>
    if e₀.RefusedAt k e then some ⟨e.id, k, (e.step k).attempts, "attempts exhausted"⟩ else none

theorem setback?_eq_some {p : Call × Ending} {f : Setback} : d.setback? p = some f ↔
    ∃ message, p.2.outcome = .failed message ∧
      f = ⟨p.1.entity, p.1.step, d.attempts p.1.entity p.1.step, message⟩ := by
  rw [setback?]
  cases p.2.outcome with
  | succeeded metrics => simp
  | failed message => simp [eq_comm]

theorem pairwise_spent (hf : d.IsFiled) (s : Step) :
    ((d.spent s).map (·.id)).Pairwise (· < ·) :=
  pairwise_filterMap hf fun e x hx => by
    split at hx
    · rw [← Option.some.inj hx]
    · cases hx

theorem mem_spent (hf : d.IsFiled) {f : Setback} : f ∈ d.spent s ↔ ∃ e, d.find? f.id = some e ∧
    (e.isPendingAt s ∧ (e.step s).hasAttemptsLeft = false) ∧
    f = ⟨f.id, s, (e.step s).attempts, "attempts exhausted"⟩ := by
  rw [spent, List.mem_filterMap]
  constructor
  · rintro ⟨e, hmem, hf'⟩
    obtain ⟨id, he⟩ := mem_all.mp hmem
    obtain rfl := hf id e he
    split at hf'
    · next h =>
      obtain rfl := Option.some.inj hf'
      rw [Bool.and_eq_true, Bool.not_eq_true'] at h
      exact ⟨e, he, h, rfl⟩
    · cases hf'
  · rintro ⟨e, he, ⟨hp, hl⟩, hf'⟩
    refine ⟨e, mem_all.mpr ⟨_, he⟩, ?_⟩
    rw [hp, hl, Bool.not_false, Bool.and_self, if_pos rfl, hf', hf _ e he]

theorem pairwise_refusals (hf' : d'.IsFiled) (k : Step) :
    ((d.refusals k d').map (·.id)).Pairwise (· < ·) :=
  pairwise_filterMap hf' fun e x hx => by
    obtain ⟨e₀, -, hx⟩ := Option.bind_eq_some_iff.mp hx
    split at hx
    · rw [← Option.some.inj hx]
    · cases hx

theorem mem_refusals (hf' : d'.IsFiled) {f : Setback} : f ∈ d.refusals k d' ↔
    ∃ e₀ e, d.find? f.id = some e₀ ∧ d'.find? f.id = some e ∧ e₀.RefusedAt k e ∧
      f = ⟨f.id, k, (e.step k).attempts, "attempts exhausted"⟩ := by
  rw [refusals, List.mem_filterMap]
  constructor
  · rintro ⟨e, hmem, h⟩
    obtain ⟨id, he⟩ := mem_all.mp hmem
    obtain rfl := hf' id e he
    obtain ⟨e₀, he₀, h⟩ := Option.bind_eq_some_iff.mp h
    split at h
    · next hrefused =>
      obtain rfl := Option.some.inj h
      exact ⟨e₀, e, he₀, he, hrefused, rfl⟩
    · cases h
  · rintro ⟨e₀, e, he₀, he, hrefused, h⟩
    refine ⟨e, mem_all.mpr ⟨_, he⟩, ?_⟩
    rw [hf' _ e he, he₀, Option.bind_some, if_pos hrefused, h]

end Document

/-! ## Legs -/

namespace RunState

variable {σ : Type} {r : RunSetup σ} {s : Step} {st st' : RunState σ}
  {ended : List (Call × Ending)}

namespace Leg

/-- Each call of a leg has been for an entity that waits, and has ended as it is entered there. -/
theorem executed (h : Leg r s ended st st') (hf : st.document.IsFiled) {p : Call × Ending}
    (hp : p ∈ ended) : p.1.step = s ∧ ∃ e, st.document.find? p.1.entity = some e ∧
      e.isPendingAt s ∧ (e.step s).hasAttemptsLeft ∧
      ∃ u, st'.document.find? p.1.entity = some (e.attempt p.2.outcome r.runId u s) := by
  obtain ⟨rfl, e, he, -, hwaits, hl⟩ := (h.asked p.1).mp (List.mem_map_of_mem hp)
  obtain ⟨e', he', hgo⟩ := h.entities.right he
  refine ⟨rfl, e, he, hwaits, hl, ?_⟩
  cases hgo with
  | executed u x _ _ hcall =>
    have hid : e.id = p.1.entity := hf _ e he
    -- The ids of the calls are distinct, so the call for `e` is `p`.
    have hsame : ((⟨e.id, e.metadata, p.1.step⟩, x) : Call × Ending) = p :=
      List.inj_on_of_nodup_map (h.ordered.imp fun hlt => String.ne_of_lt hlt) hcall hp hid
    have hx : x = p.2 := congrArg Prod.snd hsame
    exact ⟨u, hx ▸ he'⟩
  | blocked _ _ hs => exact absurd hl (Bool.eq_false_iff.mp hs)
  | passed hn => exact absurd hwaits hn

/-- A leg sets back those that waited and need attention now. -/
theorem mem_setbacks (h : Leg r s ended st st') (hf : st.document.IsFiled) {id : String} :
    id ∈ (st.document.spent s ++ ended.filterMap st'.document.setback?).map (·.id) ↔
      ∃ e e', st.document.find? id = some e ∧ st'.document.find? id = some e' ∧
        e.isPendingAt s ∧ e'.status.needsAttention := by
  rw [List.map_append, List.mem_append, List.mem_map, List.mem_map]
  constructor
  · rintro (⟨f, hmem, rfl⟩ | ⟨f, hmem, rfl⟩)
    · obtain ⟨e, he, ⟨hp, hl⟩, -⟩ := (Document.mem_spent hf).mp hmem
      obtain ⟨e', he', hgo⟩ := h.entities.right he
      refine ⟨e, e', he, he', hp, ?_⟩
      cases hgo with
      | executed _ _ _ hleft => exact absurd hleft (Bool.eq_false_iff.mp hl)
      | blocked => rfl
      | passed hn => exact absurd hp hn
    · obtain ⟨p, hp, hset⟩ := List.mem_filterMap.mp hmem
      obtain ⟨message, hx, rfl⟩ := Document.setback?_eq_some.mp hset
      obtain ⟨-, e, he, hpending, hl, u, hu⟩ := h.executed hf hp
      exact ⟨e, _, he, hu, hpending, (Entity.records_attempt hx hl u).status⟩
  · rintro ⟨e, e', he, he', hp, hneeds⟩
    obtain ⟨e'', he'', hgo⟩ := h.entities.right he
    obtain rfl := Option.some.inj (he'.symm.trans he'')
    obtain rfl := hf id e he
    cases hgo with
    | executed u x _ hl hcall =>
      cases hx : x.outcome with
      | succeeded metrics =>
        rw [(Entity.attempt_of_success (by rw [hx]; rfl) u).2] at hneeds
        split at hneeds <;> cases hneeds
      | failed message =>
        exact Or.inr ⟨_, List.mem_filterMap.mpr
          ⟨_, hcall, Document.setback?_eq_some.mpr ⟨message, hx, rfl⟩⟩, rfl⟩
    | blocked _ _ hl =>
      exact Or.inl ⟨⟨e.id, s, _, _⟩, (Document.mem_spent hf).mpr ⟨e, he, ⟨hp, hl⟩, rfl⟩, rfl⟩
    | passed hn => exact absurd hp hn

/-- What a leg makes of each entity, and whether it sets it back. -/
theorem related (h : Leg r s ended st st') (hf : st.document.IsFiled) (hf' : st'.document.IsFiled) :
    st.document.Related (fun e e' => e.GoesOn r.runId s ended e' ∧ e'.id = e.id ∧
      (e.id ∈ (st.document.spent s ++ ended.filterMap st'.document.setback?).map (·.id) ↔
        e.isPendingAt s ∧ e'.status.needsAttention)) st'.document := by
  refine h.entities.mono_of_find? fun id e e' he he' hgo => ⟨hgo, ?_, ?_⟩
  · rw [hf id e he, hf' id e' he']
  · rw [hf id e he, h.mem_setbacks hf]
    simp only [he, he', Option.some.injEq, exists_and_left, exists_eq_left']

/-- Nobody is set back twice by a leg: it executes no one whose attempts are used up. -/
theorem nodup_setbacks (h : Leg r s ended st st') (hf : st.document.IsFiled) :
    ((st.document.spent s ++ ended.filterMap st'.document.setback?).map (·.id)).Nodup := by
  have hends : ((ended.filterMap st'.document.setback?).map (·.id)).Pairwise (· < ·) := by
    refine List.pairwise_map.mpr ((List.pairwise_map.mp h.ordered).filterMap _ ?_)
    rintro p q hlt f hf' g hg
    obtain ⟨_, -, rfl⟩ := Document.setback?_eq_some.mp hf'
    obtain ⟨_, -, rfl⟩ := Document.setback?_eq_some.mp hg
    exact hlt
  rw [List.map_append]
  refine List.nodup_append.mpr ⟨?_, ?_, ?_⟩
  · exact (Document.pairwise_spent hf s).imp String.ne_of_lt
  · exact hends.imp String.ne_of_lt
  · rintro a ha b hb rfl
    obtain ⟨f, hmem, rfl⟩ := List.mem_map.mp ha
    obtain ⟨g, hset, hid⟩ := List.mem_map.mp hb
    obtain ⟨p, hp, hset⟩ := List.mem_filterMap.mp hset
    obtain ⟨_, -, rfl⟩ := Document.setback?_eq_some.mp hset
    obtain ⟨e, he, ⟨-, hspent⟩, -⟩ := (Document.mem_spent hf).mp hmem
    obtain ⟨-, e', he', -, hl, -⟩ := h.executed hf hp
    obtain rfl := Option.some.inj ((hid ▸ he).symm.trans he')
    exact Bool.eq_false_iff.mp hspent hl

/-- Whoever needs attention is as it was after a leg. -/
theorem find?_of_needsAttention (h : Leg r s ended st st') {id : String} {e : Entity}
    (he : st.document.find? id = some e) (hneeds : e.status.needsAttention) :
    st'.document.find? id = some e := by
  obtain ⟨e', he', hgo⟩ := h.entities.right he
  rw [he', hgo.eq_of_not_schedulable (EntityStatus.not_schedulable_of_needsAttention hneeds)]

/-- The outcomes of a leg are entered in their entities. -/
theorem entered (h : Leg r s ended st st') (hf : st.document.IsFiled) {p : Call × Ending}
    (hp : p ∈ ended) :
    ∃ e, st'.document.find? p.1.entity = some e ∧ e.Enters s p.2.outcome := by
  obtain ⟨-, e, -, -, hl, u, hu⟩ := h.executed hf hp
  exact ⟨_, hu, Entity.enters_attempt _ hl u⟩

/-- Whom a leg finds without attempts left is blocked by the run at its step, and no one else
is. -/
theorem spent_eq {d : Document} {done : List Step} {ids : List String}
    (h : Leg r s ended st st') (hf : st.document.IsFiled) (hf' : st'.document.IsFiled)
    (hd : d.Related (Entity.Comes done ids) st.document) (hlater : ∀ k ∈ done, k < s) :
    st.document.spent s = d.refusals s st'.document := by
  refine eq_of_pairwise_ids (Document.pairwise_spent hf s)
    (Document.pairwise_refusals hf' s) fun f => ?_
  rw [Document.mem_spent hf, Document.mem_refusals hf']
  constructor
  · rintro ⟨e, he, ⟨hp, hl⟩, hfeq⟩
    obtain ⟨e₀, he₀, hcomes⟩ := hd.left he
    obtain ⟨e', he', hgo⟩ := h.entities.right he
    obtain ⟨hs, hpending, hschedulable⟩ := Entity.isPendingAt_iff.mp hp
    have hactive : e₀.status ≠ .blocked ∧ e₀.runningStep? = none := by
      by_contra hcon
      have h₀ : e₀.status = .blocked ∨ e₀.runningStep? ≠ none := by tauto
      rw [(hcomes.stays h₀).1] at hschedulable
      cases hschedulable
    cases hgo with
    | executed _ _ _ hleft => exact absurd hleft (Bool.eq_false_iff.mp hl)
    | blocked now =>
      rw [← (Entity.sameWork_exhaust now s e).attempts s] at hfeq
      exact ⟨e₀, _, he₀, he',
        (Entity.refusedAt_exhaust now).mpr ⟨hactive, hs, hpending, hl⟩, hfeq⟩
    | passed hn => exact absurd hp hn
  · rintro ⟨e₀, e', he₀, he', hrefused, hfeq⟩
    obtain ⟨e, he, hgo⟩ := h.entities.left he'
    obtain ⟨e₁, he₁, hcomes⟩ := hd.left he
    obtain rfl := Option.some.inj (he₀.symm.trans he₁)
    cases hgo with
    | executed u x =>
      obtain ⟨-, -, -, hpending, -⟩ := hrefused
      rw [Entity.status_attempt, if_pos rfl] at hpending
      split at hpending <;> cases hpending
    | blocked now hp =>
      rw [(Entity.sameWork_exhaust now s e).attempts s] at hfeq
      exact ⟨e, he, ⟨hp, ((Entity.refusedAt_exhaust now).mp hrefused).2.2.2⟩, hfeq⟩
    | passed =>
      obtain ⟨⟨hb, hr⟩, hblocked, hs, -⟩ := hrefused
      exact absurd (hlater s (hs ▸ hcomes.blocked hblocked hb hr)) (Step.lt_irrefl s)

/-- A leg blocks no one at an earlier step. -/
theorem refusals_eq {k : Step} (h : Leg r s ended st st') (hf : st.document.IsFiled)
    (hf' : st'.document.IsFiled) (d : Document) (hk : k < s) :
    d.refusals k st.document = d.refusals k st'.document := by
  refine eq_of_pairwise_ids (Document.pairwise_refusals hf k)
    (Document.pairwise_refusals hf' k) fun f => ?_
  rw [Document.mem_refusals hf, Document.mem_refusals hf']
  constructor
  · rintro ⟨e₀, e, he₀, he, hrefused, hfeq⟩
    have hneeds : e.status.needsAttention := by
      rw [hrefused.2.1]
      rfl
    exact ⟨e₀, e, he₀, h.find?_of_needsAttention he hneeds, hrefused, hfeq⟩
  · rintro ⟨e₀, e', he₀, he', hrefused, hfeq⟩
    obtain ⟨e, he, hgo⟩ := h.entities.left he'
    refine ⟨e₀, e', he₀, ?_, hrefused, hfeq⟩
    by_cases hp : e.isPendingAt s
    · have hneeds : e'.status.needsAttention := by
        rw [hrefused.2.1]
        rfl
      have hs := hgo.currentStep_of_needsAttention hp hneeds
      exact absurd (hrefused.2.2.1.symm.trans hs) (Step.ne_of_lt hk)
    · cases hgo with
      | executed _ _ hp' => exact absurd hp' hp
      | blocked _ hp' => exact absurd hp' hp
      | passed => exact he

/-- A leg does not change how the earlier failures are reported. -/
theorem setbacks_eq {earlier : List (Call × Ending)} (h : Leg r s ended st st')
    {k : Step} (hentered : ∀ p ∈ earlier,
      ∃ e, st.document.find? p.1.entity = some e ∧ e.Enters k p.2.outcome) :
    earlier.filterMap st.document.setback? = earlier.filterMap st'.document.setback? := by
  refine List.filterMap_congr fun p hp => ?_
  rw [Document.setback?, Document.setback?]
  cases hx : p.2.outcome with
  | succeeded metrics => rfl
  | failed message =>
    obtain ⟨e, he, hrec⟩ := hentered p hp
    rw [hx] at hrec
    have he' := h.find?_of_needsAttention he hrec.status
    dsimp only
    rw [Document.attempts_of_find? he, Document.attempts_of_find? he']

end Leg

/-! ## Runs -/

/-- How a run over `d` stands that has come through `done`, when its calls at each step have ended
like this. -/
structure Ledger (r : RunSetup σ) (d : Document) (ended : Step → List (Call × Ending))
    (done : List Step) (st : RunState σ) : Prop where
  filed : st.document.IsFiled
  entities : d.Related (Entity.Comes done (st.failures.map (·.id))) st.document
  calls : (RunEvent.calls st.trace).Perm (done.flatMap fun k => (ended k).map (·.1))
  ordered : ∀ k ∈ done, ((ended k).map (·.1.entity)).Pairwise (· < ·)
  given : ∀ k ∈ done, ∀ p ∈ ended k, p.1.step = k ∧ ∃ w, (r.executor p.1 w).1 = p.2
  batches : st.batches.map (·.step) = done.filter fun k => !(ended k).isEmpty
  counts : ∀ b ∈ st.batches, b.Counts r.runId b.step (ended b.step)
  history : st.document.global.stepHistory = d.global.stepHistory ++ st.batches
  failures : st.failures = done.flatMap fun k =>
    d.refusals k st.document ++ (ended k).filterMap st.document.setback?
  entered : ∀ k ∈ done, ∀ p ∈ ended k,
    ∃ e, st.document.find? p.1.entity = some e ∧ e.Enters k p.2.outcome
  once : (st.failures.map (·.id)).Nodup
  reports : RunEvent.reports st.trace = st.batches.flatMap fun b => b.reports (ended b.step)

namespace Ledger

variable {d : Document} {ended : Step → List (Call × Ending)} {done : List Step}

theorem failures_leg (h : Ledger r d ended done st) (hleg : Leg r s (ended s) st st')
    (hf' : st'.document.IsFiled) (hlater : ∀ k ∈ done, k < s) :
    st'.failures = (done ++ [s]).flatMap fun k =>
      d.refusals k st'.document ++ (ended k).filterMap st'.document.setback? := by
  have hold : st.failures = done.flatMap fun k =>
      d.refusals k st'.document ++ (ended k).filterMap st'.document.setback? := by
    rw [h.failures]
    refine List.flatMap_congr fun k hk => ?_
    rw [hleg.refusals_eq h.filed hf' d (hlater k hk), hleg.setbacks_eq (h.entered k hk)]
  rw [hleg.failures, hold, hleg.spent_eq h.filed hf' h.entities hlater, List.flatMap_append,
    List.flatMap_singleton]

/-- No later leg sets back whom an earlier one has. -/
theorem once_leg (h : Ledger r d ended done st) (hleg : Leg r s (ended s) st st') :
    (st'.failures.map (·.id)).Nodup := by
  rw [hleg.failures, List.map_append]
  refine List.nodup_append.mpr ⟨h.once, hleg.nodup_setbacks h.filed, ?_⟩
  rintro id hold _ hnew rfl
  obtain ⟨e, -, he, -, hp, -⟩ := (hleg.mem_setbacks h.filed).mp hnew
  obtain ⟨e₀, -, hcomes⟩ := h.entities.left he
  obtain rfl := h.filed id e he
  have hrests := EntityStatus.not_schedulable_of_needsAttention (hcomes.setBack hold)
  exact Entity.not_pending_of_not_schedulable hrests s hp

/-- What a leg adds to the account. -/
theorem leg (h : Ledger r d ended done st) (hleg : Leg r s (ended s) st st')
    (hf' : st'.document.IsFiled) (hlater : ∀ k ∈ done, k < s) :
    Ledger r d ended (done ++ [s]) st' := by
  obtain ⟨entered, events, hcases, hbatches, hhistory, htrace, hperm, hreports⟩ := hleg.batch
  constructor
  case filed => exact hf'
  case entities =>
    rw [hleg.failures, List.map_append]
    refine h.entities.trans (hleg.related h.filed hf') fun hcomes hgo => ?_
    exact hcomes.goesOn hgo.1 hgo.2.1 hlater hgo.2.2
  case calls =>
    rw [htrace, RunEvent.calls_append, List.flatMap_append, List.flatMap_singleton]
    exact h.calls.append hperm
  case ordered =>
    exact List.forall_mem_append.mpr ⟨h.ordered, List.forall_mem_singleton.mpr hleg.ordered⟩
  case given =>
    refine List.forall_mem_append.mpr ⟨h.given, List.forall_mem_singleton.mpr fun p hp => ?_⟩
    exact ⟨(hleg.executed h.filed hp).1, hleg.given p hp⟩
  case batches =>
    rw [hbatches, List.map_append, h.batches, List.filter_append]
    rcases hcases with ⟨hnil, rfl⟩ | ⟨hne, b, rfl, hb⟩
    · simp [hnil]
    · simp [hne, hb.step]
  case counts =>
    rw [hbatches]
    refine List.forall_mem_append.mpr ⟨h.counts, ?_⟩
    rcases hcases with ⟨-, rfl⟩ | ⟨-, b, rfl, hb⟩
    · exact List.forall_mem_nil _
    · exact List.forall_mem_singleton.mpr (hb.step.symm ▸ hb)
  case history => rw [hhistory, h.history, hbatches, List.append_assoc]
  case failures => exact h.failures_leg hleg hf' hlater
  case entered =>
    refine List.forall_mem_append.mpr ⟨fun k hk p hp => ?_,
      List.forall_mem_singleton.mpr fun p hp => hleg.entered h.filed hp⟩
    obtain ⟨e, he, hentered⟩ := h.entered k hk p hp
    obtain ⟨e', he', hgo⟩ := hleg.entities.right he
    exact ⟨e', he', hgo.enters (Step.ne_of_lt (hlater k hk)) hentered⟩
  case once => exact h.once_leg hleg
  case reports =>
    rw [htrace, RunEvent.reports_append, h.reports, hreports, hbatches, List.flatMap_append]
    refine congrArg (_ ++ ·) ?_
    rcases hcases with ⟨-, rfl⟩ | ⟨-, b, rfl, hb⟩
    · rfl
    · rw [List.flatMap_singleton, List.flatMap_singleton, hb.step]

end Ledger

/-- What these steps of a run that goes well do, one leg after the other. -/
inductive Legs (r : RunSetup σ) (ended : Step → List (Call × Ending)) :
    List Step → RunState σ → RunState σ → Prop
  | nil (st : RunState σ) : Legs r ended [] st st
  | cons {s : Step} {rest : List Step} {st st₁ st' : RunState σ} (leg : Leg r s (ended s) st st₁)
      (filed : st₁.document.IsFiled) (legs : Legs r ended rest st₁ st') :
      Legs r ended (s :: rest) st st'

section

variable {ended ended' : Step → List (Call × Ending)} {steps : List Step}

theorem Legs.congr (h : Legs r ended steps st st') (hsame : ∀ s ∈ steps, ended' s = ended s) :
    Legs r ended' steps st st' := by
  induction h with
  | nil st => exact .nil st
  | cons leg filed _ ih =>
    obtain ⟨hs, hrest⟩ := List.forall_mem_cons.mp hsame
    exact .cons (hs.symm ▸ leg) filed (ih hrest)

/-- Steps that go well are legs. -/
theorem exists_legs (hn : steps.Nodup) (hf : st.document.IsFiled)
    (h : st.runSteps r steps = (.ok (), st')) : ∃ ended, Legs r ended steps st st' := by
  induction steps generalizing st with
  | nil =>
    obtain ⟨-, rfl⟩ := Prod.mk.inj h
    exact ⟨fun _ => [], .nil st⟩
  | cons s rest ih =>
    obtain ⟨hs, hrest⟩ := List.nodup_cons.mp hn
    obtain ⟨st₁, hstep, h⟩ := runSteps_cons h
    have hf₁ := isFiled_of_runStep hf hstep
    obtain ⟨first, hleg⟩ := exists_leg hf hstep
    obtain ⟨later, hlegs⟩ := ih hrest hf₁ h
    refine ⟨Function.update later s first, .cons ?_ hf₁ (hlegs.congr fun k hk => ?_)⟩
    · rwa [Function.update_self]
    · have hne : k ≠ s := fun heq => hs (heq ▸ hk)
      exact Function.update_of_ne hne ..

/-- The account goes on through legs in the order of the steps. -/
theorem Ledger.legs {d : Document} {done : List Step} (h : Ledger r d ended done st)
    (hlegs : Legs r ended steps st st') (hn : (done ++ steps).Pairwise (· < ·)) :
    Ledger r d ended (done ++ steps) st' := by
  induction hlegs generalizing done with
  | nil => rwa [List.append_nil]
  | @cons s rest _ _ _ hleg hf₁ _ ih =>
    have hsplit : done ++ s :: rest = (done ++ [s]) ++ rest := by
      rw [List.append_assoc, List.singleton_append]
    have hlater : ∀ k ∈ done, k < s := fun k hk =>
      (List.pairwise_append.mp hn).2.2 k hk s List.mem_cons_self
    rw [hsplit] at hn ⊢
    exact ih (h.leg hleg hf₁ hlater) hn

end
end RunState
end Publishing
