import Publishing.Proofs.Repetition
import Publishing.Proofs.Sweeps

/-
A retry of all is the retry of each by itself.

Retries of different entities do not meet.  Whether an entity takes a retry, and what becomes of
it then, can be read off the document as it was before any of them.  So it does not matter in
which order they are made, and only the instants that they leave behind tell when.
-/

namespace Publishing

namespace Entity

variable {e e' : Entity} {s : Step}

/-- A retry is for a failed step with attempts left. -/
theorem checkRetry_eq_ok : e.checkRetry s = .ok () ↔
    (e.step s).status = .failed ∧ (e.step s).attempts < maxAttempts := by
  rw [checkRetry, throwIf_eq_ok, not_not, ← StepRecord.hasAttemptsLeft_iff]
  refine and_congr_right fun _ => ?_
  cases (e.step s).hasAttemptsLeft with
  | true => exact iff_of_true rfl rfl
  | false => exact iff_of_false (fun h => by cases h) Bool.false_ne_true

/-- What a retry leaves of an entity, taken or refused. -/
def retried (now : Timestamp) (s : Step) (e : Entity) : Entity :=
  match e.retry now s with
  | .ok p => p.1
  | .error _ => e

theorem retried_of_not_failed (h : (e.step s).status ≠ .failed) (now : Timestamp) :
    e.retried now s = e := by
  have hcheck : ¬e.checkRetry s = .ok () := fun hc => h (checkRetry_eq_ok.mp hc).1
  rw [retried, retry]
  cases hc : e.checkRetry s with
  | error => rfl
  | ok => exact absurd hc hcheck

/-- At which instant it is made does not show in the gist. -/
theorem gist_retried {g : String → String} (h : e'.gist g = e.gist g) (now now' : Timestamp)
    (s : Step) : (e'.retried now' s).gist g = (e.retried now s).gist g := by
  have hretry := agree_retry h now now' s
  rw [retried, retried]
  generalize e.retry now s = x, e'.retry now' s = x' at hretry ⊢
  cases hretry with
  | error => exact h
  | ok hp => exact congrArg Prod.fst hp

end Entity

namespace Document

variable {d : Document} {now : Timestamp} {s : Step} {id : String}

/-- What is told of one retry. -/
def RetryOutcome.of (id : String) : Except Error (Document × AuditRecord) → RetryOutcome
  | .ok _ => ⟨id, none⟩
  | .error refusal => ⟨id, some refusal⟩

theorem id_of (id : String) (x : Except Error (Document × AuditRecord)) :
    (RetryOutcome.of id x).id = id := by cases x <;> rfl

/-- The document that one retry leaves, taken or refused. -/
def afterRetry (now : Timestamp) (s : Step) (id : String) (d : Document) : Document :=
  match d.retry now id s with
  | .ok p => p.1
  | .error _ => d

/-- Single retries one after the other, each at its own instant. -/
def retrySeries (s : Step) : List (String × Timestamp) → Document → Document × List RetryOutcome
  | [], d => (d, [])
  | (id, now) :: rest, d =>
    let (later, outcomes) := retrySeries s rest (d.afterRetry now s id)
    (later, .of id (d.retry now id s) :: outcomes)

/-! ## One retry -/

theorem retry_eq (now : Timestamp) (s : Step) (id : String) (d : Document) :
    d.retry now id s = (d.get id >>= fun e => (e.retry now s).map fun p =>
      (d.replace id p.1, p.2)) := by
  rw [Document.retry]
  cases d.get id with
  | error => rfl
  | ok e =>
    show (e.retry now s >>= _) = (e.retry now s).map _
    cases e.retry now s <;> rfl

/-- A retry changes the entity that it is for, and no other. -/
theorem afterRetry_eq (now : Timestamp) (s : Step) (id : String) (d : Document) :
    d.afterRetry now s id = d.mapEntities fun k e => if k = id then e.retried now s else e := by
  have hsame : (∀ e, d.find? id = some e → e.retried now s = e) →
      d = d.mapEntities fun k e => if k = id then e.retried now s else e := by
    intro h
    conv_lhs => rw [← mapEntities_id d]
    refine mapEntities_congr fun k e he => ?_
    split
    · next hk => exact (h e (hk ▸ he)).symm
    · rfl
  rw [afterRetry, retry_eq]
  cases he : d.find? id with
  | none =>
    rw [get, he]
    exact hsame fun e h => by rw [he] at h; cases h
  | some e =>
    rw [get_eq_ok.mpr he]
    cases hr : e.retry now s with
    | error =>
      simp only [bind, Except.bind, hr, Except.map]
      refine hsame fun e' h => ?_
      obtain rfl := Option.some.inj (he.symm.trans h)
      rw [Entity.retried, hr]
    | ok p =>
      simp only [bind, Except.bind, hr, Except.map]
      refine mapEntities_congr fun k v hv => ?_
      split
      · next hk =>
        obtain rfl := Option.some.inj (he.symm.trans (hk ▸ hv))
        rw [Entity.retried, hr]
      · rfl

theorem find?_afterRetry (now : Timestamp) (s : Step) (id k : String) (d : Document) :
    (d.afterRetry now s id).find? k =
      (d.find? k).map fun e => if k = id then e.retried now s else e := by
  rw [afterRetry_eq, find?_mapEntities]

/-- What is told of a retry is settled by its entity as it was. -/
theorem of_retry_congr {d' : Document} (h : d'.find? id = d.find? id) (now : Timestamp)
    (s : Step) : RetryOutcome.of id (d'.retry now id s) = .of id (d.retry now id s) := by
  rw [retry_eq, retry_eq, get, h, ← get]
  cases d.get id with
  | error => rfl
  | ok e =>
    show RetryOutcome.of id ((e.retry now s).map _) = .of id ((e.retry now s).map _)
    cases e.retry now s <;> rfl

/-- Nor does it say when the retry was made. -/
theorem of_retry_instant (now now' : Timestamp) (s : Step) (id : String) (d : Document) :
    RetryOutcome.of id (d.retry now' id s) = .of id (d.retry now id s) := by
  have hretry := agree_retry (g := fun text => text) (d := d) rfl now now' id s
  generalize d.retry now id s = x, d.retry now' id s = x' at hretry ⊢
  cases hretry <;> rfl

theorem refusal_of_retry {e : Entity} (he : d.find? id = some e)
    (hs : (e.step s).status = .failed) :
    (RetryOutcome.of id (d.retry now id s)).refusal = none ↔ (e.step s).attempts < maxAttempts := by
  have hcheck := Entity.checkRetry_eq_ok (e := e) (s := s)
  rw [retry_eq, get_eq_ok.mpr he]
  show (RetryOutcome.of id ((e.retry now s).map _)).refusal = none ↔ _
  rw [Entity.retry]
  cases hc : e.checkRetry s with
  | error =>
    refine iff_of_false nofun fun hlt => ?_
    rw [hcheck.mpr ⟨hs, hlt⟩] at hc
    cases hc
  | ok => exact iff_of_true rfl (hcheck.mp hc).2

/-! ## Retries in any order -/

/-- A series makes of each of its entities what the retry of it alone does. -/
theorem retrySeries_eq {series : List (String × Timestamp)} (hn : (series.map (·.1)).Nodup)
    (s : Step) (d : Document) : d.retrySeries s series =
      (d.mapEntities fun id e => (series.lookup id).elim e fun now => e.retried now s,
        series.map fun p => .of p.1 (d.retry p.2 p.1 s)) := by
  induction series generalizing d with
  | nil => exact Prod.ext (mapEntities_id d).symm rfl
  | cons p rest ih =>
    obtain ⟨id, now⟩ := p
    obtain ⟨hnew, hrest⟩ := List.nodup_cons.mp hn
    have hnew : ∀ p ∈ rest, p.1 ≠ id := fun p hp h => hnew (List.mem_map.mpr ⟨p, hp, h⟩)
    rw [retrySeries, ih hrest]
    refine Prod.ext ?_ ?_
    · show (d.afterRetry now s id).mapEntities _ = _
      rw [afterRetry_eq, mapEntities_mapEntities]
      refine mapEntities_congr fun k e _ => ?_
      by_cases hk : k = id
      · subst hk
        have hnone : rest.lookup k = none :=
          List.lookup_eq_none_iff.mpr fun p hp => by simpa using (hnew p hp).symm
        rw [hnone, List.lookup_cons_self, if_pos rfl]
        rfl
      · rw [List.lookup_cons, beq_eq_false_iff_ne.mpr hk, if_neg hk]
    · show _ :: _ = _ :: _
      refine congrArg _ (List.map_congr_left fun p hp => of_retry_congr ?_ ..)
      rw [find?_afterRetry, Option.map_congr fun e _ => if_neg (hnew p hp)]
      exact Option.map_id' ..

theorem retryEach_eq_series (now : Timestamp) (s : Step) (ids : List String) (d : Document) :
    ((retryEach now s ids d).1, (retryEach now s ids d).2.2) =
      d.retrySeries s (ids.map fun id => (id, now)) := by
  induction ids generalizing d with
  | nil => rfl
  | cons id rest ih =>
    rw [retryEach, List.map_cons, retrySeries, afterRetry]
    cases d.retry now id s with
    | error => rw [← ih d]; rfl
    | ok p => rw [← ih p.1]; rfl

/-! ## The retry of all -/

theorem mem_failedAt (hf : d.IsFiled) :
    id ∈ d.failedAt s ↔ ∃ e, d.find? id = some e ∧ (e.step s).status = .failed := by
  refine (mem_filter_ids hf).trans (exists_congr fun e => and_congr_right fun _ => ?_)
  exact decide_eq_true_iff

/-- A series for all the failed entities does not say who those are: to the others a retry does
nothing. -/
theorem retrySeries_of_perm (hf : d.IsFiled) {series : List (String × Timestamp)}
    (hp : (series.map (·.1)).Perm (d.failedAt s)) (now : Timestamp) : d.retrySeries s series =
      (d.mapEntities fun id e => e.retried ((series.lookup id).getD now) s,
        (series.map (·.1)).map fun id => .of id (d.retry now id s)) := by
  rw [retrySeries_eq (hp.nodup_iff.mpr (nodup_filter_ids hf _)) s d]
  refine Prod.ext (mapEntities_congr fun id e he => ?_) ?_
  · cases hl : series.lookup id with
    | some at_ => rfl
    | none =>
      have hnot : (e.step s).status ≠ .failed := fun hs => by
        obtain ⟨p, hmem, rfl⟩ :=
          List.mem_map.mp (hp.mem_iff.mpr ((mem_failedAt hf).mpr ⟨e, he, hs⟩))
        exact absurd hl (by rw [List.lookup_eq_none_iff]; exact fun h => by simpa using h p hmem)
      exact (Entity.retried_of_not_failed hnot _).symm
  · rw [List.map_map]
    exact List.map_congr_left fun p _ => of_retry_instant now p.2 s p.1 d

theorem retrySeries_at_once (hf : d.IsFiled) {series : List (String × Timestamp)}
    (hp : (series.map (·.1)).Perm (d.failedAt s)) (hnow : ∀ p ∈ series, p.2 = now) :
    (d.retrySeries s series).1 = d.mapEntities fun _ e => e.retried now s := by
  rw [retrySeries_of_perm hf hp now]
  refine mapEntities_congr fun id e _ => ?_
  cases hl : series.lookup id with
  | none => rfl
  | some at_ =>
    obtain ⟨before, after, rfl, -⟩ := List.lookup_eq_some_iff.mp hl
    have hat : at_ = now := hnow (id, at_) (List.mem_append_right _ List.mem_cons_self)
    rw [Option.getD_some, hat]

theorem retryAll_eq (hf : d.IsFiled) (now : Timestamp) (s : Step) :
    (d.retryAll now s).1 = (d.mapEntities fun _ e => e.retried now s) ∧
      (d.retryAll now s).2.2 = (d.failedAt s).map fun id => .of id (d.retry now id s) := by
  have hids : ((d.failedAt s).map fun id => (id, now)).map (·.1) = d.failedAt s := by
    rw [List.map_map]
    exact List.map_id' ..
  have hnow : ∀ p ∈ (d.failedAt s).map fun id => (id, now), p.2 = now := by
    intro p hp
    obtain ⟨_, -, rfl⟩ := List.mem_map.mp hp
    rfl
  obtain ⟨hdocument, houtcomes⟩ := Prod.mk.inj (retryEach_eq_series now s (d.failedAt s) d)
  refine ⟨hdocument.trans (retrySeries_at_once hf (.of_eq hids) hnow), houtcomes.trans ?_⟩
  rw [retrySeries_of_perm hf (.of_eq hids) now, hids]

/-- What a retry of all of `d` is, made at `now`, that leaves `d'` and these outcomes. -/
structure RetriesEach (d : Document) (now : Timestamp) (s : Step) (d' : Document)
    (outcomes : List RetryOutcome) : Prop where
  /-- There is an outcome for each entity that failed at the step. -/
  asked : ∀ id, id ∈ outcomes.map (·.id) ↔
    ∃ e, d.find? id = some e ∧ (e.step s).status = .failed
  ordered : (outcomes.map (·.id)).Pairwise (· < ·)
  /-- It is what the entity is told when it alone is retried. -/
  alone : ∀ o ∈ outcomes, o = .of o.id (d.retry now o.id s)
  accepted : ∀ o ∈ outcomes, o.refusal = none ↔
    ∃ e, d.find? o.id = some e ∧ (e.step s).attempts < maxAttempts
  taken : ∀ o ∈ outcomes, o.refusal = none →
    ∃ alone record, d.retry now o.id s = .ok (alone, record) ∧ d'.find? o.id = alone.find? o.id
  others : ∀ id, (∀ o ∈ outcomes, o.id = id → o.refusal ≠ none) → d'.find? id = d.find? id
  rest : { d' with entities := d.entities } = d
  /-- Retried one by one, in any order and whenever, they are told and become the same. -/
  inAnyOrder : ∀ series : List (String × Timestamp),
    (series.map (·.1)).Perm (outcomes.map (·.id)) →
      (d.retrySeries s series).2.Perm outcomes ∧
        (d.retrySeries s series).1.gist (fun text => text) = d'.gist fun text => text
  atOnce : ∀ series : List (String × Timestamp),
    (series.map (·.1)).Perm (outcomes.map (·.id)) → (∀ p ∈ series, p.2 = now) →
      (d.retrySeries s series).1 = d'

theorem retriesEach_retryAll (h : d.check = .ok ()) (now : Timestamp) (s : Step) :
    d.RetriesEach now s (d.retryAll now s).1 (d.retryAll now s).2.2 := by
  have hf := isFiled_of_check h
  obtain ⟨hdocument, houtcomes⟩ := retryAll_eq hf now s
  have hids : (d.retryAll now s).2.2.map (·.id) = d.failedAt s := by
    rw [houtcomes, List.map_map]
    exact (List.map_congr_left fun id _ => id_of ..).trans (List.map_id' _)
  have halone : ∀ o ∈ (d.retryAll now s).2.2, o = .of o.id (d.retry now o.id s) := by
    intro o ho
    rw [houtcomes] at ho
    obtain ⟨id, -, rfl⟩ := List.mem_map.mp ho
    rw [id_of]
  have hfailed : ∀ o ∈ (d.retryAll now s).2.2,
      ∃ e, d.find? o.id = some e ∧ (e.step s).status = .failed := fun o ho =>
    (mem_failedAt hf).mp (hids ▸ List.mem_map.mpr ⟨o, ho, rfl⟩)
  have hfind : ∀ id, (d.retryAll now s).1.find? id = (d.afterRetry now s id).find? id := by
    intro id
    rw [hdocument, find?_mapEntities, find?_afterRetry]
    simp only [if_pos]
  exact {
    asked := fun id => by rw [hids, mem_failedAt hf]
    ordered := by rw [hids]; exact pairwise_filter_ids hf _
    alone := halone
    accepted := fun o ho => by
      obtain ⟨e, he, hs⟩ := hfailed o ho
      rw [halone o ho, id_of, refusal_of_retry he hs]
      exact ⟨fun hlt => ⟨e, he, hlt⟩, fun ⟨e', he', hlt⟩ =>
        Option.some.inj (he.symm.trans he') ▸ hlt⟩
    taken := fun o ho hnone => by
      rw [halone o ho] at hnone
      rw [hfind, afterRetry]
      cases hr : d.retry now o.id s with
      | error => rw [hr] at hnone; cases hnone
      | ok p => exact ⟨p.1, p.2, rfl, rfl⟩
    others := fun id hrefused => by
      rw [hfind, afterRetry]
      cases hr : d.retry now id s with
      | error => rfl
      | ok p =>
        obtain ⟨e, e', he, hret, -⟩ := retry_eq_ok hr
        have hmem : id ∈ d.failedAt s :=
          (mem_failedAt hf).mpr ⟨e, he, (Entity.retry_eq_ok hret).1⟩
        refine absurd ?_ (hrefused _ (houtcomes ▸ List.mem_map_of_mem hmem) (id_of ..))
        rw [hr]
        rfl
    rest := by rw [hdocument]; rfl
    inAnyOrder := fun series hp => by
      rw [hids] at hp
      rw [retrySeries_of_perm hf hp now, hdocument, houtcomes]
      exact ⟨hp.map _, gist_mapEntities rfl fun id e e' he => Entity.gist_retried he ..⟩
    atOnce := fun series hp hnow => by
      rw [hids] at hp
      rw [retrySeries_at_once hf hp hnow, hdocument] }

/-- A new entity that failed so often at its first step. -/
def failing (id : String) (attempts : Nat) : Entity :=
  let now : Timestamp := .ofSeconds 0
  (fun e => (e.beginStep now .ingested).failStep now .ingested "no" 1)^[attempts]
    (.draft now id .null)

/-- One entity waits, one failed once, one twice and one as often as it may. -/
def setbacks : Document :=
  ((oneDraft.insert "once" (failing "once" 1)).insert "spent" (failing "spent" 3)).insert "twice"
    (failing "twice" 2)

/-- Two of the three that failed take a retry, and they do so in the opposite order as well. -/
theorem retriesEach_setbacks :
    let (left, _, outcomes) := setbacks.retryAll (.ofSeconds 1) .ingested
    let backwards := setbacks.retrySeries .ingested
      [("twice", .ofSeconds 2), ("spent", .ofSeconds 3), ("once", .ofSeconds 4)]
    setbacks.check = .ok () ∧ setbacks.RetriesEach (.ofSeconds 1) .ingested left outcomes ∧
      outcomes.map (fun o => (o.id, o.refusal.isNone)) =
        [("once", true), ("spent", false), ("twice", true)] ∧
      backwards.2.Perm outcomes ∧
      backwards.1.gist (fun text => text) = left.gist fun text => text := by
  have hcheck : setbacks.check = .ok () := by decide +kernel
  have heach := retriesEach_retryAll hcheck (.ofSeconds 1) .ingested
  exact ⟨hcheck, heach, by decide +kernel, heach.inAnyOrder _ (by decide +kernel)⟩

end Document
end Publishing
