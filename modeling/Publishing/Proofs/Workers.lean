import Publishing.Proofs.Moments

/-
The workers of a pool, in any schedule.

A schedule chooses among the moves that are possible, and a call can start only while there is
a permit.  So however it chooses, the calls that have begun are those that have ended and no
more than a permit's worth of others, and when the pool is drained each call has begun and
ended once.
-/

namespace Publishing

/-- The call that ends with the event. -/
def PoolEvent.ended? : PoolEvent → Option Call
  | began _ _ => none
  | ended c => some c

namespace Pool

variable {σ : Type} {permits : Nat} {x : Executor σ} {p q : Pool σ} {e : PoolEvent}
  {l : List PoolEvent}

/-- A call starts only while there is a permit for it. -/
theorem Moves.length_active (h : p.Moves permits x e q) (hp : p.active.length ≤ permits) :
    q.active.length ≤ permits := by
  cases h with
  | start _ hfree =>
    rw [List.length_append]
    exact hfree
  | finish _ => exact (List.length_eraseIdx_le ..).trans hp

/-- What begins joins the calls at work, and what ends leaves them. -/
theorem Turns.perm_active (h : p.Turns permits x l q) :
    (l.filterMap PoolEvent.begun? ++ p.active).Perm
      (l.filterMap PoolEvent.ended? ++ q.active) := by
  induction h with
  | rest p => exact .refl _
  | turn move _ ih =>
    cases move with
    | start _ _ =>
      refine .trans ?_ ih
      rw [← List.append_assoc]
      exact (List.perm_append_singleton _ _).symm
    | finish hi =>
      have hcall := (List.getElem_cons_eraseIdx_perm hi).symm
      exact (hcall.append_left _).trans (List.perm_middle.trans (ih.cons _))

/-- At any time the calls at work are those that have begun and have not ended, and there are no
more of them than permits. -/
theorem active_drain (x : Executor σ) (schedule : Schedule) (calls : List Call) (w : σ)
    {seen : List PoolEvent} (h : seen <+: ((ofCalls calls w).drain permits x schedule).2) :
    ∃ active : List Call, (seen.filterMap PoolEvent.begun?).Perm
      (seen.filterMap PoolEvent.ended? ++ active) ∧ active.length ≤ permits := by
  obtain ⟨n, -, rfl⟩ := exists_runFor permits x schedule h
  generalize (fun t => schedule (t + ((ofCalls calls w).work - n))) = remaining
  have hturns := turns_runFor permits x remaining n (ofCalls calls w)
  have hperm := hturns.perm_active
  have hlen := hturns.keep (P := (·.active.length ≤ permits)) (Nat.zero_le permits)
    (·.length_active)
  rw [show (ofCalls calls w).active = [] from rfl, List.append_nil] at hperm
  exact ⟨_, hperm, hlen⟩

/-- In the end each call has begun once and ended once. -/
theorem perm_events_drain (hp : 0 < permits) (x : Executor σ) (schedule : Schedule)
    (calls : List Call) (w : σ) :
    (((ofCalls calls w).drain permits x schedule).2.filterMap PoolEvent.begun?).Perm calls ∧
      (((ofCalls calls w).drain permits x schedule).2.filterMap PoolEvent.ended?).Perm calls := by
  have hwork : ((ofCalls calls w).drain permits x schedule).1.work = 0 :=
    work_runFor hp x schedule (Nat.le_refl _)
  have hturns := turns_runFor permits x schedule (ofCalls calls w).work (ofCalls calls w)
  have hbegun := hturns.perm_waiting
  have hended := hturns.perm_active
  change (_ ++ ((ofCalls calls w).drain permits x schedule).1.waiting).Perm calls at hbegun
  change (_ ++ []).Perm (_ ++ ((ofCalls calls w).drain permits x schedule).1.active) at hended
  unfold work at hwork
  rw [List.length_eq_zero_iff.mp (Nat.eq_zero_of_add_eq_zero_left hwork),
    List.append_nil, List.append_nil] at hended
  have hwaiting : ((ofCalls calls w).drain permits x schedule).1.waiting = [] :=
    List.length_eq_zero_iff.mp (by omega)
  rw [hwaiting, List.append_nil] at hbegun
  exact ⟨hbegun, hended.symm.trans hbegun⟩

end Pool

namespace RunEvent

def ended? : RunEvent → Option Call
  | pool e => e.ended?
  | _ => none

/-- The calls that ended. -/
def endings (l : List RunEvent) : List Call := l.filterMap ended?

@[simp] theorem endings_append (l k : List RunEvent) : endings (l ++ k) = endings l ++ endings k :=
  List.filterMap_append

@[simp] theorem endings_pool (l : List PoolEvent) :
    endings (l.map .pool) = l.filterMap PoolEvent.ended? := by
  simp [endings, List.filterMap_map, Function.comp_def, ended?]

/-- Whether these are the calls that have begun and not ended yet. -/
def AtWork (l : List RunEvent) (active : List Call) : Prop :=
  (calls l).Perm (endings l ++ active)

/-- Whether at no time more than `n` calls are at work. -/
def Within (n : Nat) (l : List RunEvent) : Prop :=
  ∀ seen, seen <+: l → ∃ active, AtWork seen active ∧ active.length ≤ n

variable {n : Nat} {l k : List RunEvent}

theorem within_of_calls_eq_nil (hc : calls l = []) (he : endings l = []) : Within n l := by
  rintro seen ⟨rest, rfl⟩
  rw [calls_append, List.append_eq_nil_iff] at hc
  rw [endings_append, List.append_eq_nil_iff] at he
  refine ⟨[], ?_, Nat.zero_le n⟩
  rw [AtWork, hc.1, he.1]
  exact .refl _

/-- Between batches nothing is at work. -/
theorem Within.append (hl : Within n l) (h : AtWork l []) (hk : Within n k) :
    Within n (l ++ k) := by
  intro seen hseen
  rcases RunState.prefix_append_cases hseen with hseen | ⟨more, hmore, rfl⟩
  · exact hl seen hseen
  · obtain ⟨active, hactive, hlen⟩ := hk more hmore
    refine ⟨active, ?_, hlen⟩
    rw [AtWork, List.append_nil] at h
    rw [AtWork, calls_append, endings_append, List.append_assoc]
    exact h.append hactive

theorem atWork_append (hl : AtWork l []) (hk : AtWork k []) : AtWork (l ++ k) [] := by
  rw [AtWork, List.append_nil] at hl hk ⊢
  rw [calls_append, endings_append]
  exact hl.append hk

variable {σ : Type} {permits : Nat} {x : Executor σ} {schedule : Schedule} {calls : List Call}
  {w : σ}

theorem within_drain :
    Within permits (((Pool.ofCalls calls w).drain permits x schedule).2.map .pool) := by
  intro seen hseen
  obtain ⟨events, hevents, rfl⟩ := List.prefix_map_iff.mp hseen
  obtain ⟨active, hactive, hlen⟩ := Pool.active_drain x schedule calls w hevents
  refine ⟨active, ?_, hlen⟩
  rw [AtWork, calls_pool, endings_pool]
  exact hactive

theorem atWork_drain (hp : 0 < permits) :
    AtWork (((Pool.ofCalls calls w).drain permits x schedule).2.map .pool) [] := by
  obtain ⟨hbegun, hended⟩ := Pool.perm_events_drain hp x schedule calls w
  rw [AtWork, calls_pool, endings_pool, List.append_nil]
  exact hbegun.trans hended.symm

end RunEvent
end Publishing
