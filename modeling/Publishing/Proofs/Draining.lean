import Mathlib.Data.List.Nodup
import Publishing.Proofs.Trace

/-
A pool runs every call to its end.

Each possible move takes one off the work that is left, and while there is work and a
permit there is a move, so the turns of a drain are just enough.  No move loses a call, so
in the end each call of the batch has an ending, and it is one that the executor gave.
-/

namespace Publishing

/-- Whether every ending that the executor can give to a call is as `P` says. -/
def Executor.Gives {σ : Type} (P : Call → Ending → Prop) (x : Executor σ) : Prop :=
  ∀ c w, P c (x c w).1

namespace Pool

variable {σ : Type} {permits : Nat} {x : Executor σ} {p q : Pool σ} {e : PoolEvent}

/-- The calls in the pool, wherever they are. -/
def held (p : Pool σ) : List Call := p.waiting ++ (p.active ++ p.ended.map (·.1))

theorem work_of_moves_eq_nil (hp : 0 < permits) (h : p.moves permits = []) : p.work = 0 := by
  obtain ⟨hstart, hfinish⟩ := List.append_eq_nil_iff.mp h
  have ha : p.active.length = 0 := by simpa using hfinish
  rw [if_pos (by omega)] at hstart
  have hw : p.waiting.length = 0 := by simpa using hstart
  rw [work, ha, hw]

theorem Moves.work (h : p.Moves permits x e q) : q.work + 1 = p.work := by
  cases h with
  | start hi _ =>
    simp only [Pool.work, List.length_eraseIdx_of_lt hi, List.length_append,
      List.length_singleton]
    omega
  | finish hi =>
    simp only [Pool.work, List.length_eraseIdx_of_lt hi]
    omega

/-- No turn loses a call. -/
theorem Moves.held (h : p.Moves permits x e q) : q.held.Perm p.held := by
  cases h with
  | start hi _ =>
    simp only [Pool.held]
    rw [List.append_assoc, List.singleton_append]
    refine (List.perm_middle.append_left _).trans (List.perm_middle.trans ?_)
    exact (List.getElem_cons_eraseIdx_perm hi).append_right _
  | finish hi =>
    simp only [Pool.held, List.map_append]
    refine List.Perm.append_left _ ?_
    rw [← List.append_assoc]
    refine (List.perm_append_singleton _ _).trans ?_
    exact (List.getElem_cons_eraseIdx_perm hi).append_right _

/-- What holds of all endings that the executor gives holds of those in the pool. -/
theorem Moves.ended {P : Call → Ending → Prop} (hx : x.Gives P) (h : p.Moves permits x e q)
    (hp : ∀ e ∈ p.ended, P e.1 e.2) : ∀ e ∈ q.ended, P e.1 e.2 := by
  cases h with
  | start _ _ => exact hp
  | finish _ =>
    intro e he
    rcases List.mem_append.mp he with he | he
    · exact hp e he
    · obtain rfl := List.mem_singleton.mp he
      exact hx _ p.world

theorem ended_runFor {P : Call → Ending → Prop} (permits : Nat) {x : Executor σ}
    (hx : x.Gives P) (schedule : Schedule) (turns : Nat) {p : Pool σ}
    (hp : ∀ e ∈ p.ended, P e.1 e.2) :
    ∀ e ∈ (p.runFor permits x schedule turns).1.ended, P e.1 e.2 :=
  (turns_runFor permits x schedule turns p).keep (P := fun q => ∀ e ∈ q.ended, P e.1 e.2) hp
    (·.ended hx)

/-- As many turns as there is work leave none. -/
theorem work_runFor {permits : Nat} (hp : 0 < permits) (x : Executor σ) (schedule : Schedule)
    {turns : Nat} {p : Pool σ} (h : p.work ≤ turns) :
    (p.runFor permits x schedule turns).1.work = 0 := by
  induction turns generalizing p with
  | zero => exact Nat.le_zero.mp h
  | succ turns ih =>
    rw [runFor]
    cases hm : p.moves permits with
    | nil => exact work_of_moves_eq_nil hp hm
    | cons m ms =>
      apply ih
      obtain ⟨e, -, hmove⟩ := moves_apply x (chosen_mem_moves hm (schedule turns))
      have := hmove.work
      omega

/-- In the end each call has its ending. -/
theorem perm_drain {permits : Nat} (hp : 0 < permits) (x : Executor σ) (schedule : Schedule)
    (calls : List Call) (w : σ) :
    (((ofCalls calls w).drain permits x schedule).1.ended.map (·.1)).Perm calls := by
  have hwork : ((ofCalls calls w).drain permits x schedule).1.work = 0 :=
    work_runFor hp x schedule (Nat.le_refl _)
  have hheld : ((ofCalls calls w).drain permits x schedule).1.held.Perm
      (ofCalls calls w).held :=
    (turns_runFor permits x schedule _ _).keep (P := fun q => q.held.Perm _) (.refl _)
      fun hmove h => hmove.held.trans h
  generalize ((ofCalls calls w).drain permits x schedule).1 = p at hwork hheld ⊢
  unfold work at hwork
  have hw : p.waiting = [] := List.length_eq_zero_iff.mp (by omega)
  have ha : p.active = [] := List.length_eq_zero_iff.mp (by omega)
  simpa [held, hw, ha, ofCalls] using hheld

/-- The ending of a call is one that the executor gave to it. -/
theorem endingOf_drain {P : Call → Ending → Prop} {permits : Nat} (hp : 0 < permits)
    {x : Executor σ} (hx : x.Gives P) (schedule : Schedule) {calls : List Call}
    (hn : (calls.map (·.entity)).Nodup) (w : σ) {c : Call} (hc : c ∈ calls) :
    P c (((ofCalls calls w).drain permits x schedule).1.endingOf c.entity) := by
  have hperm := perm_drain hp x schedule calls w
  have hended : ∀ e ∈ ((ofCalls calls w).drain permits x schedule).1.ended, P e.1 e.2 :=
    ended_runFor permits hx schedule _ nofun
  generalize ((ofCalls calls w).drain permits x schedule).1 = p at hperm hended ⊢
  unfold endingOf
  cases hf : p.ended.find? fun e => e.1.entity = c.entity with
  | none =>
    obtain ⟨e, he, rfl⟩ := List.mem_map.mp (hperm.mem_iff.mpr hc)
    exact absurd (decide_eq_true rfl) (List.find?_eq_none.mp hf e he)
  | some e =>
    have he := List.mem_of_find?_eq_some hf
    have hid : e.1.entity = c.entity := by simpa using List.find?_some hf
    have hmem : e.1 ∈ calls := hperm.mem_iff.mp (List.mem_map_of_mem he)
    obtain rfl := List.inj_on_of_nodup_map hn hmem hc hid
    exact hended e he

end Pool
end Publishing
