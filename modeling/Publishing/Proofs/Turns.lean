import Publishing.Execution.Pool

/-
The turns of a pool.

In each turn a schedule chooses one of the moves that are possible: a waiting call takes a
free permit, or a call at work gives its own back.  The turns are stated here as a relation
between pools, and what every turn keeps is kept however a schedule chooses.
-/

namespace Publishing
namespace Pool

variable {σ : Type} {permits : Nat} {x : Executor σ} {p q : Pool σ} {e : PoolEvent}
  {l : List PoolEvent}

theorem start_mem_moves {i : Nat} :
    .start i ∈ p.moves permits ↔ i < p.waiting.length ∧ p.active.length < permits := by
  unfold moves
  split
  · next hfree => simp [hfree]
  · next hfree => simp [hfree]

theorem finish_mem_moves {i : Nat} : .finish i ∈ p.moves permits ↔ i < p.active.length := by
  unfold moves
  split <;> simp

/-- One turn, and what it shows. -/
inductive Moves (permits : Nat) (x : Executor σ) (p : Pool σ) : PoolEvent → Pool σ → Prop
  | start {i : Nat} (waiting : i < p.waiting.length) (free : p.active.length < permits) :
      Moves permits x p (.began p.waiting[i] (p.active.length + 1))
        { p with
          waiting := p.waiting.eraseIdx i
          active := p.active ++ [p.waiting[i]] }
  | finish {i : Nat} (active : i < p.active.length) :
      Moves permits x p (.ended p.active[i])
        { p with
          active := p.active.eraseIdx i
          ended := p.ended ++ [(p.active[i], (x p.active[i] p.world).1)]
          world := (x p.active[i] p.world).2 }

/-- Any number of turns, one after the other. -/
inductive Turns (permits : Nat) (x : Executor σ) : Pool σ → List PoolEvent → Pool σ → Prop
  | rest (p : Pool σ) : Turns permits x p [] p
  | turn {p q r : Pool σ} {e : PoolEvent} {l : List PoolEvent} (move : p.Moves permits x e q)
      (more : Turns permits x q l r) : Turns permits x p (e :: l) r

theorem moves_apply (x : Executor σ) {m : PoolMove} (h : m ∈ p.moves permits) :
    ∃ e, (p.apply x m).2 = [e] ∧ p.Moves permits x e (p.apply x m).1 := by
  cases m with
  | start i =>
    obtain ⟨hi, hfree⟩ := start_mem_moves.mp h
    simp only [apply, List.getElem?_eq_getElem hi]
    exact ⟨_, rfl, .start hi hfree⟩
  | finish i =>
    have hi := finish_mem_moves.mp h
    simp only [apply, List.getElem?_eq_getElem hi]
    exact ⟨_, rfl, .finish hi⟩

/-- The move that a schedule chooses is one of those that are possible. -/
theorem chosen_mem_moves {m : PoolMove} {ms : List PoolMove} (hm : p.moves permits = m :: ms)
    (turn : Nat) : ((m :: ms)[turn % (ms.length + 1)]?).getD m ∈ p.moves permits := by
  have hlt : turn % (ms.length + 1) < (m :: ms).length := Nat.mod_lt _ (by simp)
  rw [hm, List.getElem?_eq_getElem hlt]
  exact List.getElem_mem hlt

/-- A pool goes on by turns, whatever the schedule. -/
theorem turns_runFor (permits : Nat) (x : Executor σ) (schedule : Schedule) (turns : Nat)
    (p : Pool σ) : p.Turns permits x (p.runFor permits x schedule turns).2
      (p.runFor permits x schedule turns).1 := by
  induction turns generalizing p with
  | zero => exact .rest p
  | succ turns ih =>
    rw [runFor]
    cases hm : p.moves permits with
    | nil => exact .rest p
    | cons m ms =>
      obtain ⟨e, he, hmove⟩ := moves_apply x (chosen_mem_moves hm (schedule turns))
      dsimp only
      rw [he]
      exact .turn hmove (ih _)

/-- What holds of a pool and is kept by every turn holds after them. -/
theorem Turns.keep {P : Pool σ → Prop} (h : p.Turns permits x l q) (hp : P p)
    (keep : ∀ {p e q}, p.Moves permits x e q → P p → P q) : P q := by
  induction h with
  | rest p => exact hp
  | turn move _ ih => exact ih (keep move hp)

theorem Moves.world {P : σ → Prop} (hx : ∀ c w, P w → P (x c w).2) (h : p.Moves permits x e q)
    (hp : P p.world) : P q.world := by
  cases h with
  | start _ _ => exact hp
  | finish _ => exact hx _ _ hp

/-- What an executor keeps of the world, a pool keeps. -/
theorem world_runFor {P : σ → Prop} (permits : Nat) {x : Executor σ}
    (hx : ∀ c w, P w → P (x c w).2) (schedule : Schedule) (turns : Nat) {p : Pool σ}
    (hp : P p.world) : P (p.runFor permits x schedule turns).1.world :=
  (turns_runFor permits x schedule turns p).keep (P := fun q => P q.world) hp (·.world hx)

end Pool
end Publishing
