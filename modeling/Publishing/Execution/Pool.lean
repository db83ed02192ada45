import Publishing.Execution.Executor

/-
A pool of workers with a bounded number of permits.

Each call of a batch waits for a permit, holds it while it is at work, and gives it
back when it ends.  In which order waiting calls get a permit, and in which order
the working ones end, is up to a schedule.
-/

namespace Publishing

inductive PoolEvent where
  /-- A call began, as one of so many at work. -/
  | began (c : Call) (active : Nat)
  | ended (c : Call)
  deriving DecidableEq

inductive PoolMove where
  | start (i : Nat)
  | finish (i : Nat)
  deriving DecidableEq

structure Pool (σ : Type) where
  waiting : List Call
  active : List Call
  ended : List (Call × Ending)
  world : σ

/-- For each turn the choice among the moves that are possible, counted round and
round. -/
abbrev Schedule := Nat → Nat

namespace Pool

variable {σ : Type}

def ofCalls (calls : List Call) (w : σ) : Pool σ := ⟨calls, [], [], w⟩

/-- The moves that are possible with so many permits. -/
def moves (permits : Nat) (p : Pool σ) : List PoolMove :=
  (if p.active.length < permits then (List.range p.waiting.length).map .start else []) ++
    (List.range p.active.length).map .finish

def apply (x : Executor σ) (p : Pool σ) : PoolMove → Pool σ × List PoolEvent
  | .start i =>
    match p.waiting[i]? with
    | some c =>
      ({ p with waiting := p.waiting.eraseIdx i, active := p.active ++ [c] },
        [.began c (p.active.length + 1)])
    | none => (p, [])
  | .finish i =>
    match p.active[i]? with
    | some c =>
      let (ending, w) := x c p.world
      ({ p with
          active := p.active.eraseIdx i
          ended := p.ended ++ [(c, ending)]
          world := w },
        [.ended c])
    | none => (p, [])

/-- How many moves are left. -/
def work (p : Pool σ) : Nat := 2 * p.waiting.length + p.active.length

/-- Make at most `turns` moves, as long as there are any. -/
def runFor (permits : Nat) (x : Executor σ) (schedule : Schedule) :
    (turns : Nat) → Pool σ → Pool σ × List PoolEvent
  | 0, p => (p, [])
  | turns + 1, p =>
    match p.moves permits with
    | [] => (p, [])
    | m :: ms =>
      let move := ((m :: ms)[schedule turns % (ms.length + 1)]?).getD m
      let (p, events) := p.apply x move
      let (p, more) := runFor permits x schedule turns p
      (p, events ++ more)

/-- Run all calls to their ends. -/
def drain (permits : Nat) (x : Executor σ) (schedule : Schedule) (p : Pool σ) :
    Pool σ × List PoolEvent :=
  runFor permits x schedule p.work p

/-- The ending of the call for an entity. -/
def endingOf (p : Pool σ) (id : String) : Ending :=
  match p.ended.find? fun e => e.1.entity = id with
  | some e => e.2
  | none => .aborted "the call did not end"

/-- Start whatever may start, and then end what has been at work the longest. -/
def eager : Schedule := fun _ => 0

/-- No pool has more permits: the count keeps to 61 bits. -/
def greatestPermits : Nat := 2305843009213693951

end Pool
end Publishing
