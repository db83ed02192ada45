import Publishing.Decimal.Binary64

/-
The shortest decimal that reads back as a given double.

Reading rounds to nearest, so the decimals that read back as `m * 2 ^ q` are
those of an interval around it whose ends count when `m` is even.  On the grid
of the decimals with a given last place, if any point lies in the interval then
one of the two neighbours of the value does.  The first grid, counting digits
up, on which one of them does gives the answer; of two the nearer is taken.
-/

namespace Publishing
namespace Decimal

/-- `digits * 10 ^ exponent`. -/
structure Scientific where
  digits : Nat
  exponent : Int
  deriving DecidableEq, Repr

/-- The reals that round to a double, as multiples of a common unit
`2 ^ exponent`: the value is `value` units, and the interval runs from `low` to
`high` units. -/
structure Interval where
  low : Nat
  value : Nat
  high : Nat
  exponent : Int
  closed : Bool

/-- At a power of two the doubles below are twice as dense as those above. -/
def Interval.of (x : Binary64) : Interval :=
  let m := x.significand
  let step := if m = Nat.pow 2 52 ∧ Binary64.leastExponent < x.exponent then 1 else 2
  ⟨4 * m - step, 4 * m, 4 * m + 2, x.exponent - 2, m % 2 = 0⟩

/-- `10 ^ p` as a fraction. -/
def powerOfTen (p : Int) : Binary64.Ratio :=
  if 0 ≤ p then ⟨Nat.pow 10 p.toNat, 1⟩ else ⟨1, Nat.pow 10 (-p).toNat⟩

/-- Compare `d * 10 ^ p` with `n` units of `iv`. -/
def Interval.compareTo (iv : Interval) (d : Nat) (p : Int) (n : Nat) : Ordering :=
  let t := powerOfTen p
  let u := Binary64.Ratio.scaled n iv.exponent
  compare (d * t.num * u.den) (u.num * t.den)

def Interval.contains (iv : Interval) (d : Nat) (p : Int) : Bool :=
  match iv.compareTo d p iv.low, iv.compareTo d p iv.high with
  | .gt, .lt => true
  | .eq, .lt => iv.closed
  | .gt, .eq => iv.closed
  | _, _ => false

/-- Whether `d * 10 ^ p` is at most as far from the value as
`(d + 1) * 10 ^ p`, a tie going to the even one. -/
def Interval.prefersLower (iv : Interval) (d : Nat) (p : Int) : Bool :=
  let t := powerOfTen p
  let u := Binary64.Ratio.scaled iv.value iv.exponent
  match compare (2 * u.num * t.den) ((2 * d + 1) * t.num * u.den) with
  | .lt => true
  | .gt => false
  | .eq => d % 2 = 0

/-- The neighbour of the value on the grid of multiples of `10 ^ p` that lies in
the interval, if one does. -/
def Interval.onGrid? (iv : Interval) (p : Int) : Option Scientific :=
  let t := powerOfTen p
  let u := Binary64.Ratio.scaled iv.value iv.exponent
  let d := u.num * t.den / (u.den * t.num)
  match iv.contains d p, iv.contains (d + 1) p with
  | true, true => some ⟨if iv.prefersLower d p then d else d + 1, p⟩
  | true, false => some ⟨d, p⟩
  | false, true => some ⟨d + 1, p⟩
  | false, false => none

/-- The place of the leading digit of `m * 2 ^ q`, give or take one. -/
def leadingPlace (x : Binary64) : Int :=
  ((Nat.log2 x.significand : Int) + x.exponent) * 30103 / 100000

/-- The shortest decimal that reads back as the magnitude of `x`.  Nineteen
grids from one above the leading place suffice, since seventeen digits always
read back. -/
def shortest (x : Binary64) : Scientific :=
  if x.significand = 0 then ⟨0, 0⟩
  else
    let iv := Interval.of x
    let top := leadingPlace x + 1
    match (List.range 20).findSome? fun i : Nat => iv.onGrid? (top - (i : Int)) with
    | some s => s
    | none => ⟨0, 0⟩

example : shortest ⟨false, 7205759403792794, -56⟩ = ⟨1, -1⟩ := by decide +kernel
example : shortest ⟨false, 1, -1074⟩ = ⟨5, -324⟩ := by decide +kernel
example : shortest ⟨false, 2 ^ 52, 12⟩ = ⟨18446744073709552, 3⟩ := by decide +kernel

end Decimal
end Publishing
