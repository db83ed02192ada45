/-
Double precision numbers as exact dyadic rationals.

A finite double is plus or minus `significand * 2 ^ exponent`.  Every nonzero
double has one form in range: a significand of 53 bits, or a shorter one under
the least exponent.  Arithmetic is done on fractions of natural numbers and
rounded once, to the nearest double, a tie going to the even significand; so
nothing here depends on machine arithmetic.
-/

namespace Publishing

structure Binary64 where
  negative : Bool
  significand : Nat
  exponent : Int
  deriving DecidableEq, Repr, Inhabited

namespace Binary64

def leastExponent : Int := -1074

def greatestExponent : Int := 971

def zero (negative : Bool) : Binary64 := ⟨negative, 0, 0⟩

/-- A nonnegative fraction, not necessarily in lowest terms. -/
structure Ratio where
  num : Nat
  den : Nat

/-- `n * 2 ^ e`. -/
def Ratio.scaled (n : Nat) (e : Int) : Ratio :=
  if 0 ≤ e then ⟨n * Nat.pow 2 e.toNat, 1⟩ else ⟨n, Nat.pow 2 (-e).toNat⟩

def magnitude (x : Binary64) : Ratio := Ratio.scaled x.significand x.exponent

/-- `num / den` to the nearest integer, a half to the even neighbour. -/
def roundDiv (num den : Nat) : Nat :=
  let q := num / den
  let r := num % den
  if 2 * r < den then q
  else if den < 2 * r then q + 1
  else if q % 2 = 0 then q else q + 1

/-- The exponent of the last bit that a double near `r` keeps. -/
def lastBit (r : Ratio) : Int :=
  let k : Int := (Nat.log2 r.num : Int) - Nat.log2 r.den
  let low := max (k - 53) leastExponent
  let s := Ratio.scaled r.num (-low)
  if Nat.pow 2 53 ≤ s.num / (s.den * r.den) then low + 1 else low

/-- The double nearest to `r`, or `none` beyond the greatest finite one. -/
def round? (negative : Bool) (r : Ratio) : Option Binary64 :=
  if r.num = 0 then some (zero negative)
  else
    let e := lastBit r
    let s := Ratio.scaled r.num (-e)
    let m := roundDiv s.num (s.den * r.den)
    let (m, e) := if m = Nat.pow 2 53 then (Nat.pow 2 52, e + 1) else (m, e)
    if m = 0 then some (zero negative)
    else if greatestExponent < e then none
    else some ⟨negative, m, e⟩

def ofNat? (n : Nat) : Option Binary64 := round? false ⟨n, 1⟩

def mul? (x y : Binary64) : Option Binary64 :=
  let a := x.magnitude
  let b := y.magnitude
  round? (x.negative != y.negative) ⟨a.num * b.num, a.den * b.den⟩

/-- The quotient, for a nonzero divisor. -/
def div? (x y : Binary64) : Option Binary64 :=
  let a := x.magnitude
  let b := y.magnitude
  round? (x.negative != y.negative) ⟨a.num * b.den, a.den * b.num⟩

def neg (x : Binary64) : Binary64 := { x with negative := !x.negative }

example : round? false ⟨1, 10⟩ = some ⟨false, 7205759403792794, -56⟩ := by decide +kernel
example : round? false ⟨2 ^ 53 + 1, 1⟩ = some ⟨false, 2 ^ 52, 1⟩ := by decide +kernel
example : round? false ⟨1, 2 ^ 1075⟩ = some (zero false) := by decide +kernel
example : round? false ⟨10 ^ 309, 1⟩ = none := by decide +kernel

end Binary64
end Publishing
