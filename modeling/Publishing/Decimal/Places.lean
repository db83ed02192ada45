import Publishing.Decimal.Binary64
import Publishing.Text.Digit

/-
Doubles with a given number of decimal places or digits, and with hexadecimal ones.  A half
goes to the even neighbour.
-/

namespace Publishing
namespace Decimal

/-- The multiple of `10 ^ -places` that is nearest to a fraction, in those units. -/
def roundToPlaces (r : Binary64.Ratio) (places : Int) : Nat :=
  if 0 ≤ places then Binary64.roundDiv (r.num * Nat.pow 10 places.toNat) r.den
  else Binary64.roundDiv r.num (r.den * Nat.pow 10 (-places).toNat)

/-- A number of units `10 ^ -places` as text, with all its places. -/
def pointed (places units : Nat) : List Char :=
  let ds := Text.padded (places + 1) units
  let whole := ds.take (ds.length - places)
  if places = 0 then whole else whole ++ '.' :: ds.drop whole.length

def fixed (r : Binary64.Ratio) (places : Nat) : List Char :=
  pointed places (roundToPlaces r places)

/-- The place of the first digit of a fraction that is not zero: the greatest `p`
with `10 ^ p` at most the fraction. -/
def leading (r : Binary64.Ratio) : Int :=
  let guess : Int := ((Nat.log2 r.num : Int) - Nat.log2 r.den) * 30103 / 100000 + 2
  let fits (p : Int) : Bool :=
    if 0 ≤ p then Nat.pow 10 p.toNat * r.den ≤ r.num else r.den ≤ r.num * Nat.pow 10 (-p).toNat
  ((List.range 6).map fun (i : Nat) => guess - (i : Int)).find? fits |>.getD (guess - 6)

/-- The digits of a fraction up to `places` after the first, and the place of the
first. -/
def significant (r : Binary64.Ratio) (places : Nat) : Nat × Int :=
  if r.num = 0 then (0, 0)
  else
    let p := leading r
    let ds := roundToPlaces r (places - p)
    if ds = Nat.pow 10 (places + 1) then (Nat.pow 10 places, p + 1) else (ds, p)

/-- A power of ten as it is written after a number. -/
def exponentText (p : Int) : List Char :=
  'e' :: (if p < 0 then '-' else '+') :: Text.padded 2 p.natAbs

def scientific (r : Binary64.Ratio) (places : Nat) : List Char :=
  let (ds, p) := significant r places
  pointed places ds ++ exponentText p

/-- The text without zeros at the end of its places. -/
def withoutZeros (cs : List Char) : List Char :=
  if cs.contains '.' then
    let cs := (cs.reverse.dropWhile (· = '0')).reverse
    if cs.getLast? = some '.' then cs.dropLast else cs
  else cs

/-- The shorter of both forms with a number of digits. -/
def general (r : Binary64.Ratio) (digits : Nat) (keepZeros : Bool) : List Char :=
  let digits := max digits 1
  let (ds, p) := significant r (digits - 1)
  let trim (cs : List Char) : List Char := if keepZeros then cs else withoutZeros cs
  if p < -4 ∨ (digits : Int) ≤ p then trim (pointed (digits - 1) ds) ++ exponentText p
  else trim (fixed r ((digits : Int) - 1 - p).toNat)

/-- The hexadecimal digits of a double, of which one stands in front of the point, and a
power of two.  Without a number of places all are there that are not zeros at the end. -/
def hexadecimal (x : Binary64) (places : Option Nat) (keepPoint : Bool) : List Char :=
  let power : Int := if x.significand = 0 then 0 else x.exponent + 52
  let shown := min (places.getD 13) 13
  let units := Binary64.roundDiv x.significand (Nat.pow 16 (13 - shown))
  let ds := Text.hexDigits shown units ++ List.replicate (places.getD 13 - shown) '0'
  let ds := if places.isSome then ds else (ds.reverse.dropWhile (· = '0')).reverse
  Text.hexDigit (units / Nat.pow 16 shown) :: (if ds = [] ∧ !keepPoint then [] else '.' :: ds) ++
    'p' :: (if power < 0 then '-' else '+') :: Text.decimal power.natAbs

example : hexadecimal ⟨false, 7205759403792794, -56⟩ none false = "1.999999999999ap-4".toList := by
  decide +kernel
example : hexadecimal ⟨false, 7205759403792794, -56⟩ (some 0) false = "2p-4".toList := by
  decide +kernel
example : fixed ⟨314159, 100000⟩ 2 = "3.14".toList := by decide +kernel
example : fixed ⟨5, 2⟩ 0 = "2".toList := by decide +kernel
example : scientific ⟨12345, 10⟩ 3 = "1.234e+03".toList := by decide +kernel
example : general ⟨1, 10000⟩ 6 false = "0.0001".toList := by decide +kernel

end Decimal
end Publishing
