import Publishing.Json.Basic
import Publishing.Text.Digit

/-
Numbers as they stand in text, and what they are worth.

An integer that fits 64 bits keeps its value.  Any other number becomes a double:
as many of its digits as fit 64 bits, times or divided by a power of ten, each of
them rounded on its own.
-/

namespace Publishing
namespace Json

open Text

/-- The parts of a number as written. -/
structure Numeral where
  negative : Bool
  whole : List Char
  fraction : Option (List Char)
  exponent : Option (Bool × List Char)

/-- A natural number is kept exactly while it fits 64 bits. -/
def greatestNatural : Nat := 18446744073709551615

/-- Append digits to `n` while the result fits 64 bits.  Also gives the digits
left over. -/
def takeDigits (n : Nat) : List Char → Nat × List Char
  | [] => (n, [])
  | c :: rest =>
    if n * 10 + digitValue c ≤ greatestNatural then takeDigits (n * 10 + digitValue c) rest
    else (n, c :: rest)

/-- `x * 10 ^ exponent`, with one rounding for the power of ten and one for the
product, or first a quotient by `10 ^ 308` as long as the exponent is below
`-308`. -/
def scaleByTen (x : Binary64) (exponent : Int) : Nat → Option Binary64
  | 0 => some (.zero false)
  | fuel + 1 =>
    if exponent.natAbs ≤ 308 then do
      let power ← Binary64.ofNat? (Nat.pow 10 exponent.natAbs)
      if 0 ≤ exponent then x.mul? power else x.div? power
    else if x.significand = 0 then some x
    else if 0 ≤ exponent then none
    else do
      let power ← Binary64.ofNat? (Nat.pow 10 308)
      scaleByTen (← x.div? power) (exponent + 308) fuel

/-- The exponent as written, or `none` when its digits do not fit 31 bits. -/
def exponentValue? (digits : List Char) : Option Nat :=
  digits.foldl (fun n c => do
    let m := (← n) * 10 + digitValue c
    if m ≤ 2147483647 then some m else none) (some 0)

def clampExponent (e : Int) : Int := max (-2147483648) (min e 2147483647)

def Numeral.float? (negative : Bool) (significand : Nat) (exponent : Int) : Option Number := do
  let x ← scaleByTen (← Binary64.ofNat? significand) exponent 4
  return .float { x with negative := negative }

/-- The value of a number, or `none` beyond the greatest double. -/
def Numeral.value? (n : Numeral) : Option Number :=
  let (significand, dropped) := takeDigits 0 n.whole
  match n.fraction, n.exponent, dropped with
  | none, none, [] =>
    if n.negative then
      if significand = 0 ∨ 9223372036854775808 < significand then float? true significand 0
      else some (.int (-significand))
    else some (.int significand)
  | fraction, exponent, dropped =>
    let digits := fraction.getD []
    let (significand, ignored) := takeDigits significand digits
    let shift : Int := (dropped.length : Int) - (digits.length - ignored.length : Nat)
    match exponent with
    | none => float? n.negative significand shift
    | some (negative, digits) =>
      match exponentValue? digits with
      | some e =>
        float? n.negative significand (clampExponent (if negative then shift - e else shift + e))
      | none =>
        if significand ≠ 0 ∧ !negative then none else some (.float (.zero n.negative))

def readDigits (cs : List Char) : List Char × List Char := cs.span isDigit

def readFraction : List Char → Option (Option (List Char) × List Char)
  | '.' :: cs =>
    match readDigits cs with
    | ([], _) => none
    | (ds, rest) => some (some ds, rest)
  | cs => some (none, cs)

def readExponentDigits (negative : Bool) (cs : List Char) :
    Option (Option (Bool × List Char) × List Char) :=
  match readDigits cs with
  | ([], _) => none
  | (ds, rest) => some (some (negative, ds), rest)

def readExponent : List Char → Option (Option (Bool × List Char) × List Char)
  | 'e' :: '+' :: cs | 'E' :: '+' :: cs => readExponentDigits false cs
  | 'e' :: '-' :: cs | 'E' :: '-' :: cs => readExponentDigits true cs
  | 'e' :: cs | 'E' :: cs => readExponentDigits false cs
  | cs => some (none, cs)

/-- A number after its sign.  The integer part has no leading zeros. -/
def readNumeral (negative : Bool) (cs : List Char) : Option (Numeral × List Char) := do
  let (whole, rest) := readDigits cs
  match whole with
  | [] => none
  | '0' :: _ :: _ => none
  | _ =>
    let (fraction, rest) ← readFraction rest
    let (exponent, rest) ← readExponent rest
    return (⟨negative, whole, fraction, exponent⟩, rest)

end Json
end Publishing
