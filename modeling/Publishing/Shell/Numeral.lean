import Publishing.Decimal.Binary64
import Publishing.Shell.Bytes

/-
Numbers with a fraction, as texts.
-/

namespace Publishing
namespace Shell

/-- How great a number is, its sign apart. -/
inductive Magnitude where
  | finite (r : Binary64.Ratio)
  | infinite
  | notANumber

structure Numeral where
  negative : Bool
  magnitude : Magnitude
  /-- The length of the text. -/
  size : Nat

namespace Numeral

/-- An exponent after one of the letters: its value and the length of its text. -/
def exponent (letter : Char) (cs : Bytes) : Int × Nat :=
  match cs with
  | c :: rest =>
    if c.toLower ≠ letter then (0, 0)
    else
      let (negative, sign, rest) := match rest with
        | '-' :: rest => (true, 1, rest)
        | '+' :: rest => (false, 1, rest)
        | rest => (false, 0, rest)
      let ds := rest.takeWhile Text.isDigit
      if ds = [] then (0, 0)
      else
        let n : Int := min (Text.numberOf ds) 100000
        (if negative then -n else n, ds.length + sign + 1)
  | [] => (0, 0)

/-- Digits with a point among them: all digits, how many follow the point, and the
length of the text. -/
def digits (isDigit : Char → Bool) (cs : Bytes) : Bytes × Nat × Nat :=
  let whole := cs.takeWhile isDigit
  match cs.drop whole.length with
  | '.' :: rest =>
    let places := rest.takeWhile isDigit
    if whole = [] ∧ places = [] then ([], 0, 0)
    else (whole ++ places, places.length, whole.length + places.length + 1)
  | _ => (whole, 0, whole.length)

def scale (n base : Nat) (power : Int) : Binary64.Ratio :=
  if 0 ≤ power then ⟨n * Nat.pow base power.toNat, 1⟩ else ⟨n, Nat.pow base (-power).toNat⟩

/-- The length of a text that says that there is no number: a note in brackets may follow. -/
def noNumberSize (cs : Bytes) : Nat :=
  match cs.drop 3 with
  | '(' :: rest =>
    let note := rest.takeWhile Bytes.isNameChar
    if rest[note.length]? = some ')' then note.length + 5 else 3
  | _ => 3

/-- A number without a sign: its value, and the length of its text. -/
def magnitude? (cs : Bytes) : Option (Magnitude × Nat) :=
  let lower := String.ofList ((cs.take 8).map Char.toLower)
  let hex := digits (fun c => (Text.hexValue? c).isSome) (cs.drop 2)
  if lower = "infinity" then some (.infinite, 8)
  else if lower.startsWith "inf" then some (.infinite, 3)
  else if lower.startsWith "nan" then some (.notANumber, noNumberSize cs)
  else if lower.startsWith "0x" ∧ hex.1 ≠ [] then
    let (ds, places, size) := hex
    let (p, more) := exponent 'p' (cs.drop (2 + size))
    let n := ds.foldl (fun n c => n * 16 + (Text.hexValue? c).getD 0) 0
    some (.finite (scale n 2 (p - 4 * places)), 2 + size + more)
  else
    let (ds, places, size) := digits Text.isDigit cs
    if ds = [] then none
    else
      let (p, more) := exponent 'e' (cs.drop size)
      some (.finite (scale (Text.numberOf ds) 10 (p - places)), size + more)

/-- The number in front of a text, after blanks. -/
def front? (text : Bytes) : Option Numeral :=
  let cs := text.dropWhile Bytes.isSpace
  let blanks := text.length - cs.length
  match cs with
  | '-' :: cs => (magnitude? cs).map fun m => ⟨true, m.1, blanks + 1 + m.2⟩
  | '+' :: cs => (magnitude? cs).map fun m => ⟨false, m.1, blanks + 1 + m.2⟩
  | cs => (magnitude? cs).map fun m => ⟨false, m.1, blanks + m.2⟩

example : (front? "1e-3s".toList).map (·.size) = some 4 := by decide +kernel
example : (front? "nan(2)".toList).map (·.size) = some 6 := by decide +kernel
example : (front? "abc".toList).isNone = true := by decide +kernel

end Numeral
end Shell
end Publishing
