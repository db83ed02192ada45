import Publishing.Json.Numeral
import Publishing.Json.Tree
import Publishing.Time.Date

/-
Numbers and instants as they stand in TOML.  An instant becomes an object with one
member, and the value of a number with a fraction is left open.
-/

namespace Publishing
namespace Toml

open Text

/-- Digits between which single underscores may stand. -/
def readDigits (isDigit : Char → Bool) : List Char → Option (List Char × List Char)
  | c :: rest => if isDigit c then some (c :: (more rest).1, (more rest).2) else none
  | [] => none
where
  more : List Char → List Char × List Char
    | '_' :: c :: rest =>
      if isDigit c then (c :: (more rest).1, (more rest).2) else ([], '_' :: c :: rest)
    | c :: rest => if isDigit c then (c :: (more rest).1, (more rest).2) else ([], c :: rest)
    | [] => ([], [])

/-- An integer of 64 bits. -/
def integer (i : Int) : Option Json.Tree :=
  if -9223372036854775808 ≤ i ∧ i ≤ 9223372036854775807 then some (.number (some (.int i)))
  else none

/-- A number with a fraction; how much it is does not matter here. -/
def someFloat : Json.Tree := .number (some (.float (.zero false)))

def readRadix (radix : Nat) (isDigit : Char → Bool) (cs : List Char) :
    Option (Json.Tree × List Char) := do
  let (ds, rest) ← readDigits isDigit cs
  let v ← integer (ds.foldl (fun n c => n * radix + (hexValue? c).getD 0) 0 : Nat)
  return (v, rest)

/-- The fraction and the exponent of a number, if it has any of them. -/
def readFraction (cs : List Char) : Option (Bool × Json.Numeral × List Char) := do
  let (fraction, cs) ← match cs with
    | '.' :: rest => (readDigits isDigit rest).map fun (ds, rest) => (some ds, rest)
    | cs => some (none, cs)
  let exponent (negative : Bool) (rest : List Char) :=
    (readDigits isDigit rest).map fun (ds, rest) => (some (negative, ds), rest)
  let (exponent, cs) ← match cs with
    | 'e' :: '-' :: rest | 'E' :: '-' :: rest => exponent true rest
    | 'e' :: '+' :: rest | 'E' :: '+' :: rest => exponent false rest
    | 'e' :: rest | 'E' :: rest => exponent false rest
    | cs => some (none, cs)
  return (fraction.isSome || exponent.isSome, ⟨false, [], fraction, exponent⟩, cs)

/-- Whether the nearest double to a number without its sign is infinite: from half a
unit above the greatest double on. -/
def overflows (whole : List Char) (n : Json.Numeral) : Bool :=
  let fraction := n.fraction.getD []
  let digits := (whole ++ fraction).dropWhile (· = '0')
  let scale : Int := (match n.exponent with
    | some (negative, ds) => if negative then -(numberOf ds : Int) else numberOf ds
    | none => 0) - fraction.length
  let size := digits.length + scale
  if digits = [] ∨ size ≤ 308 then false
  else if 309 < size then true
  else
    Nat.pow 2 970 * (Nat.pow 2 54 - 1) * Nat.pow 10 (-scale).toNat ≤
      numberOf digits * Nat.pow 10 scale.toNat

/-- A number with an optional sign. -/
def readDecimal (cs : List Char) : Option (Json.Tree × List Char) := do
  let (negative, cs) := match cs with
    | '-' :: rest => (true, rest)
    | '+' :: rest => (false, rest)
    | cs => (false, cs)
  match cs with
  | 'i' :: 'n' :: 'f' :: rest | 'n' :: 'a' :: 'n' :: rest => return (someFloat, rest)
  | _ =>
    let (ds, rest) ← match cs with
      | '0' :: rest => some (['0'], rest)
      | cs => readDigits isDigit cs
    let (isFloat, numeral, rest) ← readFraction rest
    if isFloat then
      if overflows ds numeral && !negative then none
      else return (someFloat, rest)
    else
      let n := numberOf ds
      let v ← integer (if negative then -n else n)
      return (v, rest)

/-- Exactly `count` digits. -/
def readFixed (count : Nat) (cs : List Char) : Option (Nat × List Char) :=
  let ds := (cs.take count).takeWhile isDigit
  if ds.length = count then some (numberOf ds, cs.drop count) else none

def readDate (cs : List Char) : Option (List Char) := do
  let (year, cs) ← readFixed 4 cs
  let cs ← dash? cs
  let (month, cs) ← readFixed 2 cs
  let cs ← dash? cs
  let (day, cs) ← readFixed 2 cs
  guard (Date.inCalendar ⟨year, month, day⟩)
  return cs
where
  dash? : List Char → Option (List Char)
    | '-' :: rest => some rest
    | _ => none

def readTime (cs : List Char) : Option (List Char) := do
  let (hour, cs) ← readFixed 2 cs
  let cs ← colon? cs
  let (minute, cs) ← readFixed 2 cs
  let cs ← colon? cs
  let (second, cs) ← readFixed 2 cs
  guard (hour ≤ 23 ∧ minute ≤ 59 ∧ second ≤ 60)
  match cs with
  | '.' :: rest =>
    let ds := rest.takeWhile isDigit
    guard (ds ≠ [])
    return rest.drop ds.length
  | cs => return cs
where
  colon? : List Char → Option (List Char)
    | ':' :: rest => some rest
    | _ => none

/-- An offset from UTC, if there is one. -/
def readOffset (cs : List Char) : Option (List Char) :=
  match cs with
  | 'Z' :: rest | 'z' :: rest => some rest
  | '+' :: rest | '-' :: rest => do
    let (hour, cs) ← readFixed 2 rest
    match cs with
    | ':' :: cs =>
      let (minute, cs) ← readFixed 2 cs
      guard (hour ≤ 23 ∧ minute ≤ 59)
      return cs
    | _ => none
  | cs => some cs

/-- Whether a text begins with so many digits and then this mark. -/
def beginsWith (count : Nat) (mark : Char) (cs : List Char) : Bool :=
  match readFixed count cs with
  | some (_, c :: _) => c = mark
  | _ => false

/-- The key of the only member of an object for an instant. -/
def instantKey : String := "instant"

def readInstant (cs : List Char) : Option (Json.Tree × List Char) := do
  let rest ←
    if beginsWith 2 ':' cs then readTime cs
    else do
      let rest ← readDate cs
      match rest with
      | 'T' :: time | 't' :: time | ' ' :: time =>
        if beginsWith 2 ':' time then readOffset (← readTime time) else some rest
      | _ => some rest
  let text := String.ofList (cs.take (cs.length - rest.length))
  return (.object [(some instantKey, .string (some text))] true, rest)

def isOctal (c : Char) : Bool := '0' ≤ c && c ≤ '7'

def isBinary (c : Char) : Bool := c = '0' || c = '1'

def readNumber (cs : List Char) : Option (Json.Tree × List Char) :=
  if beginsWith 4 '-' cs || beginsWith 2 ':' cs then readInstant cs
  else
    match cs with
    | '0' :: 'x' :: rest => readRadix 16 (fun c => (hexValue? c).isSome) rest
    | '0' :: 'o' :: rest => readRadix 8 isOctal rest
    | '0' :: 'b' :: rest => readRadix 2 isBinary rest
    | cs => readDecimal cs

end Toml
end Publishing
