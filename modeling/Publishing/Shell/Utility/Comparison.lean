import Publishing.Shell.Numeral

/-
Orders of lines: by their bytes, or by the number, the month or the version that they begin
with.
-/

namespace Publishing
namespace Shell

/-- What is compared. -/
inductive Comparing where
  | bytes
  | numbers
  | floats
  | sizes
  | months
  | versions
  deriving DecidableEq

/-- How a part of a line is compared. -/
structure Comparison where
  /-- Blanks in front do not count. -/
  blanks : Bool
  folds : Bool
  /-- Only blanks, letters and digits count. -/
  dictionary : Bool
  /-- Only what can be printed counts. -/
  printable : Bool
  backwards : Bool
  basis : Comparing
  deriving DecidableEq

namespace Comparison

def compareBytes : Bytes → Bytes → Ordering
  | [], [] => .eq
  | [], _ => .lt
  | _, [] => .gt
  | x :: a, y :: b => if x < y then .lt else if y < x then .gt else compareBytes a b

/-- The sign of a text, and what follows it. -/
def signed (cs : Bytes) : Bool × Bytes :=
  match cs.dropWhile Bytes.isBlank with
  | '-' :: cs => (true, cs)
  | cs => (false, cs)

/-- A whole number and its places, without zeros that do not count. -/
def digits (cs : Bytes) : Bytes × Bytes :=
  let whole := cs.takeWhile Text.isDigit
  let places := match cs.drop whole.length with
    | '.' :: rest => rest.takeWhile Text.isDigit
    | _ => []
  (whole.dropWhile (· = '0'), (places.reverse.dropWhile (· = '0')).reverse)

/-- The order of two numbers without their signs. -/
def compareDigits (a b : Bytes × Bytes) : Ordering :=
  (compareOfLessAndEq a.1.length b.1.length).then
    ((compareBytes a.1 b.1).then (compareBytes a.2 b.2))

def isZero (a : Bytes × Bytes) : Bool := a.1.isEmpty && a.2.isEmpty

/-- The order of the numbers at the front of two texts.  Without a number it is zero. -/
def compareNumbers (a b : Bytes) : Ordering :=
  let (s, x) := signed a
  let (t, y) := signed b
  let x := digits x
  let y := digits y
  let s := s && !isZero x
  let t := t && !isZero y
  if s ∧ t then compareDigits y x
  else if s then .lt
  else if t then .gt
  else compareDigits x y

/-- The order of numbers with an exponent.  Those that are none come first. -/
def compareFloats (a b : Bytes) : Ordering :=
  let rank (x : Option Numeral) : Nat := match x with
    | none => 0
    | some x => match x.magnitude with
      | .notANumber => 1
      | .infinite => if x.negative then 2 else 4
      | .finite _ => 3
  let x := Numeral.front? a
  let y := Numeral.front? b
  (compareOfLessAndEq (rank x) (rank y)).then (match x, y with
    | some ⟨s, .finite x, _⟩, some ⟨t, .finite y, _⟩ =>
      let p : Int := if s then -x.num else x.num
      let q : Int := if t then -y.num else y.num
      compareOfLessAndEq (p * y.den) (q * x.den)
    | _, _ => .eq)

/-- The order of numbers with a unit behind them, of which a greater unit decides. -/
def compareSizes (a b : Bytes) : Ordering :=
  let unit (cs : Bytes) : Int :=
    let (negative, cs) := signed cs
    let size := (Numeral.digits Text.isDigit cs).2.2
    let n : Nat := match (cs.drop size).head? with
      | some c => ("KMGTPEZYRQ".toList.idxOf (if c = 'k' then 'K' else c) + 1) % 11
      | none => 0
    if isZero (digits cs) then 0 else if negative then -n else n
  let below (cs : Bytes) : Bool := (signed cs).1 && !isZero (digits (signed cs).2)
  if below a ≠ below b then compareNumbers a b
  else (compareOfLessAndEq (unit a) (unit b)).then (compareNumbers a b)

/-- The number of the month whose name begins a text, or zero. -/
def month (cs : Bytes) : Nat :=
  let name := String.ofList (((cs.dropWhile Bytes.isBlank).take 3).map Char.toUpper)
  (["JAN", "FEB", "MAR", "APR", "MAY", "JUN", "JUL", "AUG", "SEP", "OCT", "NOV", "DEC"].idxOf name
    + 1) % 13

/-- The rank of a character in the text of a version.  A tilde comes before the end. -/
def versionRank : Option Char → Int
  | none => 0
  | some c =>
    if Text.isDigit c then 0
    else if c.isAlpha then c.toNat
    else if c = '~' then -1
    else (c.toNat : Int) + 256

/-- The order of versions: texts without digits by rank, and numbers by their value. -/
def compareVersions (fuel : Nat) (a b : Bytes) : Ordering :=
  match fuel with
  | 0 => .eq
  | fuel + 1 =>
    if a = [] ∧ b = [] then .eq
    else
      let isText (c : Option Char) : Bool := c.any (!Text.isDigit ·)
      if isText a.head? ∨ isText b.head? then
        (compareOfLessAndEq (versionRank a.head?) (versionRank b.head?)).then
          (compareVersions fuel (if isText a.head? then a.tail else a)
            (if isText b.head? then b.tail else b))
      else
        let x := a.takeWhile Text.isDigit
        let y := b.takeWhile Text.isDigit
        (compareOfLessAndEq (Text.numberOf x) (Text.numberOf y)).then
          (compareVersions fuel (a.drop x.length) (b.drop y.length))

/-- The length of a name without its suffixes, each of which is a point, a letter, and
letters and digits. -/
def stemLength (cs : Bytes) : Nat :=
  let isPart (part : Bytes) : Bool := match part with
    | c :: cs => (c.isAlpha || c = '~') && cs.all fun c => c.isAlphanum || c = '~'
    | [] => false
  let suffixes := ((Bytes.splitOn '.' cs).tail.reverse.takeWhile isPart)
  cs.length - (suffixes.map fun part => part.length + 1).foldl (· + ·) 0

/-- The order of names with versions in them.  Their suffixes only count if all else is
equal. -/
def compareNames (a b : Bytes) : Ordering :=
  if a = b then .eq
  else if a = [] then .lt
  else if b = [] then .gt
  else
    let rank (cs : Bytes) : Nat :=
      if cs = ['.'] then 0 else if cs = ['.', '.'] then 1 else if cs.head? = some '.' then 2 else 3
    let x := a.take (stemLength a)
    let y := b.take (stemLength b)
    (compareOfLessAndEq (rank a) (rank b)).then
      ((if x = y then .eq else compareVersions (a.length + b.length + 2) x y).then
        (compareVersions (a.length + b.length + 2) a b))

/-- The letters that stand for ways to compare. -/
def ofLetters (letters : List Char) : Comparison :=
  { blanks := letters.contains 'b'
    folds := letters.contains 'f'
    dictionary := letters.contains 'd'
    printable := letters.contains 'i' && !letters.contains 'd'
    backwards := letters.contains 'r'
    basis :=
      if letters.contains 'n' then .numbers
      else if letters.contains 'g' then .floats
      else if letters.contains 'h' then .sizes
      else if letters.contains 'M' then .months
      else if letters.contains 'V' then .versions
      else .bytes }

/-- The letters of ways to compare that do not go together, in their order. -/
def clash? (letters : List Char) : Option Bytes :=
  let has (c : Char) : Nat := if letters.contains c then 1 else 0
  let others := min 1 (has 'V' + has 'R' + has 'd' + has 'i')
  if 1 < has 'n' + has 'g' + has 'h' + has 'M' + others then
    some ("dfghiMnRV".toList.filter fun c =>
      letters.contains c && !(c = 'i' && letters.contains 'd'))
  else none

def compare (k : Comparison) (a b : Bytes) : Ordering :=
  let body (cs : Bytes) : Bytes :=
    let cs := if k.blanks then cs.dropWhile Bytes.isBlank else cs
    let cs := if k.dictionary then cs.filter fun c => Bytes.isBlank c || c.isAlphanum
      else if k.printable then cs.filter fun c => ' ' ≤ c && c ≤ '~'
      else cs
    if k.folds then cs.map Char.toUpper else cs
  let r := match k.basis with
    | .bytes => compareBytes (body a) (body b)
    | .numbers => compareNumbers a b
    | .floats => compareFloats a b
    | .sizes => compareSizes a b
    | .months => compareOfLessAndEq (month a) (month b)
    | .versions => compareNames (body a) (body b)
  if k.backwards then r.swap else r

example : compareNumbers "-.5".toList "0".toList = .lt := by decide +kernel
example : compareNumbers " 10 x".toList "9".toList = .gt := by decide +kernel
example : compareNames "v1.9".toList "v1.10".toList = .lt := by decide +kernel

end Comparison
end Shell
end Publishing
