import Publishing.Shell.CharClass

/-
The expressions with which programs search in lines.

Of the places where an expression fits, the first one counts.  What it finds there is the
longest text, or the text that comes first in the order in which the expression is tried.
-/

namespace Publishing
namespace Shell

/-- The bytes of one character, or one byte that belongs to none. -/
abbrev Letter := Bytes

namespace Letter

/-- How many bytes the character has that begins with this one. -/
def size (c : Char) : Nat :=
  let n := c.toNat
  if n < 0xc2 then 1 else if n < 0xe0 then 2 else if n < 0xf0 then 3 else if n < 0xf5 then 4 else 1

def ofBytes (cs : Bytes) : List Letter :=
  match cs with
  | [] => []
  | c :: rest =>
    let whole := c :: rest.take (size c - 1)
    if 1 < whole.length ∧ (Text.decode? (Bytes.toByteArray whole)).isSome then
      whole :: ofBytes (rest.drop (size c - 1))
    else [c] :: ofBytes rest
termination_by cs.length
decreasing_by all_goals simp only [List.length_cons, List.length_drop]; omega

/-- The character, if the bytes are those of one. -/
def char? (l : Letter) : Option Char :=
  match l with
  | [c] => if c.toNat < 128 then some c else none
  | l => (Bytes.toText l).toList.head?

def isWordChar (l : Letter) : Bool :=
  match char? l with
  | some c => Bytes.isNameChar c || 128 ≤ c.toNat
  | none => false

def isDigit (l : Letter) : Bool := (char? l).any Text.isDigit

def isSpace (l : Letter) : Bool := (char? l).any Bytes.isSpace

def lower (l : Letter) : Letter := l.map Char.toLower

def upper (l : Letter) : Letter := l.map Char.toUpper

end Letter

/-- The flags of a repetition and of what looks around tell whether most is tried first, and
whether something has to be there. -/
inductive SearchPattern where
  | nothing
  | one (accepts : Letter → Bool)
  /-- A place between two letters, or at an end of the text. -/
  | place (allows : Option Letter → Option Letter → Bool)
  | both (a b : SearchPattern)
  | either (a b : SearchPattern)
  | repeated (a : SearchPattern) (least : Nat) (most : Option Nat) (eager : Bool)
  | group (number : Nat) (a : SearchPattern)
  /-- What a group found. -/
  | again (number : Nat)
  /-- Only the first of the texts that could be found. -/
  | settled (a : SearchPattern)
  | ahead (a : SearchPattern) (wanted : Bool)
  | behind (a : SearchPattern) (wanted : Bool)
  /-- What is found begins only here. -/
  | origin
  /-- Whether the case of letters does not matter. -/
  | folding (folds : Bool) (a : SearchPattern)

namespace SearchPattern

instance : Inhabited SearchPattern := ⟨nothing⟩

def letter (c : Char) : SearchPattern := one fun l => l = [c]

/-- The beginning of the text. -/
def first : SearchPattern := place fun before _ => before.isNone

/-- The end of the text. -/
def last : SearchPattern := place fun _ after => after.isNone

/-- A place with a part of a word before it, and one after it, or without. -/
def edge (allows : Bool → Bool → Bool) : SearchPattern :=
  place fun before after => allows (before.any Letter.isWordChar) (after.any Letter.isWordChar)

/-- The expression for a text that stands for itself. -/
def literal (cs : Bytes) : SearchPattern :=
  (Letter.ofBytes cs).foldl (fun p l => both p (one fun m => m = l)) nothing

/-- How many letters an expression finds, if that is always the same. -/
def width? : SearchPattern → Option Nat
  | nothing | place _ | ahead _ _ | behind _ _ | origin => some 0
  | one _ => some 1
  | both a b => (width? a).bind fun m => (width? b).map fun n => m + n
  | either a b => (width? a).bind fun m => if width? b = some m then some m else none
  | repeated a least most _ =>
    if most = some least then (width? a).map fun n => n * least else none
  | group _ a | settled a | folding _ a => width? a
  | again _ => none

/-! ## Matching -/

/-- A place in a text, with what the groups found on the way to it. -/
structure Spot where
  text : List Letter
  before : Option Letter
  rest : List Letter
  offset : Nat
  groups : List (Nat × List Letter)
  origin : Option Nat

namespace Spot

def start (text : List Letter) : Spot := ⟨text, none, text, 0, [], none⟩

/-- Go on by some letters. -/
def advance (s : Spot) (n : Nat) : Spot :=
  if n = 0 then s
  else { s with before := (s.rest.drop (n - 1)).head?, rest := s.rest.drop n,
                offset := s.offset + n }

/-- Of the spots at the same place only the first. -/
def distinct (l : List Spot) : List Spot :=
  (l.foldl (fun acc s => if acc.any fun t => t.offset = s.offset then acc else s :: acc)
    []).reverse

/-- The spots from the nearest to a spot back to the beginning of the text. -/
def back (s : Spot) : List Spot :=
  (List.range (s.offset + 1)).map fun n =>
    { start s.text with groups := s.groups }.advance (s.offset - n)

end Spot

/-- The spots after repetitions, in the order in which they are tried. -/
def repeatedEnds (step : Spot → List Spot) (most : Option Nat) (eager : Bool)
    (fuel least : Nat) (s : Spot) : List Spot :=
  match fuel with
  | 0 => [s]
  | fuel + 1 =>
    let here := if least = 0 then [s] else []
    if most = some 0 then here
    else
      let onward := (step s).filter fun t => s.offset < t.offset || 0 < least
      let more := Spot.distinct (onward.flatMap
        (repeatedEnds step (most.map (· - 1)) eager fuel (least - 1)))
      if eager then more ++ here else here ++ more

/-- The spots after repetitions of single letters. -/
def runEnds (accepts : Letter → Bool) (most : Option Nat) (eager : Bool) (least : Nat)
    (s : Spot) : List Spot :=
  let run := (s.rest.takeWhile accepts).length
  let longest := match most with
    | some m => min m run
    | none => run
  if longest < least then []
  else (List.range (longest + 1 - least)).map fun i =>
    s.advance (if eager then longest - i else least + i)

def folded (folds : Bool) (accepts : Letter → Bool) (l : Letter) : Bool :=
  accepts l || (folds && (accepts l.lower || accepts l.upper))

/-- The spots to which an expression leads from one. -/
def ends (folds : Bool) : SearchPattern → Spot → List Spot
  | nothing, s => [s]
  | one accepts, s =>
    match s.rest with
    | l :: _ => if folded folds accepts l then [s.advance 1] else []
    | [] => []
  | place allows, s => if allows s.before s.rest.head? then [s] else []
  | both a b, s => (ends folds a s).flatMap (ends folds b)
  | either a b, s => ends folds a s ++ ends folds b s
  | repeated (one accepts) least most eager, s =>
    runEnds (folded folds accepts) most eager least s
  | repeated a least most eager, s =>
    repeatedEnds (ends folds a) most eager (s.rest.length + least + 2) least s
  | group n a, s =>
    (ends folds a s).map fun t => { t with
      groups := (n, s.rest.take (t.offset - s.offset)) :: t.groups }
  | again n, s =>
    match s.groups.lookup n with
    | none => []
    | some found =>
      let there := s.rest.take found.length
      if there = found ∨ (folds ∧ there.map Letter.lower = found.map Letter.lower) then
        [s.advance found.length]
      else []
  | settled a, s => (ends folds a s).take 1
  | ahead a wanted, s =>
    match ends folds a s with
    | t :: _ => if wanted then [{ s with groups := t.groups }] else []
    | [] => if wanted then [] else [s]
  | behind a wanted, s =>
    let arrives (t : Spot) : Bool := (ends folds a t).any fun u => u.offset = s.offset
    if s.back.any arrives = wanted then [s] else []
  | origin, s => [{ s with origin := some s.offset }]
  | folding folds a, s => ends folds a s

/-- Which of the texts is found that begin at the same place. -/
inductive Choice where
  | longest
  | earliest

def Choice.pick (k : Choice) (l : List Spot) : Option Spot :=
  match k with
  | .earliest => l.head?
  | .longest => l.foldl (fun best t =>
    match best with
    | some b => if b.offset < t.offset then some t else some b
    | none => some t) none

/-- What an expression finds in a text from a place on: the spots at its beginning and its end,
among those that are allowed. -/
def find? (p : SearchPattern) (folds : Bool) (k : Choice) (allowed : Spot → Spot → Bool)
    (fuel : Nat) (s : Spot) : Option (Spot × Spot) :=
  match fuel with
  | 0 => none
  | fuel + 1 =>
    match k.pick ((ends folds p s).filter (allowed s)) with
    | some t => some (s.advance (t.origin.getD s.offset - s.offset), { t with origin := none })
    | none => if s.rest.isEmpty then none else find? p folds k allowed fuel (s.advance 1)

end SearchPattern
end Shell
end Publishing
