import Publishing.Shell.Utility.Basic
import Publishing.Shell.Utility.SearchPattern

/-
What is searched for in lines, and the lines in which it is found.
-/

namespace Publishing
namespace Shell

namespace Program

structure Search where
  pattern : SearchPattern
  folds : Bool
  choice : SearchPattern.Choice
  /-- Only whole words are found. -/
  words : Bool
  /-- Only whole lines are found. -/
  lines : Bool

namespace Search

/-- Search for the longest text, wherever it is. -/
def anywhere (p : SearchPattern) (folds : Bool) : Search := ⟨p, folds, .longest, false, false⟩

def allowed (q : Search) (s t : SearchPattern.Spot) : Bool :=
  (!q.lines || (s.before.isNone && t.rest.isEmpty)) &&
  (!q.words || (!s.before.any Letter.isWordChar && !t.rest.head?.any Letter.isWordChar))

/-- What is found from a spot on. -/
def find? (q : Search) (s : SearchPattern.Spot) :
    Option (SearchPattern.Spot × SearchPattern.Spot) :=
  q.pattern.find? q.folds q.choice q.allowed (s.rest.length + 1) s

def finds (q : Search) (line : Bytes) : Bool :=
  (q.find? (.start (Letter.ofBytes line))).isSome

/-- All that is found in a line, with the number of bytes in front of it. -/
def all (q : Search) (fuel : Nat) (offset : Nat) (s : SearchPattern.Spot) : List (Nat × Bytes) :=
  match fuel with
  | 0 => []
  | fuel + 1 =>
    match q.find? s with
    | none => []
    | some (a, b) =>
      let skipped := (s.rest.take (a.offset - s.offset)).flatten.length
      let found := (a.rest.take (b.offset - a.offset)).flatten
      let next := if found.isEmpty then b.advance 1 else b
      let used := (s.rest.take (next.offset - s.offset)).flatten.length
      let rest := if next.offset = b.offset ∨ !b.rest.isEmpty then
        all q fuel (offset + used) next else []
      (offset + skipped, found) :: rest

end Search

/-- A line, its number and the number of bytes in front of it. -/
structure PlacedLine where
  line : Bytes
  number : Nat
  offset : Nat
  selected : Bool

namespace PlacedLine

/-- The lines of a text that end with a character. -/
def ofBytes (selects : Bytes → Bool) (ending : Char) (cs : Bytes) : List PlacedLine :=
  ((bodiesOf ending cs).foldl (fun (acc : List PlacedLine × Nat × Nat) line =>
    (⟨line, acc.2.1, acc.2.2, selects line⟩ :: acc.1,
      acc.2.1 + 1, acc.2.2 + line.length + 1)) ([], 1, 0)).1.reverse

/-- The lines around those that are selected. -/
def withContext (before after : Nat) (lines : List PlacedLine) : List PlacedLine :=
  let chosen := (lines.filter (·.selected)).map (·.number)
  lines.filter fun l => chosen.any fun n => n ≤ l.number + before && l.number ≤ n + after

/-- Only so many lines stay selected. -/
def upTo (count : Nat) (lines : List PlacedLine) : List PlacedLine :=
  (lines.foldl (fun (acc : List PlacedLine × Nat) l =>
    if count ≤ acc.2 then ({ l with selected := false } :: acc.1, acc.2)
    else (l :: acc.1, if l.selected then acc.2 + 1 else acc.2)) ([], 0)).1.reverse

end PlacedLine

end Program
end Shell
end Publishing
