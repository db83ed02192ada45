import Publishing.Shell.State

/-
The permissions of files.

A mode has three bits each for its owner, its group and all others, in this order, which
allow to read, to write and to run.  Three more bits stand in front.
-/

namespace Publishing
namespace Shell

namespace Mode

def all : Nat := 0o7777

/-- The bits that letters for classes of users stand for. -/
def classBits (letters : Bytes) : Nat :=
  letters.foldl (fun n c => n ||| match c with
    | 'u' => 0o4700
    | 'g' => 0o2070
    | 'o' => 0o1007
    | _ => all) 0

/-- The bits that letters for permissions stand for, in all classes.  `runs` says whether
someone can run the file now. -/
def permissionBits (runs : Bool) (mode : Nat) (letters : Bytes) : Nat :=
  letters.foldl (fun n c => n ||| match c with
    | 'r' => 0o444
    | 'w' => 0o222
    | 'x' => 0o111
    | 'X' => if runs then 0o111 else 0
    | 's' => 0o6000
    | 't' => 0o1000
    | 'u' => mode / 64 % 8 * 0o111
    | 'g' => mode / 8 % 8 * 0o111
    | _ => mode % 8 * 0o111) 0

def without (mode bits : Nat) : Nat := mode &&& (all ^^^ bits)

/-- The changes after the classes of one clause: signs with letters behind each of them. -/
def change? (whom kept : Nat) (directory : Bool) (fuel : Nat) (mode : Nat) (cs : Bytes) :
    Option Nat :=
  match fuel, cs with
  | 0, _ => none
  | _, [] => some mode
  | fuel + 1, sign :: cs =>
    let letters := cs.takeWhile fun c => "rwxXstugo".toList.contains c
    let runs := directory || mode &&& 0o111 ≠ 0
    let bits := permissionBits runs mode letters &&& whom &&& kept
    let next (mode : Nat) : Option Nat :=
      change? whom kept directory fuel mode (cs.drop letters.length)
    match sign with
    | '+' => next (mode ||| bits)
    | '-' => next (without mode bits)
    | '=' => next (without mode (if directory then without whom 0o6000 else whom) ||| bits)
    | _ => none

/-- The mode that clauses of letters make of another one.  Where they name no class, the
bits of the mask stay as they are. -/
def changed? (mask : Nat) (directory : Bool) (mode : Nat) (cs : Bytes) : Option Nat :=
  (Bytes.splitOn ',' cs).foldl (fun mode? clause => mode?.bind fun mode =>
    let whom := clause.takeWhile fun c => "ugoa".toList.contains c
    let signs := clause.drop whom.length
    if signs = [] then none
    else if whom = [] then change? all (without all mask) directory (signs.length + 1) mode signs
    else change? (classBits whom) all directory (signs.length + 1) mode signs) (some mode)

/-- The mode that octal digits write. -/
def ofDigits? (cs : Bytes) : Option Nat :=
  if cs ≠ [] ∧ cs.all fun c => '0' ≤ c ∧ c ≤ '7' then
    let n := cs.foldl (fun n c => n * 8 + Text.digitValue c) 0
    if n ≤ all then some n else none
  else none

/-- The mode that a text makes of another one. -/
def ofText? (mask : Nat) (directory : Bool) (mode : Nat) (cs : Bytes) : Option Nat :=
  (ofDigits? cs).or (changed? mask directory mode cs)

def digits (mode : Nat) : Bytes :=
  [mode / 512, mode / 64, mode / 8, mode].map fun n => Char.ofNat (48 + n % 8)

/-- The letters of a mode, with a letter for a special bit in the place of the one for
running. -/
def letters (mode : Nat) : Bytes :=
  part (mode / 64) (mode / 2048 % 2 = 1) 's' ++ part (mode / 8) (mode / 1024 % 2 = 1) 's' ++
    part mode (mode / 512 % 2 = 1) 't'
where
  part (n : Nat) (special : Bool) (mark : Char) : Bytes :=
    [if n / 4 % 2 = 1 then 'r' else '-', if n / 2 % 2 = 1 then 'w' else '-',
      if n % 2 = 1 then (if special then mark else 'x')
      else if special then mark.toUpper else '-']

example : String.ofList (letters 0o4755) = "rwsr-xr-x" := by decide +kernel
example : changed? 0o22 false 0o644 "u+x,go=".toList = some 0o700 := by decide +kernel
example : changed? 0o22 false 0o644 "+w".toList = some 0o644 := by decide +kernel

end Mode

namespace Act

/-- The mode of what is at a place: the one it was given, or the one that new files get. -/
def modeOf (place : List String) (isDirectory : Bool) : Act Nat := do
  let s ← get
  return (s.modes.lookup place).getD
    (Mode.without (if isDirectory then 0o777 else 0o666) s.context.mask)

def setMode (place : List String) (mode : Nat) : Act Unit :=
  modify fun s => { s with modes := (place, mode) :: s.modes.filter fun e => e.1 ≠ place }

/-- Forget the modes of what is at a place or below. -/
def forgetModes (place : List String) : Act Unit :=
  modify fun s => { s with modes := s.modes.filter fun e => !place.isPrefixOf e.1 }

/-- Whether the file at a place can be run. -/
def canRun (place : List String) : Act Bool := return (← modeOf place false) &&& 0o111 ≠ 0

/-- Have new files get other modes, and keep those of the files that are there. -/
def setMask (mask : Nat) : Act Unit := do
  let s ← get
  let here := s.files.workingDirectory
  let nodes := match s.files.nodeAt? here with
    | some n => FileNode.nodes here n
    | none => []
  for (place, n) in nodes do
    if (s.modes.lookup place).isNone then setMode place (← modeOf place n.isDirectory)
  modifyContext fun c => { c with mask := mask }

end Act
end Shell
end Publishing
