import Publishing.Shell.Utility.Basic

/-
The program that changes, takes away or squeezes bytes by sets.
-/

namespace Publishing
namespace Shell

namespace Program

/-- A part of a set. -/
inductive SetPart where
  | one (c : Char)
  | range (a b : Char)
  | named (name : String) (p : Char → Bool)
  /-- A byte again and again: as often as given, or to fill up. -/
  | again (c : Char) (count : Nat)

def allBytes : Bytes := (List.range 256).map Char.ofNat

def SetPart.bytes : SetPart → Bytes
  | one c => [c]
  | range a b => (List.range (b.toNat + 1 - a.toNat)).map fun i => Char.ofNat (a.toNat + i)
  | named _ p => allBytes.filter p
  | again c n => List.replicate n c

/-- A byte of a set, which may be written with a backslash, and the rest. -/
def setByte : Bytes → Option (Char × Bytes)
  | [] => none
  | '\\' :: rest =>
    let ds := (rest.take 3).takeWhile isOctal
    match rest with
    | [] => some ('\\', [])
    | c :: more =>
      if ds ≠ [] then some (octalByte ds, rest.drop ds.length)
      else if c = 'e' then some (c, more)
      else some ((controlOf? c).getD c, more)
  | c :: rest => some (c, rest)

/-- The parts of a set, or what is wrong with it. -/
def setParts (fuel : Nat) (cs : Bytes) : Except Bytes (List SetPart) :=
  match fuel with
  | 0 => .ok []
  | fuel + 1 =>
    let plain : Except Bytes (List SetPart) :=
      match setByte cs with
      | none => .ok []
      | some (a, rest) =>
        match rest with
        | '-' :: more =>
          match setByte more with
          | some (b, rest) =>
            if b < a then
              .error ("range-endpoints of '".toList ++ [a, '-', b] ++
                "' are in reverse collating sequence order".toList)
            else (setParts fuel rest).map (.range a b :: ·)
          | none => .ok [.one a, .one '-']
        | rest => (setParts fuel rest).map (.one a :: ·)
    match cs with
    | [] => .ok []
    | '[' :: ':' :: rest =>
      let name := rest.takeWhile (· ≠ ':')
      match rest.drop name.length with
      | ':' :: ']' :: rest =>
        match CharClass.named? (String.ofList name) with
        | some p => (setParts fuel rest).map (.named (String.ofList name) p :: ·)
        | none => .error ("invalid character class ".toList ++ quotedWord name)
      | _ => plain
    | '[' :: '=' :: c :: '=' :: ']' :: rest => (setParts fuel rest).map (.one c :: ·)
    | '[' :: '=' :: rest =>
      let name := rest.takeWhile (· ≠ '=')
      match rest.drop name.length with
      | '=' :: ']' :: _ =>
        .error (name ++ ": equivalence class operand must be a single character".toList)
      | _ => plain
    | '[' :: c :: '*' :: rest =>
      let ds := rest.takeWhile Text.isDigit
      match rest.drop ds.length with
      | ']' :: rest =>
        let n := if ds.head? = some '0' then
            ds.foldl (fun n c => n * 8 + Text.digitValue c) 0
          else Text.numberOf ds
        (setParts fuel rest).map (.again c n :: ·)
      | _ => plain
    | _ => plain

/-- The bytes of a set.  What fills it up makes it as long as `size`. -/
def setBytes (size : Nat) (parts : List SetPart) : Bytes :=
  let known := (parts.map fun p => p.bytes.length).foldl (· + ·) 0
  parts.flatMap fun
    | .again c 0 => List.replicate (size - known) c
    | p => p.bytes

/-- Of equal bytes of a set that follow each other only the first. -/
def squeezeBytes (isIn : Char → Bool) : (last : Option Char) → Bytes → Bytes → Bytes
  | _, [], acc => acc.reverse
  | last, c :: cs, acc =>
    if last = some c ∧ isIn c then squeezeBytes isIn last cs acc
    else squeezeBytes isIn (some c) cs (c :: acc)

/-- Whether a text ends in a backslash that hides nothing. -/
def endsOpen (cs : Bytes) : Bool := (cs.reverse.takeWhile (· = '\\')).length % 2 = 1

def isOtherClass : SetPart → Bool
  | .named name _ => name ≠ "upper" && name ≠ "lower"
  | _ => false

def tr : Utility := fun args =>
  withOptions "tr" 1 ⟨"cCdst", "", [("complement", 'c'), ("delete", 'd'), ("squeeze-repeats", 's'),
    ("truncate-set1", 't')]⟩ args fun g => do
    let deletes := g.has 'd'
    let squeezes := g.has 's'
    match g.operands with
    | [] => misuse "tr" 1 "missing operand".toList
    | first :: others =>
      if others.isEmpty ∧ deletes = squeezes then
        report "tr" ("missing operand after ".toList ++ quotedWord first)
        Act.note (if deletes then
            "Two strings must be given when both deleting and squeezing repeats."
          else "Two strings must be given when translating.").toList
        hint "tr"
        return 1
      else if 1 < others.length ∨ (others.length = 1 ∧ deletes ∧ !squeezes) then
        let extra := if others.length = 1 then others.headD [] else others.getD 1 []
        report "tr" ("extra operand ".toList ++ quotedWord extra)
        if others.length = 1 then
          Act.note
            "Only one string may be given when deleting without squeezing repeats.".toList
        hint "tr"
        return 1
      else
        let parts (cs : Bytes) : Except Bytes (List SetPart) := setParts (cs.length + 1) cs
        match parts first, parts (others.headD []) with
        | .error cs, _ | _, .error cs =>
          report "tr" cs
          return 1
        | .ok firstParts, .ok secondParts =>
          let translates := !deletes ∧ !others.isEmpty
          if endsOpen first ∨ endsOpen (others.headD []) then
            report "tr" "warning: an unescaped backslash at end of string is not portable".toList
          if translates ∧ secondParts.any isOtherClass then
            report "tr" ("when translating, the only character classes that may appear in\n" ++
              "string2 are 'upper' and 'lower'").toList
            return 1
          let old := setBytes 0 firstParts
          let old := if g.has 'c' ∨ g.has 'C' then allBytes.filter (!old.contains ·) else old
          let new := setBytes old.length secondParts
          if !deletes ∧ !others.isEmpty ∧ new = [] ∧ !g.has 't' then
            report "tr" "when not truncating set1, string2 must be non-empty".toList
            return 1
          let oldTable := (allBytes.map old.contains).toArray
          let newTable := (allBytes.map new.contains).toArray
          let isOld (c : Char) : Bool := oldTable.getD c.toNat false
          let isNew (c : Char) : Bool := newTable.getD c.toNat false
          match ← readInput ['-'] with
          | .error f =>
            report "tr" ("read error: " ++ f.reason).toList
            return 1
          | .ok cs =>
            let cs :=
              if deletes then
                let kept := cs.filter (!isOld ·)
                if squeezes then squeezeBytes isNew none kept [] else kept
              else if others.isEmpty then squeezeBytes isOld none cs []
              else
                let fill := new.getLast?.getD ' '
                let pairs := old.zipIdx.filter fun p => p.2 < new.length || !g.has 't'
                let table := pairs.foldl (fun (t : Array Char) p =>
                  t.setIfInBounds p.1.toNat (new.getD p.2 fill)) allBytes.toArray
                let changed := cs.map fun c => table.getD c.toNat c
                if squeezes then squeezeBytes isNew none changed [] else changed
            Act.print cs
            return 0

end Program
end Shell
end Publishing
