import Publishing.Shell.Utility.SearchPattern

/-
What stands between brackets in an expression: single characters, ranges of them, and
classes that have a name.
-/

namespace Publishing
namespace Shell
namespace SearchPattern

/-- A text between two brackets that mark it, such as the name of a class, and what follows. -/
def marked? (mark : Letter) : List Letter → Option (Bytes × List Letter)
  | l :: [']'] :: rest => if l = mark then some ([], rest) else next l ([']'] :: rest)
  | l :: rest => next l rest
  | [] => none
where
  next (l : Letter) (rest : List Letter) : Option (Bytes × List Letter) :=
    (marked? mark rest).map fun r => (l ++ r.1, r.2)

/-- The class with a name.  Letters beyond ASCII are in some of them. -/
def class? (name : Bytes) : Option (Char → Bool) :=
  let text := String.ofList name
  let wide := ["alpha", "alnum", "graph", "print"].contains text
  (CharClass.named? text).map fun accepts c => accepts c || (wide && 128 ≤ c.toNat)

/-- Something between brackets.  A byte that belongs to no character finds nothing. -/
inductive Member where
  | single (c : Option Char)
  | range (a b : Option Char)
  | several (accepts : Char → Bool)

namespace Member

def holds (m : Member) (c : Char) : Bool :=
  match m with
  | single a => a = some c
  | range (some a) (some b) => a ≤ c && c ≤ b
  | range _ _ => false
  | several accepts => accepts c

/-- The letters that brackets with these members find. -/
def toPattern (negated : Bool) (ms : List Member) : SearchPattern :=
  one fun l => match Letter.char? l with
    | some c => ms.any (·.holds c) != negated
    | none => false

/-- Whether these are the members of a class that lacks its second brackets. -/
def confusing (ms : List Member) : Bool :=
  let colon (m : Option Member) : Bool := match m with
    | some (single (some ':')) => true
    | _ => false
  let plain := ms.all fun m => match m with
    | single _ => true
    | _ => false
  plain && colon ms.head? && colon ms.getLast? && ms.any fun m => !colon (some m)

def unclosed : String := "Unmatched [, [^, [:, [., or [="

/-- The next member before it is known whether it begins a range. -/
def next (l : Letter) (rest : List Letter) : Except String (Member × List Letter) :=
  match l, rest with
  | ['['], [mark] :: more =>
    if mark = ':' ∨ mark = '=' ∨ mark = '.' then
      match marked? [mark] more with
      | none => .error unclosed
      | some (name, rest) =>
        if mark = ':' then
          match class? name with
          | some accepts => .ok (several accepts, rest)
          | none => .error "Invalid character class name"
        else
          match (Bytes.toText name).toList with
          | [c] => .ok (if mark = '.' then single (some c) else several (· = c), rest)
          | _ => .error "Invalid collation character"
    else .ok (single (some '['), rest)
  | l, rest => .ok (single l.char?, rest)

/-- The members up to the bracket that closes them, and what follows it.  A bracket that comes
first closes nothing. -/
def all (fuel : Nat) (first : Bool) (l : List Letter) :
    Except String (List Member × List Letter) :=
  match fuel, l with
  | 0, _ | _, [] => .error unclosed
  | fuel + 1, l :: rest =>
    if l = [']'] ∧ !first then .ok ([], rest)
    else if l = ['-'] ∧ !first ∧ rest.head? ≠ some [']'] then .error "Invalid range end"
    else
      (next l rest).bind fun (m, rest) =>
        match m, rest with
        | single a, ['-'] :: r :: more =>
          if r = [']'] then go fuel m rest
          else
            (next r more).bind fun (n, rest) =>
              match a, n with
              | some a, single (some b) =>
                if b < a then .error "Invalid range end"
                else go fuel (range (some a) (some b)) rest
              | a, single b => go fuel (range a b) rest
              | _, _ => .error "Invalid range end"
        | single _, [['-']] => .error unclosed
        | m, rest => go fuel m rest
where
  go (fuel : Nat) (m : Member) (rest : List Letter) : Except String (List Member × List Letter) :=
    (all fuel false rest).map fun r => (m :: r.1, r.2)

end Member
end SearchPattern
end Shell
end Publishing
