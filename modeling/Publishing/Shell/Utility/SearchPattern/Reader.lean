import Publishing.Shell.Utility.SearchPattern.Brackets

/-
How expressions are written.

They come in a basic and an extended form, which differ in the signs that need a
backslash.  A strict reader refuses signs where they mean nothing.
-/

namespace Publishing
namespace Shell
namespace SearchPattern

structure Dialect where
  extended : Bool
  strict : Bool

/-- What stands in an expression. -/
inductive Sign where
  | letter (l : Letter)
  | any
  | brackets
  | opening
  | closing
  | bar
  | star
  | plus
  | option
  | brace
  | caret
  | dollar
  | special (c : Char)
  | again (number : Nat)
  | trailing
  deriving DecidableEq

namespace Sign

/-- The sign that only one of the forms writes without a backslash. -/
def bare? (c : Char) : Option Sign :=
  match c with
  | '(' => some opening
  | ')' => some closing
  | '|' => some bar
  | '+' => some plus
  | '?' => some option
  | '\x7b' => some brace
  | _ => none

/-- The first sign of an expression, and what follows it. -/
def first? (extended : Bool) : List Letter → Option (Sign × List Letter)
  | [] => none
  | ['\\'] :: [] => some (trailing, [])
  | ['\\'] :: [c] :: rest =>
    let sign := match bare? c with
      | some s => if extended then letter [c] else s
      | none =>
        if "wWsSbB<>\x60'".toList.contains c then special c
        else if '1' ≤ c ∧ c ≤ '9' then again (Text.digitValue c)
        else letter [c]
    some (sign, rest)
  | ['\\'] :: l :: rest => some (letter l, rest)
  | [c] :: rest =>
    let sign := match c with
      | '*' => star
      | '.' => any
      | '[' => brackets
      | '^' => caret
      | '$' => dollar
      | c => match bare? c with
        | some s => if extended then s else letter [c]
        | none => letter [c]
    some (sign, rest)
  | l :: rest => some (letter l, rest)

/-- How a sign of repetition is called. -/
def repetition? : Sign → Option String
  | star => some "*"
  | plus => some "+"
  | option => some "?"
  | brace => some "\x7b...\x7d"
  | _ => none

end Sign

/-! ## Intervals -/

/-- What ends a number within braces. -/
inductive NumberEnd where
  | comma
  | closed
  | missing
  deriving DecidableEq

/-- A number within braces, or none if nothing is there or what is there is no number. -/
structure NumberRead where
  value : Option Nat
  fits : Bool
  ending : NumberEnd
  rest : List Letter

def readNumber (extended : Bool) (sofar : Option Nat) (fits : Bool) :
    List Letter → NumberRead
  | [] => ⟨sofar, false, .missing, []⟩
  | ['\x7d'] :: rest =>
    if extended then ⟨sofar, fits, .closed, rest⟩ else readNumber extended sofar false rest
  | ['\\'] :: ['\x7d'] :: rest =>
    if extended then readNumber extended sofar false rest else ⟨sofar, fits, .closed, rest⟩
  | [','] :: rest => ⟨sofar, fits, .comma, rest⟩
  | [c] :: rest =>
    if Text.isDigit c then
      readNumber extended (some (sofar.getD 0 * 10 + Text.digitValue c)) fits rest
    else readNumber extended sofar false rest
  | _ :: rest => readNumber extended sofar false rest

def mostTimes : Nat := 32767

/-- How often, between braces, after the first of them.  It may be no interval at all. -/
def interval? (d : Dialect) (l : List Letter) :
    Except String (Option (Nat × Option Nat × List Letter)) :=
  let bad := "Invalid content of \\\x7b\\\x7d"
  let a := readNumber d.extended none true l
  if a.fits ∧ a.value.isNone ∧ a.ending ≠ .comma then .error bad
  else
    let b := if a.ending = .comma then readNumber d.extended none true a.rest else a
    let least := a.value.getD 0
    if !a.fits ∨ !b.fits then
      if d.extended ∧ !d.strict then .ok none
      else .error (if b.ending = .missing then "Unmatched \\\x7b" else bad)
    else if b.ending ≠ .closed ∨ b.value.any (· < least) then .error bad
    else if mostTimes < b.value.getD least then .error "Regular expression too big"
    else .ok (some (least, b.value, b.rest))

/-! ## Expressions -/

/-- What is still to be read, how many groups were opened, and which of them are closed. -/
structure Source where
  rest : List Letter
  groups : Nat
  closed : List Nat
  warnings : List String
  confusing : Bool

/-- Reads an expression, or tells what is wrong with it. -/
abbrev Read := StateT Source (Except String)

namespace Read

def wrong {α : Type} (text : String) : Read α := throw text

def peek (d : Dialect) : Read (Option Sign) :=
  return (Sign.first? d.extended (← get).rest).map (·.1)

def skip (d : Dialect) : Read Unit :=
  modify fun s => { s with rest := ((Sign.first? d.extended s.rest).map (·.2)).getD [] }

def warn (text : String) : Read Unit :=
  modify fun s => { s with warnings := s.warnings ++ [text] }

/-- The class that brackets stand for, after the first of them. -/
def brackets : Read SearchPattern := do
  let s ← get
  let (negated, rest) : Bool × List Letter := match s.rest with
    | ['^'] :: rest => (true, rest)
    | rest => (false, rest)
  if rest.isEmpty then wrong "Invalid regular expression"
  let (ms, rest) ← liftM (Member.all (rest.length + 1) true rest)
  set { s with rest := rest, confusing := s.confusing || Member.confusing ms }
  return Member.toPattern negated ms

/-- The place or the class that a letter after a backslash stands for. -/
def special (c : Char) : SearchPattern :=
  match c with
  | 'w' => one Letter.isWordChar
  | 'W' => one fun l => !l.isWordChar
  | 's' => one Letter.isSpace
  | 'S' => one fun l => !l.isSpace
  | 'b' => edge fun a b => a != b
  | 'B' => edge fun a b => a == b
  | '<' => edge fun a b => !a && b
  | '>' => edge fun a b => a && !b
  | '\x60' => first
  | _ => last

def isPlace : SearchPattern → Bool
  | place _ => true
  | _ => false

/-- A sign of repetition with nothing to repeat before it. -/
def loneRepetition (d : Dialect) (sign : Sign) (title : String) : Read SearchPattern := do
  if d.strict ∧ (d.extended ∨ sign = .brace) then wrong "Invalid preceding regular expression"
  skip d
  let warned : Read SearchPattern := do
    warn (title ++ " at start of expression")
    return nothing
  if !d.extended then return letter (if title = "\x7b...\x7d" then '\x7b' else title.front)
  else if sign ≠ .brace then warned
  else
    match ← liftM (interval? d (← get).rest) with
    | some (_, _, rest) =>
      modify fun s => { s with rest := rest }
      warned
    | none => return letter '\x7b'

/-- The signs for repetitions after a piece. -/
def repetitions (d : Dialect) (fuel : Nat) (p : SearchPattern) : Read SearchPattern := do
  match fuel with
  | 0 => wrong "Regular expression too big"
  | fuel + 1 =>
    let again (least : Nat) (most : Option Nat) : Read SearchPattern := do
      let next ← peek d
      if d.strict ∧ !d.extended ∧ (next = some .star ∨ next = some .brace) then
        wrong "Invalid preceding regular expression"
      repetitions d fuel (repeated p least most true)
    match ← peek d with
    | some .star =>
      skip d
      again 0 none
    | some .plus =>
      skip d
      again 1 none
    | some .option =>
      skip d
      again 0 (some 1)
    | some .brace =>
      let before ← get
      skip d
      match ← liftM (interval? d (← get).rest) with
      | some (least, most, rest) =>
        modify fun s => { s with rest := rest }
        again least most
      | none =>
        set before
        return p
    | _ => return p

mutual

/-- Branches with bars between them. -/
def alternatives (d : Dialect) (fuel depth : Nat) : Read SearchPattern := do
  match fuel with
  | 0 => wrong "Regular expression too big"
  | fuel + 1 =>
    let a ← branch d fuel depth nothing true
    if (← peek d) = some .bar then
      skip d
      return either a (← alternatives d fuel depth)
    else return a

/-- Pieces after each other.  The flag tells whether nothing that could be repeated is before
the next. -/
def branch (d : Dialect) (fuel depth : Nat) (sofar : SearchPattern) (isFirst : Bool) :
    Read SearchPattern := do
  match fuel with
  | 0 => wrong "Regular expression too big"
  | fuel + 1 =>
    match ← peek d with
    | none | some .bar => return sofar
    | some sign =>
      if sign = .closing ∧ 0 < depth then return sofar
      match isFirst, sign.repetition? with
      | true, some title =>
        let p ← loneRepetition d sign title
        branch d fuel depth (both sofar p) (d.extended && !d.strict)
      | _, _ =>
        let p ← atom d fuel depth isFirst sign
        if isPlace p ∧ (d.strict ∨ (isFirst ∧ !d.extended)) then
          branch d fuel depth (both sofar p) true
        else
          if isFirst ∧ isPlace p then
            match ((← peek d).bind Sign.repetition?) with
            | some title => warn (title ++ " at start of expression")
            | none => pure ()
          let whole ← repetitions d fuel p
          branch d fuel depth (both sofar whole) (isFirst && isPlace p)

/-- What one sign stands for. -/
def atom (d : Dialect) (fuel depth : Nat) (isFirst : Bool) (sign : Sign) :
    Read SearchPattern := do
  match fuel with
  | 0 => wrong "Regular expression too big"
  | fuel + 1 =>
    skip d
    match sign with
    | .letter l => return one fun m => m = l
    | .any => return one fun l => l.char?.isSome
    | .brackets => brackets
    | .opening =>
      let n := (← get).groups + 1
      modify fun s => { s with groups := n }
      let inner ← alternatives d fuel (depth + 1)
      if (← peek d) ≠ some .closing then wrong "Unmatched ( or \\("
      skip d
      modify fun s => { s with closed := n :: s.closed }
      return group n inner
    | .caret => return if d.extended ∨ isFirst then first else letter '^'
    | .dollar =>
      let next ← peek d
      let ending := next = none ∨ next = some .bar ∨ (next = some .closing ∧ 0 < depth)
      return if d.extended ∨ ending then last else letter '$'
    | .special c => return special c
    | .again n =>
      if !(← get).closed.contains n then wrong "Invalid back reference"
      return again n
    | .trailing => wrong "Trailing backslash"
    | .closing =>
      if d.extended ∧ !d.strict then return letter ')' else wrong "Unmatched ) or \\)"
    | .star => return letter '*'
    | .plus => return letter '+'
    | .option => return letter '?'
    | .brace => return letter '\x7b'
    | .bar => return nothing

end

end Read

/-- An expression that was read. -/
structure Written where
  pattern : SearchPattern
  groups : Nat
  warnings : List String
  /-- Whether a class seems to lack its second brackets. -/
  confusing : Bool

def confusion : String := "character class syntax is [[:space:]], not [:space:]"

/-- The expression that a text writes, or what is wrong with it. -/
def ofText (d : Dialect) (cs : Bytes) : Except String Written :=
  let letters := Letter.ofBytes cs
  ((Read.alternatives d (8 * letters.length + 16) 0).run ⟨letters, 0, [], [], false⟩).map
    fun (p, s) => ⟨p, s.groups, s.warnings, s.confusing⟩

end SearchPattern
end Shell
end Publishing
