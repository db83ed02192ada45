import Publishing.Shell.Utility.Basic
import Publishing.Shell.Utility.SearchPattern.Reader

/-
The program that calculates with its arguments.
-/

namespace Publishing
namespace Shell

namespace Program

namespace Calculation

/-- Whether a value counts as no. -/
def isNull (cs : Bytes) : Bool :=
  let body := match cs with
    | '-' :: rest => rest
    | cs => cs
  cs = [] || (body ≠ [] && body.all (· = '0'))

def integer? (cs : Bytes) : Option Int :=
  match cs with
  | '-' :: ds => (Bytes.natural? ds).map fun n => -(n : Int)
  | ds => (Bytes.natural? ds).map fun n => (n : Int)

/-- Reads the arguments, the last of which that was taken is kept. -/
abbrev Read := StateT (List Bytes × Bytes) (Except Bytes)

def wrong {α : Type} (cs : Bytes) : Read α := throw cs

def next? : Read (Option Bytes) := return (← get).1.head?

def skip : Read Unit := modify fun s => (s.1.tail, s.1.headD s.2)

/-- Take an argument if it is one of these words. -/
def takeWord (words : List String) : Read (Option String) := do
  match ← next? with
  | none => return none
  | some arg =>
    let text := String.ofList arg
    if words.contains text then
      skip
      return some text
    else return none

def require : Read Bytes := do
  match ← next? with
  | some arg =>
    skip
    return arg
  | none => wrong ("syntax error: missing argument after ".toList ++ quotedWord (← get).2)

def integer (cs : Bytes) : Read Int := do
  match integer? cs with
  | some n => return n
  | none => wrong "non-integer argument".toList

def truth (b : Bool) : Bytes := if b then ['1'] else ['0']

/-- What of a text a pattern finds at its beginning: its group, or how much it is. -/
def found (text pattern : Bytes) : Read Bytes := do
  match SearchPattern.ofText ⟨false, false⟩ pattern with
  | .error what => wrong what.toList
  | .ok p =>
    let ends := p.pattern.ends false (.start (Letter.ofBytes text))
    match SearchPattern.Choice.longest.pick ends with
    | none => return if 0 < p.groups then [] else ['0']
    | some s =>
      return if 0 < p.groups then ((s.groups.lookup 1).getD []).flatten else Bytes.decimal s.offset

/-- What is left of a text from a place on, counted from one, as much as is wanted. -/
def part (text start size : Bytes) : Bytes :=
  match integer? start, integer? size with
  | some a, some n =>
    if a ≤ 0 ∨ n ≤ 0 then []
    else (((Letter.ofBytes text).drop (a.toNat - 1)).take n.toNat).flatten
  | _, _ => []

def indexOf (text letters : Bytes) : Nat :=
  let wanted := Letter.ofBytes letters
  match (Letter.ofBytes text).findIdx? wanted.contains with
  | some i => i + 1
  | none => 0

def compare (op : String) (a b : Bytes) : Bool :=
  let order := match integer? a, integer? b with
    | some m, some n => compareOfLessAndEq m n
    | _, _ => compareOfLessAndEq (String.ofList a) (String.ofList b)
  match op with
  | "<" => order = .lt
  | "<=" => order ≠ .gt
  | "=" | "==" => order = .eq
  | "!=" => order ≠ .eq
  | ">=" => order ≠ .lt
  | _ => order = .gt

def combine (op : String) (a b : Bytes) : Read Bytes := do
  match op with
  | "|" => return if isNull a then (if isNull b then ['0'] else b) else a
  | "&" => return if isNull a ∨ isNull b then ['0'] else a
  | ":" => found a b
  | "+" => return Bytes.ofInt ((← integer a) + (← integer b))
  | "-" => return Bytes.ofInt ((← integer a) - (← integer b))
  | "*" => return Bytes.ofInt ((← integer a) * (← integer b))
  | "/" | "%" =>
    let m ← integer a
    let n ← integer b
    if n = 0 then wrong "division by zero".toList
    return Bytes.ofInt (if op = "/" then Int.tdiv m n else Int.tmod m n)
  | op => return truth (compare op a b)

/-- The operators, those that bind least first. -/
def levels : List (List String) :=
  [["|"], ["&"], ["<", "<=", "=", "==", "!=", ">=", ">"], ["+", "-"], ["*", "/", "%"], [":"]]

mutual

def value (fuel : Nat) (levels : List (List String)) : Read Bytes := do
  match fuel, levels with
  | 0, _ => wrong "syntax error".toList
  | fuel + 1, [] => single fuel
  | fuel + 1, ops :: levels =>
    let a ← value fuel levels
    more fuel ops levels a

/-- Go on with operators of one level. -/
def more (fuel : Nat) (ops : List String) (levels : List (List String)) (a : Bytes) :
    Read Bytes := do
  match fuel with
  | 0 => wrong "syntax error".toList
  | fuel + 1 =>
    match ← takeWord ops with
    | none => return a
    | some op =>
      let b ← value fuel levels
      more fuel ops levels (← combine op a b)

def single (fuel : Nat) : Read Bytes := do
  match fuel with
  | 0 => wrong "syntax error".toList
  | fuel + 1 =>
    let arg ← require
    match String.ofList arg with
    | "+" => require
    | "(" =>
      let v ← value fuel levels
      match ← next? with
      | some [')'] =>
        skip
        return v
      | none => wrong ("syntax error: expecting ')' after ".toList ++ quotedWord (← get).2)
      | some other => wrong ("syntax error: expecting ')' instead of ".toList ++ quotedWord other)
    | ")" => wrong "syntax error: unexpected ')'".toList
    | "length" => return Bytes.decimal (Letter.ofBytes (← single fuel)).length
    | "match" =>
      let text ← single fuel
      found text (← single fuel)
    | "index" =>
      let text ← single fuel
      return Bytes.decimal (indexOf text (← single fuel))
    | "substr" =>
      let text ← single fuel
      let start ← single fuel
      return part text start (← single fuel)
    | _ => return arg

end

end Calculation

def expr : Utility := fun args => do
  let args := match args with
    | ['-', '-'] :: args => args
    | args => args
  if args.isEmpty then misuse "expr" 2 "missing operand".toList
  else
    match (Calculation.value (20 * args.length + 40) Calculation.levels).run (args, []) with
    | .error cs =>
      report "expr" cs
      return 2
    | .ok (_, rest :: _, _) =>
      report "expr" ("syntax error: unexpected argument ".toList ++ quotedWord rest)
      return 2
    | .ok (v, [], _) =>
      Act.printLine v
      return if Calculation.isNull v then 1 else 0

end Program
end Shell
end Publishing
