import Publishing.Shell.Bytes

/-
What arithmetic expressions are worth.  Numbers have 64 bits and wrap around.
-/

namespace Publishing
namespace Shell

inductive ArithmeticFault where
  /-- The expression is wrong, for this reason. -/
  | expression (reason : String)
  /-- A value is no number. -/
  | number (text : Bytes)

/-- What remains to be read of an expression, and the variables. -/
structure Calculation where
  rest : Bytes
  value : Bytes → Option Bytes
  /-- What was assigned, the newest first. -/
  assigned : List (Bytes × Int)

abbrev Calculate := StateT Calculation (Except ArithmeticFault)

namespace Arithmetic

/-- The number of 64 bits that agrees with an integer. -/
def wrap (n : Int) : Int := n.bmod 18446744073709551616

theorem wrap_of_small {n : Int} (h : -9223372036854775808 ≤ n) (h' : n < 9223372036854775808) :
    wrap n = n := by
  simp only [wrap, Int.bmod]
  split <;> omega

def greatest : Int := 9223372036854775807

def digitsOf (base : Nat) (cs : Bytes) : Bytes :=
  cs.takeWhile fun c => match Text.hexValue? c with
    | some d => d < base
    | none => false

def valueOf (base : Nat) (ds : Bytes) : Nat :=
  ds.foldl (fun n c => n * base + (Text.hexValue? c).getD 0) 0

/-- A number without a sign in front of the text: its value and how long it is.  A zero
in front makes it octal, and with an x hexadecimal. -/
def numberIn (cs : Bytes) : Nat × Nat :=
  let hex := digitsOf 16 (cs.drop 2)
  match cs with
  | '0' :: x :: _ =>
    if (x = 'x' ∨ x = 'X') ∧ hex ≠ [] then (valueOf 16 hex, hex.length + 2)
    else
      let ds := digitsOf 8 cs
      (valueOf 8 ds, ds.length)
  | cs =>
    let ds := digitsOf 10 cs
    (valueOf 10 ds, ds.length)

/-- The integer that a text writes, with blanks around it and a sign in front of it.
An empty text is zero. -/
def integer? (text : Bytes) : Option Int :=
  let cs := text.dropWhile Bytes.isSpace
  let (negative, cs) := match cs with
    | '-' :: cs => (true, cs)
    | '+' :: cs => (false, cs)
    | cs => (false, cs)
  let (n, size) := numberIn cs
  let n : Int := if negative then -n else n
  if ((cs.drop size).all Bytes.isSpace) ∧ (size ≠ 0 ∨ text.all Bytes.isSpace) ∧
      -greatest - 1 ≤ n ∧ n ≤ greatest then some n
  else none

def skipBlanks : Bytes → Bytes := List.dropWhile fun c => c = ' ' || c = '\t' || c = '\n'

/-- Operators between two values, with how tightly they bind.  Longer ones come
first. -/
def operators : List (String × Nat) :=
  [("<<", 6), (">>", 6), ("<=", 5), (">=", 5), ("==", 4), ("!=", 4), ("*", 8), ("/", 8), ("%", 8),
   ("+", 7), ("-", 7), ("<", 5), (">", 5), ("&", 3), ("^", 2), ("|", 1)]

/-- Operators in front of an equals sign that assign. -/
def assigning : List String := ["<<", ">>", "*", "/", "%", "+", "-", "&", "^", "|"]

def startsWith (cs : Bytes) (s : String) : Bool := cs.take s.length = s.toList

/-- The operator between two values that begins the text. -/
def operator? (cs : Bytes) : Option (String × Nat) :=
  if startsWith cs "&&" ∨ startsWith cs "||" then none
  else if assigning.any fun s => startsWith cs (s ++ "=") then none
  else operators.find? fun o => startsWith cs o.1

/-- The operator that assigns in front of the text: nothing for a plain assignment. -/
def assignment? (cs : Bytes) : Option (String × Nat) :=
  match assigning.find? fun s => startsWith cs (s ++ "=") with
  | some s => some (s, s.length + 1)
  | none => if startsWith cs "=" ∧ !startsWith cs "==" then some ("", 1) else none

def ofTruth (b : Bool) : Int := if b then 1 else 0

/-- A bitwise operation on the two's complements. -/
def bitwise (f : Nat → Nat → Nat) (a b : Int) : Int :=
  wrap (f (a % 18446744073709551616).toNat (b % 18446744073709551616).toNat)

/-- Nothing divides by zero. -/
def operate? (op : String) (a b : Int) : Option Int :=
  match op with
  | "*" => some (wrap (a * b))
  | "/" => if b = 0 then none else some (wrap (a.tdiv b))
  | "%" => if b = 0 then none else some (a.tmod b)
  | "+" => some (wrap (a + b))
  | "-" => some (wrap (a - b))
  | "<<" => some (wrap (a * (Nat.pow 2 (b % 64).toNat : Nat)))
  | ">>" => some (a / (Nat.pow 2 (b % 64).toNat : Nat))
  | "<" => some (ofTruth (a < b))
  | "<=" => some (ofTruth (a ≤ b))
  | ">" => some (ofTruth (a > b))
  | ">=" => some (ofTruth (a ≥ b))
  | "==" => some (ofTruth (a = b))
  | "!=" => some (ofTruth (a ≠ b))
  | "&" => some (bitwise Nat.land a b)
  | "^" => some (bitwise Nat.xor a b)
  | "|" => some (bitwise Nat.lor a b)
  | _ => none

def refuse {α : Type} (reason : String) : Calculate α := throw (.expression reason)

/-- The text that is left, without the blanks in front. -/
def look : Calculate Bytes := do
  let s ← get
  let rest := skipBlanks s.rest
  set { s with rest := rest }
  return rest

def advance (n : Nat) : Calculate Unit := modify fun s => { s with rest := s.rest.drop n }

/-- The value of a variable. -/
def valueOfName (name : Bytes) : Calculate Int := do
  let s ← get
  match s.assigned.lookup name with
  | some n => return n
  | none =>
    let text := (s.value name).getD []
    match integer? text with
    | some n => return n
    | none => throw (.number text)

/-- The result of an operation, unless it does not count. -/
def operation (op : String) (a b : Int) (counts : Bool) : Calculate Int := do
  if counts then
    match operate? op a b with
    | some n => return n
    | none => refuse "division by zero"
  else return b

mutual

/-- A value.  If it does not count, no variable is read or set. -/
def primary (fuel : Nat) (counts : Bool) : Calculate Int := do
  match fuel with
  | 0 => refuse "expecting primary"
  | fuel + 1 =>
    let cs ← look
    match cs with
    | '(' :: _ =>
      advance 1
      let n ← assignment fuel counts
      match ← look with
      | ')' :: _ =>
        advance 1
        return n
      | _ => refuse "expecting ')'"
    | '+' :: _ =>
      advance 1
      primary fuel counts
    | '-' :: _ =>
      advance 1
      return wrap (-(← primary fuel counts))
    | '!' :: rest =>
      if rest.head? = some '=' then refuse "expecting primary"
      advance 1
      return ofTruth ((← primary fuel counts) = 0)
    | '~' :: _ =>
      advance 1
      return -(← primary fuel counts) - 1
    | c :: _ =>
      if Text.isDigit c then
        let (n, size) := numberIn cs
        advance size
        return min n greatest
      else if Bytes.isNameStart c then
        let name := cs.takeWhile Bytes.isNameChar
        advance name.length
        if counts then valueOfName name else return 0
      else refuse "expecting primary"
    | [] => refuse "expecting primary"

/-- Values with operators between them that bind more tightly than a bound. -/
def operations (fuel : Nat) (counts : Bool) (bound : Nat) (a : Int) : Calculate Int := do
  match fuel with
  | 0 => refuse "expecting primary"
  | fuel + 1 =>
    match operator? (← look) with
    | none => return a
    | some (op, strength) =>
      if strength ≤ bound then return a
      else
        advance op.length
        let b ← primary fuel counts
        let b ← operations fuel counts strength b
        let a ← operation op a b counts
        operations fuel counts bound a

def conjunction (fuel : Nat) (counts : Bool) : Calculate Int := do
  match fuel with
  | 0 => refuse "expecting primary"
  | fuel + 1 =>
    let a ← primary fuel counts
    let a ← operations fuel counts 0 a
    if startsWith (← look) "&&" then
      advance 2
      let b ← conjunction fuel (counts && a ≠ 0)
      return ofTruth (a ≠ 0 && b ≠ 0)
    else return a

def disjunction (fuel : Nat) (counts : Bool) : Calculate Int := do
  match fuel with
  | 0 => refuse "expecting primary"
  | fuel + 1 =>
    let a ← conjunction fuel counts
    if startsWith (← look) "||" then
      advance 2
      let b ← disjunction fuel (counts && a = 0)
      return ofTruth (a ≠ 0 || b ≠ 0)
    else return a

def conditional (fuel : Nat) (counts : Bool) : Calculate Int := do
  match fuel with
  | 0 => refuse "expecting primary"
  | fuel + 1 =>
    let a ← disjunction fuel counts
    match ← look with
    | '?' :: _ =>
      advance 1
      let b ← assignment fuel (counts && a ≠ 0)
      match ← look with
      | ':' :: _ =>
        advance 1
        let c ← conditional fuel (counts && a = 0)
        return if a ≠ 0 then b else c
      | _ => refuse "expecting ':'"
    | _ => return a

def assignment (fuel : Nat) (counts : Bool) : Calculate Int := do
  match fuel with
  | 0 => refuse "expecting primary"
  | fuel + 1 =>
    let cs ← look
    let name := cs.takeWhile Bytes.isNameChar
    match assignment? (skipBlanks (cs.drop name.length)) with
    | some (op, size) =>
      if Bytes.isName name then
        advance name.length
        let _ ← look
        advance size
        let n ← assignment fuel counts
        if counts then
          let n ← if op = "" then pure n else operation op (← valueOfName name) n true
          modify fun s => { s with assigned := (name, n) :: s.assigned }
          return n
        else return n
      else conditional fuel counts
    | none => conditional fuel counts

end

/-- What an expression is worth, and the variables that it sets, the oldest first. -/
def evaluate (value : Bytes → Option Bytes) (expression : Bytes) :
    Except ArithmeticFault (Int × List (Bytes × Int)) := do
  let whole : Calculate Int := do
    let n ← assignment (8 * expression.length + 16) true
    if (← look) ≠ [] then refuse "expecting EOF"
    return n
  let (n, s) ← whole.run ⟨expression, value, []⟩
  return (n, s.assigned.reverse)

example : (evaluate (fun _ => some ['4']) "i+1 * 2 - (3 - -1)".toList).toOption.map (·.1) =
    some 2 := by decide +kernel
example : (evaluate (fun _ => none) "7 / i".toList).toOption.isNone = true := by decide +kernel

end Arithmetic
end Shell
end Publishing
