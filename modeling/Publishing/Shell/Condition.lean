import Publishing.Shell.Mode
import Publishing.Shell.Printing

/-
Conditions on texts, numbers and files.
-/

namespace Publishing
namespace Shell

/-! ## Files outside the tree -/

def devices : List String :=
  ["/dev/null", "/dev/zero", "/dev/full", "/dev/random", "/dev/urandom", "/dev/stdin",
   "/dev/stdout", "/dev/stderr", "/dev/tty"]

/-- Directories that are always there. -/
def commonDirectories : List String :=
  ["/bin", "/dev", "/etc", "/home", "/lib", "/proc", "/root", "/sbin", "/sys", "/tmp", "/usr",
   "/usr/bin", "/usr/lib", "/usr/local", "/usr/local/bin", "/var"]

/-- The name of a program in one of the directories of programs. -/
def programName? (path : String) : Option String :=
  if path.startsWith "/bin/" ∨ path.startsWith "/usr/bin/" then Path.fileName? path else none

/-- What a path may lead to. -/
inductive Finding where
  | file (size : Nat) (runs : Bool)
  | directory
  | device
  | program
  deriving DecidableEq

namespace Act

def find? (programs : List String) (path : Bytes) : Act (Option Finding) := do
  let path := Bytes.toText path
  if devices.contains path then return some .device
  else if commonDirectories.contains path then return some .directory
  else if (programName? path).any programs.contains then return some .program
  else
    let s ← get
    match s.files.find path with
    | .ok (place, .file content) =>
      return some (.file content.size (← canRun place))
    | .ok (_, .directory _) => return some .directory
    | .error _ => return none

end Act

/-! ## Operators -/

inductive TestOperator where
  | unary (letter : Char)
  | binary (text : String)
  | not
  | and
  | or
  | opening
  | closing
  deriving DecidableEq

def unaryLetters : List Char := "rwxefdcbpugkstznhOGLS".toList

def binaryOperators : List String :=
  ["=", "!=", "<", ">", "-eq", "-ne", "-ge", "-gt", "-le", "-lt", "-nt", "-ot", "-ef"]

def TestOperator.ofText? (cs : Bytes) : Option TestOperator :=
  match cs with
  | ['!'] => some .not
  | ['('] => some .opening
  | [')'] => some .closing
  | ['-', 'a'] => some .and
  | ['-', 'o'] => some .or
  | ['-', c] => if unaryLetters.contains c then some (.unary c) else none
  | cs =>
    let text := String.ofList cs
    if binaryOperators.contains text then some (.binary text) else none

def isBinary (cs : Bytes) : Bool := match TestOperator.ofText? cs with
  | some (.binary _) => true
  | _ => false

/-- The operator in front of the arguments.  What could be an operand as well is one if
something is to be compared with it. -/
def operatorAt? : List Bytes → Option TestOperator
  | [] => none
  | a :: rest =>
    match TestOperator.ofText? a, rest with
    | some (.unary _), [] => none
    | some (.unary c), b :: _ :: _ => if isBinary b then none else some (.unary c)
    | some .opening, [] => none
    | op, _ => op

/-- The arguments of a condition that are yet to be read. -/
abbrev Test := StateT (List Bytes) Act

namespace Test

def rest : Test (List Bytes) := get

/-- Pass over some of the arguments. -/
def skip (n : Nat) : Test Unit := modify (List.drop n)

def fault {α : Type} (cs : Bytes) : Test α := Act.fault cs

def number (cs : Bytes) : Test Int := do
  let body := match cs.dropWhile Bytes.isSpace with
    | '-' :: rest | '+' :: rest => rest
    | rest => rest
  let ds := body.takeWhile Text.isDigit
  if ds = [] ∨ !((body.drop ds.length).all Bytes.isSpace) then
    fault ("Illegal number: ".toList ++ cs)
  let n : Int := Text.numberOf ds
  let n := if (cs.dropWhile Bytes.isSpace).head? = some '-' then -n else n
  if n < -9223372036854775808 ∨ 9223372036854775807 < n then
    fault ("Illegal number: ".toList ++ cs)
  return n

def compares (op : String) (a b : Bytes) : Test Bool := do
  let less (x y : Bytes) : Bool := decide (String.ofList x < String.ofList y)
  match op with
  | "=" => return a = b
  | "!=" => return a ≠ b
  | "<" => return less a b
  | ">" => return less b a
  | "-nt" | "-ot" => return false
  | "-ef" =>
    let fs := (← getThe State).files
    match fs.find (Bytes.toText a), fs.find (Bytes.toText b) with
    | .ok x, .ok y => return x.1 = y.1
    | _, _ => return false
  | op =>
    let m ← number a
    let n ← number b
    return match op with
      | "-eq" => m = n
      | "-ne" => m ≠ n
      | "-ge" => n ≤ m
      | "-gt" => n < m
      | "-le" => m ≤ n
      | _ => m < n

def asks (programs : List String) (letter : Char) (a : Bytes) : Test Bool := do
  match letter with
  | 'n' => return a ≠ []
  | 'z' => return a = []
  | 't' =>
    let _ ← number a
    return false
  | letter =>
    let found ← Act.find? programs a
    return match letter, found with
      | _, none => false
      | 'd', some k => k = .directory
      | 'f', some (.file ..) | 'f', some .program => true
      | 's', some (.file size _) => 0 < size
      | 's', some k => k ≠ .device
      | 'c', some k => k = .device
      | 'x', some (.file _ runs) => runs
      | 'x', some k => k = .directory || k = .program
      | 'e', _ | 'r', _ | 'w', _ | 'O', _ | 'G', _ => true
      | _, _ => false

mutual

def alternatives (programs : List String) (fuel : Nat) : Test Bool := do
  match fuel with
  | 0 => return false
  | fuel + 1 =>
    let a ← conjunction programs fuel
    if operatorAt? ((← rest).drop 1) = some .or then
      skip 2
      let b ← alternatives programs fuel
      return a || b
    else return a

def conjunction (programs : List String) (fuel : Nat) : Test Bool := do
  match fuel with
  | 0 => return false
  | fuel + 1 =>
    let a ← negation programs fuel
    if operatorAt? ((← rest).drop 1) = some .and then
      skip 2
      let b ← conjunction programs fuel
      return a && b
    else return a

def negation (programs : List String) (fuel : Nat) : Test Bool := do
  match fuel with
  | 0 => return false
  | fuel + 1 =>
    let args ← rest
    if operatorAt? args = some .not then
      if 1 < args.length then
        skip 1
        return !(← negation programs fuel)
      else return true
    else primary programs fuel

/-- A condition without operators between its parts.  Its last argument stays. -/
def primary (programs : List String) (fuel : Nat) : Test Bool := do
  match fuel with
  | 0 => return false
  | fuel + 1 =>
    let args ← rest
    match args, operatorAt? args with
    | [], _ => return false
    | _, some .opening =>
      skip 1
      if operatorAt? (← rest) = some .closing then return false
      else
        let b ← alternatives programs fuel
        skip 1
        if operatorAt? (← rest) = some .closing then return b
        else fault "closing paren expected".toList
    | a :: more, some (.unary c) =>
      match more with
      | [] => fault (a ++ ": argument expected".toList)
      | b :: _ =>
        skip 1
        asks programs c b
    | a :: more, _ =>
      match operatorAt? more, more with
      | some (.binary op), [_] => fault (op.toList ++ ": argument expected".toList)
      | some (.binary op), _ :: b :: _ =>
        skip 2
        compares op a b
      | _, _ => return a ≠ []

end

/-- A condition that is all of the arguments, or its negation. -/
def whole (programs : List String) (fuel : Nat) (negated : Bool) (args : List Bytes) :
    Test Bool := do
  match fuel with
  | 0 => return false
  | fuel + 1 =>
    let evaluate (args : List Bytes) : Test Bool := do
      set args
      let b ← match args with
        | [a, op, b] =>
          match TestOperator.ofText? op with
          | some (.binary op) => do
            skip 2
            compares op a b
          | _ => alternatives programs (4 * args.length + 4)
        | args => alternatives programs (4 * args.length + 4)
      match ← rest with
      | a :: _ :: _ =>
        fault ((if a = [] then [] else a ++ [':', ' ']) ++ "unexpected operator".toList)
      | _ => return b != negated
    match args with
    | [] => return negated
    | [_, op, _] =>
      if isBinary op then evaluate args else special evaluate fuel args
    | [_, _, _, _] => special evaluate fuel args
    | args => evaluate args
where
  special (evaluate : List Bytes → Test Bool) (fuel : Nat) (args : List Bytes) : Test Bool := do
    match args with
    | ['('] :: inner =>
      if inner.getLast? = some [')'] then evaluate inner.dropLast else evaluate args
    | ['!'] :: inner => whole programs fuel (!negated) inner
    | args => evaluate args

end Test

def testUtility (programs : List String) : Utility := fun args => do
  let (b, _) ← (Test.whole programs (args.length + 1) false args).run args
  return if b then 0 else 1

def bracketUtility (programs : List String) : Utility := fun args => do
  if args.getLast? = some [']'] then testUtility programs args.dropLast
  else Act.faultText "missing ]"

end Shell
end Publishing
