import Publishing.Decimal.Places
import Publishing.Shell.Arithmetic
import Publishing.Shell.Numeral
import Publishing.Shell.State

/-
The utilities of the shell that print their arguments.
-/

namespace Publishing
namespace Shell

/-- A utility: from its arguments to its status. -/
abbrev Utility := List Bytes → Act Nat

/-! ## Escapes -/

def isOctal (c : Char) : Bool := '0' ≤ c && c ≤ '7'

def octalByte (ds : Bytes) : Char :=
  Char.ofNat (ds.foldl (fun n c => n * 8 + Text.digitValue c) 0 % 256)

def controlOf? : Char → Option Char
  | 'a' => some '\x07'
  | 'b' => some '\x08'
  | 'e' => some '\x1b'
  | 'f' => some '\x0c'
  | 'n' => some '\n'
  | 'r' => some '\r'
  | 't' => some '\t'
  | 'v' => some '\x0b'
  | '\\' => some '\\'
  | _ => none

/-- The byte of an escape after its backslash, and how much of the text it takes. -/
def escape (cs : Bytes) : Char × Nat :=
  match cs with
  | [] => ('\\', 0)
  | c :: _ =>
    match controlOf? c with
    | some d => (d, 1)
    | none =>
      let ds := (cs.take 3).takeWhile isOctal
      if ds = [] then ('\\', 0) else (octalByte ds, ds.length)

/-- The bytes of a text with escapes, and whether one of them ended it. -/
def unescape (fuel : Nat) (cs : Bytes) (acc : Bytes) : Bytes × Bool :=
  match fuel, cs with
  | 0, _ | _, [] => (acc.reverse, false)
  | _ + 1, '\\' :: 'c' :: _ => (acc.reverse, true)
  | fuel + 1, '\\' :: '0' :: rest =>
    let ds := (rest.take 3).takeWhile isOctal
    unescape fuel (rest.drop ds.length) (octalByte ds :: acc)
  | fuel + 1, '\\' :: rest =>
    let (c, n) := escape rest
    unescape fuel (rest.drop n) (c :: acc)
  | fuel + 1, c :: rest => unescape fuel rest (c :: acc)

def unescaped (cs : Bytes) : Bytes × Bool := unescape (cs.length + 1) cs []

def echo : Utility := fun args => do
  let (newline, args) := match args with
    | ['-', 'n'] :: rest => (false, rest)
    | args => (true, args)
  let (cs, ended) := unescaped (Bytes.joined [' '] args)
  Act.print (if newline ∧ !ended then cs ++ ['\n'] else cs)
  return 0

/-! ## Formats -/

/-- How a value is printed. -/
structure Conversion where
  flags : Bytes
  width : Nat
  precision : Option Nat
  letter : Char

namespace Conversion

def has (k : Conversion) (c : Char) : Bool := k.flags.contains c

/-- Fill up to the width. -/
def fill (k : Conversion) (zeros : Bool) (sign body : Bytes) : Bytes :=
  let n := k.width - (sign.length + body.length)
  if k.has '-' then sign ++ body ++ List.replicate n ' '
  else if zeros ∧ k.has '0' then sign ++ List.replicate n '0' ++ body
  else List.replicate n ' ' ++ sign ++ body

def text (k : Conversion) (cs : Bytes) : Bytes :=
  k.fill false [] (match k.precision with
    | some n => cs.take n
    | none => cs)

def signOf (k : Conversion) (negative : Bool) : Bytes :=
  if negative then ['-'] else if k.has '+' then ['+'] else if k.has ' ' then [' '] else []

def integer (k : Conversion) (value : Int) : Bytes :=
  let signed := k.letter = 'd' ∨ k.letter = 'i'
  let n := if signed then value.natAbs else (value % 18446744073709551616).toNat
  let base := match k.letter with
    | 'o' => 8
    | 'x' | 'X' => 16
    | _ => 10
  let ds := if n = 0 ∧ k.precision = some 0 then [] else Nat.toDigits base n
  let ds := if k.letter = 'X' then ds.map Char.toUpper else ds
  let ds := List.replicate (k.precision.getD 1 - ds.length) '0' ++ ds
  let (front, ds) : Bytes × Bytes :=
    if !k.has '#' ∨ n = 0 then ([], ds)
    else match k.letter with
      | 'x' => (['0', 'x'], ds)
      | 'X' => (['0', 'X'], ds)
      | 'o' => ([], if ds.head? = some '0' then ds else '0' :: ds)
      | _ => ([], ds)
  k.fill k.precision.isNone ((if signed then k.signOf (value < 0) else []) ++ front) ds

def floating (k : Conversion) (x : Numeral) : Bytes :=
  let places := k.precision.getD 6
  let upper (cs : Bytes) : Bytes := if k.letter.isUpper then cs.map Char.toUpper else cs
  let sign := k.signOf x.negative
  let plain (text : String) : Bytes := k.fill false sign (upper text.toList)
  match x.magnitude with
  | .notANumber => plain "nan"
  | .infinite => plain "inf"
  | .finite r =>
    match Binary64.round? false r with
    | none => plain "inf"
    | some m =>
      let r := m.magnitude
      let front := if k.letter.toLower = 'a' then upper ['0', 'x'] else []
      k.fill true (sign ++ front) (upper (match k.letter.toLower with
        | 'a' => Decimal.hexadecimal m k.precision (k.has '#')
        | 'e' => Decimal.scientific r places
        | 'g' => Decimal.general r places (k.has '#')
        | _ => Decimal.fixed r places))

end Conversion

/-- What a format works on: the values that are left, and what was printed. -/
structure Formatting where
  values : List Bytes
  output : Bytes
  /-- What is wrong with values, the latest first. -/
  complaints : List Bytes

abbrev Format := ExceptT (Option String) (StateM Formatting)

namespace Format

/-- Stop: for the reason given, or because an escape says so. -/
def stop {α : Type} (reason : Option String) : Format α := throw reason

def emit (cs : Bytes) : Format Unit := modify fun s => { s with output := cs.reverse ++ s.output }

def next? : Format (Option Bytes) := do
  let s ← get
  set { s with values := s.values.tail }
  return s.values.head?

def complain (value : Bytes) (why : String) : Format Unit :=
  modify fun s => { s with complaints := (value ++ ": ".toList ++ why.toList) :: s.complaints }

/-- Complain about a value of which only the front was used, or about one that is not in the
range of its kind. -/
def check (value : Bytes) (used : Nat) (inRange : Bool) : Format Unit := do
  if used < value.length then
    complain value (if used = 0 then "expected numeric value" else "not completely converted")
  else if !inRange then complain value "Numerical result out of range"

/-- The value that a quotation mark in front of a character asks for. -/
def quoted? : Bytes → Option Int
  | '"' :: rest | '\'' :: rest => some ((rest.head?.map Char.toNat).getD 0)
  | _ => none

def nextInteger (signed : Bool) : Format Int := do
  match ← next? with
  | none => return 0
  | some value =>
    match quoted? value with
    | some n => return n
    | none =>
      let cs := value.dropWhile Bytes.isSpace
      let blanks := value.length - cs.length
      let (negative, sign) := match cs.head? with
        | some '-' => (true, 1)
        | some '+' => (false, 1)
        | _ => (false, 0)
      let (n, size) := Arithmetic.numberIn (cs.drop sign)
      let n : Int := if negative then -n else n
      let least : Int := if signed then -9223372036854775808 else -18446744073709551615
      let most : Int := if signed then 9223372036854775807 else 18446744073709551615
      let inRange := least ≤ n ∧ n ≤ most
      check value (if size = 0 then 0 else blanks + sign + size) inRange
      return if inRange then n else if n < least ∧ signed then least else most

/-- Whether a double can hold a number, if not in all its digits then at least in as many
as any. -/
def isInRange : Magnitude → Bool
  | .finite r =>
    match Binary64.round? false r with
    | none => false
    | some m =>
      let kept := m.magnitude
      r.num = 0 || Nat.pow 2 52 ≤ m.significand || r.num * kept.den = kept.num * r.den
  | _ => true

def nextFloating : Format Numeral := do
  let zero : Numeral := ⟨false, .finite ⟨0, 1⟩, 0⟩
  match ← next? with
  | none => return zero
  | some value =>
    match quoted? value with
    | some n => return ⟨false, .finite ⟨n.toNat, 1⟩, 0⟩
    | none =>
      let x := (Numeral.front? value).getD zero
      check value x.size (isInRange x.magnitude)
      return x

/-- A width or a precision: digits, or a star for a value, of which the last 32 bits count. -/
def size (cs : Bytes) : Format (Option Int × Bytes) := do
  match cs with
  | '*' :: rest => return (some ((← nextInteger true).bmod 4294967296), rest)
  | cs =>
    let ds := cs.takeWhile Text.isDigit
    return (if ds = [] then none else some (Text.numberOf ds : Int), cs.drop ds.length)

/-- Letters that print a value. -/
def isConversion (c : Char) : Bool := "sbcdiouxXaAeEfFgG".toList.contains c

/-- A conversion after its percent sign, and the rest of the format. -/
def conversion (cs : Bytes) : Format Bytes := do
  let flags := cs.takeWhile fun c => ['#', '-', '+', ' ', '0'].contains c
  let (width, rest) ← size (cs.drop flags.length)
  let (precision, rest) ← match rest with
    | '.' :: rest => do
      let (p, rest) ← size rest
      pure (some (p.getD 0), rest)
    | rest => pure (none, rest)
  let width := width.getD 0
  let precision := precision.bind fun p => if p < 0 then none else some p.toNat
  let fits := width.natAbs ≤ 2147483647 ∧ precision.getD 0 ≤ 2147483647
  let flags := if width < 0 then '-' :: flags else flags
  match rest with
  | [] => stop (some "missing format character")
  | letter :: rest =>
    if !fits ∧ isConversion letter then stop (some "xvsnprintf failed")
    let k : Conversion := ⟨flags, width.natAbs, precision, letter⟩
    match letter with
    | 's' => emit (k.text ((← next?).getD []))
    | 'b' =>
      let (cs, ended) := unescaped ((← next?).getD [])
      emit (k.text cs)
      if ended then stop none
    | 'c' => emit (k.fill false [] [((← next?).getD []).headD '\x00'])
    | 'd' | 'i' => emit (k.integer (← nextInteger true))
    | 'o' | 'u' | 'x' | 'X' => emit (k.integer (← nextInteger false))
    | 'a' | 'A' | 'e' | 'E' | 'f' | 'F' | 'g' | 'G' => emit (k.floating (← nextFloating))
    | _ =>
      let text := cs.take (cs.length - rest.length)
      stop (some ("%" ++ String.ofList text ++ ": invalid directive"))
    return rest

/-- One pass over a format. -/
def once (fuel : Nat) (cs : Bytes) : Format Unit := do
  match fuel, cs with
  | 0, _ | _, [] => return
  | fuel + 1, '\\' :: rest =>
    let (c, n) := escape rest
    emit [c]
    once fuel (rest.drop n)
  | fuel + 1, '%' :: '%' :: rest =>
    emit ['%']
    once fuel rest
  | fuel + 1, '%' :: rest =>
    let rest ← conversion rest
    once fuel rest
  | fuel + 1, c :: rest =>
    emit [c]
    once fuel rest

/-- The format is used again as long as values are left and it takes any. -/
def repeated (fuel : Nat) (cs : Bytes) : Format Unit := do
  match fuel with
  | 0 => return
  | fuel + 1 =>
    let before := (← get).values.length
    once (cs.length + 1) cs
    let left := (← get).values.length
    if left ≠ 0 ∧ left ≠ before then repeated fuel cs

end Format

/-- The options in front of arguments when there can be none. -/
def withoutOptions (args : List Bytes) : Act (List Bytes) := do
  match args with
  | ['-', '-'] :: rest => return rest
  | ('-' :: c :: _) :: _ => Act.fault ("Illegal option -".toList ++ [c])
  | args => return args

def printf : Utility := fun args => do
  match ← withoutOptions args with
  | [] => Act.faultText "usage: printf format [arg ...]"
  | format :: values =>
    let (r, s) := (Format.repeated (values.length + 1) format).run ⟨values, [], []⟩
    for complaint in s.complaints.reverse do Act.report complaint
    match r with
    | .error (some reason) => Act.ensure (Act.faultText reason) (Act.print s.output.reverse)
    | _ =>
      Act.print s.output.reverse
      return if s.complaints.isEmpty then 0 else 1

end Shell
end Publishing
