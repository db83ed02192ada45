import Publishing.Text.Digit

/-
Keys and strings as they stand in TOML.
-/

namespace Publishing
namespace Toml

open Text

def isBlank (c : Char) : Bool := c = ' ' || c = '\t'

def skipBlanks (cs : List Char) : List Char := cs.dropWhile isBlank

def isBare (c : Char) : Bool := c.isAlphanum || c = '_' || c = '-'

/-- Any character but the controls, of which the tab is allowed. -/
def isPlain (c : Char) : Bool := c = '\t' || (0x20 ≤ c.toNat && c.toNat ≠ 0x7f)

/-- A line end in front of the text. -/
def dropLineEnd? : List Char → Option (List Char)
  | '\n' :: rest => some rest
  | '\r' :: '\n' :: rest => some rest
  | _ => none

/-- A character of the given code, with `count` hexadecimal digits. -/
def readCode (count : Nat) (cs : List Char) : Option (Char × List Char) := do
  let ds := cs.take count
  guard (ds.length = count)
  let n ← ds.foldlM (fun n c => (hexValue? c).map (n * 16 + ·)) 0
  guard (n < 0xd800 ∨ (0xdfff < n ∧ n ≤ 0x10ffff))
  return (Char.ofNat n, cs.drop count)

def readEscape : List Char → Option (Char × List Char)
  | 'b' :: rest => some (Char.ofNat 0x08, rest)
  | 't' :: rest => some ('\t', rest)
  | 'n' :: rest => some ('\n', rest)
  | 'f' :: rest => some (Char.ofNat 0x0c, rest)
  | 'r' :: rest => some ('\r', rest)
  | '"' :: rest => some ('"', rest)
  | '\\' :: rest => some ('\\', rest)
  | 'u' :: rest => readCode 4 rest
  | 'U' :: rest => readCode 8 rest
  | _ => none

/-- A string in one line after its opening quote.  `sofar` holds its characters, the
last one first. -/
def readLine (quote : Char) (escapes : Bool) (fuel : Nat) (sofar : List Char) (cs : List Char) :
    Option (String × List Char) :=
  match fuel, cs with
  | 0, _ | _, [] => none
  | fuel + 1, c :: rest =>
    if c = quote then some (String.ofList sofar.reverse, rest)
    else if escapes && c = '\\' then do
      let (e, rest) ← readEscape rest
      readLine quote escapes fuel (e :: sofar) rest
    else if isPlain c then readLine quote escapes fuel (c :: sofar) rest
    else none

/-- After a backslash at the end of a line: all blanks and line ends. -/
def skipContinuation (fuel : Nat) (cs : List Char) : List Char :=
  match fuel with
  | 0 => cs
  | fuel + 1 =>
    match cs with
    | ' ' :: rest | '\t' :: rest => skipContinuation fuel rest
    | cs =>
      match dropLineEnd? cs with
      | some rest => skipContinuation fuel rest
      | none => cs

/-- Quotes in a text of several lines: three or more end it, the last three of at
most five. -/
def closing (quote : Char) (cs : List Char) : Option (Nat × List Char) :=
  let n := ((cs.take 5).takeWhile (· = quote)).length
  if 3 ≤ n then some (n - 3, cs.drop n) else none

/-- A string of several lines after its opening quotes. -/
def readLines (quote : Char) (escapes : Bool) (fuel : Nat) (sofar : List Char) (cs : List Char) :
    Option (String × List Char) :=
  match fuel, cs with
  | 0, _ | _, [] => none
  | fuel + 1, c :: rest =>
    match closing quote (c :: rest) with
    | some (n, rest) => some (String.ofList (sofar.reverse ++ List.replicate n quote), rest)
    | none =>
      if c = quote then readLines quote escapes fuel (c :: sofar) rest
      else if escapes && c = '\\' then
        match dropLineEnd? (skipBlanks rest) with
        | some more => readLines quote escapes fuel sofar (skipContinuation more.length more)
        | none =>
          match readEscape rest with
          | some (e, rest) => readLines quote escapes fuel (e :: sofar) rest
          | none => none
      else
        match dropLineEnd? (c :: rest) with
        | some rest => readLines quote escapes fuel ('\n' :: sofar) rest
        | none => if isPlain c then readLines quote escapes fuel (c :: sofar) rest else none

/-- The text after the line end that may follow the opening quotes. -/
def dropFirstLineEnd (cs : List Char) : List Char := (dropLineEnd? cs).getD cs

def readString (cs : List Char) : Option (String × List Char) :=
  let fuel := cs.length + 1
  match cs with
  | '"' :: '"' :: '"' :: rest => readLines '"' true fuel [] (dropFirstLineEnd rest)
  | '\'' :: '\'' :: '\'' :: rest => readLines '\'' false fuel [] (dropFirstLineEnd rest)
  | '"' :: rest => readLine '"' true fuel [] rest
  | '\'' :: rest => readLine '\'' false fuel [] rest
  | _ => none

def readSimpleKey (cs : List Char) : Option (String × List Char) :=
  match cs with
  | '"' :: rest => readLine '"' true (cs.length + 1) [] rest
  | '\'' :: rest => readLine '\'' false (cs.length + 1) [] rest
  | cs =>
    match cs.takeWhile isBare with
    | [] => none
    | ks => some (String.ofList ks, cs.drop ks.length)

/-- Parts of a key, and arrays and tables in one line, nest fewer levels than this. -/
def nestingLimit : Nat := 80

/-- A key of parts between points, after blanks. -/
def readKey (fuel : Nat) (cs : List Char) : Option (List String × List Char) :=
  match fuel with
  | 0 => none
  | fuel + 1 => do
    let (key, rest) ← readSimpleKey (skipBlanks cs)
    match skipBlanks rest with
    | '.' :: rest =>
      let (keys, rest) ← readKey fuel rest
      return (key :: keys, rest)
    | _ => return ([key], skipBlanks rest)

end Toml
end Publishing
