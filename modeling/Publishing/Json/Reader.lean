import Publishing.Json.Numeral
import Publishing.Json.Tree

/-
Reading of JSON text.
-/

namespace Publishing
namespace Json

open Text

def readHex4 : List Char → Option (Nat × List Char)
  | a :: b :: c :: d :: rest => do
    return ((((← hexValue? a) * 16 + (← hexValue? b)) * 16 + (← hexValue? c)) * 16
      + (← hexValue? d), rest)
  | _ => none

def simpleEscape? : Char → Option Char
  | '"' => some '"'
  | '\\' => some '\\'
  | '/' => some '/'
  | 'b' => some (Char.ofNat 0x08)
  | 'f' => some (Char.ofNat 0x0c)
  | 'n' => some (Char.ofNat 0x0a)
  | 'r' => some (Char.ofNat 0x0d)
  | 't' => some (Char.ofNat 0x09)
  | _ => none

def isHighSurrogate (n : Nat) : Bool := 0xd800 ≤ n && n ≤ 0xdbff

def isLowSurrogate (n : Nat) : Bool := 0xdc00 ≤ n && n ≤ 0xdfff

/-- The character of an escape with the code `n` in front of `rest`, a pair of
surrogates counting as one character.  `none` is half of a pair. -/
def readCode (n : Nat) (rest : List Char) : Option Char × List Char :=
  if isHighSurrogate n then
    match rest with
    | '\\' :: 'u' :: more =>
      match readHex4 more with
      | some (m, more) =>
        if isLowSurrogate m then
          (some (Char.ofNat (0x10000 + (n - 0xd800) * 0x400 + (m - 0xdc00))), more)
        else (none, rest)
      | none => (none, rest)
    | _ => (none, rest)
  else if isLowSurrogate n then (none, rest)
  else (some (Char.ofNat n), rest)

/-- One character of a string, after its opening quote. -/
def readChar : List Char → Option (Option Char × List Char)
  | '\\' :: 'u' :: cs => (readHex4 cs).map fun (n, rest) => readCode n rest
  | '\\' :: c :: cs => (simpleEscape? c).map fun e => (some e, cs)
  | '\\' :: [] => none
  | c :: cs => if c.toNat < 0x20 then none else some (some c, cs)
  | [] => none

/-- A string after its opening quote, up to its closing one.  `sofar` holds the
characters read, last first, or `none` once half of a surrogate pair came. -/
def readString (fuel : Nat) (sofar : Option (List Char)) (cs : List Char) :
    Option (Option String × List Char) :=
  match fuel, cs with
  | 0, _ => none
  | _, '"' :: rest => some (sofar.map fun l => String.ofList l.reverse, rest)
  | fuel + 1, cs =>
    match readChar cs with
    | none => none
    | some (c, rest) => readString fuel (do return (← c) :: (← sofar)) rest

/-! ## Values -/

def isSpace (c : Char) : Bool := c = ' ' || c = '\n' || c = '\t' || c = '\r'

def skipSpace (cs : List Char) : List Char := cs.dropWhile isSpace

def readNumber (negative : Bool) (cs : List Char) : Tree × List Char :=
  match readNumeral negative cs with
  | some (n, rest) => (.number n.value?, rest)
  | none => (.cut, [])

mutual

/-- The value in front of the text, and what follows it. -/
def readTree (fuel : Nat) (cs : List Char) : Tree × List Char :=
  match fuel with
  | 0 => (.cut, [])
  | fuel + 1 =>
    match skipSpace cs with
    | 'n' :: 'u' :: 'l' :: 'l' :: rest => (.null, rest)
    | 't' :: 'r' :: 'u' :: 'e' :: rest => (.bool true, rest)
    | 'f' :: 'a' :: 'l' :: 's' :: 'e' :: rest => (.bool false, rest)
    | '"' :: rest =>
      match readString (rest.length + 1) (some []) rest with
      | some (s, rest) => (.string s, rest)
      | none => (.cut, [])
    | '[' :: rest =>
      match skipSpace rest with
      | ']' :: rest => (.array [] true, rest)
      | rest =>
        let (items, closed, rest) := readItems fuel rest
        (.array items closed, rest)
    | '\x7b' :: rest =>
      match skipSpace rest with
      | '\x7d' :: rest => (.object [] true, rest)
      | rest =>
        let (members, closed, rest) := readMembers fuel rest
        (.object members closed, rest)
    | '-' :: rest => readNumber true rest
    | c :: rest => if isDigit c then readNumber false (c :: rest) else (.cut, [])
    | [] => (.cut, [])

/-- The items of an array up to its closing bracket, or up to where the text
stops being JSON. -/
def readItems (fuel : Nat) (cs : List Char) : List Tree × Bool × List Char :=
  match fuel with
  | 0 => ([.cut], false, [])
  | fuel + 1 =>
    let (t, rest) := readTree fuel cs
    match skipSpace rest with
    | ',' :: rest =>
      let (ts, closed, rest) := readItems fuel rest
      (t :: ts, closed, rest)
    | ']' :: rest => ([t], true, rest)
    | _ => ([t], false, [])

/-- The members of an object, as `readItems`. -/
def readMembers (fuel : Nat) (cs : List Char) :
    List (Option String × Tree) × Bool × List Char :=
  match fuel with
  | 0 => ([], false, [])
  | fuel + 1 =>
    match skipSpace cs with
    | '"' :: rest =>
      match readString (rest.length + 1) (some []) rest with
      | none => ([], false, [])
      | some (key, rest) =>
        match skipSpace rest with
        | ':' :: rest =>
          let (t, rest) := readTree fuel rest
          match skipSpace rest with
          | ',' :: rest =>
            let (ts, closed, rest) := readMembers fuel rest
            ((key, t) :: ts, closed, rest)
          | '\x7d' :: rest => ([(key, t)], true, rest)
          | _ => ([(key, t)], false, [])
        | _ => ([(key, .cut)], false, [])
    | _ => ([], false, [])

end

/-- A whole text as a tree, and whether nothing but space follows it. -/
def Tree.ofText (text : String) : Tree × Bool :=
  let cs := text.toList
  let (t, rest) := readTree (2 * cs.length + 2) cs
  (t, skipSpace rest = [])

/-- Texts nest at most this many levels. -/
def greatestDepth : Nat := 127

/-- The value of a text, if it is JSON. -/
def parse? (text : String) : Option Json :=
  match Tree.ofText text with
  | (t, true) => t.toJson? greatestDepth
  | (_, false) => none

end Json
end Publishing
