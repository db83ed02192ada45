import Publishing.Text.Digit

/-
Strings, keys and arrays as they are written in TOML.

Of the ways to write a string the first is taken that needs no escapes, and basic
strings in one line come before all others.
-/

namespace Publishing
namespace Toml

/-- What decides how a string is written. -/
structure Features where
  backslash : Bool
  lineFeed : Bool
  /-- Control characters but the tab and the line feed. -/
  control : Bool
  /-- The longest runs of quotes. -/
  quotes : Nat
  apostrophes : Nat

/-- The longest run of `c`, with a run of `n` before the text. -/
def longestRun (c : Char) : (n : Nat) → List Char → Nat
  | n, [] => n
  | n, d :: rest => if d = c then longestRun c (n + 1) rest else max n (longestRun c 0 rest)

def isControl (c : Char) : Bool :=
  (c.toNat < 0x20 && c ≠ '\t' && c ≠ '\n') || c.toNat = 0x7f

def Features.of (cs : List Char) : Features where
  backslash := cs.contains '\\'
  lineFeed := cs.contains '\n'
  control := cs.any isControl
  quotes := longestRun '"' 0 cs
  apostrophes := longestRun '\'' 0 cs

def upperHex (n : Nat) : List Char := (Text.hexDigits 4 n).map Char.toUpper

/-- The text between quotes.  `allowed` quotes in a row need no escape, and neither
does a line feed if `lines` says so; `run` quotes have just been written. -/
def escape (allowed : Nat) (lines : Bool) : (run : Nat) → List Char → List Char
  | _, [] => []
  | run, c :: rest =>
    if c = '"' then
      if run < allowed then '"' :: escape allowed lines (run + 1) rest
      else '\\' :: '"' :: escape allowed lines 0 rest
    else if c = '\\' then '\\' :: '\\' :: escape allowed lines 0 rest
    else if c = '\t' then '\\' :: 't' :: escape allowed lines 0 rest
    else if c = '\n' then
      (if lines then ['\n'] else ['\\', 'n']) ++ escape allowed lines 0 rest
    else if c = '\r' then '\\' :: 'r' :: escape allowed lines 0 rest
    else if c.toNat = 0x08 then '\\' :: 'b' :: escape allowed lines 0 rest
    else if c.toNat = 0x0c then '\\' :: 'f' :: escape allowed lines 0 rest
    else if c.toNat < 0x20 ∨ c.toNat = 0x7f then
      '\\' :: 'u' :: upperHex c.toNat ++ escape allowed lines 0 rest
    else c :: escape allowed lines 0 rest

def basic (cs : List Char) : List Char := '"' :: escape 0 false 0 cs ++ ['"']

def literal (cs : List Char) : List Char := '\'' :: cs ++ ['\'']

/-- Three quotes on both sides, and a line feed after the first if the text has
several lines. -/
def enclose (quote : Char) (lines : Bool) (cs : List Char) : List Char :=
  List.replicate 3 quote ++ (if lines then ['\n'] else []) ++ cs ++ List.replicate 3 quote

def string (s : String) : List Char :=
  let cs := s.toList
  let f := Features.of cs
  if !f.control && !f.backslash && f.quotes = 0 && !f.lineFeed then basic cs
  else if !f.control && f.apostrophes = 0 && !f.lineFeed then literal cs
  else if !f.control && !f.backslash && f.quotes ≤ 2 then
    enclose '"' f.lineFeed (escape 2 true 0 cs)
  else if !f.control && f.apostrophes ≤ 2 then enclose '\'' f.lineFeed cs
  else if f.lineFeed then enclose '"' true (escape 2 true 0 cs)
  else basic cs

def isBareKey (cs : List Char) : Bool :=
  !cs.isEmpty && cs.all fun c => c.isAlphanum || c = '_' || c = '-'

def key (s : String) : List Char :=
  let cs := s.toList
  let f := Features.of cs
  let control := f.control || f.lineFeed
  if isBareKey cs then cs
  else if !control && !f.backslash && f.quotes = 0 then basic cs
  else if !control && f.apostrophes = 0 then literal cs
  else basic cs

/-- An array in one line if it has one item at most, and else with a line for each
item. -/
def array (items : List (List Char)) : List Char :=
  match items with
  | [] => ['[', ']']
  | [item] => '[' :: item ++ [']']
  | items => '[' :: items.flatMap (fun i => "\n    ".toList ++ i ++ [',']) ++ ['\n', ']']

def pair (name : String) (value : List Char) : List Char :=
  key name ++ " = ".toList ++ value ++ ['\n']

/-- A header with the pairs below it. -/
def table (path : List String) (pairs : List (List Char)) : List Char :=
  '[' :: ['.'].intercalate (path.map key) ++ [']', '\n'] ++ pairs.flatten

/-- The greatest integer that can be written. -/
def greatestInteger : Nat := 9223372036854775807

/-- Tables with a blank line between them. -/
def document (tables : List (List Char)) : String := String.ofList (['\n'].intercalate tables)

example : string "a\"b" = "'a\"b'".toList := by decide +kernel
example : string "c\n\"d\"" = "\"\"\"\nc\n\"d\"\"\"\"".toList := by decide +kernel

end Toml
end Publishing
