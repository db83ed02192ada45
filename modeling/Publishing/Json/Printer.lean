import Publishing.Decimal.Shortest
import Publishing.Json.Basic
import Publishing.Text.Digit

/-
The text of a JSON value, either without any space or spread over lines with an
indent of two.
-/

namespace Publishing

/-- How a shortest decimal is written: with a point for the values from
`10 ^ leastPlace` up to below `10 ^ greatestPlace`, and with an exponent and its
sign otherwise. -/
structure DecimalLayout where
  leastPlace : Int
  greatestPlace : Int

namespace Json

open Text

/-- A double is written with a point from 0.00001 up to below 1e16. -/
def decimalLayout : DecimalLayout := ⟨-5, 16⟩

/-- A point keeps a double apart from an integer; an exponent needs none. -/
def renderScientific (layout : DecimalLayout) (s : Decimal.Scientific) : List Char :=
  let ds := decimal s.digits
  let place : Int := (ds.length : Int) - 1 + s.exponent
  if layout.leastPlace ≤ place ∧ place < layout.greatestPlace then
    if 0 ≤ s.exponent then ds ++ List.replicate s.exponent.toNat '0' ++ ['.', '0']
    else if 0 ≤ place then
      ds.take (place.toNat + 1) ++ '.' :: ds.drop (place.toNat + 1)
    else '0' :: '.' :: List.replicate (-place - 1).toNat '0' ++ ds
  else
    let fraction := ds.drop 1
    ds.take 1 ++ (if fraction = [] then [] else '.' :: fraction) ++
      'e' :: (if place < 0 then '-' else '+') :: decimal place.natAbs

def renderFloat (x : Binary64) : List Char :=
  (if x.negative then ['-'] else []) ++ renderScientific decimalLayout (Decimal.shortest x)

def renderInt : Int → List Char
  | .ofNat n => decimal n
  | .negSucc n => '-' :: decimal (n + 1)

def renderNumber : Number → List Char
  | .int i => renderInt i
  | .float x => renderFloat x

def escapeChar (c : Char) : List Char :=
  if c = '"' then ['\\', '"']
  else if c = '\\' then ['\\', '\\']
  else if c.toNat = 0x08 then ['\\', 'b']
  else if c.toNat = 0x09 then ['\\', 't']
  else if c.toNat = 0x0a then ['\\', 'n']
  else if c.toNat = 0x0c then ['\\', 'f']
  else if c.toNat = 0x0d then ['\\', 'r']
  else if c.toNat < 0x20 then
    ['\\', 'u', '0', '0', hexDigit (c.toNat / 16), hexDigit (c.toNat % 16)]
  else [c]

def renderString (s : String) : List Char := '"' :: s.toList.flatMap escapeChar ++ ['"']

inductive Layout where
  | compact
  | pretty
  deriving DecidableEq

/-- What goes before an item, or before the closing bracket, at this level. -/
def Layout.line (layout : Layout) (level : Nat) : List Char :=
  match layout with
  | .compact => []
  | .pretty => '\n' :: List.replicate (2 * level) ' '

def Layout.colon : Layout → List Char
  | .compact => [':']
  | .pretty => [':', ' ']

mutual

def render (layout : Layout) (level : Nat) : Json → List Char
  | .null => ['n', 'u', 'l', 'l']
  | .bool true => ['t', 'r', 'u', 'e']
  | .bool false => ['f', 'a', 'l', 's', 'e']
  | .number n => renderNumber n
  | .string s => renderString s
  | .array [] => ['[', ']']
  | .array (x :: xs) =>
    '[' :: layout.line (level + 1) ++ render layout (level + 1) x ++
      renderItems layout (level + 1) xs ++ layout.line level ++ [']']
  | .object [] => ['\x7b', '\x7d']
  | .object ((k, x) :: xs) =>
    '\x7b' :: layout.line (level + 1) ++ renderString k ++ layout.colon ++
      render layout (level + 1) x ++ renderMembers layout (level + 1) xs ++
      layout.line level ++ ['\x7d']

/-- The items after the first. -/
def renderItems (layout : Layout) (level : Nat) : List Json → List Char
  | [] => []
  | x :: xs => ',' :: layout.line level ++ render layout level x ++ renderItems layout level xs

/-- The members after the first. -/
def renderMembers (layout : Layout) (level : Nat) : List (String × Json) → List Char
  | [] => []
  | (k, x) :: xs =>
    ',' :: layout.line level ++ renderString k ++ layout.colon ++ render layout level x ++
      renderMembers layout level xs

end

def compact (v : Json) : String := String.ofList (render .compact 0 v)

def pretty (v : Json) : String := String.ofList (render .pretty 0 v)

example : renderFloat ⟨false, 7205759403792794, -56⟩ = ['0', '.', '1'] := by decide +kernel
example : renderFloat ⟨true, 0, 0⟩ = ['-', '0', '.', '0'] := by decide +kernel
example : renderFloat ⟨false, 1, -1074⟩ = ['5', 'e', '-', '3', '2', '4'] := by decide +kernel

end Json
end Publishing
