import Publishing.Shell.Bytes

/-
The named classes of characters.  Bytes beyond ASCII are in none of them.
-/

namespace Publishing
namespace Shell

namespace CharClass

def isPunctuation (c : Char) : Bool := '!' ≤ c && c ≤ '~' && !c.isAlphanum

def isHexDigit (c : Char) : Bool := (Text.hexValue? c).isSome

/-- The class with a name. -/
def named? : String → Option (Char → Bool)
  | "alnum" => some Char.isAlphanum
  | "alpha" => some Char.isAlpha
  | "blank" => some Bytes.isBlank
  | "cntrl" => some fun c => c < ' ' || c.toNat = 127
  | "digit" => some Text.isDigit
  | "graph" => some fun c => '!' ≤ c && c ≤ '~'
  | "lower" => some Char.isLower
  | "print" => some fun c => ' ' ≤ c && c ≤ '~'
  | "punct" => some isPunctuation
  | "space" => some Bytes.isSpace
  | "upper" => some Char.isUpper
  | "xdigit" => some isHexDigit
  | _ => none

/-- The class whose name with a colon at each end begins the text, and how long that
is with the bracket after it. -/
def front? (cs : Bytes) : Option ((Char → Bool) × Nat) :=
  match cs with
  | ':' :: rest =>
    let name := rest.takeWhile Char.isLower
    match rest.drop name.length with
    | ':' :: ']' :: _ => (named? (String.ofList name)).map fun p => (p, name.length + 3)
    | _ => none
  | _ => none

end CharClass
end Shell
end Publishing
