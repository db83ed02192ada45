import Publishing.Text.Digit
import Publishing.Text.Utf8

/-
Texts of the shell.

A script and the values in it may hold any bytes, so a text is a list of characters
each of which stands for one byte.
-/

namespace Publishing
namespace Shell

abbrev Bytes := List Char

namespace Bytes

def ofByte (b : UInt8) : Char := Char.ofNat b.toNat

def toByte (c : Char) : UInt8 := UInt8.ofNat c.toNat

theorem toNat_ofByte (b : UInt8) : (ofByte b).toNat = b.toNat := by
  have h : ∀ n : Fin 256, (Char.ofNat n.val).toNat = n.val := by decide +kernel
  exact h ⟨b.toNat, b.toNat_lt⟩

theorem toByte_ofByte (b : UInt8) : toByte (ofByte b) = b := by
  simp [toByte, toNat_ofByte]

def ofByteArray (bytes : ByteArray) : Bytes := bytes.toList.map ofByte

def toByteArray (cs : Bytes) : ByteArray := ⟨(cs.map toByte).toArray⟩

def ofString (s : String) : Bytes := ofByteArray s.toUTF8

/-- The text that the bytes encode. -/
def toText (cs : Bytes) : String := Text.decodeLossy (toByteArray cs)

def decimal (n : Nat) : Bytes := Text.decimal n

def ofInt (n : Int) : Bytes :=
  if n < 0 then '-' :: Text.decimal n.natAbs else Text.decimal n.natAbs

/-- The number that a text of digits writes. -/
def natural? (cs : Bytes) : Option Nat :=
  if cs ≠ [] ∧ cs.all Text.isDigit then some (Text.numberOf cs) else none

def isBlank (c : Char) : Bool := c = ' ' || c = '\t'

/-- The blanks of plain text. -/
def isSpace (c : Char) : Bool := c = ' ' || ('\t' ≤ c && c ≤ '\r')

def isNameStart (c : Char) : Bool := c.isAlpha || c = '_'

def isNameChar (c : Char) : Bool := c.isAlphanum || c = '_'

/-- Whether the text may name a variable. -/
def isName : Bytes → Bool
  | [] => false
  | c :: rest => isNameStart c && rest.all isNameChar

/-- The name and the value of an assignment, if the text is one. -/
def assignment? (cs : Bytes) : Option (Bytes × Bytes) :=
  let name := cs.takeWhile isNameChar
  match cs.drop name.length with
  | '=' :: value => if isName name then some (name, value) else none
  | _ => none

/-- The text cut at each of the characters `c`. -/
def splitOn (c : Char) : Bytes → List Bytes
  | [] => [[]]
  | a :: rest =>
    match splitOn c rest with
    | [] => [[a]]
    | part :: parts => if a = c then [] :: part :: parts else (a :: part) :: parts

def joined (between : Bytes) (parts : List Bytes) : Bytes := between.intercalate parts

end Bytes
end Shell
end Publishing
