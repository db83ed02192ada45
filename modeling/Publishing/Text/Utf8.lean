/-
Decoding of UTF-8.

Bytes that are no UTF-8 are replaced, each maximal piece of a well-formed
sequence by one replacement character.
-/

namespace Publishing
namespace Text

/-- How a sequence goes on after its first byte: the bounds of the second byte
and the number of bytes in all.  The bounds keep out overlong forms, surrogates
and code points above U+10FFFF. -/
structure Lead where
  low : UInt8
  high : UInt8
  length : Nat

def lead? (b : UInt8) : Option Lead :=
  if b < 0x80 then some ⟨0x80, 0xbf, 1⟩
  else if b < 0xc2 then none
  else if b < 0xe0 then some ⟨0x80, 0xbf, 2⟩
  else if b = 0xe0 then some ⟨0xa0, 0xbf, 3⟩
  else if b = 0xed then some ⟨0x80, 0x9f, 3⟩
  else if b < 0xf0 then some ⟨0x80, 0xbf, 3⟩
  else if b = 0xf0 then some ⟨0x90, 0xbf, 4⟩
  else if b < 0xf4 then some ⟨0x80, 0xbf, 4⟩
  else if b = 0xf4 then some ⟨0x80, 0x8f, 4⟩
  else none

def isContinuation (b : UInt8) : Bool := 0x80 ≤ b && b ≤ 0xbf

/-- The longest piece of a sequence with this lead at the front of `rest`, the
bytes after the first one. -/
def continuationCount (l : Lead) (rest : List UInt8) : Nat :=
  match rest with
  | [] => 0
  | b :: more =>
    if l.length < 2 ∨ b < l.low ∨ l.high < b then 0
    else 1 + ((more.take (l.length - 2)).takeWhile isContinuation).length

def payload (b : UInt8) : Nat := b.toNat % 64

def scalar (first : UInt8) (rest : List UInt8) : Char :=
  match rest with
  | [] => Char.ofNat first.toNat
  | [a] => Char.ofNat (first.toNat % 32 * 64 + payload a)
  | [a, b] => Char.ofNat (first.toNat % 16 * 4096 + payload a * 64 + payload b)
  | a :: b :: c :: _ =>
    Char.ofNat (first.toNat % 8 * 262144 + payload a * 4096 + payload b * 64 + payload c)

def replacement : Char := Char.ofNat 0xfffd

def decodeLossyList (bytes : List UInt8) (acc : List Char) : List Char :=
  match bytes with
  | [] => acc.reverse
  | b :: rest =>
    match lead? b with
    | none => decodeLossyList rest (replacement :: acc)
    | some l =>
      let n := continuationCount l rest
      let c := if n + 1 = l.length then scalar b (rest.take n) else replacement
      decodeLossyList (rest.drop n) (c :: acc)
termination_by bytes.length
decreasing_by
  · simp
  · simp only [List.length_cons, List.length_drop]; omega

/-- The text of `bytes`, with replacement characters for what is no UTF-8. -/
def decodeLossy (bytes : ByteArray) : String :=
  match String.fromUTF8? bytes with
  | some s => s
  | none => String.ofList (decodeLossyList bytes.toList [])

def decode? (bytes : ByteArray) : Option String := String.fromUTF8? bytes

end Text
end Publishing
