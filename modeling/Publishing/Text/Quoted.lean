import Publishing.Text.Printable

/-
Quoted text for messages: double quotes around it, and escapes for quotes, for
backslashes and for every character that would not show.
-/

namespace Publishing
namespace Text

/-- Lower case hexadecimal digits without leading zeros. -/
def codeDigits (n : Nat) : List Char := Nat.toDigits 16 n

def escapeCode (c : Char) : List Char := '\\' :: 'u' :: '\x7b' :: codeDigits c.toNat ++ ['\x7d']

/-- One character inside the quotes.  A character that joins the one before it
is escaped as well, since it would show as part of that one. -/
def quoteChar (c : Char) : List Char :=
  if c.toNat = 0 then ['\\', '0']
  else if c = '\t' then ['\\', 't']
  else if c = '\r' then ['\\', 'r']
  else if c = '\n' then ['\\', 'n']
  else if c = '\\' then ['\\', '\\']
  else if c = '"' then ['\\', '"']
  else if isJoining c then escapeCode c
  else if isPrintable c then [c]
  else escapeCode c

/-- Quoted text. -/
def quote (s : String) : String :=
  String.ofList ('"' :: s.toList.flatMap (quoteChar) ++ ['"'])

end Text
end Publishing
