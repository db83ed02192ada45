import Publishing.Shell.Source

/-
Words as they are read: a row of pieces, some of which open or close a part.
-/

namespace Publishing
namespace Shell

inductive Piece where
  | byte (c : Char) (quoted : Bool)
  | mark
  | openParameter (name : Bytes) (use : ParameterUse)
  | closeParameter
  | openArithmetic
  | closeArithmetic
  | output (c : Command)

inductive Opening where
  | word
  | parameter (name : Bytes) (use : ParameterUse)
  | arithmetic

/-- A part that is still open, with what it holds in reverse order. -/
structure OpenPart where
  opening : Opening
  parts : Word
  /-- Whether a quotation mark in it is open. -/
  quoted : Bool

namespace OpenPart

def add (p : OpenPart) (w : WordPart) : OpenPart := { p with parts := w :: p.parts }

/-- Quotation marks around all arguments are part of them: without arguments there
is no word. -/
def addMark (p : OpenPart) : OpenPart :=
  match p.quoted, p.parts with
  | true, .parameter ['@'] .value w true :: .mark :: rest =>
    { p with parts := .parameter ['@'] .value w true :: rest, quoted := false }
  | quoted, parts => { p with parts := .mark :: parts, quoted := !quoted }

/-- The part that is closed, within another one. -/
def close (p : OpenPart) (quoted : Bool) : Word :=
  match p.opening with
  | .word => p.parts
  | .parameter name use => [.parameter name use p.parts.reverse quoted]
  | .arithmetic => [.arithmetic p.parts.reverse quoted]

end OpenPart

/-- Go on by one piece, with the innermost open part in front. -/
def Piece.assemble (around : List OpenPart) (p : Piece) : List OpenPart :=
  match around with
  | [] => []
  | inner :: outer =>
    match p with
    | .byte c quoted => inner.add (.byte c quoted) :: outer
    | .mark => inner.addMark :: outer
    | .output c => inner.add (.output c inner.quoted) :: outer
    | .openParameter name .value => inner.add (.parameter name .value [] inner.quoted) :: outer
    | .openParameter name use => ⟨.parameter name use, [], false⟩ :: inner :: outer
    | .openArithmetic => ⟨.arithmetic, [], false⟩ :: inner :: outer
    | .closeParameter | .closeArithmetic =>
      match outer with
      | [] => [inner]
      | above :: outer =>
        { above with parts := inner.close above.quoted ++ above.parts } :: outer

/-- The word that pieces make. -/
def Word.ofPieces (ps : List Piece) : Word :=
  match ps.foldl Piece.assemble [⟨.word, [], false⟩] with
  | [] => []
  | inner :: _ => inner.parts.reverse

/-! ## Where a piece stands -/

inductive Style where
  | plain
  | double
  | single
  | arithmetic
  deriving DecidableEq

/-- How characters are read where a piece stands. -/
structure Level where
  style : Style
  /-- Whether double quotes are around. -/
  quoted : Bool
  /-- Whether double quotes are open within an open parameter. -/
  innerQuoted : Bool
  /-- The parameters that are open, and those of them within double quotes. -/
  parameters : Nat
  quotedParameters : Nat
  /-- Whether it ends with its last parameter. -/
  ends : Bool
  /-- The parentheses that are open. -/
  parentheses : Nat

namespace Level

def start (style : Style) : Level := ⟨style, style = .double, false, 0, 0, false, 0⟩

/-- A quotation mark in a plain text opens or closes quotes within a parameter. -/
def toggled (l : Level) : Level :=
  if l.parameters = 0 then l else { l with innerQuoted := !l.innerQuoted }

/-- Where the word of a parameter is read.  A pattern is read as plain text. -/
def opened (l : Level) (use : ParameterUse) (outer : List Level) : Level × List Level :=
  let style : Style := match use, l.style with
    | .trimmed .., _ => .plain
    | _, .arithmetic => .double
    | _, style => style
  if use = .value then (l, outer)
  else
    let (l, outer) :=
      if style ≠ l.style ∨ l.innerQuoted then
        (⟨style, style ≠ .plain, false, 0, 0, true, 0⟩, l :: outer)
      else (l, outer)
    ({ l with
        parameters := l.parameters + 1
        quotedParameters := l.quotedParameters + if l.quoted then 1 else 0 }, outer)

/-- Where the text after the word of a parameter is read. -/
def closed (l : Level) (outer : List Level) : Level × List Level :=
  match l.parameters - 1, l.ends, outer with
  | 0, true, above :: outer => (above, outer)
  | n, _, outer => ({ l with parameters := n, quotedParameters := l.quotedParameters - 1 }, outer)

end Level
end Shell
end Publishing
