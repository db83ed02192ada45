import Publishing.Toml.Number
import Publishing.Toml.Table
import Publishing.Toml.Text

/-
Reading of TOML.

What comes out is a tree of the kind that JSON text gives.
-/

namespace Publishing
namespace Toml

open Text

/-- A comment up to the end of its line. -/
def skipComment : List Char → Option (List Char)
  | '#' :: rest =>
    let text := rest.takeWhile fun c => c ≠ '\n' && c ≠ '\r'
    if text.all isPlain then some (rest.drop text.length) else none
  | cs => some cs

/-- Blanks, comments and line ends. -/
def skipLines (fuel : Nat) (cs : List Char) : Option (List Char) :=
  match fuel with
  | 0 => none
  | fuel + 1 => do
    let cs ← skipComment (skipBlanks cs)
    match dropLineEnd? cs with
    | some rest => skipLines fuel rest
    | none => return cs

mutual

/-- The value in front of the text, inside `level` arrays and tables. -/
def readValue (level fuel : Nat) (cs : List Char) : Option (Json.Tree × List Char) :=
  match fuel with
  | 0 => none
  | fuel + 1 =>
    match cs with
    | '"' :: _ | '\'' :: _ => (readString cs).map fun (s, rest) => (.string (some s), rest)
    | '[' :: rest =>
      if nestingLimit ≤ level + 1 then none
      else (readItems (level + 1) fuel rest).map fun (ts, rest) => (.array ts true, rest)
    | '\x7b' :: rest =>
      if nestingLimit ≤ level + 1 then none
      else
        match skipBlanks rest with
        | '\x7d' :: rest => some (.object [] true, rest)
        | rest =>
          (readPairs (level + 1) fuel [] rest).map fun (es, rest) =>
            (.object (entriesToMembers es) true, rest)
    | 't' :: 'r' :: 'u' :: 'e' :: rest => some (.bool true, rest)
    | 'f' :: 'a' :: 'l' :: 's' :: 'e' :: rest => some (.bool false, rest)
    | cs => readNumber cs

/-- The items of an array up to its closing bracket. -/
def readItems (level fuel : Nat) (cs : List Char) : Option (List Json.Tree × List Char) :=
  match fuel with
  | 0 => none
  | fuel + 1 => do
    match ← skipLines (cs.length + 1) cs with
    | ']' :: rest => return ([], rest)
    | cs =>
      let (t, rest) ← readValue level fuel cs
      match ← skipLines (rest.length + 1) rest with
      | ',' :: rest =>
        let (ts, rest) ← readItems level fuel rest
        return (t :: ts, rest)
      | ']' :: rest => return ([t], rest)
      | _ => none

/-- The pairs of a table in one line up to its closing brace. -/
def readPairs (level fuel : Nat) (sofar : Entries) (cs : List Char) :
    Option (Entries × List Char) :=
  match fuel with
  | 0 => none
  | fuel + 1 => do
    let (path, rest) ← readKey nestingLimit cs
    guard (path.length < nestingLimit)
    match rest with
    | '=' :: rest =>
      let (v, rest) ← readValue level fuel (skipBlanks rest)
      let (above, key) := splitLast path
      let es ← addValue above key v sofar
      match skipBlanks rest with
      | ',' :: rest => readPairs level fuel es rest
      | '\x7d' :: rest => return (es, rest)
      | _ => none
    | _ => none

end

/-! ## Documents -/

/-- The end of a line, with blanks and a comment before it. -/
def endLine (cs : List Char) : Option (List Char) := do
  match ← skipComment (skipBlanks cs) with
  | [] => return []
  | cs => dropLineEnd? cs

def readHeader (cs : List Char) : Option (List String × List Char) := do
  let (path, rest) ← readKey nestingLimit cs
  guard (path.length < nestingLimit)
  match rest with
  | ']' :: rest => return (path, rest)
  | _ => none

/-- One line: a header, a pair or nothing. -/
def readEntry (d : Draft) (cs : List Char) : Option (Draft × List Char) :=
  match skipBlanks cs with
  | '[' :: '[' :: rest => do
    let (path, rest) ← readHeader rest
    match rest with
    | ']' :: rest => return (← d.openArray path, ← endLine rest)
    | _ => none
  | '[' :: rest => do
    let (path, rest) ← readHeader rest
    return (← d.openTable path, ← endLine rest)
  | [] => some (d, [])
  | '#' :: rest => (endLine ('#' :: rest)).map fun rest => (d, rest)
  | cs =>
    match dropLineEnd? cs with
    | some rest => some (d, rest)
    | none => do
      let (path, rest) ← readKey nestingLimit cs
      guard (path.length < nestingLimit)
      match rest with
      | '=' :: rest =>
        let rest := skipBlanks rest
        let (v, rest) ← readValue 0 (2 * rest.length + 2) rest
        let (above, key) := splitLast path
        let current ← addValue above key v d.current
        return ({ d with current := current }, ← endLine rest)
      | _ => none

def readEntries (fuel : Nat) (d : Draft) (cs : List Char) : Option Draft :=
  match fuel, cs with
  | _, [] => some d
  | 0, _ => none
  | fuel + 1, cs => do
    let (d, rest) ← readEntry d cs
    readEntries fuel d rest

/-- The document of a text.  A byte order mark may stand in front. -/
def parse? (text : String) : Option Json.Tree := do
  let cs := match text.toList with
    | c :: rest => if c.toNat = 0xfeff then rest else c :: rest
    | [] => []
  let d ← readEntries (cs.length + 1) .empty cs
  let root ← d.finish
  return .object (entriesToMembers root) true

end Toml
end Publishing
