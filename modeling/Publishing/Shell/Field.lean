import Publishing.Files.System
import Publishing.Shell.Pattern

/-
What the words of a command expand to: first a row of glyphs, which is cut into fields;
then the fields that are patterns become the paths that fit them.
-/

namespace Publishing
namespace Shell

inductive Glyph where
  /-- A byte.  A quoted one means nothing but itself; one that splits may end a field. -/
  | byte (c : Char) (quoted splits : Bool)
  /-- A quotation mark: there is a field even if nothing is in it. -/
  | mark
  /-- The end of an argument, which ends a field. -/
  | boundary (quoted : Bool)

namespace Glyph

def ofText (quoted splits : Bool) (cs : Bytes) : List Glyph := cs.map fun c => .byte c quoted splits

/-- The bytes of glyphs. -/
def text (gs : List Glyph) : Bytes :=
  gs.filterMap fun
    | .byte c _ _ => some c
    | _ => none

/-- The pattern that glyphs make.  Quoted bytes stand for themselves; a backslash that is
not quoted takes the meaning from what follows it. -/
def pattern : (escaped : Bool) → List Glyph → Bytes
  | _, [] => []
  | escaped, .byte c quoted _ :: gs =>
    if quoted ∧ !escaped then '\\' :: c :: pattern false gs
    else c :: pattern (c = '\\' && !quoted && !escaped) gs
  | escaped, _ :: gs => pattern escaped gs

/-- The text that glyphs make as one argument. -/
def whole (gs : List Glyph) : Bytes :=
  gs.flatMap fun
    | .byte c _ _ => [c]
    | .mark => []
    | .boundary _ => [' ']

/-- The text that glyphs make, with a zero byte where an argument ends. -/
def spread (gs : List Glyph) : Bytes :=
  gs.flatMap fun
    | .byte c _ _ => [c]
    | .mark => []
    | .boundary _ => ['\x00']

/-- The glyphs of a text with zero bytes where arguments end. -/
def gathered (quoted : Bool) (cs : Bytes) : List Glyph :=
  cs.map fun c => if c = '\x00' then .boundary quoted else .byte c quoted (!quoted)

end Glyph

/-- What was cut into fields so far. -/
structure Cut where
  /-- The fields in reverse order. -/
  fields : List (List Glyph)
  /-- The field that is not yet ended, in reverse order. -/
  current : List Glyph
  /-- Whether a field was just ended by a blank. -/
  afterBlank : Bool

namespace Cut

def start : Cut := ⟨[], [], false⟩

def endField (k : Cut) (afterBlank : Bool) : Cut :=
  ⟨k.current.reverse :: k.fields, [], afterBlank⟩

def blank (c : Char) : Bool := c = ' ' || c = '\t' || c = '\n'

/-- Go on by a blank that separates. -/
def addBlank (k : Cut) : Cut :=
  if k.afterBlank ∨ k.current.isEmpty then k else k.endField true

/-- Go on by one glyph. -/
def step (separators : Bytes) (k : Cut) (g : Glyph) : Cut :=
  match g with
  | .byte c _ true =>
    if !separators.contains c then ⟨k.fields, g :: k.current, false⟩
    else if blank c then k.addBlank
    else if k.afterBlank then { k with afterBlank := false }
    else k.endField false
  | .boundary false => k.addBlank
  | .boundary true => ⟨(k.current.reverse ++ [.mark]) :: k.fields, [.mark], false⟩
  | g => ⟨k.fields, g :: k.current, false⟩

end Cut

/-- The fields of glyphs. -/
def fieldsOf (separators : Bytes) (gs : List Glyph) : List (List Glyph) :=
  let k := gs.foldl (Cut.step separators) Cut.start
  (if k.current.isEmpty then k.fields else k.current.reverse :: k.fields).reverse

/-! ## Paths -/

/-- The names in a directory that a pattern fits.  Hidden ones need a dot in
front of the pattern. -/
def namesThatFit (fs : FileSystem) (directory : Bytes) (p : Bytes) : List Bytes :=
  let path := if directory = [] then "." else Bytes.toText directory
  match fs.stat path with
  | .ok (.directory es) =>
    let names := (es.map fun e => Bytes.ofString e.1) ++ [['.'], ['.', '.']]
    names.filter fun n =>
      (n.head? ≠ some '.' || (Pattern.literal p).head? = some '.') && Pattern.fits p n
  | _ => []

/-- The paths below directories that fit the parts of a pattern. -/
def pathsThatFit (fs : FileSystem) : (starts : List Bytes) → (parts : List Bytes) → List Bytes
  | starts, [] => starts
  | starts, part :: parts =>
    let last := parts.isEmpty
    let next := starts.flatMap fun start =>
      if Pattern.hasMeta part then
        (namesThatFit fs start part).filterMap fun n =>
          let path := start ++ n
          if last then some path
          else if fs.isDirectory (Bytes.toText path) then some (path ++ ['/']) else none
      else
        let path := start ++ Pattern.literal part
        if last then (if part = [] ∨ fs.contains (Bytes.toText path) then [path] else [])
        else [path ++ ['/']]
    pathsThatFit fs next parts

def inOrder (paths : List Bytes) : List Bytes :=
  paths.mergeSort fun a b => decide (String.ofList a ≤ String.ofList b)

/-- The texts that a field stands for. -/
def textsOf (fs : FileSystem) (expands : Bool) (field : List Glyph) : List Bytes :=
  let p := Glyph.pattern false field
  if expands ∧ Pattern.hasMeta p then
    match pathsThatFit fs [[]] (Bytes.splitOn '/' p) with
    | [] => [Glyph.text field]
    | paths => inOrder paths
  else [Glyph.text field]

end Shell
end Publishing
