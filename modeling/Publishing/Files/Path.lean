/-
Paths as text.

A path is a prefix, which is a slash, a dot or nothing, and after it parts between
slashes.  Empty parts and dots among them lead nowhere; they are passed over when
the last part is looked for, but the text of what stands before is kept.
-/

namespace Publishing
namespace Path

def splitSlashes : List Char → List (List Char)
  | [] => [[]]
  | c :: rest =>
    match splitSlashes rest with
    | [] => [[c]]
    | part :: parts => if c = '/' then [] :: part :: parts else (c :: part) :: parts

def joinSlashes (parts : List (List Char)) : List Char := ['/'].intercalate parts

def isAbsolute (path : String) : Bool := path.toList.head? = some '/'

/-- The parts of a path as it is walked, with empty ones and dots left out. -/
def names (path : String) : List String :=
  ((splitSlashes path.toList).filter fun p => p ≠ [] ∧ p ≠ ['.']).map String.ofList

/-- A prefix and the parts after it, without those at the end that lead nowhere. -/
def parts (path : String) : List Char × List (List Char) :=
  let cs := path.toList
  let size := match cs with
    | '/' :: _ | ['.'] | '.' :: '/' :: _ => 1
    | _ => 0
  (cs.take size, trimmed (splitSlashes (cs.drop size)))
where
  trimmed (l : List (List Char)) : List (List Char) :=
    (l.reverse.dropWhile fun p => p = [] || p = ['.']).reverse

/-- The path without its last part, if it has one. -/
def parent? (path : String) : Option String :=
  match parts path with
  | ([], []) | ('/' :: _, []) => none
  | (_, []) => some ""
  | (pre, l) => some (String.ofList (pre ++ joinSlashes (parts.trimmed l.dropLast)))

/-- The last part of the path, if it is the name of something. -/
def fileName? (path : String) : Option String :=
  match (parts path).2.getLast? with
  | none => none
  | some p => if p = ['.', '.'] then none else some (String.ofList p)

def join (path more : String) : String :=
  if isAbsolute more ∨ path = "" then more
  else if path.toList.getLast? = some '/' then path ++ more
  else path ++ "/" ++ more

/-- A name up to its last dot, and what follows the dot.  A dot in front is part of
the name. -/
def splitExtension (name : String) : String × Option String :=
  let cs := name.toList
  let ext := (cs.reverse.takeWhile (· ≠ '.')).reverse
  let stem := cs.take (cs.length - ext.length - 1)
  if ext.length = cs.length ∨ stem = [] ∨ name = ".." then (name, none)
  else (String.ofList stem, some (String.ofList ext))

example : parent? "a//b/./c/" = some "a//b" := by decide +kernel
example : parent? "state.json" = some "" := by decide +kernel
example : fileName? "x/.." = none := by decide +kernel
example : splitExtension "a.b.md" = ("a.b", some "md") := by decide +kernel
example : splitExtension ".md" = (".md", none) := by decide +kernel
example : splitExtension "a." = ("a", some "") := by decide +kernel

end Path
end Publishing
