import Publishing.Shell.Bytes

/-
The commands that scripts are made of.
-/

namespace Publishing
namespace Shell

/-- What is made of a parameter.  Where `orEmpty` is set, an empty value counts as
none. -/
inductive ParameterUse where
  | value
  | length
  /-- A word instead of no value. -/
  | otherwise (orEmpty : Bool)
  /-- A word that becomes the value if there is none. -/
  | assigned (orEmpty : Bool)
  /-- A word that says what is wrong if there is no value. -/
  | demanded (orEmpty : Bool)
  /-- A word instead of the value. -/
  | instead (orEmpty : Bool)
  /-- The value without what a pattern matches. -/
  | trimmed (atEnd longest : Bool)
  /-- Nothing that can be made. -/
  | wrong
  deriving DecidableEq

inductive RedirectionKind where
  | read
  /-- Write from the start.  Unless it is forced, a file that is there may be kept. -/
  | write (forced : Bool)
  | append
  | readWrite
  /-- Lead to where another descriptor leads. -/
  | duplicate
  /-- Read the text of this number. -/
  | document (number : Nat)
  deriving DecidableEq

structure Redirection (ω : Type) where
  descriptor : Nat
  kind : RedirectionKind
  target : ω

mutual

inductive WordPart where
  | byte (c : Char) (quoted : Bool)
  /-- A quotation mark. -/
  | mark
  | parameter (name : Bytes) (use : ParameterUse) (word : List WordPart) (quoted : Bool)
  | arithmetic (expression : List WordPart) (quoted : Bool)
  | output (c : Command) (quoted : Bool)

inductive Command where
  | simple (line : Nat) (assignments words : List (List WordPart))
      (redirections : List (Redirection (List WordPart)))
  | pipeline (cs : List Command)
  | background (line : Nat) (c : Command)
  | subshell (line : Nat) (c : Command) (redirections : List (Redirection (List WordPart)))
  | redirected (line : Nat) (c : Command) (redirections : List (Redirection (List WordPart)))
  | sequence (cs : List Command)
  | both (l r : Command)
  | either (l r : Command)
  | negation (c : Command)
  | branch (condition yes no : Command)
  /-- The body runs as long as the condition has the wanted outcome. -/
  | loop (wanted : Bool) (condition body : Command)
  | forEach (line : Nat) (name : Bytes) (words : List (List WordPart)) (body : Command)
  /-- The first branch with a pattern that the word has. -/
  | select (line : Nat) (word : List WordPart)
      (branches : List (List (List WordPart) × Command))
  | define (line : Nat) (name : Bytes) (body : Command)

end

abbrev Word := List WordPart

instance : Inhabited Command := ⟨.sequence []⟩

namespace Word

/-- The bytes of a word without quotes, as far as it is plain text. -/
def plainStart : Word → Bytes
  | .byte c false :: rest => c :: plainStart rest
  | _ => []

/-- The word as it was written, if it is nothing but text without quotes. -/
def plain? (w : Word) : Option Bytes :=
  let cs := plainStart w
  if cs.length = w.length then some cs else none

/-- Whether the word starts like an assignment. -/
def isAssignment (w : Word) : Bool := (Bytes.assignment? (plainStart w)).isSome

end Word
end Shell
end Publishing
