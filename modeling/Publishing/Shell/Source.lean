import Publishing.Shell.Syntax

/-
What is left of a script while it is read, and the tokens it is read as.
-/

namespace Publishing
namespace Shell

inductive Token where
  | endOfFile
  | newline
  /-- An operator, as it is written. -/
  | operator (text : String)
  | redirection (descriptor : Nat) (kind : RedirectionKind)
  | keyword (text : String) (w : Word)
  | word (w : Word) (quoted : Bool)

namespace Token

/-- How a token is named when it should not be there. -/
def name : Token → String
  | endOfFile => "end of file"
  | newline => "newline"
  | operator text | keyword text _ => "\"" ++ text ++ "\""
  | redirection .. => "redirection"
  | word .. => "word"

def isOperator (t : Token) (text : String) : Bool :=
  match t with
  | operator s => s = text
  | _ => false

def isKeyword (t : Token) (text : String) : Bool :=
  match t with
  | keyword s _ => s = text
  | _ => false

/-- Whether a list of commands may end before this token. -/
def endsList : Token → Bool
  | endOfFile => true
  | operator s => [")", ";;"].contains s
  | keyword s _ => ["do", "done", "elif", "else", "esac", "fi", "then", "\x7d"].contains s
  | _ => false

end Token

def reservedWords : List String :=
  ["!", "case", "do", "done", "elif", "else", "esac", "fi", "for", "if", "in", "then", "until",
   "while", "\x7b", "\x7d"]

/-- A text that follows its command, from the next line up to a delimiter. -/
structure Document where
  number : Nat
  delimiter : Bytes
  /-- Whether tabs in front of its lines are left out. -/
  stripped : Bool
  literal : Bool

structure Source where
  rest : Bytes
  /-- The texts that stand for words in front of commands. -/
  aliases : List (Bytes × Bytes)
  /-- The aliases whose texts are being read, each with the length of what follows it. -/
  expanding : List (Bytes × Nat)
  line : Nat
  /-- A token that was read and is to be read again. -/
  token : Option Token
  /-- The documents whose text has yet to come. -/
  awaited : List Document
  /-- The texts of the documents by their numbers. -/
  documents : Array Word

structure SyntaxFault where
  line : Nat
  message : String

abbrev Read := StateT Source (Except SyntaxFault)

namespace Read

def refuse {α : Type} (message : String) : Read α := do
  throw ⟨(← get).line, message⟩

/-- Report a token that should not be there. -/
def unexpected {α : Type} (t : Token) : Read α := refuse (t.name ++ " unexpected")

def expecting {α : Type} (t : Token) (wanted : String) : Read α :=
  refuse (t.name ++ " unexpected (expecting " ++ wanted ++ ")")

/-- The next character, which is taken. -/
def next : Read (Option Char) := do
  let s ← get
  match s.rest with
  | [] => return none
  | c :: rest =>
    set { s with rest := rest }
    return some c

/-- The text after line ends that a backslash hides, and how many there are. -/
def joined : (hidden : Nat) → Bytes → Bytes × Nat
  | n, '\\' :: '\n' :: rest => joined (n + 1) rest
  | n, cs => (cs, n)

/-- The next character of joined lines, which stays. -/
def peek : Read (Option Char) := do
  let s ← get
  let (rest, n) := joined 0 s.rest
  if n ≠ 0 then set { s with rest := rest, line := s.line + n }
  return rest.head?

def skip : Read Unit := modify fun s => { s with rest := s.rest.tail }

def countLine : Read Unit := modify fun s => { s with line := s.line + 1 }

/-- Have a token read again. -/
def putBack (t : Token) : Read Unit := modify fun s => { s with token := some t }

/-- Take the next character if it is the given one. -/
def takeIf (c : Char) : Read Bool := do
  if (← peek) = some c then
    skip
    return true
  else return false

/-- The characters in front that have a property, over joined lines. -/
def takeWhile (p : Char → Bool) (fuel : Nat) (acc : Bytes) : Read Bytes := do
  match fuel, ← peek with
  | fuel + 1, some c =>
    if p c then
      skip
      takeWhile p fuel (c :: acc)
    else return acc.reverse
  | _, _ => return acc.reverse

/-- Close the aliases that were read to their ends: whether one of them ends in a blank, so that
the next word may be one too. -/
def closeAliases (strictly : Bool) : Read Bool := do
  let s ← get
  if s.expanding.isEmpty then return false
  let left := s.rest.length
  let isOver (e : Bytes × Nat) : Bool := if strictly then left < e.2 else left ≤ e.2
  let finished := s.expanding.filter isOver
  set { s with expanding := s.expanding.filter fun e => !isOver e }
  return finished.any fun e =>
    (((s.aliases.lookup e.1).getD []).getLast?).any fun c => c = ' ' || c = '\t'

/-- Put the text of an alias in front of what is to be read, if the name is one. -/
def openAlias (name : Bytes) : Read Bool := do
  let s ← get
  if (s.expanding.lookup name).isSome then return false
  match s.aliases.lookup name with
  | none => return false
  | some text =>
    set { s with rest := text ++ s.rest, expanding := (name, s.rest.length) :: s.expanding }
    return true

def skipComment : Read Unit := modify fun s => { s with rest := s.rest.dropWhile (· ≠ '\n') }

/-- A document is awaited: its number. -/
def await (delimiter : Bytes) (stripped literal : Bool) : Read Nat := do
  let s ← get
  let n := s.documents.size
  set { s with
    documents := s.documents.push []
    awaited := s.awaited ++ [Document.mk n delimiter stripped literal] }
  return n

end Read
end Shell
end Publishing
