/-
Regular expressions over a whole text, made of single characters, classes of
characters and their repetitions.
-/

namespace Publishing

inductive CharClass where
  | exactly (c : Char)
  /-- A point. -/
  | notLineFeed
  /-- Brackets with a caret and one character. -/
  | not (c : Char)
  deriving DecidableEq, Repr

def CharClass.accepts : CharClass → Char → Bool
  | .exactly d, c => c = d
  | .notLineFeed, c => c ≠ '\n'
  | .not d, c => c ≠ d

structure RegexPiece where
  chars : CharClass
  starred : Bool
  deriving DecidableEq, Repr

abbrev Regex := List RegexPiece

namespace Regex

/-- The characters that need a backslash to stand for themselves. -/
def metacharacters : List Char :=
  ['\\', '.', '+', '*', '?', '(', ')', '|', '[', ']', '\x7b', '\x7d', '^', '$', '#', '&', '-', '~']

def isMeta (c : Char) : Bool := metacharacters.contains c

/-- A text in which every character stands for itself. -/
def escape : List Char → List Char
  | [] => []
  | c :: rest => if isMeta c then '\\' :: c :: escape rest else c :: escape rest

/-- A class in front of the text of an expression. -/
def readClass : List Char → Option (CharClass × List Char)
  | '\\' :: c :: rest => if isMeta c then some (.exactly c, rest) else none
  | '.' :: rest => some (.notLineFeed, rest)
  | '[' :: '^' :: c :: ']' :: rest => some (.not c, rest)
  | c :: rest => if isMeta c then none else some (.exactly c, rest)
  | [] => none

theorem length_readClass {cs rest : List Char} {k : CharClass}
    (h : readClass cs = some (k, rest)) : rest.length < cs.length := by
  unfold readClass at h
  split at h
  · split at h
    · simp only [Option.some.injEq, Prod.mk.injEq] at h
      simp only [← h.2, List.length_cons]; omega
    · simp at h
  · simp only [Option.some.injEq, Prod.mk.injEq] at h
    simp only [← h.2, List.length_cons]; omega
  · simp only [Option.some.injEq, Prod.mk.injEq] at h
    simp only [← h.2, List.length_cons]; omega
  · split at h
    · simp at h
    · simp only [Option.some.injEq, Prod.mk.injEq] at h
      simp only [← h.2, List.length_cons]; omega
  · simp at h

/-- The pieces of the text of an expression, up to the end mark. -/
def readPieces (cs : List Char) : Option Regex :=
  if cs = ['$'] then some []
  else
    match _h : readClass cs with
    | none => none
    | some (k, '*' :: rest) => (readPieces rest).map (⟨k, true⟩ :: ·)
    | some (k, rest) => (readPieces rest).map (⟨k, false⟩ :: ·)
termination_by cs.length
decreasing_by
  · have := length_readClass _h
    simp only [List.length_cons] at this
    omega
  · exact length_readClass _h

/-- The expression that a text writes, with marks for the start and the end of what
it is matched against. -/
def ofText? : List Char → Option Regex
  | '^' :: rest => readPieces rest
  | _ => none

/-! ## Matching -/

/-- For each end part of a text, from the whole of it to the empty one, whether an
expression matches it that begins with this piece; `flags` tell the same of what
follows the piece. -/
def precede (p : RegexPiece) : List Char → List Bool → List Bool
  | c :: text, f :: flags =>
    let rest := precede p text flags
    let after := if p.starred then rest.headD false else flags.headD false
    (p.starred && f || p.chars.accepts c && after) :: rest
  | _, flags => flags.map (p.starred && ·)

/-- For each end part of a text whether an expression matches it. -/
def matchedEnds (text : List Char) : Regex → List Bool
  | [] => List.replicate text.length false ++ [true]
  | p :: rest => precede p text (matchedEnds text rest)

/-- Whether an expression matches the whole of a text. -/
def isMatch (r : Regex) (text : String) : Bool := (matchedEnds text.toList r).headD false

end Regex
end Publishing
