import Publishing.Shell.Utility.SearchPattern.Reader

/-
Expressions that are tried in the order in which they are written.

Repetitions in them may prefer to be short or refuse to be shortened, and places may look at
what is around them.
-/

namespace Publishing
namespace Shell
namespace SearchPattern

namespace Ordered

/-- What is still to be read, what the groups are called, and the options that hold. -/
structure Source where
  rest : List Letter
  groups : Nat
  names : List (Bytes × Nat)
  /-- The greatest number of a group that is referred to. -/
  wanted : Nat
  folds : Option Bool
  anyLine : Bool
  byLine : Bool
  spaced : Bool

/-- Reads an expression, or tells what is wrong with it. -/
abbrev Read := StateT Source (Except String)

def wrong {α : Type} (text : String) : Read α := throw text

def peek : Read (Option Letter) := return (← get).rest.head?

def skip (n : Nat) : Read Unit := modify fun s => { s with rest := s.rest.drop n }

/-- Go on if a text comes next. -/
def accept (text : String) : Read Bool := do
  let wanted := text.toList.map fun c => [c]
  let found := wanted.isPrefixOf (← get).rest
  if found then skip wanted.length
  return found

/-- The text up to a mark, which is read too. -/
def upTo (mark : Char) (missing : String) : Read Bytes := do
  let text := (← get).rest.takeWhile (· ≠ [mark])
  if ((← get).rest.drop text.length).isEmpty then wrong missing
  skip (text.length + 1)
  return text.flatten

def takeWhile (p : Char → Bool) (most : Nat) : Read Bytes := do
  let text := ((← get).rest.takeWhile fun l => l.length = 1 && p (l.headD ' ')).take most
  skip text.length
  return text.flatten

/-- A letter, with the case that matters or not where that was said. -/
def cased (p : SearchPattern) : Read SearchPattern := do
  return match (← get).folds with
    | some folds => folding folds p
    | none => p

/-! ## Letters after a backslash -/

def isBlank (l : Letter) : Bool := l = [' '] || l = ['\t']

def isVertical (l : Letter) : Bool := ["\n", "\x0b", "\x0c", "\r"].any fun t => l = t.toList

/-- The class for a letter after a backslash. -/
def kind? (c : Char) : Option (Letter → Bool) :=
  match c with
  | 'd' => some Letter.isDigit
  | 'D' => some fun l => !l.isDigit
  | 'w' => some Letter.isWordChar
  | 'W' => some fun l => !l.isWordChar
  | 's' => some Letter.isSpace
  | 'S' => some fun l => !l.isSpace
  | 'h' => some isBlank
  | 'H' => some fun l => !isBlank l
  | 'v' => some isVertical
  | 'V' => some fun l => !isVertical l
  | 'N' => some fun l => l ≠ ['\n']
  | _ => none

/-- The class of the letters that have a property. -/
def property? : String → Option (Letter → Bool)
  | "L" => some fun l => l.char?.any fun c => c.isAlpha || 128 ≤ c.toNat
  | "Lu" => some fun l => l.char?.any Char.isUpper
  | "Ll" => some fun l => l.char?.any Char.isLower
  | "N" | "Nd" => some Letter.isDigit
  | "P" => some fun l => l.char?.any fun c =>
      CharClass.isPunctuation c && !"$+<=>^\x60|~".toList.contains c
  | "S" => some fun l => l.char?.any "$+<=>^\x60|~".toList.contains
  | "Z" | "Zs" => some fun l => l = [' ']
  | _ => none

/-- The class of the letters that have a property, or that lack it. -/
def propertyClass (wanted : Bool) : Read SearchPattern := do
  let name ← if ← accept "\x7b" then upTo '\x7d' "malformed \\P or \\p sequence"
    else takeWhile Char.isAlpha 1
  let (wanted, name) := match name with
    | '^' :: name => (!wanted, name)
    | name => (wanted, name)
  match property? (String.ofList name) with
  | some holds => cased (one fun l => holds l == wanted)
  | none => wrong "unknown property after \\P or \\p"

/-- The place for a letter after a backslash. -/
def place? (c : Char) : Option SearchPattern :=
  match c with
  | 'b' => some (edge fun a b => a != b)
  | 'B' => some (edge fun a b => a == b)
  | 'A' | 'G' => some first
  | 'z' | 'Z' => some last
  | _ => none

/-- The letter of a number. -/
def numbered (n : Nat) : Letter := if n < 128 then [Char.ofNat n] else
  Bytes.ofString (String.singleton (Char.ofNat n))

/-- The letter that a letter after a backslash stands for. -/
def control? (c : Char) : Read (Option Letter) := do
  match c with
  | 't' => return some ['\t']
  | 'n' => return some ['\n']
  | 'r' => return some ['\r']
  | 'f' => return some ['\x0c']
  | 'e' => return some ['\x1b']
  | 'a' => return some ['\x07']
  | '0' => return some (numbered (number 8 (← takeWhile isOctal 2)))
  | 'x' =>
    if ← accept "\x7b" then
      let digits ← takeWhile CharClass.isHexDigit 8
      if digits.isEmpty ∨ !(← accept "\x7d") then
        wrong "non-hex character in \\x\x7b\x7d (closing brace missing?)"
      return some (numbered (number 16 digits))
    else return some (numbered (number 16 (← takeWhile CharClass.isHexDigit 2)))
  | 'c' =>
    match ← peek with
    | some [c] =>
      skip 1
      return some (numbered (Nat.xor c.toUpper.toNat 64))
    | _ => wrong "\\c at end of pattern"
  | _ => return none
where
  isOctal (c : Char) : Bool := '0' ≤ c && c ≤ '7'
  number (base : Nat) (cs : Bytes) : Nat :=
    cs.foldl (fun n c => n * base + (Text.hexValue? c).getD 0) 0

/-- A letter for which nothing is meant after a backslash. -/
def unknown {α : Type} (c : Char) : Read α :=
  if "FLlUu".toList.contains c then
    wrong "PCRE2 does not support \\F, \\L, \\l, \\N\x7bname\x7d, \\U, or \\u"
  else wrong "unrecognized character follows \\"

def missingGroup : String := "reference to non-existent subpattern"

/-- What a group with a number or a name found. -/
def reference (name : Bytes) : Read SearchPattern := do
  let s ← get
  match Bytes.natural? name, s.names.lookup name with
  | some n, _ =>
    set { s with wanted := max s.wanted n }
    cased (again n)
  | none, some n => cased (again n)
  | none, none =>
    match name with
    | '-' :: digits =>
      match Bytes.natural? digits with
      | some n => if n = 0 ∨ s.groups < n then wrong missingGroup else cased (again (s.groups + 1 - n))
      | none => wrong missingGroup
    | _ => wrong missingGroup

/-- A text that stands for itself, up to what ends it. -/
def quoted (fuel : Nat) : Read SearchPattern := do
  match fuel, ← peek with
  | fuel + 1, some l =>
    if ← accept "\\E" then return nothing
    else
      skip 1
      return both (← cased (one fun m => m = l)) (← quoted fuel)
  | _, _ => return nothing

/-- What a backslash begins, and whether it can be repeated. -/
def escaped : Read (SearchPattern × Bool) := do
  match ← peek with
  | none => wrong "\\ at end of pattern"
  | some [c] =>
    skip 1
    match c with
    | 'K' => return (origin, false)
    | 'E' => return (nothing, false)
    | 'Q' => return (← quoted ((← get).rest.length + 1), true)
    | 'R' => return (either (both (letter '\r') (letter '\n')) (one isVertical), true)
    | 'p' => return (← propertyClass true, true)
    | 'P' => return (← propertyClass false, true)
    | 'X' => return (one fun l => l.char?.isSome, true)
    | 'g' =>
      if ← accept "\x7b" then return (← reference (← upTo '\x7d' missingGroup), true)
      else return (← reference (← takeWhile Text.isDigit 3), true)
    | 'k' =>
      let closing ← match ← peek with
        | some ['<'] => pure '>'
        | some ['\''] => pure '\''
        | some ['\x7b'] => pure '\x7d'
        | _ => wrong "\\k is not followed by a braced, angle-bracketed, or quoted name"
      skip 1
      return (← reference (← upTo closing missingGroup), true)
    | c =>
      if '1' ≤ c ∧ c ≤ '9' then
        return (← reference (c :: (← takeWhile Text.isDigit 2)), true)
      else
        match kind? c, place? c, ← control? c with
        | some accepts, _, _ => return (← cased (one accepts), true)
        | none, some p, _ => return (p, false)
        | none, none, some l => return (← cased (one fun m => m = l), true)
        | none, none, none =>
          if c.isAlphanum then unknown c else return (letter c, true)
  | some l =>
    skip 1
    return (one fun m => m = l, true)

/-! ## Brackets -/

/-- The next member of brackets. -/
def member (l : Letter) : Read Member := do
  match l with
  | ['\\'] =>
    match ← peek with
    | none => wrong "\\ at end of pattern"
    | some [c] =>
      skip 1
      match kind? c, ← control? c with
      | some accepts, _ => return .several fun c => accepts (numbered c.toNat)
      | none, some l => return .single l.char?
      | none, none =>
        if c = 'b' then return .single (some '\x08')
        else if c.isAlphanum then unknown c
        else return .single (some c)
    | some l =>
      skip 1
      return .single l.char?
  | ['['] =>
    if (← peek) ≠ some [':'] then return .single (some '[')
    else
      match marked? [':'] ((← get).rest.drop 1) with
      | none => return .single (some '[')
      | some (name, rest) =>
        let (negated, name) : Bool × Bytes := match name with
          | '^' :: name => (true, name)
          | name => (false, name)
        match class? name with
        | none => wrong "unknown POSIX class name"
        | some accepts =>
          modify fun s => { s with rest := rest }
          return .several fun c => accepts c != negated
  | l => return .single l.char?

def members (fuel : Nat) (isFirst : Bool) : Read (List Member) := do
  match fuel, ← peek with
  | 0, _ | _, none => wrong "missing terminating ] for character class"
  | fuel + 1, some l =>
    skip 1
    if l = [']'] ∧ !isFirst then return []
    let m ← member l
    let ranged : Bool := match (← get).rest with
      | ['-'] :: r :: _ => r ≠ [']']
      | _ => false
    if ranged then
      skip 1
      let r := (← peek).getD []
      skip 1
      match m, ← member r with
      | .single (some a), .single (some b) =>
        if b < a then wrong "range out of order in character class"
        return .range (some a) (some b) :: (← members fuel false)
      | .single _, .single _ => return (← members fuel false)
      | _, _ => wrong "invalid range in character class"
    else return m :: (← members fuel false)

def brackets : Read SearchPattern := do
  let negated ← accept "^"
  cased (Member.toPattern negated (← members ((← get).rest.length + 1) true))

/-! ## Repetitions -/

/-- How often, between braces, after the first of them. -/
def braces? : Read (Option (Nat × Option Nat)) := do
  let text := (← get).rest.takeWhile (· ≠ ['\x7d'])
  let closed := !((← get).rest.drop text.length).isEmpty
  let times := match Bytes.splitOn ',' text.flatten with
    | [a] => (Bytes.natural? a).map fun n => (n, some n)
    | [a, []] => (Bytes.natural? a).map fun n => (n, none)
    | [a, b] => (Bytes.natural? a).bind fun m => (Bytes.natural? b).map fun n => (m, some n)
    | _ => none
  match closed, times with
  | true, some (m, n) =>
    if 65535 < m ∨ n.any (65535 < ·) then wrong "number too big in \x7b\x7d quantifier"
    if n.any (· < m) then wrong "numbers out of order in \x7b\x7d quantifier"
    skip (text.length + 1)
    return some (m, n)
  | _, _ => return none

/-- How often what comes before is repeated, if that is said. -/
def times? : Read (Option (Nat × Option Nat)) := do
  if ← accept "*" then return some (0, none)
  else if ← accept "+" then return some (1, none)
  else if ← accept "?" then return some (0, some 1)
  else
    let before ← get
    if ← accept "\x7b" then
      match ← braces? with
      | some t => return some t
      | none =>
        set before
        return none
    else return none

def nothingToRepeat : String := "quantifier does not follow a repeatable item"

def repetition (repeatable : Bool) (p : SearchPattern) : Read SearchPattern := do
  match ← times? with
  | none => return p
  | some (least, most) =>
    if !repeatable then wrong nothingToRepeat
    let q ← if ← accept "?" then pure (repeated p least most false)
      else if ← accept "+" then pure (settled (repeated p least most true))
      else pure (repeated p least most true)
    if (← times?).isSome then wrong nothingToRepeat
    return q

/-! ## Groups -/

/-- Letters that turn options on, or off after a minus sign.  The flag of the result tells
whether they hold for a group that follows. -/
def options (fuel : Nat) (on : Bool) : Read Bool := do
  match fuel, ← peek with
  | fuel + 1, some [c] =>
    skip 1
    let set (f : Source → Source) : Read Bool := do
      modify f
      options fuel on
    match c with
    | ')' => return false
    | ':' => return true
    | '-' => options fuel false
    | 'i' => set fun s => { s with folds := some on }
    | 's' => set fun s => { s with anyLine := on }
    | 'm' => set fun s => { s with byLine := on }
    | 'x' => set fun s => { s with spaced := on }
    | _ => wrong "unrecognized character after (? or (?-"
  | _, none => wrong "missing closing parenthesis"
  | _, _ => wrong "unrecognized character after (? or (?-"

/-- What a parenthesis begins. -/
inductive Opening where
  | capturing (name : Option Bytes)
  | plain
  | settled
  | around (back wanted : Bool)
  /-- Something with no group. -/
  | done (p : SearchPattern)

/-- The name of a group, up to the mark after it. -/
def groupName (mark : Char) : Read Bytes := do
  let first := (← peek).bind Letter.char?
  if first.any Text.isDigit then wrong "subpattern name must start with a non-digit"
  if !first.any Bytes.isNameChar then wrong "subpattern name expected"
  let name ← takeWhile Bytes.isNameChar (← get).rest.length
  if !(← accept (String.singleton mark)) then
    wrong "syntax error in subpattern name (missing terminator?)"
  return name

/-- What a parenthesis begins, after it.  Options that it sets hold from then on. -/
def opening : Read Opening := do
  if !(← accept "?") then
    if (← accept "*") then
      let _ ← upTo ')' "(*VERB) not recognized or malformed"
      return .done nothing
    else return .capturing none
  else if ← accept ":" then return .plain
  else if ← accept "|" then return .plain
  else if ← accept ">" then return .settled
  else if ← accept "=" then return .around false true
  else if ← accept "!" then return .around false false
  else if ← accept "<=" then return .around true true
  else if ← accept "<!" then return .around true false
  else if ← accept "#" then
    let _ ← upTo ')' "missing ) after (?# comment"
    return .done nothing
  else if ← accept "P=" then return .done (← reference (← groupName ')'))
  else if (← accept "P<") || (← accept "<") then
    return .capturing (some (← groupName '>'))
  else if ← accept "'" then return .capturing (some (← groupName '\''))
  else if ← accept "P" then
    wrong (if (← peek).isNone then "missing closing parenthesis"
      else "unrecognized character after (?P")
  else if ((← peek).bind Letter.char?).any Text.isDigit then wrong missingGroup
  else if ← options ((← get).rest.length + 1) true then return .plain
  else return .done nothing

/-- Whether each of the alternatives always finds as many letters. -/
def fixed : SearchPattern → Bool
  | either a b => fixed a && fixed b
  | p => (width? p).isSome

mutual

def alternatives (fuel : Nat) : Read SearchPattern := do
  match fuel with
  | 0 => wrong "regular expression is too large"
  | fuel + 1 =>
    let a ← branch fuel nothing
    if ← accept "|" then return either a (← alternatives fuel) else return a

def branch (fuel : Nat) (sofar : SearchPattern) : Read SearchPattern := do
  match fuel with
  | 0 => wrong "regular expression is too large"
  | fuel + 1 =>
    match ← peek with
    | none | some ['|'] | some [')'] => return sofar
    | some l =>
      if (← times?).isSome then wrong nothingToRepeat
      skip 1
      if (← get).spaced ∧ l.isSpace then branch fuel sofar
      else if (← get).spaced ∧ l = ['#'] then
        let comment := (← get).rest.takeWhile (· ≠ ['\n'])
        skip comment.length
        branch fuel sofar
      else
        let (p, repeatable) ← atom fuel l
        branch fuel (both sofar (← repetition repeatable p))

/-- What one sign stands for, and whether it can be repeated. -/
def atom (fuel : Nat) (l : Letter) : Read (SearchPattern × Bool) := do
  match fuel with
  | 0 => wrong "regular expression is too large"
  | fuel + 1 =>
    let s ← get
    match l with
    | ['.'] => return (one fun l => l.char?.isSome && (s.anyLine || l ≠ ['\n']), true)
    | ['^'] => return (if s.byLine then place fun before _ => before.all (· = ['\n']) else first, false)
    | ['$'] => return (if s.byLine then place fun _ after => after.all (· = ['\n']) else last, false)
    | ['['] =>
      match s.rest with
      | [':'] :: rest =>
        if (marked? [':'] rest).isSome then
          wrong "POSIX named classes are supported only within a class"
      | _ => pure ()
      return (← brackets, true)
    | ['\\'] => escaped
    | ['('] =>
      match ← opening with
      | .done p => return (p, false)
      | .capturing name => do
        let n := s.groups + 1
        modify fun t => { t with
          groups := n
          names := match name with
            | some name => (name, n) :: t.names
            | none => t.names }
        let inner ← enclosed fuel s
        return (group n inner, true)
      | .plain => return (← enclosed fuel s, true)
      | .settled => return (.settled (← enclosed fuel s), true)
      | .around false wanted => return (ahead (← enclosed fuel s) wanted, true)
      | .around true wanted =>
        let inner ← enclosed fuel s
        if !fixed inner then wrong "lookbehind assertion is not fixed length"
        return (behind inner wanted, true)
    | l => return (← cased (one fun m => m = l), true)

/-- A group up to the parenthesis that closes it.  After it the options hold that held
before. -/
def enclosed (fuel : Nat) (outer : Source) : Read SearchPattern := do
  match fuel with
  | 0 => wrong "regular expression is too large"
  | fuel + 1 =>
    let inner ← alternatives fuel
    if !(← accept ")") then wrong "missing closing parenthesis"
    modify fun s => { s with
      folds := outer.folds
      anyLine := outer.anyLine
      byLine := outer.byLine
      spaced := outer.spaced }
    return inner

end

end Ordered

/-- The expression that a text writes, if it is tried in order. -/
def ofOrderedText (byLine : Bool) (cs : Bytes) : Except String SearchPattern := do
  let letters := Letter.ofBytes cs
  let (p, s) ← (Ordered.alternatives (8 * letters.length + 16)).run
    ⟨letters, 0, [], 0, none, false, byLine, false⟩
  if !s.rest.isEmpty then throw "unmatched closing parenthesis"
  if s.groups < s.wanted then throw Ordered.missingGroup
  return p

end SearchPattern
end Shell
end Publishing
