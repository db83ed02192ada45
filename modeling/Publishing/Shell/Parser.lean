import Publishing.Shell.Piece

/-
How scripts are read, one complete command after the other.

The fuel of these functions is the length of what is to be read, some times over.
-/

namespace Publishing
namespace Shell

/-- What pieces are read for. -/
inductive Setting where
  | script
  /-- A delimiter stands for itself. -/
  | delimiter
  | document (d : Document)

namespace Setting

def isDocument : Setting → Bool
  | document _ => true
  | _ => false

def isDelimiter : Setting → Bool
  | delimiter => true
  | _ => false

/-- Quotation marks are kept, except in documents. -/
def mark (s : Setting) (acc : List Piece) : List Piece :=
  if s.isDocument then acc else .mark :: acc

end Setting

/-- What may come as the next token. -/
inductive Expectation where
  | anything
  | delimiter
  /-- A word that may stand for a text. -/
  | command
  | keyword
  /-- A keyword, perhaps after line ends. -/
  | keywordBelow
  deriving DecidableEq

def isMeta (c : Char) : Bool := [' ', '\t', '\n', ';', '&', '|', '<', '>', '(', ')'].contains c

/-- A parameter whose name is a single character. -/
def isSpecialParameter (c : Char) : Bool :=
  Text.isDigit c || ['?', '$', '#', '@', '*', '!', '-'].contains c

/-- Pass over the delimiter of a document if it is what comes. -/
def takeDelimiter (d : Document) : Read Bool := do
  let s ← get
  let rest := if d.stripped then s.rest.dropWhile (· = '\t') else s.rest
  let line := rest.takeWhile (· ≠ '\n')
  if line = d.delimiter then
    set { s with rest := rest.drop (line.length + 1), line := s.line + 1 }
    return true
  else
    set { s with rest := rest }
    return false

/-- The text up to the backquote that ends it. -/
def readBackquoted (inDouble : Bool) (fuel : Nat) (acc : Bytes) : Read Bytes := do
  match fuel, ← Read.peek with
  | fuel + 1, some c =>
    Read.skip
    match c with
    | '\x60' => return acc.reverse
    | '\\' =>
      match ← Read.next with
      | none => readBackquoted inDouble fuel ('\\' :: acc)
      | some d =>
        if d = '\\' ∨ d = '\x60' ∨ d = '$' ∨ (inDouble ∧ d = '"') then
          readBackquoted inDouble fuel (d :: acc)
        else readBackquoted inDouble fuel (d :: '\\' :: acc)
    | c =>
      if c = '\n' then Read.countLine
      readBackquoted inDouble fuel (c :: acc)
  | _, _ => Read.refuse "EOF in backquote substitution"

/-- The name of a parameter between braces, and whether it is its length that is
wanted.  There may be none. -/
def readBracedName (fuel : Nat) : Read (Option Bytes × Bool) := do
  match ← Read.peek with
  | none => return (none, false)
  | some c =>
    if isNameStart c then return (some (← Read.takeWhile isNameChar fuel []), false)
    else if Text.isDigit c then return (some (← Read.takeWhile Text.isDigit fuel []), false)
    else if c = '\x7d' then return (none, false)
    else
      Read.skip
      let next ← Read.peek
      match c, next with
      | '#', some d =>
        if isNameStart d then return (some (← Read.takeWhile isNameChar fuel []), true)
        else if Text.isDigit d then return (some (← Read.takeWhile Text.isDigit fuel []), true)
        else if d ≠ '\x7d' ∧ isSpecialParameter d then
          let s ← get
          Read.skip
          if (← Read.peek) = some '\x7d' then return (some [d], true)
          else
            set s
            return (some ['#'], false)
        else return (some ['#'], false)
      | c, _ => return (if isSpecialParameter c then some [c] else none, false)
where
  isNameStart := Bytes.isNameStart
  isNameChar := Bytes.isNameChar

/-- What is made of a parameter whose name was read.  Only the brace after a plain
parameter is taken. -/
def readUse (length : Bool) : Read ParameterUse := do
  if length then
    return if (← Read.peek) = some '\x7d' then .length else .wrong
  else
    let orEmpty ← Read.takeIf ':'
    match ← Read.peek with
    | some '-' => taken (.otherwise orEmpty)
    | some '=' => taken (.assigned orEmpty)
    | some '?' => taken (.demanded orEmpty)
    | some '+' => taken (.instead orEmpty)
    | some '\x7d' => if orEmpty then taken .wrong else taken .value
    | some '%' => if orEmpty then taken .wrong else trimmed '%' true
    | some '#' => if orEmpty then taken .wrong else trimmed '#' false
    | some _ => taken .wrong
    | none => return .wrong
where
  taken (use : ParameterUse) : Read ParameterUse := do
    Read.skip
    return use
  trimmed (c : Char) (atEnd : Bool) : Read ParameterUse := do
    Read.skip
    let longest ← Read.takeIf c
    return .trimmed atEnd longest

/-- A redirection after its descriptor, at the sign of its direction. -/
def readDirection (descriptor : Option Nat) : Read (Nat × RedirectionKind × Option Bool) := do
  let outward ← Read.takeIf '>'
  let fd := descriptor.getD (if outward then 1 else 0)
  if outward then
    if ← Read.takeIf '>' then return (fd, .append, none)
    else if ← Read.takeIf '|' then return (fd, .write true, none)
    else if ← Read.takeIf '&' then return (fd, .duplicate, none)
    else return (fd, .write false, none)
  else
    Read.skip
    if ← Read.takeIf '<' then
      let stripped ← Read.takeIf '-'
      return (fd, .document 0, some stripped)
    else if ← Read.takeIf '&' then return (fd, .duplicate, none)
    else if ← Read.takeIf '>' then return (fd, .readWrite, none)
    else return (fd, .read, none)

/-- Whether pieces may be the descriptor of a redirection. -/
def descriptor? : List Piece → Option (Option Nat)
  | [] => some none
  | [.byte c false] => if Text.isDigit c then some (some (Text.digitValue c)) else none
  | _ => none

/-- The special utilities, whose names no function may have. -/
def specialNames : List String :=
  [".", ":", "break", "continue", "eval", "exec", "exit", "export", "readonly", "return", "set",
   "shift", "times", "trap", "unset", "local"]

/-- A list of commands as one. -/
def Command.ofList : List Command → Command
  | [c] => c
  | cs => .sequence cs

/-- Awaited documents for which nothing is left are empty. -/
def forgetDocuments : Read Unit := modify fun s => { s with awaited := [] }

mutual

/-- The pieces of a word or a document in reverse order, and whether any of them was
quoted. -/
def readPieces (fuel : Nat) (setting : Setting) (level : Level) (outer : List Level)
    (acc : List Piece) (quoted : Bool) : Read (List Piece × Bool) := do
  match fuel with
  | 0 => Read.refuse "too long"
  | fuel + 1 =>
    let c? ← if level.style = .single then pure (← get).rest.head? else Read.peek
    match c? with
    | none => finish level acc quoted
    | some c =>
      let quote (style : Style) : Level := { level with style := style, quoted := style = .double }
      let more (p : Piece) : Read (List Piece × Bool) := do
        Read.skip
        readPieces fuel setting level outer (p :: acc) quoted
      match level.style, c with
      | .plain, '\n' =>
        if level.parameters = 0 then finish level acc quoted
        else
          Read.skip
          Read.countLine
          readPieces fuel setting level outer (.byte c false :: acc) quoted
      | _, '\n' =>
        Read.skip
        Read.countLine
        let acc := .byte c true :: acc
        match setting with
        | .document d =>
          if ← takeDelimiter d then finish level acc quoted
          else readPieces fuel setting level outer acc quoted
        | _ => readPieces fuel setting level outer acc quoted
      | .single, c =>
        if c = '\'' ∧ !(setting.isDocument ∧ level.parameters = 0) then
          Read.skip
          let level := if level.quotedParameters = 0 then quote .plain else level
          readPieces fuel setting level outer (.mark :: acc) true
        else more (.byte c true)
      | _, '\\' =>
        Read.skip
        match ← Read.next with
        | none => readPieces fuel setting level outer (.byte '\\' true :: acc) quoted
        | some d =>
          let kept := level.quoted ∧ d ≠ '\\' ∧ d ≠ '\x60' ∧ d ≠ '$' ∧
            (d ≠ '"' ∨ (setting.isDocument ∧ level.parameters = 0)) ∧
            (d ≠ '\x7d' ∨ level.parameters = 0)
          let acc := if kept then .byte '\\' true :: acc else acc
          readPieces fuel setting level outer (.byte d true :: acc) true
      | _, '$' =>
        Read.skip
        readDollar fuel setting level outer acc quoted
      | _, '\x60' =>
        if setting.isDelimiter then more (.byte c true)
        else
          Read.skip
          let script ← readBackquoted level.quoted fuel []
          let around ← get
          set { around with rest := script, line := 1, token := none, awaited := [] }
          let c ← readList fuel false true
          let inner ← get
          set { around with documents := inner.documents }
          readPieces fuel setting level outer (.output c :: acc) quoted
      | _, '\x7d' =>
        if !level.innerQuoted ∧ 0 < level.parameters then
          Read.skip
          let (level, outer) := level.closed outer
          readPieces fuel setting level outer (.closeParameter :: acc) quoted
        else more (.byte c level.quoted)
      | .plain, '\'' =>
        Read.skip
        readPieces fuel setting (quote .single) outer (setting.mark acc) quoted
      | .plain, '"' =>
        Read.skip
        readPieces fuel setting (quote .double).toggled outer (setting.mark acc) quoted
      | .double, '"' =>
        if setting.isDocument ∧ level.parameters = 0 then more (.byte c true)
        else
          Read.skip
          let level := if level.quotedParameters = 0 then quote .plain else level
          readPieces fuel setting level.toggled outer (setting.mark acc) true
      | .arithmetic, '(' =>
        Read.skip
        readPieces fuel setting { level with parentheses := level.parentheses + 1 } outer
          (.byte c true :: acc) quoted
      | .arithmetic, ')' =>
        Read.skip
        if 0 < level.parentheses then
          readPieces fuel setting { level with parentheses := level.parentheses - 1 } outer
            (.byte c true :: acc) quoted
        else if ← Read.takeIf ')' then
          match outer with
          | [] => Read.refuse "Missing '))'"
          | above :: outer =>
            readPieces fuel setting above outer (.closeArithmetic :: acc) quoted
        else readPieces fuel setting level outer (.byte c true :: acc) quoted
      | .plain, c =>
        if isMeta c ∧ level.parameters = 0 then finish level acc quoted
        else more (.byte c false)
      | _, c => more (.byte c true)
where
  finish (level : Level) (acc : List Piece) (quoted : Bool) : Read (List Piece × Bool) := do
    if level.style = .arithmetic then Read.refuse "Missing '))'"
    else if level.style ≠ .plain ∧ !setting.isDocument then
      Read.refuse "Unterminated quoted string"
    else if level.parameters ≠ 0 then Read.refuse "Missing '\x7d'"
    else return (acc, quoted)

/-- Go on after a dollar sign. -/
def readDollar (fuel : Nat) (setting : Setting) (level : Level) (outer : List Level)
    (acc : List Piece) (quoted : Bool) : Read (List Piece × Bool) := do
  match fuel with
  | 0 => Read.refuse "too long"
  | fuel + 1 =>
    let c := (← Read.peek).getD ' '
    if setting.isDelimiter then
      readPieces fuel setting level outer (.byte '$' true :: acc) quoted
    else if c = '(' then
      Read.skip
      if ← Read.takeIf '(' then
        let inner : Level := { Level.start .arithmetic with quoted := true }
        readPieces fuel setting inner (level :: outer) (.openArithmetic :: acc) quoted
      else
        let awaited := (← get).awaited
        forgetDocuments
        let c ← readList fuel false true
        let t ← readToken fuel .anything
        if !t.isOperator ")" then Read.expecting t "\")\""
        modify fun s => { s with awaited := awaited }
        readPieces fuel setting level outer (.output c :: acc) quoted
    else if c = '\x7b' then
      Read.skip
      let (name, length) ← readBracedName fuel
      let use ← match name with
        | none => pure .wrong
        | some _ => readUse length
      let (below, above) := level.opened use outer
      readPieces fuel setting below above (.openParameter (name.getD []) use :: acc) quoted
    else if Bytes.isNameStart c then
      let name ← Read.takeWhile Bytes.isNameChar fuel []
      readPieces fuel setting level outer (.openParameter name .value :: acc) quoted
    else if isSpecialParameter c then
      Read.skip
      readPieces fuel setting level outer (.openParameter [c] .value :: acc) quoted
    else readPieces fuel setting level outer (.byte '$' level.quoted :: acc) quoted

/-- The texts of the awaited documents. -/
def readDocuments (fuel : Nat) : Read Unit := do
  match fuel with
  | 0 => Read.refuse "too long"
  | fuel + 1 =>
    match (← get).awaited with
    | [] => return
    | d :: more =>
      modify fun s => { s with awaited := more }
      let level := Level.start (if d.literal then .single else .double)
      let (ps, _) ← if ← takeDelimiter d then pure ([], false)
        else readPieces fuel (.document d) level [] [] false
      let w := Word.ofPieces ps.reverse
      modify fun s => { s with documents := s.documents.setIfInBounds d.number w }
      readDocuments fuel

/-- The next token as it is written. -/
def readRawToken (fuel : Nat) (expected : Expectation) : Read Token := do
  match fuel with
  | 0 => Read.refuse "too long"
  | fuel + 1 =>
    let s ← get
    match s.token with
    | some t =>
      set { s with token := none }
      return t
    | none =>
      match ← Read.peek with
      | none => return .endOfFile
      | some c =>
        let operator (text longer : String) : Read Token := do
          Read.skip
          if ← Read.takeIf c then return .operator longer else return .operator text
        match c with
        | ' ' | '\t' =>
          Read.skip
          readRawToken fuel expected
        | '#' =>
          Read.skipComment
          readRawToken fuel expected
        | '\n' =>
          Read.skip
          Read.countLine
          return .newline
        | '&' => operator "&" "&&"
        | '|' => operator "|" "||"
        | ';' => operator ";" ";;"
        | '(' | ')' =>
          Read.skip
          return .operator c.toString
        | _ =>
          let setting := if expected = .delimiter then Setting.delimiter else .script
          let (ps, quoted) ← readPieces fuel setting (Level.start .plain) [] [] false
          let next := (← get).rest.head?
          match (if next = some '<' ∨ next = some '>' then descriptor? ps else none) with
          | some descriptor => readRedirection fuel descriptor
          | none => return .word (Word.ofPieces ps.reverse) quoted

/-- A redirection at the sign of its direction, without its target. -/
def readRedirection (fuel : Nat) (descriptor : Option Nat) : Read Token := do
  match fuel with
  | 0 => Read.refuse "too long"
  | fuel + 1 =>
    let (fd, kind, stripped) ← readDirection descriptor
    match stripped with
    | none => return .redirection fd kind
    | some stripped =>
      match ← readToken fuel .delimiter with
      | .word w quoted =>
        let delimiter := w.filterMap fun p => match p with
          | .byte c _ => some c
          | _ => none
        return .redirection fd (.document (← Read.await delimiter stripped quoted))
      | t => Read.unexpected t

def readToken (fuel : Nat) (expected : Expectation) : Read Token := do
  match fuel with
  | 0 => Read.refuse "too long"
  | fuel + 1 =>
    let fresh := (← get).token.isNone
    if fresh then let _ ← Read.closeAliases false
    match ← readRawToken fuel expected with
    | .newline =>
      if expected = .keywordBelow then
        readDocuments fuel
        readToken fuel expected
      else return .newline
    | .word w quoted =>
      let follows ← if fresh then Read.closeAliases true else pure false
      match Word.plain? w with
      | none => return .word w quoted
      | some text =>
        let name := String.ofList text
        let isKeyword := expected = .keyword ∨ expected = .keywordBelow
        if isKeyword ∧ reservedWords.contains name then return .keyword name w
        else if fresh ∧ !quoted ∧ (isKeyword ∨ expected = .command ∨ follows) then
          if ← Read.openAlias text then readToken fuel expected
          else return .word w quoted
        else return .word w quoted
    | t => return t

/-- Commands one after the other.  At the top they end with their line; elsewhere with
what closes them.  `mayBeEmpty` says whether there need be none. -/
def readList (fuel : Nat) (atTop mayBeEmpty : Bool) : Read Command := do
  match fuel with
  | 0 => Read.refuse "too long"
  | fuel + 1 => readMore fuel atTop mayBeEmpty []

/-- More commands after those that were read, which are in reverse order. -/
def readMore (fuel : Nat) (atTop mayEnd : Bool) (acc : List Command) : Read Command := do
  match fuel with
  | 0 => Read.refuse "too long"
  | fuel + 1 =>
    let done : Read Command := return .ofList acc.reverse
    let t ← readToken fuel (if atTop then .keyword else .keywordBelow)
    match t with
    | .newline =>
      readDocuments fuel
      done
    | .endOfFile =>
      readDocuments fuel
      Read.putBack t
      done
    | t =>
      Read.putBack t
      if mayEnd ∧ !atTop ∧ t.endsList then done
      else
        let c ← readAndOr fuel
        let t ← readToken fuel .anything
        let line := (← get).line
        let acc := (if t.isOperator "&" then .background line c else c) :: acc
        if t.isOperator "&" ∨ t.isOperator ";" then readMore fuel atTop true acc
        else
          match t with
          | .newline =>
            Read.putBack t
            readMore fuel atTop true acc
          | .endOfFile =>
            readDocuments fuel
            Read.putBack t
            return .ofList acc.reverse
          | t =>
            if atTop then Read.unexpected t
            else
              Read.putBack t
              return .ofList acc.reverse

def readAndOr (fuel : Nat) : Read Command := do
  match fuel with
  | 0 => Read.refuse "too long"
  | fuel + 1 =>
    let c ← readPipeline fuel .anything
    readMoreAndOr fuel c

def readMoreAndOr (fuel : Nat) (c : Command) : Read Command := do
  match fuel with
  | 0 => Read.refuse "too long"
  | fuel + 1 =>
    let t ← readToken fuel .anything
    if t.isOperator "&&" then
      let d ← readPipeline fuel .keywordBelow
      readMoreAndOr fuel (.both c d)
    else if t.isOperator "||" then
      let d ← readPipeline fuel .keywordBelow
      readMoreAndOr fuel (.either c d)
    else
      Read.putBack t
      return c

def readPipeline (fuel : Nat) (expected : Expectation) : Read Command := do
  match fuel with
  | 0 => Read.refuse "too long"
  | fuel + 1 =>
    let t ← readToken fuel expected
    let negated := t.isKeyword "!"
    if !negated then Read.putBack t
    let first ← readCommand fuel (if negated then .keyword else .anything)
    let others ← readPiped fuel []
    let c := if others.isEmpty then first else .pipeline (first :: others)
    return if negated then .negation c else c

/-- The commands of a pipeline after its first one. -/
def readPiped (fuel : Nat) (acc : List Command) : Read (List Command) := do
  match fuel with
  | 0 => Read.refuse "too long"
  | fuel + 1 =>
    let t ← readToken fuel .anything
    if t.isOperator "|" then
      let c ← readCommand fuel .keywordBelow
      readPiped fuel (c :: acc)
    else
      Read.putBack t
      return acc.reverse

/-- Read a token that has to come. -/
def expectKeyword (fuel : Nat) (expected : Expectation) (text : String) : Read Unit := do
  match fuel with
  | 0 => Read.refuse "too long"
  | fuel + 1 =>
    let t ← readToken fuel expected
    if !t.isKeyword text then Read.expecting t ("\"" ++ text ++ "\"")

def readCommand (fuel : Nat) (expected : Expectation) : Read Command := do
  match fuel with
  | 0 => Read.refuse "too long"
  | fuel + 1 =>
    let line := (← get).line
    let t ← readToken fuel expected
    match t with
    | .word .. | .redirection .. =>
      Read.putBack t
      readSimple fuel (← get).line [] [] []
    | .operator "(" =>
      let c ← readList fuel false false
      let t ← readToken fuel .anything
      if !t.isOperator ")" then Read.expecting t "\")\""
      return .subshell line c (← readRedirections fuel .keyword [])
    | .keyword "\x7b" _ =>
      let c ← readList fuel false false
      expectKeyword fuel .anything "\x7d"
      redirected line c (← readRedirections fuel .keyword [])
    | .keyword "if" _ =>
      let c ← readBranch fuel
      redirected line c (← readRedirections fuel .keyword [])
    | .keyword "while" _ | .keyword "until" _ =>
      let condition ← readList fuel false false
      expectKeyword fuel .anything "do"
      let body ← readList fuel false false
      expectKeyword fuel .anything "done"
      let c := .loop (t.isKeyword "while") condition body
      redirected line c (← readRedirections fuel .keyword [])
    | .keyword "for" _ =>
      let c ← readFor fuel line
      redirected line c (← readRedirections fuel .keyword [])
    | .keyword "case" _ =>
      match ← readToken fuel .anything with
      | .word w _ =>
        expectKeyword fuel .keywordBelow "in"
        let branches ← readBranches fuel []
        redirected line (.select line w branches) (← readRedirections fuel .keyword [])
      | t => Read.expecting t "word"
    | t => Read.unexpected t
where
  redirected (line : Nat) (c : Command) : List (Redirection Word) → Read Command
    | [] => return c
    | rs => return .redirected line c rs

/-- The redirections after a command. -/
def readRedirections (fuel : Nat) (expected : Expectation) (acc : List (Redirection Word)) :
    Read (List (Redirection Word)) := do
  match fuel with
  | 0 => Read.refuse "too long"
  | fuel + 1 =>
    match ← readToken fuel expected with
    | .redirection fd kind =>
      let r ← readTarget fuel fd kind
      readRedirections fuel .anything (r :: acc)
    | t =>
      Read.putBack t
      return acc.reverse

def readTarget (fuel : Nat) (fd : Nat) (kind : RedirectionKind) : Read (Redirection Word) := do
  match fuel, kind with
  | 0, _ => Read.refuse "too long"
  | _, .document n => return ⟨fd, .document n, []⟩
  | fuel + 1, kind =>
    match ← readToken fuel .anything with
    | .word w _ => return ⟨fd, kind, w⟩
    | t => Read.unexpected t

/-- A command of words, or the definition of a function. -/
def readSimple (fuel : Nat) (line : Nat) (assignments words : List Word)
    (redirections : List (Redirection Word)) : Read Command := do
  match fuel with
  | 0 => Read.refuse "too long"
  | fuel + 1 =>
    let t ← readToken fuel (if words.isEmpty then .command else .anything)
    let stop : Read Command := do
      Read.putBack t
      return .simple line assignments.reverse words.reverse redirections.reverse
    match t with
    | .word w _ =>
      if words.isEmpty ∧ w.isAssignment then
        readSimple fuel line (w :: assignments) words redirections
      else readSimple fuel line assignments (w :: words) redirections
    | .redirection fd kind =>
      let r ← readTarget fuel fd kind
      readSimple fuel line assignments words (r :: redirections)
    | .operator "(" =>
      match assignments, words, redirections with
      | [], [w], [] =>
        let t ← readToken fuel .anything
        if !t.isOperator ")" then Read.expecting t "\")\""
        match Word.plain? w with
        | some name =>
          if Bytes.isName name ∧ !specialNames.contains (String.ofList name) then
            let line := (← get).line
            let body ← readCommand fuel .keywordBelow
            return .define line name body
          else Read.refuse "Bad function name"
        | none => Read.refuse "Bad function name"
      | _, _, _ => stop
    | _ => stop

/-- What follows `if`. -/
def readBranch (fuel : Nat) : Read Command := do
  match fuel with
  | 0 => Read.refuse "too long"
  | fuel + 1 =>
    let condition ← readList fuel false false
    expectKeyword fuel .anything "then"
    let yes ← readList fuel false false
    let t ← readToken fuel .anything
    if t.isKeyword "elif" then
      let no ← readBranch fuel
      return .branch condition yes no
    else if t.isKeyword "else" then
      let no ← readList fuel false false
      expectKeyword fuel .anything "fi"
      return .branch condition yes no
    else
      Read.putBack t
      expectKeyword fuel .anything "fi"
      return .branch condition yes (.sequence [])

/-- What follows `for`. -/
def readFor (fuel : Nat) (line : Nat) : Read Command := do
  match fuel with
  | 0 => Read.refuse "too long"
  | fuel + 1 =>
    let name ← match ← readToken fuel .anything with
      | .word w _ => pure ((Word.plain? w).getD [])
      | _ => pure []
    if !Bytes.isName name then Read.refuse "Bad for loop variable"
    let t ← readToken fuel .keywordBelow
    let words ← if t.isKeyword "in" then readWords fuel []
      else do
        if !t.isOperator ";" then Read.putBack t
        pure [[.parameter ['@'] .value [] true]]
    expectKeyword fuel .keywordBelow "do"
    let body ← readList fuel false false
    expectKeyword fuel .anything "done"
    return .forEach line name words body

/-- The words of a loop up to the end of their line. -/
def readWords (fuel : Nat) (acc : List Word) : Read (List Word) := do
  match fuel with
  | 0 => Read.refuse "too long"
  | fuel + 1 =>
    match ← readToken fuel .anything with
    | .word w _ => readWords fuel (w :: acc)
    | .newline | .operator ";" => return acc.reverse
    | t => Read.unexpected t

/-- The branches of a selection, up to the word that ends it. -/
def readBranches (fuel : Nat) (acc : List (List Word × Command)) :
    Read (List (List Word × Command)) := do
  match fuel with
  | 0 => Read.refuse "too long"
  | fuel + 1 =>
    let t ← readToken fuel .keywordBelow
    if t.isKeyword "esac" then return acc.reverse
    else
      let t ← if t.isOperator "(" then readToken fuel .anything else pure t
      let patterns ← readPatterns fuel t []
      let c ← readList fuel false true
      let t ← readToken fuel .keywordBelow
      let acc := (patterns, c) :: acc
      if t.isKeyword "esac" then return acc.reverse
      else if t.isOperator ";;" then readBranches fuel acc
      else Read.expecting t "\";;\""

/-- Patterns with bars between them, of which the first token was read, up to the
parenthesis after them. -/
def readPatterns (fuel : Nat) (t : Token) (acc : List Word) : Read (List Word) := do
  match fuel with
  | 0 => Read.refuse "too long"
  | fuel + 1 =>
    let w ← match t with
      | .word w _ | .keyword _ w => pure w
      | t => Read.expecting t "word"
    let t ← readToken fuel .anything
    if t.isOperator "|" then
      let t ← readToken fuel .anything
      readPatterns fuel t (w :: acc)
    else if t.isOperator ")" then return (w :: acc).reverse
    else Read.expecting t "\")\""

end

/-- What comes next in a script. -/
inductive Portion where
  /-- A command, and whether nothing follows it. -/
  | command (c : Command) (last : Bool)
  | finished

/-- The next complete command of a script. -/
def readPortion : Read Portion := do
  let s ← get
  set { s with token := none, awaited := [] }
  let c ← readList (16 * s.rest.length + 64) true false
  match (← get).token, c with
  | some .endOfFile, .sequence [] => return .finished
  | some .endOfFile, c => return .command c true
  | _, c => return .command c false

end Shell
end Publishing
