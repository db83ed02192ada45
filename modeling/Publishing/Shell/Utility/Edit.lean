import Publishing.Shell.Utility.Entry
import Publishing.Shell.Utility.Search
import Publishing.Shell.Utility.SearchPattern.Reader

/-
The program that edits the lines of a text.

A script is read into a row of instructions, in which a block and a jump are places to
go on at.
-/

namespace Publishing
namespace Shell

namespace Edit

/-! ## Scripts -/

inductive Place where
  | line (n : Nat)
  | last
  /-- Where something is found.  Without a pattern it is what was looked for last. -/
  | found (p : Option Program.Search)
  | every (first step : Nat)

inductive Range where
  | always
  | at (p : Place)
  | fromTo (a b : Place)
  /-- A place and so many lines after it. -/
  | lines (a : Place) (count : Nat)

/-- A piece of what takes the place of what is found. -/
inductive Insertion where
  | byte (c : Char)
  | group (n : Nat)
  /-- Change the case of what follows. -/
  | casing (c : Char)

structure Substitution where
  search : Option Program.Search
  insertion : List Insertion
  everywhere : Bool
  /-- Which of those that are found is the first to be replaced. -/
  number : Nat
  prints : Bool
  file : Option Bytes

inductive Instruction where
  | openBlock (stop : Nat)
  | nothing
  | jump (target : Nat)
  | jumpIfReplaced (target : Nat) (negated : Bool)
  | append (text : Bytes)
  | insert (text : Bytes)
  | change (text : Bytes)
  | substitute (s : Substitution)
  | replaceBytes (pairs : List (Letter × Letter))
  | quit (silent : Bool) (status : Nat)
  | readFile (path : Bytes)
  | writeFile (path : Bytes)
  | simple (c : Char)

structure Guarded where
  range : Range
  negated : Bool
  instruction : Instruction

/-- What is still to be read, and what was. -/
structure Source where
  rest : Bytes
  position : Nat
  extended : Bool

/-- Reads a script, or tells what is wrong with it. -/
abbrev Read := StateT Source (Except (Option Nat × String))

namespace Read

/-- Something is wrong at the place up to which the script was read. -/
def wrong {α : Type} (text : String) : Read α := do throw (some (← get).position, text)

def peek : Read (Option Char) := return (← get).rest.head?

def next : Read (Option Char) := do
  let s ← get
  match s.rest with
  | [] => return none
  | c :: rest =>
    set { s with rest := rest, position := s.position + 1 }
    return some c

def takeWhile (p : Char → Bool) : Read Bytes := do
  let s ← get
  let taken := s.rest.takeWhile p
  set { s with rest := s.rest.drop taken.length, position := s.position + taken.length }
  return taken

def spaces : Read Unit := do let _ ← takeWhile Bytes.isSpace

/-- The text up to a delimiter, in which a backslash takes its meaning from it. -/
def delimited (fuel : Nat) (delimiter : Char) (isPattern inBrackets : Bool) (acc : Bytes) :
    Read (Option Bytes) := do
  match fuel, ← next with
  | 0, _ | _, none => return none
  | fuel + 1, some c =>
    if c = delimiter ∧ !inBrackets then return some acc.reverse
    else if c = '\\' ∧ !inBrackets then
      match ← next with
      | none => return none
      | some d =>
        if d = delimiter then
          let acc := if isPattern then acc else '\\' :: acc
          delimited fuel delimiter isPattern false (d :: acc)
        else if d = 'n' ∧ isPattern then delimited fuel delimiter isPattern false ('\n' :: acc)
        else delimited fuel delimiter isPattern false (d :: '\\' :: acc)
    else if c = '\n' ∧ isPattern ∧ !inBrackets then return none
    else if isPattern ∧ c = '[' ∧ !inBrackets then
      let first ← takeWhile (· = '^')
      let close ← if (← peek) = some ']' then takeWhileOne else pure []
      delimited fuel delimiter isPattern true (close.reverse ++ first.reverse ++ c :: acc)
    else if isPattern ∧ inBrackets ∧ c = '\\' ∧ (← peek) = some 'n' then
      let _ ← next
      delimited fuel delimiter isPattern true ('\n' :: acc)
    else if isPattern ∧ inBrackets ∧ c = '[' ∧ ((← peek).any [':', '=', '.'].contains) then
      let mark := ((← peek).getD ':')
      let _ ← next
      let name ← takeWhile (· ≠ mark)
      let ending := (← get).rest.take 2
      let _ ← next
      let _ ← next
      delimited fuel delimiter isPattern true
        (ending.reverse ++ name.reverse ++ mark :: c :: acc)
    else
      delimited fuel delimiter isPattern (inBrackets && c ≠ ']') (c :: acc)
where
  takeWhileOne : Read Bytes := return (← next).toList

/-- A number of so many digits at most, and how many there are. -/
def numberAt (base most : Nat) (cs : Bytes) : Nat × Nat :=
  let isDigit (c : Char) : Bool := (Text.hexValue? c).any (· < base)
  let digits := (cs.takeWhile isDigit).take most
  (digits.foldl (fun n c => n * base + (Text.hexValue? c).getD 0) 0, digits.length)

/-- The byte that a letter and what follows it mean after a backslash, and how much of that
belongs to it. -/
def escape? (c : Char) (rest : Bytes) : Option (Char × Nat) :=
  let numbered (base most : Nat) : Option (Char × Nat) :=
    let (n, size) := numberAt base most rest
    if size = 0 then none else some (Char.ofNat (n % 256), size)
  match c with
  | 'a' => some ('\x07', 0)
  | 'f' => some ('\x0c', 0)
  | 'r' => some ('\r', 0)
  | 't' => some ('\t', 0)
  | 'v' => some ('\x0b', 0)
  | 'c' => rest.head?.map fun d => (Char.ofNat (Nat.xor d.toUpper.toNat 64 % 256), 1)
  | 'd' => numbered 10 3
  | 'o' => numbered 8 3
  | 'x' => numbered 16 2
  | _ => none

/-- Put bytes for what is meant by letters after backslashes.  A byte that would mean something
itself keeps the backslash. -/
def withEscapes (kept : List Char) (fuel : Nat) (cs : Bytes) : Bytes :=
  match fuel, cs with
  | fuel + 1, '\\' :: c :: rest =>
    match escape? c rest with
    | some (d, size) =>
      (if kept.contains d then ['\\', d] else [d]) ++ withEscapes kept fuel (rest.drop size)
    | none =>
      -- Digits that are missing leave the letter.
      if c = 'd' ∨ c = 'o' ∨ c = 'x' then c :: withEscapes kept fuel rest
      else '\\' :: c :: withEscapes kept fuel rest
  | fuel + 1, c :: rest => c :: withEscapes kept fuel rest
  | _, cs => cs

/-- What a pattern searches for, and how many groups it has. -/
def search (text : Bytes) (folds : Bool) : Read (Option (Program.Search × Nat)) := do
  if text = [] then return none
  else
    match SearchPattern.ofText ⟨(← get).extended, true⟩ (withEscapes ['\\'] text.length text) with
    | .ok p =>
      if p.confusing then throw (none, SearchPattern.confusion)
      return some (.anywhere p.pattern folds, p.groups)
    | .error what => wrong what

def number : Read Nat := return Text.numberOf (← takeWhile Text.isDigit)

def place? : Read (Option Place) := do
  match ← peek with
  | some '$' =>
    let _ ← next
    return some .last
  | some '/' =>
    let _ ← next
    found '/'
  | some '\\' =>
    let _ ← next
    match ← next with
    | some d => found d
    | none => wrong "unexpected \x60,'"
  | some c =>
    if Text.isDigit c then
      let n ← number
      if (← peek) = some '~' then
        let _ ← next
        return some (.every n (← number))
      else return some (.line n)
    else return none
  | none => return none
where
  found (d : Char) : Read (Option Place) := do
    let fuel := (← get).rest.length + 1
    match ← delimited fuel d true false [] with
    | none => wrong "unterminated address regex"
    | some text =>
      let flags ← takeWhile fun c => c = 'I' || c = 'M'
      return some (.found ((← search text (flags.contains 'I')).map (·.1)))

def range : Read Range := do
  match ← place? with
  | none => return .always
  | some a =>
    spaces
    if (← peek) = some ',' then
      let _ ← next
      spaces
      if (← peek) = some '+' then
        let _ ← next
        return .lines a (← number)
      else
        match ← place? with
        | some b => return .fromTo a b
        | none => wrong "unexpected \x60,'"
    else return .at a

/-- What takes the place of what is found. -/
def insertion (cs : Bytes) : List Insertion :=
  match cs with
  | [] => []
  | '&' :: rest => .group 0 :: insertion rest
  | '\\' :: c :: rest =>
    (if Text.isDigit c then .group (Text.digitValue c)
      else if "LUluE".toList.contains c then .casing c
      else if c = 'n' then .byte '\n'
      else .byte c) :: insertion rest
  | c :: rest => .byte c :: insertion rest

/-- The end of a command. -/
def ending : Read Unit := do
  let _ ← takeWhile Bytes.isBlank
  match ← peek with
  | none | some '\x7d' | some '#' => return
  | some '\n' | some ';' => let _ ← next
  | some _ =>
    let _ ← next
    wrong "extra characters after command"

def restOfLine : Read Bytes := takeWhile (· ≠ '\n')

def flags (fuel : Nat) (s : Substitution) (folds : Bool) : Read (Substitution × Bool) := do
  match fuel, ← peek with
  | 0, _ => return (s, folds)
  | fuel + 1, some c =>
    if c = 'w' then
      let _ ← next
      spaces
      return ({ s with file := some (← restOfLine) }, folds)
    else if Text.isDigit c then
      let n ← number
      if n = 0 then wrong "number option to \x60s' command may not be zero"
      if s.number ≠ 0 then wrong "multiple number options to \x60s' command"
      flags fuel { s with number := n } folds
    else if "gpiIeMm".toList.contains c then
      let _ ← next
      if c = 'g' then
        if s.everywhere then wrong "multiple \x60g' options to \x60s' command"
        flags fuel { s with everywhere := true } folds
      else if c = 'p' then
        if s.prints then wrong "multiple \x60p' options to \x60s' command"
        flags fuel { s with prints := true } folds
      else flags fuel s (folds || c = 'i' || c = 'I')
    else if ['\n', ';', '\x7d', '#', ' ', '\t'].contains c then
      ending
      return (s, folds)
    else
      let _ ← next
      wrong "unknown option to \x60s'"
  | _, none => return (s, folds)

def substitution : Read Instruction := do
  let fuel := (← get).rest.length + 1
  match ← next with
  | none => wrong "unterminated \x60s' command"
  | some d =>
    let pattern? ← delimited fuel d true false []
    let new? ← if pattern?.isSome then delimited fuel d false false [] else pure none
    match pattern?, new? with
    | some pattern, some new =>
      let new := insertion (withEscapes ['\\', '&'] new.length new)
      let empty : Substitution := ⟨none, new, false, 0, false, none⟩
      let (s, folds) ← flags fuel empty false
      let search ← search pattern folds
      let greatest := new.foldl (fun n i => match i with
        | .group m => max n m
        | _ => n) 0
      if (search.map (·.2)).getD 9 < greatest then
        wrong ("invalid reference \\" ++ String.ofList (Bytes.decimal greatest) ++
          " on \x60s' command's RHS")
      return .substitute { s with search := search.map (·.1) }
    | _, _ => wrong "unterminated \x60s' command"

def replacement : Read Instruction := do
  let fuel := (← get).rest.length + 1
  match ← next with
  | none => wrong "unterminated \x60y' command"
  | some d =>
    match ← delimited fuel d false false [], ← delimited fuel d false false [] with
    | some a, some b =>
      let plain (cs : Bytes) : List Letter :=
        Letter.ofBytes (unescaped d (withEscapes ['\\'] cs.length cs))
      let (a, b) := (plain a, plain b)
      if a.length ≠ b.length then wrong "strings for \x60y' command are different lengths"
      ending
      return .replaceBytes (a.zip b)
    | _, _ => wrong "unterminated \x60y' command"
where
  unescaped (d : Char) (cs : Bytes) : Bytes :=
    match cs with
    | '\\' :: 'n' :: rest => '\n' :: unescaped d rest
    | '\\' :: 't' :: rest => '\t' :: unescaped d rest
    | '\\' :: c :: rest =>
      if c = d ∨ c = '\\' then c :: unescaped d rest else '\\' :: c :: unescaped d rest
    | c :: rest => c :: unescaped d rest
    | [] => []

/-- The text of a command that adds lines. -/
def addedText : Read Bytes := do
  let _ ← takeWhile Bytes.isBlank
  match (← get).rest with
  | '\\' :: '\n' :: _ =>
    let _ ← next
    let _ ← next
    let _ ← takeWhile Bytes.isBlank
    lines
  | '\\' :: _ =>
    let _ ← next
    lines
  | [] => wrong "expected \\ after \x60a', \x60c' or \x60i'"
  | _ => lines
where
  lines : Read Bytes := do
    let fuel := (← get).rest.length + 1
    return (← body fuel []) ++ ['\n']
  body (fuel : Nat) (acc : Bytes) : Read Bytes := do
    match fuel, ← next with
    | 0, _ | _, none | _, some '\n' => return acc.reverse
    | fuel + 1, some '\\' =>
      match ← next with
      | none => return acc.reverse
      | some c =>
        let s ← get
        let (d, size) := (escape? c s.rest).getD (c, 0)
        set { s with rest := s.rest.drop size, position := s.position + size }
        body fuel (d :: acc)
    | fuel + 1, some c => body fuel (c :: acc)

end Read

/-- An instruction as it is read: jumps still lead to labels. -/
inductive Draft where
  | done (i : Instruction)
  | openBlock
  | closeBlock
  | label (name : Bytes)
  | jump (letter : Char) (name : Bytes)

namespace Read

/-- A command after its range. -/
def command (addressed : Range) (c : Char) : Read Draft := do
  let plain (i : Instruction) : Read Draft := do
    ending
    return .done i
  let path : Read Bytes := do
    spaces
    let path ← restOfLine
    if path = [] then wrong "missing filename in r/R/w/W commands"
    return path
  match c with
  | '\x7b' => return .openBlock
  | '\x7d' =>
    match addressed with
    | .always =>
      ending
      return .closeBlock
    | _ => wrong "\x7d doesn't want any addresses"
  | ':' =>
    match addressed with
    | .always =>
      let _ ← takeWhile Bytes.isBlank
      let name ← takeWhile fun c => !Bytes.isSpace c && c ≠ ';'
      if name = [] then wrong "\":\" lacks a label"
      return .label name
    | _ => wrong ": doesn't want any addresses"
  | 'b' | 't' | 'T' =>
    let _ ← takeWhile Bytes.isBlank
    let name ← takeWhile fun c => c ≠ '\n' && c ≠ ';' && c ≠ '\x7d'
    let name := (name.reverse.dropWhile Bytes.isSpace).reverse
    return .jump c name
  | 'a' => return .done (.append (← addedText))
  | 'i' => return .done (.insert (← addedText))
  | 'c' => return .done (.change (← addedText))
  | 's' => return .done (← substitution)
  | 'y' => return .done (← replacement)
  | 'q' | 'Q' =>
    match addressed with
    | .fromTo .. | .lines .. => wrong "command only uses one address"
    | _ =>
      let _ ← takeWhile Bytes.isBlank
      let n ← number
      plain (.quit (c = 'Q') n)
  | 'r' => return .done (.readFile (← path))
  | 'w' => return .done (.writeFile (← path))
  | c =>
    if "=dDgGhHlnNpPxzF".toList.contains c then plain (.simple c)
    else wrong ("unknown command: \x60" ++ String.ofList [c] ++ "'")

/-- All commands of a script. -/
def script (fuel : Nat) (acc : List (Range × Bool × Draft)) :
    Read (List (Range × Bool × Draft)) := do
  match fuel with
  | 0 => return acc.reverse
  | fuel + 1 =>
    let _ ← takeWhile fun c => Bytes.isSpace c || c = ';'
    match ← peek with
    | none => return acc.reverse
    | some '#' =>
      let _ ← restOfLine
      script fuel acc
    | some _ =>
      let addressed ← range
      spaces
      let marks ← takeWhile fun c => c = '!' || Bytes.isSpace c
      match ← next with
      | none => wrong "missing command"
      | some c =>
        let d ← command addressed c
        match d with
        | .closeBlock =>
          let opened := acc.countP fun e => match e.2.2 with
            | .openBlock => true
            | _ => false
          let closed := acc.countP fun e => match e.2.2 with
            | .closeBlock => true
            | _ => false
          if opened ≤ closed then wrong "unexpected \x60\x7d'"
        | _ => pure ()
        script fuel ((addressed, marks.contains '!', d) :: acc)

end Read

/-- Where the block ends that is open here. -/
def blockEnd (depth index : Nat) : List Draft → Option Nat
  | [] => none
  | d :: rest =>
    match d with
    | .openBlock => blockEnd (depth + 1) (index + 1) rest
    | .closeBlock => if depth = 0 then some index else blockEnd (depth - 1) (index + 1) rest
    | _ => blockEnd depth (index + 1) rest

/-- Let blocks and jumps lead to their places. -/
def settle (drafts : List (Range × Bool × Draft)) :
    Except (Option Nat × String) (List Guarded) :=
  let plain := drafts.map (·.2.2)
  let labelAt (name : Bytes) : Option Nat :=
    if name = [] then some plain.length
    else plain.findIdx? fun d => match d with
      | .label other => other = name
      | _ => false
  drafts.zipIdx.mapM fun ((r, negated, d), i) =>
    match d with
    | .done instruction => .ok ⟨r, negated, instruction⟩
    | .closeBlock | .label _ => .ok ⟨.always, false, .nothing⟩
    | .openBlock =>
      match blockEnd 0 (i + 1) (plain.drop (i + 1)) with
      | some stop => .ok ⟨r, negated, .openBlock stop⟩
      | none => .error (some 0, "unmatched \x60\x7b'")
    | .jump letter name =>
      match labelAt name with
      | none => .error (none, "can't find label for jump to \x60" ++ Bytes.toText name ++ "'")
      | some target =>
        .ok ⟨r, negated,
          if letter = 'b' then .jump target else .jumpIfReplaced target (letter = 'T')⟩

/-- The instructions of a script, or where and what is wrong with it. -/
def ofText (extended : Bool) (text : Bytes) : Except (Option Nat × String) (List Guarded) :=
  (((Read.script (text.length + 1) []).run ⟨text, 0, extended⟩).map (·.1)).bind settle

/-! ## Running -/

structure Machine where
  space : Bytes
  hold : Bytes
  number : Nat
  /-- The lines that are still to be read, with their ends. -/
  rest : List Bytes
  /-- Whether the last line that was read had an end. -/
  closed : Bool
  replaced : Bool
  /-- What follows the line. -/
  queue : List Bytes
  /-- The instructions whose ranges are open, and the lines with which they close, if that
  is known. -/
  opened : List (Nat × Option Nat)
  last : Option Program.Search
  output : List Bytes

inductive Outcome where
  | done
  | again
  | quit (status : Nat)

namespace Machine

def print (m : Machine) (cs : Bytes) : Machine := { m with output := cs :: m.output }

/-- Print a line, without its end if it had none. -/
def printLine (m : Machine) (cs : Bytes) : Machine :=
  m.print (if m.closed then cs ++ ['\n'] else cs)

def isLast (m : Machine) : Bool := m.rest.isEmpty

def advance? (m : Machine) : Option Machine :=
  match m.rest with
  | [] => none
  | line :: rest =>
    some { m with
      space := Program.bare line
      rest := rest
      number := m.number + 1
      closed := line.getLast? = some '\n' }

def isAt (m : Machine) (p : Place) : Bool × Machine :=
  match p with
  | .line n => (m.number = n, m)
  | .last => (m.isLast, m)
  | .every first step =>
    (if step = 0 then m.number = first else first ≤ m.number && (m.number - first) % step = 0, m)
  | .found p? =>
    match p?.or m.last with
    | none => (false, m)
    | some q => (q.finds m.space, { m with last := some q })

/-- Whether an instruction is for this line. -/
def selects (m : Machine) (index : Nat) (r : Range) : Bool × Machine :=
  match r with
  | .always => (true, m)
  | .at p => m.isAt p
  | .fromTo a b =>
    match m.opened.lookup index with
    | some stop? =>
      match stop? with
      | some n =>
        if m.number < n then (true, m)
        else (m.number = n, close m)
      | none =>
        let (ends, m) := m.isAt b
        (true, if ends then close m else m)
    | none =>
      match a, b with
      | .line 0, .found _ =>
        if m.number = 1 then
          let (ends, m) := m.isAt b
          (true, if ends then m else open_ m none)
        else (false, m)
      | _, _ =>
        let (starts, m) := m.isAt a
        if !starts then (false, m)
        else
          match b with
          | .line n => (true, if m.number < n then open_ m (some n) else m)
          | .last => (true, if m.isLast then m else open_ m none)
          | _ => (true, open_ m none)
  | .lines a count =>
    match m.opened.lookup index with
    | some stop? =>
      let n := stop?.getD 0
      (true, if m.number < n then m else close m)
    | none =>
      let (starts, m) := m.isAt a
      (starts, if starts ∧ 0 < count then open_ m (some (m.number + count)) else m)
where
  close (m : Machine) : Machine := { m with opened := m.opened.filter fun o => o.1 ≠ index }
  open_ (m : Machine) (stop? : Option Nat) : Machine :=
    { m with opened := (index, stop?) :: m.opened }

end Machine

/-- What was found, put into what takes its place. -/
def inserted (whole : Bytes) (groups : List (Nat × List Letter)) (is : List Insertion) : Bytes :=
  (go is none none).flatten
where
  recased (once all : Option Char) (cs : Bytes) : Bytes :=
    let cs := match all with
      | some 'U' => cs.map Char.toUpper
      | some 'L' => cs.map Char.toLower
      | _ => cs
    match once, cs with
    | some 'u', c :: rest => c.toUpper :: rest
    | some 'l', c :: rest => c.toLower :: rest
    | _, cs => cs
  go (is : List Insertion) (once all : Option Char) : List Bytes :=
    match is with
    | [] => []
    | .byte c :: rest => recased once all [c] :: go rest none all
    | .group n :: rest =>
      let cs := if n = 0 then whole else ((groups.lookup n).getD []).flatten
      recased once all cs :: go rest (if cs = [] then once else none) all
    | .casing c :: rest =>
      if c = 'u' ∨ c = 'l' then go rest (some c) all
      else go rest none (if c = 'E' then none else some c)

/-- Replace what is found from a spot on.  The count is of what was found before. -/
def substituted (s : Substitution) (q : Program.Search) (fuel count : Nat) (afterFound : Bool)
    (spot : SearchPattern.Spot) : List Bytes × Bool :=
  match fuel with
  | 0 => ([spot.rest.flatten], false)
  | fuel + 1 =>
    match q.find? spot with
    | none => ([spot.rest.flatten], false)
    | some (a, b) =>
      let skipped := (spot.rest.take (a.offset - spot.offset)).flatten
      let found := (a.rest.take (b.offset - a.offset)).flatten
      let one := (b.rest.take 1).flatten
      if found = [] ∧ afterFound ∧ a.offset = spot.offset then
        if b.rest.isEmpty then ([], false)
        else
          let (out, any) := substituted s q fuel count false (b.advance 1)
          (one :: out, any)
      else
        let chosen := max s.number 1 ≤ count + 1
        let new := if chosen then inserted found b.groups s.insertion else found
        let goOn := !chosen || s.everywhere
        let b := { b with groups := [] }
        if !goOn then ([skipped, new, b.rest.flatten], true)
        else if found = [] then
          if b.rest.isEmpty then ([skipped, new], chosen)
          else
            let (out, any) := substituted s q fuel (count + 1) false (b.advance 1)
            (skipped :: new :: one :: out, any || chosen)
        else
          let (out, any) := substituted s q fuel (count + 1) true b
          (skipped :: new :: out, any || chosen)

/-- A line so that it can be seen. -/
def shown (cs : Bytes) : Bytes :=
  (cs.flatMap fun c =>
    if c = '\\' then ['\\', '\\']
    else if c = '\n' then ['\\', 'n']
    else if c = '\t' then ['\\', 't']
    else if c = '\x08' then ['\\', 'b']
    else if c = '\x0c' then ['\\', 'f']
    else if c = '\r' then ['\\', 'r']
    else if c = '\x07' then ['\\', 'a']
    else if c = '\x0b' then ['\\', 'v']
    else if c < ' ' ∨ 127 ≤ c.toNat then
      let n := c.toNat
      ['\\', Char.ofNat (48 + n / 64), Char.ofNat (48 + n / 8 % 8), Char.ofNat (48 + n % 8)]
    else [c]) ++ ['$']

/-- Print what was to follow the line. -/
def flush (m : Machine) : Act Machine := do
  let mut m := m
  for text in m.queue do m := m.print text
  return { m with queue := [] }

def appendTo (path cs : Bytes) : Act Unit := do
  if path = "/dev/stdout".toList then Act.print cs
  else
    let s ← get
    match s.files.append (Bytes.toText path) (Bytes.toByteArray cs) with
    | .ok files => set { s with files := files }
    | .error _ => pure ()

/-- Run the instructions from one of them on. -/
def run (silent : Bool) (program : Array Guarded) (fuel index : Nat) (m : Machine) :
    Act (Outcome × Machine) := do
  match fuel with
  | 0 => Act.stop .endless
  | fuel + 1 =>
    match program[index]? with
    | none => return (.done, m)
    | some g =>
      let (chosen, m) := m.selects index g.range
      let goOn (m : Machine) : Act (Outcome × Machine) := run silent program fuel (index + 1) m
      if chosen = g.negated then
        match g.instruction with
        | .openBlock stop => run silent program fuel (stop + 1) m
        | _ => goOn m
      else
        match g.instruction with
        | .openBlock _ | .nothing => goOn m
        | .jump target => run silent program fuel target m
        | .jumpIfReplaced target negated =>
          if m.replaced ≠ negated then run silent program fuel target { m with replaced := false }
          else goOn { m with replaced := false }
        | .append text => goOn { m with queue := m.queue ++ [text] }
        | .insert text => goOn (m.print text)
        | .change text =>
          let within := (m.opened.lookup index).isSome && !g.negated
          let m := if within then m else m.print text
          return (.again, { m with space := [] })
        | .substitute s =>
          match s.search.or m.last with
          | none => goOn m
          | some q =>
            let letters := Letter.ofBytes m.space
            let (out, any) := substituted s q (letters.length + 2) 0 false (.start letters)
            let m := { m with last := some q }
            if !any then goOn m
            else
              let m := { m with space := out.flatten, replaced := true }
              let m := if s.prints then m.printLine m.space else m
              match s.file with
              | some path => appendTo path (m.space ++ ['\n'])
              | none => pure ()
              goOn m
        | .replaceBytes pairs =>
          let new := (Letter.ofBytes m.space).flatMap fun l => (pairs.lookup l).getD l
          goOn { m with space := new }
        | .quit quiet status =>
          let m := if quiet ∨ silent then m else m.printLine m.space
          return (.quit status, if quiet then { m with queue := [] } else m)
        | .readFile path =>
          match ← Program.readFile path with
          | .ok bytes => goOn { m with queue := m.queue ++ [Bytes.ofByteArray bytes] }
          | .error _ => goOn m
        | .writeFile path =>
          appendTo path (m.space ++ ['\n'])
          goOn m
        | .simple c =>
          match c with
          | '=' => goOn (m.print (Bytes.decimal m.number ++ ['\n']))
          | 'd' => return (.again, m)
          | 'D' =>
            if m.space.contains '\n' then
              let rest := (m.space.dropWhile (· ≠ '\n')).drop 1
              let m ← flush m
              run silent program fuel 0 { m with space := rest }
            else return (.again, m)
          | 'g' => goOn { m with space := m.hold }
          | 'G' => goOn { m with space := m.space ++ '\n' :: m.hold }
          | 'h' => goOn { m with hold := m.space }
          | 'H' => goOn { m with hold := m.hold ++ '\n' :: m.space }
          | 'l' => goOn (m.print (shown m.space ++ ['\n']))
          | 'n' =>
            let printed := if silent then m else m.printLine m.space
            match printed.advance? with
            | none => return (.quit 0, printed)
            | some next =>
              let flushed ← flush { next with queue := printed.queue }
              goOn flushed
          | 'N' =>
            match m.advance? with
            | none =>
              let m := if silent then m else m.printLine m.space
              return (.quit 0, m)
            | some next =>
              let flushed ← flush next
              goOn { flushed with space := m.space ++ '\n' :: next.space }
          | 'p' => goOn (m.printLine m.space)
          | 'P' => goOn (m.print (Program.bare m.space ++ ['\n']))
          | 'x' => goOn { m with space := m.hold, hold := m.space }
          | 'z' => goOn { m with space := [] }
          | 'F' => goOn (m.print "-\n".toList)
          | _ => goOn m

/-- Edit all lines: the machine at the end, and the status. -/
def runAll (silent : Bool) (program : Array Guarded) (fuel : Nat) (m : Machine) :
    Act (Nat × Machine) := do
  match fuel with
  | 0 => Act.stop .endless
  | fuel + 1 =>
    match m.advance? with
    | none => return (0, m)
    | some m =>
      match ← run silent program 1000000 0 { m with replaced := false } with
      | (.quit status, m) => return (status, ← flush m)
      | (.again, m) => runAll silent program fuel (← flush m)
      | (.done, m) =>
        let m := if silent then m else m.printLine m.space
        runAll silent program fuel (← flush m)

def start (lines : List Bytes) : Machine :=
  { space := [], hold := [], number := 0, rest := lines, closed := true, replaced := false,
    queue := [], opened := [], last := none, output := [] }

end Edit

namespace Program

/-- The lines of several texts, each of which ends its last line if another follows. -/
def joinedLines (texts : List Bytes) : List Bytes :=
  match texts with
  | [] => []
  | [cs] => linesOf cs
  | cs :: rest =>
    let lines := linesOf cs
    let closed := match lines.getLast? with
      | some line => lines.dropLast ++ [bare line ++ ['\n']]
      | none => []
    closed ++ joinedLines rest

def sed : Utility := fun args =>
  withOptions "sed" 1 ⟨"nErsuz", "ef", [("quiet", 'n'), ("silent", 'n'), ("expression", 'e'),
    ("file", 'f'), ("regexp-extended", 'E'), ("separate", 's')]⟩ (args.filter (!inPlace ·))
    fun g => do
    let mut parts := g.values 'e'
    for path in g.values 'f' do
      match ← readFile path with
      | .ok bytes => parts := parts ++ [Bytes.ofByteArray bytes]
      | .error cause =>
        report "sed" ("couldn't open file ".toList ++ path ++ ": ".toList ++ cause.reason.toList)
        return 1
    let (text, paths) := if parts.isEmpty then (g.operands.headD [], g.operands.tail)
      else (Bytes.joined ['\n'] parts, g.operands)
    if parts.isEmpty ∧ g.operands.isEmpty then
      Act.note ("Usage: sed [OPTION]... \x7bscript-only-if-no-other-script\x7d " ++
        "[input-file]...").toList
      return 1
    let extended := g.has 'E' || g.has 'r'
    let silent := g.has 'n' || text.take 3 = ['#', 'n', '\n'] || text = ['#', 'n']
    match Edit.ofText extended text with
    | .error (some n, what) =>
      report "sed" ("-e expression #1, char ".toList ++ Bytes.decimal n ++ ": ".toList ++
        what.toList)
      return 1
    | .error (none, what) =>
      report "sed" what.toList
      return if what = SearchPattern.confusion then 4 else 1
    | .ok program =>
      if args.any inPlace then editFiles silent program.toArray paths
      else
        let (texts, status) ← textsAt (orInput paths)
        let lines := joinedLines texts
        let (code, m) ← Edit.runAll silent program.toArray (lines.length + 2) (Edit.start lines)
        if !m.rest.isEmpty then leaveInput
        Act.print m.output.reverse.flatten
        return if status = 4 then 4 else if code ≠ 0 then code else status
where
  inPlace (arg : Bytes) : Bool :=
    arg.take 2 = ['-', 'i'] || arg.take 10 = "--in-place".toList
  /-- The inputs up to the first that is open but cannot be read, and the status for what
  could not be read. -/
  textsAt : List Bytes → Act (List Bytes × Nat)
    | [] => return ([], 0)
    | path :: paths => do
      match ← readInput path with
      | .ok cs =>
        let (texts, status) ← textsAt paths
        return (cs :: texts, status)
      | .error f =>
        let title := if path = ['-'] then "stdin".toList else path
        if f.opened then
          report "sed" ("read error on ".toList ++ title ++ ": ".toList ++ f.reason.toList)
          return ([], 4)
        else
          report "sed" ("can't read ".toList ++ title ++ ": ".toList ++ f.reason.toList)
          let (texts, status) ← textsAt paths
          return (texts, max status 2)
  editFiles (silent : Bool) (program : Array Edit.Guarded) (paths : List Bytes) : Act Nat := do
    let mut status := 0
    for path in paths do
      match ← readFile path with
      | .error cause =>
        report "sed" ("can't read ".toList ++ path ++ ": ".toList ++ cause.reason.toList)
        status := 2
      | .ok bytes =>
        let lines := linesOf (Bytes.ofByteArray bytes)
        let (_, m) ← Edit.runAll silent program (lines.length + 2) (Edit.start lines)
        let s ← get
        let bytes := Bytes.toByteArray m.output.reverse.flatten
        match s.files.write (Bytes.toText path) bytes with
        | .ok files => set { s with files := files }
        | .error _ => pure ()
    return status

end Program
end Shell
end Publishing
